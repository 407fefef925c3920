import ProgressFeed.Proofs.Link.Step

/-!
# A link acts for itself only, and counts its retries

No step changes what a link is, and every channel that a step opens and every alarm that it sets
bears the number of the link; the only alarm that it stops is the one that the link has set. A step
that sets an alarm counts one retry more, sets it for the delay of that retry, and calls nobody.
-/

namespace ProgressFeed

namespace Command

/-- A command that a link of this number may give: it marks channels and alarms as its own. -/
def IsOf (id : Nat) : Command → Prop
  | .open _ stamp => stamp.link = id
  | .setAlarm _ _ task => task = .reopen id
  | .fetch .. => False
  | .create .. | .close .. | .send .. | .stopAlarm _ => True

def delay? : Command → Option Int
  | .setAlarm _ delay _ => some delay
  | _ => none

end Command

namespace Link

def Step.delays (s : Step) : List Int := s.commands.filterMap Command.delay?

/-- The step is one of this link, which stays what it is, gives commands of its own only, and counts
the alarm that it sets. -/
structure Step.IsOf (s : Step) (l : Link) : Prop where
  id : s.link.id = l.id
  source : s.link.source = l.source
  backoff : s.link.backoff = l.backoff
  commands : ∀ c ∈ s.commands, c.IsOf l.id
  stops : ∀ alarm, .stopAlarm alarm ∈ s.commands → l.alarm = some alarm
  delays : s.delays = [] ∧ s.link.attempts = l.attempts ∨
    s.delays = [(l.backoff.delay l.attempts).toInt] ∧ s.link.attempts = l.attempts + 1 ∧
      s.pause = none

variable {l : Link} (o : Outside)

theorem rest_isOf : l.rest.IsOf l := ⟨rfl, rfl, rfl, by simp, by simp, .inl ⟨rfl, rfl⟩⟩

theorem stopCommand_isOf : ∀ c ∈ l.stopCommand, c.IsOf l.id := by
  cases h : l.alarm <;> simp [stopCommand, h, Command.IsOf]

theorem stops_stopCommand {alarm : Nat} (h : .stopAlarm alarm ∈ l.stopCommand) :
    l.alarm = some alarm := by
  cases ha : l.alarm with
  | none => simp [stopCommand, ha] at h
  | some i =>
    simp only [stopCommand, ha, Option.map_some, Option.toList_some, List.mem_singleton,
      Command.stopAlarm.injEq] at h
    rw [h]

theorem delays_stopCommand : l.stopCommand.filterMap Command.delay? = [] := by
  cases h : l.alarm <;> simp [stopCommand, h, Command.delay?]

theorem farewell_isOf : ∀ c ∈ l.farewell, c.IsOf l.id := by
  intro c hc
  rcases List.mem_append.1 hc with hc | hc
  · exact stopCommand_isOf c hc
  · cases h : l.channel with
    | none => simp [h] at hc
    | some d =>
      simp only [h, Option.map_some, Option.toList_some, List.mem_singleton] at hc
      subst hc
      trivial

theorem stops_farewell {alarm : Nat} (h : .stopAlarm alarm ∈ l.farewell) :
    l.alarm = some alarm := by
  rcases List.mem_append.1 h with h | h
  · exact stops_stopCommand h
  · cases hc : l.channel <;> simp [hc] at h

theorem delays_farewell : l.farewell.filterMap Command.delay? = [] := by
  cases h : l.channel <;> simp [farewell, h, delays_stopCommand, Command.delay?]

/-- A link that announces a change, or makes none, stays what it is. -/
theorem Step.IsOf.of_like {l' : Link} {s : Step} (h : s.IsOf l') (hid : l'.id = l.id)
    (hs : l'.source = l.source) (hb : l'.backoff = l.backoff) (ha : l'.attempts = l.attempts)
    (hal : ∀ alarm, l'.alarm = some alarm → l.alarm = some alarm) : s.IsOf l :=
  ⟨h.id.trans hid, h.source.trans hs, h.backoff.trans hb, hid ▸ h.commands,
    fun alarm hm ↦ hal alarm (h.stops alarm hm), hb ▸ ha ▸ h.delays⟩

theorem enter_isOf {now : Connection} {resume : Resume} {next : Link → Step}
    (h : (next l).IsOf l) : (l.enter now resume next).IsOf l := by
  unfold enter
  split
  · exact h
  · exact ⟨rfl, rfl, rfl, by simp, by simp, .inl ⟨rfl, rfl⟩⟩

theorem report_isOf (f : Fault) (resume : Resume) : (l.report f resume).IsOf l :=
  ⟨rfl, rfl, rfl, by simp [report], by simp [report], .inl ⟨rfl, rfl⟩⟩

theorem Step.IsOf.after {s : Step} {commands : List Command} (h : s.IsOf l)
    (hc : ∀ c ∈ commands, c.IsOf l.id)
    (hs : ∀ alarm, .stopAlarm alarm ∈ commands → l.alarm = some alarm)
    (hd : commands.filterMap Command.delay? = []) : (s.after commands).IsOf l := by
  refine ⟨h.id, h.source, h.backoff, fun c hm ↦ ?_, fun alarm hm ↦ ?_, ?_⟩
  · rcases List.mem_append.1 hm with hm | hm
    · exact hc c hm
    · exact h.commands c hm
  · rcases List.mem_append.1 hm with hm | hm
    · exact hs alarm hm
    · exact h.stops alarm hm
  · have hs : (s.after commands).delays = s.delays := by
      simp [Step.delays, Step.after, List.filterMap_append, hd]
    rw [hs]
    exact h.delays

theorem tryLater_isOf : (l.tryLater o).IsOf l :=
  ⟨rfl, rfl, rfl, by simp [tryLater, Command.IsOf], by simp [tryLater], .inr ⟨rfl, rfl, rfl⟩⟩

theorem retry_isOf (g : Nat) : (l.retry g o).IsOf l := by
  unfold retry
  split
  · exact tryLater_isOf o
  · exact rest_isOf

theorem settle_isOf (g : Nat) (c : Channel.Closing) (i : Bool) : (l.settle g c i o).IsOf l := by
  unfold settle
  split
  · exact rest_isOf
  split
  · split
    · exact tryLater_isOf o
    · exact report_isOf _ _
  · exact (report_isOf _ _).of_like rfl rfl rfl rfl fun _ h ↦ h

theorem closed_isOf (g : Nat) (c : Channel.Closing) : (l.closed g c o).IsOf l := by
  unfold closed
  split
  · exact (enter_isOf (settle_isOf o _ c _)).of_like rfl rfl rfl rfl fun _ h ↦ h
  · exact rest_isOf

theorem deny_isOf : l.deny.IsOf l := report_isOf _ _

theorem dial_isOf (g : Nat) : (l.dial g o).IsOf l := by
  unfold dial
  split
  · split
    · exact (enter_isOf deny_isOf).of_like rfl rfl rfl rfl fun _ h ↦ h
    · split
      · have h : (report { l with channel := none, reported := true } .noChannel (.abandon g)).IsOf l :=
          (report_isOf _ _).of_like rfl rfl rfl rfl fun _ h ↦ h
        exact h.after (by simp [Command.IsOf]) (by simp) rfl
      · exact ⟨rfl, rfl, rfl, by simp [Command.IsOf], by simp, .inl ⟨rfl, rfl⟩⟩
  · exact rest_isOf

theorem connect_isOf : (l.connect o).IsOf l := by
  unfold connect
  split
  · exact rest_isOf
  · have h : (l.anew.enter .connecting (.dial (l.generation + 1))
        (·.dial (l.generation + 1) o)).IsOf l :=
      (enter_isOf (dial_isOf o _)).of_like rfl rfl rfl rfl (by simp [anew])
    exact h.after stopCommand_isOf (fun _ ↦ stops_stopCommand) delays_stopCommand

theorem failed_isOf (g : Nat) (message : Bytes) : (l.failed g message).IsOf l := by
  unfold failed
  split
  · exact (report_isOf _ _).of_like rfl rfl rfl rfl fun _ h ↦ h
  · exact rest_isOf

theorem rang_isOf (alarm : Nat) : (l.rang alarm o).IsOf l := by
  refine (connect_isOf o).of_like rfl rfl rfl rfl fun i hi ↦ ?_
  by_cases ha : l.alarm = some alarm
  · simp [ha] at hi
  · simpa [ha] using hi

theorem resume_isOf (r : Resume) : (l.resume o r).IsOf l := by
  cases r with
  | nothing => exact rest_isOf
  | dial g => exact dial_isOf o g
  | deny => exact deny_isOf
  | abandon g => exact closed_isOf o g _
  | settle g c i => exact settle_isOf o g c i
  | retry g => exact retry_isOf o g

/-- The link with all its retries before it. -/
def restored (l : Link) : Link := { l with attempts := 0 }

theorem disconnect_isOf : l.disconnect.IsOf l.restored :=
  Step.IsOf.after ((enter_isOf rest_isOf).of_like rfl rfl rfl rfl (by simp)) farewell_isOf
    (fun _ ↦ stops_farewell) delays_farewell

theorem opened_isOf : (l.opened l.generation).IsOf l.restored := by
  unfold opened
  rw [if_pos rfl]
  exact enter_isOf rest_isOf

theorem notice_isOf (g : Nat) (n : Channel.Notice) :
    (l.notice g n o).IsOf (if n = .opened ∧ l.generation = g then l.restored else l) := by
  cases n with
  | opened =>
    by_cases hg : l.generation = g
    · subst hg
      rw [if_pos ⟨rfl, rfl⟩]
      exact opened_isOf
    · rw [notice_of_ne hg, if_neg fun h ↦ hg h.2]
      exact rest_isOf
  | frame => exact rest_isOf
  | failed message => exact failed_isOf g message
  | closed c => exact closed_isOf o g c

end Link

end ProgressFeed
