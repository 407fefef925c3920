import ProgressFeed.Proofs.Feed.Own
import ProgressFeed.Proofs.Feed.Shift
import ProgressFeed.Proofs.Feed.Upheld

/-!
# A run behind another

Two runs of a feed go alongside when they do the same, but one of them has a past. Its numbers are
those of the other one, shifted by what there was before, and no channel or query of the past is
taken for a later one.
-/

namespace ProgressFeed

/-- The task without the number of the link. -/
def Task.shown : Task → Task
  | .reopen _ => .reopen 0
  | .keepalive => .keepalive

/-- The command without the marks by which the feed tells what belongs to what, and with something
added to its numbers. -/
def Command.shown (channels alarms : Nat) : Command → Command
  | .create source token => .create source token
  | .open channel _ => .open (channels + channel) ⟨0, 0⟩
  | .close channel closing => .close (channels + channel) closing
  | .send channel payload => .send (channels + channel) payload
  | .setAlarm alarm delay task => .setAlarm (alarms + alarm) delay task.shown
  | .stopAlarm alarm => .stopAlarm (alarms + alarm)
  | .fetch source _ => .fetch source 0

namespace Feed

/-- What everybody can see of a record. -/
def Record.shown (channels alarms : Nat) : Record → Record
  | .command c => .command (c.shown channels alarms)
  | .frame f => .frame f
  | .event cause e => .event cause e
  | .taken b => .taken b

/-- The move for a feed that lacks so many channels and queries, unless it is about one of those. -/
def Move.later? (channels queries : Nat) : Move → Option Move
  | .notice channel n =>
    if channel < channels then none else some (.notice (channel - channels) n)
  | .answer query x => if query < queries then none else some (.answer (query - queries) x)
  | m => some m

theorem Move.later?_notice {channels queries channel : Nat} {n : Channel.Notice} {m : Move}
    (h : (Move.notice channel n).later? channels queries = some m) :
    ∃ i, channel = channels + i ∧ m = .notice i n := by
  simp only [later?] at h
  split at h
  · cases h
  · cases h
    exact ⟨channel - channels, by omega, rfl⟩

theorem Move.later?_answer {channels queries query : Nat} {x : StatusAnswer} {m : Move}
    (h : (Move.answer query x).later? channels queries = some m) :
    ∃ i, query = queries + i ∧ m = .answer i x := by
  simp only [later?] at h
  split at h
  · cases h
  · cases h
    exact ⟨query - queries, by omega, rfl⟩

namespace Run

/-- The feeds apart, `r'` is `r` behind what had been `before`. -/
structure Alongside (σ : Shift) (before r' r : Run) : Prop where
  channels : before.ledger.opened.length = σ.channel
  queries : ∀ q ∈ before.ledger.queries, q < σ.epoch
  isAlive : r'.isAlive = r.isAlive
  ledger : r'.ledger = σ.ledger before.ledger.opened before.ledger.queries r.ledger
  stack : r'.stack = r.stack.map σ.resume
  records : ∃ more, r'.records = before.records ++ more ∧
    more.map (Record.shown 0 0) = r.records.map (Record.shown σ.channel σ.alarm)

variable {σ : Shift} {before r' r : Run}

theorem shown_command (c : Command) :
    (σ.command c).shown 0 0 = c.shown σ.channel σ.alarm := by
  cases c with
  | setAlarm alarm delay task => cases task <;> simp [Shift.command, Shift.task, Command.shown, Task.shown]
  | create | «open» | close | send | stopAlarm | fetch => simp [Shift.command, Command.shown]

theorem shown_records {s' s : Step} (hc : s'.commands = s.commands.map σ.command)
    (hp : s'.pause = s.pause.map fun p ↦ (p.1, σ.resume p.2)) (cause : Cause) :
    (s'.records cause).map (Record.shown 0 0) =
      (s.records cause).map (Record.shown σ.channel σ.alarm) := by
  have hcommands : ∀ commands : List Command,
      ((commands.map σ.command).map Record.command).map (Record.shown 0 0) =
        (commands.map Record.command).map (Record.shown σ.channel σ.alarm) := by
    intro commands
    simp [Record.shown, shown_command, Function.comp_def]
  simp only [Step.records, List.map_append, hc, hcommands]
  congr 1
  cases h : s.pause <;> simp [hp, h, Record.shown]

theorem Alongside.outside (h : Alongside σ before r' r) (a : Answers) :
    r'.ledger.outside a = σ.outside (r.ledger.outside a) := by
  rw [h.ledger]
  exact Shift.outside_ledger h.channels a

theorem Alongside.take (h : Alongside σ before r' r) {s' s : Step}
    (hc : s'.commands = s.commands.map σ.command)
    (hp : s'.pause = s.pause.map fun p ↦ (p.1, σ.resume p.2)) (cause : Cause) :
    Alongside σ before (r'.take cause s') (r.take cause s) := by
  obtain ⟨more, hmore, hshown⟩ := h.records
  refine ⟨h.channels, h.queries, h.isAlive, ?_, ?_, more ++ s'.records cause, ?_, ?_⟩
  · change r'.ledger.obeyAll s'.commands = _
    rw [h.ledger, hc, Shift.obeyAll_ledger]
    rfl
  · change s'.pending ++ r'.stack = (s.pending ++ r.stack).map σ.resume
    rw [List.map_append, h.stack]
    congr 1
    cases hs : s.pause <;> simp [Step.pending, hp, hs]
  · simp [Run.take, hmore]
  · rw [List.map_append, hshown, shown_records hc hp]
    simp [Run.take]

theorem Alongside.give (h : Alongside σ before r' r) (commands : List Command) :
    Alongside σ before (r'.give (commands.map σ.command)) (r.give commands) := by
  have ht : Alongside σ before
      (r'.take .other { feed := r'.feed, commands := commands.map σ.command })
      (r.take .other { feed := r.feed, commands }) := h.take rfl rfl .other
  simpa [Run.take, Run.give, Step.records, Step.pending] using ht

theorem Alongside.taken (h : Alongside σ before r' r) (b : Bool) :
    Alongside σ before (r'.note (.taken b)) (r.note (.taken b)) := by
  obtain ⟨more, hmore, hshown⟩ := h.records
  refine ⟨h.channels, h.queries, h.isAlive, h.ledger, h.stack, more ++ [.taken b], ?_, ?_⟩
  · simp [Run.note, hmore]
  · simp [Run.note, hshown, Record.shown]

theorem Alongside.frame (h : Alongside σ before r' r) (f : Channel.Frame) :
    Alongside σ before (r'.note (.frame f)) (r.note (.frame f)) := by
  obtain ⟨more, hmore, hshown⟩ := h.records
  refine ⟨h.channels, h.queries, h.isAlive, h.ledger, h.stack, more ++ [.frame f], ?_, ?_⟩
  · simp [Run.note, hmore]
  · simp [Run.note, hshown, Record.shown]

/-! ## When both have a link -/

/-- The run is the other one, shifted, behind what had been before. -/
structure Behind (σ : Shift) (before r' r : Run) : Prop extends Alongside σ before r' r where
  feed : r'.feed = σ.feed r.feed
  stale : ∀ s ∈ before.ledger.opened, ∀ t, σ.stamp t ≠ s
  fresh : ∀ i, r.feed.links ≤ i → σ.generation i = 0

theorem Behind.take (h : Behind σ before r' r) {s : Step} (hs : r.feed.links ≤ s.feed.links)
    (cause : Cause) : Behind σ before (r'.take cause (σ.step s)) (r.take cause s) :=
  ⟨h.toAlongside.take rfl rfl cause, rfl, h.stale, fun i hi ↦ h.fresh i (hs.trans hi)⟩

theorem Behind.ifAlive {q' q : Run} (h : Behind σ before r' r) (hq : Behind σ before q' q) :
    Behind σ before (r'.ifAlive q') (r.ifAlive q) := by
  unfold Run.ifAlive
  rw [h.isAlive]
  split
  · exact hq
  · exact h

theorem Behind.notice_stale (h : Behind σ before r' r) {s : Stamp}
    (hs : s ∈ before.ledger.opened) (n : Channel.Notice) (o : Outside) :
    r'.feed.notice s n o = r'.feed.rest := by
  refine notice_of_ne (fun l hl hid hg ↦ ?_) n o
  rw [h.feed] at hl
  obtain ⟨m, -, rfl⟩ := Option.map_eq_some_iff.1 hl
  refine h.stale s hs ⟨m.id, m.generation⟩ ?_
  cases s
  exact congrArg₂ Stamp.mk hid hg

theorem Behind.keep (h : Behind σ before r' r) {q' q : Run} (ha : Alongside σ before q' q)
    (hf' : q'.feed = r'.feed) (hf : q.feed = r.feed) : Behind σ before q' q :=
  ⟨ha, by rw [hf', hf, h.feed], h.stale, by rw [hf]; exact h.fresh⟩

theorem channel_feed (f : Feed) : (σ.feed f).channel = f.channel.map (σ.channel + ·) := by
  cases hl : f.link with
  | none => simp [channel, Shift.feed, hl]
  | some l => cases hc : l.channel <;> simp [channel, Shift.feed, Shift.linkOf, Shift.held, hl, hc]

theorem Alongside.opened (h : Alongside σ before r' r) (i : Nat) :
    r'.ledger.opened[σ.channel + i]? = r.ledger.opened[i]?.map σ.stamp := by
  rw [h.ledger, ← h.channels, Shift.ledger, List.getElem?_append_right (Nat.le_add_right ..),
    Nat.add_sub_cancel_left, List.getElem?_map]

theorem Alongside.asked (h : Alongside σ before r' r) (i : Nat) :
    r'.ledger.queries[before.ledger.queries.length + i]? =
      r.ledger.queries[i]?.map (σ.epoch + ·) := by
  rw [h.ledger, Shift.ledger, List.getElem?_append_right (Nat.le_add_right ..),
    Nat.add_sub_cancel_left, List.getElem?_map]

theorem Behind.hear (h : Behind σ before r' r) (i : Nat) (s : Stamp) (n : Channel.Notice)
    (o : Outside) :
    Behind σ before (r'.hear (σ.channel + i) (σ.stamp s) n (σ.outside o)) (r.hear i s n o) := by
  have hchannel : r'.feed.channel = some (σ.channel + i) ↔ r.feed.channel = some i := by
    rw [h.feed, channel_feed]
    simp
  cases n with
  | frame f =>
    have hlinks : r.feed.links ≤ (r.feed.notice s (.frame f) o).feed.links := by
      unfold Feed.notice
      split
      · exact le_rfl
      · dsimp only
        split
        · rw [receiveFrame_links]
        · exact le_rfl
    simp only [Run.hear]
    rw [h.feed, Shift.notice_feed, ← h.feed]
    by_cases hc : r.feed.channel = some i
    · rw [if_pos hc, if_pos (hchannel.2 hc)]
      exact (h.keep (h.toAlongside.frame f) rfl rfl).take hlinks .frame
    · rw [if_neg hc, if_neg fun hc' ↦ hc (hchannel.1 hc')]
      exact h.take hlinks .frame
  | opened | failed | closed =>
    simp only [Run.hear, h.feed, Shift.notice_feed]
    exact h.take (notice_isOf _ _ _ (by simp)).links .other

theorem Behind.advance (h : Behind σ before r' r) (target : Int) (a : Answers) :
    Behind σ before (r'.step a (.advance target)) (r.step a (.advance target)) := by
  have hclock : r'.ledger.clock = σ.clock r.ledger.clock := congrArg Ledger.clock h.ledger
  have hat : ∀ clock, Alongside σ before { r' with ledger := { r'.ledger with clock := σ.clock clock } }
      { r with ledger := { r.ledger with clock } } := fun clock ↦
    ⟨h.channels, h.queries, h.isAlive, by simp only [h.ledger]; rfl, h.stack, h.records⟩
  simp only [Run.step, hclock, Shift.takeDue?_clock]
  cases r.ledger.clock.takeDue? target with
  | none => exact h.keep (hat { r.ledger.clock with now := target }) rfl rfl
  | some p =>
    simp only [Option.map_some, h.outside, h.feed, Shift.alarmOf, Shift.rang_feed]
    exact (h.keep (hat p.2) rfl rfl).take (rang_isOf _ _ _ _).links .other

theorem Behind.step (h : Behind σ before r' r) (a : Answers) {m m₀ : Move}
    (hm : m.later? σ.channel before.ledger.queries.length = some m₀) :
    Behind σ before (r'.step a m) (r.step a m₀) := by
  have hfresh := h.fresh r.feed.links le_rfl
  have houtside := h.outside a
  cases m with
  | connect =>
    cases hm
    simp only [Run.step, houtside, h.feed, Shift.connect_feed σ _ hfresh]
    exact h.ifAlive (h.take (connect_isOf _ _).links .other)
  | disconnect =>
    cases hm
    simp only [Run.step, Feed.disconnect, houtside, h.feed, Shift.closeStream_feed σ _ hfresh]
    exact h.ifAlive (h.take (closeStream_isOf _ _ _).links .other)
  | reconnect =>
    cases hm
    simp only [Run.step, Feed.reconnect, houtside, h.feed, Shift.closeStream_feed σ _ hfresh]
    exact h.ifAlive (h.take (closeStream_isOf _ _ _).links .other)
  | keepalive =>
    cases hm
    simp only [Run.step, houtside, h.feed, Shift.sendKeepalive_feed]
    exact h.ifAlive (h.keep ((h.toAlongside.give _).taken _) rfl rfl)
  | refresh =>
    cases hm
    simp only [Run.step, h.feed, Shift.refresh_feed]
    exact h.ifAlive (h.keep (h.toAlongside.give _) rfl rfl)
  | setPolls polls =>
    cases hm
    simp only [Run.step, h.feed]
    exact h.ifAlive ⟨⟨h.channels, h.queries, h.isAlive, h.ledger, h.stack, h.records⟩, rfl, h.stale,
      h.fresh⟩
  | retire =>
    cases hm
    have hdead : Behind σ before { r' with isAlive := false } { r with isAlive := false } :=
      h.keep ⟨h.channels, h.queries, rfl, h.ledger, h.stack, h.records⟩ rfl rfl
    simp only [Run.step, Feed.retire, houtside, h.feed, Shift.closeStream_feed σ _ hfresh]
    exact h.ifAlive (hdead.take (closeStream_isOf _ _ _).links .other)
  | notice channel n =>
    obtain ⟨i, rfl, rfl⟩ := Move.later?_notice hm
    simp only [Run.step, h.toAlongside.opened]
    cases r.ledger.opened[i]? with
    | none => exact h
    | some s =>
      simp only [Option.map_some, houtside]
      exact h.hear i s n _
  | advance target =>
    cases hm
    exact h.advance target a
  | answer query x =>
    obtain ⟨i, rfl, rfl⟩ := Move.later?_answer hm
    simp only [Run.step, h.toAlongside.asked]
    cases r.ledger.queries[i]? with
    | none => exact h
    | some epoch =>
      simp only [Option.map_some, h.feed, Shift.polled_feed]
      exact h.take (polled_links _ _ _).ge .answer
  | returned =>
    cases hm
    cases hs : r.stack with
    | nil =>
      have hs' : r'.stack = [] := by rw [h.stack, hs]; rfl
      rw [step_returned_nil hs, step_returned_nil hs']
      exact h
    | cons x stack =>
      have hs' : r'.stack = σ.resume x :: stack.map σ.resume := by rw [h.stack, hs]; rfl
      have hpop : Behind σ before { r' with stack := stack.map σ.resume } { r with stack } :=
        h.keep ⟨h.channels, h.queries, h.isAlive, h.ledger, rfl, h.records⟩ rfl rfl
      rw [step_returned_cons hs, step_returned_cons hs', houtside, h.feed,
        Shift.resume_feed σ _ hfresh]
      exact hpop.take (resume_isOf _ _ x).links .other

theorem Alongside.step_stale (h : Alongside σ before r' r)
    (hn : ∀ s ∈ before.ledger.opened, ∀ n o, r'.feed.notice s n o = r'.feed.rest)
    (hc : ∀ i < σ.channel, r'.feed.channel ≠ some i) (he : σ.epoch ≤ r'.feed.epoch) (a : Answers)
    {m : Move} (hm : m.later? σ.channel before.ledger.queries.length = none) : r'.step a m = r' := by
  cases m with
  | notice channel n =>
    simp only [Move.later?] at hm
    split at hm
    · rename_i hlt
      have hi : r'.ledger.opened[channel]? = before.ledger.opened[channel]? := by
        rw [h.ledger]
        exact List.getElem?_append_left (h.channels ▸ hlt)
      simp only [Run.step, hi]
      cases hs : before.ledger.opened[channel]? with
      | none => rfl
      | some s =>
        have hrest := hn s (List.mem_of_getElem? hs)
        cases n with
        | frame f => simp only [Run.hear, if_neg (hc channel hlt), hrest, take_rest]
        | opened | failed | closed => simp only [Run.hear, hrest, take_rest]
    · cases hm
  | answer query x =>
    simp only [Move.later?] at hm
    split at hm
    · rename_i hlt
      have hi : r'.ledger.queries[query]? = before.ledger.queries[query]? := by
        rw [h.ledger]
        exact List.getElem?_append_left hlt
      simp only [Run.step, hi]
      cases hs : before.ledger.queries[query]? with
      | none => rfl
      | some epoch =>
        have hne : r'.feed.epoch ≠ epoch :=
          ((h.queries epoch (List.mem_of_getElem? hs)).trans_le he).ne'
        simp only [Feed.polled, if_neg hne, take_rest]
    · cases hm
  | connect | disconnect | reconnect | keepalive | refresh | setPolls | retire | advance
  | returned => cases hm

theorem Behind.step_stale (h : Behind σ before r' r) (a : Answers) {m : Move}
    (hm : m.later? σ.channel before.ledger.queries.length = none) : r'.step a m = r' := by
  refine h.toAlongside.step_stale (fun s hs ↦ h.notice_stale hs) (fun i hi ↦ ?_) ?_ a hm
  · rw [h.feed, channel_feed]
    cases r.feed.channel <;> simp
    omega
  · rw [h.feed]
    exact Nat.le_add_right _ _

end Run

end Feed

end ProgressFeed
