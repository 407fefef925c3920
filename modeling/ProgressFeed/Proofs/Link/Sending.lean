import ProgressFeed.Proofs.Link.Turns

/-!
# What a link can send on

A link sends nothing of its own accord. The channel on which it can be told to send comes and goes
with the connection only: a step that announces no change of the state leaves it as it is.
-/

namespace ProgressFeed

/-- What the command sends, and on which channel. -/
def Command.payload? : Command → Option (Nat × Bytes)
  | .send channel payload => some (channel, payload)
  | .create .. | .open .. | .close .. | .setAlarm .. | .stopAlarm _ | .fetch .. => none

namespace Link

variable {l l' : Link} {w : Ledger} {stack : List Resume} {o : Outside} {s : Step}

def Step.payloads (s : Step) : List (Nat × Bytes) := s.commands.filterMap Command.payload?

/-- The step sends nothing, and what the link can send on is as before or a change is announced. -/
structure Step.IsMute (s : Step) (l : Link) : Prop where
  sender : s.change? = none → s.link.sender? = l.sender?
  payloads : s.payloads = []

theorem Step.IsMute.of_sender (h : s.IsMute l') (hl : l'.sender? = l.sender?) : s.IsMute l :=
  ⟨fun hs ↦ (h.sender hs).trans hl, h.payloads⟩

theorem sender?_of_ne (h : l.state ≠ .connected) : l.sender? = none := if_neg h

theorem sender?_of_off {now : Connection} (hl' : l'.state = now) (hl : l.state = now)
    (hn : now ≠ .connected) : l'.sender? = l.sender? :=
  (sender?_of_ne (hl' ▸ hn)).trans (sender?_of_ne (hl ▸ hn)).symm

theorem Step.IsMute.after (h : s.IsMute l) {commands : List Command}
    (hc : commands.filterMap Command.payload? = []) : (s.after commands).IsMute l := by
  refine ⟨h.sender, ?_⟩
  rw [Step.payloads, Step.after, List.filterMap_append, hc]
  exact h.payloads

theorem payloads_stopCommand : l.stopCommand.filterMap Command.payload? = [] := by
  cases h : l.alarm <;> simp [stopCommand, h, Command.payload?]

theorem payloads_farewell : l.farewell.filterMap Command.payload? = [] := by
  rw [farewell, List.filterMap_append, payloads_stopCommand]
  cases h : l.channel <;> simp [Command.payload?]

theorem rest_isMute : l.rest.IsMute l := ⟨fun _ ↦ rfl, rfl⟩

theorem report_isMute (f : Fault) (resume : Resume) : (l.report f resume).IsMute l :=
  ⟨fun _ ↦ rfl, rfl⟩

theorem enter_isMute {now : Connection} {resume : Resume} {next : Link → Step}
    (h : l'.state = now → (next l').IsMute l) : (l'.enter now resume next).IsMute l := by
  unfold enter
  split
  · rename_i hs
    exact h hs
  · exact ⟨nofun, rfl⟩

theorem tryLater_isMute : (l.tryLater o).IsMute l := ⟨fun _ ↦ rfl, rfl⟩

theorem retry_isMute (g : Nat) : (l.retry g o).IsMute l := by
  unfold retry
  split
  · exact tryLater_isMute
  · exact rest_isMute

theorem settle_isMute (g : Nat) (c : Channel.Closing) (i : Bool) :
    (l.settle g c i o).IsMute l := by
  unfold settle
  split
  · exact rest_isMute
  split
  · split
    · exact tryLater_isMute
    · exact report_isMute _ _
  · exact (report_isMute (l := { l with terminal := true }) _ _).of_sender rfl

theorem closed_isMute (g : Nat) (c : Channel.Closing) : (l.closed g c o).IsMute l := by
  unfold closed
  split
  · exact enter_isMute fun hs ↦ (settle_isMute _ _ _).of_sender (sender?_of_off hs hs nofun)
  · exact rest_isMute

theorem deny_isMute : l.deny.IsMute l := report_isMute _ _

theorem dial_isMute {g : Nat} (h : l.generation = g → l.state ≠ .connected) :
    (l.dial g o).IsMute l := by
  unfold dial
  split
  · rename_i hg
    have hl := h hg
    split
    · exact enter_isMute fun _ ↦ deny_isMute.of_sender rfl
    · split
      · exact ((report_isMute _ _).after rfl).of_sender (sender?_of_off rfl rfl hl)
      · exact ⟨fun _ ↦ sender?_of_off rfl rfl hl, rfl⟩
  · exact rest_isMute

theorem connect_isMute : (l.connect o).IsMute l := by
  unfold connect
  split
  · exact rest_isMute
  · refine Step.IsMute.after (enter_isMute fun hs ↦ ?_) payloads_stopCommand
    exact (dial_isMute fun _ ↦ by rw [hs]; simp).of_sender rfl

theorem opened_isMute (g : Nat) : (l.opened g).IsMute l := by
  unfold opened
  split
  · exact enter_isMute fun _ ↦ rest_isMute.of_sender rfl
  · exact rest_isMute

theorem failed_isMute (g : Nat) (message : Bytes) : (l.failed g message).IsMute l := by
  unfold failed
  split
  · exact (report_isMute (l := { l with reported := true }) _ _).of_sender rfl
  · exact rest_isMute

theorem rang_isMute (alarm : Nat) : (l.rang alarm o).IsMute l := connect_isMute.of_sender rfl

theorem notice_isMute (g : Nat) (n : Channel.Notice) : (l.notice g n o).IsMute l := by
  cases n with
  | opened => exact opened_isMute g
  | frame => exact rest_isMute
  | failed message => exact failed_isMute g message
  | closed c => exact closed_isMute g c

/-- A channel is taken only by a link that connects. -/
theorem Upheld.resume_isMute {r : Resume} (h : l.Upheld w (r :: stack)) :
    (l.resume o r).IsMute l := by
  cases r with
  | nothing => exact rest_isMute
  | dial g =>
    refine dial_isMute fun hg ↦ ?_
    have hf := h.held.fits (.dial g) (List.mem_cons_self ..) (congrArg some hg.symm)
    simp [hf.1]
  | deny => exact deny_isMute
  | abandon g => exact closed_isMute g _
  | settle g c i => exact settle_isMute g c i
  | retry g => exact retry_isMute g

end Link

end ProgressFeed
