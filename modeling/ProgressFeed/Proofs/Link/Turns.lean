import ProgressFeed.Proofs.Link.Upheld

/-!
# How a link changes its state

A link announces every change of its state in the step that makes it, and only an open channel makes
it connected.
-/

namespace ProgressFeed

namespace Connection

def canBecome : Connection → Connection → Bool
  | disconnected, connecting => true
  | connecting, connected => true
  | connecting, disconnected => true
  | connected, disconnected => true
  | _, _ => false

theorem canBecome_disconnected {c : Connection} (h : c ≠ disconnected) :
    c.canBecome disconnected = true := by
  cases c with
  | connecting | connected => rfl
  | disconnected => exact absurd rfl h

end Connection

namespace Link

variable {l : Link} {w : Ledger} {stack : List Resume} {o : Outside}

def Call.change? : Call → Option (Connection × Connection)
  | .state was now => some (was, now)
  | .fault _ => none

/-- The change that the step announces. -/
def Step.change? (s : Step) : Option (Connection × Connection) := s.pause.bind (·.1.change?)

/-- The step changes the state from `was` only by a change that is possible, and announces it. -/
def Step.Turns (s : Step) (was : Connection) : Prop :=
  match s.change? with
  | none => s.link.state = was
  | some (x, now) => x = was ∧ now = s.link.state ∧ was.canBecome now = true

/-- The step turns from a state, and not to a connection. -/
structure Step.Falls (s : Step) (was : Connection) : Prop where
  turns : s.Turns was
  off : s.link.state = .connected → was = .connected

theorem Step.Falls.after {s : Step} {was : Connection} (h : s.Falls was) (commands : List Command) :
    (s.after commands).Falls was := ⟨h.turns, h.off⟩

theorem rest_falls : l.rest.Falls l.state := ⟨rfl, fun h ↦ h⟩

theorem report_falls (f : Fault) (resume : Resume) : (l.report f resume).Falls l.state := ⟨rfl, fun h ↦ h⟩

theorem enter_falls {now : Connection} {resume : Resume} {next : Link → Step}
    (hnow : now ≠ .connected) (hchange : l.state ≠ now → l.state.canBecome now = true)
    (hnext : l.state = now → (next l).Falls l.state) : (l.enter now resume next).Falls l.state := by
  unfold enter
  split
  · rename_i h
    exact hnext h
  · rename_i h
    exact ⟨⟨rfl, rfl, hchange h⟩, fun hc ↦ absurd hc hnow⟩

theorem tryLater_falls : (l.tryLater o).Falls l.state := ⟨rfl, fun h ↦ h⟩

theorem retry_falls (g : Nat) : (l.retry g o).Falls l.state := by
  unfold retry
  split
  · exact tryLater_falls
  · exact rest_falls

theorem settle_falls (g : Nat) (c : Channel.Closing) (i : Bool) :
    (l.settle g c i o).Falls l.state := by
  unfold settle
  split
  · exact rest_falls
  split
  · split
    · exact tryLater_falls
    · exact report_falls _ _
  · exact report_falls (l := { l with terminal := true }) _ _

theorem closed_falls (g : Nat) (c : Channel.Closing) : (l.closed g c o).Falls l.state := by
  unfold closed
  split
  · exact enter_falls (l := { l with generation := g + 1, channel := none }) (by simp)
      Connection.canBecome_disconnected fun _ ↦ settle_falls _ _ _
  · exact rest_falls

theorem deny_falls : l.deny.Falls l.state := report_falls _ _

theorem dial_falls (g : Nat) : (l.dial g o).Falls l.state := by
  unfold dial
  split
  · split
    · exact enter_falls (l := { l with terminal := true }) (by simp)
        Connection.canBecome_disconnected fun _ ↦ deny_falls
    · split
      · exact (report_falls (l := { l with channel := none, reported := true }) _ _).after _
      · exact ⟨rfl, fun h ↦ h⟩
  · exact rest_falls

theorem connect_falls : (l.connect o).Falls l.state := by
  unfold connect
  split
  · exact rest_falls
  · rename_i hb
    obtain ⟨-, hn, -⟩ := isBusy_eq_false.1 (Bool.eq_false_iff.2 hb)
    have hchange : l.state ≠ .connecting → l.state.canBecome .connecting = true := by
      intro hc
      cases hs : l.state with
      | connecting => exact absurd hs hc
      | connected => exact absurd hs hn
      | disconnected => rfl
    exact (enter_falls (l := l.anew) (by simp) hchange fun _ ↦ dial_falls _).after _

theorem failed_falls (g : Nat) (message : Bytes) : (l.failed g message).Falls l.state := by
  unfold failed
  split
  · exact report_falls (l := { l with reported := true }) _ _
  · exact rest_falls

theorem rang_falls (alarm : Nat) : (l.rang alarm o).Falls l.state := connect_falls

theorem resume_falls (r : Resume) : (l.resume o r).Falls l.state := by
  cases r with
  | nothing => exact rest_falls
  | dial g => exact dial_falls g
  | deny => exact deny_falls
  | abandon g => exact closed_falls g _
  | settle g c i => exact settle_falls g c i
  | retry g => exact retry_falls g

theorem Upheld.opened_turns (h : l.Upheld w stack) (hc : l.channel ≠ none) (g : Nat) :
    (l.opened g).Turns l.state := by
  unfold Link.opened
  split
  · unfold enter
    split
    · rfl
    · rename_i hs
      cases hst : l.state with
      | connected => exact absurd hst hs
      | connecting => exact ⟨rfl, rfl, rfl⟩
      | disconnected => exact absurd (h.sound.disconnected hst) hc
  · rfl

theorem Upheld.notice_turns (h : l.Upheld w stack) {i : Nat} {s : Stamp}
    (hi : w.opened[i]? = some s) (hl : s.link = l.id) (n : Channel.Notice) :
    (l.notice s.generation n o).Turns l.state := by
  by_cases hg : l.generation = s.generation
  · cases n with
    | opened => exact h.opened_turns (h.channel_of_stamp hi hl hg) s.generation
    | frame => exact rest_falls.turns
    | failed message => exact (failed_falls s.generation message).turns
    | closed c => exact (closed_falls s.generation c).turns
  · rw [notice_of_ne hg]
    exact rest_falls.turns

end Link

end ProgressFeed
