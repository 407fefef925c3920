import ProgressFeed.Proofs.Link.Step
import ProgressFeed.Proofs.Shift

/-!
# A link does not look at its numbers
-/

namespace ProgressFeed.Shift

variable (σ : Shift) (l : Link) (o : Outside)

theorem token_outside : (σ.outside o).token = o.token := rfl

theorem linkStep_after (commands : List Command) (s : Link.Step) :
    (σ.linkStep s).after (commands.map σ.command) = σ.linkStep (s.after commands) := by
  simp [linkStep, Link.Step.after]

theorem enter_linkOf (now : Connection) (r : Link.Resume) {next next' : Link → Link.Step}
    (h : next' (σ.linkOf l) = σ.linkStep (next l)) :
    (σ.linkOf l).enter now (σ.call l.id r) next' = σ.linkStep (l.enter now r next) := by
  unfold Link.enter
  split
  · rw [if_pos ‹_›, h]
  · rw [if_neg ‹_›]
    rfl

theorem stopCommand_linkOf : (σ.linkOf l).stopCommand = l.stopCommand.map σ.command := by
  cases h : l.alarm <;> simp [Link.stopCommand, linkOf, command, h]

theorem farewell_linkOf : (σ.linkOf l).farewell = l.farewell.map σ.command := by
  rw [Link.farewell, stopCommand_linkOf, Link.farewell, List.map_append]
  cases h : l.channel <;> simp [linkOf, held, command, h]

variable {l}

theorem generation_linkOf {g : Nat} :
    (σ.linkOf l).generation = σ.generation l.id + g ↔ l.generation = g :=
  Nat.add_left_cancel_iff

variable (l)

theorem retry_linkOf (g : Nat) :
    (σ.linkOf l).retry (σ.generation l.id + g) (σ.outside o) = σ.linkStep (l.retry g o) := by
  unfold Link.retry
  simp only [generation_linkOf]
  split <;> rfl

theorem settle_linkOf (g : Nat) (closing : Channel.Closing) (i : Bool) :
    (σ.linkOf l).settle (σ.generation l.id + g) closing i (σ.outside o) =
      σ.linkStep (l.settle g closing i o) := by
  unfold Link.settle
  simp only [ne_eq, generation_linkOf]
  split
  · rfl
  · change (if l.attempts < l.backoff.maxAttempts then _ else _) = _
    split
    · change (if l.reported then _ else _) = _
      split <;> rfl
    · rfl

theorem closed_linkOf (g : Nat) (closing : Channel.Closing) :
    (σ.linkOf l).closed (σ.generation l.id + g) closing (σ.outside o) =
      σ.linkStep (l.closed g closing o) := by
  unfold Link.closed
  simp only [generation_linkOf]
  split
  · have h := settle_linkOf σ { l with generation := g + 1, channel := none } o (g + 1) closing
      (closing.isNormal || l.intentional)
    exact enter_linkOf σ { l with generation := g + 1, channel := none } .disconnected
      (.settle (g + 1) closing (closing.isNormal || l.intentional)) h
  · rfl

theorem dial_linkOf (g : Nat) :
    (σ.linkOf l).dial (σ.generation l.id + g) (σ.outside o) = σ.linkStep (l.dial g o) := by
  unfold Link.dial
  simp only [generation_linkOf]
  split
  · rw [token_outside]
    cases ht : o.token with
    | none => exact enter_linkOf σ { l with terminal := true } .disconnected .deny rfl
    | some token =>
      cases hc : o.channel with
      | none =>
        simp only [outside, hc, Option.map_none]
        rfl
      | some c =>
        simp only [outside, hc, Option.map_some]
        rfl
  · rfl

theorem isBusy_linkOf : (σ.linkOf l).isBusy = l.isBusy := by
  cases hc : l.channel <;> simp [Link.isBusy, linkOf, hc]

theorem connect_linkOf : (σ.linkOf l).connect (σ.outside o) = σ.linkStep (l.connect o) := by
  unfold Link.connect
  simp only [isBusy_linkOf]
  split
  · rfl
  · rw [stopCommand_linkOf, ← linkStep_after]
    congr 1
    exact enter_linkOf σ l.anew .connecting (.dial (l.generation + 1))
      (dial_linkOf σ l.anew o (l.generation + 1))

theorem disconnect_linkOf : (σ.linkOf l).disconnect = σ.linkStep l.disconnect := by
  unfold Link.disconnect
  rw [farewell_linkOf, ← linkStep_after]
  congr 1
  exact enter_linkOf σ
    { l with
      alarm := none, intentional := true, attempts := 0, generation := l.generation + 1
      channel := none }
    .disconnected .nothing rfl

theorem opened_linkOf (g : Nat) :
    (σ.linkOf l).opened (σ.generation l.id + g) = σ.linkStep (l.opened g) := by
  unfold Link.opened
  simp only [generation_linkOf]
  split
  · exact enter_linkOf σ { l with attempts := 0 } .connected .nothing rfl
  · rfl

theorem failed_linkOf (g : Nat) (message : Bytes) :
    (σ.linkOf l).failed (σ.generation l.id + g) message = σ.linkStep (l.failed g message) := by
  unfold Link.failed
  simp only [generation_linkOf]
  split <;> rfl

theorem rang_linkOf (alarm : Nat) :
    (σ.linkOf l).rang (σ.alarm + alarm) (σ.outside o) = σ.linkStep (l.rang alarm o) := by
  unfold Link.rang
  rw [← connect_linkOf]
  congr 1
  cases ha : l.alarm with
  | none => simp [linkOf, ha]
  | some i => by_cases hi : i = alarm <;> simp [linkOf, ha, hi]

theorem hears_linkOf (g : Nat) : (σ.linkOf l).hears (σ.generation l.id + g) = l.hears g := by
  simp [Link.hears, linkOf]

theorem notice_linkOf (g : Nat) (n : Channel.Notice) :
    (σ.linkOf l).notice (σ.generation l.id + g) n (σ.outside o) = σ.linkStep (l.notice g n o) := by
  cases n with
  | opened => exact opened_linkOf σ l g
  | frame => rfl
  | failed message => exact failed_linkOf σ l g message
  | closed closing => exact closed_linkOf σ l o g closing

theorem resume_linkOf (r : Link.Resume) :
    (σ.linkOf l).resume (σ.outside o) (σ.call l.id r) = σ.linkStep (l.resume o r) := by
  cases r with
  | nothing => rfl
  | dial g => exact dial_linkOf σ l o g
  | deny => rfl
  | abandon g => exact closed_linkOf σ l o g .unavailable
  | settle g closing i => exact settle_linkOf σ l o g closing i
  | retry g => exact retry_linkOf σ l o g

theorem sender?_linkOf : (σ.linkOf l).sender? = l.sender?.map (σ.channel + ·) := by
  unfold Link.sender?
  change (if l.state = .connected then _ else none) = _
  split
  · cases hc : l.channel with
    | none => simp [linkOf, hc]
    | some c => cases hd : c.isDuplex <;> simp [linkOf, held, hc, hd, Option.filter]
  · rfl

theorem send_linkOf (payload : Bytes) :
    (σ.linkOf l).send payload (σ.outside o) =
      ((l.send payload o).1, (l.send payload o).2.map σ.command) := by
  unfold Link.send
  rw [sender?_linkOf]
  cases l.sender? <;> rfl

end ProgressFeed.Shift
