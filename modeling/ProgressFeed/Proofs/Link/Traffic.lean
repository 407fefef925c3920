import ProgressFeed.Proofs.Link.Upheld
import ProgressFeed.Proofs.Traffic

/-!
# The channels of a link

A link takes a channel only when it holds none, opens it at once, and lets go of it only by closing
it or when it has heard of its end.
-/

namespace ProgressFeed.Link

variable {l : Link} {w : Ledger} {stack : List Resume} {a : Answers} {o : Outside} {g : Nat}

def held (l : Link) : Option Nat := l.channel.map Channel.Held.id

theorem held_eq_none : l.held = none ↔ l.channel = none := Option.map_eq_none_iff

theorem Upheld.lt_of_held (h : l.Upheld w stack) {i : Nat} (hi : l.held = some i) :
    i < w.opened.length :=
  (List.getElem?_eq_some_iff.1 ((h.stamped.channel i).2 hi)).1

/-- The commands of the step lead from the channel that was held to the one that its link holds. -/
def Step.Hands (s : Step) (w : Ledger) (a : Answers) (held : Option Nat) : Prop :=
  w.Handover a held s.commands s.link.held

/-- The step leaves channels alone. -/
structure Step.IsCalm (s : Step) (l : Link) : Prop where
  held : s.link.held = l.held
  commands : ∀ c ∈ s.commands, c.IsAside

theorem Step.IsCalm.of_held {l' : Link} {s : Step} (h : s.IsCalm l') (hl : l'.held = l.held) :
    s.IsCalm l := ⟨h.held.trans hl, h.commands⟩

theorem Step.IsCalm.hands {s : Step} (h : s.IsCalm l) (w : Ledger) (a : Answers) :
    s.Hands w a l.held := by
  unfold Step.Hands
  rw [h.held]
  exact Ledger.handover_of_isAside h.commands l.held

theorem isAside_stopCommand : ∀ c ∈ l.stopCommand, c.IsAside := by
  cases h : l.alarm <;> simp [stopCommand, h, Command.IsAside]

/-! ## Steps that leave channels alone -/

theorem rest_isCalm : l.rest.IsCalm l := ⟨rfl, by simp⟩

theorem enter_isCalm {now : Connection} {resume : Resume} {next : Link → Step}
    (h : (next l).IsCalm l) : (l.enter now resume next).IsCalm l := by
  unfold enter
  split
  · exact h
  · exact ⟨rfl, by simp⟩

theorem tryLater_isCalm : (l.tryLater o).IsCalm l := ⟨rfl, by simp [tryLater, Command.IsAside]⟩

theorem retry_isCalm : (l.retry g o).IsCalm l := by
  unfold retry
  split
  · exact tryLater_isCalm
  · exact rest_isCalm

theorem settle_isCalm (c : Channel.Closing) (i : Bool) : (l.settle g c i o).IsCalm l := by
  unfold settle
  split
  · exact rest_isCalm
  split
  · split
    · exact tryLater_isCalm
    · exact ⟨rfl, by simp [report]⟩
  · exact ⟨rfl, by simp [report]⟩

theorem deny_isCalm : l.deny.IsCalm l := ⟨rfl, by simp [deny, report]⟩

/-- The end of a connection whose channel is gone. -/
theorem closed_isCalm (hc : l.channel = none) (c : Channel.Closing) : (l.closed g c o).IsCalm l := by
  unfold closed
  split
  · exact (enter_isCalm (settle_isCalm c _)).of_held (by simp [held, hc])
  · exact rest_isCalm

theorem opened_isCalm : (l.opened g).IsCalm l := by
  unfold opened
  split
  · exact (enter_isCalm rest_isCalm).of_held rfl
  · exact rest_isCalm

theorem failed_isCalm (message : Bytes) : (l.failed g message).IsCalm l := by
  unfold failed
  split
  · exact ⟨rfl, by simp [report]⟩
  · exact rest_isCalm

/-! ## Channels come and go -/

theorem dial_hands (hc : l.channel = none) : (l.dial g (w.outside a)).Hands w a none := by
  have hheld : l.held = none := held_eq_none.2 hc
  unfold dial
  split
  · split
    · rw [← hheld]
      exact (enter_isCalm deny_isCalm).hands w a
    · rename_i token _
      cases hch : a.channel with
      | none =>
        simp only [Ledger.outside, hch, Option.map_none]
        exact Ledger.handover_create_none hch l.source token
      | some isDuplex =>
        simp only [Ledger.outside, hch, Option.map_some]
        exact Ledger.handover_create hch l.source token ⟨l.id, g⟩
  · rw [← hheld]
    exact rest_isCalm.hands w a

theorem Upheld.connect_hands (h : l.Upheld w stack) :
    (l.connect (w.outside a)).Hands w a l.held := by
  by_cases hb : l.isBusy = true
  · rw [connect_of_isBusy hb]
    exact rest_isCalm.hands w a
  obtain ⟨ht, hn, hc⟩ := isBusy_eq_false.1 (Bool.eq_false_iff.2 hb)
  cases hs : l.state with
  | connected => exact absurd hs hn
  | disconnected =>
    rw [connect_of_disconnected ht hs]
    exact Step.IsCalm.hands ⟨rfl, isAside_stopCommand⟩ w a
  | connecting =>
    have ha : l.alarm = none := by
      by_contra ha
      simp [(h.sound.alarm ha).1] at hs
    rw [connect_of_connecting ht hs (hc hs), held_eq_none.2 (hc hs)]
    simp only [stopCommand, ha, Option.map_none, Option.toList_none]
    exact dial_hands (l := l.anew) (hc hs)

theorem Upheld.rang_hands (h : l.Upheld w stack) {alarm : Nat}
    (ha : alarm ∈ w.clock.setFor (.reopen l.id)) :
    let w' := { w with clock := w.clock.stop alarm }
    (l.rang alarm (w'.outside a)).Hands w' a l.held := by
  have hal : l.alarm = some alarm := by
    rw [h.alarmed] at ha
    exact Option.mem_toList.1 ha
  simp only [rang_of_alarm hal]
  exact (h.calm hal).connect_hands

theorem handover_farewell (h : ∀ i, l.held = some i → i < w.opened.length) :
    w.Handover a l.held l.farewell none := by
  refine Ledger.Handover.after_isAside ?_ isAside_stopCommand
  cases hc : l.channel with
  | none =>
    simp only [held, hc, Option.map_none, Option.toList_none]
    exact Ledger.handover_nil none
  | some c =>
    simp only [held, hc, Option.map_some, Option.toList_some]
    refine Ledger.handover_close ?_
    rw [Ledger.opened_obeyAll_of_isAside isAside_stopCommand]
    exact h c.id (by simp [held, hc])

theorem Upheld.resume_hands {r : Resume} (h : l.Upheld w (r :: stack)) :
    (l.resume (w.outside a) r).Hands w a l.held := by
  -- What is left to do in an older generation is nothing; in this one there is no channel yet.
  have hnone : r.generation? = some l.generation → l.channel = none := by
    intro hg
    have hf := h.held.fits r (List.mem_cons_self ..) hg
    cases r with
    | nothing | deny => cases hg
    | dial | abandon => exact hf.2
    | settle | retry => exact h.sound.disconnected hf.1
  by_cases hg : r.generation? = some l.generation
  · have hc := hnone hg
    cases r with
    | nothing | deny => cases hg
    | dial g =>
      rw [held_eq_none.2 hc]
      exact dial_hands hc
    | abandon g => exact (closed_isCalm hc _).hands w a
    | settle g c i => exact (settle_isCalm c i).hands w a
    | retry g => exact retry_isCalm.hands w a
  · cases hr : r.generation? with
    | some g =>
      rw [resume_of_ne hr fun he ↦ hg (hr.trans (congrArg some he.symm))]
      exact rest_isCalm.hands w a
    | none =>
      cases r with
      | dial | abandon | settle | retry => cases hr
      | nothing => exact rest_isCalm.hands w a
      | deny => exact deny_isCalm.hands w a

/-- The channel has told of its end, and is let go without a command. -/
theorem closed_hands (hg : l.generation = g) (c : Channel.Closing) (w : Ledger) (a : Answers) :
    (l.closed g c o).Hands w a none := by
  have he : l.closed g c o = Link.closed { l with channel := none } g c o := by
    simp [closed, hg]
  rw [he]
  exact (closed_isCalm (l := { l with channel := none }) rfl c).hands w a

end ProgressFeed.Link
