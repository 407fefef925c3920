import Mathlib.Data.List.DropRight
import Mathlib.Data.List.Nodup
import ProgressFeed.Proofs.Bus.Emission

/-!
# The register of subscribers

Whoever is running may change the register, also in the middle of a delivery. Numbers are given out
in order, a subscription ends only under its own number and topic, and how many there are to a topic
follows from how many have begun and have been ended.
-/

namespace ProgressFeed.Bus

variable {α : Type} {b : Bus α} {topic : Topic} {id : Nat}

/-! ## One subscription ends -/

/-- To unsubscribe succeeds exactly if there is something to end. -/
theorem unsubscribe_iff :
    (b.unsubscribe topic id).1 = true ↔ ∃ s ∈ b.subscriptions, s.topic = topic ∧ s.id = id := by
  have hlength := List.length_filter_eq_length_iff (l := b.subscriptions)
    (p := fun s ↦ !(s.topic == topic && s.id == id))
  simp only [unsubscribe, bne_iff_ne, ne_eq, hlength]
  simp

/-- There is one entry less, and all others stay as they are. -/
def LeavesOut (b b' : Bus α) (s : Subscription α) : Prop :=
  ∃ before after, b.subscriptions = before ++ s :: after ∧
    b' = { b with subscriptions := before ++ after }

theorem Numbered.eq_of_id (h : b.Numbered) {s s' : Subscription α} (hs : s ∈ b.subscriptions)
    (hs' : s' ∈ b.subscriptions) (hid : s.id = s'.id) : s = s' := by
  have hnodup : (b.subscriptions.map (·.id)).Nodup :=
    List.pairwise_map.2 (h.ascending.imp Nat.ne_of_lt)
  exact List.inj_on_of_nodup_map hnodup hs hs' hid

theorem Numbered.unsubscribe_of_mem (h : b.Numbered) {s : Subscription α}
    (hs : s ∈ b.subscriptions) : b.LeavesOut (b.unsubscribe s.topic s.id).2 s := by
  obtain ⟨before, after, he⟩ := List.append_of_mem hs
  have hsorted := h.ascending
  rw [he, List.pairwise_append, List.pairwise_cons] at hsorted
  obtain ⟨-, ⟨hafter, -⟩, hbefore⟩ := hsorted
  have hkeep : ∀ l : List (Subscription α), (∀ x ∈ l, x.id ≠ s.id) →
      (l.filter fun x ↦ !(x.topic == s.topic && x.id == s.id)) = l := by
    intro l hl
    refine List.filter_eq_self.2 fun x hx ↦ ?_
    simp [hl x hx]
  refine ⟨before, after, he, ?_⟩
  rw [unsubscribe, he, List.filter_append, List.filter_cons_of_neg (by simp),
    hkeep before fun x hx ↦ Nat.ne_of_lt (hbefore x hx s (List.mem_cons_self ..)),
    hkeep after fun x hx ↦ Nat.ne_of_gt (hafter x hx)]

theorem unsubscribe_of_not (h : (b.unsubscribe topic id).1 = false) :
    (b.unsubscribe topic id).2 = b := by
  have hlength : (b.subscriptions.filter fun s ↦ !(s.topic == topic && s.id == id)).length =
      b.subscriptions.length := by
    simpa [unsubscribe] using h
  rw [unsubscribe, List.filter_eq_self.2 (List.length_filter_eq_length_iff.1 hlength)]

theorem LeavesOut.count {b' : Bus α} {s : Subscription α} (h : b.LeavesOut b' s) (topic : Topic) :
    b'.count topic + (if s.topic = topic then 1 else 0) = b.count topic := by
  obtain ⟨before, after, he, rfl⟩ := h
  simp only [Bus.count, on, he, List.filter_append, List.filter_cons, List.length_append]
  by_cases ht : s.topic = topic <;> simp [ht]
  omega

/-! ## One subscription begins -/

theorem on_subscribe (b : Bus α) (topic : Topic) (subscriber : α) :
    (b.subscribe topic subscriber).2.on topic =
      b.on topic ++ [⟨(b.subscribe topic subscriber).1, topic, subscriber⟩] := by
  simp [on, subscribe]

theorem on_subscribe_of_ne {other : Topic} (h : other ≠ topic) (subscriber : α) :
    (b.subscribe topic subscriber).2.on other = b.on other := by
  simp [on, subscribe, h.symm]

/-! ## What the moves come to -/

/-- The number that is given out at the move. -/
def given? (b : Bus α) : Move α → Option Nat
  | .subscribe topic subscriber => some (b.subscribe topic subscriber).1
  | .unsubscribe .. | .clear | .publish _ | .returned _ => none

/-- Whether the move begins a subscription to the topic. -/
def Move.begins (topic : Topic) : Move α → Bool
  | .subscribe t _ => t == topic
  | .unsubscribe .. | .clear | .publish _ | .returned _ => false

/-- Whether the move is to end a subscription to the topic, and it is told that there was one. -/
def ends (b : Bus α) (topic : Topic) : Move α → Bool
  | .unsubscribe t id => t == topic && (b.unsubscribe t id).1
  | .subscribe .. | .clear | .publish _ | .returned _ => false

def Move.isClear : Move α → Bool
  | .clear => true
  | .subscribe .. | .unsubscribe .. | .publish _ | .returned _ => false

theorem next_deed (b : Bus α) (m : Move α) :
    (b.deed m).next = b.next + (b.given? m).toList.length := by
  cases m <;> rfl

theorem mem_deed {m : Move α} {s : Subscription α} (hs : s ∈ (b.deed m).subscriptions) :
    s ∈ b.subscriptions ∨ b.next ≤ s.id := by
  cases m with
  | subscribe t subscriber =>
    refine (List.mem_append.1 hs).imp_right fun hs ↦ ?_
    exact List.mem_singleton.1 hs ▸ Nat.le_refl _
  | unsubscribe t id => exact .inl (List.mem_filter.1 hs).1
  | clear => exact absurd hs List.not_mem_nil
  | publish | returned => exact .inl hs

theorem Numbered.count_deed (h : b.Numbered) {m : Move α} (hm : m.isClear = false)
    (topic : Topic) :
    (b.deed m).count topic + (b.ends topic m).toNat = b.count topic + (m.begins topic).toNat := by
  cases m with
  | clear => cases hm
  | publish | returned => rfl
  | subscribe t subscriber =>
    by_cases ht : t = topic <;>
      simp [Bus.deed, Bus.subscribe, Bus.count, Bus.on, ends, Move.begins, ht]
  | unsubscribe t id =>
    cases hs : (b.unsubscribe t id).1 with
    | false => simp [Bus.deed, Bus.unsubscribe_of_not hs, ends, Move.begins, hs]
    | true =>
      obtain ⟨s, hs', rfl, rfl⟩ := unsubscribe_iff.1 hs
      have hends : b.ends topic (.unsubscribe s.topic s.id) = (s.topic == topic) := by
        simp [ends, hs]
      have hcount := (h.unsubscribe_of_mem hs').count topic
      rw [hends, beq_eq_decide]
      by_cases ht : s.topic = topic <;> simpa [Bus.deed, Move.begins, ht] using hcount

namespace Trace

variable {t : Trace α}

/-- The numbers that are given out at the moves, in order. -/
def given (t : Trace α) : List (Move α) → List Nat
  | [] => []
  | m :: moves => (t.run.bus.given? m).toList ++ (t.step m).given moves

/-- How many subscriptions to the topic are ended one by one at the moves. -/
def ended (t : Trace α) (topic : Topic) : List (Move α) → Nat
  | [] => 0
  | m :: moves => (t.run.bus.ends topic m).toNat + (t.step m).ended topic moves

/-- The numbers are consecutive. -/
theorem given_eq (t : Trace α) (moves : List (Move α)) :
    ∃ n, t.given moves = List.range' t.run.bus.next n := by
  induction moves generalizing t with
  | nil => exact ⟨0, rfl⟩
  | cons m moves ih =>
    obtain ⟨n, hn⟩ := ih (t.step m)
    rw [bus_step, next_deed] at hn
    rw [given, hn]
    cases hg : t.run.bus.given? m with
    | none => exact ⟨n, rfl⟩
    | some i =>
      obtain rfl : i = t.run.bus.next := by cases m <;> cases hg; rfl
      exact ⟨n + 1, rfl⟩

theorem count_play (h : t.run.bus.Numbered) {moves : List (Move α)}
    (hmoves : ∀ m ∈ moves, m.isClear = false) (topic : Topic) :
    (t.play moves).run.bus.count topic + t.ended topic moves =
      t.run.bus.count topic + moves.countP (·.begins topic) := by
  induction moves generalizing t with
  | nil => rfl
  | cons m moves ih =>
    obtain ⟨hm, hmoves⟩ := List.forall_mem_cons.1 hmoves
    have hstep : (t.step m).run.bus = t.run.bus.deed m := bus_step t m
    have hfirst := h.count_deed hm topic
    have hrest := ih (t := t.step m) (hstep ▸ h.deed m) hmoves
    rw [hstep] at hrest
    have hplay : t.play (m :: moves) = (t.step m).play moves := rfl
    have hbegins : (m.begins topic).toNat = if m.begins topic = true then 1 else 0 := by
      cases m.begins topic <;> rfl
    rw [ended, List.countP_cons, hplay, ← hbegins]
    omega

theorem numbered_play (moves : List (Move α)) : (({} : Trace α).play moves).run.bus.Numbered := by
  rw [bus_play]
  exact numbered_empty.deeds moves

theorem play_append (t : Trace α) (moves moves' : List (Move α)) :
    t.play (moves ++ moves') = (t.play moves).play moves' := List.foldl_append

/-- Nobody is registered at the start, nor after everything has been cleared. -/
theorem count_rdropWhile (moves : List (Move α)) (topic : Topic) :
    (({} : Trace α).play (moves.rdropWhile (!·.isClear))).run.bus.count topic = 0 := by
  rcases List.eq_nil_or_concat (moves.rdropWhile (!·.isClear)) with hd | ⟨earlier, m, hd⟩
  · rw [hd]
    rfl
  · have hm : m.isClear = true := by
      have := List.rdropWhile_last_not (!Move.isClear ·) moves (by simp [hd])
      simpa [hd] using this
    cases m with
    | clear =>
      rw [hd, List.concat_eq_append, play_append, play, List.foldl_cons, List.foldl_nil, bus_step]
      rfl
    | subscribe | unsubscribe | publish | returned => cases hm

end Trace

end ProgressFeed.Bus
