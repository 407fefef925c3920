import Mathlib.Logic.Function.Iterate

/-!
# Coming to rest

Callbacks return one after another until none is left. Something that lessens a measure as long as
there is any comes to rest when it has been done as often as the measure says, and doing it once
more then changes nothing.
-/

namespace ProgressFeed

variable {α β : Type} {f : α → α} {w : α → Nat} {x : α}

/-- Does something again and again, as often as the measure of the beginning says. -/
def runDown (f : α → α) (w : α → Nat) (x : α) : α := f^[w x] x

/-- What is done lessens the measure, until nothing is left to do. -/
structure Lessens (f : α → α) (w : α → Nat) : Prop where
  lt : ∀ x, w x ≠ 0 → w (f x) < w x
  fixed : ∀ x, w x = 0 → f x = x

theorem Lessens.iterate (h : Lessens f w) {n : Nat} (hn : w x ≤ n) : f^[n] x = runDown f w x := by
  induction n using Nat.strongRecOn generalizing x with
  | ind n ih =>
    unfold runDown
    cases n with
    | zero => rw [Nat.le_zero.1 hn]
    | succ n =>
      rw [Function.iterate_succ_apply]
      cases hw : w x with
      | zero =>
        rw [h.fixed x hw, ih n (Nat.lt_succ_self n) (hw ▸ Nat.zero_le n), runDown, hw]
      | succ k =>
        have hlt : w (f x) < k + 1 := hw ▸ h.lt x (by omega)
        rw [Function.iterate_succ_apply, ih n (by omega) (by omega), ih k (by omega) (by omega)]

theorem Lessens.runDown_step (h : Lessens f w) (x : α) : runDown f w x = runDown f w (f x) := by
  by_cases hw : w x = 0
  · rw [h.fixed x hw]
  · have hlt := h.lt x hw
    rw [← h.iterate (Nat.le_succ (w x)), Function.iterate_succ_apply, h.iterate (by omega)]

theorem runDown_of_zero (h : w x = 0) : runDown f w x = x := by
  rw [runDown, h, Function.iterate_zero_apply]

theorem Lessens.runDown_measure (h : Lessens f w) (x : α) : w (runDown f w x) = 0 := by
  obtain ⟨n, hn⟩ : ∃ n, w x = n := ⟨_, rfl⟩
  induction n using Nat.strongRecOn generalizing x with
  | ind n ih =>
    by_cases hw : w x = 0
    · rw [runDown_of_zero hw, hw]
    · rw [h.runDown_step]
      exact ih _ (hn ▸ h.lt x hw) (f x) rfl

theorem runDown_induction {P : α → Prop} (hf : ∀ x, P x → P (f x)) (h : P x) :
    P (runDown f w x) := by
  unfold runDown
  induction w x generalizing x with
  | zero => exact h
  | succ n ih => exact ih (hf x h)

/-- What is seen of something that comes to rest comes to rest in the same way. -/
theorem runDown_map {f' : β → β} {w' : β → Nat} {g : α → β} (hf : ∀ x, g (f x) = f' (g x))
    (hw : w x = w' (g x)) : g (runDown f w x) = runDown f' w' (g x) := by
  rw [runDown, runDown, hw]
  exact (Function.Semiconj.iterate_right hf _).eq x

/-! ## What a stack of things leaves to do -/

def burden (weight : α → Nat) : List α → Nat
  | [] => 0
  | x :: stack => weight x + burden weight stack

theorem burden_append (weight : α → Nat) (new stack : List α) :
    burden weight (new ++ stack) = burden weight new + burden weight stack := by
  induction new with
  | nil => exact (Nat.zero_add _).symm
  | cons x new ih => rw [List.cons_append, burden, burden, ih, Nat.add_assoc]

theorem burden_eq_zero {weight : α → Nat} (hpos : ∀ x, 0 < weight x) {stack : List α} :
    burden weight stack = 0 ↔ stack = [] := by
  cases stack with
  | nil => exact iff_of_true rfl rfl
  | cons x stack =>
    have hx := hpos x
    simp only [burden, reduceCtorEq, iff_false]
    omega

end ProgressFeed
