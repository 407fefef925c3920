import ProgressFeed.EventStream
import Mathlib.Data.List.Induction

/-!
# The lines of a stream

A line ends at a line feed, at a carriage return, or at the two together. What stands behind the
last line end is the tail, which is no line yet.
-/

namespace ProgressFeed.EventStream

/-- The lines of a stream, and behind them its tail. -/
def lines : Bytes → List Bytes
  | [] => [[]]
  | 13 :: 10 :: s => [] :: lines s
  | b :: s => if b = 13 ∨ b = 10 then [] :: lines s else (lines s).modifyHead (b :: ·)

def whole (s : Bytes) : List Bytes := (lines s).dropLast

def tail (s : Bytes) : Bytes := (lines s).getLastD []

variable {s u : Bytes} {b : UInt8}

@[simp] theorem lines_nil : lines [] = [[]] := rfl

theorem lines_cons_end (hb : b = 13 ∨ b = 10) (h : b = 13 → s.head? ≠ some 10) :
    lines (b :: s) = [] :: lines s := by
  rw [lines.eq_3 b s fun t hbt hst ↦ h hbt (by simp [hst]), if_pos hb]

theorem lines_cons (hb : ¬(b = 13 ∨ b = 10)) : lines (b :: s) = (lines s).modifyHead (b :: ·) := by
  rw [lines.eq_3 b s fun t hbt _ ↦ hb (.inl hbt), if_neg hb]

/-- A stream begins with a line end, with another octet, or not at all. -/
theorem lines_induction {P : Bytes → Prop} (nil : P []) (pair : ∀ s, P s → P (13 :: 10 :: s))
    (stop : ∀ b s, (b = 13 ∨ b = 10) → (b = 13 → s.head? ≠ some 10) → P s → P (b :: s))
    (inside : ∀ b s, ¬(b = 13 ∨ b = 10) → P s → P (b :: s)) (s : Bytes) : P s := by
  induction s using lines.induct with
  | case1 => exact nil
  | case2 s ih => exact pair s ih
  | case3 b s h hb ih =>
    refine stop b s hb (fun hbt hs ↦ ?_) ih
    obtain ⟨t, rfl⟩ := List.head?_eq_some_iff.1 hs
    exact h t hbt rfl
  | case4 b s h hb ih => exact inside b s hb ih

theorem lines_eq (s : Bytes) : lines s = whole s ++ [tail s] := by
  have hn : lines s ≠ [] := by
    induction s using lines_induction with
    | nil => simp
    | pair s ih => simp [lines]
    | stop b s hb h ih => simp [lines_cons_end hb h]
    | inside b s hb ih => simpa [lines_cons hb] using ih
  rw [whole, tail, List.getLastD_eq_getLast?, List.getLast?_eq_some_getLast hn]
  exact (List.dropLast_concat_getLast hn).symm

theorem whole_of_lines {l : List Bytes} {t : Bytes} (h : lines s = l ++ [t]) : whole s = l := by
  simp [whole, h]

theorem tail_of_lines {l : List Bytes} {t : Bytes} (h : lines s = l ++ [t]) : tail s = t := by
  simp [tail, h]

/-- Where a stream is cut, the line across the cut is put together again, unless the cut goes
through a line end. -/
theorem lines_append (h : s.getLast? = some 13 → u.head? ≠ some 10) :
    lines (s ++ u) = whole s ++ (lines u).modifyHead (tail s ++ ·) := by
  induction s using lines_induction with
  | nil => cases hl : lines u <;> simp [whole, tail, hl]
  | pair s ih =>
    have hl : lines (13 :: 10 :: s) = ([] :: whole s) ++ [tail s] := by
      rw [List.cons_append, ← lines_eq]
      rfl
    have hs : s.getLast? = some 13 → u.head? ≠ some 10 :=
      fun hs ↦ h (by simp [List.getLast?_cons, hs])
    rw [whole_of_lines hl, tail_of_lines hl]
    exact congrArg ([] :: ·) (ih hs)
  | stop b s hb hbs ih =>
    have hl : lines (b :: s) = ([] :: whole s) ++ [tail s] := by
      rw [List.cons_append, ← lines_eq, lines_cons_end hb hbs]
    have hs : s.getLast? = some 13 → u.head? ≠ some 10 :=
      fun hs ↦ h (by simp [List.getLast?_cons, hs])
    have hbu : b = 13 → (s ++ u).head? ≠ some 10 := by
      rintro rfl
      cases s with
      | nil => exact h rfl
      | cons => exact hbs rfl
    rw [whole_of_lines hl, tail_of_lines hl, List.cons_append, List.cons_append, ← ih hs,
      lines_cons_end hb hbu]
  | inside b s hb ih =>
    have hs : s.getLast? = some 13 → u.head? ≠ some 10 :=
      fun hs ↦ h (by simp [List.getLast?_cons, hs])
    have hl := lines_cons (s := s) hb
    rw [List.cons_append, lines_cons hb, ih hs]
    rw [lines_eq s] at hl
    cases hw : whole s with
    | nil =>
      rw [hw] at hl
      rw [whole_of_lines (l := []) hl, tail_of_lines (l := []) hl]
      cases hu : lines u <;> simp
    | cons l ls =>
      rw [hw] at hl
      rw [whole_of_lines (l := (b :: l) :: ls) hl, tail_of_lines (l := (b :: l) :: ls) hl]
      rfl

/-- A line feed behind a carriage return is the rest of a line end. -/
theorem lines_append_feed (h : s.getLast? = some 13) : lines (s ++ [10]) = lines s := by
  obtain ⟨t, rfl⟩ := List.getLast?_eq_some_iff.1 h
  have ht : ∀ u : Bytes, lines (t ++ 13 :: u) =
      whole t ++ (lines (13 :: u)).modifyHead (tail t ++ ·) := by
    intro u
    exact lines_append fun _ hu ↦ by simp at hu
  rw [List.append_assoc, List.singleton_append, ht, ht]
  rfl

theorem lines_append_end (hb : b = 13 ∨ b = 10) (h : ¬(s.getLast? = some 13 ∧ b = 10)) :
    lines (s ++ [b]) = whole s ++ [tail s] ++ [[]] := by
  have hs : s.getLast? = some 13 → [b].head? ≠ some 10 := by
    intro hs hu
    exact h ⟨hs, by simpa using hu⟩
  rw [lines_append hs, lines_cons_end hb (by simp)]
  simp

/-- An octet of a line belongs to the line that is under way. -/
theorem lines_append_inside (hb : ¬(b = 13 ∨ b = 10)) (u : Bytes) :
    ∃ l ls, lines u = l :: ls ∧ lines (s ++ b :: u) = whole s ++ (tail s ++ b :: l) :: ls := by
  have hs : s.getLast? = some 13 → (b :: u).head? ≠ some 10 := by
    intro _ hu
    exact hb (.inr (by simpa using hu))
  cases hl : lines u with
  | nil => simp [lines_eq] at hl
  | cons l ls =>
    refine ⟨l, ls, rfl, ?_⟩
    rw [lines_append hs, lines_cons hb, hl]
    simp

theorem append_inside (hb : ¬(b = 13 ∨ b = 10)) :
    whole (s ++ [b]) = whole s ∧ tail (s ++ [b]) = tail s ++ [b] := by
  obtain ⟨l, ls, hu, hl⟩ := lines_append_inside (s := s) hb []
  cases hu
  exact ⟨whole_of_lines hl, tail_of_lines hl⟩

theorem append_end (hb : b = 13 ∨ b = 10) (h : ¬(s.getLast? = some 13 ∧ b = 10)) :
    whole (s ++ [b]) = whole s ++ [tail s] ∧ tail (s ++ [b]) = [] :=
  ⟨whole_of_lines (lines_append_end hb h), tail_of_lines (lines_append_end hb h)⟩

theorem append_feed (h : s.getLast? = some 13) :
    whole (s ++ [10]) = whole s ∧ tail (s ++ [10]) = tail s := by
  simp [whole, tail, lines_append_feed h]

theorem tail_of_return (h : s.getLast? = some 13) : tail s = [] := by
  obtain ⟨t, rfl⟩ := List.getLast?_eq_some_iff.1 h
  exact (append_end (.inl rfl) (by simp)).2

/-- If the tail is longer than what has come in last, no line has ended in that. -/
theorem whole_append (h : u.length < (tail (s ++ u)).length) : whole (s ++ u) = whole s := by
  induction u using List.reverseRecOn with
  | nil => rw [List.append_nil]
  | append_singleton u b ih =>
    rw [← List.append_assoc] at h ⊢
    rw [List.length_append, List.length_singleton] at h
    by_cases hb : b = 13 ∨ b = 10
    · by_cases hf : (s ++ u).getLast? = some 13 ∧ b = 10
      · obtain ⟨hs, rfl⟩ := hf
        rw [(append_feed hs).2, tail_of_return hs, List.length_nil] at h
        omega
      · rw [(append_end hb hf).2, List.length_nil] at h
        omega
    · rw [(append_inside hb).2, List.length_append, List.length_singleton] at h
      rw [(append_inside hb).1]
      exact ih (by omega)

end ProgressFeed.EventStream
