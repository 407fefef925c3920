import ProgressFeed.Phase.History
import Mathlib.Data.List.DropRight
import Mathlib.Data.List.Destutter

/-!
# What a history remembers

Of all that has been observed since the last reset a history remembers three things: the last phase,
how many phases there have been, repeats apart, and how many changes from one to the next were
unexpected. These changes are those that go back or leave a job that is over, and those that skip
more stages at once than the table of successors has.
-/

namespace ProgressFeed.Phase

namespace History

inductive Move
  | observe (p : Phase)
  | reset
deriving DecidableEq, Repr

def Move.phase? : Move → Option Phase
  | .observe p => some p
  | .reset => none

def step (h : History) : Move → History
  | .observe p => h.observe p
  | .reset => .empty

def play (moves : List Move) : History := moves.foldl step .empty

/-- What has been observed since the last reset. -/
def sinceReset (moves : List Move) : List Phase :=
  (moves.rtakeWhile (·.phase?.isSome)).filterMap Move.phase?

theorem play_concat (moves : List Move) (m : Move) : play (moves ++ [m]) = (play moves).step m :=
  List.foldl_concat ..

@[simp] theorem sinceReset_observe (moves : List Move) (p : Phase) :
    sinceReset (moves ++ [.observe p]) = sinceReset moves ++ [p] := by
  simp [sinceReset, Move.phase?]

@[simp] theorem sinceReset_reset (moves : List Move) : sinceReset (moves ++ [.reset]) = [] := by
  simp [sinceReset, Move.phase?]

theorem play_observe (ps : List Phase) : play (ps.map .observe) = ofList ps := by
  rw [play, List.foldl_map]
  rfl

theorem sinceReset_map_observe (ps : List Phase) : sinceReset (ps.map .observe) = ps := by
  induction ps using List.reverseRecOn with
  | nil => rfl
  | append_singleton ps p ih => rw [List.map_append, List.map_singleton, sinceReset_observe, ih]

end History

/-! ## Phases without repeats -/

/-- The phases, of which each is kept once for as often as it is repeated at a stretch. -/
def collapsed (ps : List Phase) : List Phase := ps.destutter (· ≠ ·)

theorem isChain_collapsed (ps : List Phase) : (collapsed ps).IsChain (· ≠ ·) :=
  List.isChain_destutter _ ps

/-- The changes from one phase to the next. -/
def passages (w : List Phase) : List (Phase × Phase) := w.zip w.tail

/-- One more phase, unless it is the one that there is already. -/
def extend (w : List Phase) (p : Phase) : List Phase :=
  if w.getLast? = some p then w else w ++ [p]

theorem destutter'_concat (ps : List Phase) (a p : Phase) :
    (ps ++ [p]).destutter' (· ≠ ·) a = extend (ps.destutter' (· ≠ ·) a) p := by
  induction ps generalizing a with
  | nil =>
    by_cases h : a = p <;> simp [extend, h]
  | cons b ps ih =>
    rw [List.cons_append]
    by_cases h : a ≠ b
    · have hlast : (a :: ps.destutter' (· ≠ ·) b).getLast? = (ps.destutter' (· ≠ ·) b).getLast? :=
        List.getLast?_cons_of_ne_nil (List.destutter'_ne_nil _ _)
      rw [List.destutter'_cons_pos _ h, List.destutter'_cons_pos _ h, ih, extend, extend, hlast]
      split <;> rfl
    · rw [List.destutter'_cons_neg _ h, List.destutter'_cons_neg _ h, ih]

theorem collapsed_concat (ps : List Phase) (p : Phase) :
    collapsed (ps ++ [p]) = extend (collapsed ps) p := by
  cases ps with
  | nil => rfl
  | cons a ps => exact destutter'_concat ps a p

theorem passages_concat (w : List Phase) (p : Phase) :
    passages (w ++ [p]) = passages w ++ (w.getLast?.map (·, p)).toList := by
  induction w with
  | nil => rfl
  | cons a w ih =>
    cases w with
    | nil => rfl
    | cons b w =>
      rw [List.getLast?_cons_cons]
      exact congrArg ((a, b) :: ·) ih

theorem ne_of_mem_passages {w : List Phase} (h : w.IsChain (· ≠ ·)) :
    ∀ x ∈ passages w, x.1 ≠ x.2 := by
  induction w with
  | nil => nofun
  | cons a w ih =>
    cases w with
    | nil => nofun
    | cons b w =>
      obtain ⟨hab, hw⟩ := List.isChain_cons_cons.1 h
      exact List.forall_mem_cons.2 ⟨hab, ih hw⟩

/-- A change is from one phase to a later one. -/
theorem sublist_of_mem_passages {w : List Phase} : ∀ x ∈ passages w, [x.1, x.2].Sublist w := by
  induction w with
  | nil => nofun
  | cons a w ih =>
    cases w with
    | nil => nofun
    | cons b w =>
      refine List.forall_mem_cons.2 ⟨?_, fun x hx ↦ (ih x hx).cons a⟩
      exact ((List.nil_sublist w).cons_cons b).cons_cons a

theorem length_passages (w : List Phase) : (passages w).length = w.length - 1 := by
  simp [passages]

/-! ## What is remembered of them -/

/-- The change is one that a job is not expected to make: it was over, or the next phase is neither
one of the successors nor one that can come before or after any other. -/
def Rejects (p q : Phase) : Prop :=
  p = completed ∨ p = failed ∨ q ∉ p.successors ∧ q ≠ failed ∧ q ≠ retrying ∧ p ≠ retrying

instance (p q : Phase) : Decidable (Rejects p q) := inferInstanceAs (Decidable (_ ∨ _ ∨ _))

theorem expects_eq (p q : Phase) : p.expects q = !decide (Rejects p q) := by
  cases p <;> cases q <;> rfl

theorem isTerminal_iff {p : Phase} : p.isTerminal = true ↔ p = completed ∨ p = failed := by
  cases p <;> simp [isTerminal]

/-- How many of the changes are unexpected. -/
def unexpected (w : List Phase) : Nat := (passages w).countP fun x ↦ decide (Rejects x.1 x.2)

namespace History

variable {h : History} {w : List Phase}

/-- The history is what is remembered of these phases. -/
structure Remembers (h : History) (w : List Phase) : Prop where
  current : h.current = w.getLast?
  transitions : h.transitions = w.length
  outOfOrder : h.outOfOrder = unexpected w

theorem remembers_empty : empty.Remembers [] := ⟨rfl, rfl, rfl⟩

theorem Remembers.extend_eq (hw : h.Remembers w) (p : Phase) :
    extend w p = if h.changes p then w ++ [p] else w := by
  rw [extend, ← hw.current]
  by_cases hc : h.current = some p <;> simp [History.changes, hc]

theorem Remembers.unexpected_concat (hw : h.Remembers w) (p : Phase) :
    unexpected (w ++ [p]) = if h.expects p then h.outOfOrder else h.outOfOrder + 1 := by
  rw [unexpected, passages_concat, List.countP_append, ← unexpected, ← hw.outOfOrder, expects,
    ← hw.current]
  cases h.current with
  | none => rfl
  | some q => by_cases hq : Rejects q p <;> simp [expects_eq, hq]

theorem Remembers.observe (hw : h.Remembers w) (p : Phase) :
    (h.observe p).Remembers (extend w p) := by
  rw [hw.extend_eq, History.observe]
  split
  · exact ⟨List.getLast?_concat.symm, by simp [hw.transitions], (hw.unexpected_concat p).symm⟩
  · exact hw

theorem remembers_play (moves : List Move) :
    (play moves).Remembers (collapsed (sinceReset moves)) := by
  induction moves using List.reverseRecOn with
  | nil => exact remembers_empty
  | append_singleton moves m ih =>
    rw [play_concat]
    cases m with
    | observe p =>
      rw [sinceReset_observe, collapsed_concat]
      exact ih.observe p
    | reset =>
      rw [sinceReset_reset]
      exact remembers_empty

/-- However it has been observed and reset, a history is determined by the phases since the last
reset, of which repeats count for nothing: it has the last of them, their number, and the number of
unexpected changes, which the first one is never among. The next observation is a change just when
it makes them more. -/
theorem remembers_collapsed (moves : List Move) :
    let h := play moves
    let w := collapsed (sinceReset moves)
    h.current = w.getLast? ∧ h.transitions = w.length ∧
    h.outOfOrder = (passages w).countP (fun x ↦ decide (Rejects x.1 x.2)) ∧
    (∀ next, h.changes next = true ↔
      w.length < (collapsed (sinceReset (moves ++ [.observe next]))).length) ∧
    (h.isTerminal = true ↔ w.getLast? = some completed ∨ w.getLast? = some failed) ∧
    (h.outOfOrder < h.transitions ↔ w ≠ []) := by
  intro h w
  have hw : h.Remembers w := remembers_play moves
  refine ⟨hw.current, hw.transitions, hw.outOfOrder, fun next ↦ ?_, ?_, ?_⟩
  · rw [sinceReset_observe, collapsed_concat, hw.extend_eq]
    cases hc : h.changes next <;> simp
  · rw [← hw.current, isTerminal, Option.any_eq_true]
    constructor
    · rintro ⟨p, hp, ht⟩
      rcases isTerminal_iff.1 ht with rfl | rfl
      · exact .inl hp
      · exact .inr hp
    · rintro (hp | hp) <;> exact ⟨_, hp, rfl⟩
  · have hle : h.outOfOrder ≤ w.length - 1 := by
      rw [hw.outOfOrder, ← length_passages]
      exact List.countP_le_length
    rw [hw.transitions, ← List.length_pos_iff]
    omega

end History

/-! ## The order of the stages -/

/-- The change is one back to an earlier stage, or it leaves a job that is over. -/
def GoesBack (p q : Phase) : Prop :=
  p.isTerminal = true ∨ p ≠ retrying ∧ q.index < p.index

instance (p q : Phase) : Decidable (GoesBack p q) := inferInstanceAs (Decidable (_ ∨ _))

/-- The last stage that a job may go to at once. -/
def farthest : Phase → Phase
  | initializing => discoveringFiles
  | evaluating | discoveringDirectories => processingFiles
  | discoveringFiles => savingMetadata
  | processingFiles | savingMetadata => completed
  | p => p

/-- The change is one to a stage that lies beyond. -/
def Overleaps (p q : Phase) : Prop :=
  p.farthest.index < q.index ∧ q.index ≤ completed.index

instance (p q : Phase) : Decidable (Overleaps p q) := inferInstanceAs (Decidable (_ ∧ _))

theorem rejects_iff {p q : Phase} (h : p ≠ q) : Rejects p q ↔ GoesBack p q ∨ Overleaps p q := by
  revert h
  cases p <;> cases q <;> decide

theorem not_overleaps_of_goesBack {p q : Phase} (h : GoesBack p q) : ¬ Overleaps p q := by
  revert h
  cases p <;> cases q <;> decide

theorem countP_rejects {x : List (Phase × Phase)} (h : ∀ y ∈ x, y.1 ≠ y.2) :
    x.countP (fun y ↦ decide (Rejects y.1 y.2)) =
      x.countP (fun y ↦ decide (GoesBack y.1 y.2)) +
        x.countP (fun y ↦ decide (Overleaps y.1 y.2)) := by
  induction x with
  | nil => rfl
  | cons y x ih =>
    obtain ⟨hy, hx⟩ := List.forall_mem_cons.1 h
    simp only [List.countP_cons, ih hx, decide_eq_true_eq, rejects_iff hy]
    by_cases hb : GoesBack y.1 y.2
    · simp only [hb, not_overleaps_of_goesBack hb, if_true, if_false, true_or]
      omega
    · by_cases ho : Overleaps y.1 y.2 <;> simp only [hb, ho, if_true, if_false, or_true, or_false] <;>
        omega

theorem not_goesBack {p q : Phase} (hne : p ≠ q) (hle : p.index ≤ q.index)
    (hq : q.index ≤ completed.index) : ¬ GoesBack p q := by
  revert hne hle hq
  cases p <;> cases q <;> decide

/-- A job that only moves forward, through whichever stages, never goes back. -/
theorem not_goesBack_of_forward {ps : List Phase} (hstage : ∀ p ∈ ps, p.index ≤ completed.index)
    (hforward : ps.Pairwise (·.index ≤ ·.index)) :
    ∀ x ∈ passages (collapsed ps), ¬ GoesBack x.1 x.2 := by
  intro x hx
  have hsub : [x.1, x.2].Sublist ps :=
    (sublist_of_mem_passages x hx).trans (List.destutter_sublist _ ps)
  have hle : x.1.index ≤ x.2.index := by simpa using hforward.sublist hsub
  exact not_goesBack (ne_of_mem_passages (isChain_collapsed ps) x hx) hle
    (hstage _ (hsub.subset (by simp)))

namespace History

/-- Of all that has been observed, the changes that count as unexpected are those that go back or
leave a job that is over, and, beyond these, those that overleap. So the count is that of the former
just if no change overleaps; and of a job that only moves forward, those changes are counted that
overleap. -/
theorem outOfOrder_eq (ps : List Phase) :
    let h := ofList ps
    let w := passages (collapsed ps)
    let back := w.countP fun x ↦ decide (GoesBack x.1 x.2)
    let leaps := w.countP fun x ↦ decide (Overleaps x.1 x.2)
    h.outOfOrder = back + leaps ∧ (h.outOfOrder = back ↔ ∀ x ∈ w, ¬ Overleaps x.1 x.2) ∧
    ((∀ p ∈ ps, p.index ≤ completed.index) → ps.Pairwise (·.index ≤ ·.index) →
      h.outOfOrder = leaps) := by
  intro h w back leaps
  have hw : h.Remembers (collapsed ps) := by
    have hplay := remembers_play (ps.map .observe)
    rwa [play_observe, sinceReset_map_observe] at hplay
  have hcount : h.outOfOrder = back + leaps :=
    hw.outOfOrder.trans (countP_rejects (ne_of_mem_passages (isChain_collapsed ps)))
  refine ⟨hcount, ?_, fun hstage hforward ↦ ?_⟩
  · have hleaps : leaps = 0 ↔ ∀ x ∈ w, ¬ Overleaps x.1 x.2 := by
      simp [leaps, List.countP_eq_zero]
    rw [← hleaps, hcount, Nat.add_eq_left]
  · have hback : back = 0 := by
      simpa [back, List.countP_eq_zero] using not_goesBack_of_forward hstage hforward
    rw [hcount, hback, Nat.zero_add]

/-- A job moves forward all the time, and overleaps three stages once. -/
theorem outOfOrder_eq_skipping :
    (ofList [evaluating, evaluating, savingMetadata, completed]).outOfOrder = 1 :=
  (outOfOrder_eq [evaluating, evaluating, savingMetadata, completed]).2.2 (by decide) (by decide)

/-- A job skips from its first stage to the processing of files. It neither goes back nor leaves a
job that is over, and counts as unexpected all the same. -/
theorem skipping_is_unexpected :
    let ps := [initializing, processingFiles]
    (passages (collapsed ps)).countP (fun x ↦ decide (GoesBack x.1 x.2)) = 0 ∧
      (ofList ps).outOfOrder = 1 := by
  decide

end History

end ProgressFeed.Phase
