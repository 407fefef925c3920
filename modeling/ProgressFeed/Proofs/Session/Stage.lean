import ProgressFeed.Proofs.Session.Run

/-!
# What the owner of a session hears

First that the session has opened, then frames, and at the end that it has closed; a failure may
come before that, and then the close names it. When the owner closes the session nothing more is
heard.
The stages below are those of this conversation, and a path through them is a conversation that goes
by the rules.
-/

namespace ProgressFeed.Session

inductive Stage
  | unopened
  | opened
  /-- A failure has been announced, and the close that goes with it is to come. -/
  | failing (message : Bytes)
  | finished
deriving DecidableEq, Repr

namespace Stage

/-- What may happen at a stage, and the stage after it. -/
inductive Next (kind : Channel.Kind) : Stage → Record → Stage → Prop
  | call (q : Stage) (c : Net.Call) : Next kind q (.call c) q
  | sent (q : Stage) (payload : Bytes) (isTaken : Bool) : Next kind q (.sent payload isTaken) q
  | closing (q : Stage) : Next kind q .closing finished
  | opened : Next kind unopened (.notice .opened) opened
  | frame (f : Channel.Frame) : Next kind opened (.notice (.frame f)) opened
  | refused (m : Bytes) : Next kind unopened (.notice (.failed m)) (failing m)
  | failed (m : Bytes) : Next kind opened (.notice (.failed m)) (failing m)
  | failedClosed (m : Bytes) :
      Next kind (failing m) (.notice (.closed ⟨Channel.abnormalCode, m⟩)) finished
  | closed {c : Channel.Closing} (hc : kind = .eventStream → c.code = Channel.abnormalCode) :
      Next kind opened (.notice (.closed c)) finished

inductive Path (kind : Channel.Kind) : Stage → List Record → Stage → Prop
  | nil (q : Stage) : Path kind q [] q
  | cons {q q' q'' : Stage} {x : Record} {records : List Record} :
      Next kind q x q' → Path kind q' records q'' → Path kind q (x :: records) q''

variable {kind : Channel.Kind} {q q' q'' : Stage} {a b records : List Record}

theorem Next.path {x : Record} (h : Next kind q x q') : Path kind q [x] q' := .cons h (.nil q')

theorem Path.trans (h : Path kind q a q') (h' : Path kind q' b q'') : Path kind q (a ++ b) q'' := by
  induction h with
  | nil => exact h'
  | cons hx _ ih => exact .cons hx (ih h')

theorem Path.split {x : Record} (h : Path kind q (a ++ x :: b) q') :
    ∃ q₁ q₂, Path kind q a q₁ ∧ Next kind q₁ x q₂ ∧ Path kind q₂ b q' := by
  induction a generalizing q with
  | nil =>
    cases h with
    | cons hx hb => exact ⟨q, _, .nil q, hx, hb⟩
  | cons y a ih =>
    cases h with
    | cons hy h =>
      obtain ⟨q₁, q₂, ha, hx, hb⟩ := ih h
      exact ⟨q₁, q₂, .cons hy ha, hx, hb⟩

theorem path_calls (q : Stage) (calls : List Net.Call) : Path kind q (calls.map .call) q := by
  induction calls with
  | nil => exact .nil q
  | cons c calls ih => exact .cons (.call q c) ih

theorem Next.of_finished {x : Record} (h : Next kind finished x q) :
    q = finished ∧ ∀ n, x ≠ .notice n := by
  cases h <;> simp

theorem Path.silent (h : Path kind finished records q) :
    q = finished ∧ ∀ n, .notice n ∉ records := by
  induction records with
  | nil =>
    cases h
    exact ⟨rfl, by simp⟩
  | cons x records ih =>
    cases h with
    | cons hx h =>
      obtain ⟨rfl, hn⟩ := hx.of_finished
      obtain ⟨hq, hs⟩ := ih h
      refine ⟨hq, fun n hmem ↦ ?_⟩
      rcases List.mem_cons.1 hmem with hmem | hmem
      · exact hn n hmem.symm
      · exact hs n hmem

theorem Path.opened_notMem (h : Path kind q records q') (hq : q ≠ unopened) :
    .notice .opened ∉ records := by
  induction h with
  | nil => simp
  | @cons q q' q'' x records hx _ ih =>
    have hq' : q' ≠ unopened := by
      cases hx <;> simp_all
    have hx' : x ≠ .notice .opened := by
      rintro rfl
      cases hx
      exact hq rfl
    simp [hx'.symm, ih hq']

theorem Next.of_opened {x : Record} (h : Next kind q x .opened) (hq : q ≠ .opened) :
    x = .notice .opened := by
  cases h with
  | opened => rfl
  | call | sent | frame => exact absurd rfl hq

/-- A path that ends at another stage than it begins at has a last step into its end. -/
theorem Path.steps_into (h : Path kind q records q') (hq : q ≠ q') :
    ∃ q₁, q₁ ≠ q' ∧ ∃ x ∈ records, Next kind q₁ x q' := by
  induction h with
  | nil => exact absurd rfl hq
  | @cons q q₁ q' x records hx _ ih =>
    by_cases hq₁ : q₁ = q'
    · subst hq₁
      exact ⟨q, hq, x, List.mem_cons_self .., hx⟩
    · obtain ⟨q₂, hq₂, y, hy, hnext⟩ := ih hq₁
      exact ⟨q₂, hq₂, y, List.mem_cons_of_mem _ hy, hnext⟩

theorem Path.opened_mem (h : Path kind q records opened) (hq : q ≠ opened) :
    .notice .opened ∈ records := by
  obtain ⟨q₁, hq₁, x, hx, hnext⟩ := h.steps_into hq
  exact hnext.of_opened hq₁ ▸ hx

/-- A failure has been announced, or everything is over. -/
def isLate : Stage → Bool
  | failing _ | finished => true
  | unopened | opened => false

theorem Next.of_late {x : Record} (h : Next kind q x q') (hq : q.isLate = true) :
    q'.isLate = true ∧ ∀ n, x = .notice n → ∃ c, n = .closed c := by
  cases h <;> simp_all [isLate]

/-- After a failure at most the close is heard. -/
theorem Path.of_late (h : Path kind q records q') (hq : q.isLate = true) :
    q'.isLate = true ∧ ∀ n, .notice n ∈ records → ∃ c, n = .closed c := by
  induction h with
  | nil => exact ⟨hq, by simp⟩
  | @cons q q₁ q₂ x records hx _ ih =>
    obtain ⟨hq₁, hn⟩ := hx.of_late hq
    obtain ⟨hq₂, hs⟩ := ih hq₁
    refine ⟨hq₂, fun n hmem ↦ ?_⟩
    rcases List.mem_cons.1 hmem with hmem | hmem
    · exact hn n hmem.symm
    · exact hs n hmem

theorem Path.failed_notMem (h : Path kind q records q') (hq : q'.isLate = false) (m : Bytes) :
    .notice (.failed m) ∉ records := by
  intro hm
  obtain ⟨a, b, rfl⟩ := List.append_of_mem hm
  obtain ⟨q₁, q₂, -, hx, hb⟩ := h.split
  have hlate : q₂.isLate = true := by
    cases hx <;> rfl
  simp [(hb.of_late hlate).1] at hq

/-- What the owner hears and whether it has closed the session, without the rest. -/
def dialogue (records : List Record) : List Record :=
  records.filter fun
    | .notice _ | .closing => true
    | .call _ | .sent .. => false

/-- What comes of a failure: its close, unless the owner closes the session before. -/
theorem Path.dialogue_failing {m : Bytes} (h : Path kind (failing m) records q) :
    (dialogue records = [] ∧ q = failing m) ∨
    (∃ more, dialogue records = .notice (.closed ⟨Channel.abnormalCode, m⟩) :: more) ∨
    (∃ more, dialogue records = .closing :: more) := by
  induction records with
  | nil =>
    cases h
    exact .inl ⟨rfl, rfl⟩
  | cons x records ih =>
    cases h with
    | cons hx h =>
      cases hx with
      | call | sent => exact ih h
      | closing => exact .inr (.inr ⟨_, rfl⟩)
      | failedClosed => exact .inr (.inl ⟨_, rfl⟩)

theorem Next.into_finished {x : Record} (h : Next kind q x finished) (hq : q ≠ finished) :
    x = .closing ∨ ∃ c, x = .notice (.closed c) := by
  cases h with
  | closing => exact .inl rfl
  | failedClosed | closed => exact .inr ⟨_, rfl⟩
  | call | sent => exact absurd rfl hq

theorem Path.finished_mem (h : Path kind q records finished) (hq : q ≠ finished) :
    .closing ∈ records ∨ ∃ c, .notice (.closed c) ∈ records := by
  obtain ⟨q₁, hq₁, x, hx, hnext⟩ := h.steps_into hq
  rcases hnext.into_finished hq₁ with rfl | ⟨c, rfl⟩
  · exact .inl hx
  · exact .inr ⟨c, hx⟩

end Stage

end ProgressFeed.Session
