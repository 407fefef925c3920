import ProgressFeed.Proofs.Feed.Life
import ProgressFeed.Proofs.Link.Finish

/-!
# Waiting

The clock goes on to a time while nobody calls the feed and no channel gives notice. Alarms ring
meanwhile, and may set others that are due by then as well. If only so many are to ring, and what
each of them begins comes to an end, the time is reached.
-/

namespace ProgressFeed.Feed

/-- How many deliveries may end before nothing is left to do. -/
def Resume.weight : Resume → Nat
  | .link _ x _ => x.weight
  | .nothing | .delivered .. => 1

theorem Resume.weight_pos (x : Resume) : 0 < x.weight := by
  cases x with
  | nothing | delivered => exact Nat.one_pos
  | link id x next => exact x.weight_pos

namespace Run

variable {r : Run} {a : Answers} {target : Int} {n : Nat} {x : Resume} {stack : List Resume}
  {y : Clock.Alarm Task} {clock : Clock Task}

/-- What happens next while nobody calls the feed: a delivery under way ends, and when there is none
the clock goes on. -/
def onward (r : Run) (target : Int) : Move :=
  if r.stack = [] then .advance target else .returned

/-- The task of the alarm that rings next, if that is what happens next. -/
def ringing (r : Run) (target : Int) : List Task :=
  if r.stack = [] then ((r.ledger.clock.takeDue? target).map (·.1.task)).toList else []

def pass (r : Run) (target : Int) (a : Answers) : Run := r.live a (r.onward target)

/-- So many turns on the way to a time, with what the world answers at each. -/
def wait (r : Run) (target : Int) (answers : List Answers) : Run := answers.foldl (pass · target) r

/-- The tasks of the alarms that ring during a wait. -/
def rung (r : Run) (target : Int) : List Answers → List Task
  | [] => []
  | a :: answers => r.ringing target ++ (r.pass target a).rung target answers

/-- The time is reached, and nothing is under way or due any more. -/
structure IsThrough (r : Run) (target : Int) : Prop where
  stack : r.stack = []
  now : r.ledger.clock.now = target
  due : r.ledger.clock.takeDue? target = none

def weight (r : Run) : Nat := burden Resume.weight r.stack

theorem live_rang (hl : r.isAlive = true) (hdue : r.ledger.clock.takeDue? target = some (y, clock))
    (a : Answers) :
    r.live a (.advance target) =
      { r with ledger := { r.ledger with clock } }.take .other
        (r.feed.rang y.id (r.ledger.outside a) y.task) := by
  have hm : r.allows (.advance target) = true := by simp [allows, hl]
  rw [live_of_allows hm]
  simp [Run.step, awake, hdue, take, hl]

theorem live_still (hl : r.isAlive = true) (hdue : r.ledger.clock.takeDue? target = none)
    (a : Answers) :
    r.live a (.advance target) =
      { r with ledger := { r.ledger with clock := { r.ledger.clock with now := target } } } := by
  have hm : r.allows (.advance target) = true := by simp [allows, hl]
  rw [live_of_allows hm]
  simp [Run.step, awake, hdue, hl]

theorem onward_of_nil (hs : r.stack = []) : r.onward target = .advance target := if_pos hs

theorem onward_of_cons (hs : r.stack = x :: stack) : r.onward target = .returned :=
  if_neg (by simp [hs])

theorem IsThrough.pass (h : r.IsThrough target) (hl : r.isAlive = true) (a : Answers) :
    r.pass target a = r := by
  have hnow : { r.ledger.clock with now := target } = r.ledger.clock := by rw [← h.now]
  rw [Run.pass, onward_of_nil h.stack, live_still hl h.due, hnow]

theorem IsThrough.wait (h : r.IsThrough target) (hl : r.isAlive = true) (answers : List Answers) :
    r.wait target answers = r := by
  induction answers with
  | nil => rfl
  | cons a answers ih =>
    rw [Run.wait, List.foldl_cons, h.pass hl a]
    exact ih

/-- While `P n` holds at most `n` alarms are to ring, of certain tasks, and what is under way is less
with every delivery. -/
structure Limits (target : Int) (T : Task → Prop) (P : Nat → Run → Prop) : Prop where
  isAlive : ∀ {n r}, P n r → r.isAlive = true
  returned : ∀ {n r x stack}, P n r → r.stack = x :: stack → ∀ a,
    P n (r.live a .returned) ∧ (r.live a .returned).weight < r.weight
  rang : ∀ {n r y clock}, P n r → r.stack = [] → r.ledger.clock.takeDue? target = some (y, clock) →
    T y.task ∧ ∃ m, n = m + 1 ∧ ∀ a,
      P m (r.live a (.advance target)) ∧ (r.live a (.advance target)).weight ≤ 4
  still : ∀ {n r}, P n r → r.stack = [] → r.ledger.clock.takeDue? target = none → ∀ a,
    P n (r.live a (.advance target))

namespace Limits

variable {T : Task → Prop} {P : Nat → Run → Prop}

/-- A ring may begin four deliveries, and so is worth five of them. -/
theorem pass (h : Limits target T P) (hr : P n r) (a : Answers) :
    (∀ t ∈ r.ringing target, T t) ∧ ∃ m, P m (r.pass target a) ∧ m + (r.ringing target).length ≤ n ∧
      ((r.pass target a).IsThrough target ∨
        5 * m + (r.pass target a).weight < 5 * n + r.weight) := by
  cases hs : r.stack with
  | cons x stack =>
    obtain ⟨hr', hlt⟩ := h.returned hr hs a
    have hpass : r.pass target a = r.live a .returned := by rw [Run.pass, onward_of_cons hs]
    have hringing : r.ringing target = [] := if_neg (by simp [hs])
    rw [hpass, hringing]
    exact ⟨List.forall_mem_nil _, n, hr', Nat.le_refl n, .inr (by omega)⟩
  | nil =>
    have hpass : r.pass target a = r.live a (.advance target) := by
      rw [Run.pass, onward_of_nil hs]
    rw [hpass, ringing, if_pos hs]
    cases hdue : r.ledger.clock.takeDue? target with
    | none =>
      refine ⟨List.forall_mem_nil _, n, h.still hr hs hdue a, Nat.le_refl n, .inl ?_⟩
      rw [live_still (h.isAlive hr) hdue]
      exact ⟨hs, rfl, hdue⟩
    | some p =>
      obtain ⟨hT, m, rfl, hm⟩ := h.rang hr hs hdue
      obtain ⟨hr', hle⟩ := hm a
      exact ⟨List.forall_mem_singleton.2 hT, m, hr', Nat.le_refl _, .inr (by omega)⟩

theorem rung_le (h : Limits target T P) (hr : P n r) (answers : List Answers) :
    (∀ t ∈ r.rung target answers, T t) ∧ (r.rung target answers).length ≤ n := by
  induction answers generalizing r n with
  | nil => exact ⟨List.forall_mem_nil _, Nat.zero_le n⟩
  | cons a answers ih =>
    obtain ⟨hT, m, hr', hle, -⟩ := h.pass hr a
    obtain ⟨hrest, hlength⟩ := ih hr'
    refine ⟨List.forall_mem_append.2 ⟨hT, hrest⟩, ?_⟩
    rw [rung, List.length_append]
    omega

theorem isThrough (h : Limits target T P) (hr : P n r) {answers : List Answers}
    (hlt : 5 * n + r.weight < answers.length) : (r.wait target answers).IsThrough target := by
  induction answers generalizing r n with
  | nil => exact absurd hlt (Nat.not_lt_zero _)
  | cons a answers ih =>
    obtain ⟨-, m, hr', -, hthrough | hless⟩ := h.pass hr a
    · have hsame := hthrough.wait (h.isAlive hr') answers
      exact hsame.symm ▸ hthrough
    · rw [List.length_cons] at hlt
      have hrest : 5 * m + (r.pass target a).weight < answers.length := by omega
      exact ih hr' hrest

end Limits

end Run

end ProgressFeed.Feed
