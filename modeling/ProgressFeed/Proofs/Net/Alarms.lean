import Mathlib.Data.List.Basic
import ProgressFeed.Net.Alarms

/-!
# Alarms ring once

Whoever has the number of an alarm, or a copy of it, can stop the alarm at any time and as often as
it likes: while the wait is under way, also when its end is already queued, after the end, and from
inside the task. What a task does is the moves that follow the end of its wait. Whatever the moves
are, an alarm takes one of five courses.
-/

namespace ProgressFeed.Net.Alarms

variable {τ : Type}

inductive Move (τ : Type)
  | set (delay : Int) (task : τ)
  | stop (id : Nat)
  /-- The wait of an alarm ends, in one way or another. -/
  | complete (id : Nat) (c : Completion)

inductive Record (τ : Type)
  | call (c : Call)
  /-- Somebody stops an alarm, which was pending or not. -/
  | stopped (id : Nat) (wasPending : Bool)
  | ended (id : Nat) (isAborted : Bool)
  /-- The task is carried out. -/
  | ran (id : Nat) (task : τ)

namespace Record

/-- The alarm that a record is about. -/
def id? : Record τ → Option Nat
  | call (.wait id _) | call (.cancelTimer id) | stopped id _ | ended id _ | ran id _ => some id
  | call _ => none

def call? : Record τ → Option Call
  | call c => some c
  | stopped .. | ended .. | ran .. => none

def task? : Record τ → Option τ
  | ran _ task => some task
  | call _ | stopped .. | ended .. => none

end Record

/-- Alarms at work. -/
structure Run (τ : Type) where
  alarms : Alarms τ := {}
  /-- What has happened so far, first things first. -/
  records : List (Record τ) := []

/-- What one move can do to the alarm of this number, once it is set. -/
inductive Next (id : Nat) : Entry τ → Entry τ → List (Record τ) → Prop
  | stop (e : Entry τ) :
    Next id e { e with timer := e.timer.cancel }
      (.stopped id e.timer.isPending ::
        if e.timer.isPending && e.isWaiting then [.call (.cancelTimer id)] else [])
  | complete {e : Entry τ} (hw : e.isWaiting = true) (isAborted : Bool) :
    Next id e { e with timer := e.timer.expire isAborted, isWaiting := false }
      (.ended id isAborted :: if e.timer.expires isAborted then [.ran id e.task] else [])

theorem Next.id? {id : Nat} {e e' : Entry τ} {more : List (Record τ)} (h : Next id e e' more) :
    ∀ x ∈ more, x.id? = some id := by
  cases h with
  | stop | complete =>
    refine List.forall_mem_cons.2 ⟨rfl, ?_⟩
    split
    · exact List.forall_mem_singleton.2 rfl
    · exact List.forall_mem_nil _

namespace Run

variable {r : Run τ} {id i : Nat} {e e' : Entry τ} {delay : Int} {task : τ} {c : Completion}
  {more : List (Record τ)}

def alarm? (r : Run τ) (id : Nat) : Option (Entry τ) := r.alarms.entries[id]?

/-- One move. A wait that is over does not end again. -/
def step (r : Run τ) : Move τ → Run τ
  | .set delay task =>
    let (alarms, calls) := r.alarms.set delay task
    { alarms, records := r.records ++ calls.map .call }
  | .stop id =>
    let (alarms, calls) := r.alarms.stop id
    let stopped := (r.alarm? id).map fun e ↦ Record.stopped id e.timer.isPending
    { alarms, records := r.records ++ (stopped.toList ++ calls.map .call) }
  | .complete id c =>
    if (r.alarm? id).any (·.isWaiting) then
      let (alarms, task) := r.alarms.complete id c
      let ended := Record.ended id (c.errorKind == some .aborted)
      { alarms, records := r.records ++ (ended :: (task.map (.ran id)).toList) }
    else r

def play (r : Run τ) (moves : List (Move τ)) : Run τ := moves.foldl step r

/-- What has happened to the alarm of this number. -/
def history (r : Run τ) (id : Nat) : List (Record τ) := r.records.filter (·.id? == some id)

def isPending (r : Run τ) (id : Nat) : Bool := r.alarms.pending[id]? == some true

theorem play_induction {P : Run τ → Prop} (hstep : ∀ r m, P r → P (r.step m)) {r : Run τ} (h : P r)
    (moves : List (Move τ)) : P (r.play moves) := by
  induction moves generalizing r with
  | nil => exact h
  | cons m moves ih => exact ih (hstep r m h)

/-! ## What a move does -/

/-- A new alarm is set. -/
def add (r : Run τ) (delay : Int) (task : τ) : Run τ where
  alarms := ⟨r.alarms.entries ++ [⟨{}, true, task⟩]⟩
  records := r.records ++ [.call (.wait r.alarms.next delay)]

/-- Something happens to an alarm. -/
def put (r : Run τ) (i : Nat) (e : Entry τ) (more : List (Record τ)) : Run τ where
  alarms := ⟨r.alarms.entries.set i e⟩
  records := r.records ++ more

theorem step_set (r : Run τ) (delay : Int) (task : τ) :
    r.step (.set delay task) = r.add delay task := rfl

theorem step_stop (h : r.alarm? i = some e) :
    r.step (.stop i) = r.put i { e with timer := e.timer.cancel }
      (.stopped i e.timer.isPending ::
        if e.timer.isPending && e.isWaiting then [.call (.cancelTimer i)] else []) := by
  have he : r.alarms.entries[i]? = some e := h
  simp only [step, h, stop, he, put]
  split <;> rfl

theorem step_stop_of_none (h : r.alarm? i = none) : r.step (.stop i) = r := by
  have he : r.alarms.entries[i]? = none := h
  simp [step, h, stop, he]

theorem step_complete (h : r.alarm? i = some e) (hw : e.isWaiting = true) {isAborted : Bool}
    (hc : (c.errorKind == some .aborted) = isAborted) :
    r.step (.complete i c) =
      r.put i { e with timer := e.timer.expire isAborted, isWaiting := false }
        (.ended i isAborted :: if e.timer.expires isAborted then [.ran i e.task] else []) := by
  subst hc
  have he : r.alarms.entries[i]? = some e := h
  have hany : (r.alarm? i).any (·.isWaiting) = true := by rw [h]; exact hw
  simp only [step, if_pos hany, complete, he, put]
  split <;> rfl

theorem step_complete_of_not (h : (r.alarm? i).any (·.isWaiting) ≠ true) (c : Completion) :
    r.step (.complete i c) = r := if_neg h

/-- A move sets an alarm, or something happens to one that has been set, or nothing happens. -/
theorem step_cases (r : Run τ) (m : Move τ) :
    (∃ delay task, r.step m = r.add delay task) ∨
    (∃ i e e' more, r.alarm? i = some e ∧ Next i e e' more ∧ r.step m = r.put i e' more) ∨
    r.step m = r := by
  cases m with
  | set delay task => exact .inl ⟨delay, task, rfl⟩
  | stop i =>
    cases h : r.alarm? i with
    | none => exact .inr (.inr (step_stop_of_none h))
    | some e =>
      exact .inr (.inl ⟨i, e, _, _, h, .stop e, step_stop h⟩)
  | complete i c =>
    cases h : r.alarm? i with
    | none => exact .inr (.inr (step_complete_of_not (by simp [h]) c))
    | some e =>
      by_cases hw : e.isWaiting = true
      · exact .inr (.inl ⟨i, e, _, _, h, .complete hw _, step_complete h hw rfl⟩)
      · exact .inr (.inr (step_complete_of_not (by simpa [h] using hw) c))

theorem lt_of_alarm? (h : r.alarm? i = some e) : i < r.alarms.next :=
  (List.getElem?_eq_some_iff.1 h).1

/-- All records are about alarms that have been set. -/
def Known (r : Run τ) : Prop := ∀ x ∈ r.records, ∀ i, x.id? = some i → i < r.alarms.next

theorem known_step (r : Run τ) (m : Move τ) (h : r.Known) : (r.step m).Known := by
  rcases r.step_cases m with ⟨delay, task, hm⟩ | ⟨j, e, e', more, hj, hnext, hm⟩ | hm <;> rw [hm]
  · intro x hx i hi
    simp only [add, next, List.length_append, List.length_singleton]
    rcases List.mem_append.1 hx with hx | hx
    · exact Nat.lt_succ_of_lt (h x hx i hi)
    · rw [List.mem_singleton.1 hx] at hi
      cases hi
      exact Nat.lt_succ_self _
  · intro x hx i hi
    simp only [put, next, List.length_set]
    rcases List.mem_append.1 hx with hx | hx
    · exact h x hx i hi
    · cases hi.symm.trans (hnext.id? x hx)
      exact lt_of_alarm? hj
  · exact h

theorem known_empty : ({} : Run τ).Known := List.forall_mem_nil _

theorem Known.history_eq_nil (h : r.Known) : r.history r.alarms.next = [] := by
  refine List.filter_eq_nil_iff.2 fun x hx hid ↦ ?_
  exact Nat.lt_irrefl _ (h x hx _ (eq_of_beq hid))

/-! ## The history of one alarm -/

theorem alarm?_add_self : (r.add delay task).alarm? r.alarms.next = some ⟨{}, true, task⟩ :=
  List.getElem?_concat_length ..

theorem history_add_self (h : r.Known) :
    (r.add delay task).history r.alarms.next = [.call (.wait r.alarms.next delay)] := by
  rw [history, add, List.filter_append, ← history, h.history_eq_nil]
  simp [Record.id?]

theorem alarm?_add (h : r.alarm? id = some e) : (r.add delay task).alarm? id = some e :=
  (List.getElem?_append_left (lt_of_alarm? h)).trans h

theorem history_add (h : r.alarm? id = some e) : (r.add delay task).history id = r.history id := by
  have hne : r.alarms.next ≠ id := (Nat.ne_of_lt (lt_of_alarm? h)).symm
  simp [history, add, Record.id?, hne]

theorem alarm?_put_self (h : r.alarm? id = some e) : (r.put id e' more).alarm? id = some e' :=
  List.getElem?_set_self (lt_of_alarm? h)

theorem history_put_self (h : ∀ x ∈ more, x.id? = some id) :
    (r.put id e' more).history id = r.history id ++ more := by
  have hmore : more.filter (·.id? == some id) = more :=
    List.filter_eq_self.2 fun x hx ↦ by simp [h x hx]
  rw [history, put, List.filter_append, ← history, hmore]

theorem alarm?_put (h : i ≠ id) : (r.put i e' more).alarm? id = r.alarm? id :=
  List.getElem?_set_ne h

theorem history_put (h : ∀ x ∈ more, x.id? = some i) (hi : i ≠ id) :
    (r.put i e' more).history id = r.history id := by
  rw [history, put, List.filter_append, ← history,
    List.filter_eq_nil_iff.2 fun x hx ↦ by simp [h x hx, hi], List.append_nil]

end Run

/-! ## Courses -/

/-- What happens to an alarm that has been stopped: its wait ends, or it is stopped again. -/
def Record.IsIdle (id : Nat) (x : Record τ) : Prop :=
  x = .stopped id false ∨ ∃ isAborted, x = .ended id isAborted

/-- The courses that an alarm can take. -/
inductive Course (id : Nat) (delay : Int) (task : τ) : Entry τ → List (Record τ) → Prop
  | waits : Course id delay task ⟨{}, true, task⟩ [.call (.wait id delay)]
  /-- The wait was broken off from outside; the alarm stays pending. -/
  | breaks : Course id delay task ⟨{}, false, task⟩ [.call (.wait id delay), .ended id true]
  | rings {idle : List (Record τ)} (h : ∀ x ∈ idle, x = .stopped id false) :
    Course id delay task ⟨{ hasFired := true }, false, task⟩
      (.call (.wait id delay) :: .ended id false :: .ran id task :: idle)
  | stops {isWaiting : Bool} {idle : List (Record τ)} (h : ∀ x ∈ idle, x.IsIdle id) :
    Course id delay task ⟨{ isCancelled := true }, isWaiting, task⟩
      (.call (.wait id delay) :: .stopped id true :: .call (.cancelTimer id) :: idle)
  /-- There is no wait any more that could be cancelled. -/
  | stopsLate {idle : List (Record τ)} (h : ∀ x ∈ idle, x.IsIdle id) :
    Course id delay task ⟨{ isCancelled := true }, false, task⟩
      (.call (.wait id delay) :: .ended id true :: .stopped id true :: idle)

namespace Course

variable {id : Nat} {delay : Int} {task : τ} {e e' : Entry τ} {h more : List (Record τ)}

theorem next (hc : Course id delay task e h) (hn : Next id e e' more) :
    Course id delay task e' (h ++ more) := by
  cases hc with
  | waits =>
    cases hn with
    | stop => exact .stops (List.forall_mem_nil _)
    | complete hw isAborted =>
      cases isAborted with
      | true => exact .breaks
      | false => exact .rings (List.forall_mem_nil _)
  | breaks =>
    cases hn with
    | stop => exact .stopsLate (List.forall_mem_nil _)
    | complete hw => cases hw
  | rings hidle =>
    cases hn with
    | stop => exact .rings (List.forall_mem_append.2 ⟨hidle, List.forall_mem_singleton.2 rfl⟩)
    | complete hw => cases hw
  | stops hidle =>
    cases hn with
    | stop =>
      exact .stops (List.forall_mem_append.2 ⟨hidle, List.forall_mem_singleton.2 (.inl rfl)⟩)
    | complete hw isAborted =>
      have hlast : Timer.expires { isCancelled := true } isAborted = false := Bool.and_false _
      simp only [Timer.expire, hlast]
      exact .stops (List.forall_mem_append.2
        ⟨hidle, List.forall_mem_singleton.2 (.inr ⟨isAborted, rfl⟩)⟩)
  | stopsLate hidle =>
    cases hn with
    | stop =>
      exact .stopsLate (List.forall_mem_append.2 ⟨hidle, List.forall_mem_singleton.2 (.inl rfl)⟩)
    | complete hw => cases hw

/-! ### What can be read off a course -/

variable {idle : List (Record τ)}

theorem calls_idle (h : ∀ x ∈ idle, x.IsIdle id) : idle.filterMap Record.call? = [] := by
  refine List.filterMap_eq_nil_iff.2 fun x hx ↦ ?_
  rcases h x hx with rfl | ⟨isAborted, rfl⟩ <;> rfl

theorem tasks_idle (h : ∀ x ∈ idle, x.IsIdle id) : idle.filterMap Record.task? = [] := by
  refine List.filterMap_eq_nil_iff.2 fun x hx ↦ ?_
  rcases h x hx with rfl | ⟨isAborted, rfl⟩ <;> rfl

theorem stopped_idle (h : ∀ x ∈ idle, x.IsIdle id) : .stopped id true ∉ idle := by
  intro hs
  rcases h _ hs with hx | ⟨isAborted, hx⟩ <;> cases hx

theorem tasks (hc : Course id delay task e h) :
    h.filterMap Record.task? = if e.timer.hasFired then [task] else [] := by
  cases hc with
  | waits | breaks => rfl
  | rings h => simp [List.filterMap_cons, Record.task?, tasks_idle fun x hx ↦ .inl (h x hx)]
  | stops h | stopsLate h => simp [List.filterMap_cons, Record.task?, tasks_idle h]

theorem calls (hc : Course id delay task e h) :
    h.filterMap Record.call? = [.wait id delay] ∨
      h.filterMap Record.call? = [.wait id delay, .cancelTimer id] ∧ e.timer.hasFired = false := by
  cases hc with
  | waits | breaks => exact .inl rfl
  | rings h =>
    exact .inl (by simp [List.filterMap_cons, Record.call?, calls_idle fun x hx ↦ .inl (h x hx)])
  | stops h => exact .inr ⟨by simp [List.filterMap_cons, Record.call?, calls_idle h], rfl⟩
  | stopsLate h => exact .inl (by simp [List.filterMap_cons, Record.call?, calls_idle h])

theorem stopped_iff (hc : Course id delay task e h) :
    .stopped id true ∈ h ↔ e.timer.isCancelled = true := by
  cases hc with
  | waits | breaks => simp
  | rings h => simpa using stopped_idle fun x hx ↦ .inl (h x hx)
  | stops h | stopsLate h => simp

theorem not_both (hc : Course id delay task e h) :
    ¬ (e.timer.isCancelled = true ∧ e.timer.hasFired = true) := by
  cases hc <;> simp

/-- The wait has not ended, and nobody has stopped the alarm. -/
theorem eq_waits (hc : Course id delay task e h) (hended : ∀ isAborted, .ended id isAborted ∉ h)
    (hstopped : .stopped id true ∉ h) : e = ⟨{}, true, task⟩ := by
  cases hc with
  | waits => rfl
  | breaks => exact absurd (by simp) (hended true)
  | rings => exact absurd (by simp) (hended false)
  | stops | stopsLate => exact absurd (by simp) hstopped

end Course

namespace Run

/-- The alarm takes one of the courses. -/
def Takes (r : Run τ) (id : Nat) (delay : Int) (task : τ) : Prop :=
  ∃ e, r.alarm? id = some e ∧ Course id delay task e (r.history id)

theorem takes_step {r : Run τ} {id : Nat} {delay : Int} {task : τ} (m : Move τ)
    (h : r.Takes id delay task) : (r.step m).Takes id delay task := by
  obtain ⟨e, he, hc⟩ := h
  rcases r.step_cases m with ⟨delay, task, hm⟩ | ⟨i, e₀, e', more, hi, hnext, hm⟩ | hm <;> rw [hm]
  · exact ⟨e, alarm?_add he, history_add he ▸ hc⟩
  · by_cases hid : i = id
    · subst hid
      cases he.symm.trans hi
      refine ⟨e', alarm?_put_self he, ?_⟩
      rw [history_put_self hnext.id?]
      exact hc.next hnext
    · refine ⟨e, (alarm?_put hid).trans he, ?_⟩
      rwa [history_put hnext.id? hid]
  · exact ⟨e, he, hc⟩

theorem history_complete {r : Run τ} {id : Nat} {task : τ} (h : r.alarm? id = some ⟨{}, true, task⟩)
    {c : Completion} (hne : c.errorKind ≠ some .aborted) :
    (r.step (.complete id c)).history id = r.history id ++ [.ended id false, .ran id task] := by
  rw [step_complete h rfl (beq_eq_false_iff_ne.2 hne)]
  refine history_put_self ?_
  exact List.forall_mem_cons.2 ⟨rfl, List.forall_mem_singleton.2 rfl⟩

end Run

/-- An alarm that is set at any moment, whatever has been done before and is done afterwards, by
whom and from where. Its task is carried out at most once, and never if somebody has stopped the alarm
when it was pending. When its wait ends, in any way but by being broken off, and nobody has done that,
the task is carried out at once. The alarm is pending until one or the other has happened. The wait is
cancelled at most once, and not at all if the task is carried out. -/
theorem runs_once_or_is_stopped (before : List (Move τ)) (delay : Int) (task : τ)
    (after : List (Move τ)) :
    let r₀ := ({} : Run τ).play before
    let id := r₀.alarms.next
    let r := (r₀.step (.set delay task)).play after
    let h := r.history id
    h.filterMap Record.task? <+: [task] ∧
    (.stopped id true ∈ h → h.filterMap Record.task? = []) ∧
    ((∀ isAborted, .ended id isAborted ∉ h) → .stopped id true ∉ h →
      ∀ c : Completion, c.errorKind ≠ some .aborted →
        (r.step (.complete id c)).history id = h ++ [.ended id false, .ran id task]) ∧
    (r.isPending id = true ↔ h.filterMap Record.task? = [] ∧ .stopped id true ∉ h) ∧
    h.filterMap Record.call? <+: [.wait id delay, .cancelTimer id] ∧
    (h.filterMap Record.task? ≠ [] → h.filterMap Record.call? = [.wait id delay]) := by
  intro r₀ id r h
  have hknown : r₀.Known := Run.play_induction Run.known_step Run.known_empty before
  have hset : (r₀.step (.set delay task)).Takes id delay task := by
    refine ⟨_, Run.alarm?_add_self, ?_⟩
    rw [Run.step_set, Run.history_add_self hknown]
    exact .waits
  obtain ⟨e, he, hc⟩ : r.Takes id delay task :=
    Run.play_induction (P := (·.Takes id delay task)) (fun _ m ↦ Run.takes_step m) hset after
  have htasks : h.filterMap Record.task? = [] ↔ e.timer.hasFired = false := by
    rw [hc.tasks]
    cases e.timer.hasFired <;> simp
  have hpending : r.isPending id = true ↔
      e.timer.isCancelled = false ∧ e.timer.hasFired = false := by
    have hget : r.alarms.pending[id]? = some e.timer.isPending := by
      rw [pending, List.getElem?_map]
      exact congrArg _ he
    simp [Run.isPending, hget, Timer.isPending]
  refine ⟨?_, fun hs ↦ ?_, fun hended hstopped c ↦ ?_, ?_, ?_, fun ht ↦ ?_⟩
  · rw [hc.tasks]
    split <;> simp
  · rw [htasks, ← Bool.not_eq_true]
    exact fun hfired ↦ hc.not_both ⟨hc.stopped_iff.1 hs, hfired⟩
  · rw [hc.eq_waits hended hstopped] at he
    exact Run.history_complete he
  · rw [hpending, htasks, hc.stopped_iff, Bool.not_eq_true, and_comm]
  · rcases hc.calls with hcalls | ⟨hcalls, -⟩
    · exact ⟨[.cancelTimer id], by rw [hcalls]; rfl⟩
    · exact ⟨[], by rw [hcalls]; rfl⟩
  · exact hc.calls.resolve_right fun hlate ↦ ht (htasks.2 hlate.2)

/-- The end of the wait is already queued when the alarm is stopped. -/
example : (({} : Run Nat).play [.set 10 7, .stop 0, .complete 0 {}, .stop 0]).history 0 =
    [.call (.wait 0 10), .stopped 0 true, .call (.cancelTimer 0), .ended 0 false,
      .stopped 0 false] := rfl

end ProgressFeed.Net.Alarms
