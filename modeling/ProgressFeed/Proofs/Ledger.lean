import ProgressFeed.Clock
import ProgressFeed.Command
import Mathlib.Data.List.Nodup

/-!
# The world's ledger

A link or a feed gives commands, and the world keeps a ledger of what comes of them: the alarms that
are set, the channels that have been opened, the queries that have been made. Whoever drives a run
decides what the world answers; the ledger supplies the numbers.
-/

namespace ProgressFeed

namespace Clock

variable {τ : Type}

/-- The alarms that are set have different numbers, all of them given out before. -/
structure Numbered (c : Clock τ) : Prop where
  nodup : (c.alarms.map Alarm.id).Nodup
  lt : ∀ a ∈ c.alarms, a.id < c.next

theorem Numbered.empty : Numbered ({} : Clock τ) := ⟨by simp, by simp⟩

theorem Numbered.set {c : Clock τ} (h : c.Numbered) (delay : Int) (task : τ) :
    (c.set delay task).Numbered := by
  constructor
  · simp only [Clock.set, List.map_append, List.map_cons, List.map_nil]
    refine List.nodup_append.2 ⟨h.nodup, by simp, ?_⟩
    rintro _ hi _ hj rfl
    obtain ⟨a, ha, hai⟩ := List.mem_map.1 hi
    have hlt := h.lt a ha
    simp only [List.mem_singleton] at hj
    omega
  · intro a ha
    simp only [Clock.set, List.mem_append, List.mem_singleton] at ha
    rcases ha with ha | rfl
    · exact Nat.lt_succ_of_lt (h.lt a ha)
    · exact Nat.lt_succ_self _

theorem Numbered.stop {c : Clock τ} (h : c.Numbered) (id : Nat) : (c.stop id).Numbered := by
  constructor
  · exact h.nodup.sublist (List.filter_sublist.map _)
  · exact fun a ha ↦ h.lt a ((List.mem_filter.1 ha).1)

theorem Numbered.at {c : Clock τ} (h : c.Numbered) (now : Int) : Numbered { c with now } :=
  ⟨h.nodup, h.lt⟩

theorem earliest_mem {alarms : List (Alarm τ)} {a : Alarm τ} (h : earliest alarms = some a) :
    a ∈ alarms := by
  induction alarms generalizing a with
  | nil => cases h
  | cons b alarms ih =>
    cases he : earliest alarms with
    | none =>
      simp only [earliest, he, Option.some.injEq] at h
      exact h ▸ List.mem_cons_self ..
    | some d =>
      simp only [earliest, he, Option.some.injEq] at h
      split at h
      · exact h ▸ List.mem_cons_of_mem _ (ih he)
      · exact h ▸ List.mem_cons_self ..

variable [DecidableEq τ]

/-- The numbers of the alarms that are set for a task. -/
def setFor (c : Clock τ) (task : τ) : List Nat :=
  (c.alarms.filter (·.task == task)).map Alarm.id

theorem mem_setFor {c : Clock τ} {task : τ} {id : Nat} :
    id ∈ c.setFor task ↔ ∃ a ∈ c.alarms, a.task = task ∧ a.id = id := by
  simp [setFor, and_assoc]

@[simp] theorem setFor_set_self (c : Clock τ) (delay : Int) (task : τ) :
    (c.set delay task).setFor task = c.setFor task ++ [c.next] := by
  simp [setFor, Clock.set]

theorem setFor_set_of_ne (c : Clock τ) (delay : Int) {task task' : τ} (h : task ≠ task') :
    (c.set delay task).setFor task' = c.setFor task' := by
  simp [setFor, Clock.set, h]

theorem setFor_stop (c : Clock τ) (id : Nat) (task : τ) :
    (c.stop id).setFor task = (c.setFor task).filter (· != id) := by
  simp only [setFor, Clock.stop, List.filter_filter, List.filter_map]
  congr 1
  exact List.filter_congr fun a _ ↦ by simp [Bool.and_comm, Function.comp]

/-- No two tasks have an alarm in common. -/
theorem Numbered.not_mem_setFor {c : Clock τ} (h : c.Numbered) {id : Nat} {task task' : τ}
    (hid : id ∈ c.setFor task) (hne : task ≠ task') : id ∉ c.setFor task' := by
  intro hid'
  obtain ⟨a, ha, rfl, rfl⟩ := mem_setFor.1 hid
  obtain ⟨b, hb, rfl, hab⟩ := mem_setFor.1 hid'
  exact hne (congrArg Alarm.task (List.inj_on_of_nodup_map h.nodup ha hb hab.symm))

theorem Numbered.setFor_stop_of_mem {c : Clock τ} (h : c.Numbered) {id : Nat} {task task' : τ}
    (hid : id ∈ c.setFor task) (hne : task ≠ task') : (c.stop id).setFor task' = c.setFor task' := by
  rw [setFor_stop]
  refine List.filter_eq_self.2 fun j hj ↦ ?_
  have hji : j ≠ id := by
    rintro rfl
    exact h.not_mem_setFor hid hne hj
  simpa using hji

end Clock

/-- What the world answers, numbers apart. -/
structure Answers where
  /-- The token that the credential source gives. -/
  token : Option Bytes := none
  /-- Whether a channel is made, and if so whether it can send. -/
  channel : Option Bool := none
  /-- Whether a payload is taken. -/
  accepts : Bool := false
deriving DecidableEq, Repr

structure Ledger where
  clock : Clock Task := {}
  /-- The stamps of the channels that have been opened, by number. -/
  opened : List Stamp := []
  /-- The epochs of the queries that have been made, by number. -/
  queries : List Nat := []
deriving DecidableEq, Repr

namespace Ledger

def outside (w : Ledger) (a : Answers) : Outside where
  token := a.token
  channel := a.channel.map (⟨w.opened.length, ·⟩)
  accepts := a.accepts
  alarm := w.clock.next

def obey (w : Ledger) : Command → Ledger
  | .open _ stamp => { w with opened := w.opened ++ [stamp] }
  | .setAlarm _ delay task => { w with clock := w.clock.set delay task }
  | .stopAlarm alarm => { w with clock := w.clock.stop alarm }
  | .fetch _ epoch => { w with queries := w.queries ++ [epoch] }
  | .create .. | .close .. | .send .. => w

def obeyAll (w : Ledger) (commands : List Command) : Ledger := commands.foldl obey w

@[simp] theorem obeyAll_nil (w : Ledger) : w.obeyAll [] = w := rfl

@[simp] theorem obeyAll_cons (w : Ledger) (c : Command) (commands : List Command) :
    w.obeyAll (c :: commands) = (w.obey c).obeyAll commands := rfl

@[simp] theorem obeyAll_append (w : Ledger) (commands more : List Command) :
    w.obeyAll (commands ++ more) = (w.obeyAll commands).obeyAll more := List.foldl_append

theorem numbered_obey {w : Ledger} (h : w.clock.Numbered) (c : Command) :
    (w.obey c).clock.Numbered := by
  cases c with
  | setAlarm alarm delay task => exact h.set delay task
  | stopAlarm alarm => exact h.stop alarm
  | create | «open» | close | send | fetch => exact h

theorem numbered_obeyAll {w : Ledger} (h : w.clock.Numbered) (commands : List Command) :
    (w.obeyAll commands).clock.Numbered := by
  induction commands generalizing w with
  | nil => exact h
  | cons c commands ih => exact ih (numbered_obey h c)

end Ledger

end ProgressFeed
