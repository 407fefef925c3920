import ProgressFeed.Proofs.Ledger
import Mathlib.Order.Nat

/-!
# What becomes of channels

A channel that has been made is live until its owner closes it or it has told its owner of its end.
An owner that holds one channel at a time, and lets go of it before it takes the next, leaves a trace
from which all can be read: each channel is opened once, closed at most once and not after its end,
and the live one is the one that is held.
-/

namespace ProgressFeed

/-- What happens to the channel of a number. -/
inductive Happening
  | made (channel : Nat)
  | opened (channel : Nat)
  /-- Its owner has closed it. -/
  | closed (channel : Nat) (closing : Channel.Closing)
  /-- It has told its owner of its end. -/
  | ended (channel : Nat)
deriving DecidableEq, Repr

namespace Happening

def made? : Happening → Option Nat
  | .made i => some i
  | .opened _ | .closed .. | .ended _ => none

def opened? : Happening → Option Nat
  | .opened i => some i
  | .made _ | .closed .. | .ended _ => none

def closed? : Happening → Option Nat
  | .closed i _ => some i
  | .made _ | .opened _ | .ended _ => none

end Happening

def Command.happening? (w : Ledger) (a : Answers) : Command → Option Happening
  | .create .. => (w.outside a).channel.map (.made ·.id)
  | .open i _ => some (.opened i)
  | .close i closing => some (.closed i closing)
  | .send .. | .setAlarm .. | .stopAlarm _ | .fetch .. => none

/-- What the world makes of commands. -/
def happenings (w : Ledger) (a : Answers) : List Command → List Happening
  | [] => []
  | c :: commands => (c.happening? w a).toList ++ happenings (w.obey c) a commands

/-- The channel that is held, and how many channels there have been. -/
structure Custody where
  held : Option Nat := none
  count : Nat := 0
deriving DecidableEq, Repr

/-- What happens to the channels of an owner that holds one at a time. -/
inductive Traffic : Custody → List Happening → Custody → Prop
  | nil (x : Custody) : Traffic x [] x
  | make {count : Nat} {log : List Happening} {y : Custody} (h : Traffic ⟨count, count + 1⟩ log y) :
    Traffic ⟨none, count⟩ (.made count :: .opened count :: log) y
  | close {i count : Nat} {log : List Happening} {y : Custody} (hi : i < count)
    (h : Traffic ⟨none, count⟩ log y) : Traffic ⟨i, count⟩ (.closed i .byOwner :: log) y
  /-- Also a channel that is not held any more can tell of its end. -/
  | finish {held : Option Nat} {i count : Nat} {log : List Happening} {y : Custody} (hi : i < count)
    (h : Traffic ⟨held.filter (· != i), count⟩ log y) : Traffic ⟨held, count⟩ (.ended i :: log) y

namespace Traffic

variable {x y z : Custody} {log more : List Happening} {i : Nat}

theorem append (h : Traffic x log y) (h' : Traffic y more z) : Traffic x (log ++ more) z := by
  induction h with
  | nil => exact h'
  | make _ ih => exact .make (ih h')
  | close hi _ ih => exact .close hi (ih h')
  | finish hi _ ih => exact .finish hi (ih h')

theorem made (h : Traffic x log y) :
    List.range x.count ++ log.filterMap Happening.made? = List.range y.count := by
  induction h with
  | nil => simp
  | make _ ih => simpa [List.filterMap_cons, Happening.made?, List.range_succ] using ih
  | close _ _ ih => simpa [List.filterMap_cons, Happening.made?] using ih
  | finish _ _ ih => simpa [List.filterMap_cons, Happening.made?] using ih

theorem opened (h : Traffic x log y) :
    log.filterMap Happening.opened? = log.filterMap Happening.made? := by
  induction h with
  | nil => rfl
  | make _ ih => simpa [List.filterMap_cons, Happening.made?, Happening.opened?] using ih
  | close _ _ ih => simpa [List.filterMap_cons, Happening.made?, Happening.opened?] using ih
  | finish _ _ ih => simpa [List.filterMap_cons, Happening.made?, Happening.opened?] using ih

theorem le_of_made (h : Traffic x log y) (hi : .made i ∈ log) : x.count ≤ i := by
  have hm : i ∈ log.filterMap Happening.made? := List.mem_filterMap.2 ⟨_, hi, rfl⟩
  have hn : (List.range x.count ++ log.filterMap Happening.made?).Nodup := by
    rw [h.made]
    exact List.nodup_range
  by_contra hlt
  exact (List.nodup_append.1 hn).2.2 i (List.mem_range.2 (Nat.not_le.1 hlt)) i hm rfl

theorem held_iff (h : Traffic x log y) :
    y.held = some i ↔
      (x.held = some i ∨ .made i ∈ log) ∧ (∀ closing, .closed i closing ∉ log) ∧ .ended i ∉ log := by
  induction h with
  | nil => simp
  | make _ ih => simp [ih, eq_comm]
  | @close j _ log _ hj h ih =>
    rw [ih]
    by_cases hij : i = j
    · subst hij
      have hm : .made i ∉ log := fun hm ↦ absurd hj (Nat.not_lt.2 (h.le_of_made hm))
      refine iff_of_false (by simp [hm]) fun hc ↦ ?_
      exact hc.2.1 .byOwner (List.mem_cons_self ..)
    · simp [hij, Ne.symm hij]
  | @finish held j _ log _ hj h ih =>
    rw [ih]
    by_cases hij : i = j
    · subst hij
      have hm : .made i ∉ log := fun hm ↦ absurd hj (Nat.not_lt.2 (h.le_of_made hm))
      simp [hm, Option.filter_eq_some_iff]
    · simp [hij, Option.filter_eq_some_iff]

end Traffic

/-! ## Commands -/

/-- A command that concerns no channel, or only what is sent over one. -/
def Command.IsAside : Command → Prop
  | .create .. | .open .. | .close .. => False
  | .send .. | .setAlarm .. | .stopAlarm _ | .fetch .. => True

namespace Ledger

variable {w w' : Ledger} {a : Answers} {held held' held'' : Option Nat}
  {commands more : List Command}

theorem happenings_append :
    happenings w a (commands ++ more) =
      happenings w a commands ++ happenings (w.obeyAll commands) a more := by
  induction commands generalizing w with
  | nil => rfl
  | cons c commands ih => simp [happenings, ih]

theorem opened_obeyAll_of_isAside (h : ∀ c ∈ commands, c.IsAside) :
    (w.obeyAll commands).opened = w.opened := by
  induction commands generalizing w with
  | nil => rfl
  | cons c commands ih =>
    have hc := h c (List.mem_cons_self ..)
    rw [obeyAll_cons, ih fun d hd ↦ h d (List.mem_cons_of_mem _ hd)]
    cases c with
    | create | «open» | close => exact hc.elim
    | send | setAlarm | stopAlarm | fetch => rfl

theorem happenings_of_isAside (h : ∀ c ∈ commands, c.IsAside) : happenings w a commands = [] := by
  induction commands generalizing w with
  | nil => rfl
  | cons c commands ih =>
    have hc := h c (List.mem_cons_self ..)
    rw [happenings, ih fun d hd ↦ h d (List.mem_cons_of_mem _ hd)]
    cases c with
    | create | «open» | close => exact hc.elim
    | send | setAlarm | stopAlarm | fetch => rfl

/-- The commands lead from holding one channel to holding another. -/
def Handover (w : Ledger) (a : Answers) (held : Option Nat) (commands : List Command)
    (held' : Option Nat) : Prop :=
  Traffic ⟨held, w.opened.length⟩ (happenings w a commands)
    ⟨held', (w.obeyAll commands).opened.length⟩

theorem Handover.append (h : w.Handover a held commands held')
    (h' : (w.obeyAll commands).Handover a held' more held'') :
    w.Handover a held (commands ++ more) held'' := by
  have ht := Traffic.append h h'
  rwa [← happenings_append, ← obeyAll_append] at ht

theorem handover_of_isAside (h : ∀ c ∈ commands, c.IsAside) (held : Option Nat) :
    w.Handover a held commands held := by
  unfold Handover
  rw [happenings_of_isAside h, opened_obeyAll_of_isAside h]
  exact .nil _

theorem handover_nil (held : Option Nat) : w.Handover a held [] held := .nil _

theorem Handover.after_isAside (h : (w.obeyAll commands).Handover a held more held')
    (hc : ∀ c ∈ commands, c.IsAside) : w.Handover a held (commands ++ more) held' :=
  (handover_of_isAside hc held).append h

theorem handover_close {i : Nat} (hi : i < w.opened.length) :
    w.Handover a (some i) [.close i .byOwner] none := .close hi (.nil _)

theorem handover_create {isDuplex : Bool} (h : a.channel = some isDuplex) (source token : Bytes)
    (stamp : Stamp) :
    w.Handover a none [.create source token, .open w.opened.length stamp]
      (some w.opened.length) := by
  have hm : ((w.outside a).channel.map fun c ↦ Happening.made c.id) =
      some (.made w.opened.length) := by
    simp [outside, h]
  simp only [Handover, happenings, Command.happening?, hm, obeyAll_cons, obey, obeyAll_nil,
    List.length_append, List.length_singleton, Option.toList_some, List.singleton_append,
    List.append_nil]
  exact .make (.nil _)

/-- Nothing is made when the world has no channel. -/
theorem handover_create_none (h : a.channel = none) (source token : Bytes) :
    w.Handover a held [.create source token] held := by
  have hm : ((w.outside a).channel.map fun c ↦ Happening.made c.id) = none := by
    simp [outside, h]
  simp only [Handover, happenings, Command.happening?, hm, obeyAll_cons, obey, obeyAll_nil,
    Option.toList_none, List.nil_append]
  exact .nil _

end Ledger

end ProgressFeed
