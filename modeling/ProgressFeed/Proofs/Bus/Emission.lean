import Mathlib.Data.List.Basic
import ProgressFeed.Bus.Emission
import ProgressFeed.Proofs.Rest

/-!
# Exact delivery

Subscribers are arbitrary programs over the bus that calls them. What they do between one call and
the next is a list of moves, and a move is made by whoever is running: by the subscriber that was
called last as long as an event is on its way, and otherwise by the owner of the bus. Whatever the
moves are, an event reaches those who were registered for its topic when it was published.
-/

namespace ProgressFeed.Bus

variable {α : Type}

inductive Move (α : Type)
  | subscribe (topic : Topic) (subscriber : α)
  | unsubscribe (topic : Topic) (id : Nat)
  | clear
  | publish (e : Event)
  /-- The subscriber that was called last is done, or it throws. -/
  | returned (outcome : Except Bytes Unit)
deriving Repr

/-- What a move does to the register. -/
def deed (b : Bus α) : Move α → Bus α
  | .subscribe topic subscriber => (b.subscribe topic subscriber).2
  | .unsubscribe topic id => (b.unsubscribe topic id).2
  | .clear => b.clear
  | .publish _ | .returned _ => b

/-- A bus at work, with the calls that it has made so far. -/
structure Trace (α : Type) where
  run : Run α := {}
  calls : List (Call α) := []
deriving DecidableEq, Repr

/-! ## The register -/

/-- The register is in the order of its numbers. -/
structure Numbered (b : Bus α) : Prop where
  below : ∀ s ∈ b.subscriptions, s.id < b.next
  ascending : b.subscriptions.Pairwise (·.id < ·.id)

theorem numbered_empty : ({} : Bus α).Numbered := ⟨List.forall_mem_nil _, .nil⟩

theorem Numbered.deed {b : Bus α} (h : b.Numbered) (m : Move α) : (b.deed m).Numbered := by
  cases m with
  | subscribe topic subscriber =>
    constructor
    · intro s hs
      rcases List.mem_append.1 hs with hs | hs
      · exact Nat.lt_succ_of_lt (h.below s hs)
      · rw [List.mem_singleton.1 hs]
        exact Nat.lt_succ_self _
    · apply List.pairwise_append.2
      refine ⟨h.ascending, List.pairwise_singleton _ _, fun s hs s' hs' ↦ ?_⟩
      rw [List.mem_singleton.1 hs']
      exact h.below s hs
  | unsubscribe topic id =>
    exact ⟨fun s hs ↦ h.below s (List.mem_filter.1 hs).1, h.ascending.filter _⟩
  | clear => exact ⟨List.forall_mem_nil _, .nil⟩
  | publish e | returned outcome => exact h

theorem Numbered.deeds {b : Bus α} (h : b.Numbered) (moves : List (Move α)) :
    (moves.foldl Bus.deed b).Numbered := by
  induction moves generalizing b with
  | nil => exact h
  | cons m moves ih => exact ih (h.deed m)

theorem Numbered.on {b : Bus α} (h : b.Numbered) (topic : Topic) :
    (b.on topic).Pairwise (·.id < ·.id) := h.ascending.filter _

theorem Numbered.below_on {b : Bus α} (h : b.Numbered) {topic : Topic} {s : Subscription α}
    (hs : s ∈ b.on topic) : s.id < b.next := h.below s (List.mem_filter.1 hs).1

/-! ## Moves -/

namespace Trace

variable {t : Trace α} {n : Nat} {e : Event} {audience : List (Subscription α)}
  {outer : List (Delivery α)}

def take (t : Trace α) (x : Turn α) : Trace α where
  run := x.run
  calls := t.calls ++ x.call.toList

def alter (t : Trace α) (bus : Bus α) : Trace α := { t with run := { t.run with bus } }

def step (t : Trace α) : Move α → Trace α
  | .publish e => t.take (t.run.publish e)
  | .returned outcome => t.take (t.run.returned outcome)
  | m => t.alter (t.run.bus.deed m)

def play (t : Trace α) (moves : List (Move α)) : Trace α := moves.foldl step t

/-- Whom the event of this number has reached, in order. -/
def reached (t : Trace α) (n : Nat) : List (Subscription α) :=
  (t.calls.filter (·.number = n)).map (·.subscription)

/-- An event is on its way, and nobody has been called yet. -/
def begin (t : Trace α) (e : Event) : Trace α :=
  { t with run := { t.run with
      begun := t.run.begun + 1
      deliveries := ⟨t.run.begun, e, t.run.bus.on e.topic⟩ :: t.run.deliveries } }

def goOn (t : Trace α) : Trace α := t.take t.run.goOn

def under (t : Trace α) (deliveries : List (Delivery α)) : Trace α :=
  { t with run := { t.run with deliveries } }

def call (t : Trace α) (c : Call α) : Trace α := { t with calls := t.calls ++ [c] }

theorem step_publish (t : Trace α) (e : Event) : t.step (.publish e) = (t.begin e).goOn := rfl

/-- To throw is to be done. -/
theorem step_returned (t : Trace α) (outcome : Except Bytes Unit) :
    t.step (.returned outcome) = t.goOn := by
  cases outcome with
  | ok | error => rfl

theorem goOn_idle (h : t.run.deliveries = []) : t.goOn = t := by
  simp [goOn, take, Run.goOn, h]

theorem goOn_ends (h : t.run.deliveries = ⟨n, e, []⟩ :: outer) : t.goOn = t.under outer := by
  simp [goOn, take, Run.goOn, h, under]

theorem goOn_calls {s : Subscription α} {waiting : List (Subscription α)}
    (h : t.run.deliveries = ⟨n, e, s :: waiting⟩ :: outer) :
    t.goOn = (t.under (⟨n, e, waiting⟩ :: outer)).call ⟨n, e, s⟩ := by
  simp [goOn, take, Run.goOn, h, under, call]

inductive GoesOn (t : Trace α) : Prop
  | idle (h : t.run.deliveries = []) (hgo : t.goOn = t)
  | ends {n : Nat} {e : Event} {outer : List (Delivery α)}
    (h : t.run.deliveries = ⟨n, e, []⟩ :: outer) (hgo : t.goOn = t.under outer)
  | calls {n : Nat} {e : Event} {s : Subscription α} {waiting : List (Subscription α)}
    {outer : List (Delivery α)} (h : t.run.deliveries = ⟨n, e, s :: waiting⟩ :: outer)
    (hgo : t.goOn = (t.under (⟨n, e, waiting⟩ :: outer)).call ⟨n, e, s⟩)

theorem goesOn (t : Trace α) : t.GoesOn := by
  cases hd : t.run.deliveries with
  | nil => exact .idle hd (goOn_idle hd)
  | cons d outer =>
    obtain ⟨n, e, waiting⟩ := d
    cases waiting with
    | nil => exact .ends hd (goOn_ends hd)
    | cons s waiting => exact .calls hd (goOn_calls hd)

theorem play_induction {P : Trace α → Prop} (halter : ∀ t bus, P t → P (t.alter bus))
    (hbegin : ∀ t e, P t → P (t.begin e)) (hgo : ∀ t, P t → P t.goOn) (h : P t)
    (moves : List (Move α)) : P (t.play moves) := by
  induction moves generalizing t with
  | nil => exact h
  | cons m moves ih =>
    apply ih
    cases m with
    | subscribe | unsubscribe | clear => exact halter t _ h
    | publish e => exact step_publish t e ▸ hgo _ (hbegin t e h)
    | returned outcome => exact step_returned t outcome ▸ hgo t h

theorem bus_goOn (t : Trace α) : t.goOn.run.bus = t.run.bus := by
  cases t.goesOn with
  | idle hd hgo => rw [hgo]
  | ends hd hgo | calls hd hgo =>
    rw [hgo]
    rfl

theorem bus_step (t : Trace α) (m : Move α) : (t.step m).run.bus = t.run.bus.deed m := by
  cases m with
  | subscribe | unsubscribe | clear => rfl
  | publish e => rw [step_publish, bus_goOn, begin, deed]
  | returned outcome => rw [step_returned, bus_goOn, deed]

/-- The register comes of what has been done to it, in the order in which it was done. -/
theorem bus_play (t : Trace α) (moves : List (Move α)) :
    (t.play moves).run.bus = moves.foldl deed t.run.bus := by
  induction moves generalizing t with
  | nil => rfl
  | cons m moves ih =>
    rw [List.foldl_cons, ← bus_step]
    exact ih (t.step m)

/-! ## Numbers of events -/

structure Below (t : Trace α) : Prop where
  deliveries : ∀ d ∈ t.run.deliveries, d.number < t.run.begun
  calls : ∀ c ∈ t.calls, c.number < t.run.begun

theorem Below.begin (h : t.Below) (e : Event) : (t.begin e).Below := by
  constructor
  · intro d hd
    rcases List.mem_cons.1 hd with rfl | hd
    · exact Nat.lt_succ_self _
    · exact Nat.lt_succ_of_lt (h.deliveries d hd)
  · exact fun c hc ↦ Nat.lt_succ_of_lt (h.calls c hc)

theorem Below.goOn (h : t.Below) : t.goOn.Below := by
  have hdeliveries := h.deliveries
  cases t.goesOn with
  | idle hd hgo => rwa [hgo]
  | ends hd hgo =>
    rw [hd, List.forall_mem_cons] at hdeliveries
    rw [hgo]
    exact ⟨hdeliveries.2, h.calls⟩
  | calls hd hgo =>
    rw [hd, List.forall_mem_cons] at hdeliveries
    rw [hgo]
    refine ⟨List.forall_mem_cons.2 hdeliveries, List.forall_mem_append.2 ⟨h.calls, ?_⟩⟩
    exact List.forall_mem_singleton.2 hdeliveries.1

theorem Below.play (h : t.Below) (moves : List (Move α)) : (t.play moves).Below := by
  apply play_induction (P := Below) ?_ ?_ ?_ h
  · exact fun _ _ h ↦ ⟨h.deliveries, h.calls⟩
  · exact fun _ e h ↦ h.begin e
  · exact fun _ h ↦ h.goOn

theorem below_empty : ({} : Trace α).Below := ⟨List.forall_mem_nil _, List.forall_mem_nil _⟩

/-! ## One event -/

/-- These still wait for an event that was published inside the outer ones: it is on its way, inside
them as before, or it has reached everybody. -/
inductive Stands (n : Nat) (e : Event) (outer deliveries : List (Delivery α))
    (rest : List (Subscription α)) : Prop
  | underway (inner : List (Delivery α)) (h : deliveries = inner ++ ⟨n, e, rest⟩ :: outer)
    (hinner : ∀ d ∈ inner, d.number ≠ n)
  | ended (hrest : rest = []) (h : ∀ d ∈ deliveries, d.number ≠ n)

variable {deliveries : List (Delivery α)} {rest waiting : List (Subscription α)} {d : Delivery α}

theorem stands_cons_of_ne (hd : d.number ≠ n) :
    Stands n e outer (d :: deliveries) rest ↔ Stands n e outer deliveries rest := by
  constructor
  · rintro (⟨inner, h, hinner⟩ | ⟨hrest, h⟩)
    · cases inner with
      | nil =>
        obtain ⟨rfl, -⟩ := List.cons.inj h
        exact absurd rfl hd
      | cons d' inner =>
        exact .underway inner (List.cons.inj h).2 fun x hx ↦ hinner x (List.mem_cons_of_mem _ hx)
    · exact .ended hrest fun x hx ↦ h x (List.mem_cons_of_mem _ hx)
  · rintro (⟨inner, rfl, hinner⟩ | ⟨hrest, h⟩)
    · exact .underway (d :: inner) rfl (List.forall_mem_cons.2 ⟨hd, hinner⟩)
    · exact .ended hrest (List.forall_mem_cons.2 ⟨hd, h⟩)

theorem stands_cons_self {x : Event} :
    Stands n e outer (⟨n, x, waiting⟩ :: deliveries) rest ↔
      x = e ∧ waiting = rest ∧ deliveries = outer := by
  constructor
  · rintro (⟨inner, h, hinner⟩ | ⟨-, h⟩)
    · cases inner with
      | nil => simpa [and_assoc] using h
      | cons d inner =>
        obtain ⟨rfl, -⟩ := List.cons.inj h
        exact absurd rfl (hinner _ (List.mem_cons_self ..))
    · exact absurd rfl (h _ (List.mem_cons_self ..))
  · rintro ⟨rfl, rfl, rfl⟩
    exact .underway [] rfl (List.forall_mem_nil _)

/-- What holds from the publication of an event on. -/
structure Follows (t : Trace α) (n : Nat) (e : Event) (audience : List (Subscription α))
    (outer : List (Delivery α)) : Prop where
  begun : n < t.run.begun
  carries : ∀ c ∈ t.calls, c.number = n → c.event = e
  stands : ∃ rest, t.reached n ++ rest = audience ∧ Stands n e outer t.run.deliveries rest

theorem Below.follows (h : t.Below) (e : Event) :
    (t.begin e).Follows t.run.begun e (t.run.bus.on e.topic) t.run.deliveries := by
  have hne : ∀ c ∈ t.calls, c.number ≠ t.run.begun := fun c hc ↦ Nat.ne_of_lt (h.calls c hc)
  have hreached : (t.begin e).reached t.run.begun = [] := by
    simpa [reached, Trace.begin] using hne
  exact ⟨Nat.lt_succ_self _, fun c hc hn ↦ absurd hn (hne c hc),
    _, by rw [hreached, List.nil_append], stands_cons_self.2 ⟨rfl, rfl, rfl⟩⟩

theorem Follows.begin (h : t.Follows n e audience outer) (x : Event) :
    (t.begin x).Follows n e audience outer := by
  obtain ⟨rest, hreached, hstands⟩ := h.stands
  exact ⟨Nat.lt_succ_of_lt h.begun, h.carries,
    rest, hreached, (stands_cons_of_ne (Nat.ne_of_gt h.begun)).2 hstands⟩

theorem Follows.under {m : Nat} {x : Event} (h : t.Follows n e audience outer)
    (houter : ∀ d ∈ outer, d.number ≠ n) (hd : t.run.deliveries = ⟨m, x, []⟩ :: deliveries) :
    (t.under deliveries).Follows n e audience outer := by
  obtain ⟨rest, hreached, hstands⟩ := h.stands
  rw [hd] at hstands
  refine ⟨h.begun, h.carries, rest, hreached, ?_⟩
  by_cases hm : m = n
  · subst hm
    obtain ⟨-, hrest, rfl⟩ := stands_cons_self.1 hstands
    exact .ended hrest.symm houter
  · exact (stands_cons_of_ne hm).1 hstands

/-- If somebody is called for the event, it is the first one that waits. -/
theorem Follows.call {m : Nat} {x : Event} {s : Subscription α} (h : t.Follows n e audience outer)
    (hd : t.run.deliveries = ⟨m, x, s :: waiting⟩ :: deliveries) :
    ((t.under (⟨m, x, waiting⟩ :: deliveries)).call ⟨m, x, s⟩).Follows n e audience outer := by
  obtain ⟨rest, hreached, hstands⟩ := h.stands
  unfold reached at hreached
  rw [hd] at hstands
  by_cases hm : m = n
  · subst hm
    obtain ⟨rfl, rfl, rfl⟩ := stands_cons_self.1 hstands
    refine ⟨h.begun, ?_, waiting, ?_, stands_cons_self.2 ⟨rfl, rfl, rfl⟩⟩
    · exact List.forall_mem_append.2 ⟨h.carries, List.forall_mem_singleton.2 fun _ ↦ rfl⟩
    · simpa [reached, Trace.call, Trace.under] using hreached
  · have hrest := (stands_cons_of_ne hm).1 hstands
    refine ⟨h.begun, ?_, rest, ?_, (stands_cons_of_ne hm).2 hrest⟩
    · exact List.forall_mem_append.2
        ⟨h.carries, List.forall_mem_singleton.2 fun hn ↦ absurd hn hm⟩
    · simpa [reached, Trace.call, Trace.under, hm] using hreached

theorem Follows.goOn (h : t.Follows n e audience outer) (houter : ∀ d ∈ outer, d.number ≠ n) :
    t.goOn.Follows n e audience outer := by
  cases t.goesOn with
  | idle hd hgo => rwa [hgo]
  | ends hd hgo => exact hgo ▸ h.under houter hd
  | calls hd hgo => exact hgo ▸ h.call hd

theorem Follows.play (h : t.Follows n e audience outer) (houter : ∀ d ∈ outer, d.number ≠ n)
    (moves : List (Move α)) : (t.play moves).Follows n e audience outer := by
  apply play_induction (P := (·.Follows n e audience outer)) ?_ ?_ ?_ h
  · exact fun _ _ h ↦ ⟨h.begun, h.carries, h.stands⟩
  · exact fun _ x h ↦ h.begin x
  · exact fun _ h ↦ h.goOn houter

/-- If the event is not on its way, it has reached everybody. -/
theorem Follows.reached_of_ended (h : t.Follows n e audience outer)
    (hended : ∀ d ∈ t.run.deliveries, d.number ≠ n) : t.reached n = audience := by
  obtain ⟨rest, hreached, ⟨inner, hd, -⟩ | ⟨rfl, -⟩⟩ := h.stands
  · exact absurd rfl (hended ⟨n, e, rest⟩ (by simp [hd]))
  · rwa [List.append_nil] at hreached

/-! ## The end of an event -/

/-- How often a subscriber has to be done until these events are on their way no more. -/
def owed (deliveries : List (Delivery α)) : Nat := burden (·.waiting.length + 1) deliveries

theorem play_returned (t : Trace α) (outcome : Except Bytes Unit) (moves : List (Move α)) :
    t.play (.returned outcome :: moves) = t.goOn.play moves := by
  rw [play, List.foldl_cons, step_returned, play]

/-- When everybody who is called is done, with or without throwing, whoever published is back. -/
theorem deliveries_returned {inner : List (Delivery α)} {outcomes : List (Except Bytes Unit)}
    (h : t.run.deliveries = inner ++ outer) (hlength : outcomes.length = owed inner) :
    (t.play (outcomes.map .returned)).run.deliveries = outer := by
  induction outcomes generalizing t inner with
  | nil =>
    obtain rfl : inner = [] := (burden_eq_zero fun _ ↦ Nat.succ_pos _).1 hlength.symm
    exact h
  | cons outcome outcomes ih =>
    rw [List.map_cons, play_returned]
    cases inner with
    | nil => exact absurd hlength (Nat.succ_ne_zero _)
    | cons d inner =>
      obtain ⟨m, x, waiting⟩ := d
      simp only [owed, burden, List.length_cons] at hlength
      cases waiting with
      | nil =>
        have hd : t.goOn.run.deliveries = inner ++ outer := by
          rw [goOn_ends h]
          rfl
        apply ih hd
        simp only [owed, List.length_nil] at hlength ⊢
        omega
      | cons s waiting =>
        have hd : t.goOn.run.deliveries = (⟨m, x, waiting⟩ :: inner) ++ outer := by
          rw [goOn_calls h]
          rfl
        apply ih hd
        simp only [owed, burden, List.length_cons] at hlength ⊢
        omega

theorem bus_returned (t : Trace α) (outcomes : List (Except Bytes Unit)) :
    (t.play (outcomes.map .returned)).run.bus = t.run.bus := by
  rw [bus_play, List.foldl_map]
  exact List.foldl_fixed _

end Trace

/-- An event that is published at any moment, also while others are on their way, reaches those who
are then registered for its topic, each of them once and in the order of their numbers, whatever is
done meanwhile. When nobody has anything left to do for it, whoever published it goes on. -/
theorem exact_delivery (before : List (Move α)) (e : Event) (after : List (Move α)) :
    let t₀ := ({} : Trace α).play before
    let n := t₀.run.begun
    let audience := t₀.run.bus.on e.topic
    let t := (t₀.step (.publish e)).play after
    audience.Pairwise (·.id < ·.id) ∧
    (∀ s ∈ audience, s.id < t₀.run.bus.next) ∧
    t.run.bus = after.foldl deed t₀.run.bus ∧
    (∀ c ∈ t.calls, c.number = n → c.event = e) ∧
    ∃ rest, t.reached n ++ rest = audience ∧
      (rest = [] ∧ (∀ d ∈ t.run.deliveries, d.number ≠ n) ∨
        ∃ inner, t.run.deliveries = inner ++ ⟨n, e, rest⟩ :: t₀.run.deliveries ∧
          ∀ outcomes : List (Except Bytes Unit),
            outcomes.length = Trace.owed (inner ++ [⟨n, e, rest⟩]) →
              let u := t.play (outcomes.map .returned)
              u.run.deliveries = t₀.run.deliveries ∧ u.run.bus = t.run.bus ∧
                u.reached n = audience) := by
  intro t₀ n audience t
  have hnumbered : t₀.run.bus.Numbered := by
    rw [Trace.bus_play]
    exact numbered_empty.deeds before
  have hbelow : t₀.Below := Trace.below_empty.play before
  have houter : ∀ d ∈ t₀.run.deliveries, d.number ≠ n := fun d hd ↦
    Nat.ne_of_lt (hbelow.deliveries d hd)
  have hfollows : t.Follows n e audience t₀.run.deliveries :=
    ((hbelow.follows e).goOn houter).play houter after
  have hbus : t.run.bus = after.foldl deed t₀.run.bus := by
    rw [Trace.bus_play, Trace.bus_step, deed]
  refine ⟨hnumbered.on _, fun s hs ↦ hnumbered.below_on hs, hbus, hfollows.carries, ?_⟩
  obtain ⟨rest, hreached, ⟨inner, hd, -⟩ | ⟨hrest, hended⟩⟩ := hfollows.stands
  · refine ⟨rest, hreached, .inr ⟨inner, hd, fun outcomes hlength ↦ ?_⟩⟩
    rw [List.append_cons] at hd
    have hback := Trace.deliveries_returned hd hlength
    have hended : ∀ d ∈ (t.play (outcomes.map .returned)).run.deliveries, d.number ≠ n := by
      rwa [hback]
    exact ⟨hback, t.bus_returned outcomes, (hfollows.play houter _).reached_of_ended hended⟩
  · exact ⟨rest, hreached, .inl ⟨hrest, hended⟩⟩

example : (({} : Trace Nat).play [.subscribe .heartbeat 1, .publish (.heartbeat [] true 0),
    .subscribe .heartbeat 2, .returned (.error [])]).reached 0 = [⟨0, .heartbeat, 1⟩] := rfl

end ProgressFeed.Bus
