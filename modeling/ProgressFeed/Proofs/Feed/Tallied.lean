import ProgressFeed.Bus.Tally
import ProgressFeed.Proofs.Feed.Balance
import Mathlib.Data.List.Induction

/-!
# A tally matches the history

A tally is told of every event that is published while it is registered, once, and what it has
counted does not depend on the order. So when nothing is under way it agrees with the history of the
feed, and with the connection that there is.
-/

namespace ProgressFeed

/-- The kind of the fault that the event reports. -/
def Event.kind? : Event → Option Fault.Kind
  | .fault _ f => some f.kind
  | .snapshot _ | .state .. | .heartbeat .. => none

/-! ## Tallies -/

namespace Tally

variable {events more : List Event}

/-- How much of everything is among the events. -/
def ofEvents (events : List Event) : Tally where
  snapshots := events.countP (·.topic == .snapshot)
  heartbeats := events.countP (·.topic == .heartbeat)
  connects := Feed.connects (events.filterMap Event.change?)
  disconnects := Feed.disconnects (events.filterMap Event.change?)
  decodeFaults := events.countP (·.kind? == some .decode)
  serverFaults := events.countP (·.kind? == some .server)
  transportFaults := events.countP (·.kind? == some .transport)
  terminalFaults := events.countP (·.kind?.any Fault.Kind.isTerminal)

theorem ofEvents_concat (events : List Event) (e : Event) :
    ofEvents (events ++ [e]) = (ofEvents events).add e := by
  simp only [ofEvents, List.countP_append, List.filterMap_append, Feed.connects, Feed.disconnects]
  cases e with
  | snapshot | heartbeat => rfl
  | state source was now => cases was <;> cases now <;> rfl
  | fault source f =>
    obtain ⟨kind, message, closeCode⟩ := f
    cases kind <;> rfl

/-- Counting one after the other comes to the same. -/
theorem foldl_add (events : List Event) : events.foldl add {} = ofEvents events := by
  induction events using List.reverseRecOn with
  | nil => rfl
  | append_singleton events e ih => rw [List.foldl_concat, ih, ofEvents_concat]

theorem ofEvents_perm (h : events.Perm more) : ofEvents events = ofEvents more := by
  have hchanges := h.filterMap Event.change?
  simp only [ofEvents, Feed.connects, Feed.disconnects, h.countP_eq, hchanges.countP_eq]

/-- Every fault is of just one of the kinds that are counted. -/
theorem faults_ofEvents (events : List Event) :
    let t := ofEvents events
    t.decodeFaults + t.serverFaults + t.transportFaults + t.terminalFaults =
      events.countP (·.topic == .fault) := by
  simp only [ofEvents]
  induction events with
  | nil => rfl
  | cons e events ih =>
    simp only [List.countP_cons]
    cases e with
    | fault source f =>
      have hkind : (Event.fault source f).kind? = some f.kind := rfl
      have htopic : (Event.fault source f).topic = .fault := rfl
      cases hk : f.kind <;> simp [hkind, htopic, hk, Fault.Kind.isTerminal] <;> omega
    | snapshot | state | heartbeat => simpa [Event.kind?, Event.topic] using ih

end Tally

/-! ## Registrations -/

namespace Bus

variable {α : Type} [DecidableEq α] {bus : Bus α} {x : α}

/-- The subscriptions of a subscriber. -/
def of (bus : Bus α) (x : α) : List (Subscription α) :=
  bus.subscriptions.filter (·.subscriber = x)

theorem count_audience (e : Event) :
    (bus.audience e).count x = (bus.of x).countP (·.topic == e.topic) := by
  simp only [audience, on, of, List.count, List.countP_map, List.countP_filter]
  exact List.countP_congr fun s _ ↦ by simp [and_comm]

/-- A tally that is registered once is in the audience of every event once. -/
theorem count_audience_of_subscribeAll (h : bus.of x = []) (e : Event) :
    ((bus.subscribeAll x Tally.topics).2.audience e).count x = 1 := by
  have hof : (bus.subscribeAll x Tally.topics).2.of x =
      [⟨bus.next, .snapshot, x⟩, ⟨bus.next + 1, .heartbeat, x⟩, ⟨bus.next + 1 + 1, .state, x⟩,
        ⟨bus.next + 1 + 1 + 1, .fault, x⟩] := by
    have hnone : bus.subscriptions.filter (fun s ↦ decide (s.subscriber = x)) = [] := h
    simp [subscribeAll, Tally.topics, subscribe, of, hnone]
  rw [count_audience, hof]
  cases e <;> rfl

end Bus

namespace Feed

/-- The act leaves the subscriptions alone that the subscriber has on the bus. -/
def Act.spares {α : Type} [DecidableEq α] (x : α) (bus : Bus α) : Act α → Bool
  | .subscribe _ y => y != x
  | .unsubscribe topic id => !decide (⟨id, topic, x⟩ ∈ bus.subscriptions)
  | .clear => false
  | .tell | .move .. => true

/-- The events that have been published, first things first. -/
def Run.published (r : Run) : List Event := r.records.filterMap Record.event?

theorem Run.changes_eq (r : Run) : r.changes = r.published.filterMap Event.change? := by
  rw [changes, published, List.filterMap_filterMap, funext Record.change?_eq]

theorem Run.published_live {r : Run} {a : Answers} {m : Move} (h : r.allows m = true) :
    (r.live a m).published = r.published ++ (r.awake.published? a m).toList := by
  rw [live_of_allows h]
  have hrecords : (r.awake.step a m).records = r.records ++ r.awake.news a m :=
    records_step r.awake a m
  have hnews : (r.awake.news a m).filterMap Record.event? = (r.awake.published? a m).toList := by
    rcases step_cases (r := r.awake) rfl a m with ⟨q, cause, s, hm⟩ | hm
    · rw [hm.events rfl, hm.published? rfl]
    · rw [hm.events, hm.published?]
      rfl
  simp only [published, hrecords, List.filterMap_append, hnews]

namespace Broadcast

variable {α : Type} [DecidableEq α] {b b₀ : Broadcast α} {x : α} {y : Act α} {a : Answers}
  {m : Move} {c : Settings}

/-- The events that the subscriber has been told of, first things first. -/
def told (b : Broadcast α) (x : α) : List Event :=
  (b.callbacks.filter (·.subscriber = x)).map (·.emission.event)

/-- The events that the subscriber waits to be told of. -/
def awaited (b : Broadcast α) (x : α) : List Event :=
  b.deliveries.flatMap fun d ↦ List.replicate (d.waiting.count x) d.emission.event

/-- The events that the subscriber has been or is to be told of. -/
def heard (b : Broadcast α) (x : α) : List Event := b.told x ++ b.awaited x

/-- What a tally has counted that is registered as this subscriber. -/
def tally (b : Broadcast α) (x : α) : Tally := (b.told x).foldl Tally.add {}

/-- A tally registers. -/
def attach (b : Broadcast α) (x : α) : Broadcast α :=
  { b with bus := (b.bus.subscribeAll x Tally.topics).2 }

/-! ## Everything is told once -/

theorem heard_tell (b : Broadcast α) (x : α) : b.tell.heard x = b.heard x := by
  cases hd : b.deliveries with
  | nil => simp [heard, tell, told, awaited, next?, hd]
  | cons d deliveries =>
    cases hw : d.waiting with
    | nil => simp [heard, tell, told, awaited, next?, hd, hw]
    | cons z waiting =>
      by_cases hz : z = x
      · simp [heard, tell, told, awaited, next?, hd, hw, hz, List.replicate_succ]
      · simp [heard, tell, told, awaited, next?, hd, hw, hz]

/-- A delivery that is over leaves nobody waiting. -/
theorem awaited_go (h : b.allows m = true) (a : Answers) (x : α) :
    (b.go a m).awaited x = b.awaited x := by
  by_cases hret : m = .returned
  · subst hret
    cases hd : b.deliveries with
    | nil => simp [go, under, awaited, hd]
    | cons d deliveries =>
      have hempty : d.waiting = [] := by simpa [allows, hd] using (Bool.and_eq_true_iff.1 h).2
      simp [go, under, awaited, hd, hempty]
  · rw [awaited, go, under_eq, Move.leaves_of_ne hret]
    rfl

theorem of_act (hy : y.spares x b₀.bus = true) (h : b.bus.of x = b₀.bus.of x) :
    (b.act y).bus.of x = b₀.bus.of x := by
  rw [← h]
  cases y with
  | subscribe topic z =>
    have hz : z ≠ x := by simpa [Act.spares] using hy
    simp [act, Bus.subscribe, Bus.of, hz]
  | unsubscribe topic id =>
    have hid : ⟨id, topic, x⟩ ∉ b₀.bus.subscriptions := by simpa [Act.spares] using hy
    simp only [act, Bus.unsubscribe, Bus.of, List.filter_filter]
    refine List.filter_congr fun s hs ↦ ?_
    by_cases hx : s.subscriber = x
    · have hmem : s ∈ b₀.bus.of x := h ▸ List.mem_filter.2 ⟨hs, by simpa using hx⟩
      have hne : s.topic = topic → s.id ≠ id := by
        rintro rfl rfl
        exact hid (hx ▸ (List.mem_filter.1 hmem).1)
      simpa [hx, ← imp_iff_not_or] using hne
    · simp [hx]
  | clear => cases hy
  | tell => rfl
  | move a m => rw [act, bus_move]

/-- An act publishes an event or none, and who is registered for it hears of it as often as that. -/
theorem heard_act (b : Broadcast α) (y : Act α) (x : α) : ∃ e : Option Event,
    (b.act y).run.published = b.run.published ++ e.toList ∧
      ((b.act y).heard x).Perm
        (e.toList.flatMap (fun e ↦ List.replicate ((b.bus.audience e).count x) e) ++
          b.heard x) := by
  cases y with
  | subscribe | unsubscribe | clear => exact ⟨none, (List.append_nil _).symm, .refl _⟩
  | tell => exact ⟨none, (List.append_nil _).symm, .of_eq (heard_tell b x)⟩
  | move a m =>
    by_cases hallows : b.allows m = true
    swap
    · have hact : b.act (.move a m) = b := if_neg hallows
      exact ⟨none, by simp [hact], by simp [hact]⟩
    have hrun := Run.published_live (a := a) (Bool.and_eq_true_iff.1 hallows).1
    have hgo : (b.go a m).heard x = b.heard x :=
      congrArg (b.told x ++ ·) (awaited_go hallows a x)
    refine ⟨b.run.awake.published? a m, ?_, ?_⟩
    · exact (congrArg Run.published (run_move hallows)).trans hrun
    cases hp : b.run.awake.published? a m with
    | none =>
      have hact : b.act (.move a m) = b.go a m := by simp [act, move, hallows, hp]
      rw [hact, hgo]
      exact .refl _
    | some e =>
      have hact : b.act (.move a m) = (b.go a m).publish m.origin e := by
        simp [act, move, hallows, hp]
      have hawaited : (b.act (.move a m)).heard x = b.told x ++
          (List.replicate ((b.bus.audience e).count x) e ++ (b.go a m).awaited x) := by
        rw [hact]
        rfl
      rw [hawaited, ← hgo, Option.toList_some, List.flatMap_singleton]
      exact List.perm_append_comm_assoc ..

/-- Nobody has ever told the subscriber of anything, or is to. -/
structure IsUnknown (b : Broadcast α) (x : α) : Prop where
  registered : b.bus.of x = []
  heard : b.heard x = []

theorem isUnknown_start (c : Settings) (polls : Bool) (now : Int) (x : α) :
    (start c polls now : Broadcast α).IsUnknown x := ⟨rfl, rfl⟩

theorem IsUnknown.act (h : b.IsUnknown x) (hy : ∀ topic, y ≠ .subscribe topic x) :
    (b.act y).IsUnknown x := by
  constructor
  · have hnone : b.bus.subscriptions.filter (fun s ↦ decide (s.subscriber = x)) = [] := h.registered
    cases y with
    | subscribe topic z =>
      have hz : z ≠ x := fun hz ↦ hy topic (congrArg (Act.subscribe topic) hz)
      simp [Broadcast.act, Bus.subscribe, Bus.of, hz, hnone]
    | unsubscribe topic id =>
      rw [Broadcast.act, Bus.unsubscribe, Bus.of, List.filter_comm, hnone]
      rfl
    | clear => rfl
    | tell => exact h.registered
    | move a m =>
      rw [Broadcast.act, bus_move]
      exact h.registered
  · obtain ⟨e, -, hperm⟩ := heard_act b y x
    have hcount : ∀ e, (b.bus.audience e).count x = 0 := by simp [Bus.count_audience, h.registered]
    refine List.Perm.eq_nil (hperm.trans ?_)
    simp [hcount, h.heard]

theorem IsUnknown.play (h : b.IsUnknown x) {acts : List (Act α)}
    (hacts : ∀ topic, .subscribe topic x ∉ acts) : (b.play acts).IsUnknown x := by
  induction acts generalizing b with
  | nil => exact h
  | cons y acts ih =>
    refine ih (h.act fun topic hy ↦ hacts topic (hy ▸ List.mem_cons_self ..)) fun topic hmem ↦ ?_
    exact hacts topic (List.mem_cons_of_mem _ hmem)

/-- Since `b₀` the subscriber has been told, or waits to be told, of every event that has been
published, and of each once. -/
structure Hears (b₀ b : Broadcast α) (x : α) : Prop where
  registered : b.bus.of x = b₀.bus.of x
  events : ∃ since, b.run.published = b₀.run.published ++ since ∧ (b.heard x).Perm since

theorem Hears.act (h : b₀.Hears b x) (hb₀ : ∀ e, (b₀.bus.audience e).count x = 1)
    (hy : y.spares x b₀.bus = true) : b₀.Hears (b.act y) x := by
  refine ⟨of_act hy h.registered, ?_⟩
  obtain ⟨since, hsince, hperm⟩ := h.events
  obtain ⟨e, hpublished, hheard⟩ := heard_act b y x
  have hcount : ∀ e, (b.bus.audience e).count x = 1 := by
    intro e
    rw [Bus.count_audience, h.registered, ← Bus.count_audience]
    exact hb₀ e
  have honce : (e.toList.flatMap fun e ↦ List.replicate ((b.bus.audience e).count x) e) =
      e.toList := by
    simp [hcount]
  refine ⟨since ++ e.toList, by rw [hpublished, hsince, List.append_assoc], ?_⟩
  rw [honce] at hheard
  exact hheard.trans ((hperm.append_left _).trans List.perm_append_comm)

theorem Hears.play (h : b₀.Hears b x) (hb₀ : ∀ e, (b₀.bus.audience e).count x = 1)
    {acts : List (Act α)} (hacts : ∀ y ∈ acts, y.spares x b₀.bus = true) :
    b₀.Hears (b.play acts) x := by
  induction acts generalizing b with
  | nil => exact h
  | cons y acts ih =>
    exact ih (h.act hb₀ (hacts y (List.mem_cons_self ..))) fun z hz ↦
      hacts z (List.mem_cons_of_mem _ hz)

theorem hears_attach (h : b.IsUnknown x) : (b.attach x).Hears (b.attach x) x := by
  have hheard : (b.attach x).heard x = [] := h.heard
  exact ⟨rfl, [], (List.append_nil _).symm, hheard ▸ .refl _⟩

/-! ## Runs -/

/-- When nothing is under way, nobody waits. -/
theorem awaited_of_rest (h : b.Paired) (hrest : b.run.stack = []) (x : α) : b.awaited x = [] := by
  have hevents : b.events = [] := List.length_eq_zero_iff.1 (by rw [h.length_eq, hrest]; rfl)
  have hdeliveries : b.deliveries = [] := List.map_eq_nil_iff.1 hevents
  simp [awaited, hdeliveries]

end Broadcast

open Broadcast

/-- Let a tally register while there is no connection, as it does when nobody has connected yet, and
let nobody end its subscriptions. Whatever other subscribers call from inside of deliveries, and
whatever comes in meanwhile: whenever nothing is under way, the tally has counted of the snapshots,
the signs of life and each kind of fault as many as have been published since it registered, every
fault just once; and as many connections that begin as end, but for the one that there is and for
those that have been cut off. A connection is cut off by a fresh start or a retirement that drops
the link although somebody has connected since the end was announced. So none is, and beginnings and
ends balance, unless a channel opens while a fresh start or a retirement is under way. -/
theorem tally_matches_history {α : Type} [DecidableEq α] (c : Settings) (polls : Bool) (now : Int)
    (setup acts : List (Act α)) (x : α) :
    let b₀ : Broadcast α := (Broadcast.start c polls now).play setup
    let b := (b₀.attach x).play acts
    let tally := b.tally x
    let published := b.run.published.drop b₀.run.published.length
    (∀ topic, .subscribe topic x ∉ setup) → b₀.run.feed.connection ≠ .connected →
    (∀ y ∈ acts, y.spares x (b₀.attach x).bus = true) → b.run.stack = [] →
      tally.connects = tally.disconnects + (if b.run.feed.connection = .connected then 1 else 0) +
        (b₀.attach x).losses acts ∧
      ((b₀.attach x).opensApart acts = true → (b₀.attach x).losses acts = 0) ∧
      tally.snapshots = published.countP (·.topic == .snapshot) ∧
      tally.heartbeats = published.countP (·.topic == .heartbeat) ∧
      tally.decodeFaults = published.countP (·.kind? == some .decode) ∧
      tally.serverFaults = published.countP (·.kind? == some .server) ∧
      tally.transportFaults = published.countP (·.kind? == some .transport) ∧
      tally.terminalFaults = published.countP (·.kind?.any Fault.Kind.isTerminal) ∧
      tally.decodeFaults + tally.serverFaults + tally.transportFaults + tally.terminalFaults =
        published.countP (·.topic == .fault) := by
  intro b₀ b tally published hsetup hoff hspares hrest
  have hu : b₀.run.Upheld c := upheld_play (Run.upheld_start c polls now) setup
  have hl : b₀.run.Lasting := lasting_play (Run.lasting_start c polls now) setup
  have hunknown : b₀.IsUnknown x := (isUnknown_start c polls now x).play hsetup
  have hpaired : (b₀.attach x).Paired := (paired_start c polls now).play setup
  obtain ⟨since, hsince, hperm⟩ := ((hears_attach hunknown).play
    (Bus.count_audience_of_subscribeAll hunknown.registered) hspares).events
  -- Everything that has been published since has been told.
  have htally : tally = .ofEvents since := by
    rw [heard, awaited_of_rest (hpaired.play acts) hrest, List.append_nil] at hperm
    exact (Tally.foldl_add _).trans (Tally.ofEvents_perm hperm)
  have hpublished : published = since := by
    have hdrop : published = (b₀.run.published ++ since).drop b₀.run.published.length :=
      congrArg (List.drop _) hsince
    rw [hdrop, List.drop_left]
  have hbalance : tally.connects = tally.disconnects +
      (if b.run.feed.connection = .connected then 1 else 0) + (b₀.attach x).losses acts := by
    obtain ⟨changes, hchanges, hcount⟩ : b₀.run.Balanced (0 + (b₀.attach x).losses acts) b.run :=
      balanced_play (b := b₀.attach x) (Run.balanced_self hoff) hu hl acts
    have hsame : changes = since.filterMap Event.change? := by
      have hall : b.run.changes = b₀.run.changes ++ since.filterMap Event.change? := by
        rw [Run.changes_eq, Run.changes_eq, ← List.filterMap_append]
        exact congrArg (List.filterMap Event.change?) hsince
      exact List.append_cancel_left (hchanges.symm.trans hall)
    rw [hsame, Nat.zero_add] at hcount
    rw [htally]
    exact hcount
  have hapart : (b₀.attach x).opensApart acts = true → (b₀.attach x).losses acts = 0 :=
    losses_eq_zero (b := b₀.attach x) (fun hc ↦ absurd hc hoff) hu hl
  rw [hpublished]
  refine ⟨hbalance, hapart, ?_⟩
  rw [htally]
  exact ⟨rfl, rfl, rfl, rfl, rfl, rfl, Tally.faults_ofEvents since⟩

/-- Another subscriber is there before the tally. -/
def accompanied : Broadcast Nat :=
  ((start { source := utf8 "job" } false 0).play [.subscribe .state 1]).attach 0

def obliging : Answers := ⟨some (utf8 "token"), some true, true⟩

/-- The move publishes an event that both are told of, and that leaves nothing to do. -/
def heardByBoth (m : Move) : List (Act Nat) :=
  [.move obliging m, .tell, .tell, .move obliging .returned]

/-- The connection is to be replaced by a fresh one. The other subscriber hears that it is over
before the tally does, and does something meanwhile. -/
def replacingActs (meanwhile : List (Act Nat)) : List (Act Nat) :=
  [.move obliging .reconnect, .tell] ++ meanwhile ++
    [.tell, .move obliging .returned, .tell, .tell, .move obliging .returned]

/-- The first connection reports a failure and is then to be replaced. The other subscriber connects
meanwhile, so that the fresh start overtakes what it has begun. -/
def overtakenActs : List (Act Nat) :=
  heardByBoth .connect ++ heardByBoth (.notice 0 .opened) ++
    heardByBoth (.notice 0 (.failed (utf8 "late"))) ++ replacingActs (heardByBoth .connect) ++
    heardByBoth (.notice 2 .opened)

def overtaken : Broadcast Nat := accompanied.play overtakenActs

theorem tally_matches_history_replacing :
    overtaken.run.stack = [] ∧ overtaken.run.feed.connection = .connected ∧
      overtaken.tally 0 = { connects := 2, disconnects := 1, transportFaults := 1 } ∧
      (overtaken.tally 0).connects = (overtaken.tally 0).disconnects +
        (if overtaken.run.feed.connection = .connected then 1 else 0) := by
  have hrest : overtaken.run.stack = [] := by decide +kernel
  have hspares : ∀ y ∈ overtakenActs, y.spares 0 accompanied.bus = true := by decide +kernel
  have hapart : accompanied.opensApart overtakenActs = true := by decide +kernel
  obtain ⟨hbalance, hlosses, -⟩ := tally_matches_history { source := utf8 "job" } false 0
    [.subscribe .state 1] overtakenActs 0 (by simp) (by decide +kernel) hspares hrest
  refine ⟨hrest, by decide +kernel, by decide +kernel, hbalance.trans ?_⟩
  exact congrArg _ (hlosses hapart)

/-- While the connection is being replaced, the other subscriber connects, and the channel opens. -/
def cuttingActs : List (Act Nat) :=
  heardByBoth .connect ++ heardByBoth (.notice 0 .opened) ++
    replacingActs (heardByBoth .connect ++ heardByBoth (.notice 1 .opened))

def cutting : Broadcast Nat := accompanied.play cuttingActs

/-- The fresh start cuts off the connection that has been made meanwhile, and its end is never
announced: the tally has counted two connections that begin and one that ends, and there is none. -/
theorem tally_misses_loss :
    (∀ y ∈ cuttingActs, y.spares 0 accompanied.bus = true) ∧ cutting.run.stack = [] ∧
      cutting.run.feed.connection = .connecting ∧
      cutting.tally 0 = { connects := 2, disconnects := 1 } ∧
      cutting.run.changes = [(.disconnected, .connecting), (.connecting, .connected),
        (.connected, .disconnected), (.disconnected, .connecting), (.connecting, .connected),
        (.disconnected, .connecting)] ∧
      (cutting.tally 0).connects ≠ (cutting.tally 0).disconnects +
        (if cutting.run.feed.connection = .connected then 1 else 0) := by
  decide +kernel

end Feed

end ProgressFeed
