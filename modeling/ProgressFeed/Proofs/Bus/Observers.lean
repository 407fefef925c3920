import ProgressFeed.Bus.Tally
import ProgressFeed.Proofs.Bus.Register

/-!
# Journals and tallies on a bus

They come and go among subscribers that do as they please. Each of them remembers the numbers that
it was given, and ends the subscriptions of these numbers when it goes. They may be gone by then,
as everything may have been cleared, but no other subscription has taken the number of any of them.
-/

namespace ProgressFeed.Bus

variable {α : Type} {b : Bus α}

/-! ## Several subscriptions at once -/

theorem subscribeAll_eq (b : Bus α) (subscriber : α) (topics : List Topic) :
    b.subscribeAll subscriber topics = (List.range' b.next topics.length,
      { next := b.next + topics.length
        subscriptions := b.subscriptions ++ (topics.zip (List.range' b.next topics.length)).map
          fun x ↦ ⟨x.2, x.1, subscriber⟩ }) := by
  induction topics generalizing b with
  | nil => simp [subscribeAll]
  | cons t topics ih =>
    simp only [subscribeAll, subscribe, ih, List.length_cons, List.range'_succ, List.zip_cons_cons,
      List.map_cons, List.append_assoc, List.singleton_append, Nat.add_assoc, Nat.add_comm 1]

theorem mem_ids_subscribeAll {subscriber : α} {topics : List Topic} {id : Nat} :
    id ∈ (b.subscribeAll subscriber topics).1 ↔
      b.next ≤ id ∧ id < (b.subscribeAll subscriber topics).2.next := by
  rw [subscribeAll_eq, List.mem_range'_1]

theorem mem_subscribeAll {subscriber : α} {topics : List Topic} {s : Subscription α}
    (hs : s ∈ (b.subscribeAll subscriber topics).2.subscriptions) :
    s ∈ b.subscriptions ∨ (s.topic, s.id) ∈ topics.zip (b.subscribeAll subscriber topics).1 := by
  rw [subscribeAll_eq] at hs ⊢
  refine (List.mem_append.1 hs).imp_right fun hs ↦ ?_
  obtain ⟨x, hx, rfl⟩ := List.mem_map.1 hs
  exact hx

theorem next_subscribeAll (b : Bus α) (subscriber : α) (topics : List Topic) :
    (b.subscribeAll subscriber topics).2.next = b.next + topics.length := by
  rw [subscribeAll_eq]

theorem Numbered.subscribeAll (h : b.Numbered) (subscriber : α) (topics : List Topic) :
    (b.subscribeAll subscriber topics).2.Numbered := by
  induction topics generalizing b with
  | nil => exact h
  | cons t topics ih => exact ih (h.deed (.subscribe t subscriber))

theorem unsubscribeAll_eq (b : Bus α) (entries : List (Topic × Nat)) :
    b.unsubscribeAll entries =
      { b with subscriptions := b.subscriptions.filter fun s ↦ (s.topic, s.id) ∉ entries } := by
  induction entries generalizing b with
  | nil => simp [unsubscribeAll]
  | cons x entries ih =>
    rw [unsubscribeAll, List.foldl_cons, ← unsubscribeAll, ih, unsubscribe, List.filter_filter]
    congr 2
    funext s
    by_cases ht : s.topic = x.1 <;> by_cases hid : s.id = x.2 <;> simp [Prod.ext_iff, ht, hid]

/-! ## Coming and going -/

/-- What writes down or counts the events of a bus. -/
inductive Observer
  | journal
  | tally
deriving DecidableEq, Repr

def Observer.topics : Observer → List Topic
  | journal => Journal.topics
  | tally => Tally.topics

/-- An observer with the numbers that it was given. -/
structure Seat where
  observer : Observer
  ids : List Nat
deriving DecidableEq, Repr

namespace Seat

/-- Its subscriptions, by topic and number. -/
def entries (x : Seat) : List (Topic × Nat) := x.observer.topics.zip x.ids

def Owns (x : Seat) (s : Subscription α) : Prop := s.id ∈ x.ids

instance (x : Seat) (s : Subscription α) : Decidable (x.Owns s) :=
  inferInstanceAs (Decidable (_ ∈ _))

end Seat

/-- A bus at work, with the observers that there are. -/
structure Company (α : Type) where
  trace : Trace α := {}
  seats : List Seat := []

inductive Change (α : Type)
  | comes (observer : Observer) (subscriber : α)
  | goes (x : Seat)
deriving Repr

namespace Company

variable {c c₀ : Company α} {x : Seat}

def bus (c : Company α) : Bus α := c.trace.run.bus

def change (c : Company α) : Change α → Company α
  | .comes observer subscriber =>
    let (ids, bus) := c.bus.subscribeAll subscriber observer.topics
    { trace := c.trace.alter bus, seats := c.seats ++ [⟨observer, ids⟩] }
  | .goes x =>
    if x ∈ c.seats then
      { trace := c.trace.alter (c.bus.unsubscribeAll x.entries), seats := c.seats.erase x }
    else c

/-- Somebody makes a move, or an observer comes or goes. -/
def step (c : Company α) : Move α ⊕ Change α → Company α
  | .inl m => { c with trace := c.trace.step m }
  | .inr x => c.change x

/-- Every observer that there is has numbers of its own, under which only its topics stand. -/
structure Seated (c : Company α) : Prop where
  numbered : c.bus.Numbered
  below : ∀ x ∈ c.seats, ∀ id ∈ x.ids, id < c.bus.next
  given : ∀ x ∈ c.seats, x.ids ≠ []
  apart : c.seats.Pairwise fun x y ↦ x.ids.Disjoint y.ids
  entries : ∀ x ∈ c.seats, ∀ s ∈ c.bus.subscriptions, x.Owns s → (s.topic, s.id) ∈ x.entries

theorem seated_empty : ({} : Company α).Seated :=
  ⟨numbered_empty, List.forall_mem_nil _, List.forall_mem_nil _, .nil, List.forall_mem_nil _⟩

theorem Seated.nodup (h : c.Seated) : c.seats.Nodup := by
  refine h.apart.imp_of_mem fun {x y} hx _ hxy he ↦ ?_
  obtain ⟨id, hid⟩ := List.exists_mem_of_ne_nil _ (h.given x hx)
  exact hxy hid (he ▸ hid)

theorem Seated.of_later {c' : Company α} (h : c.Seated) (hnumbered : c'.bus.Numbered)
    (hseats : c'.seats.Sublist c.seats) (hnext : c.bus.next ≤ c'.bus.next)
    (hsubs : ∀ s ∈ c'.bus.subscriptions, s ∈ c.bus.subscriptions ∨ c.bus.next ≤ s.id) :
    c'.Seated where
  numbered := hnumbered
  below x hx id hid := (h.below x (hseats.subset hx) id hid).trans_le hnext
  given x hx := h.given x (hseats.subset hx)
  apart := h.apart.sublist hseats
  entries x hx s hs howns := by
    have hx := hseats.subset hx
    rcases hsubs s hs with hs | hid
    · exact h.entries x hx s hs howns
    · exact absurd (h.below x hx s.id howns) (Nat.not_lt.2 hid)

theorem Seated.move (h : c.Seated) (m : Move α) : (c.step (.inl m)).Seated := by
  have hbus : (c.step (.inl m)).bus = c.bus.deed m := Trace.bus_step c.trace m
  refine h.of_later (hbus ▸ h.numbered.deed m) (List.Sublist.refl _) ?_ ?_ <;> rw [hbus]
  · exact next_deed c.bus m ▸ Nat.le_add_right ..
  · exact fun s ↦ mem_deed

/-- The numbers that an observer is given when it comes. -/
def idsFor (c : Company α) (observer : Observer) (subscriber : α) : List Nat :=
  (c.bus.subscribeAll subscriber observer.topics).1

theorem bus_comes (c : Company α) (observer : Observer) (subscriber : α) :
    (c.change (.comes observer subscriber)).bus =
      (c.bus.subscribeAll subscriber observer.topics).2 := rfl

theorem seats_comes (c : Company α) (observer : Observer) (subscriber : α) :
    (c.change (.comes observer subscriber)).seats =
      c.seats ++ [⟨observer, c.idsFor observer subscriber⟩] := rfl

theorem next_le_comes (c : Company α) (observer : Observer) (subscriber : α) :
    c.bus.next ≤ (c.change (.comes observer subscriber)).bus.next := by
  rw [bus_comes, next_subscribeAll]
  exact Nat.le_add_right ..

theorem mem_comes {observer : Observer} {subscriber : α} {s : Subscription α}
    (hs : s ∈ (c.change (.comes observer subscriber)).bus.subscriptions) :
    s ∈ c.bus.subscriptions ∨
      (s.topic, s.id) ∈ observer.topics.zip (c.idsFor observer subscriber) :=
  mem_subscribeAll hs

theorem le_of_mem_idsFor {observer : Observer} {subscriber : α} {id : Nat}
    (hid : id ∈ c.idsFor observer subscriber) : c.bus.next ≤ id := (mem_ids_subscribeAll.1 hid).1

theorem Seated.comes (h : c.Seated) (observer : Observer) (subscriber : α) :
    (c.change (.comes observer subscriber)).Seated := by
  set c' := c.change (.comes observer subscriber)
  have hold : ({ c' with seats := c.seats } : Company α).Seated := by
    refine h.of_later (h.numbered.subscribeAll ..) (List.Sublist.refl _)
      (next_le_comes c observer subscriber) fun s hs ↦ ?_
    exact (mem_comes hs).imp_right fun hs ↦ le_of_mem_idsFor (List.of_mem_zip hs).2
  have hids : c.idsFor observer subscriber ≠ [] := by
    rw [idsFor, subscribeAll_eq]
    cases observer <;> exact List.cons_ne_nil _ _
  have hseats : c'.seats = c.seats ++ [⟨observer, c.idsFor observer subscriber⟩] := rfl
  refine ⟨hold.numbered, ?_, ?_, ?_, ?_⟩ <;> rw [hseats]
  · exact List.forall_mem_append.2 ⟨hold.below, List.forall_mem_singleton.2 fun id hid ↦
      (mem_ids_subscribeAll.1 hid).2⟩
  · exact List.forall_mem_append.2 ⟨h.given, List.forall_mem_singleton.2 hids⟩
  · refine List.pairwise_append.2 ⟨h.apart, List.pairwise_singleton _ _, fun x hx y hy id hid ↦ ?_⟩
    rw [List.mem_singleton.1 hy]
    exact fun hid' ↦ Nat.not_lt.2 (le_of_mem_idsFor hid') (h.below x hx id hid)
  · refine List.forall_mem_append.2
      ⟨hold.entries, List.forall_mem_singleton.2 fun s hs howns ↦ ?_⟩
    rcases mem_comes hs with hs | hentry
    · exact absurd (h.numbered.below s hs) (Nat.not_lt.2 (le_of_mem_idsFor howns))
    · exact hentry

theorem change_goes_of_not_mem (hx : x ∉ c.seats) : c.change (.goes x) = c := by
  rw [change, if_neg hx]

theorem seats_goes (hx : x ∈ c.seats) : (c.change (.goes x)).seats = c.seats.erase x := by
  rw [change, if_pos hx]

/-- An observer that goes takes its own subscriptions with it. -/
theorem Seated.bus_goes (h : c.Seated) (hx : x ∈ c.seats) :
    (c.change (.goes x)).bus =
      { c.bus with subscriptions := c.bus.subscriptions.filter (¬ x.Owns ·) } := by
  have hgoes : (c.change (.goes x)).bus = c.bus.unsubscribeAll x.entries := by
    rw [change, if_pos hx]
    rfl
  rw [hgoes, unsubscribeAll_eq]
  congr 1
  refine List.filter_congr fun s hs ↦ decide_eq_decide.2 (not_congr ⟨fun hentry ↦ ?_, ?_⟩)
  · exact (List.of_mem_zip hentry).2
  · exact h.entries x hx s hs

theorem Seated.goes (h : c.Seated) (x : Seat) : (c.change (.goes x)).Seated := by
  by_cases hx : x ∈ c.seats
  · have hbus := h.bus_goes hx
    have hsub : ∀ s ∈ (c.change (.goes x)).bus.subscriptions, s ∈ c.bus.subscriptions := by
      rw [hbus]
      exact fun s hs ↦ (List.mem_filter.1 hs).1
    refine h.of_later ?_ ?_ (by rw [hbus]) fun s hs ↦ .inl (hsub s hs)
    · rw [hbus]
      exact ⟨fun s hs ↦ h.numbered.below s (List.mem_filter.1 hs).1, h.numbered.ascending.filter _⟩
    · exact seats_goes hx ▸ List.erase_sublist
  · rwa [change_goes_of_not_mem hx]

theorem Seated.change (h : c.Seated) : ∀ x : Change α, (c.change x).Seated
  | .comes observer subscriber => h.comes observer subscriber
  | .goes x => h.goes x

theorem Seated.live (h : c.Seated) (xs : List (Move α ⊕ Change α)) :
    (xs.foldl step c).Seated := by
  induction xs generalizing c with
  | nil => exact h
  | cons x xs ih =>
    cases x with
    | inl m => exact ih (h.move m)
    | inr x => exact ih (h.change x)

/-! ## What observers leave alone -/

/-- All that was there and belongs to no observer that is gone is still there, and all that has been
added belongs to an observer. -/
structure Spares (c₀ c : Company α) : Prop where
  next : c₀.bus.next ≤ c.bus.next
  seats : ∀ x ∈ c.seats, x ∈ c₀.seats ∨ ∀ id ∈ x.ids, c₀.bus.next ≤ id
  kept : c.bus.subscriptions.filter (·.id < c₀.bus.next) =
    c₀.bus.subscriptions.filter fun s ↦ ∀ x ∈ c₀.seats, x.Owns s → x ∈ c.seats
  added : ∀ s ∈ c.bus.subscriptions, c₀.bus.next ≤ s.id → ∃ x ∈ c.seats, x.Owns s

theorem Seated.spares (h : c.Seated) : c.Spares c where
  next := Nat.le_refl _
  seats _ := .inl
  kept := by
    rw [List.filter_eq_self.2 fun s hs ↦ decide_eq_true (h.numbered.below s hs),
      List.filter_eq_self.2 fun s _ ↦ decide_eq_true fun x hx _ ↦ hx]
  added s hs hle := absurd (h.numbered.below s hs) (Nat.not_lt.2 hle)

theorem Spares.comes (h₀ : c₀.Seated) (h : c₀.Spares c) (observer : Observer) (subscriber : α) :
    c₀.Spares (c.change (.comes observer subscriber)) := by
  have hnew (id : Nat) (hid : id ∈ c.idsFor observer subscriber) : c₀.bus.next ≤ id :=
    h.next.trans (le_of_mem_idsFor hid)
  have hmem (x : Seat) (hx : x ∈ c₀.seats) :
      x ∈ c.seats ++ [⟨observer, c.idsFor observer subscriber⟩] ↔ x ∈ c.seats := by
    have hne : x ≠ ⟨observer, c.idsFor observer subscriber⟩ := by
      rintro rfl
      obtain ⟨id, hid⟩ := List.exists_mem_of_ne_nil _ (h₀.given _ hx)
      exact absurd (h₀.below _ hx id hid) (Nat.not_lt.2 (hnew id hid))
    simp [hne]
  refine ⟨h.next.trans (next_le_comes c observer subscriber), ?_, ?_, fun s hs hle ↦ ?_⟩ <;>
    rw [seats_comes]
  · exact List.forall_mem_append.2 ⟨h.seats, List.forall_mem_singleton.2 (.inr hnew)⟩
  · have hfresh : ((observer.topics.zip (c.idsFor observer subscriber)).map fun p ↦
        (⟨p.2, p.1, subscriber⟩ : Subscription α)).filter (·.id < c₀.bus.next) = [] := by
      refine List.filter_eq_nil_iff.2 (List.forall_mem_map.2 fun p hp ↦ ?_)
      simpa using hnew p.2 (List.of_mem_zip hp).2
    have hsubs : (c.change (.comes observer subscriber)).bus.subscriptions = c.bus.subscriptions ++
        (observer.topics.zip (c.idsFor observer subscriber)).map
          fun p ↦ ⟨p.2, p.1, subscriber⟩ := by
      rw [bus_comes, idsFor, subscribeAll_eq]
    rw [hsubs, List.filter_append, h.kept, hfresh, List.append_nil]
    refine List.filter_congr fun s _ ↦ ?_
    simp only [decide_eq_decide]
    exact forall₂_congr fun x hx ↦ imp_congr_right fun _ ↦ (hmem x hx).symm
  · rcases mem_comes hs with hs | hentry
    · obtain ⟨x, hx, howns⟩ := h.added s hs hle
      exact ⟨x, List.mem_append_left _ hx, howns⟩
    · exact ⟨_, List.mem_append_right _ (List.mem_singleton_self _), (List.of_mem_zip hentry).2⟩

/-- What was there goes with an observer just if it is one of its subscriptions. -/
theorem Spares.kept_iff (h₀ : c₀.Seated) (hc : c.Seated) (h : c₀.Spares c) (hx : x ∈ c.seats)
    {s : Subscription α} (hs : s ∈ c₀.bus.subscriptions) :
    (¬ x.Owns s ∧ ∀ y ∈ c₀.seats, y.Owns s → y ∈ c.seats) ↔
      ∀ y ∈ c₀.seats, y.Owns s → y ∈ c.seats.erase x := by
  constructor
  · rintro ⟨hnot, hall⟩ y hy howns
    have hne : y ≠ x := fun he ↦ hnot (he ▸ howns)
    exact (List.mem_erase_of_ne hne).2 (hall y hy howns)
  · refine fun hall ↦ ⟨fun howns ↦ ?_, fun y hy howns ↦ List.mem_of_mem_erase (hall y hy howns)⟩
    rcases h.seats x hx with hx | hle
    · exact hc.nodup.not_mem_erase (hall x hx howns)
    · exact absurd (h₀.numbered.below s hs) (Nat.not_lt.2 (hle s.id howns))

theorem Spares.goes (h₀ : c₀.Seated) (hc : c.Seated) (h : c₀.Spares c) (x : Seat) :
    c₀.Spares (c.change (.goes x)) := by
  by_cases hx : x ∈ c.seats
  · have hbus := hc.bus_goes hx
    refine ⟨?_, ?_, ?_, ?_⟩ <;> simp only [hbus, seats_goes hx]
    · exact h.next
    · exact fun y hy ↦ h.seats y (List.mem_of_mem_erase hy)
    · rw [List.filter_comm, h.kept, List.filter_filter]
      refine List.filter_congr fun s hs ↦ ?_
      rw [← Bool.decide_and, decide_eq_decide]
      exact h.kept_iff h₀ hc hx hs
    · intro s hs hle
      obtain ⟨hs, hnot⟩ := List.mem_filter.1 hs
      obtain ⟨y, hy, howns⟩ := h.added s hs hle
      have hne : y ≠ x := by
        rintro rfl
        simp [howns] at hnot
      exact ⟨y, (List.mem_erase_of_ne hne).2 hy, howns⟩
  · rwa [change_goes_of_not_mem hx]

theorem Spares.changes (h₀ : c₀.Seated) (hc : c.Seated) (h : c₀.Spares c)
    (changes : List (Change α)) : c₀.Spares (changes.foldl change c) := by
  induction changes generalizing c with
  | nil => exact h
  | cons x changes ih =>
    apply ih (hc.change x)
    cases x with
    | comes observer subscriber => exact h.comes h₀ observer subscriber
    | goes x => exact h.goes h₀ hc x

end Company

/-! ## The register as a whole -/

/-- The register over any moves, whoever makes them and in the middle of whatever delivery: no number
is given out twice, and who subscribes stands last on its topic, under the number that it was given;
every topic lists its subscriptions in the order of their numbers, and no number stands under two of
them; to unsubscribe succeeds exactly if the number is registered for the topic, and then ends this
one subscription, and otherwise changes nothing; and since everything was last cleared, as many
subscriptions have begun as there are and have been ended. Observers that come and go, however many
and in whatever order, leave all other subscriptions as they are. -/
theorem register_exact (moves : List (Move α)) (earlier : List (Move α ⊕ Change α))
    (changes : List (Change α)) :
    let t := ({} : Trace α).play moves
    let since := moves.rtakeWhile (!·.isClear)
    let cleared := ({} : Trace α).play (moves.rdropWhile (!·.isClear))
    (({} : Trace α).given moves).Pairwise (· < ·) ∧
    (∀ topic subscriber,
      let (id, bus) := t.run.bus.subscribe topic subscriber
      (t.step (.subscribe topic subscriber)).run.bus = bus ∧
        bus.on topic = t.run.bus.on topic ++ [⟨id, topic, subscriber⟩] ∧
        ∀ other, other ≠ topic → bus.on other = t.run.bus.on other) ∧
    (∀ topic, (t.run.bus.on topic).Pairwise (·.id < ·.id)) ∧
    (∀ topic topic', ∀ s ∈ t.run.bus.on topic, ∀ s' ∈ t.run.bus.on topic',
      s.id = s'.id → s = s' ∧ topic = topic') ∧
    (∀ topic id,
      ((t.run.bus.unsubscribe topic id).1 = true ↔ ∃ s ∈ t.run.bus.on topic, s.id = id) ∧
      (∀ s ∈ t.run.bus.on topic, s.id = id →
        t.run.bus.LeavesOut (t.step (.unsubscribe topic id)).run.bus s) ∧
      ((t.run.bus.unsubscribe topic id).1 = false → t.step (.unsubscribe topic id) = t)) ∧
    (∀ topic, t.run.bus.count topic + cleared.ended topic since = since.countP (·.begins topic)) ∧
    let c := earlier.foldl Company.step {}
    c.Spares (changes.foldl Company.change c) := by
  intro t since cleared
  have hnumbered : t.run.bus.Numbered := Trace.numbered_play moves
  refine ⟨?_, fun topic subscriber ↦ ?_, fun topic ↦ hnumbered.on topic, ?_,
    fun topic id ↦ ⟨?_, ?_, ?_⟩, fun topic ↦ ?_, ?_⟩
  · obtain ⟨n, hn⟩ := ({} : Trace α).given_eq moves
    exact hn ▸ List.pairwise_lt_range'
  · exact ⟨rfl, on_subscribe .., fun other hne ↦ on_subscribe_of_ne hne subscriber⟩
  · intro topic topic' s hs s' hs' hid
    obtain ⟨hs, ht⟩ := List.mem_filter.1 hs
    obtain ⟨hs', ht'⟩ := List.mem_filter.1 hs'
    obtain rfl := hnumbered.eq_of_id hs hs' hid
    exact ⟨rfl, (beq_iff_eq.1 ht).symm.trans (beq_iff_eq.1 ht')⟩
  · simp [unsubscribe_iff, Bus.on, and_assoc]
  · rintro s hs rfl
    obtain ⟨hs, ht⟩ := List.mem_filter.1 hs
    exact beq_iff_eq.1 ht ▸ hnumbered.unsubscribe_of_mem hs
  · intro hnot
    have hstep : t.step (.unsubscribe topic id) = t.alter (t.run.bus.unsubscribe topic id).2 := rfl
    rw [hstep, unsubscribe_of_not hnot]
    rfl
  · have hplay : t = cleared.play since := by
      rw [← Trace.play_append, List.rdropWhile_append_rtakeWhile]
    have hsince : ∀ m ∈ since, m.isClear = false := fun m hm ↦ by
      simpa using List.mem_rtakeWhile_imp hm
    have hcleared : cleared.run.bus.Numbered := Trace.numbered_play _
    rw [hplay, Trace.count_play hcleared hsince, Trace.count_rdropWhile, Nat.zero_add]
  · intro c
    have hseated : c.Seated := Company.seated_empty.live earlier
    exact hseated.spares.changes hseated hseated changes

/-- Since everything was cleared, an old number is registered no more, and no new one is equal. -/
theorem register_exact_cleared :
    let t := ({} : Trace Nat).play
      [.subscribe .fault 1, .clear, .subscribe .fault 2, .subscribe .state 3]
    t.run.bus.LeavesOut (t.step (.unsubscribe .fault 1)).run.bus ⟨1, .fault, 2⟩ ∧
    (t.run.bus.unsubscribe .fault 0).1 = false ∧ t.step (.unsubscribe .fault 0) = t := by
  intro t
  obtain ⟨-, -, -, -, hends, -⟩ := register_exact (α := Nat)
    [.subscribe .fault 1, .clear, .subscribe .fault 2, .subscribe .state 3] [] []
  exact ⟨(hends .fault 1).2.1 ⟨1, .fault, 2⟩ (by decide) rfl, rfl, (hends .fault 0).2.2 rfl⟩

end ProgressFeed.Bus
