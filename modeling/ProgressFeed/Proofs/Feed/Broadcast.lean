import ProgressFeed.Bus
import ProgressFeed.Proofs.Feed.Frames
import ProgressFeed.Proofs.Feed.Fresh

/-!
# Who is told

An event goes to its subscribers one after the other, and each of them may call the feed before the
next one is told. Who is told is settled when the event is published, so a disconnection does not
stop an event that is on its way.
-/

namespace ProgressFeed.Feed

/-- An event that has been published. -/
structure Emission where
  number : Nat
  origin : Origin
  event : Event
deriving DecidableEq, Repr

/-- An event on its way, with those who are still to be told, in order. -/
structure Delivery (α : Type) where
  emission : Emission
  waiting : List α
deriving DecidableEq, Repr

structure Callback (α : Type) where
  emission : Emission
  subscriber : α
deriving DecidableEq, Repr

/-- Who is told, if it is of this event. -/
def Callback.of? {α : Type} (e : Emission) (x : Callback α) : Option α :=
  if x.emission = e then some x.subscriber else none

/-- What can happen to a feed with subscribers. -/
inductive Act (α : Type)
  | subscribe (topic : Topic) (subscriber : α)
  | unsubscribe (topic : Topic) (id : Nat)
  | clear
  /-- The next one who waits for the innermost event is told. -/
  | tell
  | move (a : Answers) (m : Move)

/-- A feed at work, with its subscribers. Of the events that are on their way the innermost comes
first, and of those who have been told the earliest. -/
structure Broadcast (α : Type) where
  run : Run
  bus : Bus α := {}
  /-- How many events have been published. -/
  begun : Nat := 0
  deliveries : List (Delivery α) := []
  callbacks : List (Callback α) := []
deriving DecidableEq, Repr

namespace Broadcast

variable {α : Type} {b b₀ : Broadcast α} {c : Settings} {a : Answers} {m : Move}

def start (settings : Settings) (polls : Bool) (now : Int) : Broadcast α where
  run := Run.start settings polls now

def next? (b : Broadcast α) : Option (Callback α) :=
  b.deliveries.head?.bind fun d ↦ d.waiting.head?.map (⟨d.emission, ·⟩)

def tell (b : Broadcast α) : Broadcast α :=
  { b with
    deliveries := b.deliveries.modifyHead fun d ↦ { d with waiting := d.waiting.tail }
    callbacks := b.callbacks ++ b.next?.toList }

/-- Whether a move can be made: a delivery is over only when everybody has been told. -/
def allows (b : Broadcast α) (m : Move) : Bool :=
  b.run.allows m &&
    match m with
    | .returned => b.deliveries.head?.all (·.waiting.isEmpty)
    | _ => true

def under (b : Broadcast α) : Move → List (Delivery α)
  | .returned => b.deliveries.tail
  | _ => b.deliveries

/-- The feed makes a move; if it publishes an event, that is not yet on its way. -/
def go (b : Broadcast α) (a : Answers) (m : Move) : Broadcast α :=
  { b with run := b.run.live a m, deliveries := b.under m }

def publish (b : Broadcast α) (origin : Origin) (e : Event) : Broadcast α :=
  { b with
    begun := b.begun + 1
    deliveries := ⟨⟨b.begun, origin, e⟩, b.bus.audience e⟩ :: b.deliveries }

def move (b : Broadcast α) (a : Answers) (m : Move) : Broadcast α :=
  if b.allows m then
    match b.run.awake.published? a m with
    | none => b.go a m
    | some e => (b.go a m).publish m.origin e
  else b

def act (b : Broadcast α) : Act α → Broadcast α
  | .subscribe topic subscriber => { b with bus := (b.bus.subscribe topic subscriber).2 }
  | .unsubscribe topic id => { b with bus := (b.bus.unsubscribe topic id).2 }
  | .clear => { b with bus := b.bus.clear }
  | .tell => b.tell
  | .move a m => b.move a m

def play (b : Broadcast α) (acts : List (Act α)) : Broadcast α := acts.foldl act b

/-! ## Moves -/

theorem move_cases (b : Broadcast α) (a : Answers) (m : Move) :
    b.move a m = b ∨
    b.allows m = true ∧ b.move a m = b.go a m ∨
    b.allows m = true ∧ ∃ e, b.run.awake.published? a m = some e ∧
      b.move a m = (b.go a m).publish m.origin e := by
  by_cases h : b.allows m = true
  · cases hp : b.run.awake.published? a m with
    | none => exact .inr (.inl ⟨h, by simp [move, h, hp]⟩)
    | some e => exact .inr (.inr ⟨h, e, rfl, by simp [move, h, hp]⟩)
  · exact .inl (if_neg h)

theorem run_move (hallows : b.allows m = true) : (b.move a m).run = b.run.live a m := by
  rw [move, if_pos hallows]
  split <;> rfl

theorem run_act (b : Broadcast α) (x : Act α) :
    (b.act x).run = b.run ∨ ∃ a m, x = .move a m ∧ (b.act x).run = b.run.live a m := by
  cases x with
  | subscribe | unsubscribe | clear | tell => exact .inl rfl
  | move a m =>
    rcases b.move_cases a m with h | ⟨-, h⟩ | ⟨-, y, -, h⟩
    · exact .inl (congrArg run h)
    · exact .inr ⟨a, m, rfl, congrArg run h⟩
    · exact .inr ⟨a, m, rfl, congrArg run h⟩

theorem callbacks_move : (b.move a m).callbacks = b.callbacks := by
  rcases b.move_cases a m with h | ⟨-, h⟩ | ⟨-, e, -, h⟩ <;> rw [h] <;> rfl

theorem bus_move : (b.move a m).bus = b.bus := by
  rcases b.move_cases a m with h | ⟨-, h⟩ | ⟨-, e, -, h⟩ <;> rw [h] <;> rfl

theorem under_sublist : (b.under m).Sublist b.deliveries := by
  cases m with
  | returned => exact List.tail_sublist _
  | connect | disconnect | reconnect | keepalive | refresh | setPolls | retire | notice | advance
  | answer => exact List.Sublist.refl _

theorem mem_under (h : b.allows m = true) {d : Delivery α} (hd : d ∈ b.deliveries)
    (hw : d.waiting ≠ []) : d ∈ b.under m := by
  cases m with
  | returned =>
    cases hs : b.deliveries with
    | nil => simp [hs] at hd
    | cons d' deliveries =>
      have hempty : d'.waiting = [] := by simpa [allows, hs] using (Bool.and_eq_true_iff.1 h).2
      rcases List.mem_cons.1 (hs ▸ hd) with rfl | hd
      · exact absurd hempty hw
      · simpa [under, hs] using hd
  | connect | disconnect | reconnect | keepalive | refresh | setPolls | retire | notice | advance
  | answer => exact hd

/-! ## Numbers -/

structure Numbered (b : Broadcast α) : Prop where
  below : ∀ d ∈ b.deliveries, d.emission.number < b.begun
  distinct : (b.deliveries.map (·.emission.number)).Nodup

theorem Numbered.go (h : b.Numbered) : (b.go a m).Numbered :=
  ⟨fun d hd ↦ h.below d (under_sublist.subset hd),
    (under_sublist.map _).nodup h.distinct⟩

theorem Numbered.publish (h : b.Numbered) (origin : Origin) (e : Event) :
    (b.publish origin e).Numbered := by
  constructor
  · intro d hd
    rcases List.mem_cons.1 hd with rfl | hd
    · exact Nat.lt_succ_self _
    · exact (h.below d hd).trans (Nat.lt_succ_self _)
  · refine List.nodup_cons.2 ⟨fun hmem ↦ ?_, h.distinct⟩
    obtain ⟨d, hd, hnumber⟩ := List.mem_map.1 hmem
    exact absurd hnumber (h.below d hd).ne

theorem Numbered.tell (h : b.Numbered) : b.tell.Numbered := by
  cases hs : b.deliveries with
  | nil => exact ⟨by simp [Broadcast.tell, hs], by simp [Broadcast.tell, hs]⟩
  | cons d deliveries =>
    have hbelow := h.below
    have hdistinct := h.distinct
    rw [hs] at hbelow hdistinct
    constructor
    · simpa [Broadcast.tell, hs] using hbelow
    · simpa [Broadcast.tell, hs] using hdistinct

theorem Numbered.move (h : b.Numbered) (a : Answers) (m : Move) : (b.move a m).Numbered := by
  rcases b.move_cases a m with he | ⟨-, he⟩ | ⟨-, e, -, he⟩ <;> rw [he]
  · exact h
  · exact h.go
  · exact h.go.publish _ _

theorem Numbered.act (h : b.Numbered) (x : Act α) : (b.act x).Numbered := by
  cases x with
  | subscribe | unsubscribe | clear => exact ⟨h.below, h.distinct⟩
  | tell => exact h.tell
  | move a m => exact h.move a m

theorem Numbered.play (h : b.Numbered) (acts : List (Act α)) : (b.play acts).Numbered := by
  induction acts generalizing b with
  | nil => exact h
  | cons x acts ih => exact ih (h.act x)

theorem numbered_start (c : Settings) (polls : Bool) (now : Int) :
    (start c polls now : Broadcast α).Numbered := ⟨by simp [start], by simp [start]⟩

theorem Numbered.eq_of_number (h : b.Numbered) {d d' : Delivery α} (hd : d ∈ b.deliveries)
    (hd' : d' ∈ b.deliveries) (he : d.emission = d'.emission) : d = d' :=
  List.inj_on_of_nodup_map h.distinct hd hd' (congrArg Emission.number he)

/-! ## Those who wait -/

/-- These are left of those who are to be told of the event. -/
structure Left (b : Broadcast α) (e : Emission) (rest : List α) : Prop where
  begun : e.number < b.begun
  waiting : ∀ d ∈ b.deliveries, d.emission = e → d.waiting = rest
  mem : rest ≠ [] → ⟨e, rest⟩ ∈ b.deliveries

variable {e : Emission} {rest : List α}

theorem Numbered.left (h : b.Numbered) {d : Delivery α} (hd : d ∈ b.deliveries) :
    b.Left d.emission d.waiting :=
  ⟨h.below d hd, fun _ hd' he ↦ congrArg Delivery.waiting (h.eq_of_number hd' hd he), fun _ ↦ hd⟩

theorem Left.go (h : b.Left e rest) (hm : b.allows m = true) : (b.go a m).Left e rest :=
  ⟨h.begun, fun d hd ↦ h.waiting d (under_sublist.subset hd), fun hr ↦ mem_under hm (h.mem hr) hr⟩

theorem Left.publish (h : b.Left e rest) (origin : Origin) (x : Event) :
    (b.publish origin x).Left e rest := by
  refine ⟨h.begun.trans (Nat.lt_succ_self _), fun d hd he ↦ ?_,
    fun hr ↦ List.mem_cons_of_mem _ (h.mem hr)⟩
  rcases List.mem_cons.1 hd with rfl | hd
  · exact absurd (congrArg Emission.number he) h.begun.ne'
  · exact h.waiting d hd he

theorem Left.move (h : b.Left e rest) (a : Answers) (m : Move) : (b.move a m).Left e rest := by
  rcases b.move_cases a m with he | ⟨hm, he⟩ | ⟨hm, x, -, he⟩ <;> rw [he]
  · exact h
  · exact h.go hm
  · exact (h.go hm).publish _ _

theorem next?_emission {x : Callback α} (h : b.next? = some x) :
    ∃ d ∈ b.deliveries, d.emission = x.emission := by
  obtain ⟨d, hd, hx⟩ := Option.bind_eq_some_iff.1 h
  obtain ⟨y, -, rfl⟩ := Option.map_eq_some_iff.1 hx
  exact ⟨d, List.mem_of_head? hd, rfl⟩

/-- If somebody is told of the event, it is the first one left. -/
theorem Left.tell (h : b.Left e rest) (hn : b.Numbered) :
    ∃ rest', b.tell.Left e rest' ∧ b.next?.toList.filterMap (Callback.of? e) ++ rest' = rest := by
  cases hs : b.deliveries with
  | nil =>
    have hnext : b.next? = none := by simp [next?, hs]
    have hdeliveries : b.tell.deliveries = b.deliveries := by simp [Broadcast.tell, hs]
    exact ⟨rest, ⟨h.begun, hdeliveries ▸ h.waiting, hdeliveries ▸ h.mem⟩, by simp [hnext]⟩
  | cons d deliveries =>
    have htell : b.tell.deliveries = { d with waiting := d.waiting.tail } :: deliveries := by
      simp [Broadcast.tell, hs]
    have hnext : b.next? = d.waiting.head?.map (⟨d.emission, ·⟩) := by simp [next?, hs]
    by_cases he : d.emission = e
    · have hwaiting : d.waiting = rest := h.waiting d (by simp [hs]) he
      refine ⟨rest.tail, ⟨h.begun, fun d' hd' hde ↦ ?_, fun _ ↦ ?_⟩, ?_⟩
      · rcases List.mem_cons.1 (htell ▸ hd') with rfl | hd'
        · exact congrArg List.tail hwaiting
        · -- The numbers differ, so no other event on its way is this one.
          have hnodup := hn.distinct
          rw [hs, List.map_cons, List.nodup_cons] at hnodup
          exact absurd (List.mem_map.2 ⟨d', hd', congrArg Emission.number (hde.trans he.symm)⟩) hnodup.1
      · rw [htell, ← he, ← hwaiting]
        exact List.mem_cons_self ..
      · rw [hnext, hwaiting, he]
        cases rest <;> simp [Callback.of?]
    · refine ⟨rest, ⟨h.begun, fun d' hd' hde ↦ ?_, fun hr ↦ ?_⟩, ?_⟩
      · rcases List.mem_cons.1 (htell ▸ hd') with rfl | hd'
        · exact absurd hde he
        · exact h.waiting d' (by simp [hs, hd']) hde
      · rw [htell]
        rcases List.mem_cons.1 (hs ▸ h.mem hr) with heq | hmem
        · exact absurd (congrArg Delivery.emission heq).symm he
        · exact List.mem_cons_of_mem _ hmem
      · rw [hnext]
        cases d.waiting <;> simp [Callback.of?, he]

theorem Left.act (h : b.Left e rest) (hn : b.Numbered) (x : Act α) :
    ∃ later rest', (b.act x).callbacks = b.callbacks ++ later ∧ (b.act x).Left e rest' ∧
      later.filterMap (Callback.of? e) ++ rest' = rest := by
  cases x with
  | tell =>
    obtain ⟨rest', hleft, hrest⟩ := h.tell hn
    exact ⟨b.next?.toList, rest', rfl, hleft, hrest⟩
  | move a m =>
    exact ⟨[], rest, callbacks_move.trans (List.append_nil _).symm, h.move a m, rfl⟩
  | subscribe | unsubscribe | clear =>
    exact ⟨[], rest, (List.append_nil _).symm, ⟨h.begun, h.waiting, h.mem⟩, rfl⟩

/-- Those who are left are told in turn, whatever comes meanwhile. -/
theorem Left.play (h : b.Left e rest) (hn : b.Numbered) (acts : List (Act α)) :
    ∃ later rest', (b.play acts).callbacks = b.callbacks ++ later ∧ (b.play acts).Left e rest' ∧
      later.filterMap (Callback.of? e) ++ rest' = rest := by
  induction acts generalizing b rest with
  | nil => exact ⟨[], rest, (List.append_nil _).symm, h, rfl⟩
  | cons x acts ih =>
    obtain ⟨later, rest', hcallbacks, hleft, hrest⟩ := h.act hn x
    obtain ⟨more, rest'', hcallbacks', hleft', hrest'⟩ := ih hleft (hn.act x)
    refine ⟨later ++ more, rest'', ?_, hleft', ?_⟩
    · rw [← List.append_assoc, ← hcallbacks]
      exact hcallbacks'
    · rw [List.filterMap_append, List.append_assoc, hrest', hrest]

/-! ## After a disconnection -/

/-- Subscribers may still be told of the event after this moment: it is neither progress nor a sign of
life, or it comes from a later channel or query, or it was on its way. -/
def Admits (b : Broadcast α) (e : Emission) : Prop :=
  e.event.topic = .snapshot ∨ e.event.topic = .heartbeat →
    e.origin.IsFrom b.run.ledger.opened.length b.run.ledger.queries.length ∨
      ∃ d ∈ b.deliveries, d.emission = e

/-- What holds from the disconnection at `b₀` on. -/
structure Followed (c : Settings) (b₀ b : Broadcast α) (later : List (Callback α)) : Prop where
  upheld : b.run.Upheld c
  beyond : b.run.Beyond b₀.run.ledger.opened.length b₀.run.ledger.queries.length
  numbered : b.Numbered
  callbacks : b.callbacks = b₀.callbacks ++ later
  deliveries : ∀ d ∈ b.deliveries, b₀.Admits d.emission
  told : ∀ x ∈ later, b₀.Admits x.emission
  left : ∀ d ∈ b₀.deliveries, ∃ rest, b.Left d.emission rest ∧
    later.filterMap (Callback.of? d.emission) ++ rest = d.waiting

theorem upheld_move (h : b.run.Upheld c) (a : Answers) (m : Move) : (b.move a m).run.Upheld c := by
  rcases b.move_cases a m with he | ⟨-, he⟩ | ⟨-, e, -, he⟩ <;> rw [he]
  · exact h
  · exact h.live a m
  · exact h.live a m

theorem upheld_act (h : b.run.Upheld c) (x : Act α) : (b.act x).run.Upheld c := by
  cases x with
  | subscribe | unsubscribe | clear | tell => exact h
  | move a m => exact upheld_move h a m

theorem upheld_play (h : b.run.Upheld c) (acts : List (Act α)) : (b.play acts).run.Upheld c := by
  induction acts generalizing b with
  | nil => exact h
  | cons x acts ih => exact ih (upheld_act h x)

theorem Followed.move {later : List (Callback α)} (h : Followed c b₀ b later) (a : Answers)
    (m : Move) : Followed c b₀ (b.move a m) later := by
  have hawake : b.run.awake.Upheld c := h.upheld
  have hbeyond : b.run.awake.Beyond b₀.run.ledger.opened.length b₀.run.ledger.queries.length :=
    ⟨h.beyond.opened, h.beyond.channel, h.beyond.asked, h.beyond.query⟩
  have hunder : ∀ d ∈ b.under m, b₀.Admits d.emission := fun d hd ↦
    h.deliveries d (under_sublist.subset hd)
  have hrun : (b.move a m).run.Beyond b₀.run.ledger.opened.length b₀.run.ledger.queries.length := by
    rcases b.move_cases a m with he | ⟨-, he⟩ | ⟨-, e, -, he⟩ <;> rw [he]
    · exact h.beyond
    · exact h.beyond.live h.upheld a m
    · exact h.beyond.live h.upheld a m
  have hdeliveries : ∀ d ∈ (b.move a m).deliveries, b₀.Admits d.emission := by
    rcases b.move_cases a m with he | ⟨-, he⟩ | ⟨-, e, hp, he⟩ <;> rw [he]
    · exact h.deliveries
    · exact hunder
    · intro d hd
      rcases List.mem_cons.1 hd with rfl | hd
      · exact fun htopic ↦ .inl (hbeyond.origin hawake rfl hp htopic)
      · exact hunder d hd
  refine ⟨upheld_move h.upheld a m, hrun, h.numbered.move a m, callbacks_move.trans h.callbacks,
    hdeliveries, h.told, fun d hd ↦ ?_⟩
  obtain ⟨rest, hleft, hrest⟩ := h.left d hd
  exact ⟨rest, hleft.move a m, hrest⟩

theorem Followed.tell {later : List (Callback α)} (h : Followed c b₀ b later) :
    Followed c b₀ b.tell (later ++ b.next?.toList) := by
  refine ⟨h.upheld, h.beyond, h.numbered.tell, ?_, fun d hd ↦ ?_, fun x hx ↦ ?_, fun d hd ↦ ?_⟩
  · rw [Broadcast.tell, h.callbacks, List.append_assoc]
  · cases hs : b.deliveries with
    | nil => simp [Broadcast.tell, hs] at hd
    | cons d' deliveries =>
      have hadmits := h.deliveries
      rw [hs] at hadmits
      have hd' : d ∈ { d' with waiting := d'.waiting.tail } :: deliveries := by
        simpa [Broadcast.tell, hs] using hd
      rcases List.mem_cons.1 hd' with rfl | hd'
      · exact hadmits d' (List.mem_cons_self ..)
      · exact hadmits d (List.mem_cons_of_mem _ hd')
  · rcases List.mem_append.1 hx with hx | hx
    · exact h.told x hx
    · obtain ⟨d, hd, he⟩ := next?_emission (Option.mem_toList.1 hx)
      exact he ▸ h.deliveries d hd
  · obtain ⟨rest, hleft, hrest⟩ := h.left d hd
    obtain ⟨rest', hleft', hrest'⟩ := hleft.tell h.numbered
    refine ⟨rest', hleft', ?_⟩
    rw [List.filterMap_append, List.append_assoc, hrest', hrest]

theorem Followed.act {later : List (Callback α)} (h : Followed c b₀ b later) (x : Act α) :
    ∃ later', Followed c b₀ (b.act x) later' := by
  cases x with
  | tell => exact ⟨_, h.tell⟩
  | move a m => exact ⟨later, h.move a m⟩
  | subscribe | unsubscribe | clear =>
    refine ⟨later, h.upheld, h.beyond, ⟨h.numbered.below, h.numbered.distinct⟩, h.callbacks,
      h.deliveries, h.told, fun d hd ↦ ?_⟩
    obtain ⟨rest, hleft, hrest⟩ := h.left d hd
    exact ⟨rest, ⟨hleft.begun, hleft.waiting, hleft.mem⟩, hrest⟩

theorem Followed.play {later : List (Callback α)} (h : Followed c b₀ b later) (acts : List (Act α)) :
    ∃ later', Followed c b₀ (b.play acts) later' := by
  induction acts generalizing b later with
  | nil => exact ⟨later, h⟩
  | cons x acts ih =>
    obtain ⟨later', h'⟩ := h.act x
    exact ih h'

theorem followed_disconnect (h : b.run.Upheld c) (hn : b.Numbered) (ht : b.run.isThere = true)
    (a : Answers) : Followed c b (b.act (.move a .disconnect)) [] := by
  have hallows : b.run.allows .disconnect = true := by
    simpa [Run.allows, Move.isCall, Run.isThere] using ht
  have hm : b.allows .disconnect = true := by simp [allows, hallows]
  have hawake : b.run.awake.Upheld c := h
  have hadmits : ∀ d ∈ b.deliveries, b.Admits d.emission := fun d hd _ ↦ .inr ⟨d, hd, rfl⟩
  have hrun : (b.move a .disconnect).run = b.run.live a .disconnect := by
    unfold move
    rw [if_pos hm]
    split <;> rfl
  refine ⟨upheld_move h a _, hrun ▸ h.disconnect_beyond ht a, hn.move a _, ?_, ?_, by simp,
    fun d hd ↦ ⟨d.waiting, (hn.left hd).move a _, rfl⟩⟩
  · exact callbacks_move.trans (List.append_nil _).symm
  · intro d hd
    change d ∈ (b.move a .disconnect).deliveries at hd
    rcases b.move_cases a .disconnect with he | ⟨-, he⟩ | ⟨-, e, hp, he⟩ <;> rw [he] at hd
    · exact hadmits d hd
    · exact hadmits d hd
    · rcases List.mem_cons.1 hd with rfl | hd
      · intro htopic
        rcases hawake.published_topic rfl hp htopic with ⟨i, ho, -⟩ | ⟨q, ho, -⟩ <;> cases ho
      · exact hadmits d hd

end Broadcast

/-- After a disconnection no subscriber is told of progress or of a sign of life that came over a
channel opened or in answer to a query made before, unless the event was on its way when somebody,
one of the subscribers for instance, called for the disconnection. Those who still waited for such an
event are told all the same, every one in turn. -/
theorem told_after_disconnect {α : Type} (c : Settings) (polls : Bool) (now : Int)
    (acts more : List (Act α)) (a : Answers) :
    let b := (Broadcast.start c polls now : Broadcast α).play acts
    let b' := (b.act (.move a .disconnect)).play more
    b.run.isThere = true → ∃ later, b'.callbacks = b.callbacks ++ later ∧
      (∀ x ∈ later, x.emission.event.topic = .snapshot ∨ x.emission.event.topic = .heartbeat →
        x.emission.origin.IsFrom b.run.ledger.opened.length b.run.ledger.queries.length ∨
          ∃ d ∈ b.deliveries, d.emission = x.emission) ∧
      ∀ d ∈ b.deliveries, ∃ rest,
        later.filterMap (Callback.of? d.emission) ++ rest = d.waiting ∧
          (rest ≠ [] → ⟨d.emission, rest⟩ ∈ b'.deliveries) := by
  intro b b' ht
  have hu : b.run.Upheld c := Broadcast.upheld_play (Run.upheld_start c polls now) acts
  have hn : b.Numbered := (Broadcast.numbered_start c polls now).play acts
  obtain ⟨later, h⟩ := (Broadcast.followed_disconnect hu hn ht a).play more
  refine ⟨later, h.callbacks, h.told, fun d hd ↦ ?_⟩
  obtain ⟨rest, hleft, hrest⟩ := h.left d hd
  exact ⟨rest, hrest, hleft.mem⟩

/-- Two subscribers wait for progress, and the first one is told. -/
def interruptedActs : List (Act Nat) :=
  [.subscribe .snapshot 1, .subscribe .snapshot 2] ++
    [.connect, .returned, .notice 0 .opened, .returned, .notice 0 (.frame lastFrame)].map
      (.move ⟨some (utf8 "token"), some true, true⟩) ++ [.tell]

def interrupted : Broadcast Nat :=
  (Broadcast.start { source := utf8 "job" } true 0).play interruptedActs

def interruption : Emission := ⟨2, .channel 0, .snapshot lastSnapshot⟩

def interruptedLast : Broadcast Nat :=
  (interrupted.act (.move {} .disconnect)).play [.move {} .returned, .tell]

theorem told_after_disconnect_interrupted :
    interrupted.run.isThere = true ∧ ∃ later,
      interruptedLast.callbacks = interrupted.callbacks ++ later ∧
        later.filterMap (Callback.of? interruption) = [2] := by
  have ht : interrupted.run.isThere = true := by decide +kernel
  have hd : ⟨interruption, [2]⟩ ∈ interrupted.deliveries := by decide +kernel
  have hlast : interruptedLast.deliveries = [⟨interruption, []⟩] := by decide +kernel
  have h := told_after_disconnect { source := utf8 "job" } true 0 interruptedActs
    [.move {} .returned, .tell] {}
  dsimp only at h
  rw [← interrupted, ← interruptedLast] at h
  obtain ⟨later, hcallbacks, -, hwaiting⟩ := h ht
  obtain ⟨rest, hrest, hmem⟩ := hwaiting _ hd
  refine ⟨ht, later, hcallbacks, ?_⟩
  by_cases hr : rest = []
  · rwa [hr, List.append_nil] at hrest
  · have hin := hmem hr
    rw [hlast, List.mem_singleton] at hin
    exact absurd (congrArg Delivery.waiting hin) hr

/-- The disconnection has returned, and the second subscriber is told of progress from before. -/
theorem told_though_disconnected :
    let b := (interrupted.act (.move {} .disconnect)).act (.move {} .returned)
    interrupted.run.ledger.opened.length = 1 ∧ interruption.origin = .channel 0 ∧
      b.run.feed.connection = .disconnected ∧ b.run.stack = [.delivered true 0] ∧
      b.callbacks = [⟨interruption, 1⟩] ∧
      (b.act .tell).callbacks = [⟨interruption, 1⟩, ⟨interruption, 2⟩] := by
  decide +kernel

end ProgressFeed.Feed
