import ProgressFeed.Proofs.Feed.Disturbed
import ProgressFeed.Proofs.Feed.Renewal
import ProgressFeed.Proofs.Feed.Trail

/-!
# A stream that ends with its job

A feed can close its stream when the job is over. It waits until everybody has been told of the last
snapshot, and then closes the stream only if nobody has closed it meanwhile: neither one of those
who were told, nor another last snapshot that came while this one was on its way.
-/

namespace ProgressFeed.Feed

/-- The stream is over: no channel is held, and nothing is waited for. -/
structure Run.IsOver (r : Run) : Prop where
  connection : r.feed.connection = .disconnected
  channel : r.feed.channel = none
  alarms : r.ledger.clock.alarms = []

theorem Run.Parted.isOver {c : Settings} {r : Run} (h : r.Parted) (hu : r.Upheld c) : r.IsOver :=
  ⟨Feed.Parted.connection h, Feed.Parted.channel h hu, Feed.Parted.alarms h hu⟩

namespace Broadcast

variable {α : Type} {b₀ b b' : Broadcast α} {c : Settings} {e : Emission} {inner : List Resume}
  {x : Act α} {a : Answers} {m : Move} {s : Snapshot}

/-! ## Acts -/

theorem parted_play (h : b.run.Parted) (hu : b.run.Upheld c) {acts : List (Act α)}
    (hacts : ∀ a m, .move a m ∈ acts → m ≠ .connect ∧ m ≠ .reconnect) :
    (b.play acts).run.Parted ∧ (b.play acts).run.ledger.opened = b.run.ledger.opened ∧
      (b.play acts).run.closures = b.run.closures := by
  induction acts generalizing b with
  | nil => exact ⟨h, rfl, rfl⟩
  | cons x acts ih =>
    have hx : (b.act x).run.Parted ∧ (b.act x).run.ledger.opened = b.run.ledger.opened ∧
        (b.act x).run.closures = b.run.closures := by
      rcases b.run_act x with hrun | ⟨a, m, rfl, hrun⟩ <;> rw [hrun]
      · exact ⟨h, rfl, rfl⟩
      · obtain ⟨hconnect, hreconnect⟩ := hacts a m (List.mem_cons_self ..)
        exact h.live hu a hconnect hreconnect
    obtain ⟨hparted, hopened, hclosures⟩ := ih hx.1 (upheld_act hu x) fun a m hm ↦
      hacts a m (List.mem_cons_of_mem _ hm)
    exact ⟨hparted, hopened.trans hx.2.1, hclosures.trans hx.2.2⟩

theorem beyond_play {i k : Nat} (h : b.run.Beyond i k) (hu : b.run.Upheld c)
    (acts : List (Act α)) : (b.play acts).run.Beyond i k := by
  induction acts generalizing b with
  | nil => exact h
  | cons x acts ih =>
    refine ih (b := b.act x) ?_ (upheld_act hu x)
    rcases b.run_act x with hrun | ⟨a, m, rfl, hrun⟩ <;> rw [hrun]
    · exact h
    · exact h.live hu a m

theorem act_answer {i k query : Nat} (h : b.run.Beyond i k) (hq : query < k) (a : Answers)
    (answer : StatusAnswer) : b.act (.move a (.answer query answer)) = b := by
  have hlen : query < b.run.ledger.queries.length := hq.trans_le h.asked
  have hget := List.getElem?_eq_getElem hlen
  have hlt := h.query query _ hq hget
  have hpolled : b.run.feed.polled b.run.ledger.queries[query] answer = b.run.feed.rest :=
    if_neg hlt.ne'
  have hm : b.run.awake.Makes a (.answer query answer) b.run.awake .answer b.run.feed.rest :=
    hpolled ▸ .answer (r := b.run.awake) hget answer
  have hstep : b.run.awake.step a (.answer query answer) = b.run.awake :=
    (hm.step rfl).trans (Run.take_rest b.run.awake .answer)
  by_cases hallows : b.allows (.answer query answer) = true
  · have hlive : b.run.live a (.answer query answer) = b.run := by
      rw [Run.live_of_allows (Bool.and_eq_true_iff.1 hallows).1, hstep]
      simp [Run.awake]
    simp only [act, move, hallows, if_true, hm.published? rfl, go, hlive]
    rfl
  · exact if_neg hallows

/-! ## The latest snapshot -/

theorem latest_act (hnext : ∀ y ∈ b.run.stack, y.next = .nothing) {seen : List Snapshot}
    (h : b.run.feed.latest = seen.getLast?)
    (hx : ∀ a m, x = .move a m → m.isForgetful = false) :
    (∀ y ∈ (b.act x).run.stack, y.next = .nothing) ∧
      (b.act x).run.feed.latest =
        (seen ++ ((b.published? x).bind Event.snapshot?).toList).getLast? := by
  rcases b.act_cases x with ⟨a, m, q, cause, s, rfl, -, hm, hmade, hpublished⟩ | ⟨hsame, hnone, -⟩
  · obtain ⟨howes, hadds⟩ := hm.keeps (hx a m rfl) fun y _ hy ↦ hnext y (List.mem_of_head? hy)
    refine ⟨fun y hy ↦ ?_, ?_⟩
    · rw [hmade.stack] at hy
      rcases List.mem_append.1 hy with hy | hy
      · exact howes.of_mem hy
      · exact hnext y (m.leaves_subset _ hy)
    · rw [hmade.feed, hpublished]
      exact latest_of_adds h hadds
  · rw [hsame.stack, hsame.latest, hnone, h]
    exact ⟨hnext, by simp⟩

theorem latest_play (hnext : ∀ y ∈ b.run.stack, y.next = .nothing) {seen : List Snapshot}
    (h : b.run.feed.latest = seen.getLast?) {acts : List (Act α)}
    (hacts : ∀ a m, .move a m ∈ acts → m.isForgetful = false) :
    (b.play acts).run.feed.latest = (seen ++ b.shown acts).getLast? := by
  induction acts generalizing b seen with
  | nil =>
    rw [shown, List.append_nil]
    exact h
  | cons x acts ih =>
    obtain ⟨hnext', hlatest⟩ := latest_act hnext h fun a m hx ↦
      hacts a m (hx ▸ List.mem_cons_self ..)
    rw [shown, ← List.append_assoc]
    exact ih hnext' hlatest fun a m hm ↦ hacts a m (List.mem_cons_of_mem _ hm)

/-! ## The publication -/

/-- A last snapshot has been published. -/
structure Begins (c : Settings) (b₀ : Broadcast α) (origin : Origin) (s : Snapshot)
    (b : Broadcast α) : Prop where
  calm : Calm c b₀ ⟨b₀.begun, origin, .snapshot s⟩ [s] b
  deliveries : b.deliveries =
    ⟨⟨b₀.begun, origin, .snapshot s⟩, b₀.bus.audience (.snapshot s)⟩ :: b₀.deliveries
  callbacks : b.callbacks = b₀.callbacks

theorem begins_act (hu : b.run.Upheld c) (hp : b.published? (.move a m) = some (.snapshot s))
    (ht : s.isTerminal = true) : Begins c b m.origin s (b.act (.move a m)) := by
  rcases b.act_cases (.move a m) with ⟨a, m, q, cause, st, ⟨⟩, hallows, hm, hmade, hpublished⟩ |
    ⟨-, hnone, -⟩
  swap
  · cases hnone.symm.trans hp
  obtain ⟨⟨y, z⟩, hpause, hy⟩ := Option.map_eq_some_iff.1 (hpublished.symm.trans hp)
  obtain rfl : y = .snapshot s := hy
  obtain ⟨hne, hforget⟩ := hm.origin_of_snapshot hpause
  have hz : z = .delivered true b.run.feed.epoch := ht ▸ hm.delivered_of_snapshot hpause
  have hawake : b.run.awake.Upheld c := hu
  have hspares := hawake.spares hm ((Run.closes_of_ne hne).trans hforget)
  obtain ⟨-, hadds⟩ := hm.keeps hforget fun _ hr ↦ absurd hr hne
  have hepoch : (b.act (.move a m)).run.feed.epoch = b.run.feed.epoch := by
    rw [hmade.feed, hspares.epoch]
    rfl
  have hmove : b.act (.move a m) = (b.go a m).publish m.origin (.snapshot s) := by
    have hrun : b.run.awake.published? a m = some (.snapshot s) := by
      rw [hm.published? rfl, hpause]
      rfl
    simp only [act, move, hallows, if_true, hrun]
  refine ⟨⟨⟨[], ⟨upheld_act hu _, ?_, ?_, ⟨[], ?_, rfl⟩, hepoch.ge⟩, by simp⟩, hepoch, ?_, ?_⟩,
    ?_, ?_⟩
  · rw [hmove]
    exact Nat.lt_succ_self _
  · rw [hmade.stack, Move.leaves_of_ne hne, Step.pending, hpause, hz]
    rfl
  · rw [hmade.events, Move.leaves_of_ne hne, hpause]
    rfl
  · exact hmade.spares hspares
  · rw [hmade.feed]
    have hlatest : st.feed.latest = _ := congrArg Progress.latest hadds
    rw [hlatest, hpause]
    rfl
  · rw [hmove, publish, go, under_eq, Move.leaves_of_ne hne]
  · rw [hmove]
    rfl

/-! ## The end of the delivery -/

theorem Numbered.not_mem (h : b.Numbered) (origin : Origin) (y : Event) :
    (⟨b.begun, origin, y⟩ : Emission) ∉ b.events := by
  intro he
  obtain ⟨d, hd, hde⟩ := List.mem_map.1 he
  exact absurd (congrArg Emission.number hde) (h.below d hd).ne

theorem Within.eq_nil (h : Within c b₀ e inner b) (hn : b.Numbered) {waiting : List α}
    (hhead : b.deliveries.head? = some ⟨e, waiting⟩) : inner = [] := by
  obtain ⟨within, hevents, hlength⟩ := h.events
  have hfirst : b.events.head? = some e := by
    rw [Broadcast.events, List.head?_map, hhead]
    rfl
  have hnodup : (b.events.map Emission.number).Nodup := by
    simpa [Broadcast.events, Function.comp_def] using hn.distinct
  -- The numbers are distinct, so that the event cannot be both the innermost one and further out.
  cases within with
  | nil => exact List.length_eq_zero_iff.1 hlength.symm
  | cons y within =>
    rw [hevents] at hfirst hnodup
    obtain rfl : y = e := by simpa using hfirst
    simp at hnodup

theorem run_returned {y : Resume} {stack : List Resume} (hs : b.run.stack = y :: stack)
    (hhead : b.deliveries.head? = some ⟨e, []⟩) (a : Answers) :
    (b.act (.move a .returned)).run =
      { b.run with stack }.take .other (b.run.feed.resume (b.run.ledger.outside a) y) := by
  have hallows : b.allows .returned = true := by
    simp [allows, Run.allows, Move.isCall, hs, hhead]
  rw [act, run_move hallows, Run.live_returned hs]

/-- The end of a job has been delivered, and the stream is closed. -/
structure Ends (b b' : Broadcast α) (stack : List Resume) : Prop where
  feed : b'.run.feed = b.run.feed.closed
  closures : b'.run.closures = b.run.closures ++ (b.run.feed.channel.map (·, .byOwner)).toList
  beyond : b'.run.Beyond 0 b'.run.ledger.queries.length
  isOver : b'.run.IsOver
  parted : (∀ y ∈ stack, y.next = .nothing) →
    b'.run.Parted ∧ ∀ y ∈ b'.run.stack, y.next = .nothing

theorem ends_act (hu : b.run.Upheld c) {stack : List Resume}
    (hs : b.run.stack = .delivered true b.run.feed.epoch :: stack)
    (hhead : b.deliveries.head? = some ⟨e, []⟩) (hend : c.closesAtEnd = true) (a : Answers) :
    b.Ends (b.act (.move a .returned)) stack := by
  have hu' : (b.act (.move a .returned)).run.Upheld c := upheld_act hu _
  have hsettings : b.run.feed.settings.closesAtEnd = true := by rw [hu.settings, hend]
  have hresume : b.run.feed.resume (b.run.ledger.outside a) (.delivered true b.run.feed.epoch) =
      b.run.feed.closeStream .nothing (b.run.ledger.outside a) := if_pos (by simp [hsettings])
  have hrun := run_returned hs hhead a
  rw [hresume] at hrun
  have hfeed : (b.act (.move a .returned)).run.feed = b.run.feed.closed := by
    rw [hrun]
    exact closeStream_nothing_feed
  have hqueries : (b.act (.move a .returned)).run.ledger.queries = b.run.ledger.queries := by
    rw [hrun]
    simp only [Run.take, closeStream_nothing_commands]
    exact Run.queries_farewell _ _
  refine ⟨hfeed, ?_, ⟨Nat.zero_le _, fun _ _ ↦ Nat.zero_le _, le_rfl, fun q epoch _ hq ↦ ?_⟩,
    ⟨by rw [hfeed, connection_closed], by rw [hfeed, channel_closed], ?_⟩, fun hnext ↦ ?_⟩
  · rw [hrun, Run.closures_take, closeStream_nothing_closures]
    rfl
  · rw [hqueries] at hq
    rw [hfeed]
    exact Nat.lt_succ_of_le (hu.queries epoch (List.mem_of_getElem? hq))
  · refine hu'.alarms_eq_nil (hfeed ▸ rfl) fun l hl ↦ ?_
    obtain ⟨l', -, rfl⟩ := closed_link (hfeed ▸ hl)
    rfl
  · have htail : b.run.feed.Upheld c b.run.ledger stack := by
      have hx : b.run.feed.Upheld c b.run.ledger (.delivered true b.run.feed.epoch :: stack) :=
        hs ▸ hu
      exact hx.tail fun _ _ ↦ rfl
    have hparted := htail.closeStream_parted (o := b.run.ledger.outside a) fun y hy ↦ by
      simp [hnext y hy]
    rw [hrun]
    refine ⟨hparted, fun y hy ↦ ?_⟩
    rcases List.mem_append.1 hy with hy | hy
    · exact (closeStream_owes .nothing).of_mem hy
    · exact hnext y hy

theorem run_returned_of_epoch {epoch : Nat} {stack : List Resume} (hu : b.run.Upheld c)
    (hs : b.run.stack = .delivered true epoch :: stack)
    (hhead : b.deliveries.head? = some ⟨e, []⟩)
    (hno : c.closesAtEnd = false ∨ b.run.feed.epoch ≠ epoch) (a : Answers) :
    (b.act (.move a .returned)).run = { b.run with stack } := by
  have hresume : b.run.feed.resume (b.run.ledger.outside a) (.delivered true epoch) =
      b.run.feed.rest := by
    refine if_neg ?_
    rw [hu.settings]
    rcases hno with hno | hno <;> simp [hno]
  rw [run_returned hs hhead, hresume]
  exact Run.take_rest { b.run with stack } .other

theorem Begins.callbacks_play {origin : Origin} (h : Begins c b₀ origin s b) (hn : b.Numbered)
    {acts : List (Act α)} (hhead : (b.play acts).deliveries.head? =
      some ⟨⟨b₀.begun, origin, .snapshot s⟩, []⟩) :
    ∃ later, (b.play acts).callbacks = b₀.callbacks ++ later ∧
      later.filterMap (Callback.of? ⟨b₀.begun, origin, .snapshot s⟩) =
        b₀.bus.audience (.snapshot s) := by
  have hleft : b.Left ⟨b₀.begun, origin, .snapshot s⟩ (b₀.bus.audience (.snapshot s)) :=
    hn.left (h.deliveries ▸ List.mem_cons_self ..)
  obtain ⟨later, rest, hcallbacks, hleft', hrest⟩ := hleft.play hn acts
  have hnil : ([] : List α) = rest := hleft'.waiting _ (List.mem_of_head? hhead) rfl
  refine ⟨later, by rw [hcallbacks, h.callbacks], ?_⟩
  rw [← hrest, ← hnil, List.append_nil]

theorem not_passed_of_head? {waiting : List α} (hhead : b.deliveries.head? = some ⟨e, waiting⟩) :
    ¬ b.Passed e := fun hpassed ↦
  hpassed.events (List.mem_map.2 ⟨_, List.mem_of_head? hhead, rfl⟩)

/-- If the stream is not to end with the job, or the delivery has been disturbed, its end leaves
everything as it is. -/
theorem Within.run_play_returned (h : Within c b₀ e inner b) (hn : b.Numbered)
    (hfresh : e ∉ b₀.events) {acts : List (Act α)}
    (hhead : (b.play acts).deliveries.head? = some ⟨e, []⟩)
    (hno : c.closesAtEnd = false ∨ ¬ b.IsUndisturbed acts) (a : Answers) :
    ((b.play acts).act (.move a .returned)).run =
      { (b.play acts).run with stack := b₀.run.stack } := by
  have hunder := not_passed_of_head? hhead
  have hu' : (b.play acts).run.Upheld c := upheld_play h.upheld acts
  obtain ⟨inner', hwithin⟩ := (h.play hfresh acts).resolve_right hunder
  obtain rfl := hwithin.eq_nil (hn.play acts) hhead
  refine run_returned_of_epoch hu' hwithin.stack hhead ?_ a
  cases hend : c.closesAtEnd with
  | false => exact .inl rfl
  | true =>
    have hdisturbed := hno.resolve_left (by simp [hend])
    obtain ⟨inner', hwithin', hd⟩ :=
      (h.play_disturbed hend hfresh hdisturbed).resolve_right hunder
    obtain rfl := hwithin'.eq_nil (hn.play acts) hhead
    exact .inr (hd.resolve_right List.not_mem_nil).ne'

/-- Who closes channels: somebody who ends the stream; the fresh start or the retirement that is to
follow, when everybody has been told of the end; and the last snapshot of a job, when everybody has
been told of it and nobody has ended the stream since. -/
def Closes (c : Settings) (b : Broadcast α) (x : Act α) : Prop :=
  (∃ a m, x = .move a m ∧ m.isForgetful = true) ∨
    ∃ a d y, x = .move a .returned ∧ b.deliveries.head? = some d ∧ d.waiting = [] ∧
      b.run.stack.head? = some y ∧
      (d.emission.event.isParting = true ∧ y.next.drops = true ∨
        c.closesAtEnd = true ∧ y = .delivered true b.run.feed.epoch ∧
          ∃ s, d.emission.event = .snapshot s ∧ s.isTerminal = true)

theorem Paired.closes (h : b.Paired) (hu : b.run.Upheld c)
    (hx : (b.act x).run.closures ≠ b.run.closures) : Closes c b x := by
  rcases b.act_cases x with ⟨a, m, q, cause, s, rfl, hallows, hm, hmade, -⟩ | ⟨hsame, -⟩
  swap
  · exact absurd hsame.closures hx
  have hawake : b.run.awake.Upheld c := hu
  have hcloses : b.run.awake.closes m = true := by
    by_contra hc
    exact hx (hmade.spares (hawake.spares hm (Bool.eq_false_iff.2 hc)))
  by_cases hreturned : m = .returned
  swap
  · exact .inl ⟨a, m, rfl, (Run.closes_of_ne hreturned).symm.trans hcloses⟩
  subst hreturned
  unfold Paired at h
  cases hs : b.run.stack with
  | nil => simp [Run.closes, Run.awake, hs] at hcloses
  | cons y stack =>
    have hy : y.closes b.run.feed = true := by simpa [Run.closes, Run.awake, hs] using hcloses
    cases hd : b.deliveries with
    | nil => simp [events, hd, hs] at h
    | cons d deliveries =>
      rw [events, hd, hs] at h
      have hfollows : y.Follows d.emission.event := (List.forall₂_cons.1 h).1
      have hwaiting : d.waiting = [] := by
        simpa [allows, hd] using (Bool.and_eq_true_iff.1 hallows).2
      refine .inr ⟨a, d, y, rfl, by rw [hd]; rfl, hwaiting, by rw [hs]; rfl, ?_⟩
      cases y with
      | nothing => cases hy
      | link id r next =>
        have hnext : next ≠ .nothing := by
          rintro rfl
          cases hy
        exact .inl ⟨hfollows.parting hnext, hy⟩
      | delivered terminal epoch =>
        obtain ⟨⟨rfl, hsettings⟩, rfl⟩ : (terminal = true ∧
            b.run.feed.settings.closesAtEnd = true) ∧ b.run.feed.epoch = epoch := by
          simpa [Resume.closes] using hy
        exact .inr ⟨hu.settings ▸ hsettings, rfl, hfollows.ending _ rfl⟩

end Broadcast

open Broadcast

/-- Whatever the subscribers of a feed call, only three things close a channel: a call that ends the
stream, the fresh start or the retirement that follows when everybody has been told of such an end,
and, if the stream is to end with the job, the last snapshot of a job when everybody has been told
of it and nobody has ended the stream since.
When such a snapshot is published, everybody who is registered for it then is told of it, in order,
before its delivery is over. When it is over, the stream is closed if it is to end with the job,
nobody has called for an end meanwhile and no other last snapshot has been published; otherwise
nothing is done, and a connection that somebody has begun meanwhile goes on.
If the stream is closed, nothing has been closed before. The held channel, if there is one, is
closed in the normal way, no alarm is set, the latest snapshot is the last one published, and the
queries made so far have no say any more. Nothing is opened or closed until somebody connects again,
and the progress stays until somebody ends the stream; provided that the snapshot has not come while
the end of a connection was being announced. -/
theorem ends_with_job {α : Type} (c : Settings) (polls : Bool) (now : Int)
    (acts during : List (Act α)) (a a' : Answers) (m : Move) (s : Snapshot) :
    let b := (start c polls now : Broadcast α).play acts
    let e : Emission := ⟨b.begun, m.origin, .snapshot s⟩
    let b₁ := b.act (.move a m)
    let b₂ := b₁.play during
    let b₃ := b₂.act (.move a' .returned)
    (∀ x, (b.act x).run.closures ≠ b.run.closures → Closes c b x) ∧
    (b.published? (.move a m) = some (.snapshot s) → s.isTerminal = true →
      b₂.deliveries.head? = some ⟨e, []⟩ →
      (∃ later, b₂.callbacks = b.callbacks ++ later ∧
        later.filterMap (Callback.of? e) = b.bus.audience (.snapshot s)) ∧
      (c.closesAtEnd = false ∨ ¬ b₁.IsUndisturbed during →
        b₃.run = { b₂.run with stack := b.run.stack }) ∧
      (c.closesAtEnd = true → b₁.IsUndisturbed during →
        b₂.run.closures = b.run.closures ∧
        b₃.run.closures = b.run.closures ++ (b₂.run.feed.channel.map (·, .byOwner)).toList ∧
        b₃.run.IsOver ∧
        b₃.run.feed.latest = (s :: b₁.shown during).getLast? ∧
        (∀ more a'' query answer, query < b₃.run.ledger.queries.length →
          (b₃.play more).act (.move a'' (.answer query answer)) = b₃.play more) ∧
        ((∀ d ∈ b.deliveries, d.emission.event.isParting = false) → ∀ more,
          let b₄ := b₃.play more
          ((∀ a'' m', .move a'' m' ∈ more → m' ≠ .connect ∧ m' ≠ .reconnect) →
            b₄.run.IsOver ∧ b₄.run.ledger.opened = b₃.run.ledger.opened ∧
              b₄.run.closures = b₃.run.closures) ∧
          ((∀ a'' m', .move a'' m' ∈ more → m'.isForgetful = false) →
            b₄.run.feed.latest = (s :: (b₁.shown during ++ b₃.shown more)).getLast?)))) := by
  intro b e b₁ b₂ b₃
  have hu : b.run.Upheld c := upheld_play (Run.upheld_start c polls now) acts
  have hn : b.Numbered := (numbered_start c polls now).play acts
  have hpaired : b.Paired := (paired_start c polls now).play acts
  refine ⟨fun x ↦ hpaired.closes hu, fun hp ht hhead ↦ ?_⟩
  have hbegins : Begins c b m.origin s b₁ := begins_act hu hp ht
  have hfresh : e ∉ b.events := hn.not_mem m.origin (.snapshot s)
  have hn₁ : b₁.Numbered := hn.act _
  have hu₂ : b₂.run.Upheld c := upheld_play (upheld_act hu _) during
  obtain ⟨inner, hwithin, -⟩ := hbegins.calm.within
  refine ⟨hbegins.callbacks_play hn₁ hhead,
    fun hno ↦ hwithin.run_play_returned hn₁ hfresh hhead hno a', fun hend hundisturbed ↦ ?_⟩
  have hcalm := (hbegins.calm.play hfresh hundisturbed).resolve_right (not_passed_of_head? hhead)
  obtain ⟨inner₂, hwithin₂, -⟩ := hcalm.within
  obtain rfl := hwithin₂.eq_nil (hn₁.play during) hhead
  have hs : b₂.run.stack = .delivered true b₂.run.feed.epoch :: b.run.stack := by
    rw [hcalm.epoch]
    exact hwithin₂.stack
  have hends : b₂.Ends b₃ b.run.stack := ends_act hu₂ hs hhead hend a'
  have hu₃ : b₃.run.Upheld c := upheld_act hu₂ _
  have hlatest : b₃.run.feed.latest = (s :: b₁.shown during).getLast? := by
    rw [hends.feed]
    exact hcalm.latest
  refine ⟨hcalm.closures, hcalm.closures ▸ hends.closures, hends.isOver, hlatest,
    fun more a'' query answer hq ↦ act_answer (beyond_play hends.beyond hu₃ more) hq a'' answer,
    fun hquiet more ↦ ?_⟩
  obtain ⟨hparted, hnext⟩ := hends.parted (hpaired.next hquiet)
  refine ⟨fun hmore ↦ ?_, fun hmore ↦ latest_play hnext hlatest hmore⟩
  obtain ⟨hparted₄, hopened, hclosures⟩ := parted_play hparted hu₃ hmore
  exact ⟨hparted₄.isOver (upheld_play hu₃ more), hopened, hclosures⟩

def goodWorld : Answers := ⟨some (utf8 "token"), some true, true⟩

/-- Two subscribers, an open channel, and a query that has yet to be answered. -/
def watchedActs : List (Act Nat) :=
  [.subscribe .snapshot 1, .subscribe .snapshot 2] ++
    [.connect, .returned, .notice 0 .opened, .returned, .refresh].map (.move goodWorld)

def watched : Broadcast Nat :=
  (start { source := utf8 "job", closesAtEnd := true } true 0).play watchedActs

def lastMove : Act Nat := .move {} (.notice 0 (.frame lastFrame))

def lastEmission : Emission := ⟨watched.begun, .channel 0, .snapshot lastSnapshot⟩

def told : Broadcast Nat := (watched.act lastMove).play [.tell, .tell]

def ended : Broadcast Nat := told.act (.move {} .returned)

/-- The first subscriber starts afresh before the second one is told. -/
def freshActs : List (Act Nat) :=
  [.tell] ++ [.reconnect, .returned, .returned].map (.move goodWorld) ++ [.tell]

def afresh : Broadcast Nat := (watched.act lastMove).play freshActs

theorem published?_lastMove : watched.published? lastMove = some (.snapshot lastSnapshot) := by
  decide +kernel

/-- If both subscribers do nothing, the stream is closed when they have been told. If the first one
starts afresh, the connection that has been begun goes on. -/
theorem ends_with_job_watched :
    (told.run.feed.channel = some 0 ∧
      Closes { source := utf8 "job", closesAtEnd := true } told (.move {} .returned) ∧
      ended.run.closures = [(0, .byOwner)] ∧
      (ended.play [.move {} .returned]).act (.move {} (.answer 0 (.ok (some lastSnapshot)))) =
        ended.play [.move {} .returned] ∧
      (ended.play [.move {} .returned]).run.IsOver ∧
      (ended.play [.move {} .returned]).run.feed.latest = some lastSnapshot) ∧
    (afresh.run.feed.channel = some 1 ∧
      (afresh.act (.move {} .returned)).run = { afresh.run with stack := [] }) := by
  obtain ⟨hclosures, hstack, hquiet⟩ : watched.run.closures = [] ∧ watched.run.stack = [] ∧
      ∀ d ∈ watched.deliveries, d.emission.event.isParting = false := by decide +kernel
  obtain ⟨htold, hchannel, hasked, hshown⟩ :
      told.deliveries.head? = some ⟨lastEmission, []⟩ ∧ told.run.feed.channel = some 0 ∧
        0 < ended.run.ledger.queries.length ∧ ended.shown [.move {} .returned] = [] := by
    decide +kernel
  obtain ⟨hafresh, hheld⟩ : afresh.deliveries.head? = some ⟨lastEmission, []⟩ ∧
      afresh.run.feed.channel = some 1 := by decide +kernel
  have htelling : (watched.act lastMove).shown [.tell, .tell] = [] := rfl
  have hundisturbed : (watched.act lastMove).IsUndisturbed [.tell, .tell] := ⟨by simp, nofun⟩
  have hdisturbed : ¬ (watched.act lastMove).IsUndisturbed freshActs := fun h ↦
    (h.1 goodWorld).2 (by simp [freshActs])
  have hmore : ∀ (a : Answers) (m : Move), .move a m ∈ [(.move {} .returned : Act Nat)] →
      m = .returned := by
    intro a m hm
    cases List.mem_singleton.1 hm
    rfl
  have hend := ends_with_job { source := utf8 "job", closesAtEnd := true } true 0 watchedActs
    [.tell, .tell] {} {} (.notice 0 (.frame lastFrame)) lastSnapshot
  dsimp only at hend
  rw [← watched, ← lastMove, ← told, ← ended] at hend
  have hfresh := ends_with_job { source := utf8 "job", closesAtEnd := true } true 0 watchedActs
    freshActs {} {} (.notice 0 (.frame lastFrame)) lastSnapshot
  dsimp only at hfresh
  rw [← watched, ← lastMove, ← afresh] at hfresh
  have hcloser := ends_with_job { source := utf8 "job", closesAtEnd := true } true 0
    (watchedActs ++ [lastMove, .tell, .tell]) [] {} {} .returned lastSnapshot
  dsimp only at hcloser
  rw [play_append, ← watched, play_cons, ← told] at hcloser
  obtain ⟨-, -, hon⟩ := hend.2 published?_lastMove rfl htold
  obtain ⟨hbefore, hafter, -, -, hvain, hrest⟩ := hon rfl hundisturbed
  obtain ⟨hover, hlatest⟩ := hrest hquiet [.move {} .returned]
  obtain ⟨-, hno, -⟩ := hfresh.2 published?_lastMove rfl hafresh
  rw [hclosures, hchannel] at hafter
  rw [hstack] at hno
  rw [htelling, hshown] at hlatest
  refine ⟨⟨hchannel, hcloser.1 (.move {} .returned) ?_, hafter,
    hvain [.move {} .returned] {} 0 (.ok (some lastSnapshot)) hasked, ?_, ?_⟩, hheld,
    hno (.inr hdisturbed)⟩
  · rw [← ended, hafter, hbefore, hclosures]
    exact List.cons_ne_nil _ _
  · refine (hover fun a m hm ↦ ?_).1
    rw [hmore a m hm]
    exact ⟨nofun, nofun⟩
  · refine hlatest fun a m hm ↦ ?_
    rw [hmore a m hm]
    rfl

def failedSnapshot : Snapshot :=
  { source := utf8 "job", phase := .failed, description := Phase.failed.description }

/-- The first subscriber is told of the last snapshot, and lets another one in. -/
def overtakingActs : List (Act Nat) :=
  [.tell, .move {} (.answer 0 (.ok (some failedSnapshot))), .tell, .tell, .move {} .returned,
    .move {} .returned]

/-- The stream is closed on account of the snapshot that came later, before the second subscriber is
told of the earlier one; and the later one stays the latest. -/
theorem last_snapshot_overtaken :
    let nested := (watched.act lastMove).play overtakingActs
    let later := nested.play [.tell, .move {} .returned]
    (watched.published? lastMove = some (.snapshot lastSnapshot) ∧
      lastSnapshot.isTerminal = true ∧ watched.run.feed.settings.closesAtEnd = true ∧
      watched.bus.audience (.snapshot lastSnapshot) = [1, 2] ∧ watched.bus.count .state = 0) ∧
    (nested.run.closures = [(0, .byOwner)] ∧ nested.deliveries = [⟨lastEmission, [2]⟩] ∧
      ⟨lastEmission, 2⟩ ∉ nested.callbacks) ∧
    (later.callbacks.getLast? = some ⟨lastEmission, 2⟩ ∧ later.deliveries = [] ∧
      later.run.feed.latest ≠ some lastSnapshot) := by
  decide +kernel

end ProgressFeed.Feed
