import ProgressFeed.Proofs.Feed.Within

/-!
# While a last snapshot is on its way

While the last snapshot of a job is on its way, those who are told of it may end the stream, and
another last snapshot may come. If neither happens, nothing is closed before the delivery is over.
If one of them does, a new epoch has begun by then.
-/

namespace ProgressFeed.Feed

namespace Broadcast

variable {α : Type} {b₀ b b' : Broadcast α} {c : Settings} {e : Emission} {inner : List Resume}
  {x : Act α} {a : Answers} {m : Move} {s : Step} {q : Run} {cause : Cause}

/-! ## A last snapshot on its way -/

/-- The event, a last snapshot that was published after `b₀`, is on its way, and this is left to do
before its delivery is over. -/
structure Within (c : Settings) (b₀ : Broadcast α) (e : Emission) (inner : List Resume)
    (b : Broadcast α) : Prop where
  upheld : b.run.Upheld c
  begun : e.number < b.begun
  stack : b.run.stack = inner ++ .delivered true b₀.run.feed.epoch :: b₀.run.stack
  events : ∃ within, b.events = within ++ e :: b₀.events ∧ within.length = inner.length
  epoch : b₀.run.feed.epoch ≤ b.run.feed.epoch

structure Passed (e : Emission) (b : Broadcast α) : Prop where
  begun : e.number < b.begun
  events : e ∉ b.events

theorem Passed.act (h : b.Passed e) (x : Act α) : (b.act x).Passed e := by
  rcases b.act_cases x with ⟨a, m, q, cause, s, -, -, -, hmade, -⟩ | ⟨hsame, -, hevents⟩
  · exact ⟨h.begun.trans_le hmade.begun,
      hmade.not_mem_events h.begun fun he ↦ h.events (m.leaves_subset _ he)⟩
  · refine ⟨h.begun.trans_le hsame.begun, fun he ↦ h.events ?_⟩
    rcases hevents with hevents | ⟨-, hevents⟩
    · exact hevents ▸ he
    · exact List.mem_of_mem_tail (hevents ▸ he)

theorem Passed.play (h : b.Passed e) (acts : List (Act α)) : (b.play acts).Passed e := by
  induction acts generalizing b with
  | nil => exact h
  | cons x acts ih => exact ih (h.act x)

theorem Within.made (h : Within c b₀ e inner b) (hu : b'.run.Upheld c)
    (hm : b.run.awake.Makes a m q cause s) (hmade : b.Made b' m s)
    (hne : ¬ (m = .returned ∧ inner = [])) :
    Within c b₀ e (s.pending ++ m.leaves inner) b' := by
  obtain ⟨within, hevents, hlength⟩ := h.events
  have hwithin : ¬ (m = .returned ∧ within = []) := by
    rwa [← List.length_eq_zero_iff, hlength, List.length_eq_zero_iff]
  refine ⟨hu, h.begun.trans_le hmade.begun, ?_,
    ⟨(s.pause.map fun p ↦ ⟨b.begun, m.origin, p.1⟩).toList ++ m.leaves within, ?_, ?_⟩, ?_⟩
  · rw [hmade.stack, h.stack, Move.leaves_append hne, List.append_assoc]
  · rw [hmade.events, hevents, Move.leaves_append hwithin, List.append_assoc]
  · rw [List.length_append, List.length_append, m.length_leaves hlength, Step.pending]
    cases s.pause <;> rfl
  · rw [hmade.feed]
    exact h.epoch.trans hm.epoch_le

theorem Within.same (h : Within c b₀ e inner b) (hu : b'.run.Upheld c) (hsame : b.Same b')
    (hevents : b'.events = b.events) : Within c b₀ e inner b' := by
  obtain ⟨polls, hfeed⟩ := hsame.feed
  refine ⟨hu, h.begun.trans_le hsame.begun, hsame.stack.trans h.stack, ?_, ?_⟩
  · rw [hevents]
    exact h.events
  · rw [hfeed]
    exact h.epoch

theorem Within.act (h : Within c b₀ e inner b) (hfresh : e ∉ b₀.events) (x : Act α) :
    (b.act x).Passed e ∨
    (∃ a m q cause s, x = .move a m ∧ b.allows m = true ∧ b.run.awake.Makes a m q cause s ∧
      b.Made (b.act x) m s ∧ b.published? x = s.pause.map Prod.fst ∧
      ¬ (m = .returned ∧ inner = []) ∧
      Within c b₀ e (s.pending ++ m.leaves inner) (b.act x)) ∨
    b.Same (b.act x) ∧ b.published? x = none ∧ Within c b₀ e inner (b.act x) := by
  have hu := upheld_act h.upheld x
  rcases b.act_cases x with ⟨a, m, q, cause, s, rfl, hallows, hm, hmade, hpublished⟩ |
    ⟨hsame, hnone, hevents⟩
  · by_cases hover : m = .returned ∧ inner = []
    · obtain ⟨rfl, rfl⟩ := hover
      obtain ⟨within, hevents, hlength⟩ := h.events
      obtain rfl := List.length_eq_zero_iff.1 hlength
      have hrest : e ∉ Move.returned.leaves b.events := by
        rw [hevents]
        exact hfresh
      exact .inl ⟨h.begun.trans_le hmade.begun, hmade.not_mem_events h.begun hrest⟩
    · exact .inr (.inl ⟨a, m, q, cause, s, rfl, hallows, hm, hmade, hpublished, hover,
        h.made hu hm hmade hover⟩)
  · rcases hevents with hevents | ⟨hnil, -⟩
    · exact .inr (.inr ⟨hsame, hnone, h.same hu hsame hevents⟩)
    · simp [h.stack] at hnil

theorem Within.play (h : Within c b₀ e inner b) (hfresh : e ∉ b₀.events) (acts : List (Act α)) :
    (∃ inner', Within c b₀ e inner' (b.play acts)) ∨ (b.play acts).Passed e := by
  induction acts generalizing b inner with
  | nil => exact .inl ⟨inner, h⟩
  | cons x acts ih =>
    rcases h.act hfresh x with hpassed | ⟨a, m, q, cause, s, -, -, -, -, -, -, hw⟩ | ⟨-, -, hw⟩
    · exact .inr (hpassed.play acts)
    · exact ih hw
    · exact ih hw

/-! ## Whether the stream is closed meanwhile -/

/-- Somebody ends the stream, or another last snapshot is published. -/
def Disturbs (b : Broadcast α) (x : Act α) : Prop :=
  (∃ a, x = .move a .disconnect ∨ x = .move a .reconnect) ∨
    ∃ t, b.published? x = some (.snapshot t) ∧ t.isTerminal = true

def IsUndisturbed (b : Broadcast α) (acts : List (Act α)) : Prop :=
  (∀ a, .move a .disconnect ∉ acts ∧ .move a .reconnect ∉ acts) ∧
    ∀ t ∈ b.shown acts, t.isTerminal = false

theorem isUndisturbed_nil (b : Broadcast α) : b.IsUndisturbed [] := ⟨by simp, by simp [shown]⟩

theorem snapshot?_eq_some {y : Event} {t : Snapshot} : y.snapshot? = some t ↔ y = .snapshot t := by
  cases y <;> simp [Event.snapshot?]

theorem isUndisturbed_cons {acts : List (Act α)} :
    b.IsUndisturbed (x :: acts) ↔ ¬ b.Disturbs x ∧ (b.act x).IsUndisturbed acts := by
  have hshown : (∀ t ∈ b.shown (x :: acts), t.isTerminal = false) ↔
      (∀ t, b.published? x = some (.snapshot t) → t.isTerminal = false) ∧
        ∀ t ∈ (b.act x).shown acts, t.isTerminal = false := by
    simp only [shown, List.mem_append, Option.mem_toList, Option.bind_eq_some_iff,
      snapshot?_eq_some, exists_eq_right, or_imp, forall_and]
  unfold IsUndisturbed Disturbs
  rw [hshown]
  simp only [List.mem_cons, not_or, not_exists, not_and, Bool.not_eq_true, forall_and,
    @eq_comm (Act α) _ x]
  tauto

theorem closes_eq_false {f : Feed} {y : Resume} (hnext : y.next = .nothing)
    (hend : ∀ epoch, y ≠ .delivered true epoch) : y.closes f = false := by
  cases y with
  | nothing => rfl
  | link id r next =>
    obtain rfl : next = .nothing := hnext
    rfl
  | delivered terminal epoch =>
    cases terminal with
    | false => rfl
    | true => exact absurd rfl (hend epoch)

/-- Nobody has closed the stream since, and nothing that is left to do will. -/
structure Calm (c : Settings) (b₀ : Broadcast α) (e : Emission) (seen : List Snapshot)
    (b : Broadcast α) : Prop where
  within : ∃ inner, Within c b₀ e inner b ∧
    ∀ y ∈ inner, y.next = .nothing ∧ ∀ epoch, y ≠ .delivered true epoch
  epoch : b.run.feed.epoch = b₀.run.feed.epoch
  closures : b.run.closures = b₀.run.closures
  latest : b.run.feed.latest = seen.getLast?

/-- Somebody has closed the stream since, or what is left to do will. -/
def Disturbed (c : Settings) (b₀ : Broadcast α) (e : Emission) (b : Broadcast α) : Prop :=
  ∃ inner, Within c b₀ e inner b ∧
    (b₀.run.feed.epoch < b.run.feed.epoch ∨ .delivered true b₀.run.feed.epoch ∈ inner)

theorem Within.isForgetful_eq_false (h : Within c b₀ e inner b) (hallows : b.allows m = true)
    (hx : ¬ b.Disturbs (.move a m)) : m.isForgetful = false := by
  cases m with
  | disconnect => exact absurd (.inl ⟨a, .inl rfl⟩) hx
  | reconnect => exact absurd (.inl ⟨a, .inr rfl⟩) hx
  | retire => simp [allows, Run.allows, h.stack] at hallows
  | _ => rfl

theorem latest_of_adds {f : Feed} {seen : List Snapshot} (hf : f.latest = seen.getLast?)
    (hadds : s.Adds f.progress) :
    s.feed.latest =
      (seen ++ ((s.pause.map Prod.fst).bind Event.snapshot?).toList).getLast? := by
  have hlatest : s.feed.latest = _ := congrArg Progress.latest hadds
  rw [hlatest]
  cases (s.pause.map Prod.fst).bind Event.snapshot? with
  | none => simpa [Progress.add, progress] using hf
  | some t => simp [Progress.add]

theorem Same.latest (h : b.Same b') : b'.run.feed.latest = b.run.feed.latest := by
  obtain ⟨polls, hfeed⟩ := h.feed
  rw [hfeed]

theorem Within.mem_of_head? (h : Within c b₀ e inner b) (hne : ¬ (m = .returned ∧ inner = []))
    {y : Resume} (hm : m = .returned) (hy : b.run.stack.head? = some y) : y ∈ inner := by
  cases inner with
  | nil => exact absurd ⟨hm, rfl⟩ hne
  | cons z inner =>
    rw [h.stack] at hy
    cases hy
    exact List.mem_cons_self ..

/-- What comes next lies inside the delivery. If nothing in there closes the stream, no move does
but a call that ends it. -/
theorem Within.closes_eq_false (h : Within c b₀ e inner b)
    (hinner : ∀ y ∈ inner, y.next = .nothing ∧ ∀ epoch, y ≠ .delivered true epoch)
    (hne : ¬ (m = .returned ∧ inner = [])) (hforget : m.isForgetful = false) :
    b.run.awake.closes m = false := by
  by_cases hreturned : m = .returned
  · subst hreturned
    cases hs : b.run.stack.head? with
    | none => simp [Run.closes, Run.awake, hs]
    | some y =>
      obtain ⟨hnext, hend⟩ := hinner y (h.mem_of_head? hne rfl hs)
      simpa [Run.closes, Run.awake, hs] using Broadcast.closes_eq_false hnext hend
  · rw [Run.closes_of_ne hreturned, hforget]

theorem Calm.act {seen : List Snapshot} (h : Calm c b₀ e seen b) (hfresh : e ∉ b₀.events)
    (hx : ¬ b.Disturbs x) :
    Calm c b₀ e (seen ++ ((b.published? x).bind Event.snapshot?).toList) (b.act x) ∨
      (b.act x).Passed e := by
  obtain ⟨inner, hw, hinner⟩ := h.within
  rcases hw.act hfresh x with hpassed |
    ⟨a, m, q, cause, s, rfl, hallows, hm, hmade, hpublished, hne, hw'⟩ | ⟨hsame, hnone, hw'⟩
  · exact .inr hpassed
  · have hforget := hw.isForgetful_eq_false hallows hx
    have hawake : b.run.awake.Upheld c := hw.upheld
    have hspares := hawake.spares hm (hw.closes_eq_false hinner hne hforget)
    obtain ⟨howes, hadds⟩ := hm.keeps hforget fun y hr hy ↦
      (hinner y (hw.mem_of_head? hne hr hy)).1
    refine .inl ⟨⟨_, hw', fun y hy ↦ ?_⟩, ?_, ?_, ?_⟩
    · rcases List.mem_append.1 hy with hy | hy
      · refine ⟨howes.of_mem hy, ?_⟩
        -- Another last snapshot would be a disturbance.
        rintro epoch rfl
        obtain ⟨y, hp⟩ := Step.mem_pending.1 hy
        obtain ⟨t, rfl, ht⟩ := hm.snapshot_of_delivered hp
        exact hx (.inr ⟨t, by rw [hpublished, hp]; rfl, ht⟩)
      · exact hinner y (m.leaves_subset _ hy)
    · rw [hmade.feed, hspares.epoch]
      exact h.epoch
    · exact (hmade.spares hspares).trans h.closures
    · rw [hmade.feed, hpublished]
      exact latest_of_adds h.latest hadds
  · obtain ⟨polls, hfeed⟩ := hsame.feed
    refine .inl ⟨⟨inner, hw', hinner⟩, ?_, hsame.closures.trans h.closures, ?_⟩
    · rw [hfeed]
      exact h.epoch
    · rw [hsame.latest, hnone, h.latest]
      simp

theorem Calm.play {seen : List Snapshot} (h : Calm c b₀ e seen b) (hfresh : e ∉ b₀.events)
    {acts : List (Act α)} (hacts : b.IsUndisturbed acts) :
    Calm c b₀ e (seen ++ b.shown acts) (b.play acts) ∨ (b.play acts).Passed e := by
  induction acts generalizing b seen with
  | nil =>
    rw [shown, List.append_nil]
    exact .inl h
  | cons x acts ih =>
    obtain ⟨hx, hacts⟩ := isUndisturbed_cons.1 hacts
    rcases h.act hfresh hx with h | h
    · rw [shown, ← List.append_assoc]
      exact ih h hacts
    · exact .inr (h.play acts)

theorem Made.epoch_le (hmade : b.Made b' m s) (hm : b.run.awake.Makes a m q cause s) :
    b.run.feed.epoch ≤ b'.run.feed.epoch := by
  rw [hmade.feed]
  exact hm.epoch_le

theorem Disturbed.act (h : Disturbed c b₀ e b) (hend : c.closesAtEnd = true)
    (hfresh : e ∉ b₀.events) (x : Act α) :
    Disturbed c b₀ e (b.act x) ∨ (b.act x).Passed e := by
  obtain ⟨inner, hw, hd⟩ := h
  rcases hw.act hfresh x with hpassed |
    ⟨a, m, q, cause, s, rfl, hallows, hm, hmade, -, hne, hw'⟩ | ⟨hsame, -, hw'⟩
  · exact .inr hpassed
  · refine .inl ⟨_, hw', ?_⟩
    by_cases hlt : b₀.run.feed.epoch < b.run.feed.epoch
    · exact .inl (hlt.trans_le (hmade.epoch_le hm))
    have hepoch : b.run.feed.epoch = b₀.run.feed.epoch := (Nat.not_lt.1 hlt).antisymm hw.epoch
    have hmem := hd.resolve_left hlt
    by_cases hstays : .delivered true b₀.run.feed.epoch ∈ m.leaves inner
    · exact .inr (List.mem_append_right _ hstays)
    -- Only what is due now can have been left to do, and then it closes the stream.
    left
    have hreturned : m = .returned := by
      by_contra hm
      exact hstays ((Move.leaves_of_ne hm inner).symm ▸ hmem)
    subst hreturned
    obtain ⟨y, inner, rfl⟩ := List.exists_cons_of_ne_nil (List.ne_nil_of_mem hmem)
    obtain rfl : .delivered true b₀.run.feed.epoch = y :=
      (List.mem_cons.1 hmem).resolve_right hstays
    have hs : s = b.run.feed.closeStream .nothing (b.run.ledger.outside a) := by
      rw [hm.resume hw.stack]
      have hsettings : b.run.feed.settings.closesAtEnd = true := by rw [hw.upheld.settings, hend]
      exact if_pos (by simp [Run.awake, hsettings, hepoch])
    rw [hmade.feed, hs, closeStream_epoch, hepoch]
    exact Nat.lt_succ_self _
  · obtain ⟨polls, hfeed⟩ := hsame.feed
    refine .inl ⟨inner, hw', ?_⟩
    rw [hfeed]
    exact hd

theorem Disturbed.play (h : Disturbed c b₀ e b) (hend : c.closesAtEnd = true)
    (hfresh : e ∉ b₀.events) (acts : List (Act α)) :
    Disturbed c b₀ e (b.play acts) ∨ (b.play acts).Passed e := by
  induction acts generalizing b with
  | nil => exact .inl h
  | cons x acts ih =>
    rcases h.act hend hfresh x with h | h
    · exact ih h
    · exact .inr (h.play acts)

theorem Within.allows_call (h : Within c b₀ e inner b) (hm : m.isCall = true)
    (hne : m ≠ .returned) : b.allows m = true := by
  have hrun : b.run.allows m = true := by
    cases m with
    | retire | notice | advance | answer => cases hm
    | _ => simp [Run.allows, hm, h.stack]
  cases m with
  | returned => exact absurd rfl hne
  | _ => simp [allows, hrun]

/-- Whatever disturbs the delivery of a last snapshot closes the stream, now or when it is over. -/
theorem Within.disturbed (h : Within c b₀ e inner b) (hfresh : e ∉ b₀.events)
    (hx : b.Disturbs x) : Disturbed c b₀ e (b.act x) ∨ (b.act x).Passed e := by
  have hcall : ∀ {a : Answers} {m : Move} {next : Next}, m.isCall = true → m ≠ .returned →
      b.run.awake.Makes a m b.run.awake .other
        (b.run.feed.closeStream next (b.run.ledger.outside a)) →
      Disturbed c b₀ e (b.act (.move a m)) := by
    intro a m next hc hne hm
    obtain ⟨hmade, -⟩ := made_move (h.allows_call hc hne) hm
    have hw := h.made (upheld_move h.upheld a m) hm hmade fun ho ↦ hne ho.1
    refine ⟨_, hw, .inl ?_⟩
    change b₀.run.feed.epoch < (b.move a m).run.feed.epoch
    rw [hmade.feed, closeStream_epoch]
    exact Nat.lt_succ_of_le h.epoch
  rcases hx with ⟨a, rfl | rfl⟩ | ⟨t, hp, ht⟩
  · exact .inl (hcall rfl nofun .disconnect)
  · exact .inl (hcall rfl nofun .reconnect)
  · rcases h.act hfresh x with hpassed |
      ⟨a, m, q, cause, s, rfl, hallows, hm, hmade, hpublished, hne, hw'⟩ | ⟨-, hnone, -⟩
    · exact .inr hpassed
    · obtain ⟨⟨y, z⟩, hpause, hy⟩ := Option.map_eq_some_iff.1 (hpublished.symm.trans hp)
      obtain rfl : y = .snapshot t := hy
      refine .inl ⟨_, hw', ?_⟩
      by_cases hlt : b₀.run.feed.epoch < b.run.feed.epoch
      · exact .inl (hlt.trans_le (hmade.epoch_le hm))
      have hepoch : b.run.feed.epoch = b₀.run.feed.epoch := (Nat.not_lt.1 hlt).antisymm h.epoch
      obtain rfl := hm.delivered_of_snapshot hpause
      refine .inr (List.mem_append_left _ (Step.mem_pending.2 ⟨.snapshot t, ?_⟩))
      rw [hpause, ht, ← hepoch]
      rfl
    · cases hnone.symm.trans hp

theorem Within.play_disturbed (h : Within c b₀ e inner b) (hend : c.closesAtEnd = true)
    (hfresh : e ∉ b₀.events) {acts : List (Act α)} (hacts : ¬ b.IsUndisturbed acts) :
    Disturbed c b₀ e (b.play acts) ∨ (b.play acts).Passed e := by
  induction acts generalizing b inner with
  | nil => exact absurd (isUndisturbed_nil b) hacts
  | cons x acts ih =>
    -- The first disturbance decides; from there on what it has brought about stays.
    by_cases hx : b.Disturbs x
    · rcases h.disturbed hfresh hx with h | h
      · exact h.play hend hfresh acts
      · exact .inr (h.play acts)
    · have hrest : ¬ (b.act x).IsUndisturbed acts := fun hrest ↦
        hacts (isUndisturbed_cons.2 ⟨hx, hrest⟩)
      rcases h.act hfresh x with hpassed | ⟨a, m, q, cause, s, -, -, -, -, -, -, hw'⟩ | ⟨-, -, hw'⟩
      · exact .inr (hpassed.play acts)
      · exact ih hw' hrest
      · exact ih hw' hrest

end Broadcast

end ProgressFeed.Feed
