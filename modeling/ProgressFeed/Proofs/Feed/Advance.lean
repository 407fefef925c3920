import ProgressFeed.Proofs.Feed.Schedule
import ProgressFeed.Proofs.Feed.Wait

/-!
# Advances of the clock come to an end

The alarms that ring while the clock goes on set others that may be due by then as well. But a
connection spends the time that is left on signs of life, and without a connection every retry
spends an attempt, so that in the end no alarm is due any more.
-/

namespace ProgressFeed

theorem Ledger.length_alarms_obeyAll (w : Ledger) (commands : List Command) :
    (w.obeyAll commands).clock.alarms.length ≤
      w.clock.alarms.length + (commands.filterMap Command.delay?).length := by
  induction commands generalizing w with
  | nil => exact Nat.le_refl _
  | cons d commands ih =>
    have hrest := ih (w.obey d)
    rw [obeyAll_cons]
    cases d with
    | setAlarm alarm delay task =>
      simp only [obey, Clock.set, List.length_append, List.length_cons, List.length_nil,
        List.filterMap_cons, Command.delay?] at hrest ⊢
      omega
    | stopAlarm alarm =>
      have hstop : (w.clock.stop alarm).alarms.length ≤ w.clock.alarms.length :=
        List.length_filter_le ..
      simp only [obey, List.filterMap_cons, Command.delay?] at hrest ⊢
      omega
    | create | «open» | close | send | fetch => exact hrest

/-- An alarm that is taken is due. -/
theorem Clock.due_le {τ : Type} {c c' : Clock τ} {x : Clock.Alarm τ} {target : Int}
    (h : c.takeDue? target = some (x, c')) : x.due ≤ target := by
  obtain ⟨y, hy, he⟩ := Option.map_eq_some_iff.1 h
  obtain ⟨rfl, -⟩ := Prod.mk.inj he
  simpa using (List.mem_filter.1 (earliest_mem hy)).2

namespace Link

theorem Step.weight_pending_le (s : Step) : burden Resume.weight s.pending ≤ 4 := by
  cases hp : s.pause with
  | none => simp [pending, hp, burden]
  | some p =>
    obtain ⟨call, x⟩ := p
    cases x <;> simp [pending, hp, burden, Resume.weight]

end Link

namespace Feed

variable {c : Settings} {f : Feed} {o : Outside} {l : Link}

/-! ## A feed without a connection -/

/-- Only a link has something to do when the event has been delivered. -/
def Resume.IsOfLink (x : Resume) : Prop := ∃ id y, x = .link id y .nothing

theorem pending_follow (s : Link.Step) :
    (f.follow s o).pending = s.pending.map (.link s.link.id · .nothing) := by
  cases hp : s.pause with
  | none => simp [follow, adopt, Step.after, Step.pending, Link.Step.pending, hp, rest]
  | some p =>
    obtain ⟨call, x⟩ := p
    cases call <;>
      simp [follow, adopt, relay, publish, Step.after, Step.pending, Link.Step.pending, hp]

theorem weight_follow (s : Link.Step) :
    burden Resume.weight (f.follow s o).pending = burden Link.Resume.weight s.pending := by
  rw [pending_follow]
  cases hp : s.pause <;> simp [Link.Step.pending, hp, burden, Resume.weight]

theorem delays_stopKeepalive : f.stopKeepalive.commands.filterMap Command.delay? = [] := by
  cases hk : f.keepalive <;> simp [stopKeepalive, hk, Command.delay?]

/-- Without a new connection no alarm is set but the one that the link sets. -/
theorem delays_follow {s : Link.Step} (hs : s.Falls l.state) (hl : l.state ≠ .connected) :
    (f.follow s o).commands.filterMap Command.delay? = s.delays := by
  have hoff : s.link.state ≠ .connected := fun h ↦ hl (hs.off h)
  have ht := hs.turns
  unfold Link.Step.Turns at ht
  cases hp : s.pause with
  | none => simp [follow, adopt, Step.after, hp, rest, Link.Step.delays]
  | some p =>
    obtain ⟨call, x⟩ := p
    cases call with
    | fault e => simp [follow, adopt, relay, publish, Step.after, hp, Link.Step.delays]
    | state was now =>
      simp only [Link.Step.change?, hp, Option.bind_some, Link.Call.change?] at ht
      have hnow : now ≠ .connected := ht.2.1.trans_ne hoff
      simp [follow, adopt, relay, publish, Step.after, hp, hnow, Link.Step.delays,
        delays_stopKeepalive]

/-- There is still no connection, only the link has something left to do, and the alarm that is set,
if any, is paid for with an attempt. -/
structure Step.Retries (s : Step) (f : Feed) : Prop where
  off : s.feed.connection ≠ .connected
  pending : ∀ x ∈ s.pending, x.IsOfLink
  pays : (s.commands.filterMap Command.delay?).length + f.attempts ≤ s.feed.attempts

theorem rest_retries (h : f.connection ≠ .connected) : f.rest.Retries f :=
  ⟨h, List.forall_mem_nil _, (Nat.zero_add _).le⟩

theorem follow_retries (hl : f.link = some l) {s : Link.Step} (hs : s.Falls l.state)
    (hof : s.IsOf l) (hc : f.connection ≠ .connected) : (f.follow s o).Retries f := by
  have hstate : l.state ≠ .connected := by simpa [connection, hl] using hc
  obtain ⟨keepalive, hfeed⟩ := follow_keeps f s o
  refine ⟨?_, ?_, ?_⟩
  · have hoff : s.link.state ≠ .connected := fun h ↦ hstate (hs.off h)
    simpa [hfeed, connection] using hoff
  · rw [pending_follow]
    exact List.forall_mem_map.2 fun y _ ↦ ⟨_, y, rfl⟩
  · rw [delays_follow hs hstate]
    rcases hof.delays with ⟨hd, ha⟩ | ⟨hd, ha, -⟩ <;>
      simp only [hfeed, attempts, hl, hd, Option.elim_some, List.length_nil,
        List.length_singleton] <;> omega

theorem resume_retries {x : Resume} (hx : x.IsOfLink) (hc : f.connection ≠ .connected) :
    (f.resume o x).Retries f := by
  obtain ⟨id, y, rfl⟩ := hx
  simp only [resume]
  split
  · exact rest_retries hc
  · rename_i l hlink
    have hl := (linkOf?_eq_some.1 hlink).1
    exact follow_retries hl (Link.resume_falls y) (Link.resume_isOf o y) hc

theorem resume_weight {x : Resume} (hx : x.IsOfLink) :
    burden Resume.weight (f.resume o x).pending < x.weight := by
  obtain ⟨id, y, rfl⟩ := hx
  simp only [resume]
  split
  · exact Resume.weight_pos _
  · rename_i l hlink
    have hlt := Link.resume_weight l o y
    exact (weight_follow (f := f) (l.resume o y)).trans_lt hlt

theorem rang_retries (hc : f.connection ≠ .connected) (alarm id : Nat) :
    (f.rang alarm o (.reopen id)).Retries f ∧
      burden Resume.weight (f.rang alarm o (.reopen id)).pending ≤ 4 := by
  simp only [rang]
  split
  · exact ⟨rest_retries hc, Nat.zero_le 4⟩
  · rename_i l hlink
    have hl := (linkOf?_eq_some.1 hlink).1
    refine ⟨follow_retries hl (Link.rang_falls alarm) (Link.rang_isOf o alarm) hc, ?_⟩
    exact (weight_follow (f := f) (l.rang alarm o)).trans_le (Link.Step.weight_pending_le _)

namespace Run

variable {r : Run} {a : Answers} {m : Move} {s : Step} {target : Int} {n : Nat}
  {y : Clock.Alarm Task} {clock : Clock Task}

/-! ## Retries -/

theorem Upheld.attempts_le (h : r.Upheld c) : r.feed.attempts ≤ c.backoff.maxAttempts := by
  cases hl : r.feed.link with
  | none => simp [attempts, hl]
  | some l =>
    have hle := (h.link l hl).sound.attempts
    rw [(h.owns l hl).2.2] at hle
    simpa [attempts, hl] using hle

/-- The alarm that rings is the only one there is. -/
theorem Ticking.alarms_of_due (h : r.Ticking c)
    (hdue : r.ledger.clock.takeDue? target = some (y, clock)) :
    r.ledger.clock.alarms = [y] ∧ clock = { r.ledger.clock with now := y.due, alarms := [] } := by
  obtain ⟨z, hz, he⟩ := Option.map_eq_some_iff.1 hdue
  obtain ⟨rfl, rfl⟩ := Prod.mk.inj he
  have hmem : z ∈ r.ledger.clock.alarms := (List.mem_filter.1 (Clock.earliest_mem hz)).1
  have hone : r.ledger.clock.alarms.length = 1 :=
    h.length_alarms.antisymm (List.length_pos_of_mem hmem)
  obtain ⟨z', hz'⟩ := List.length_eq_one_iff.1 hone
  rw [hz', List.mem_singleton] at hmem
  subst hmem
  exact ⟨hz', by simp [Clock.stop, hz']⟩

/-- There is no connection and at most `n` alarms are to ring: the one that is set, and one for every
attempt that is left. -/
structure Retrying (c : Settings) (n : Nat) (r : Run) : Prop where
  ticking : r.Ticking c
  isAlive : r.isAlive = true
  off : r.feed.connection ≠ .connected
  links : ∀ x ∈ r.stack, x.IsOfLink
  left : r.ledger.clock.alarms.length + c.backoff.maxAttempts ≤ n + r.feed.attempts

theorem Retrying.take {q : Run} (hq : (q.take .other s).Ticking c) (hl : q.isAlive = true)
    (hlinks : ∀ x ∈ q.stack, x.IsOfLink) (hs : s.Retries q.feed)
    (hleft : q.ledger.clock.alarms.length + c.backoff.maxAttempts ≤ n + q.feed.attempts) :
    (q.take .other s).Retrying c n := by
  refine ⟨hq, hl, hs.off, List.forall_mem_append.2 ⟨hs.pending, hlinks⟩, ?_⟩
  have hset := Ledger.length_alarms_obeyAll q.ledger s.commands
  have hpays := hs.pays
  simp only [Run.take]
  omega

theorem Retrying.returned (h : r.Retrying c n) {x : Resume} {stack : List Resume}
    (hs : r.stack = x :: stack) (a : Answers) :
    (r.live a .returned).Retrying c n ∧ (r.live a .returned).weight < r.weight := by
  have h' := h.ticking.live a .returned
  have hx : x.IsOfLink := h.links x (by simp [hs])
  rw [live_returned hs] at h' ⊢
  refine ⟨Retrying.take h' h.isAlive ?_ (resume_retries hx h.off) h.left, ?_⟩
  · intro y hy
    exact h.links y (hs ▸ List.mem_cons_of_mem x hy)
  · have hlt := resume_weight (f := r.feed) (o := r.ledger.outside a) hx
    simp only [weight, Run.take, hs, burden_append, burden]
    omega

theorem Retrying.task (h : r.Retrying c n) (hy : y ∈ r.ledger.clock.alarms) :
    ∃ id, y.task = .reopen id := by
  have hne : y.task ≠ .keepalive := by
    intro ht
    exact h.off (h.ticking.keepalive_iff.1 (h.ticking.mem_keepalive.1 ⟨y, hy, ht⟩)).1
  obtain ⟨l, -, htask, -⟩ := h.ticking.of_mem_alarms hy hne
  exact ⟨l.id, htask⟩

/-- The alarm that rings is gone, and another one costs an attempt. -/
theorem Retrying.rang (h : r.Retrying c n) (hs : r.stack = [])
    (hdue : r.ledger.clock.takeDue? target = some (y, clock)) :
    ∃ m, n = m + 1 ∧ ∀ a, (r.live a (.advance target)).Retrying c m ∧
      (r.live a (.advance target)).weight ≤ 4 := by
  obtain ⟨halarms, rfl⟩ := h.ticking.alarms_of_due hdue
  obtain ⟨id, htask⟩ := h.task (y := y) (by simp [halarms])
  have hleft := h.left
  have hle := h.ticking.upheld.attempts_le
  rw [halarms, List.length_singleton] at hleft
  refine ⟨n - 1, by omega, fun a ↦ ?_⟩
  have h' := h.ticking.live a (.advance target)
  obtain ⟨hretries, hweight⟩ := rang_retries (f := r.feed) (o := r.ledger.outside a) h.off y.id id
  rw [live_rang h.isAlive hdue, htask] at h' ⊢
  refine ⟨Retrying.take h' h.isAlive h.links hretries ?_, ?_⟩
  · simp only [List.length_nil]
    omega
  · simpa [weight, Run.take, hs] using hweight

theorem Retrying.limits (c : Settings) (target : Int) :
    Limits target (∃ id, · = .reopen id) (Retrying c) where
  isAlive h := h.isAlive
  returned h hs a := h.returned hs a
  rang := by
    intro n r y clock h hs hdue
    have hmem : y ∈ r.ledger.clock.alarms := by simp [(h.ticking.alarms_of_due hdue).1]
    exact ⟨h.task hmem, h.rang hs hdue⟩
  still := by
    intro n r h hs hdue a
    have h' := h.ticking.live a (.advance target)
    rw [live_still h.isAlive hdue] at h' ⊢
    exact ⟨h', h.isAlive, h.off, h.links, h.left⟩

theorem Ticking.retrying (h : r.Ticking c) (hl : r.isAlive = true) (hs : r.stack = [])
    (hc : r.feed.connection ≠ .connected) :
    r.Retrying c (c.backoff.maxAttempts - r.feed.attempts + 1) := by
  have hone := h.length_alarms
  have hle := h.upheld.attempts_le
  exact ⟨h, hl, hc, by simp [hs], by omega⟩

/-! ## Signs of life -/

theorem Ticking.sender_live (h : r.Ticking c) (hc : r.feed.connection = .connected)
    (hc' : (r.live a m).feed.connection = .connected) :
    (r.live a m).feed.sender? = r.feed.sender? := by
  by_cases hm : r.allows m = true
  swap
  · rw [live_of_not_allows hm]
  have hu : r.awake.Upheld c := h.upheld
  rw [live_of_allows hm] at hc' ⊢
  by_cases hmakes : ∃ q cause s, r.awake.Makes a m q cause s
  · obtain ⟨q, cause, s, hmakes⟩ := hmakes
    rw [hmakes.step rfl] at hc' ⊢
    rcases hmakes.keepsTime hu with hk | ⟨-, alarm, o, rfl⟩
    · exact hk.sender hc hc'
    · have hbeat : (r.feed.beat alarm o).feed.link = r.feed.link := by
        rw [beat_of_connected hc]
        exact startKeepalive_link
      exact sender?_congr hbeat
  · obtain ⟨polls, hfeed⟩ := feed_of_idle (r := r.awake) rfl hmakes
    exact sender?_congr (by rw [hfeed]; rfl)

/-- Over a connection that can send the next sign of life is scheduled. -/
def Paced (c : Settings) (r : Run) : Prop :=
  ∀ i, r.feed.sender? = some i → ∃ since, r.Scheduled c.keepalive i since

theorem Ticking.paced_live (h : r.Ticking c) (hpos : 0 < c.keepalive) (hr : r.Paced c)
    (a : Answers) (m : Move) : (r.live a m).Paced c := by
  intro i hs
  have hc' := connection_of_sender? hs
  by_cases hc : r.feed.connection = .connected
  · obtain ⟨since, hscheduled⟩ := hr i ((h.sender_live hc hc').symm.trans hs)
    rcases h.scheduled_next hpos hscheduled hc' with ⟨-, hnext⟩ | ⟨-, -, hnext⟩ <;>
      exact ⟨_, hnext⟩
  · exact ⟨_, h.scheduled_opened hpos hc hs⟩

theorem Ticking.paced_liveAll (h : r.Ticking c) (hpos : 0 < c.keepalive) (hr : r.Paced c)
    (moves : List (Answers × Move)) : (r.liveAll moves).Paced c := by
  induction moves generalizing r with
  | nil => exact hr
  | cons x moves ih => exact ih (h.live x.1 x.2) (h.paced_live hpos hr x.1 x.2)

/-- There is a connection and at most `n` alarms are to ring: at most `n` intervals end by the
target. -/
structure Beating (c : Settings) (target : Int) (n : Nat) (r : Run) : Prop where
  ticking : r.Ticking c
  isAlive : r.isAlive = true
  stack : r.stack = []
  connected : r.feed.connection = .connected
  left : ∀ y ∈ r.ledger.clock.alarms, 0 < c.keepalive ∧ ∃ i since,
    r.Scheduled c.keepalive i since ∧ target < since + (n + 1) * c.keepalive

/-- The alarm that rings ends an interval, and the next one is set for the end of the next. -/
theorem Beating.rang (h : r.Beating c target n)
    (hdue : r.ledger.clock.takeDue? target = some (y, clock)) :
    ∃ m, n = m + 1 ∧ ∀ a, (r.live a (.advance target)).Beating c target m := by
  have hmem : y ∈ r.ledger.clock.alarms := by simp [(h.ticking.alarms_of_due hdue).1]
  obtain ⟨hpos, i, since, hscheduled, hleft⟩ := h.left y hmem
  have hreached : since + c.keepalive ≤ target := hscheduled.due y hmem ▸ Clock.due_le hdue
  obtain ⟨k, rfl⟩ : ∃ k, n = k + 1 := by
    refine Nat.exists_eq_succ_of_ne_zero ?_
    rintro rfl
    simp only [Int.natCast_zero, Int.zero_add, Int.one_mul] at hleft
    omega
  refine ⟨k, rfl, fun a ↦ ?_⟩
  have hm : r.allows (.advance target) = true := by simp [allows, h.isAlive]
  obtain ⟨-, hnow, hlive⟩ := h.ticking.live_of_rings hpos hscheduled hm hdue a
  have hnext : (r.live a (.advance target)).Scheduled c.keepalive i (since + c.keepalive) := by
    rcases h.ticking.scheduled_advance hpos hscheduled a target with ⟨-, hsame⟩ | ⟨-, -, hnext⟩
    · -- The clock has got to the end of the interval, so it is not still to come.
      have hearly := hsame.early
      rw [hlive] at hearly
      exact absurd hnow (Int.ne_of_lt hearly)
    · exact hnext
  refine ⟨h.ticking.live a _, by rw [hlive, h.isAlive], by rw [hlive, h.stack],
    connection_of_sender? hnext.sender, fun _ _ ↦ ⟨hpos, i, _, hnext, ?_⟩⟩
  rw [Int.natCast_succ, Int.add_mul (k + 1), Int.one_mul] at hleft
  omega

theorem Beating.still (h : r.Beating c target n)
    (hdue : r.ledger.clock.takeDue? target = none) (a : Answers) :
    (r.live a (.advance target)).Beating c target n := by
  have h' := h.ticking.live a (.advance target)
  rw [live_still h.isAlive hdue] at h' ⊢
  refine ⟨h', h.isAlive, h.stack, h.connected, fun y hy ↦ ?_⟩
  obtain ⟨hpos, i, since, hscheduled, hleft⟩ := h.left y hy
  have hearly : target < since + c.keepalive := by
    by_contra hle
    refine Clock.takeDue?_ne_none hy ?_ hdue
    rw [hscheduled.due y hy]
    exact Int.not_lt.1 hle
  exact ⟨hpos, i, since, ⟨hscheduled.sender, hscheduled.due, hearly⟩, hleft⟩

theorem Beating.limits (c : Settings) (target : Int) :
    Limits target (· = .keepalive) (Beating c target) where
  isAlive h := h.isAlive
  returned := by
    intro n r x stack h hs
    simp [h.stack] at hs
  rang := by
    intro n r y clock h hs hdue
    have hmem : y ∈ r.ledger.clock.alarms := by simp [(h.ticking.alarms_of_due hdue).1]
    obtain ⟨m, hm, hnext⟩ := h.rang hdue
    refine ⟨h.ticking.task_of_connected h.connected hmem, m, hm, fun a ↦ ⟨hnext a, ?_⟩⟩
    -- Signs of life are not published, so nothing is left to do after them.
    simp [weight, (hnext a).stack, burden]
  still h _ hdue a := h.still hdue a

/-- So many signs of life may become due, whenever the last one was sent. -/
theorem Ticking.beating (h : r.Ticking c) (hl : r.isAlive = true) (hs : r.stack = [])
    (hc : r.feed.connection = .connected) (hr : 0 < c.keepalive → r.Paced c) {d : Int}
    (hd : 0 ≤ d) :
    r.Beating c (r.ledger.clock.now + d)
      (if 0 < c.keepalive then (d / c.keepalive).toNat + 1 else 0) := by
  refine ⟨h, hl, hs, hc, fun y hy ↦ ?_⟩
  have htask := h.task_of_connected hc hy
  obtain ⟨-, ⟨e, he, hduplex⟩, hpos⟩ := h.keepalive_iff.1 (h.mem_keepalive.1 ⟨y, hy, htask⟩)
  have hsender : r.feed.sender? = some e.id := sender?_eq_some.2 ⟨hc, e, he, hduplex, rfl⟩
  obtain ⟨since, hscheduled⟩ := hr hpos e.id hsender
  refine ⟨hpos, e.id, since, hscheduled, ?_⟩
  have hearly := hscheduled.early
  have hwhole := Int.lt_ediv_add_one_mul_self d hpos
  have hnonneg : 0 ≤ d / c.keepalive := Int.ediv_nonneg hd (Int.le_of_lt hpos)
  rw [if_pos hpos, Int.natCast_succ, Int.toNat_of_nonneg hnonneg, Int.add_mul (_ + 1), Int.one_mul]
  omega

end Run

open Run

/-- Whatever state a feed has got into, with whatever settings: when the clock goes on while nobody
calls the feed and no channel gives notice, it gets there, whatever the tokens and the channels are
that the feed gets meanwhile, and whether or not it gets any. Over a connection only signs of life
become due on the way, at most one for every whole interval and one more, and none if they are not
to be sent. Without a connection only retries become due, at most one for every attempt that is left
and one more, even if there is no wait between them. -/
theorem advance_ends (c : Settings) (polls : Bool) (now : Int) (history : List (Answers × Move))
    (hl : ((start c polls now).liveAll history).isAlive = true)
    (hs : ((start c polls now).liveAll history).stack = []) {d : Int} (hd : 0 ≤ d) :
    let r := (start c polls now).liveAll history
    let target := r.ledger.clock.now + d
    (∃ turns, ∀ answers : List Answers, turns ≤ answers.length →
      (r.wait target answers).IsThrough target) ∧
    ∀ answers : List Answers,
      let rung := r.rung target answers
      (r.feed.connection = .connected →
        (∀ t ∈ rung, t = .keepalive) ∧
        (0 < c.keepalive → (rung.length : Int) ≤ d / c.keepalive + 1) ∧
        (c.keepalive ≤ 0 → rung = [])) ∧
      (r.feed.connection ≠ .connected →
        (∀ t ∈ rung, ∃ id, t = .reopen id) ∧
        rung.length + r.feed.attempts ≤ c.backoff.maxAttempts + 1) := by
  intro r target
  have hstart : (start c polls now).Ticking c := ticking_start c polls now
  have h : r.Ticking c := hstart.liveAll history
  by_cases hc : r.feed.connection = .connected
  · have hpaced (hpos : 0 < c.keepalive) : r.Paced c :=
      hstart.paced_liveAll hpos (fun i hi ↦ by simp [start, sender?] at hi) history
    have hbeating := h.beating hl hs hc hpaced hd
    refine ⟨⟨_, fun answers ↦ (Beating.limits c target).isThrough hbeating⟩,
      fun answers ↦ ⟨fun _ ↦ ?_, fun hoff ↦ absurd hc hoff⟩⟩
    obtain ⟨hall, hle⟩ := (Beating.limits c target).rung_le hbeating answers
    refine ⟨hall, fun hpos ↦ ?_, fun hneg ↦ ?_⟩
    · have hnonneg : 0 ≤ d / c.keepalive := Int.ediv_nonneg hd (Int.le_of_lt hpos)
      rw [if_pos hpos] at hle
      omega
    · rw [if_neg (Int.not_lt.2 hneg)] at hle
      exact List.eq_nil_of_length_eq_zero (Nat.le_zero.1 hle)
  · have hretrying := h.retrying hl hs hc
    refine ⟨⟨_, fun answers ↦ (Retrying.limits c target).isThrough hretrying⟩,
      fun answers ↦ ⟨fun hon ↦ absurd hon hc, fun _ ↦ ?_⟩⟩
    obtain ⟨hall, hle⟩ := (Retrying.limits c target).rung_le hretrying answers
    have hattempts := h.upheld.attempts_le
    exact ⟨hall, by omega⟩

/-- Two retries with no wait between them, and never a channel: both are due at once. -/
theorem advance_ends_exhausted :
    let c : Settings := { source := utf8 "job", backoff := { maxAttempts := 2, base := 0 } }
    let refused : Answers := { token := some (utf8 "token") }
    let history := [.connect, .returned, .returned, .returned].map (refused, ·)
    let r := (start c false 0).liveAll history
    (∃ turns, ∀ answers : List Answers, turns ≤ answers.length → (r.wait 0 answers).IsThrough 0) ∧
      (∀ answers : List Answers, (r.rung 0 answers).length + 1 ≤ 2 + 1) ∧
      r.rung 0 (List.replicate 10 refused) = [.reopen 0, .reopen 0] := by
  intro c refused history r
  obtain ⟨hends, hrung⟩ := advance_ends c false 0 history (by decide +kernel) (by decide +kernel)
    (d := 0) (Int.le_refl 0)
  refine ⟨hends, fun answers ↦ ?_, by decide +kernel⟩
  have hattempts : r.feed.attempts = 1 := by decide +kernel
  have hle := ((hrung answers).2 (by decide +kernel)).2
  rwa [hattempts] at hle

end Feed

end ProgressFeed
