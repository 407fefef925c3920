import ProgressFeed.Proofs.Feed.Fresh
import ProgressFeed.Proofs.Feed.Pace
import ProgressFeed.Proofs.Feed.Trail

/-!
# The schedule of the signs of life

An alarm rings at its own time, however far the clock is to go. So over a connection that can send
the signs of life are sent at whole intervals from its beginning, one at each that is reached.
-/

namespace ProgressFeed.Feed

variable {c : Settings}

/-- A sign of life that has been sent because its time had come. -/
structure Beat where
  time : Int
  channel : Nat
  payload : Bytes
deriving DecidableEq, Repr

/-- So many signs of life over a channel, at whole intervals since a time. -/
def schedule (channel : Nat) (interval since : Int) (count : Nat) : List Beat :=
  (List.range count).map fun i : Nat ↦ ⟨since + (i + 1) * interval, channel, keepalivePayload⟩

theorem schedule_succ (channel : Nat) (interval since : Int) (count : Nat) :
    schedule channel interval since (count + 1) =
      ⟨since + interval, channel, keepalivePayload⟩ ::
        schedule channel interval (since + interval) count := by
  have htime : ∀ i : Int,
      since + (i + 1 + 1) * interval = since + interval + (i + 1) * interval := by
    intro i
    rw [Int.add_mul (i + 1), Int.one_mul]
    omega
  simp [schedule, List.range_succ_eq_map, List.map_map, Function.comp_def, htime]

namespace Run

variable {r q : Run} {a : Answers} {m : Move} {cause : Cause} {s : Step} {i : Nat}
  {interval since : Int}

@[simp] theorem liveAll_nil (r : Run) : r.liveAll [] = r := rfl

/-- The signs of life that are sent at the move because an alarm rings. -/
def beats (r : Run) (a : Answers) : Move → List Beat
  | .advance target =>
    let r' := r.live a (.advance target)
    (r'.sent.drop r.sent.length).map fun x ↦ ⟨r'.ledger.clock.now, x.1, x.2⟩
  | _ => []

def beatsAll (r : Run) : List (Answers × Move) → List Beat
  | [] => []
  | x :: moves => r.beats x.1 x.2 ++ (r.live x.1 x.2).beatsAll moves

theorem beats_of_ne (h : ∀ target, m ≠ .advance target) : r.beats a m = [] := by
  cases m with
  | advance target => exact absurd rfl (h target)
  | _ => rfl

theorem beats_of_sent {target : Int} {signs : List (Nat × Bytes)}
    (h : (r.live a (.advance target)).sent = r.sent ++ signs) :
    r.beats a (.advance target) =
      signs.map fun x ↦ ⟨(r.live a (.advance target)).ledger.clock.now, x.1, x.2⟩ := by
  simp [beats, h]

theorem beats_of_quiet {target : Int} (h : (r.live a (.advance target)).sent = r.sent) :
    r.beats a (.advance target) = [] := by
  simp [beats, h]

theorem Ticking.mem_beats (h : r.Ticking c) {x : Beat} (hx : x ∈ r.beats a m) :
    r.feed.connection = .connected ∧ r.feed.channel = some x.channel := by
  cases m with
  | advance target =>
    obtain ⟨signs, hsent, hsigns⟩ := h.sent_live a (.advance target)
    rw [beats_of_sent hsent] at hx
    obtain ⟨y, hy, rfl⟩ := List.mem_map.1 hx
    exact ⟨(hsigns y hy).1, (hsigns y hy).2.1⟩
  | _ => cases hx

theorem Ticking.beats_of_off (h : r.Ticking c) (hc : r.feed.connection ≠ .connected) :
    r.beats a m = [] :=
  List.eq_nil_iff_forall_not_mem.2 fun _ hx ↦ hc (h.mem_beats hx).1

/-! ## A connection that lasts -/

/-- Signs of life are sent over the channel, and the next one is due an interval after the time. -/
structure Scheduled (r : Run) (interval : Int) (channel : Nat) (since : Int) : Prop where
  sender : r.feed.sender? = some channel
  due : ∀ x ∈ r.ledger.clock.alarms, x.due = since + interval
  early : r.ledger.clock.now < since + interval

theorem Ticking.task_of_connected (h : r.Ticking c) (hc : r.feed.connection = .connected)
    {x : Clock.Alarm Task} (hx : x ∈ r.ledger.clock.alarms) : x.task = .keepalive := by
  by_contra ht
  obtain ⟨-, -, -, hs⟩ := h.of_mem_alarms hx ht
  simp [hc] at hs

theorem Ticking.alarm_of_sender (h : r.Ticking c) (hpos : 0 < c.keepalive)
    (hs : r.feed.sender? = some i) : ∃ x ∈ r.ledger.clock.alarms, x.task = .keepalive := by
  obtain ⟨hc, d, hd, hduplex, -⟩ := sender?_eq_some.1 hs
  exact h.mem_keepalive.2 (h.keepalive_iff.2 ⟨hc, ⟨d, hd, hduplex⟩, hpos⟩)

/-- An alarm for a sign of life apart, the step that the feed makes keeps time. -/
theorem Makes.keepsTime (hm : r.Makes a m q cause s) (hu : r.Upheld c) :
    s.KeepsTime r.feed ∨ (∃ target, m = .advance target) ∧ ∃ alarm o, s = r.feed.beat alarm o := by
  cases hm with
  | connect => exact .inl connect_keepsTime
  | disconnect => exact .inl (closeStream_keepsTime .forget)
  | reconnect => exact .inl (closeStream_keepsTime .startOver)
  | retire => exact .inl (closeStream_keepsTime .retire)
  | frame hi frame => exact .inl (Feed.Upheld.notice_keepsTime hu hi _)
  | notice hi hn => exact .inl (Feed.Upheld.notice_keepsTime hu hi _)
  | @rang target x clock hdue =>
    cases htask : x.task with
    | keepalive => exact .inr ⟨⟨target, rfl⟩, _, _, rfl⟩
    | reopen id =>
      left
      simp only [Feed.rang]
      split
      · exact rest_keepsTime
      · rename_i l hlink
        exact follow_keepsTime (linkOf?_eq_some.1 hlink).1 (Link.rang_falls _).turns
          (Link.rang_isMute _) (Link.rang_isOf _ _).commands
  | answer hq answer => exact .inl (polled_keepsTime _ answer)
  | @returned x stack hs =>
    have hstack : r.feed.Upheld c r.ledger (x :: stack) := hs ▸ hu
    exact .inl hstack.resume_keepsTime

theorem Makes.mem_alarms (hm : r.Makes a m q cause s) {x : Clock.Alarm Task}
    (hx : x ∈ q.ledger.clock.alarms) : x ∈ r.ledger.clock.alarms := by
  cases hm with
  | frame => split at hx <;> exact hx
  | rang hdue =>
    obtain ⟨y, hy, he⟩ := Option.map_eq_some_iff.1 hdue
    obtain ⟨rfl, rfl⟩ := Prod.mk.inj he
    exact (List.mem_filter.1 hx).1
  | connect | disconnect | reconnect | retire | notice | answer | returned => exact hx

theorem Makes.now (hm : r.Makes a m q cause s) (hne : ∀ target, m ≠ .advance target) :
    q.ledger.clock.now = r.ledger.clock.now := by
  cases hm with
  | frame => split <;> rfl
  | rang hdue => exact absurd rfl (hne _)
  | connect | disconnect | reconnect | retire | notice | answer | returned => rfl

/-- When the feed makes no step and time does not go on, the clock stays as it is. -/
theorem clock_of_idle (hl : r.isAlive = true) (hidle : ¬ ∃ q cause s, r.Makes a m q cause s)
    (hne : ∀ target, m ≠ .advance target) : (r.step a m).ledger.clock = r.ledger.clock := by
  cases m with
  | connect => exact absurd ⟨_, _, _, .connect⟩ hidle
  | disconnect => exact absurd ⟨_, _, _, .disconnect⟩ hidle
  | reconnect => exact absurd ⟨_, _, _, .reconnect⟩ hidle
  | retire => exact absurd ⟨_, _, _, .retire⟩ hidle
  | advance target => exact absurd rfl (hne target)
  | keepalive =>
    simp only [Run.step, ifAlive, hl, if_true, note, give]
    unfold sendKeepalive Link.send
    split
    · rfl
    · split <;> rfl
  | refresh =>
    simp only [Run.step, ifAlive, hl, if_true, give]
    unfold Feed.refresh
    split <;> rfl
  | setPolls polls => simp [Run.step, ifAlive, hl]
  | notice j n =>
    cases hj : r.ledger.opened[j]? with
    | none => simp [Run.step, hj]
    | some stamp =>
      cases n with
      | frame frame => exact absurd ⟨_, _, _, .frame hj frame⟩ hidle
      | opened | failed | closed => exact absurd ⟨_, _, _, .notice hj (by simp)⟩ hidle
  | answer query answer =>
    cases hq : r.ledger.queries[query]? with
    | none => simp [Run.step, hq]
    | some epoch => exact absurd ⟨_, _, _, .answer hq answer⟩ hidle
  | returned =>
    cases hs : r.stack with
    | nil => simp [Run.step, hs]
    | cons x stack => exact absurd ⟨_, _, _, .returned hs⟩ hidle

theorem feed_of_idle (hl : r.isAlive = true) (hidle : ¬ ∃ q cause s, r.Makes a m q cause s) :
    ∃ polls, (r.step a m).feed = { r.feed with polls } := by
  rcases step_cases hl a m with hm | hm
  · exact absurd hm hidle
  · exact hm.feed

/-- Whatever comes over a connection that lasts, only an alarm has a say in the schedule. -/
theorem Ticking.scheduled_live (h : r.Ticking c) (hs : r.Scheduled c.keepalive i since)
    (hne : ∀ target, m ≠ .advance target) (hc : (r.live a m).feed.connection = .connected) :
    (r.live a m).Scheduled c.keepalive i since := by
  by_cases hm : r.allows m = true
  swap
  · rw [live_of_not_allows hm]
    exact hs
  have hu : r.awake.Upheld c := h.upheld
  have h' : (r.live a m).Ticking c := h.live a m
  have hconnected : r.feed.connection = .connected := connection_of_sender? hs.sender
  rw [live_of_allows hm] at hc h' ⊢
  by_cases hmakes : ∃ q cause s, r.awake.Makes a m q cause s
  · obtain ⟨q, cause, s, hmakes⟩ := hmakes
    rw [hmakes.step rfl] at hc h' ⊢
    rcases hmakes.keepsTime hu with hk | ⟨⟨target, hm⟩, -⟩
    · refine ⟨(hk.sender hconnected hc).trans hs.sender, fun x hx ↦ ?_, ?_⟩
      · rcases Ledger.mem_keepalive_obeyAll hx (h'.task_of_connected hc hx) with hx | ⟨delay, hd, -⟩
        · exact hs.due x (hmakes.mem_alarms hx)
        · exact absurd hconnected (hk.intervals delay hd).2
      · have hnow : (q.ledger.obeyAll s.commands).clock.now = r.ledger.clock.now :=
          (Ledger.now_obeyAll q.ledger s.commands).trans (hmakes.now hne)
        exact hnow ▸ hs.early
    · exact absurd hm (hne target)
  · obtain ⟨polls, hfeed⟩ := feed_of_idle (r := r.awake) rfl hmakes
    have hclock : (r.awake.step a m).ledger.clock = r.ledger.clock :=
      clock_of_idle (r := r.awake) rfl hmakes hne
    refine ⟨?_, ?_, ?_⟩
    · exact (sender?_congr (by rw [hfeed]; rfl)).trans hs.sender
    · rw [hclock]
      exact hs.due
    · rw [hclock]
      exact hs.early

/-- A connection that can send begins a schedule. -/
theorem Ticking.scheduled_opened (h : r.Ticking c) (hpos : 0 < c.keepalive)
    (hoff : r.feed.connection ≠ .connected) (hs : (r.live a m).feed.sender? = some i) :
    (r.live a m).Scheduled c.keepalive i (r.live a m).ledger.clock.now := by
  refine ⟨hs, fun x hx ↦ ?_, by omega⟩
  have hc : (r.live a m).feed.connection = .connected := connection_of_sender? hs
  have ht : x.task = .keepalive := (h.live a m).task_of_connected hc hx
  by_cases hm : r.allows m = true
  swap
  · rw [live_of_not_allows hm] at hc
    exact absurd hc hoff
  have hu : r.awake.Upheld c := h.upheld
  rw [live_of_allows hm] at hc hx ⊢
  by_cases hmakes : ∃ q cause s, r.awake.Makes a m q cause s
  · obtain ⟨q, cause, s, hmakes⟩ := hmakes
    rw [hmakes.step rfl] at hc hx ⊢
    rcases hmakes.keepsTime hu with hk | ⟨-, alarm, o, rfl⟩
    · rcases Ledger.mem_keepalive_obeyAll hx ht with hx | ⟨delay, hd, hdue⟩
      · -- Without a connection no such alarm was set.
        have hkeep := h.mem_keepalive.1 ⟨x, hmakes.mem_alarms hx, ht⟩
        exact absurd (h.keepalive_iff.1 hkeep).1 hoff
      · have hset : r.feed.settings = c := h.upheld.settings
        have hdelay : delay = c.keepalive :=
          (hk.intervals delay hd).1.trans (congrArg Settings.keepalive hset)
        have hnow : (q.ledger.obeyAll s.commands).clock.now = q.ledger.clock.now :=
          Ledger.now_obeyAll q.ledger s.commands
        rw [hdue, hdelay]
        exact congrArg (· + c.keepalive) hnow.symm
    · have hbeat : r.awake.feed.beat alarm o = (r.feed.rung alarm).rest := beat_of_ne hoff alarm o
      rw [hbeat] at hc
      exact absurd hc hoff
  · obtain ⟨polls, hfeed⟩ := feed_of_idle (r := r.awake) rfl hmakes
    simp only [hfeed] at hc
    exact absurd hc hoff

/-- The only alarm rings: a sign of life is sent, and the next alarm is set. -/
theorem Ticking.live_of_rings (h : r.Ticking c) (hpos : 0 < c.keepalive)
    (hs : r.Scheduled c.keepalive i since) {target : Int} (hm : r.allows (.advance target) = true)
    {x : Clock.Alarm Task} {clock : Clock Task}
    (hdue : r.ledger.clock.takeDue? target = some (x, clock)) (a : Answers) :
    clock.alarms = [] ∧ clock.now = since + c.keepalive ∧
      r.live a (.advance target) = { r with
        feed := { r.feed with keepalive := some clock.next }
        ledger := { r.ledger with clock := clock.set c.keepalive .keepalive }
        records := r.records ++ [.command (.send i keepalivePayload),
          .command (.setAlarm clock.next c.keepalive .keepalive)] } := by
  obtain ⟨y, hy, he⟩ := Option.map_eq_some_iff.1 hdue
  obtain ⟨rfl, rfl⟩ := Prod.mk.inj he
  have hmem : y ∈ r.ledger.clock.alarms := (List.mem_filter.1 (Clock.earliest_mem hy)).1
  have htask := h.task_of_connected (connection_of_sender? hs.sender) hmem
  have hsettings : r.feed.settings = c := h.upheld.settings
  have halarms : r.ledger.clock.alarms = [y] := by
    have hone : r.ledger.clock.alarms.length = 1 :=
      h.length_alarms.antisymm (List.length_pos_of_mem hmem)
    obtain ⟨z, hz⟩ := List.length_eq_one_iff.1 hone
    rw [hz, List.mem_singleton] at hmem
    rw [hz, hmem]
  have hkeep : r.feed.keepalive = some y.id := by
    have hfor := Clock.mem_setFor.2 ⟨y, hmem, htask, rfl⟩
    rwa [h.upheld.keepalive, Option.mem_toList] at hfor
  refine ⟨by simp [Clock.stop, halarms], hs.due y hmem, ?_⟩
  have hbeat := fun o ↦ beat_of_sender (o := o) hs.sender hkeep (hsettings ▸ hpos)
  simp only [live_of_allows hm, Run.step, awake, hdue, htask, rang, hbeat]
  simp [take, Step.records, Step.pending, Ledger.obey, Ledger.outside, hsettings, Clock.stop]

/-- Over a connection that can send the clock goes on to before the next sign of life is due, or
just until it is. -/
theorem Ticking.scheduled_advance (h : r.Ticking c) (hpos : 0 < c.keepalive)
    (hs : r.Scheduled c.keepalive i since) (a : Answers) (target : Int) :
    let r' := r.live a (.advance target)
    r.beats a (.advance target) = [] ∧ r'.Scheduled c.keepalive i since ∨
      r.beats a (.advance target) = [⟨since + c.keepalive, i, keepalivePayload⟩] ∧
        r'.ledger.clock.now = since + c.keepalive ∧
        r'.Scheduled c.keepalive i (since + c.keepalive) := by
  intro r'
  by_cases hm : r.allows (.advance target) = true
  swap
  · have hr' : r' = r := live_of_not_allows hm
    exact .inl ⟨beats_of_quiet (congrArg sent hr'), hr' ▸ hs⟩
  cases hdue : r.ledger.clock.takeDue? target with
  | none =>
    have hr' : r' = { r with
        ledger := { r.ledger with clock := { r.ledger.clock with now := target } } } := by
      simp [r', live_of_allows hm, Run.step, awake, hdue]
    have hearly : target < since + c.keepalive := by
      by_contra hle
      obtain ⟨x, hx, -⟩ := h.alarm_of_sender hpos hs.sender
      refine Clock.takeDue?_ne_none hx ?_ hdue
      rw [hs.due x hx]
      exact Int.not_lt.1 hle
    have hquiet : r'.sent = r.sent := by rw [hr', sent, sent]
    exact .inl ⟨beats_of_quiet hquiet, hr' ▸ ⟨hs.sender, hs.due, hearly⟩⟩
  | some p =>
    obtain ⟨x, clock⟩ := p
    obtain ⟨hnil, hnow, hr'⟩ := h.live_of_rings hpos hs hm hdue a
    right
    refine ⟨?_, ?_, ?_⟩
    · have hsent : r'.sent = r.sent ++ [(i, keepalivePayload)] := by
        simp [r', hr', sent, Record.payload?, Record.command?, Command.payload?]
      rw [beats_of_sent hsent, hr']
      simp [Clock.set, hnow]
    · simpa [r', hr', Clock.set] using hnow
    · refine ⟨?_, ?_, ?_⟩
      · exact (sender?_congr (by simp [r', hr'])).trans hs.sender
      · simp [r', hr', Clock.set, hnil, hnow]
      · simp only [r', hr', Clock.set, hnow]
        omega

/-- What a move does over a connection that lasts: the schedule goes on, or its next sign of life is
sent. -/
theorem Ticking.scheduled_next (h : r.Ticking c) (hpos : 0 < c.keepalive)
    (hs : r.Scheduled c.keepalive i since) (hc : (r.live a m).feed.connection = .connected) :
    r.beats a m = [] ∧ (r.live a m).Scheduled c.keepalive i since ∨
      r.beats a m = [⟨since + c.keepalive, i, keepalivePayload⟩] ∧
        (r.live a m).ledger.clock.now = since + c.keepalive ∧
        (r.live a m).Scheduled c.keepalive i (since + c.keepalive) := by
  by_cases hm : ∃ target, m = .advance target
  · obtain ⟨target, rfl⟩ := hm
    exact h.scheduled_advance hpos hs a target
  · have hne : ∀ target, m ≠ .advance target := fun target he ↦ hm ⟨target, he⟩
    exact .inl ⟨beats_of_ne hne, h.scheduled_live hs hne hc⟩

/-- The move that ends a connection sends no sign of life. -/
theorem Ticking.beats_of_lost (h : r.Ticking c) (hpos : 0 < c.keepalive)
    (hs : r.Scheduled c.keepalive i since) (hc : (r.live a m).feed.connection ≠ .connected) :
    r.beats a m = [] := by
  refine beats_of_ne ?_
  rintro target rfl
  rcases h.scheduled_advance hpos hs a target with ⟨-, hs'⟩ | ⟨-, -, hs'⟩ <;>
    exact hc (connection_of_sender? hs'.sender)

theorem first_le (hpos : 0 < interval) (since : Int) (k : Nat) :
    since + interval ≤ since + (k + 1) * interval := by
  have hone : (1 : Int) ≤ (k : Int) + 1 := by omega
  have hle := Int.mul_le_mul_of_nonneg_right hone (Int.le_of_lt hpos)
  omega

/-- As long as the connection lasts the schedule is kept, up to the latest time that the clock has
shown. -/
theorem Ticking.beatsAll_eq (h : r.Ticking c) (hpos : 0 < c.keepalive)
    (hs : r.Scheduled c.keepalive i since) (moves : List (Answers × Move))
    (hc : ∀ n, (r.liveAll (moves.take n)).feed.connection = .connected) :
    ∃ count : Nat, r.beatsAll moves = schedule i c.keepalive since count ∧
      (∀ k : Nat, k < count ↔ ∃ n,
        since + (k + 1) * c.keepalive ≤ (r.liveAll (moves.take n)).ledger.clock.now) ∧
      ∃ since', (r.liveAll moves).Scheduled c.keepalive i since' := by
  induction moves generalizing r since with
  | nil =>
    refine ⟨0, rfl, fun k ↦ iff_of_false (Nat.not_lt_zero k) ?_, since, hs⟩
    rintro ⟨n, hn⟩
    rw [List.take_nil, liveAll_nil] at hn
    have hfirst := first_le hpos since k
    have hearly := hs.early
    omega
  | cons x moves ih =>
    have hlater : ∀ n, ((r.live x.1 x.2).liveAll (moves.take n)).feed.connection = .connected :=
      fun n ↦ hc (n + 1)
    have hreached : ∀ k : Nat, (∃ n, since + (k + 1) * c.keepalive ≤
          (r.liveAll ((x :: moves).take n)).ledger.clock.now) ↔
        ∃ n, since + (k + 1) * c.keepalive ≤
          ((r.live x.1 x.2).liveAll (moves.take n)).ledger.clock.now := by
      intro k
      refine ⟨fun ⟨n, hn⟩ ↦ ?_, fun ⟨n, hn⟩ ↦ ⟨n + 1, hn⟩⟩
      cases n with
      | zero =>
        have hfirst := first_le hpos since k
        have hearly := hs.early
        rw [List.take_zero, liveAll_nil] at hn
        omega
      | succ n => exact ⟨n, hn⟩
    rcases h.scheduled_next hpos hs (hlater 0) with ⟨hnone, hs'⟩ | ⟨hone, hnow, hs'⟩
    · obtain ⟨count, hbeats, hcount, hlast⟩ := ih (h.live x.1 x.2) hs' hlater
      refine ⟨count, ?_, fun k ↦ (hcount k).trans (hreached k).symm, hlast⟩
      rw [beatsAll, hnone, hbeats, List.nil_append]
    · obtain ⟨count, hbeats, hcount, hlast⟩ := ih (h.live x.1 x.2) hs' hlater
      refine ⟨count + 1, ?_, fun k ↦ ?_, hlast⟩
      · rw [beatsAll, hone, hbeats, schedule_succ, List.singleton_append]
      rw [hreached]
      cases k with
      | zero =>
        refine iff_of_true (Nat.succ_pos count) ⟨0, ?_⟩
        rw [List.take_zero, liveAll_nil, hnow]
        omega
      | succ k =>
        have htime : since + ((k + 1 : Nat) + 1) * c.keepalive =
            since + c.keepalive + (k + 1) * c.keepalive := by
          rw [Int.natCast_succ, Int.add_mul (k + 1), Int.one_mul]
          omega
        rw [htime, Nat.succ_lt_succ_iff]
        exact hcount k

/-! ## A connection that is over -/

/-- The channel has been held, and is not held any more. -/
structure HasLetGo (r : Run) (channel : Nat) : Prop where
  made : channel < r.ledger.opened.length
  released : r.feed.channel ≠ some channel

theorem Upheld.opened_le (h : r.Upheld c) (a : Answers) (m : Move) :
    r.ledger.opened.length ≤ (r.live a m).ledger.opened.length := by
  by_cases hm : r.allows m = true
  · have hawake : r.awake.Upheld c := h
    rw [live_of_allows hm]
    exact (hawake.traffic rfl a m).count_le
  · rw [live_of_not_allows hm]

/-- A channel that has been let go is never held again. -/
theorem HasLetGo.live (hg : r.HasLetGo i) (h : r.Upheld c) (a : Answers) (m : Move) :
    (r.live a m).HasLetGo i := by
  by_cases hm : r.allows m = true
  swap
  · rw [live_of_not_allows hm]
    exact hg
  have hawake : r.awake.Upheld c := h
  have ht := hawake.traffic rfl a m
  refine ⟨hg.made.trans_le (h.opened_le a m), fun hheld ↦ ?_⟩
  rw [live_of_allows hm] at hheld
  rcases (ht.held_iff.1 hheld).1 with hheld | hmade
  · exact hg.released hheld
  · exact absurd hg.made (Nat.not_lt.2 (ht.le_of_made hmade))

theorem HasLetGo.channel_ne (hg : r.HasLetGo i) (h : r.Ticking c)
    (moves : List (Answers × Move)) : ∀ x ∈ r.beatsAll moves, x.channel ≠ i := by
  induction moves generalizing r with
  | nil => nofun
  | cons y moves ih =>
    intro x hx
    rcases List.mem_append.1 hx with hx | hx
    · rintro rfl
      exact hg.released (h.mem_beats hx).2
    · exact ih (hg.live h.upheld y.1 y.2) (h.live y.1 y.2) x hx

theorem Upheld.channel_of_disconnected (h : r.Upheld c)
    (hc : r.feed.connection = .disconnected) : r.feed.channel = none := by
  cases hl : r.feed.link with
  | none => simp [channel, hl]
  | some l =>
    have hs : l.state = .disconnected := by simpa [connection, hl] using hc
    simp [channel, hl, (h.link l hl).sound.disconnected hs]

/-- The move that ends a connection lets go of its channel. -/
theorem Ticking.channel_of_lost (h : r.Ticking c) (hc : r.feed.connection = .connected)
    (hlost : (r.live a m).feed.connection ≠ .connected) : (r.live a m).feed.channel = none := by
  have h' := h.live a m
  rcases h.upheld.live_changes h.lasting a m with
    ⟨-, -, x, -, hx⟩ | ⟨hover, -⟩ | ⟨-, -, -, hgone⟩
  · cases x with
    | none => exact absurd (hx.trans hc) hlost
    | some x =>
      obtain ⟨was, now⟩ := x
      obtain ⟨rfl, rfl, hcan⟩ := hx
      refine h'.upheld.channel_of_disconnected ?_
      rw [hc] at hcan
      cases hnow : (r.live a m).feed.connection with
      | disconnected => rfl
      | connecting | connected =>
        rw [hnow] at hcan
        cases hcan
  · -- A fresh start drops the link without a word, and the fresh one has no channel yet.
    obtain ⟨rfl, x, stack, hs, hnext⟩ := exists_of_isOvertaken hover
    exact (live_startOver hs (h.lasting.orderly x (by simp [hs])) hnext a).2.1
  · exact channel_eq_none (h'.lasting.link_of_gone hgone)

theorem Ticking.hasLetGo_of_lost (h : r.Ticking c) (hs : r.feed.sender? = some i)
    (hlost : (r.live a m).feed.connection ≠ .connected) : (r.live a m).HasLetGo i := by
  have hmade : i < r.ledger.opened.length := h.upheld.lt_of_channel (channel_of_sender? hs)
  have hfree := h.channel_of_lost (connection_of_sender? hs) hlost
  exact ⟨hmade.trans_le (h.upheld.opened_le a m), by simp [hfree]⟩

/-- Without a connection no sign of life is sent. -/
theorem Ticking.beatsAll_of_off (h : r.Ticking c) (moves : List (Answers × Move))
    (hc : ∀ n, (r.liveAll (moves.take n)).feed.connection ≠ .connected) :
    r.beatsAll moves = [] := by
  induction moves generalizing r with
  | nil => rfl
  | cons x moves ih =>
    rw [beatsAll, h.beats_of_off (hc 0), ih (h.live x.1 x.2) fun n ↦ hc (n + 1), List.append_nil]

/-- With the move there is a connection where there was none, over a channel that can send. -/
structure Opens (r : Run) (a : Answers) (m : Move) (channel : Nat) : Prop where
  before : r.feed.connection ≠ .connected
  after : (r.live a m).feed.connection = .connected
  sends : ∃ d,
    (r.live a m).feed.link.bind Link.channel = some d ∧ d.isDuplex = true ∧ d.id = channel

end Run

open Run

/-- In every life of a feed that is to send signs of life, from the moment at which a connection
opens over a channel that can send, and as long as it lasts: whatever comes meanwhile, whether or not
what is sent is taken, and in whatever steps the clock goes on, the signs of life that it brings about
are sent over this channel at whole intervals since that moment, one at each that the clock has
reached, and none at any other time. When the connection is over none is sent any more, neither on
this channel ever nor on any other until there is a connection again, from which the schedule then
starts. -/
theorem beats_on_schedule {c : Settings} (hpos : 0 < c.keepalive) (polls : Bool) (now : Int)
    (before during : List (Answers × Move)) (a : Answers) (m : Move) {i : Nat}
    (hopens : ((start c polls now).liveAll before).Opens a m i)
    (hlasts : ∀ n, ((((start c polls now).liveAll before).live a m).liveAll
      (during.take n)).feed.connection = .connected) :
    let opened := ((start c polls now).liveAll before).live a m
    let last := opened.liveAll during
    (∃ count : Nat,
      opened.beatsAll during = schedule i c.keepalive opened.ledger.clock.now count ∧
      ∀ k : Nat, k < count ↔ ∃ n, opened.ledger.clock.now + (k + 1) * c.keepalive ≤
        (opened.liveAll (during.take n)).ledger.clock.now) ∧
    ∀ a' m', (last.live a' m').feed.connection ≠ .connected →
      last.beats a' m' = [] ∧
      ∀ rest, (∀ x ∈ (last.live a' m').beatsAll rest, x.channel ≠ i) ∧
        ((∀ n, ((last.live a' m').liveAll (rest.take n)).feed.connection ≠ .connected) →
          (last.live a' m').beatsAll rest = []) := by
  intro opened last
  have hstart : ((start c polls now).liveAll before).Ticking c :=
    (ticking_start c polls now).liveAll before
  have hopened : opened.Ticking c := hstart.live a m
  have hlast : last.Ticking c := hopened.liveAll during
  have hsender : opened.feed.sender? = some i := sender?_eq_some.2 ⟨hopens.after, hopens.sends⟩
  have hs := hstart.scheduled_opened hpos hopens.before hsender
  obtain ⟨count, hbeats, hcount, since, hscheduled⟩ := hopened.beatsAll_eq hpos hs during hlasts
  refine ⟨⟨count, hbeats, hcount⟩, fun a' m' hlost ↦ ?_⟩
  have hover : (last.live a' m').Ticking c := hlast.live a' m'
  have hgone : (last.live a' m').HasLetGo i := hlast.hasLetGo_of_lost hscheduled.sender hlost
  exact ⟨hlast.beats_of_lost hpos hscheduled hlost, fun rest ↦
    ⟨hgone.channel_ne hover rest, hover.beatsAll_of_off rest⟩⟩

/-- A connection that opens at 5 with an interval of 10. Nothing that is sent is taken, the owner
sends a sign of life itself, and the clock is moved past two intervals at once. -/
theorem beats_on_schedule_refused :
    let c : Settings := { source := utf8 "job", keepalive := 10 }
    let answered : Answers := ⟨some (utf8 "token"), some true, false⟩
    let before := [.connect, .returned, .advance 5].map (answered, ·)
    let during := [.returned, .advance 28, .keepalive, .advance 28, .advance 28].map (answered, ·)
    let opened := ((start c false 0).liveAll before).live answered (.notice 0 .opened)
    (∃ count : Nat, opened.beatsAll during = schedule 0 10 5 count ∧
      ∀ k : Nat, k < count ↔ ∃ n, 5 + (k + 1) * 10 ≤
        (opened.liveAll (during.take n)).ledger.clock.now) ∧
      opened.beatsAll during = [⟨15, 0, keepalivePayload⟩, ⟨25, 0, keepalivePayload⟩] := by
  intro c answered before during opened
  have hopens : ((start c false 0).liveAll before).Opens answered (.notice 0 .opened) 0 :=
    ⟨by decide +kernel, by decide +kernel, ⟨0, true⟩, by decide +kernel, rfl, rfl⟩
  have hlasts : ∀ n, (opened.liveAll (during.take n)).feed.connection = .connected := by
    intro n
    rcases Nat.lt_or_ge n during.length with hn | hn
    · have hshort : ∀ n < during.length,
          (opened.liveAll (during.take n)).feed.connection = .connected := by decide +kernel
      exact hshort n hn
    · rw [List.take_of_length_le hn]
      decide +kernel
  have hnow : opened.ledger.clock.now = 5 := by decide +kernel
  obtain ⟨count, hbeats, hcount⟩ := (beats_on_schedule (by decide) false 0 before during answered
    (.notice 0 .opened) hopens hlasts).1
  refine ⟨⟨count, hbeats.trans (by rw [hnow]), fun k ↦ (hcount k).trans (by rw [hnow])⟩, ?_⟩
  decide +kernel

end ProgressFeed.Feed
