import ProgressFeed.Proofs.Feed.Unlinked

/-!
# A feed that has been disconnected is as good as new

Whatever has been before, from the owner's `disconnect` on a feed does what a new one does. Its
channels, alarms and queries have other numbers, and it does not mind what those of before still bring.
-/

namespace ProgressFeed

namespace Feed.Run

variable {σ : Shift} {before r' r : Run}

/-- To everybody who looks on, `r'` has done since `before` what `r` has done, which lacks so many
channels and alarms; and its owner and its clock read the same. -/
structure Resembles (channels alarms : Nat) (before r' r : Run) : Prop where
  records : ∃ more, r'.records = before.records ++ more ∧
    more.map (Record.shown 0 0) = r.records.map (Record.shown channels alarms)
  connection : r'.feed.connection = r.feed.connection
  attempts : r'.feed.attempts = r.feed.attempts
  latest : r'.feed.latest = r.feed.latest
  phases : r'.feed.phases = r.feed.phases
  now : r'.ledger.clock.now = r.ledger.clock.now
  alarms : r'.ledger.clock.alarms.map (fun x ↦ (x.id, x.due, x.delay, x.task.shown)) =
    r.ledger.clock.alarms.map fun x ↦ (alarms + x.id, x.due, x.delay, x.task.shown)

theorem alarms_shown (σ : Shift) (c : Clock Task) :
    (σ.clock c).alarms.map (fun x ↦ (x.id, x.due, x.delay, x.task.shown)) =
      c.alarms.map fun x ↦ (σ.alarm + x.id, x.due, x.delay, x.task.shown) := by
  rw [Shift.clock, List.map_map]
  refine List.map_congr_left fun x _ ↦ ?_
  cases ht : x.task <;> simp [Shift.alarmOf, Shift.task, Task.shown, ht]

theorem Unlinked.resembles (h : Unlinked σ before r' r) :
    Resembles σ.channel σ.alarm before r' r where
  records := h.records
  connection := by
    rw [h.idle.connection]
    simp [Feed.connection, h.idle.link]
  attempts := by
    rw [h.idle.attempts]
    simp [Feed.attempts, h.idle.link]
  latest := by rw [h.idle.feed]
  phases := by rw [h.idle.feed]
  now := by
    rw [h.ledger]
    rfl
  alarms := by
    rw [h.ledger]
    exact alarms_shown σ _

theorem Behind.resembles (h : Behind σ before r' r) : Resembles σ.channel σ.alarm before r' r where
  records := h.records
  connection := by rw [h.feed, Shift.connection_feed]
  attempts := by rw [h.feed, Shift.attempts_feed]
  latest := by
    rw [h.feed]
    rfl
  phases := by
    rw [h.feed]
    rfl
  now := by
    rw [h.ledger]
    rfl
  alarms := by
    rw [h.ledger]
    exact alarms_shown σ _

theorem Renewed.resembles {channel alarm : Nat} (h : Renewed channel alarm before r' r) :
    Resembles channel alarm before r' r := by
  rcases h with ⟨σ, rfl, rfl, h⟩ | ⟨σ, rfl, rfl, h⟩
  · exact h.resembles
  · exact h.resembles

/-! ## After a disconnect -/

/-- The owner disconnects while no event is being delivered, and nobody calls the feed before all is
over. -/
theorem play_disconnect (halive : r.isAlive = true) (hstack : r.stack = []) (a a' : Answers) :
    r.play [(a, .disconnect), (a', .returned)] =
      { r with
        feed := r.feed.closed.forget
        ledger := r.ledger.obeyAll (r.feed.stopKeepalive.commands ++ r.feed.farewell)
        records := r.records ++ (r.feed.stopKeepalive.commands ++ r.feed.farewell).map .command ++
          closing r.feed } := by
  have hforget : ∀ o, r.feed.closed.proceed o .forget = r.feed.closed.forget.rest := fun _ ↦ rfl
  simp only [play_cons, play_nil]
  rw [← closeStream_returned hstack hforget (r.ledger.outside a) a']
  congr 1
  simp only [Run.step, Run.ifAlive, halive, if_true, Feed.disconnect]

theorem queries_farewell (f : Feed) (w : Ledger) :
    (w.obeyAll (f.stopKeepalive.commands ++ f.farewell)).queries = w.queries := by
  have hstop : ∀ c ∈ f.stopKeepalive.commands, c.IsOf f.links := by
    cases hk : f.keepalive <;> simp [stopKeepalive, hk, Command.IsOf]
  rw [Ledger.obeyAll_append]
  cases hl : f.link with
  | none => simpa [Feed.farewell, hl] using Ledger.queries_obeyAll hstop
  | some l =>
    simp only [Feed.farewell, hl, Option.elim_some]
    rw [Ledger.queries_obeyAll Link.farewell_isOf, Ledger.queries_obeyAll hstop]

/-- No epoch of before is the one that has just begun, no alarm is left, and whatever link is left is
spent. -/
theorem renewed_disconnect {c : Settings} (hr : r.Upheld c) (halive : r.isAlive = true)
    (hstack : r.stack = []) (a a' : Answers) :
    let q := r.play [(a, .disconnect), (a', .returned)]
    q.ledger.clock.alarms = [] ∧
      Renewed q.ledger.opened.length q.ledger.clock.next q q
        (start c q.feed.polls q.ledger.clock.now) := by
  intro q
  have hq : q.Upheld c := upheld_play hr _
  have hplay : q = _ := play_disconnect halive hstack a a'
  have hfeed : q.feed = r.feed.closed.forget := by rw [hplay]
  have hapart : ∀ l, q.feed.link = some l → ∃ m, r.feed.link = some m ∧ m.apart = l := by
    rw [hfeed]
    exact fun l hl ↦ closed_link hl
  have halarms : q.ledger.clock.alarms = [] := by
    refine hq.alarms_eq_nil (by rw [hfeed]; rfl) fun l hl ↦ ?_
    obtain ⟨m, -, rfl⟩ := hapart l hl
    rfl
  have hqueries : q.ledger.queries = r.ledger.queries := by
    rw [hplay]
    exact queries_farewell r.feed r.ledger
  -- All that has been given out so far is what the shift adds; the links are shifted later.
  refine ⟨halarms, .unlinked ⟨0, fun _ ↦ 0, _, _, q.feed.epoch⟩ rfl rfl
    ⟨⟨rfl, fun e he ↦ ?_, hplay ▸ halive, ?_, hplay ▸ hstack, [], by simp, rfl⟩, ⟨?_, rfl, rfl, rfl, fun l hl ↦ ?_,
      hq.stamps⟩, rfl, rfl, by simp [start]⟩⟩
  · have hle := hr.queries e (hqueries ▸ he)
    rw [hfeed]
    exact Nat.lt_succ_of_le hle
  · have hclock : q.ledger.clock =
        { now := q.ledger.clock.now, next := q.ledger.clock.next, alarms := [] } := by
      rw [← halarms]
    simp [Shift.ledger, Shift.clock, start, ← hclock]
  · simp only [start, ← hq.settings, hfeed]
    rfl
  · obtain ⟨m, hm, rfl⟩ := hapart l hl
    obtain ⟨hid, hsource, hbackoff⟩ := hq.owns _ hl
    refine ⟨rfl, rfl, rfl, rfl, ?_, ?_, hid, (hq.link _ hl).stamped.lt rfl⟩
    · rw [hq.settings, hsource]
    · rw [hq.settings, hbackoff]

end Feed.Run

namespace Feed

open Run

/-- However the feed has come to where it is, if its owner disconnects it while no event is being
delivered, and nobody calls it before all is over, then no alarm is set any more, and whatever happens
from then on, it does what a new feed with the same settings does from the same time on. What channels
opened and queries made before bring makes no difference at all. -/
theorem disconnect_renews (c : Settings) (polls : Bool) (now : Int)
    (history future : List (Answers × Move)) (a a' : Answers)
    (halive : ((start c polls now).play history).isAlive = true)
    (hstack : ((start c polls now).play history).stack = []) :
    let old := ((start c polls now).play history).play [(a, .disconnect), (a', .returned)]
    let new := start c old.feed.polls old.ledger.clock.now
    let channels := old.ledger.opened.length
    let queries := old.ledger.queries.length
    old.stack = [] ∧ old.ledger.clock.alarms = [] ∧
      Resembles channels old.ledger.clock.next old (old.play future)
        (new.play (future.filterMap fun x ↦ (x.2.later? channels queries).map (x.1, ·))) ∧
      ∀ b m, m.later? channels queries = none → (old.play future).step b m = old.play future := by
  intro old new channels queries
  have hu : ((start c polls now).play history).Upheld c :=
    upheld_play (upheld_start c polls now) history
  have hrest : old.stack = [] := by
    rw [show old = _ from play_disconnect halive hstack a a']
    exact hstack
  obtain ⟨halarms, hnew⟩ := renewed_disconnect hu halive hstack a a'
  have hfuture := hnew.play future
  exact ⟨hrest, halarms, hfuture.resembles, fun b m hm ↦ hfuture.step_stale b hm⟩

/-- A channel is opened and heard of, and the status is asked for. -/
def busyMoves : List (Answers × Move) :=
  [.connect, .returned, .notice 0 .opened, .returned, .refresh].map
    (⟨some (utf8 "token"), some true, true⟩, ·)

/-- The same after a disconnect, while the first channel and the first query still have their say. -/
def lateMoves : List (Answers × Move) :=
  [.connect, .notice 0 (.failed []), .returned, .notice 1 .opened, .answer 0 (.ok none), .returned,
    .refresh].map (⟨some (utf8 "token"), some true, true⟩, ·)

def busyRun : Run := (start { source := utf8 "job" } true 0).play busyMoves

theorem disconnect_renews_busy :
    busyRun.isAlive = true ∧ busyRun.stack = [] ∧
      let old := busyRun.play [({}, .disconnect), ({}, .returned)]
      Resembles 1 1 old (old.play lateMoves) busyRun ∧
        ((old.play lateMoves).step {} (.notice 0 .opened)) = old.play lateMoves := by
  have halive : busyRun.isAlive = true := rfl
  have hstack : busyRun.stack = [] := rfl
  obtain ⟨-, -, hresembles, hstale⟩ :=
    disconnect_renews { source := utf8 "job" } true 0 busyMoves lateMoves {} {} halive hstack
  exact ⟨halive, hstack, hresembles, hstale {} (.notice 0 .opened) rfl⟩

end Feed

end ProgressFeed
