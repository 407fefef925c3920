import ProgressFeed.Proofs.Feed.Past
import ProgressFeed.Proofs.Traffic

/-!
# What a move comes to

At a move the feed makes one step, or it idles: then it stays as it is, apart from the leave to ask
for the status, and gives at most commands that concern no channel.
-/

namespace ProgressFeed.Feed

variable {f : Feed} {o : Outside}

theorem sendKeepalive_isAside : ∀ d ∈ (f.sendKeepalive o).2, d.IsAside := by
  unfold sendKeepalive Link.send
  split
  · simp
  · split <;> simp [Command.IsAside]

theorem refresh_isAside : ∀ d ∈ f.refresh, d.IsAside := by
  unfold refresh
  split <;> simp [Command.IsAside]

namespace Run

variable {r q : Run} {a : Answers} {m : Move} {cause : Cause} {s : Step}

theorem queries_grow (w : Ledger) (commands : List Command) :
    w.queries <+: (w.obeyAll commands).queries := by
  induction commands generalizing w with
  | nil => exact List.prefix_refl _
  | cons d commands ih =>
    refine List.IsPrefix.trans ?_ (ih (w.obey d))
    cases d with
    | fetch source epoch => exact List.prefix_append _ _
    | create | «open» | close | send | setAlarm | stopAlarm => exact List.prefix_refl _

/-- At the move the feed makes the step, and `q` is the run as the step finds it. -/
inductive Makes (r : Run) (a : Answers) : Move → Run → Cause → Step → Prop
  | connect : Makes r a .connect r .other (r.feed.connect (r.ledger.outside a))
  | disconnect : Makes r a .disconnect r .other (r.feed.disconnect (r.ledger.outside a))
  | reconnect : Makes r a .reconnect r .other (r.feed.reconnect (r.ledger.outside a))
  | retire :
    Makes r a .retire { r with isAlive := false } .other (r.feed.retire (r.ledger.outside a))
  | frame {i : Nat} {stamp : Stamp} (hi : r.ledger.opened[i]? = some stamp)
    (frame : Channel.Frame) :
    Makes r a (.notice i (.frame frame))
      (if r.feed.channel = some i then r.note (.frame frame) else r) .frame
      (r.feed.notice stamp (.frame frame) (r.ledger.outside a))
  | notice {i : Nat} {stamp : Stamp} (hi : r.ledger.opened[i]? = some stamp) {n : Channel.Notice}
    (hn : ∀ frame, n ≠ .frame frame) :
    Makes r a (.notice i n) r .other (r.feed.notice stamp n (r.ledger.outside a))
  | rang {target : Int} {x : Clock.Alarm Task} {clock : Clock Task}
    (hx : r.ledger.clock.takeDue? target = some (x, clock)) :
    Makes r a (.advance target) { r with ledger := { r.ledger with clock } } .other
      (r.feed.rang x.id (r.ledger.outside a) x.task)
  | answer {query epoch : Nat} (hq : r.ledger.queries[query]? = some epoch)
    (answer : StatusAnswer) :
    Makes r a (.answer query answer) r .answer (r.feed.polled epoch answer)
  | returned {x : Resume} {stack : List Resume} (hs : r.stack = x :: stack) :
    Makes r a .returned { r with stack } .other (r.feed.resume (r.ledger.outside a) x)

/-- The calls under way that a move leaves as they are. -/
def under (r : Run) : Move → List Resume
  | .returned => r.stack.tail
  | _ => r.stack

/-- At the move the feed makes no step. -/
structure Idles (r : Run) (a : Answers) (m : Move) : Prop where
  feed : ∃ polls, (r.step a m).feed = { r.feed with polls }
  isAlive : (r.step a m).isAlive = r.isAlive
  stack : (r.step a m).stack = r.stack
  under : r.under m = r.stack
  opened : (r.step a m).ledger.opened = r.ledger.opened
  queries : r.ledger.queries <+: (r.step a m).ledger.queries
  events : (r.news a m).filterMap Record.event? = []
  commands : ∀ d ∈ (r.news a m).filterMap Record.command?, d.IsAside

theorem idles_of_eq (w : Ledger) (polls : Bool) (commands : List Command) (more : List Record)
    (hstep : ∀ records, { r with records }.step a m =
      { r with
        feed := { r.feed with polls }
        ledger := w
        records := records ++ (commands.map .command ++ more) })
    (hopened : w.opened = r.ledger.opened) (hqueries : r.ledger.queries <+: w.queries)
    (hcommands : ∀ d ∈ commands, d.IsAside) (hmore : ∀ x ∈ more, ∃ taken, x = .taken taken)
    (hm : r.under m = r.stack) : r.Idles a m := by
  have hr : r.step a m = _ := hstep r.records
  have hnews : r.news a m = commands.map .command ++ more := by
    rw [news, hstep]
    rfl
  have hevents : more.filterMap Record.event? = [] := by
    refine List.filterMap_eq_nil_iff.2 fun x hx ↦ ?_
    obtain ⟨taken, rfl⟩ := hmore x hx
    rfl
  have htaken : more.filterMap Record.command? = [] := by
    refine List.filterMap_eq_nil_iff.2 fun x hx ↦ ?_
    obtain ⟨taken, rfl⟩ := hmore x hx
    rfl
  constructor
  · exact ⟨polls, by rw [hr]⟩
  · rw [hr]
  · rw [hr]
  · exact hm
  · rw [hr]
    exact hopened
  · rw [hr]
    exact hqueries
  · rw [hnews, List.filterMap_append, filterMap_event?_command, hevents, List.append_nil]
  · rw [hnews, List.filterMap_append, filterMap_command?_command, htaken, List.append_nil]
    exact hcommands

theorem idles_of_same (hstep : ∀ records, { r with records }.step a m = { r with records })
    (hm : r.under m = r.stack) : r.Idles a m :=
  idles_of_eq r.ledger r.feed.polls [] [] (fun records ↦ (hstep records).trans (by simp)) rfl
    (List.prefix_refl _) (by simp) (by simp) hm

theorem Makes.step (h : r.Makes a m q cause s) (hl : r.isAlive = true) :
    r.step a m = q.take cause s := by
  cases h with
  | connect | disconnect | reconnect | retire => exact if_pos hl
  | frame hi frame => simp [Run.step, hi, hear]
  | notice hi hn =>
    rename_i n
    simp only [Run.step, hi]
    cases n with
    | frame frame => exact absurd rfl (hn frame)
    | opened | failed | closed => rfl
  | rang hx => simp [Run.step, hx]
  | answer hq answer => simp [Run.step, hq]
  | returned hs => simp [Run.step, hs]

/-- What the step finds is the run as it was; but an alarm may have rung, a frame may have been noted
and a call may have returned. -/
theorem Makes.before (h : r.Makes a m q cause s) :
    ∃ (isAlive : Bool) (clock : Clock Task) (frames : List Channel.Frame), q =
      { r with
        isAlive
        ledger := { r.ledger with clock }
        stack := r.under m
        records := r.records ++ frames.map .frame } := by
  cases h with
  | frame hi frame =>
    split
    · exact ⟨r.isAlive, r.ledger.clock, [frame], rfl⟩
    · exact ⟨r.isAlive, r.ledger.clock, [], by simp [Run.under]⟩
  | returned hs => exact ⟨r.isAlive, r.ledger.clock, [], by simp [Run.under, hs]⟩
  | notice hi hn => exact ⟨r.isAlive, r.ledger.clock, [], by simp [Run.under]⟩
  | @rang target x clock hx => exact ⟨r.isAlive, clock, [], by simp [Run.under]⟩
  | retire => exact ⟨false, r.ledger.clock, [], by simp [Run.under]⟩
  | connect | disconnect | reconnect | answer =>
    exact ⟨r.isAlive, r.ledger.clock, [], by simp [Run.under]⟩

theorem Makes.feed (h : r.Makes a m q cause s) : q.feed = r.feed := by
  obtain ⟨isAlive, clock, frames, rfl⟩ := h.before
  rfl

theorem Makes.stack (h : r.Makes a m q cause s) : q.stack = r.under m := by
  obtain ⟨isAlive, clock, frames, rfl⟩ := h.before
  rfl

theorem Makes.opened (h : r.Makes a m q cause s) : q.ledger.opened = r.ledger.opened := by
  obtain ⟨isAlive, clock, frames, rfl⟩ := h.before
  rfl

theorem Makes.queries (h : r.Makes a m q cause s) : q.ledger.queries = r.ledger.queries := by
  obtain ⟨isAlive, clock, frames, rfl⟩ := h.before
  rfl

theorem Makes.news (h : r.Makes a m q cause s) (hl : r.isAlive = true) :
    ∃ frames : List Channel.Frame, r.news a m = frames.map .frame ++ s.records cause := by
  obtain ⟨isAlive, clock, frames, hq⟩ := h.before
  refine ⟨frames, (List.append_right_inj r.records).1 ?_⟩
  rw [← records_step, h.step hl, hq, take, List.append_assoc]

theorem Makes.events (h : r.Makes a m q cause s) (hl : r.isAlive = true) :
    (r.news a m).filterMap Record.event? = (s.pause.map Prod.fst).toList := by
  obtain ⟨frames, hnews⟩ := h.news hl
  rw [hnews, List.filterMap_append, Step.filterMap_event?_records]
  simp [List.filterMap_map, Function.comp_def, Record.event?]

theorem Makes.commands (h : r.Makes a m q cause s) (hl : r.isAlive = true) :
    (r.news a m).filterMap Record.command? = s.commands := by
  obtain ⟨frames, hnews⟩ := h.news hl
  rw [hnews, List.filterMap_append, Step.filterMap_command?_records]
  simp [List.filterMap_map, Function.comp_def, Record.command?]

theorem step_cases (hl : r.isAlive = true) (a : Answers) (m : Move) :
    (∃ q cause s, r.Makes a m q cause s) ∨ r.Idles a m := by
  cases m with
  | connect => exact .inl ⟨_, _, _, .connect⟩
  | disconnect => exact .inl ⟨_, _, _, .disconnect⟩
  | reconnect => exact .inl ⟨_, _, _, .reconnect⟩
  | retire => exact .inl ⟨_, _, _, .retire⟩
  | keepalive =>
    have hc : ∀ d ∈ (r.feed.sendKeepalive (r.ledger.outside a)).2, d.IsAside := sendKeepalive_isAside
    refine .inr (idles_of_eq _ r.feed.polls _ [.taken (r.feed.sendKeepalive (r.ledger.outside a)).1]
      (fun records ↦ ?_) (Ledger.opened_obeyAll_of_isAside hc) (queries_grow _ _) hc (by simp) rfl)
    simp [Run.step, ifAlive, hl, give, note]
  | refresh =>
    have hc : ∀ d ∈ r.feed.refresh, d.IsAside := refresh_isAside
    refine .inr (idles_of_eq _ r.feed.polls _ [] (fun records ↦ ?_)
      (Ledger.opened_obeyAll_of_isAside hc) (queries_grow _ _) hc (by simp) rfl)
    simp [Run.step, ifAlive, hl, give]
  | setPolls polls =>
    refine .inr (idles_of_eq r.ledger polls [] [] (fun records ↦ ?_) rfl (List.prefix_refl _)
      (by simp) (by simp) rfl)
    simp [Run.step, ifAlive, hl]
  | notice i n =>
    cases hi : r.ledger.opened[i]? with
    | none =>
      refine .inr (idles_of_same (fun records ↦ ?_) rfl)
      simp [Run.step, hi]
    | some stamp =>
      cases n with
      | frame frame => exact .inl ⟨_, _, _, .frame hi frame⟩
      | opened | failed | closed => exact .inl ⟨_, _, _, .notice hi (by simp)⟩
  | advance target =>
    cases hx : r.ledger.clock.takeDue? target with
    | none =>
      refine .inr (idles_of_eq { r.ledger with clock := { r.ledger.clock with now := target } }
        r.feed.polls [] [] (fun records ↦ ?_) rfl (List.prefix_refl _) (by simp) (by simp) rfl)
      simp [Run.step, hx]
    | some x => exact .inl ⟨_, _, _, .rang hx⟩
  | answer query answer =>
    cases hq : r.ledger.queries[query]? with
    | none =>
      refine .inr (idles_of_same (fun records ↦ ?_) rfl)
      simp [Run.step, hq]
    | some epoch => exact .inl ⟨_, _, _, .answer hq answer⟩
  | returned =>
    cases hs : r.stack with
    | nil =>
      refine .inr (idles_of_same (fun records ↦ ?_) (by simp [under, hs]))
      simp [Run.step, hs]
    | cons x stack => exact .inl ⟨_, _, _, .returned hs⟩

end Run

end ProgressFeed.Feed
