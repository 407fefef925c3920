import ProgressFeed.Proofs.Feed.Life
import ProgressFeed.Proofs.Link.Sending

/-!
# When signs of life are sent

The alarm for the next sign of life is set just when there is a connection that can send. The link
sets its alarm only when there is no connection, so that of the two at most one is set.
-/

namespace ProgressFeed

theorem Clock.length_setFor {τ : Type} [DecidableEq τ] {c : Clock τ} {task : τ}
    (h : ∀ x ∈ c.alarms, x.task = task) : (c.setFor task).length = c.alarms.length := by
  have hall : c.alarms.filter (·.task == task) = c.alarms :=
    List.filter_eq_self.2 fun x hx ↦ by simp [h x hx]
  rw [setFor, hall, List.length_map]

namespace Feed

variable {c : Settings} {f : Feed} {w : Ledger} {stack : List Resume} {o : Outside} {l : Link}
  {s : Step}

/-- The alarm for the next sign of life is set just when signs of life are to be sent. -/
def IsTuned (f : Feed) : Prop := f.keepalive.isSome = f.wantsKeepalive

def Step.payloads (s : Step) : List (Nat × Bytes) := s.commands.filterMap Command.payload?

/-- The step leaves the feed tuned and sends nothing. -/
structure Step.IsTuned (s : Step) : Prop where
  feed : s.feed.IsTuned
  payloads : s.payloads = []

theorem Step.payloads_after (commands : List Command) (s : Step) :
    (s.after commands).payloads = commands.filterMap Command.payload? ++ s.payloads :=
  List.filterMap_append ..

theorem Step.IsTuned.after (h : s.IsTuned) {commands : List Command}
    (hc : commands.filterMap Command.payload? = []) : (s.after commands).IsTuned :=
  ⟨h.feed, by rw [payloads_after, hc, h.payloads, List.append_nil]⟩

theorem wantsKeepalive_of_ne (h : f.connection ≠ .connected) : f.wantsKeepalive = false := by
  cases hl : f.link with
  | none => simp [wantsKeepalive, hl]
  | some l =>
    have hs : l.state ≠ .connected := by simpa [connection, hl] using h
    simp [wantsKeepalive, hl, Link.sender?_of_ne hs]

theorem isTuned_of_ne (hk : f.keepalive = none) (h : f.connection ≠ .connected) : f.IsTuned := by
  rw [IsTuned, hk, wantsKeepalive_of_ne h]
  rfl

theorem payloads_stopKeepalive : f.stopKeepalive.payloads = [] := by
  cases hk : f.keepalive <;> simp [Step.payloads, stopKeepalive, hk, Command.payload?]

theorem payloads_farewell : f.farewell.filterMap Command.payload? = [] := by
  cases hl : f.link with
  | none => simp [farewell, hl]
  | some l => simp [farewell, hl, Link.payloads_farewell]

theorem rest_isTuned (h : f.IsTuned) : f.rest.IsTuned := ⟨h, rfl⟩

theorem publish_isTuned (h : f.IsTuned) (e : Event) (x : Resume) : (f.publish e x).IsTuned :=
  ⟨h, rfl⟩

theorem startKeepalive_isTuned : (f.startKeepalive o).IsTuned := by
  unfold startKeepalive
  split
  · rename_i hw
    refine Step.IsTuned.after ⟨?_, rfl⟩ payloads_stopKeepalive
    exact hw.symm
  · rename_i hw
    refine ⟨?_, payloads_stopKeepalive⟩
    exact (Bool.eq_false_iff.2 hw).symm

theorem relay_isTuned {call : Link.Call} (hf : call.change? = none → f.IsTuned)
    (hc : ∀ was now, call = .state was now → f.connection = now) (x : Resume) :
    (f.relay call x o).IsTuned := by
  cases call with
  | fault e => exact publish_isTuned (hf rfl) _ x
  | state was now =>
    simp only [relay]
    split
    · have hs : (f.startKeepalive o).IsTuned := startKeepalive_isTuned
      exact (publish_isTuned hs.feed _ x).after hs.payloads
    · rename_i hn
      have hs : f.stopKeepalive.feed.IsTuned := isTuned_of_ne rfl ((hc was now rfl).trans_ne hn)
      exact (publish_isTuned hs _ x).after payloads_stopKeepalive

/-- Whatever the link announces, signs of life are begun or ended with it. -/
theorem adopt_isTuned (h : f.IsTuned) (hl : f.link = some l) {s : Link.Step} (ht : s.Turns l.state)
    (hm : s.IsMute l) (next : Next) {rest : Feed → Step}
    (hrest : IsTuned { f with link := some s.link } → (rest { f with link := some s.link }).IsTuned) :
    (f.adopt s next rest o).IsTuned := by
  have hsame : s.change? = none → IsTuned { f with link := some s.link } := by
    intro hs
    have hw : wantsKeepalive { f with link := some s.link } = f.wantsKeepalive := by
      simp only [wantsKeepalive, hl, Option.bind_some, hm.sender hs]
    exact h.trans hw.symm
  refine Step.IsTuned.after ?_ hm.payloads
  cases hp : s.pause with
  | none => exact hrest (hsame (by simp [Link.Step.change?, hp]))
  | some p =>
    obtain ⟨call, resume⟩ := p
    have hchange : s.change? = call.change? := by simp [Link.Step.change?, hp]
    refine relay_isTuned (fun hc ↦ hsame (hchange.trans hc)) ?_ _
    rintro was now rfl
    unfold Link.Step.Turns at ht
    rw [hchange] at ht
    exact ht.2.1.symm

theorem follow_isTuned (h : f.IsTuned) (hl : f.link = some l) {s : Link.Step}
    (ht : s.Turns l.state) (hm : s.IsMute l) : (f.follow s o).IsTuned :=
  adopt_isTuned h hl ht hm .nothing rest_isTuned

theorem connectFresh_isTuned : (f.connectFresh o).IsTuned := by
  rw [connectFresh_eq]
  refine ⟨isTuned_of_ne rfl (by simp [connection, newLink]), ?_⟩
  rw [Step.payloads, List.filterMap_append, payloads_farewell]
  exact payloads_stopKeepalive

theorem proceed_isTuned (h : f.IsTuned) {next : Next} (hn : next = .retire → f.keepalive = none) :
    (f.proceed o next).IsTuned := by
  cases next with
  | nothing => exact rest_isTuned h
  | forget => exact rest_isTuned (f := f.forget) h
  | startOver => exact connectFresh_isTuned
  | retire =>
    refine ⟨isTuned_of_ne (hn rfl) ?_, payloads_farewell⟩
    simp [proceed, connection]

theorem closeStream_isTuned (next : Next) : (f.closeStream next o).IsTuned := by
  have hclosed : f.closed.IsTuned := isTuned_of_ne rfl (by simp)
  have hproceed : (f.closed.proceed o next).IsTuned := proceed_isTuned hclosed fun _ ↦ rfl
  have hstop : ∀ l : Link,
      (f.stopKeepalive.commands ++ l.farewell).filterMap Command.payload? = [] := by
    intro l
    rw [List.filterMap_append, Link.payloads_farewell, List.append_nil]
    exact payloads_stopKeepalive
  cases hl : f.link with
  | none =>
    rw [closeStream_of_none hl]
    exact hproceed.after payloads_stopKeepalive
  | some l =>
    by_cases hs : l.state = .disconnected
    · rw [closeStream_of_disconnected hl hs]
      exact hproceed.after (hstop l)
    · rw [closeStream_of_live hl hs]
      exact ⟨hclosed, hstop l⟩

theorem connect_isTuned (h : f.IsTuned) : (f.connect o).IsTuned := by
  unfold connect
  split
  · exact connectFresh_isTuned
  · rename_i l hl
    split
    · exact connectFresh_isTuned
    · exact follow_isTuned h hl Link.connect_falls.turns Link.connect_isMute

/-- What does not touch the link or the alarm leaves the feed tuned. -/
theorem isTuned_of_eq {f' : Feed} (h : f.IsTuned) (hk : f'.keepalive = f.keepalive)
    (hl : f'.link = f.link) (hs : f'.settings = f.settings) : f'.IsTuned := by
  unfold IsTuned wantsKeepalive
  rw [hk, hl, hs]
  exact h

theorem receiveFrame_isTuned (h : f.IsTuned) (frame : Channel.Frame) :
    (f.receiveFrame frame).IsTuned := by
  unfold receiveFrame
  split
  · exact ⟨h, rfl⟩
  · rename_i m _
    cases m <;> exact ⟨isTuned_of_eq h rfl rfl rfl, rfl⟩

theorem Upheld.notice_isTuned (hu : f.Upheld c w stack) (h : f.IsTuned) {i : Nat} {x : Stamp}
    (hi : w.opened[i]? = some x) (n : Channel.Notice) : (f.notice x n o).IsTuned := by
  unfold Feed.notice
  split
  · exact rest_isTuned h
  · rename_i l hlink
    obtain ⟨hl, hid⟩ := linkOf?_eq_some.1 hlink
    have hn := fun n ↦ follow_isTuned (o := o) h hl
      ((hu.link l hl).notice_turns (o := o) hi hid.symm n) (Link.notice_isMute x.generation n)
    cases n with
    | frame frame =>
      simp only
      split
      · exact receiveFrame_isTuned h frame
      · exact rest_isTuned h
    | opened => exact hn .opened
    | failed message => exact hn (.failed message)
    | closed closing => exact hn (.closed closing)

theorem polled_isTuned (h : f.IsTuned) (epoch : Nat) (answer : StatusAnswer) :
    (f.polled epoch answer).IsTuned := by
  unfold polled
  split
  · split <;> exact ⟨isTuned_of_eq h rfl rfl rfl, rfl⟩
  · exact rest_isTuned h

theorem Upheld.resume_isTuned {x : Resume} (hu : f.Upheld c w (x :: stack)) (h : f.IsTuned)
    (hx : x.IsOrderly) (hn : x.next = .retire → f.keepalive = none) :
    (f.resume o x).IsTuned := by
  rcases hx with hx | ⟨id, hx⟩
  · cases x with
    | nothing => exact rest_isTuned h
    | delivered terminal epoch =>
      simp only [Feed.resume]
      split
      · exact closeStream_isTuned .nothing
      · exact rest_isTuned h
    | link id r next =>
      cases hx
      simp only [Feed.resume]
      split
      · exact rest_isTuned h
      · rename_i l hlink
        obtain ⟨hl, hid⟩ := linkOf?_eq_some.1 hlink
        have hlu := hu.link l hl
        have hcall : (Resume.link id r .nothing).call? l.id = some r := if_pos hid.symm
        simp only [Feed.calls, List.filterMap_cons, hcall] at hlu
        exact follow_isTuned h hl (Link.resume_falls r).turns hlu.resume_isMute
  · rw [hx, resume_of_link_nothing]
    exact proceed_isTuned h hn

/-! ## Signs of life that are sent -/

/-- What is sent is a sign of life, over the channel that is held and connected. -/
theorem mem_sendKeepalive {x : Nat × Bytes}
    (hx : x ∈ (f.sendKeepalive o).2.filterMap Command.payload?) :
    f.connection = .connected ∧ f.channel = some x.1 ∧ x.2 = keepalivePayload := by
  cases hl : f.link with
  | none => simp [sendKeepalive, hl] at hx
  | some l =>
    cases hsender : l.sender? with
    | none => simp [sendKeepalive, hl, Link.send, hsender] at hx
    | some i =>
      simp only [sendKeepalive, hl, Link.send, hsender, List.filterMap_cons, Command.payload?,
        List.filterMap_nil, List.mem_singleton] at hx
      have hs : l.state = .connected := by
        by_contra hs
        simp [Link.sender?_of_ne hs] at hsender
      simp only [Link.sender?, hs, if_true, Option.map_eq_some_iff, Option.filter_eq_some_iff]
        at hsender
      obtain ⟨d, ⟨hd, -⟩, rfl⟩ := hsender
      subst hx
      simp [connection, channel, hl, hs, hd]

theorem beat_isTuned (h : f.IsTuned) (alarm : Nat) : (f.beat alarm o).feed.IsTuned := by
  by_cases hc : f.connection = .connected
  · rw [beat_of_connected hc]
    exact startKeepalive_isTuned.feed
  · -- Without a connection no alarm was set, so this one was none of the feed's.
    have hk : f.keepalive = none := by
      rw [IsTuned, wantsKeepalive_of_ne hc] at h
      simpa using h
    rw [beat_of_ne hc]
    exact isTuned_of_ne (f := f.rung alarm) (by simp [rung, hk]) hc

theorem mem_beat {alarm : Nat} {x : Nat × Bytes} (hx : x ∈ (f.beat alarm o).payloads) :
    f.connection = .connected ∧ f.channel = some x.1 ∧ x.2 = keepalivePayload := by
  by_cases hc : f.connection = .connected
  · rw [beat_of_connected hc, Step.payloads_after, startKeepalive_isTuned.payloads,
      List.append_nil] at hx
    exact mem_sendKeepalive hx
  · rw [beat_of_ne hc] at hx
    cases hx

/-! ## Runs -/

/-- What the record sends, and on which channel. -/
def Record.payload? (x : Record) : Option (Nat × Bytes) := x.command?.bind Command.payload?

theorem filterMap_payload?_command (commands : List Command) :
    (commands.map Record.command).filterMap Record.payload? =
      commands.filterMap Command.payload? := by
  simp [List.filterMap_map, Function.comp_def, Record.payload?, Record.command?]

namespace Run

variable {r q : Run} {a : Answers} {m : Move} {cause : Cause}

/-- Everything that has been sent so far. -/
def sent (r : Run) : List (Nat × Bytes) := r.records.filterMap Record.payload?

theorem sent_step (r : Run) (a : Answers) (m : Move) :
    (r.step a m).sent = r.sent ++ (r.news a m).filterMap Record.payload? := by
  rw [sent, records_step, List.filterMap_append]
  rfl

theorem Makes.payloads (h : r.Makes a m q cause s) (hl : r.isAlive = true) :
    (r.news a m).filterMap Record.payload? = s.payloads := by
  have hbind : (r.news a m).filterMap Record.payload? =
      ((r.news a m).filterMap Record.command?).filterMap Command.payload? :=
    List.filterMap_filterMap.symm
  rw [hbind, h.commands hl]
  rfl

theorem Lasting.keepalive_eq_none (h : r.Lasting) {x : Resume} (hx : x ∈ r.stack)
    (hn : x.next = .retire) : r.feed.keepalive = none := by
  cases hl : r.isAlive with
  | true => exact absurd hn (h.alive hl x hx)
  | false => exact (h.retiring hl).1

/-- An alarm for a sign of life apart, the step that the feed makes leaves it tuned and sends
nothing. -/
theorem Makes.isTuned (hm : r.Makes a m q cause s) (hu : r.Upheld c) (ht : r.feed.IsTuned)
    (hx : ∀ x ∈ r.stack, x.IsOrderly ∧ (x.next = .retire → r.feed.keepalive = none)) :
    s.IsTuned ∨ ∃ alarm o, s = r.feed.beat alarm o := by
  cases hm with
  | connect => exact .inl (connect_isTuned ht)
  | disconnect => exact .inl (closeStream_isTuned .forget)
  | reconnect => exact .inl (closeStream_isTuned .startOver)
  | retire => exact .inl (closeStream_isTuned .retire)
  | frame hi frame => exact .inl (Feed.Upheld.notice_isTuned hu ht hi _)
  | notice hi hn => exact .inl (Feed.Upheld.notice_isTuned hu ht hi _)
  | @rang target x clock hdue =>
    cases htask : x.task with
    | keepalive => exact .inr ⟨_, _, rfl⟩
    | reopen id =>
      left
      simp only [Feed.rang]
      split
      · exact rest_isTuned ht
      · rename_i l hlink
        exact follow_isTuned ht (linkOf?_eq_some.1 hlink).1 (Link.rang_falls _).turns
          (Link.rang_isMute _)
  | answer hq answer => exact .inl (polled_isTuned ht _ _)
  | @returned x stack hs =>
    have hstack : r.feed.Upheld c r.ledger (x :: stack) := hs ▸ hu
    obtain ⟨ho, hk⟩ := hx x (by simp [hs])
    exact .inl (hstack.resume_isTuned ht ho hk)

theorem Upheld.isTuned_step (hu : r.Upheld c) (hl : r.isAlive = true) (ht : r.feed.IsTuned)
    (hx : ∀ x ∈ r.stack, x.IsOrderly ∧ (x.next = .retire → r.feed.keepalive = none))
    (a : Answers) (m : Move) : (r.step a m).feed.IsTuned := by
  rcases step_cases hl a m with ⟨q, cause, s, hm⟩ | hm
  · rw [hm.step hl]
    rcases hm.isTuned hu ht hx with hs | ⟨alarm, o, rfl⟩
    · exact hs.feed
    · exact beat_isTuned ht alarm
  · obtain ⟨polls, hf⟩ := hm.feed
    rw [hf]
    exact isTuned_of_eq ht rfl rfl rfl

/-- Whatever a move sends is a sign of life over the channel that is connected. -/
theorem Upheld.mem_news (hu : r.Upheld c) (hl : r.isAlive = true) (ht : r.feed.IsTuned)
    (hx : ∀ x ∈ r.stack, x.IsOrderly ∧ (x.next = .retire → r.feed.keepalive = none))
    {y : Nat × Bytes} (hy : y ∈ (r.news a m).filterMap Record.payload?) :
    r.feed.connection = .connected ∧ r.feed.channel = some y.1 ∧ y.2 = keepalivePayload := by
  by_cases hmakes : ∃ q cause s, r.Makes a m q cause s
  · obtain ⟨q, cause, s, hm⟩ := hmakes
    rw [hm.payloads hl] at hy
    rcases hm.isTuned hu ht hx with hs | ⟨alarm, o, rfl⟩
    · simp [hs.payloads] at hy
    · exact mem_beat hy
  cases m with
  | connect => exact absurd ⟨_, _, _, .connect⟩ hmakes
  | disconnect => exact absurd ⟨_, _, _, .disconnect⟩ hmakes
  | reconnect => exact absurd ⟨_, _, _, .reconnect⟩ hmakes
  | retire => exact absurd ⟨_, _, _, .retire⟩ hmakes
  | keepalive =>
    refine mem_sendKeepalive (o := r.ledger.outside a) ?_
    simpa [news, Run.step, Run.ifAlive, hl, give, note, filterMap_payload?_command,
      Record.payload?, Record.command?] using hy
  | refresh =>
    have hfetch : r.feed.refresh.filterMap Command.payload? = [] := by
      cases hp : r.feed.polls <;> simp [Feed.refresh, hp, Command.payload?]
    have hnews : r.news a .refresh = r.feed.refresh.map .command := by
      simp [news, Run.step, Run.ifAlive, hl, give]
    rw [hnews, filterMap_payload?_command, hfetch] at hy
    cases hy
  | setPolls polls => simp [news, Run.step, Run.ifAlive, hl] at hy
  | notice i n =>
    cases hi : r.ledger.opened[i]? with
    | none => simp [news, Run.step, hi] at hy
    | some stamp =>
      cases n with
      | frame frame => exact absurd ⟨_, _, _, .frame hi frame⟩ hmakes
      | opened | failed | closed => exact absurd ⟨_, _, _, .notice hi (by simp)⟩ hmakes
  | advance target =>
    cases hdue : r.ledger.clock.takeDue? target with
    | none => simp [news, Run.step, hdue] at hy
    | some x => exact absurd ⟨_, _, _, .rang hdue⟩ hmakes
  | answer query answer =>
    cases hq : r.ledger.queries[query]? with
    | none => simp [news, Run.step, hq] at hy
    | some epoch => exact absurd ⟨_, _, _, .answer hq answer⟩ hmakes
  | returned =>
    cases hs : r.stack with
    | nil => simp [news, Run.step, hs] at hy
    | cons x stack => exact absurd ⟨_, _, _, .returned hs⟩ hmakes

/-- What always holds of the signs of life. -/
structure Ticking (c : Settings) (r : Run) : Prop where
  upheld : r.Upheld c
  lasting : r.Lasting
  tuned : r.feed.IsTuned

theorem ticking_start (c : Settings) (polls : Bool) (now : Int) : (start c polls now).Ticking c :=
  ⟨upheld_start c polls now, lasting_start c polls now, isTuned_of_ne rfl nofun⟩

theorem Ticking.of_mem_stack (h : r.Ticking c) :
    ∀ x ∈ r.stack, x.IsOrderly ∧ (x.next = .retire → r.feed.keepalive = none) := fun x hx ↦
  ⟨h.lasting.orderly x hx, h.lasting.keepalive_eq_none hx⟩

theorem Ticking.live (h : r.Ticking c) (a : Answers) (m : Move) : (r.live a m).Ticking c := by
  refine ⟨h.upheld.live a m, h.lasting.live a m, ?_⟩
  by_cases hm : r.allows m = true
  · have hawake : r.awake.Upheld c := h.upheld
    rw [live_of_allows hm]
    exact hawake.isTuned_step rfl h.tuned h.of_mem_stack a m
  · rw [live_of_not_allows hm]
    exact h.tuned

theorem Ticking.liveAll (h : r.Ticking c) (moves : List (Answers × Move)) :
    (r.liveAll moves).Ticking c := by
  induction moves generalizing r with
  | nil => exact h
  | cons x moves ih => exact ih (h.live x.1 x.2)

theorem Ticking.sent_live (h : r.Ticking c) (a : Answers) (m : Move) :
    ∃ signs, (r.live a m).sent = r.sent ++ signs ∧ ∀ x ∈ signs,
      r.feed.connection = .connected ∧ r.feed.channel = some x.1 ∧ x.2 = keepalivePayload := by
  by_cases hm : r.allows m = true
  · have hawake : r.awake.Upheld c := h.upheld
    rw [live_of_allows hm]
    exact ⟨_, sent_step r.awake a m, fun x hx ↦ hawake.mem_news rfl h.tuned h.of_mem_stack hx⟩
  · rw [live_of_not_allows hm]
    exact ⟨[], (List.append_nil _).symm, by simp⟩

theorem Ticking.keepalive_iff (h : r.Ticking c) :
    r.feed.keepalive ≠ none ↔ r.feed.connection = .connected ∧
      (∃ d, r.feed.link.bind Link.channel = some d ∧ d.isDuplex = true) ∧ 0 < c.keepalive := by
  have ht := h.tuned
  have hsettings : r.feed.settings = c := h.upheld.settings
  rw [IsTuned, wantsKeepalive, hsettings] at ht
  rw [← Option.isSome_iff_ne_none, ht]
  cases hl : r.feed.link with
  | none => simp [connection, hl]
  | some l =>
    simp only [connection, hl, Option.elim_some, Option.bind_some, Bool.and_eq_true,
      decide_eq_true_eq, Link.sender?]
    by_cases hs : l.state = .connected
    · cases hd : l.channel with
      | none => simp
      | some d => cases hduplex : d.isDuplex <;> simp [hs, Option.filter, hduplex]
    · simp [hs]

/-- The link sets its alarm only when there is no connection. -/
theorem Ticking.of_mem_alarms (h : r.Ticking c) {x : Clock.Alarm Task}
    (hx : x ∈ r.ledger.clock.alarms) (ht : x.task ≠ .keepalive) :
    ∃ l, r.feed.link = some l ∧ x.task = .reopen l.id ∧ r.feed.connection = .disconnected := by
  obtain ⟨l, hl, htask⟩ := (h.upheld.alarms x hx).resolve_left ht
  have hlu := h.upheld.link l hl
  have hmem := Clock.mem_setFor.2 ⟨x, hx, htask, rfl⟩
  rw [hlu.alarmed, Option.mem_toList] at hmem
  have hs := (hlu.sound.alarm (by rw [Option.mem_def.1 hmem]; simp)).1
  exact ⟨l, hl, htask, by simpa [connection, hl] using hs⟩

theorem Ticking.mem_keepalive (h : r.Ticking c) :
    (∃ x ∈ r.ledger.clock.alarms, x.task = .keepalive) ↔ r.feed.keepalive ≠ none := by
  have hk : ∀ i, i ∈ r.ledger.clock.setFor .keepalive ↔ r.feed.keepalive = some i := by
    intro i
    rw [h.upheld.keepalive, Option.mem_toList]
  constructor
  · rintro ⟨x, hx, ht⟩
    rw [(hk x.id).1 (Clock.mem_setFor.2 ⟨x, hx, ht, rfl⟩)]
    nofun
  · intro hne
    obtain ⟨i, hi⟩ := Option.ne_none_iff_exists'.1 hne
    obtain ⟨x, hx, ht, -⟩ := Clock.mem_setFor.1 ((hk i).2 hi)
    exact ⟨x, hx, ht⟩

theorem Ticking.length_alarms (h : r.Ticking c) : r.ledger.clock.alarms.length ≤ 1 := by
  by_cases hk : ∃ x ∈ r.ledger.clock.alarms, x.task = .keepalive
  · have hc := (h.keepalive_iff.1 (h.mem_keepalive.1 hk)).1
    have hall : ∀ x ∈ r.ledger.clock.alarms, x.task = .keepalive := by
      intro x hx
      by_contra ht
      obtain ⟨-, -, -, hs⟩ := h.of_mem_alarms hx ht
      simp [hc] at hs
    rw [← Clock.length_setFor hall, h.upheld.keepalive]
    cases r.feed.keepalive <;> simp
  · have hk : ∀ x ∈ r.ledger.clock.alarms, x.task ≠ .keepalive := fun x hx ht ↦ hk ⟨x, hx, ht⟩
    cases hl : r.feed.link with
    | none =>
      have hnil : r.ledger.clock.alarms = [] := List.eq_nil_iff_forall_not_mem.2 fun x hx ↦ by
        obtain ⟨l, hlink, -⟩ := h.of_mem_alarms hx (hk x hx)
        simp [hl] at hlink
      simp [hnil]
    | some l =>
      have hall : ∀ x ∈ r.ledger.clock.alarms, x.task = .reopen l.id := by
        intro x hx
        obtain ⟨l', hlink, ht, -⟩ := h.of_mem_alarms hx (hk x hx)
        rw [hl] at hlink
        cases hlink
        exact ht
      rw [← Clock.length_setFor hall, (h.upheld.link l hl).alarmed]
      cases l.alarm <;> simp

end Run

open Run

/-- At every moment in the life of a feed, whatever its settings and whatever its subscribers call
from inside of deliveries: the alarm for a sign of life is set just when the feed is connected over a
channel that can send and is to send them at all, any other alarm only when it is disconnected, and
never more than one. Whatever a move sends is a sign of life, over the channel that is held and
connected. -/
theorem alarms_match_connection (c : Settings) (polls : Bool) (now : Int)
    (moves : List (Answers × Move)) :
    let r := (start c polls now).liveAll moves
    ((∃ x ∈ r.ledger.clock.alarms, x.task = .keepalive) ↔
      r.feed.connection = .connected ∧
        (∃ d, r.feed.link.bind Link.channel = some d ∧ d.isDuplex = true) ∧ 0 < c.keepalive) ∧
    (∀ x ∈ r.ledger.clock.alarms, x.task ≠ .keepalive → r.feed.connection = .disconnected) ∧
    r.ledger.clock.alarms.length ≤ 1 ∧
    ∀ a m, ∃ signs, (r.live a m).sent = r.sent ++ signs ∧ ∀ x ∈ signs,
      r.feed.connection = .connected ∧ r.feed.channel = some x.1 ∧ x.2 = keepalivePayload := by
  intro r
  have h : r.Ticking c := (ticking_start c polls now).liveAll moves
  refine ⟨h.mem_keepalive.trans h.keepalive_iff, fun x hx ht ↦ ?_, h.length_alarms, h.sent_live⟩
  obtain ⟨-, -, -, hs⟩ := h.of_mem_alarms hx ht
  exact hs

/-- A feed that has sent its first sign of life and waits to send the next. -/
theorem alarms_match_connection_ticking :
    let moves : List (Answers × Move) :=
      [.connect, .returned, .notice 0 .opened, .returned, .advance 30000].map
        (⟨some (utf8 "token"), some true, true⟩, ·)
    let r := (start { source := utf8 "job" } false 0).liveAll moves
    r.sent = [(0, keepalivePayload)] ∧ r.feed.connection = .connected ∧
      (∃ x ∈ r.ledger.clock.alarms, x.task = .keepalive) ∧ r.ledger.clock.alarms.length ≤ 1 := by
  intro moves r
  have h := alarms_match_connection { source := utf8 "job" } false 0 moves
  exact ⟨rfl, rfl, h.1.2 ⟨rfl, ⟨⟨0, true⟩, rfl, rfl⟩, by decide⟩, h.2.2.1⟩

end Feed

end ProgressFeed
