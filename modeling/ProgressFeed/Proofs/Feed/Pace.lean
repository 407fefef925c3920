import ProgressFeed.Proofs.Feed.Signs

/-!
# The pace of the signs of life

A connection that can send sets the alarm for its first sign of life when it begins, and from then
on only the alarm that rings sets the next: nothing else that a feed does over a connection that
lasts sets such an alarm, or changes the channel that it sends on.
-/

namespace ProgressFeed

/-- The time that the command lets pass until the next sign of life. -/
def Command.interval? : Command → Option Int
  | .setAlarm _ delay .keepalive => some delay
  | .setAlarm _ _ (.reopen _) => none
  | .create .. | .open .. | .close .. | .send .. | .stopAlarm _ | .fetch .. => none

/-- A link sets no alarm for signs of life. -/
theorem intervals_of_isOf {id : Nat} {commands : List Command} (h : ∀ d ∈ commands, d.IsOf id) :
    commands.filterMap Command.interval? = [] := by
  refine List.filterMap_eq_nil_iff.2 fun d hd ↦ ?_
  have hd := h d hd
  cases d with
  | setAlarm alarm delay task =>
    cases hd
    rfl
  | create | «open» | close | send | stopAlarm | fetch => rfl

namespace Ledger

variable {w : Ledger}

theorem now_obeyAll (w : Ledger) (commands : List Command) :
    (w.obeyAll commands).clock.now = w.clock.now := by
  induction commands generalizing w with
  | nil => rfl
  | cons d commands ih =>
    rw [obeyAll_cons, ih]
    cases d <;> rfl

/-- An alarm for a sign of life was there before, or has been set just now. -/
theorem mem_keepalive_obeyAll {commands : List Command} {x : Clock.Alarm Task}
    (hx : x ∈ (w.obeyAll commands).clock.alarms) (ht : x.task = .keepalive) :
    x ∈ w.clock.alarms ∨
      ∃ delay ∈ commands.filterMap Command.interval?, x.due = w.clock.now + delay := by
  induction commands generalizing w with
  | nil => exact .inl hx
  | cons d commands ih =>
    rcases ih hx with hx | ⟨delay, hmem, hdue⟩
    · cases d with
      | setAlarm alarm delay task =>
        rcases List.mem_append.1 hx with hx | hx
        · exact .inl hx
        · obtain rfl := List.mem_singleton.1 hx
          cases ht
          exact .inr ⟨delay, by simp [Command.interval?], rfl⟩
      | stopAlarm alarm => exact .inl (List.mem_filter.1 hx).1
      | create | «open» | close | send | fetch => exact .inl hx
    · have hnow : (w.obey d).clock.now = w.clock.now := now_obeyAll w [d]
      refine .inr ⟨delay, ?_, hnow ▸ hdue⟩
      rw [List.filterMap_cons]
      split
      · exact hmem
      · exact List.mem_cons_of_mem _ hmem

end Ledger

/-- An alarm that is due by then is taken. -/
theorem Clock.takeDue?_ne_none {τ : Type} {c : Clock τ} {x : Clock.Alarm τ} {target : Int}
    (hx : x ∈ c.alarms) (hdue : x.due ≤ target) : c.takeDue? target ≠ none := by
  intro h
  have hmem : x ∈ c.alarms.filter fun a ↦ decide (a.due ≤ target) :=
    List.mem_filter.2 ⟨hx, by simpa using hdue⟩
  rw [takeDue?, Option.map_eq_none_iff] at h
  cases hl : c.alarms.filter fun a ↦ decide (a.due ≤ target) with
  | nil => simp [hl] at hmem
  | cons y alarms =>
    rw [hl, earliest] at h
    split at h <;> cases h

namespace Feed

variable {c : Settings} {f : Feed} {w : Ledger} {stack : List Resume} {o : Outside} {l : Link}
  {s : Step}

/-- The channel on which a sign of life can be sent. -/
def sender? (f : Feed) : Option Nat := f.link.bind Link.sender?

theorem sender?_congr {f' : Feed} (hl : f'.link = f.link) : f'.sender? = f.sender? := by
  rw [sender?, sender?, hl]

theorem connection_of_sender? {i : Nat} (h : f.sender? = some i) : f.connection = .connected := by
  by_contra hc
  cases hl : f.link with
  | none => simp [sender?, hl] at h
  | some l =>
    have hs : l.state ≠ .connected := by simpa [connection, hl] using hc
    simp [sender?, hl, Link.sender?_of_ne hs] at h

theorem sender?_eq_some {i : Nat} : f.sender? = some i ↔ f.connection = .connected ∧
    ∃ d, f.link.bind Link.channel = some d ∧ d.isDuplex = true ∧ d.id = i := by
  cases hl : f.link with
  | none => simp [sender?, hl]
  | some l => simp [sender?, connection, hl, Link.sender?, Option.filter_eq_some_iff, and_assoc]

theorem channel_of_sender? {i : Nat} (h : f.sender? = some i) : f.channel = some i := by
  obtain ⟨-, d, hd, -, rfl⟩ := sender?_eq_some.1 h
  simp [channel, hd]

def Step.intervals (s : Step) : List Int := s.commands.filterMap Command.interval?

theorem Step.intervals_after (commands : List Command) (s : Step) :
    (s.after commands).intervals = commands.filterMap Command.interval? ++ s.intervals :=
  List.filterMap_append ..

/-- The step sets the alarm for a sign of life at the interval that is set, and only when there was
no connection; if there was one and it lasts, signs of life can be sent where they could before. -/
structure Step.KeepsTime (s : Step) (f : Feed) : Prop where
  intervals : ∀ x ∈ s.intervals, x = f.settings.keepalive ∧ f.connection ≠ .connected
  sender : f.connection = .connected → s.feed.connection = .connected → s.feed.sender? = f.sender?

theorem Step.KeepsTime.after (h : s.KeepsTime f) {commands : List Command}
    (hc : commands.filterMap Command.interval? = []) : (s.after commands).KeepsTime f := by
  refine ⟨?_, h.sender⟩
  rw [intervals_after, hc, List.nil_append]
  exact h.intervals

theorem keepsTime_of_link (hs : s.intervals = []) (hl : s.feed.link = f.link) : s.KeepsTime f :=
  ⟨by simp [hs], fun _ _ ↦ sender?_congr hl⟩

theorem keepsTime_of_ne (hs : s.intervals = []) (hc : s.feed.connection ≠ .connected) :
    s.KeepsTime f :=
  ⟨by simp [hs], fun _ h ↦ absurd h hc⟩

theorem intervals_stopKeepalive :
    f.stopKeepalive.commands.filterMap Command.interval? = [] := by
  cases hk : f.keepalive <;> simp [stopKeepalive, hk, Command.interval?]

theorem intervals_farewell : f.farewell.filterMap Command.interval? = [] := by
  cases hl : f.link with
  | none => simp [farewell, hl]
  | some l =>
    rw [farewell, hl]
    exact intervals_of_isOf Link.farewell_isOf

theorem intervals_startKeepalive : ∀ x ∈ (f.startKeepalive o).intervals,
    x = f.settings.keepalive := by
  unfold startKeepalive
  split
  · rw [Step.intervals_after, intervals_stopKeepalive]
    simp [Step.intervals, Command.interval?]
  · simp [Step.intervals, intervals_stopKeepalive]

theorem rest_keepsTime : f.rest.KeepsTime f := keepsTime_of_link rfl rfl

/-! ## The link -/

/-- A new connection that the link announces is one that there was not before. -/
theorem intervals_relay {call : Link.Call} (x : Resume) : ∀ y ∈ (f.relay call x o).intervals,
    y = f.settings.keepalive ∧ ∃ was, call = .state was .connected := by
  cases call with
  | fault e => simp [relay, publish, Step.intervals]
  | state was now =>
    simp only [relay]
    split
    · rename_i hn
      subst hn
      rw [Step.intervals_after]
      intro y hy
      refine ⟨intervals_startKeepalive (f := f) (o := o) y ?_, was, rfl⟩
      simpa [publish, Step.intervals] using hy
    · rw [Step.intervals_after, intervals_stopKeepalive]
      simp [publish, Step.intervals]

theorem adopt_keepsTime (hl : f.link = some l) {s : Link.Step} (ht : s.Turns l.state)
    (hm : s.IsMute l) {id : Nat} (hc : ∀ d ∈ s.commands, d.IsOf id) (next : Next)
    {rest : Feed → Step}
    (hrest : (rest { f with link := some s.link }).KeepsTime { f with link := some s.link }) :
    (f.adopt s next rest o).KeepsTime f := by
  have hstate : f.connection = l.state := by simp [connection, hl]
  refine Step.KeepsTime.after ?_ (intervals_of_isOf hc)
  unfold Link.Step.Turns at ht
  cases hp : s.pause with
  | none =>
    have hnone : s.change? = none := by simp [Link.Step.change?, hp]
    simp only [hnone] at ht
    have hsame : connection { f with link := some s.link } = f.connection := ht.trans hstate.symm
    refine ⟨fun x hx ↦ hsame ▸ hrest.intervals x hx, fun hf hs ↦ ?_⟩
    refine (hrest.sender (hsame.trans hf) hs).trans ?_
    simp [sender?, hl, hm.sender hnone]
  | some p =>
    obtain ⟨call, resume⟩ := p
    have hchange : s.change? = call.change? := by simp [Link.Step.change?, hp]
    rw [hchange] at ht
    refine ⟨fun x hx ↦ ?_, fun hf hs ↦ ?_⟩
    · obtain ⟨rfl, was, rfl⟩ := intervals_relay _ x hx
      refine ⟨rfl, fun hf ↦ ?_⟩
      obtain ⟨-, -, hcan⟩ := ht
      rw [← hstate, hf] at hcan
      cases hcan
    · -- A connection that lasts is not announced, so that it must be a fault that is.
      have hnow : s.link.state = .connected := by
        simpa [connection, relay_link] using hs
      have hnone : call.change? = none := by
        cases hcall : call.change? with
        | none => rfl
        | some y =>
          obtain ⟨was, now⟩ := y
          simp only [hcall] at ht
          obtain ⟨-, rfl, hcan⟩ := ht
          rw [hnow, ← hstate, hf] at hcan
          cases hcan
      rw [sender?_congr (relay_link call _), sender?, sender?, hl]
      exact hm.sender (hchange.trans hnone)

theorem follow_keepsTime (hl : f.link = some l) {s : Link.Step} (ht : s.Turns l.state)
    (hm : s.IsMute l) {id : Nat} (hc : ∀ d ∈ s.commands, d.IsOf id) :
    (f.follow s o).KeepsTime f :=
  adopt_keepsTime hl ht hm hc .nothing rest_keepsTime

theorem connectFresh_keepsTime : (f.connectFresh o).KeepsTime f := by
  rw [connectFresh_eq]
  refine keepsTime_of_ne ?_ (by simp [connection, newLink])
  simp [Step.intervals, List.filterMap_append, intervals_farewell, intervals_stopKeepalive]

theorem intervals_proceed (next : Next) : (f.proceed o next).intervals = [] := by
  cases next with
  | nothing | forget => rfl
  | startOver =>
    simp [proceed, connectFresh_eq, Step.intervals, List.filterMap_append, intervals_farewell,
      intervals_stopKeepalive]
  | retire => exact intervals_farewell

theorem proceed_off (h : f.connection ≠ .connected) (next : Next) :
    (f.proceed o next).feed.connection ≠ .connected := by
  cases next with
  | nothing | forget => exact h
  | startOver => simp [proceed, connectFresh_eq, connection, newLink]
  | retire => simp [proceed, connection]

/-- After a closing of the stream there is no connection. -/
theorem closeStream_off (next : Next) : (f.closeStream next o).feed.connection ≠ .connected := by
  have hclosed : f.closed.connection ≠ .connected := by simp
  cases hl : f.link with
  | none =>
    rw [closeStream_of_none hl]
    exact proceed_off hclosed next
  | some l =>
    by_cases hs : l.state = .disconnected
    · rw [closeStream_of_disconnected hl hs]
      exact proceed_off hclosed next
    · rw [closeStream_of_live hl hs]
      exact hclosed

theorem proceed_keepsTime (next : Next) : (f.proceed o next).KeepsTime f := by
  cases next with
  | nothing => exact rest_keepsTime
  | forget => exact keepsTime_of_link rfl rfl
  | startOver =>
    refine keepsTime_of_ne (intervals_proceed .startOver) ?_
    simp [proceed, connectFresh_eq, connection, newLink]
  | retire => exact keepsTime_of_ne intervals_farewell (by simp [proceed, connection])

theorem closeStream_keepsTime (next : Next) : (f.closeStream next o).KeepsTime f := by
  have hproceed : (f.closed.proceed o next).intervals = [] := intervals_proceed next
  have hstop : ∀ l : Link,
      (f.stopKeepalive.commands ++ l.farewell).filterMap Command.interval? = [] := by
    intro l
    rw [List.filterMap_append, intervals_stopKeepalive, intervals_of_isOf Link.farewell_isOf,
      List.append_nil]
  refine keepsTime_of_ne ?_ (closeStream_off next)
  cases hl : f.link with
  | none =>
    rw [closeStream_of_none hl, Step.intervals_after, intervals_stopKeepalive, hproceed]
    rfl
  | some l =>
    by_cases hs : l.state = .disconnected
    · rw [closeStream_of_disconnected hl hs, Step.intervals_after, hstop, hproceed]
      rfl
    · rw [closeStream_of_live hl hs]
      exact hstop l

theorem connect_keepsTime : (f.connect o).KeepsTime f := by
  unfold connect
  split
  · exact connectFresh_keepsTime
  · rename_i l hl
    split
    · exact connectFresh_keepsTime
    · exact follow_keepsTime hl Link.connect_falls.turns Link.connect_isMute
        (Link.connect_isOf o).commands

theorem receiveFrame_keepsTime (frame : Channel.Frame) :
    (f.receiveFrame frame).KeepsTime f := by
  unfold receiveFrame
  split
  · exact keepsTime_of_link rfl rfl
  · rename_i m _
    cases m <;> exact keepsTime_of_link rfl rfl

theorem Upheld.notice_keepsTime (hu : f.Upheld c w stack) {i : Nat} {x : Stamp}
    (hi : w.opened[i]? = some x) (n : Channel.Notice) : (f.notice x n o).KeepsTime f := by
  unfold Feed.notice
  split
  · exact rest_keepsTime
  · rename_i l hlink
    obtain ⟨hl, hid⟩ := linkOf?_eq_some.1 hlink
    have hc : ∀ n, ∀ d ∈ (l.notice x.generation n o).commands, d.IsOf l.id := by
      intro n
      have hof := Link.notice_isOf (l := l) o x.generation n
      split at hof <;> exact hof.commands
    have hn := fun n ↦ follow_keepsTime (o := o) hl
      ((hu.link l hl).notice_turns (o := o) hi hid.symm n) (Link.notice_isMute x.generation n)
      (hc n)
    cases n with
    | frame frame =>
      simp only
      split
      · exact receiveFrame_keepsTime frame
      · exact rest_keepsTime
    | opened => exact hn .opened
    | failed message => exact hn (.failed message)
    | closed closing => exact hn (.closed closing)

theorem polled_keepsTime (epoch : Nat) (answer : StatusAnswer) :
    (f.polled epoch answer).KeepsTime f := by
  unfold polled
  split
  · split <;> exact keepsTime_of_link rfl rfl
  · exact rest_keepsTime

theorem Upheld.resume_keepsTime {x : Resume} (hu : f.Upheld c w (x :: stack)) :
    (f.resume o x).KeepsTime f := by
  cases x with
  | nothing => exact rest_keepsTime
  | delivered terminal epoch =>
    simp only [Feed.resume]
    split
    · exact closeStream_keepsTime .nothing
    · exact rest_keepsTime
  | link id r next =>
    simp only [Feed.resume]
    split
    · exact proceed_keepsTime next
    · rename_i l hlink
      obtain ⟨hl, hid⟩ := linkOf?_eq_some.1 hlink
      have hlu := hu.link l hl
      have hcall : (Resume.link id r next).call? l.id = some r := if_pos hid.symm
      simp only [Feed.calls, List.filterMap_cons, hcall] at hlu
      exact adopt_keepsTime hl (Link.resume_falls r).turns hlu.resume_isMute
        (Link.resume_isOf o r).commands next (proceed_keepsTime next)

/-- The alarm rings over a connection that can send: it sends, and sets the next alarm. -/
theorem beat_of_sender {i alarm : Nat} (hs : f.sender? = some i) (hk : f.keepalive = some alarm)
    (hpos : 0 < f.settings.keepalive) :
    f.beat alarm o =
      { feed := { f with keepalive := some o.alarm }
        commands := [.send i keepalivePayload,
          .setAlarm o.alarm f.settings.keepalive .keepalive] } := by
  have hwants : (f.rung alarm).wantsKeepalive = true := by
    have hlink : f.link.bind Link.sender? = some i := hs
    simp [wantsKeepalive, rung, hlink, hpos]
  have hsend : (f.sendKeepalive o).2 = [.send i keepalivePayload] := by
    cases hl : f.link with
    | none => simp [sender?, hl] at hs
    | some l =>
      have hsender : l.sender? = some i := by simpa [sender?, hl] using hs
      simp [sendKeepalive, hl, Link.send, hsender]
  rw [beat_of_connected (connection_of_sender? hs), startKeepalive, if_pos hwants, hsend]
  simp [Step.after, stopKeepalive, rung, hk]

end Feed

end ProgressFeed
