import ProgressFeed.Proofs.Feed.Step
import ProgressFeed.Proofs.Link.Shift

/-!
# A feed does not look at its numbers
-/

namespace ProgressFeed.Shift

variable (σ : Shift) (f : Feed) (o : Outside)

theorem step_after (commands : List Command) (s : Feed.Step) :
    (σ.step s).after (commands.map σ.command) = σ.step (s.after commands) := by
  simp [step, Feed.Step.after]

theorem settings_feed : (σ.feed f).settings = f.settings := rfl

theorem connection_feed : (σ.feed f).connection = f.connection := by
  cases h : f.link <;> simp [Feed.connection, feed, linkOf, h]

theorem attempts_feed : (σ.feed f).attempts = f.attempts := by
  cases h : f.link <;> simp [Feed.attempts, feed, linkOf, h]

theorem linkOf?_feed (id : Nat) :
    (σ.feed f).linkOf? (σ.link + id) = (f.linkOf? id).map σ.linkOf := by
  cases h : f.link with
  | none => simp [Feed.linkOf?, feed, h]
  | some l => by_cases hid : l.id = id <;> simp [Feed.linkOf?, feed, linkOf, h, hid, Option.filter]

/-! ## Signs of life -/

theorem sendKeepalive_feed :
    (σ.feed f).sendKeepalive (σ.outside o) =
      ((f.sendKeepalive o).1, (f.sendKeepalive o).2.map σ.command) := by
  cases h : f.link with
  | none => simp [Feed.sendKeepalive, feed, h]
  | some l => simp [Feed.sendKeepalive, feed, h, send_linkOf]

theorem stopKeepalive_feed : (σ.feed f).stopKeepalive = σ.step f.stopKeepalive := by
  cases h : f.keepalive <;> simp [Feed.stopKeepalive, feed, step, command, h]

theorem wantsKeepalive_feed : (σ.feed f).wantsKeepalive = f.wantsKeepalive := by
  cases h : f.link <;> simp [Feed.wantsKeepalive, feed, h, sender?_linkOf]

theorem startKeepalive_feed :
    (σ.feed f).startKeepalive (σ.outside o) = σ.step (f.startKeepalive o) := by
  unfold Feed.startKeepalive
  rw [wantsKeepalive_feed, stopKeepalive_feed]
  split
  · rw [← step_after]
    rfl
  · rfl

/-! ## The link -/

theorem relay_feed (call : Link.Call) (r : Feed.Resume) :
    (σ.feed f).relay call (σ.resume r) (σ.outside o) = σ.step (f.relay call r o) := by
  cases call with
  | fault e => rfl
  | state was now =>
    have hs : (if now = .connected then (σ.feed f).startKeepalive (σ.outside o)
        else (σ.feed f).stopKeepalive) =
        σ.step (if now = .connected then f.startKeepalive o else f.stopKeepalive) := by
      rw [startKeepalive_feed, stopKeepalive_feed]
      split <;> rfl
    simp only [Feed.relay, hs]
    rw [← step_after]
    rfl

theorem adopt_feed (s : Link.Step) (next : Feed.Next) {rest rest' : Feed → Feed.Step}
    (h : rest' (σ.feed { f with link := some s.link }) =
      σ.step (rest { f with link := some s.link })) :
    (σ.feed f).adopt (σ.linkStep s) next rest' (σ.outside o) =
      σ.step (f.adopt s next rest o) := by
  unfold Feed.adopt
  rw [← step_after]
  refine congrArg (Feed.Step.after _) ?_
  cases hp : s.pause with
  | none =>
    simp only [linkStep, hp, Option.map_none]
    exact h
  | some p =>
    simp only [linkStep, hp, Option.map_some]
    exact relay_feed σ { f with link := some s.link } o p.1 (.link s.link.id p.2 next)

theorem follow_feed (s : Link.Step) :
    (σ.feed f).follow (σ.linkStep s) (σ.outside o) = σ.step (f.follow s o) :=
  adopt_feed σ f o s .nothing rfl

theorem farewell_feed : (σ.feed f).farewell = f.farewell.map σ.command := by
  cases h : f.link <;> simp [Feed.farewell, feed, h, farewell_linkOf]

variable {f}

/-- The links that are still to come have no generations behind them. -/
theorem connectFresh_feed (h : σ.generation f.links = 0) :
    (σ.feed f).connectFresh (σ.outside o) = σ.step (f.connectFresh o) := by
  have hfresh : (σ.feed f).freshLink = σ.linkOf f.freshLink := by
    simp [Feed.freshLink, feed, linkOf, h]
  unfold Feed.connectFresh
  rw [hfresh, connect_linkOf, farewell_feed, ← step_after]
  congr 1
  exact follow_feed σ { f with links := f.links + 1 } o (f.freshLink.connect o)

theorem proceed_feed (h : σ.generation f.links = 0) (next : Feed.Next) :
    (σ.feed f).proceed (σ.outside o) next = σ.step (f.proceed o next) := by
  cases next with
  | nothing | forget => rfl
  | startOver => exact connectFresh_feed (f := f.forget) σ o h
  | retire =>
    simp only [Feed.proceed, farewell_feed]
    rfl

theorem closeStream_feed (h : σ.generation f.links = 0) (next : Feed.Next) :
    (σ.feed f).closeStream next (σ.outside o) = σ.step (f.closeStream next o) := by
  unfold Feed.closeStream
  simp only [stopKeepalive_feed]
  rw [← step_after]
  refine congrArg (Feed.Step.after _) ?_
  obtain ⟨f', hf'⟩ : ∃ f', { f.stopKeepalive.feed with epoch := f.epoch + 1 } = f' := ⟨_, rfl⟩
  have hfeed : { (σ.step f.stopKeepalive).feed with epoch := (σ.feed f).epoch + 1 } = σ.feed f' := by
    rw [← hf']
    rfl
  have hlinks : σ.generation f'.links = 0 := by
    rw [← hf']
    exact h
  simp only [hfeed, hf']
  rw [show (σ.step f.stopKeepalive).feed.link = f.link.map σ.linkOf from rfl,
    show f.stopKeepalive.feed.link = f.link from rfl]
  cases f.link with
  | none => exact proceed_feed σ o hlinks next
  | some l =>
    simp only [Option.map_some, disconnect_linkOf]
    exact adopt_feed σ f' o l.disconnect next
      (proceed_feed (f := { f' with link := some l.disconnect.link }) σ o hlinks next)

theorem connect_feed (h : σ.generation f.links = 0) :
    (σ.feed f).connect (σ.outside o) = σ.step (f.connect o) := by
  unfold Feed.connect
  rw [connectFresh_feed σ o h]
  cases hl : f.link with
  | none => simp [feed, hl]
  | some l =>
    simp only [feed, hl, Option.map_some]
    change (if l.terminal then _ else _) = _
    split
    · rfl
    · rw [connect_linkOf]
      exact follow_feed σ f o (l.connect o)

variable (f)

theorem refresh_feed : (σ.feed f).refresh = f.refresh.map σ.command := by
  unfold Feed.refresh
  change (if f.polls then _ else _) = _
  split <;> rfl

/-! ## What comes in -/

theorem receiveFrame_feed (frame : Channel.Frame) :
    (σ.feed f).receiveFrame frame = σ.step (f.receiveFrame frame) := by
  unfold Feed.receiveFrame
  rw [settings_feed]
  cases Message.ofFrame f.settings.source frame with
  | error r => rfl
  | ok m => cases m <;> rfl

theorem notice_feed (stamp : Stamp) (n : Channel.Notice) :
    (σ.feed f).notice (σ.stamp stamp) n (σ.outside o) = σ.step (f.notice stamp n o) := by
  unfold Feed.notice
  rw [show (σ.stamp stamp).link = σ.link + stamp.link from rfl, linkOf?_feed]
  cases hl : f.linkOf? stamp.link with
  | none => rfl
  | some l =>
    have hid : l.id = stamp.link := (Feed.linkOf?_eq_some.1 hl).2
    have hs : (σ.stamp stamp).generation = σ.generation l.id + stamp.generation := by
      rw [hid]
      rfl
    simp only [Option.map_some, hs]
    cases n with
    | frame frame =>
      simp only [hears_linkOf, receiveFrame_feed]
      split <;> rfl
    | opened | failed | closed =>
      simp only [notice_linkOf]
      exact follow_feed σ f o _

theorem beat_feed (alarm : Nat) :
    (σ.feed f).beat (σ.alarm + alarm) (σ.outside o) = σ.step (f.beat alarm o) := by
  have hrung : (σ.feed f).rung (σ.alarm + alarm) = σ.feed (f.rung alarm) := by
    cases hk : f.keepalive with
    | none => simp [Feed.rung, feed, hk]
    | some i => by_cases hi : i = alarm <;> simp [Feed.rung, feed, hk, hi]
  rw [Feed.beat_eq, Feed.beat_eq]
  simp only [hrung, connection_feed, startKeepalive_feed, sendKeepalive_feed]
  split
  · exact step_after σ _ _
  · rfl

theorem rang_feed (alarm : Nat) (task : Task) :
    (σ.feed f).rang (σ.alarm + alarm) (σ.outside o) (σ.task task) =
      σ.step (f.rang alarm o task) := by
  cases task with
  | keepalive => exact beat_feed σ f o alarm
  | reopen id =>
    simp only [Feed.rang, Shift.task, linkOf?_feed]
    cases f.linkOf? id with
    | none => rfl
    | some l =>
      simp only [Option.map_some, rang_linkOf]
      exact follow_feed σ f o _

theorem polled_feed (epoch : Nat) (answer : StatusAnswer) :
    (σ.feed f).polled (σ.epoch + epoch) answer = σ.step (f.polled epoch answer) := by
  have he : (σ.feed f).epoch = σ.epoch + epoch ↔ f.epoch = epoch := Nat.add_left_cancel_iff
  unfold Feed.polled
  simp only [he]
  split
  · split <;> rfl
  · rfl

variable {f}

theorem resume_feed (h : σ.generation f.links = 0) (r : Feed.Resume) :
    (σ.feed f).resume (σ.outside o) (σ.resume r) = σ.step (f.resume o r) := by
  cases r with
  | nothing => rfl
  | link id r next =>
    simp only [Feed.resume, Shift.resume, linkOf?_feed]
    cases hl : f.linkOf? id with
    | none => exact proceed_feed σ o h next
    | some l =>
      have hid : l.id = id := (Feed.linkOf?_eq_some.1 hl).2
      simp only [Option.map_some, ← hid, resume_linkOf]
      exact adopt_feed σ f o (l.resume o r) next
        (proceed_feed (f := { f with link := some (l.resume o r).link }) σ o h next)
  | delivered terminal epoch =>
    have he : ((σ.feed f).epoch == σ.epoch + epoch) = (f.epoch == epoch) := by
      simp [feed]
    simp only [Feed.resume, Shift.resume, he, closeStream_feed σ o h]
    change (if terminal && f.settings.closesAtEnd && f.epoch == epoch then _ else _) = _
    split <;> rfl

end ProgressFeed.Shift
