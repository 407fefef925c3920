import ProgressFeed.Proofs.Feed.Progress

/-!
# Who closes the channel

A feed closes its channel when somebody ends the stream, when what follows such an ending is done,
and when the last snapshot of a job has been delivered. Every other move leaves the epoch as it is
and closes nothing, whatever else it makes of the link.
-/

namespace ProgressFeed

/-- The channel that the command closes, and how. -/
def Command.closure? : Command → Option (Nat × Channel.Closing)
  | .close i closing => some (i, closing)
  | .create .. | .open .. | .send .. | .setAlarm .. | .stopAlarm _ | .fetch .. => none

theorem Command.IsAside.closure? {d : Command} (h : d.IsAside) : d.closure? = none := by
  cases d with
  | create | «open» | close => exact h.elim
  | send | setAlarm | stopAlarm | fetch => rfl

/-! ## Links -/

namespace Link

variable {l : Link} {o : Outside} {g : Nat}

def Step.Spares (s : Step) : Prop := ∀ d ∈ s.commands, d.closure? = none

theorem Step.IsCalm.spares {s : Step} (h : s.IsCalm l) : s.Spares := fun d hd ↦
  (h.commands d hd).closure?

theorem enter_spares {now : Connection} {resume : Resume} {next : Link → Step}
    (h : (next l).Spares) : (l.enter now resume next).Spares := by
  unfold enter
  split
  · exact h
  · exact rest_isCalm.spares (l := l)

theorem dial_spares : (l.dial g o).Spares := by
  unfold dial
  split
  · split
    · exact enter_spares deny_isCalm.spares
    · split <;> simp [Step.Spares, Step.after, report, Command.closure?]
  · exact rest_isCalm.spares

theorem connect_spares : (l.connect o).Spares := by
  unfold connect
  split
  · exact rest_isCalm.spares
  · intro d hd
    rcases List.mem_append.1 hd with hd | hd
    · exact (isAside_stopCommand d hd).closure?
    · refine enter_spares ?_ d hd
      exact dial_spares

theorem closed_spares (c : Channel.Closing) : (l.closed g c o).Spares := by
  unfold closed
  split
  · exact (enter_isCalm (settle_isCalm c _)).spares
  · exact rest_isCalm.spares

theorem notice_spares (n : Channel.Notice) : (l.notice g n o).Spares := by
  cases n with
  | opened => exact opened_isCalm.spares
  | frame => exact rest_isCalm.spares
  | failed message => exact (failed_isCalm message).spares
  | closed c => exact closed_spares c

theorem resume_spares (r : Resume) : (l.resume o r).Spares := by
  cases r with
  | nothing => exact rest_isCalm.spares
  | dial => exact dial_spares
  | deny => exact deny_isCalm.spares
  | abandon => exact closed_spares .unavailable
  | settle g c i => exact (settle_isCalm c i).spares
  | retry => exact retry_isCalm.spares

theorem filterMap_farewell :
    l.farewell.filterMap Command.closure? = (l.held.map fun i ↦ (i, .byOwner)).toList := by
  have hstop : l.stopCommand.filterMap Command.closure? = [] :=
    List.filterMap_eq_nil_iff.2 fun d hd ↦ (isAside_stopCommand d hd).closure?
  rw [farewell, List.filterMap_append, hstop, List.nil_append]
  cases hc : l.channel <;> simp [held, hc, Command.closure?]

end Link

/-! ## Steps -/

namespace Feed

variable {c : Settings} {f : Feed} {w : Ledger} {stack : List Resume} {o : Outside} {l : Link}

/-- The step begins no new epoch and closes no channel. -/
structure Step.Spares (s : Step) (f : Feed) : Prop where
  epoch : s.feed.epoch = f.epoch
  commands : ∀ d ∈ s.commands, d.closure? = none

theorem Step.Spares.closures {s : Step} (h : s.Spares f) :
    s.commands.filterMap Command.closure? = [] := List.filterMap_eq_nil_iff.2 h.commands

theorem Step.Spares.after {s : Step} (h : s.Spares f) {commands : List Command}
    (hc : ∀ d ∈ commands, d.closure? = none) : (s.after commands).Spares f :=
  ⟨h.epoch, fun d hd ↦ (List.mem_append.1 hd).elim (hc d) (h.commands d)⟩

theorem Step.IsCalm.spares {s : Step} (h : s.IsCalm f) (he : s.feed.epoch = f.epoch) :
    s.Spares f := ⟨he, fun d hd ↦ (h.commands d hd).closure?⟩

theorem rest_spares : f.rest.Spares f := rest_isCalm.spares rfl

theorem startKeepalive_spares : (f.startKeepalive o).Spares f :=
  startKeepalive_isCalm.spares startKeepalive_epoch

theorem relay_spares (call : Link.Call) (x : Resume) : (f.relay call x o).Spares f :=
  (relay_isCalm call x).spares (relay_epoch call x)

theorem adopt_spares {s : Link.Step} (hs : s.Spares) (next : Next) {rest : Feed → Step}
    (hrest : ∀ f, (rest f).Spares f) : (f.adopt s next rest o).Spares f := by
  refine Step.Spares.after (f := f) ?_ hs
  split
  · exact ⟨(hrest _).epoch, (hrest _).commands⟩
  · exact ⟨relay_epoch .., (relay_spares ..).commands⟩

theorem follow_spares {s : Link.Step} (hs : s.Spares) : (f.follow s o).Spares f :=
  adopt_spares hs .nothing fun _ ↦ rest_spares

theorem proceed_spares {next : Next} (h : next.drops = false) : (f.proceed o next).Spares f := by
  cases next with
  | nothing | forget => exact ⟨rfl, rest_spares.commands⟩
  | startOver | retire => cases h

theorem closure?_stopKeepalive : ∀ d ∈ f.stopKeepalive.commands, d.closure? = none := fun d hd ↦
  (stopKeepalive_isCalm.commands d hd).closure?

theorem filterMap_farewell :
    f.farewell.filterMap Command.closure? = (f.channel.map fun i ↦ (i, .byOwner)).toList := by
  cases hl : f.link with
  | none => simp [Feed.farewell, hl, channel_eq_none hl]
  | some l =>
    rw [channel_eq_held hl, ← Link.filterMap_farewell]
    simp [Feed.farewell, hl]

theorem closure?_farewell (hc : f.channel = none) : ∀ d ∈ f.farewell, d.closure? = none := by
  refine List.filterMap_eq_nil_iff.1 ?_
  rw [filterMap_farewell, hc]
  rfl

theorem connectFresh_spares (hc : f.channel = none) : (f.connectFresh o).Spares f := by
  rw [connectFresh_eq]
  refine ⟨rfl, fun d hd ↦ ?_⟩
  exact (List.mem_append.1 hd).elim (closure?_farewell hc d) (closure?_stopKeepalive d)

/-- A link that is replaced holds no channel any more. -/
theorem Upheld.connect_spares (h : f.Upheld c w stack) : (f.connect o).Spares f := by
  unfold Feed.connect
  split
  · exact connectFresh_spares (channel_eq_none ‹_›)
  · rename_i l hl
    split
    · rename_i ht
      have hsound := (h.link l hl).sound
      have hc : l.channel = none := hsound.disconnected (hsound.terminal ht)
      exact connectFresh_spares ((channel_eq_held hl).trans (Link.held_eq_none.2 hc))
    · exact follow_spares Link.connect_spares

theorem receiveFrame_spares (frame : Channel.Frame) : (f.receiveFrame frame).Spares f :=
  (receiveFrame_isCalm frame).spares (receiveFrame_epoch frame)

theorem notice_spares (stamp : Stamp) (n : Channel.Notice) : (f.notice stamp n o).Spares f := by
  unfold notice
  split
  · exact rest_spares
  · cases n with
    | frame frame =>
      simp only
      split
      · exact receiveFrame_spares frame
      · exact rest_spares
    | opened | failed | closed => exact follow_spares (Link.notice_spares _)

theorem rang_spares (alarm : Nat) (task : Task) : (f.rang alarm o task).Spares f := by
  cases task with
  | keepalive =>
    rw [rang, beat_eq]
    split
    · have hs := startKeepalive_spares (f := f.rung alarm) (o := o)
      refine Step.Spares.after (f := f) ⟨hs.epoch, hs.commands⟩ ?_
      exact fun d hd ↦ (sendKeepalive_isAside d hd).closure?
    · exact ⟨rfl, rest_spares.commands⟩
  | reopen id =>
    simp only [rang]
    split
    · exact rest_spares
    · exact follow_spares Link.connect_spares

theorem polled_spares (epoch : Nat) (answer : StatusAnswer) : (f.polled epoch answer).Spares f :=
  (polled_isCalm epoch answer).spares (polled_epoch epoch answer)

/-! ## What is left to do -/

/-- When this is done the stream is closed, or a link is dropped. -/
def Resume.closes (f : Feed) : Resume → Bool
  | .nothing => false
  | .link _ _ next => next.drops
  | .delivered terminal epoch => terminal && f.settings.closesAtEnd && f.epoch == epoch

theorem resume_spares {x : Resume} (h : x.closes f = false) : (f.resume o x).Spares f := by
  cases x with
  | nothing => exact rest_spares
  | delivered terminal epoch =>
    have hif : ¬ (terminal && f.settings.closesAtEnd && f.epoch == epoch) = true := by
      simpa [Resume.closes] using h
    rw [resume, if_neg hif]
    exact rest_spares
  | link id r next =>
    simp only [resume]
    split
    · exact proceed_spares h
    · exact adopt_spares (Link.resume_spares r) next fun _ ↦ proceed_spares h

/-! ## The end of a stream -/

theorem closeStream_nothing_feed : (f.closeStream .nothing o).feed = f.closed := by
  cases hl : f.link with
  | none =>
    rw [closeStream_of_none hl]
    rfl
  | some l =>
    by_cases hs : l.state = .disconnected
    · rw [closeStream_of_disconnected hl hs]
      rfl
    · rw [closeStream_of_live hl hs]

theorem closeStream_nothing_commands :
    (f.closeStream .nothing o).commands = f.stopKeepalive.commands ++ f.farewell := by
  cases hl : f.link with
  | none =>
    rw [closeStream_of_none hl]
    simp [Step.after, proceed, rest, Feed.farewell, hl]
  | some l =>
    have hfarewell : f.farewell = l.farewell := by simp [Feed.farewell, hl]
    rw [hfarewell]
    by_cases hs : l.state = .disconnected
    · rw [closeStream_of_disconnected hl hs]
      simp [Step.after, proceed, rest]
    · rw [closeStream_of_live hl hs]

theorem closeStream_nothing_closures :
    (f.closeStream .nothing o).commands.filterMap Command.closure? =
      (f.channel.map fun i ↦ (i, .byOwner)).toList := by
  have hstop : f.stopKeepalive.commands.filterMap Command.closure? = [] :=
    List.filterMap_eq_nil_iff.2 closure?_stopKeepalive
  rw [closeStream_nothing_commands, List.filterMap_append, hstop, filterMap_farewell,
    List.nil_append]

/-! ## Runs -/

def Record.closure? (x : Record) : Option (Nat × Channel.Closing) :=
  x.command?.bind Command.closure?

theorem filterMap_closure?_command (commands : List Command) :
    (commands.map Record.command).filterMap Record.closure? =
      commands.filterMap Command.closure? := by
  rw [List.filterMap_map]
  rfl

namespace Run

variable {r q : Run} {a : Answers} {m : Move} {cause : Cause} {s : Step}

/-- The channels that the feed has closed so far, and how. -/
def closures (r : Run) : List (Nat × Channel.Closing) := r.records.filterMap Record.closure?

/-- At this move the stream is closed, or what follows a closing is done. -/
def closes (r : Run) : Move → Bool
  | .returned => r.stack.head?.any (·.closes r.feed)
  | m => m.isForgetful

theorem closes_of_ne (h : m ≠ .returned) : r.closes m = m.isForgetful := by
  cases m with
  | returned => exact absurd rfl h
  | _ => rfl

theorem closures_take (r : Run) (cause : Cause) (s : Step) :
    (r.take cause s).closures = r.closures ++ s.commands.filterMap Command.closure? := by
  rw [closures, take, List.filterMap_append, Step.records, List.filterMap_append,
    filterMap_closure?_command]
  cases s.pause <;> simp [closures, Record.closure?, Record.command?]

theorem closures_step (r : Run) (a : Answers) (m : Move) :
    (r.step a m).closures =
      r.closures ++ ((r.news a m).filterMap Record.command?).filterMap Command.closure? := by
  rw [closures, records_step, List.filterMap_append, List.filterMap_filterMap]
  rfl

theorem Makes.closures (hm : r.Makes a m q cause s) (hl : r.isAlive = true) :
    (r.step a m).closures = r.closures ++ s.commands.filterMap Command.closure? := by
  rw [closures_step, hm.commands hl]

theorem Idles.closures (hm : r.Idles a m) : (r.step a m).closures = r.closures := by
  have hnone : ((r.news a m).filterMap Record.command?).filterMap Command.closure? = [] :=
    List.filterMap_eq_nil_iff.2 fun d hd ↦ (hm.commands d hd).closure?
  rw [closures_step, hnone, List.append_nil]

theorem Upheld.spares (h : r.Upheld c) (hm : r.Makes a m q cause s) (hc : r.closes m = false) :
    s.Spares r.feed := by
  cases hm with
  | disconnect | reconnect | retire => cases hc
  | connect => exact Feed.Upheld.connect_spares h
  | frame | notice => exact notice_spares _ _
  | rang => exact rang_spares _ _
  | answer => exact polled_spares _ _
  | returned hs => exact resume_spares (by simpa [closes, hs] using hc)

end Run

end Feed

end ProgressFeed
