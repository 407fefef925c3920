import ProgressFeed.Proofs.Feed.Told

/-!
# What frames leave behind

Only snapshots leave a trace in the feed, and only the last one of a job has further consequences, if
the stream is to end with the job.
-/

namespace ProgressFeed.Feed

namespace Run

variable {c : Settings} {r : Run}

theorem step_frame_ledger (hu : r.Upheld c) (i : Nat) (frame : Channel.Frame) (a : Answers) :
    (r.step a (.notice i (.frame frame))).ledger = r.ledger := by
  by_cases hi : r.feed.channel = some i
  · rw [step_frame_of_held hu hi]
    simp [take, note]
  · rw [step_frame_of_not_held hu hi]

theorem step_frame_feed (hu : r.Upheld c) (i : Nat) (frame : Channel.Frame) (a : Answers) :
    (r.step a (.notice i (.frame frame))).feed = r.feed ∨
      ∃ s, frame.snapshot? c.source = some s ∧
        (r.step a (.notice i (.frame frame))).feed = r.feed.seen s := by
  by_cases hi : r.feed.channel = some i
  · rw [step_frame_of_held hu hi, receiveFrame_eq, hu.settings]
    split
    · rename_i s hs
      exact .inr ⟨s, hs, rfl⟩
    · exact .inl rfl
  · rw [step_frame_of_not_held hu hi]
    exact .inl rfl

theorem farewell_of_channel (hu : r.Upheld c) {i : Nat} (hi : r.feed.channel = some i) :
    r.feed.farewell = [.close i .byOwner] ∧ r.feed.connection ≠ .disconnected := by
  cases hl : r.feed.link with
  | none => simp [channel, hl] at hi
  | some l =>
    have hc : l.channel.map Channel.Held.id = some i := by simpa [channel, hl] using hi
    have hsound := (hu.link l hl).sound
    have hlive : l.state ≠ .disconnected := by
      intro hst
      simp [hsound.disconnected hst] at hc
    have hal : l.alarm = none := by
      by_contra hal
      exact hlive (hsound.alarm hal).1
    obtain ⟨d, hd, rfl⟩ := Option.map_eq_some_iff.1 hc
    constructor
    · simp [Feed.farewell, hl, Link.farewell, Link.stopCommand, hal, hd]
    · simpa [connection, hl] using hlive

/-- The stream ends with the job: the owner's part is done, and the last snapshot stays. -/
theorem play_frame_of_end (hu : r.Upheld c) (hstack : r.stack = []) {i : Nat}
    (hi : r.feed.channel = some i) {frame : Channel.Frame} {s : Snapshot}
    (hs : frame.snapshot? c.source = some s) (ht : s.isTerminal = true)
    (hc : c.closesAtEnd = true) (a a' a'' : Answers) :
    let r' := r.play [(a, .notice i (.frame frame)), (a', .returned), (a'', .returned)]
    r'.stack = [] ∧ r'.feed = (r.feed.seen s).closed ∧
      r'.records = r.records ++ [.frame frame, .event .frame (.snapshot s)] ++
        r.feed.stopKeepalive.commands.map .command ++
        [.command (.close i .byOwner),
          .event .other (.state c.source r.feed.connection .disconnected)] := by
  obtain ⟨hfarewell, hlive⟩ := farewell_of_channel hu hi
  have hstep := step_frame_of_held hu hi frame a
  rw [receiveFrame_eq, hu.settings, hs] at hstep
  simp only [play_cons, play_nil]
  obtain ⟨r₁, h₁⟩ : ∃ r₁, r.step a (.notice i (.frame frame)) = r₁ := ⟨_, rfl⟩
  rw [h₁] at hstep ⊢
  have hstack₁ : r₁.stack = [.delivered true r.feed.epoch] := by
    simp [hstep, take, note, Step.pending, hstack, ht]
  have hclose : r₁.feed.resume (r₁.ledger.outside a') (.delivered true r.feed.epoch) =
      (r.feed.seen s).closeStream .nothing (r₁.ledger.outside a') := by
    simp [hstep, take, note, resume, seen, hu.settings, hc]
  rw [step_returned_cons hstack₁, hclose, closeStream_returned rfl (fun _ ↦ rfl)]
  refine ⟨rfl, rfl, ?_⟩
  have hconnection : (r.feed.seen s).connection = r.feed.connection := rfl
  have hfarewell' : (r.feed.seen s).farewell = [.close i .byOwner] := hfarewell
  have hstop : (r.feed.seen s).stopKeepalive.commands = r.feed.stopKeepalive.commands := rfl
  have hsource : (r.feed.seen s).settings = c := hu.settings
  simp [hstep, take, note, Step.records, closing, hconnection, hlive, hfarewell', hstop, hsource]

/-- Otherwise nothing is left to do when the event has been delivered. -/
theorem play_frame_of_not_end (hu : r.Upheld c) (hstack : r.stack = []) {i : Nat}
    {frame : Channel.Frame}
    (hs : r.feed.channel = some i → ∀ s, frame.snapshot? c.source = some s →
      (s.isTerminal && c.closesAtEnd) = false) (a a' a'' : Answers) :
    r.play [(a, .notice i (.frame frame)), (a', .returned), (a'', .returned)] =
      { r.step a (.notice i (.frame frame)) with stack := [] } := by
  simp only [play_cons, play_nil]
  by_cases hi : r.feed.channel = some i
  · obtain ⟨r₁, h₁⟩ : ∃ r₁, r.step a (.notice i (.frame frame)) = r₁ := ⟨_, rfl⟩
    have hstep := step_frame_of_held hu hi frame a
    have hdone : ∀ x, r₁.stack = [x] → (∀ o, r₁.feed.resume o x = r₁.feed.rest) →
        (r₁.step a' .returned).step a'' .returned = { r₁ with stack := [] } := by
      intro x hx hrest
      rw [step_returned_cons hx, hrest, step_returned_nil rfl]
      simp [take, rest, Step.pending, Step.records]
    rw [receiveFrame_eq, hu.settings] at hstep
    rw [h₁] at hstep ⊢
    split at hstep
    · rename_i s hsnap
      refine hdone (.delivered s.isTerminal r.feed.epoch) ?_ fun o ↦ ?_
      · simp [hstep, take, note, Step.pending, hstack]
      · have hsettings : r₁.feed.settings = c := by
          rw [hstep]
          exact hu.settings
        simp [resume, hsettings, hs hi s hsnap]
    · cases he : frame.event? c.source with
      | none =>
        have hstack₁ : r₁.stack = [] := by simp [hstep, take, note, Step.pending, hstack, he]
        rw [step_returned_nil hstack₁, step_returned_nil hstack₁]
        cases r₁
        cases hstack₁
        rfl
      | some e =>
        refine hdone .nothing ?_ fun o ↦ rfl
        simp [hstep, take, note, Step.pending, hstack, he]
  · rw [step_frame_of_not_held hu hi, step_returned_nil hstack, step_returned_nil hstack]
    cases r
    cases hstack
    rfl

end Run

open Run

/-- In every run, the frames that the held channel has brought and what has been published:
the snapshots, answers to queries apart, are those of the frames, in order, and so are the signs of
life; the faults to which frames have led are one for each frame that cannot be read and one for each
error of the server; and no frame leads to anything else.
Further, no frame changes the link, the ledger or the alarm for the next sign of life, and a frame
without a snapshot changes nothing in the feed at all.
If nobody calls the feed meanwhile, this is also all that there is when the event has been delivered;
except that the last snapshot of a job, if the stream is to end with it, is followed by the close of
the channel, after which the feed is apart, has no alarm set, and still has the snapshot. -/
theorem frames_published_in_order (c : Settings) (polls : Bool) (now : Int)
    (moves : List (Answers × Move)) :
    let r := (start c polls now).play moves
    let frames := r.records.filterMap Record.frame?
    (r.records.filterMap Record.snapshot? = frames.filterMap (·.snapshot? c.source) ∧
      r.records.filterMap Record.heartbeat? = frames.filterMap (·.heartbeat? c.source) ∧
      r.records.filterMap Record.fault? = frames.filterMap (·.fault? c.source) ∧
      r.records.filterMap Record.ofFrame? = frames.filterMap (·.event? c.source)) ∧
    (∀ (i : Nat) (frame : Channel.Frame) (a : Answers),
      let r' := r.step a (.notice i (.frame frame))
      r'.ledger = r.ledger ∧ r'.feed.link = r.feed.link ∧ r'.feed.keepalive = r.feed.keepalive ∧
        (frame.snapshot? c.source = none → r'.feed = r.feed)) ∧
    (∀ (i : Nat) (frame : Channel.Frame) (a a' a'' : Answers), r.stack = [] →
      let r' := r.play [(a, .notice i (.frame frame)), (a', .returned), (a'', .returned)]
      ((r.feed.channel = some i → ∀ s, frame.snapshot? c.source = some s →
          (s.isTerminal && c.closesAtEnd) = false) →
        r' = { r.step a (.notice i (.frame frame)) with stack := [] }) ∧
      (∀ s, r.feed.channel = some i → frame.snapshot? c.source = some s → s.isTerminal = true →
        c.closesAtEnd = true →
        r'.stack = [] ∧ r'.feed.connection = .disconnected ∧ r'.feed.attempts = 0 ∧
          r'.feed.channel = none ∧ r'.ledger.clock.alarms = [] ∧ r'.feed.latest = some s ∧
          r'.feed.phases = r.feed.phases.observe s.phase ∧
          r'.records = r.records ++ [.frame frame, .event .frame (.snapshot s)] ++
            r.feed.stopKeepalive.commands.map .command ++
            [.command (.close i .byOwner),
              .event .other (.state c.source r.feed.connection .disconnected)])) := by
  intro r frames
  have hu : r.Upheld c := upheld_play (upheld_start c polls now) moves
  obtain ⟨hevents, hsnapshots, hheartbeats, hfaults⟩ := told_play c polls now moves
  refine ⟨⟨hsnapshots, hheartbeats, hfaults, hevents⟩, fun i frame a ↦ ?_,
    fun i frame a a' a'' hstack ↦ ⟨fun hs ↦ play_frame_of_not_end hu hstack hs a a' a'', ?_⟩⟩
  · refine ⟨step_frame_ledger hu i frame a, ?_⟩
    rcases step_frame_feed hu i frame a with hf | ⟨s, hs, hf⟩
    · exact ⟨congrArg Feed.link hf, congrArg Feed.keepalive hf, fun _ ↦ hf⟩
    · refine ⟨?_, ?_, fun hn ↦ by simp [hs] at hn⟩
      · rw [hf]
        rfl
      · rw [hf]
        rfl
  · intro s hi hs ht hc
    obtain ⟨hstack', hfeed, hrecords⟩ := play_frame_of_end hu hstack hi hs ht hc a a' a''
    have hu' : (r.play [(a, .notice i (.frame frame)), (a', .returned), (a'', .returned)]).Upheld c :=
      upheld_play hu _
    refine ⟨hstack', ?_, ?_, ?_, ?_, ?_, ?_, hrecords⟩
    · rw [hfeed, connection_closed]
    · rw [hfeed, attempts_closed]
    · rw [hfeed, channel_closed]
    · refine hu'.alarms_eq_nil (hfeed ▸ rfl) fun l hl ↦ ?_
      obtain ⟨m, -, rfl⟩ := closed_link (hfeed ▸ hl)
      rfl
    · rw [hfeed]
      rfl
    · rw [hfeed]
      rfl

/-- A channel is opened and heard of. -/
def openMoves : List (Answers × Move) :=
  [.connect, .returned, .notice 0 .opened, .returned].map
    (⟨some (utf8 "token"), some true, true⟩, ·)

/-- The frame that ends a job. -/
def lastFrame : Channel.Frame where
  event := some (utf8 "progress")
  text := utf8 "\x7b\"phase\":\"completed\"\x7d"

/-- A feed that ends with its job, on an open channel. -/
def endingRun : Run := (start { source := utf8 "job", closesAtEnd := true } true 0).play openMoves

def lastSnapshot : Snapshot :=
  { source := utf8 "job", phase := .completed, description := Phase.completed.description }

def afterLast : Run :=
  endingRun.play [({}, .notice 0 (.frame lastFrame)), ({}, .returned), ({}, .returned)]

theorem frames_published_in_order_last :
    endingRun.stack = [] ∧ endingRun.feed.channel = some 0 ∧
      lastFrame.snapshot? (utf8 "job") = some lastSnapshot ∧
      afterLast.feed.latest = some lastSnapshot ∧ afterLast.feed.connection = .disconnected ∧
        afterLast.ledger.clock.alarms = [] := by
  have hstack : endingRun.stack = [] := rfl
  have hi : endingRun.feed.channel = some 0 := rfl
  have hs : lastFrame.snapshot? (utf8 "job") = some lastSnapshot := by decide +kernel
  have h := (frames_published_in_order { source := utf8 "job", closesAtEnd := true } true 0
    openMoves).2.2 0 lastFrame {} {} {} hstack
  obtain ⟨-, hconnection, -, -, halarms, hlatest, -, -⟩ := h.2 lastSnapshot hi hs rfl rfl
  refine ⟨hstack, hi, hs, ?_⟩
  unfold afterLast endingRun
  exact ⟨hlatest, hconnection, halarms⟩

end ProgressFeed.Feed
