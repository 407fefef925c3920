import ProgressFeed.Proofs.Feed.Frames
import ProgressFeed.Proofs.Feed.Past
import ProgressFeed.Proofs.Message.Wrapping

/-!
# The ways in which a snapshot arrives

A snapshot counts for the same whether a frame or the answer to a query has brought it, and so does
a fault in its place.
-/

namespace ProgressFeed.Feed

open Message (Carries)

theorem receiveFrame_eq_polled {f : Feed} {frame : Channel.Frame}
    {x : Except Message.Rejection Snapshot}
    (h : Message.ofFrame f.settings.source frame = .progress <$> x) :
    f.receiveFrame frame = f.polled f.epoch ((some <$> x).mapError Message.Rejection.fault) := by
  cases x with
  | error rejection =>
    have hframe : Message.ofFrame f.settings.source frame = .error rejection := h
    simp [receiveFrame, hframe, polled, Except.mapError]
  | ok s =>
    have hframe : Message.ofFrame f.settings.source frame = .ok (.progress s) := h
    simp [receiveFrame, hframe, receive, polled, Except.mapError]

namespace Run

variable {c : Settings} {r r' : Run}

/-- The two runs are in the same state, and have published the same and given the same commands. -/
structure Alike (r r' : Run) : Prop where
  feed : r.feed = r'.feed
  isAlive : r.isAlive = r'.isAlive
  ledger : r.ledger = r'.ledger
  stack : r.stack = r'.stack
  events : r.records.filterMap Record.event? = r'.records.filterMap Record.event?
  commands : r.records.filterMap Record.command? = r'.records.filterMap Record.command?

theorem Alike.play (h : r.Alike r') (moves : List (Answers × Move)) :
    (r.play moves).Alike (r'.play moves) := by
  obtain ⟨q, hq⟩ : ∃ q, { r with records := [] } = q := ⟨_, rfl⟩
  have hr : r = q.behind r.records := by
    rw [← hq]
    simp [behind]
  have hr' : r' = q.behind r'.records := by
    rw [← hq]
    cases r'
    simp [behind, h.feed, h.isAlive, h.ledger, h.stack]
  have hevents := h.events
  have hcommands := h.commands
  generalize r.records = past at hr hevents hcommands
  generalize r'.records = past' at hr' hevents hcommands
  subst hr hr'
  rw [play_behind, play_behind]
  refine ⟨rfl, rfl, rfl, rfl, ?_, ?_⟩
  · simp only [behind, List.filterMap_append, hevents]
  · simp only [behind, List.filterMap_append, hcommands]

theorem take_frame_alike (r : Run) (frame : Channel.Frame) (s : Step) :
    ((r.note (.frame frame)).take .frame s).Alike (r.take .answer s) := by
  refine ⟨rfl, rfl, rfl, rfl, ?_, ?_⟩
  · simp only [take, note, List.filterMap_append, Step.filterMap_event?_records]
    simp [Record.event?]
  · simp only [take, note, List.filterMap_append, Step.filterMap_command?_records]
    simp [Record.command?]

theorem Upheld.alike (hu : r.Upheld c) {i q : Nat} {frame : Channel.Frame}
    {x : Except Message.Rejection Snapshot} (hi : r.feed.channel = some i)
    (hq : r.ledger.queries[q]? = some r.feed.epoch)
    (hx : Message.ofFrame c.source frame = .progress <$> x) (a a' : Answers) :
    (r.step a (.notice i (.frame frame))).Alike
      (r.step a' (.answer q ((some <$> x).mapError Message.Rejection.fault))) := by
  have hframe := receiveFrame_eq_polled (f := r.feed) (hu.settings.symm ▸ hx)
  rw [step_frame_of_held hu hi, hframe]
  simp only [Run.step, hq]
  exact take_frame_alike r frame _

end Run

open Run

/-- Whatever the members of an object: a frame that carries them as progress, in whichever wrapping,
and a status answer that consists of them give the same snapshot, or are rejected for the same reason.
And in every run, whatever is under way, a frame of the held channel that carries them and an answer
to a query of the current epoch that consists of them come to the same: in everything that follows,
the same events are published, the same commands are given, and the state of the feed, its link, its
alarms and what is left to do are the same. -/
theorem arrives_alike (c : Settings) (polls : Bool) (now : Int) (moves : List (Answers × Move))
    (p : Message.Payload) :
    (∀ (source : Bytes) (frame : Channel.Frame), Carries p frame →
      Message.ofFrame source frame = .progress <$> Message.readSnapshot source (.object p)) ∧
    (∀ (source body : Bytes), Json.parse? body = some (.object p) →
      Message.ofStatusBody source body = some <$> Message.readSnapshot source (.object p)) ∧
    (let r := (start c polls now).play moves
      ∀ (i q : Nat) (frame : Channel.Frame) (body : Bytes) (a a' : Answers)
        (more : List (Answers × Move)),
        r.feed.channel = some i → r.ledger.queries[q]? = some r.feed.epoch → Carries p frame →
        Json.parse? body = some (.object p) →
        let answer := (Message.ofStatusBody c.source body).mapError Message.Rejection.fault
        ((r.step a (.notice i (.frame frame))).play more).Alike
          ((r.step a' (.answer q answer)).play more)) := by
  refine ⟨fun source frame h ↦ Message.ofFrame_of_carries h source,
    fun source body h ↦ Message.ofStatusBody_of_object h source, ?_⟩
  intro r i q frame body a a' more hi hq hframe hbody
  have hu : r.Upheld c := upheld_play (upheld_start c polls now) moves
  rw [Message.ofStatusBody_of_object hbody]
  exact (hu.alike hi hq (Message.ofFrame_of_carries hframe c.source) a a').play more

def lastMembers : Message.Payload := [(utf8 "phase", .text (utf8 "completed"))]

def lastBody : Bytes := utf8 "\x7b\"phase\":\"completed\"\x7d"

/-- The end of a job, as the data of an envelope. -/
def lastEnvelope : Channel.Frame where
  text := utf8 "\x7b\"type\":\"progress\",\"data\":\x7b\"phase\":\"completed\"\x7d\x7d"

theorem parse?_lastBody : Json.parse? lastBody = some (.object lastMembers) := by cbv

theorem carries_lastEnvelope : Carries lastMembers lastEnvelope := by
  have htext : Json.parse? lastEnvelope.text =
      some (.object [(utf8 "type", .text (utf8 "progress")), (utf8 "data", .object lastMembers)]) := by
    cbv
  exact .enveloped _ htext (.inl rfl) rfl rfl

/-- A channel is opened and heard of, and the status is asked for. -/
def askMoves : List (Answers × Move) := openMoves ++ [(({} : Answers), .refresh)]

/-- A feed that ends with its job, on an open channel, with a query under way. -/
def askingRun : Run := (start { source := utf8 "job", closesAtEnd := true } true 0).play askMoves

theorem arrives_alike_last :
    askingRun.feed.channel = some 0 ∧ askingRun.ledger.queries[0]? = some askingRun.feed.epoch ∧
      Carries lastMembers lastEnvelope ∧ Json.parse? lastBody = some (.object lastMembers) ∧
      ((askingRun.step {} (.notice 0 (.frame lastEnvelope))).play
          [({}, .returned), ({}, .returned)]).Alike
        ((askingRun.step {} (.answer 0 ((Message.ofStatusBody (utf8 "job") lastBody).mapError
          Message.Rejection.fault))).play [({}, .returned), ({}, .returned)]) := by
  have hi : askingRun.feed.channel = some 0 := rfl
  have hq : askingRun.ledger.queries[0]? = some askingRun.feed.epoch := rfl
  refine ⟨hi, hq, carries_lastEnvelope, parse?_lastBody, ?_⟩
  exact (arrives_alike { source := utf8 "job", closesAtEnd := true } true 0 askMoves
    lastMembers).2.2 0 0 lastEnvelope lastBody {} {} _ hi hq carries_lastEnvelope parse?_lastBody

end ProgressFeed.Feed
