import ProgressFeed.Proofs.Rest
import ProgressFeed.Proofs.Session.Run

/-!
# What a session does in one step

A session that opens goes from one operation to the next, until it is open or has failed. An open
session delivers frames, until it fails or closes. A session that is over delivers nothing; but one
that its owner closes while it opens does not break off, and still goes on to the next operation
each time that one succeeds.
-/

namespace ProgressFeed

/-- The operations that lead up to an open channel. -/
def Net.Operation.isOpening : Net.Operation → Bool
  | .resolve | .connect | .handshake | .writeRequest | .readHead => true
  | .readSome | .readResponse | .readMessage | .writeMessage | .closeHandshake | .wait
  | .post => false

namespace Session

def isOver : Session → Bool
  | socket s => s.isOver
  | stream s => s.isOver

def isClosing : Session → Bool
  | socket s => s.isClosing
  | stream s => s.isClosing

/-- What follows an operation of a session that opens, when it has succeeded. -/
def follows (kind : Channel.Kind) : Net.Operation → List Net.Operation
  | .resolve => [.connect]
  | .connect => if kind = .webSocket then [.handshake] else [.writeRequest]
  | .writeRequest => if kind = .webSocket then [] else [.readHead]
  | _ => []

theorem follows_of_not_isOpening {o : Net.Operation} (h : o.isOpening = false)
    (kind : Channel.Kind) : follows kind o = [] := by
  cases o with
  | resolve | connect | writeRequest => cases h
  | _ => rfl

/-- It stands for a failure that has been announced. -/
def Resume.isFailing : Resume → Bool
  | fail _ => true
  | nothing | read | deliver .. => false

/-- A step of a session that is not open yet. -/
inductive Step.Opens (s : Step Session) : Prop
  | quiet (hp : s.pause = none) (ho : s.session.isOver = false) (ha : s.session.accepts = false)
      (hs : ∀ o ∈ s.started, o.isOpening = true) (hl : s.started.length ≤ 1)
  | opened (hp : s.pause = some (.opened, .read)) (ho : s.session.isOver = false)
      (hs : s.started = [])
  | failed {m : Bytes} (hp : s.pause = some (.failed m, .fail m)) (ho : s.session.isOver = false)
      (hs : s.started = [])

/-- A step of an open session. -/
inductive Step.GoesOn (s : Step Session) : Prop
  | quiet (hp : s.pause = none) (ho : s.session.isOver = false)
  | frame {f : Channel.Frame} {x : Resume} (hp : s.pause = some (.frame f, x))
      (hx : x.isFailing = false) (ho : s.session.isOver = false)
  | failed {m : Bytes} (hp : s.pause = some (.failed m, .fail m)) (ho : s.session.isOver = false)
  | closed {c : Channel.Closing} {x : Resume} (hp : s.pause = some (.closed c, x))
      (hc : s.session.kind = .eventStream → c.code = Channel.abnormalCode)
      (ho : s.session.isOver = true)

variable {s : Session} {o : Net.Operation}

@[simp] theorem kind_complete (o : Net.Operation) (c : Net.Completion) (s : Session) :
    (complete o c s).session.kind = s.kind := by
  cases s <;> rfl

@[simp] theorem kind_resume (x : Resume) (s : Session) : (resume x s).session.kind = s.kind := by
  cases s <;> rfl

@[simp] theorem kind_close (c : Channel.Closing) (s : Session) :
    (close c s).session.kind = s.kind := by
  cases s <;> rfl

@[simp] theorem kind_send (payload : Bytes) (s : Session) :
    (send payload s).2.session.kind = s.kind := by
  cases s <;> rfl

theorem start_eq (s : Session) :
    (start s).session = s ∧ (start s).pause = none ∧ (start s).started = [.resolve] := by
  cases s <;> exact ⟨rfl, rfl, rfl⟩

theorem opens_rest (ho : s.isOver = false) (ha : s.accepts = false) :
    Step.Opens { session := s } := by
  refine .quiet rfl ho ha ?_ (Nat.zero_le _)
  intro o hmem
  cases hmem

theorem opens_next (ho : s.isOver = false) (ha : s.accepts = false) {calls : List Net.Call}
    (hs : calls.filterMap Net.Call.starts = [o]) (hopening : o.isOpening = true) :
    Step.Opens { session := s, calls } := by
  refine .quiet rfl ho ha ?_ (Nat.le_of_eq (congrArg List.length hs))
  intro o' hmem
  rw [Step.started, hs, List.mem_singleton] at hmem
  exact hmem ▸ hopening

theorem opens_failed (ho : s.isOver = false) (m : Bytes) :
    Step.Opens { session := s, pause := some (.failed m, .fail m) } := .failed rfl ho rfl

/-! ## Sockets -/

namespace Socket

variable {s : Socket}

theorem fail_of_over (ho : s.isOver = true) (what : String) (e : Net.Error) :
    s.fail what e = s.rest := if_pos ho

theorem fail_cases (ho : s.isOver = false) (what : String) (e : Net.Error) :
    s.fail what e = s.rest ∨
      ∃ m, s.fail what e = { session := s, pause := some (.failed m, .fail m) } := by
  cases hf : failure? (utf8 "websocket " ++ utf8 what) e with
  | none => exact .inl (by simp [fail, ho, hf])
  | some m => exact .inr ⟨m, by simp [fail, ho, hf]⟩

theorem fail_opens (ho : s.isOver = false) (ha : s.accepts = false) (what : String)
    (e : Net.Error) : ((s.fail what e).map socket).Opens := by
  rcases fail_cases ho what e with h | ⟨m, h⟩
  · exact h ▸ opens_rest (s := socket s) ho ha
  · exact h ▸ opens_failed (s := socket s) ho m

theorem onHandshake_opens (ho : s.isOver = false) : (s.onHandshake.map socket).Opens := by
  have hc : s.isClosing = false := (Bool.or_eq_false_iff.1 ho).1
  rw [onHandshake, if_neg (by simp [hc])]
  exact .opened rfl ho rfl

theorem complete_opens {o : Net.Operation} (ho : s.isOver = false) (ha : s.accepts = false)
    (hopening : o.isOpening = true) (c : Net.Completion) : ((s.complete o c).map socket).Opens := by
  unfold complete
  split
  · exact opens_next (s := socket s) ho ha rfl rfl
  · exact fail_opens ho ha "resolve" _
  · exact opens_next (s := socket s) ho ha rfl rfl
  · exact fail_opens ho ha "connect" _
  · exact onHandshake_opens ho
  · exact fail_opens ho ha "handshake" _
  · cases hopening
  · cases hopening
  · exact opens_rest (s := socket s) ho ha

theorem fail_goesOn (ho : s.isOver = false) (what : String) (e : Net.Error) :
    ((s.fail what e).map socket).GoesOn ∧ (s.fail what e).started = [] := by
  rcases fail_cases ho what e with h | ⟨m, h⟩
  · exact h ▸ ⟨.quiet rfl ho, rfl⟩
  · exact h ▸ ⟨.failed rfl ho, rfl⟩

theorem onRead_goesOn (ho : s.isOver = false) (c : Net.Completion) :
    ((s.onRead c).map socket).GoesOn ∧ (s.onRead c).started = [] := by
  unfold onRead
  rw [if_neg (by simp [ho])]
  split
  · exact ⟨.frame rfl rfl ho, rfl⟩
  · split
    · exact ⟨.closed rfl (by simp [kind]) (Bool.or_true _), rfl⟩
    · exact fail_goesOn ho "read" _

theorem write_started (s : Socket) : ∀ o ∈ s.write.started, o = .writeMessage := by
  cases h : s.outbox <;> simp [write, Step.started, h, Net.Call.starts]

theorem onWrite_goesOn (ho : s.isOver = false) (c : Net.Completion) :
    ((s.onWrite c).map socket).GoesOn ∧ ∀ o ∈ (s.onWrite c).started, o.isOpening = false := by
  unfold onWrite
  split
  · obtain ⟨h, hs⟩ := fail_goesOn (s := { s with isWriting := false }) ho "write" ‹_›
    exact ⟨h, by simp [hs]⟩
  · dsimp only
    split
    · exact ⟨.quiet rfl ho, by simp [rest, Step.started]⟩
    · refine ⟨.quiet rfl ho, fun o hmem ↦ ?_⟩
      rw [write_started _ o hmem]
      rfl

theorem complete_goesOn {o : Net.Operation} (ho : s.isOver = false)
    (hopening : o.isOpening = false) (c : Net.Completion) :
    ((s.complete o c).map socket).GoesOn ∧
      ∀ o' ∈ (s.complete o c).started, o'.isOpening = false := by
  have hread := onRead_goesOn ho c
  cases o with
  | resolve | connect | handshake | writeRequest | readHead => cases hopening
  | readMessage => exact ⟨hread.1, by simp [complete, hread.2]⟩
  | writeMessage => exact onWrite_goesOn ho c
  | _ => exact ⟨.quiet rfl ho, by simp [complete, rest, Step.started]⟩

theorem resume_goesOn (ho : s.isOver = false) {x : Resume} (hx : x.isFailing = false) :
    ((s.resume x).map socket).GoesOn ∧ ∀ o ∈ (s.resume x).started, o.isOpening = false := by
  cases x with
  | nothing | deliver => exact ⟨.quiet rfl ho, by simp [resume, rest, Step.started]⟩
  | read =>
    rw [resume, if_neg (by simp [ho])]
    exact ⟨.quiet rfl ho, by simp [Step.started, Net.Call.starts, Net.Operation.isOpening]⟩
  | fail m => cases hx

theorem resume_fail (ho : s.isOver = false) (m : Bytes) :
    s.resume (.fail m) =
      { s.finish ⟨Channel.abnormalCode, m⟩ with calls := [.closeStream] } := if_neg (by simp [ho])

theorem onWrite_of_over (ho : s.isOver = true) (c : Net.Completion) :
    ∃ outbox, s.onWrite c = rest { s with isWriting := false, outbox } := by
  unfold onWrite
  split
  · exact ⟨_, fail_of_over (s := { s with isWriting := false }) ho _ _⟩
  · refine ⟨s.outbox.tail, if_pos ?_⟩
    change (s.outbox.tail.isEmpty || s.isOver) = true
    rw [ho, Bool.or_true]

theorem complete_error_of_over {o : Net.Operation} {c : Net.Completion} {e : Net.Error}
    (ho : s.isOver = true) (he : c.error = some e) (hw : o ≠ .writeMessage) :
    s.complete o c = s.rest := by
  cases o with
  | resolve | connect | handshake => simp [complete, he, fail_of_over ho]
  | readMessage => exact if_pos ho
  | writeMessage => exact absurd rfl hw
  | _ => rfl

theorem complete_of_over {o : Net.Operation} (ho : s.isOver = true)
    (hc : s.isClosing = true ∨ o.isOpening = false) (c : Net.Completion) :
    ((s.complete o c).pause = none ∧ (s.complete o c).session.isOver = true ∧
      (s.complete o c).session.isClosing = s.isClosing) ∧
    (s.complete o c).started = if c.error = none then follows .webSocket o else [] := by
  have hrest : s.rest.pause = none ∧ s.rest.session.isOver = true ∧
      s.rest.session.isClosing = s.isClosing := ⟨rfl, ho, rfl⟩
  cases he : c.error with
  | none =>
    rw [if_pos rfl]
    cases o with
    | resolve | connect =>
      unfold complete
      rw [he]
      exact ⟨⟨rfl, ho, rfl⟩, rfl⟩
    | handshake =>
      have h : s.complete .handshake c = s.rest := by
        simp [complete, he, onHandshake, hc.resolve_right (by decide)]
      exact h ▸ ⟨hrest, rfl⟩
    | readMessage =>
      have h : s.complete .readMessage c = s.rest := by simp [complete, onRead, ho]
      exact h ▸ ⟨hrest, rfl⟩
    | writeMessage =>
      obtain ⟨outbox, h⟩ := onWrite_of_over ho c
      have h : s.complete .writeMessage c = rest { s with isWriting := false, outbox } := h
      exact h ▸ ⟨⟨rfl, ho, rfl⟩, rfl⟩
    | _ => exact ⟨hrest, rfl⟩
  | some e =>
    rw [if_neg (by simp)]
    by_cases hw : o = .writeMessage
    · obtain ⟨outbox, h⟩ := onWrite_of_over ho c
      have h : s.complete o c = rest { s with isWriting := false, outbox } := hw ▸ h
      exact h ▸ ⟨⟨rfl, ho, rfl⟩, rfl⟩
    · exact complete_error_of_over ho he hw ▸ ⟨hrest, rfl⟩

theorem resume_of_over (ho : s.isOver = true) (x : Resume) : s.resume x = s.rest := by
  cases x with
  | read | fail => exact if_pos ho
  | nothing | deliver => rfl

theorem close_of_over (ho : s.isOver = true) (c : Channel.Closing) : s.close c = s.rest := if_pos ho

theorem close_of_live (ho : s.isOver = false) (c : Channel.Closing) :
    (s.close c).session.isClosing = true ∧ (s.close c).pause = none ∧
      ∀ o ∈ (s.close c).started, o.isOpening = false := by
  rw [close, if_neg (by simp [ho])]
  refine ⟨rfl, rfl, ?_⟩
  cases s.isOpen <;> simp [Step.started, Net.Call.starts, Net.Operation.isOpening]

theorem send_of_accepts (ha : s.accepts = true) (payload : Bytes) :
    ((s.send payload).2.session.isOver = s.isOver ∧ (s.send payload).2.pause = none) ∧
      ∀ o ∈ (s.send payload).2.started, o.isOpening = false := by
  simp only [send, ha, if_true]
  split
  · exact ⟨⟨rfl, rfl⟩, by simp [rest, Step.started]⟩
  · refine ⟨⟨rfl, rfl⟩, fun o hmem ↦ ?_⟩
    rw [write_started _ o hmem]
    rfl

end Socket

/-! ## Streams -/

namespace Stream

variable {s : Stream}

theorem fail_of_over (ho : s.isOver = true) (what : String) (e : Net.Error) :
    s.fail what e = s.rest := if_pos ho

theorem fail_cases (ho : s.isOver = false) (what : String) (e : Net.Error) :
    s.fail what e = s.rest ∨ ∃ m, s.fail what e = s.failWith m := by
  cases hf : failure? (utf8 "event stream " ++ utf8 what) e with
  | none => exact .inl (by simp [fail, ho, hf])
  | some m => exact .inr ⟨m, by simp [fail, ho, hf]⟩

theorem fail_opens (ho : s.isOver = false) (what : String) (e : Net.Error) :
    ((s.fail what e).map stream).Opens := by
  rcases fail_cases ho what e with h | ⟨m, h⟩
  · exact h ▸ opens_rest (s := stream s) ho rfl
  · exact h ▸ opens_failed (s := stream s) ho m

theorem onHead_opens (ho : s.isOver = false) (c : Net.Completion) :
    ((s.onHead c).map stream).Opens := by
  have hc : s.isClosing = false := (Bool.or_eq_false_iff.1 ho).1
  rw [onHead, if_neg (by simp [hc])]
  split
  · exact opens_failed (s := stream s) ho _
  · exact .opened rfl ho rfl

theorem complete_opens {o : Net.Operation} (ho : s.isOver = false) (hopening : o.isOpening = true)
    (c : Net.Completion) : ((s.complete o c).map stream).Opens := by
  unfold complete
  split
  · exact opens_next (s := stream s) ho rfl rfl rfl
  · exact fail_opens ho "resolve" _
  · exact opens_next (s := stream s) ho rfl rfl rfl
  · exact fail_opens ho "connect" _
  · exact opens_next (s := stream s) ho rfl rfl rfl
  · exact fail_opens ho "write" _
  · exact onHead_opens ho c
  · exact fail_opens ho "read header" _
  · cases hopening
  · exact opens_rest (s := stream s) ho rfl

theorem finishBody_goesOn (s : Stream) :
    (s.finishBody.map stream).GoesOn ∧ s.finishBody.started = [] :=
  ⟨.closed rfl (fun _ ↦ rfl) (Bool.or_true _), rfl⟩

theorem deliver_goesOn (ho : s.isOver = false) (isDone : Bool) (events : List EventStream.Event) :
    ((s.deliver isDone events).map stream).GoesOn ∧
      ∀ o ∈ (s.deliver isDone events).started, o.isOpening = false := by
  cases events with
  | nil =>
    cases isDone with
    | true => exact ⟨(finishBody_goesOn s).1, by simp [deliver, (finishBody_goesOn s).2]⟩
    | false =>
      refine ⟨.quiet rfl ho, ?_⟩
      simp [deliver, readOn, Step.started, Net.Call.starts, Net.Operation.isOpening]
  | cons e events => exact ⟨.frame rfl rfl ho, by simp [deliver, Step.started]⟩

theorem onPiece_goesOn (ho : s.isOver = false) (c : Net.Completion) :
    ((s.onPiece c).map stream).GoesOn ∧ ∀ o ∈ (s.onPiece c).started, o.isOpening = false := by
  unfold onPiece
  split
  · exact ⟨.failed rfl ho, by simp [failWith, Step.started]⟩
  · rename_i reader events _
    exact deliver_goesOn (s := { s with reader }) ho c.isDone events

theorem onRead_goesOn (ho : s.isOver = false) (c : Net.Completion) :
    ((s.onRead c).map stream).GoesOn ∧ ∀ o ∈ (s.onRead c).started, o.isOpening = false := by
  unfold onRead
  rw [if_neg (by simp [ho])]
  split
  · exact onPiece_goesOn ho c
  · split
    · exact onPiece_goesOn ho c
    · exact ⟨(finishBody_goesOn s).1, by simp [(finishBody_goesOn s).2]⟩
    · exact ⟨(finishBody_goesOn s).1, by simp [(finishBody_goesOn s).2]⟩
    · rename_i e _ _ _ _ _
      rcases fail_cases ho "read" e with h | ⟨m, h⟩
      · exact h ▸ ⟨.quiet rfl ho, by simp [rest, Step.started]⟩
      · exact h ▸ ⟨.failed rfl ho, by simp [failWith, Step.started]⟩

theorem complete_goesOn {o : Net.Operation} (ho : s.isOver = false)
    (hopening : o.isOpening = false) (c : Net.Completion) :
    ((s.complete o c).map stream).GoesOn ∧
      ∀ o' ∈ (s.complete o c).started, o'.isOpening = false := by
  cases o with
  | resolve | connect | handshake | writeRequest | readHead => cases hopening
  | readSome => exact onRead_goesOn ho c
  | _ => exact ⟨.quiet rfl ho, by simp [complete, rest, Step.started]⟩

theorem resume_goesOn (ho : s.isOver = false) {x : Resume} (hx : x.isFailing = false) :
    ((s.resume x).map stream).GoesOn ∧ ∀ o ∈ (s.resume x).started, o.isOpening = false := by
  cases x with
  | nothing => exact ⟨.quiet rfl ho, by simp [resume, rest, Step.started]⟩
  | read =>
    rw [resume, if_neg (by simp [ho])]
    exact deliver_goesOn ho false []
  | deliver events isDone =>
    rw [resume, if_neg (by simp [ho])]
    exact deliver_goesOn ho isDone events
  | fail m => cases hx

theorem resume_fail (ho : s.isOver = false) (m : Bytes) :
    s.resume (.fail m) = { s.finish m with calls := [.closeStream] } := if_neg (by simp [ho])

theorem complete_error_of_over {o : Net.Operation} {c : Net.Completion} {e : Net.Error}
    (ho : s.isOver = true) (he : c.error = some e) : s.complete o c = s.rest := by
  cases o with
  | resolve | connect | writeRequest | readHead => simp [complete, he, fail_of_over ho]
  | readSome => exact if_pos ho
  | _ => rfl

theorem complete_of_over {o : Net.Operation} (ho : s.isOver = true)
    (hc : s.isClosing = true ∨ o.isOpening = false) (c : Net.Completion) :
    ((s.complete o c).session = s ∧ (s.complete o c).pause = none) ∧
      (s.complete o c).started = if c.error = none then follows .eventStream o else [] := by
  have hrest : s.rest.session = s ∧ s.rest.pause = none := ⟨rfl, rfl⟩
  cases he : c.error with
  | none =>
    rw [if_pos rfl]
    cases o with
    | resolve | connect | writeRequest =>
      unfold complete
      rw [he]
      exact ⟨⟨rfl, rfl⟩, rfl⟩
    | readHead =>
      have h : s.complete .readHead c = s.rest := by
        simp [complete, he, onHead, hc.resolve_right (by decide)]
      exact h ▸ ⟨hrest, rfl⟩
    | readSome =>
      have h : s.complete .readSome c = s.rest := by simp [complete, onRead, ho]
      exact h ▸ ⟨hrest, rfl⟩
    | _ => exact ⟨hrest, rfl⟩
  | some e =>
    rw [if_neg (by simp)]
    exact complete_error_of_over ho he ▸ ⟨hrest, rfl⟩

theorem resume_of_over (ho : s.isOver = true) (x : Resume) : s.resume x = s.rest := by
  cases x with
  | read | fail | deliver => exact if_pos ho
  | nothing => rfl

theorem close_of_over (ho : s.isOver = true) : s.close = s.rest := if_pos ho

theorem close_of_live (ho : s.isOver = false) :
    s.close.session.isClosing = true ∧ s.close.pause = none ∧ s.close.started = [] := by
  rw [close, if_neg (by simp [ho])]
  exact ⟨rfl, rfl, rfl⟩

end Stream

/-! ## Sessions of either kind -/

theorem complete_opens (ho : s.isOver = false) (ha : s.accepts = false)
    (hopening : o.isOpening = true) (c : Net.Completion) : (complete o c s).Opens := by
  cases s with
  | socket s => exact Socket.complete_opens ho ha hopening c
  | stream s => exact Stream.complete_opens ho hopening c

theorem complete_goesOn (ho : s.isOver = false) (hopening : o.isOpening = false)
    (c : Net.Completion) :
    (complete o c s).GoesOn ∧ ∀ o' ∈ (complete o c s).started, o'.isOpening = false := by
  cases s with
  | socket s => exact Socket.complete_goesOn ho hopening c
  | stream s => exact Stream.complete_goesOn ho hopening c

theorem complete_peerClosed (ho : s.isOver = false) (hk : s.kind = .webSocket)
    {c : Net.Completion} {e : Net.Error} (he : c.error = some e) (hclosed : e.kind = .closed) :
    (complete .readMessage c s).records = [.notice (.closed ⟨c.code, c.reason⟩)] := by
  cases s with
  | socket s =>
    have ho : s.isOver = false := ho
    have h : s.complete .readMessage c = s.finish ⟨c.code, c.reason⟩ := by
      simp [Socket.complete, Socket.onRead, ho, he, hclosed]
    rw [complete, h]
    rfl
  | stream s => cases hk

theorem resume_goesOn (ho : s.isOver = false) {x : Resume} (hx : x.isFailing = false) :
    (resume x s).GoesOn ∧ ∀ o ∈ (resume x s).started, o.isOpening = false := by
  cases s with
  | socket s => exact Socket.resume_goesOn ho hx
  | stream s => exact Stream.resume_goesOn ho hx

theorem resume_fail (ho : s.isOver = false) (m : Bytes) :
    ((resume (.fail m) s).calls = [.closeStream] ∧
      (resume (.fail m) s).pause = some (.closed ⟨Channel.abnormalCode, m⟩, .nothing)) ∧
      (resume (.fail m) s).session.isOver = true := by
  cases s with
  | socket s =>
    have h := Socket.resume_fail ho m
    simp only [resume, h]
    exact ⟨⟨rfl, rfl⟩, Bool.or_true _⟩
  | stream s =>
    have h := Stream.resume_fail ho m
    simp only [resume, h]
    exact ⟨⟨rfl, rfl⟩, Bool.or_true _⟩

theorem complete_of_over (ho : s.isOver = true) (hc : s.isClosing = true ∨ o.isOpening = false)
    (c : Net.Completion) :
    ((complete o c s).pause = none ∧ (complete o c s).session.isOver = true ∧
      (complete o c s).session.isClosing = s.isClosing) ∧
    (complete o c s).started = if c.error = none then follows s.kind o else [] := by
  cases s with
  | socket s => exact Socket.complete_of_over ho hc c
  | stream s =>
    obtain ⟨⟨hs, hp⟩, hstarted⟩ := Stream.complete_of_over ho hc c
    refine ⟨⟨hp, ?_, congrArg Stream.isClosing hs⟩, hstarted⟩
    exact (congrArg Stream.isOver hs).trans ho

theorem resume_of_over (ho : s.isOver = true) (x : Resume) : resume x s = { session := s } := by
  cases s with
  | socket s => exact congrArg (Step.map socket) (Socket.resume_of_over ho x)
  | stream s => exact congrArg (Step.map stream) (Stream.resume_of_over ho x)

theorem close_of_over (ho : s.isOver = true) (c : Channel.Closing) :
    close c s = { session := s } := by
  cases s with
  | socket s => exact congrArg (Step.map socket) (Socket.close_of_over ho c)
  | stream s => exact congrArg (Step.map stream) (Stream.close_of_over ho)

theorem close_of_live (ho : s.isOver = false) (c : Channel.Closing) :
    (close c s).session.isClosing = true ∧ (close c s).pause = none ∧
      ∀ o ∈ (close c s).started, o.isOpening = false := by
  cases s with
  | socket s => exact Socket.close_of_live ho c
  | stream s =>
    obtain ⟨hc, hp, hs⟩ := Stream.close_of_live ho
    exact ⟨hc, hp, fun o hmem ↦ by simp [close, hs] at hmem⟩

theorem send_of_not_accepts (ha : s.accepts = false) (payload : Bytes) :
    (send payload s).2 = { session := s } := by
  cases s with
  | socket s =>
    have ha : s.accepts = false := ha
    simp only [send, Socket.send, ha]
    rfl
  | stream s => rfl

theorem send_of_accepts (ha : s.accepts = true) (payload : Bytes) :
    ((send payload s).2.session.isOver = s.isOver ∧ (send payload s).2.pause = none) ∧
      ∀ o ∈ (send payload s).2.started, o.isOpening = false := by
  cases s with
  | socket s => exact Socket.send_of_accepts ha payload
  | stream s => cases ha

theorem not_isOver_of_accepts (ha : s.accepts = true) : s.isOver = false := by
  cases s with
  | socket s =>
    have ha : s.accepts = true := ha
    simp only [Socket.accepts, Bool.and_eq_true, Bool.not_eq_true'] at ha
    exact ha.2
  | stream s => cases ha

theorem isOver_of_isClosing (hc : s.isClosing = true) : s.isOver = true := by
  cases s <;> exact Bool.or_eq_true_iff.2 (.inl hc)

/-! ## Coming to rest -/

/-- How many notices may follow this one before the session waits for the network. -/
def Resume.weight : Resume → Nat
  | .nothing | .read => 1
  | .fail _ => 2
  | .deliver events _ => events.length + 2

theorem Resume.weight_pos (x : Resume) : 0 < x.weight := by
  cases x <;> simp [weight]

theorem resume_weight (x : Resume) (s : Session) :
    burden Resume.weight ((resume x s).pause.map Prod.snd).toList < x.weight := by
  cases s with
  | socket s =>
    cases x with
    | fail m =>
      simp only [resume, Step.map, Socket.resume]
      split <;> simp [burden, Socket.rest, Socket.finish, Resume.weight]
    | read =>
      simp only [resume, Step.map, Socket.resume]
      split <;> simp [burden, Socket.rest, Resume.weight]
    | nothing | deliver => simp [burden, resume, Step.map, Socket.resume, Socket.rest, Resume.weight]
  | stream s =>
    cases x with
    | fail m =>
      simp only [resume, Step.map, Stream.resume]
      split <;> simp [burden, Stream.rest, Stream.finish, Resume.weight]
    | read =>
      simp only [resume, Step.map, Stream.resume]
      split <;> simp [burden, Stream.rest, Stream.readOn, Resume.weight]
    | nothing => simp [burden, resume, Step.map, Stream.resume, Stream.rest, Resume.weight]
    | deliver events isDone =>
      simp only [resume, Step.map, Stream.resume]
      split
      · simp [burden, Stream.rest, Resume.weight]
      · cases events with
        | nil =>
          cases isDone <;>
            simp [burden, Stream.deliver, Stream.finishBody, Stream.finish, Stream.readOn,
              Resume.weight]
        | cons e events => simp [burden, Stream.deliver, Resume.weight]

namespace Run

def weight (r : Run) : Nat := burden Resume.weight r.stack

theorem weight_eq_zero {r : Run} : r.weight = 0 ↔ r.stack = [] := burden_eq_zero Resume.weight_pos

theorem returned_lessens : Lessens (step · .returned) weight where
  lt r hr := by
    obtain ⟨x, stack, hx⟩ := List.exists_cons_of_ne_nil fun hs ↦ hr (weight_eq_zero.2 hs)
    have hlt := resume_weight x r.session
    simp only [weight, step, hx, take, burden_append, burden]
    omega
  fixed r hr := by simp [step, weight_eq_zero.1 hr]

/-- The owner returns from every callback. -/
def finish (r : Run) : Run := runDown (step · .returned) weight r

theorem stack_finish (r : Run) : r.finish.stack = [] :=
  weight_eq_zero.1 (returned_lessens.runDown_measure r)

theorem play_replicate (r : Run) (m : Move) (n : Nat) :
    r.play (List.replicate n m) = (step · m)^[n] r := by
  induction n generalizing r with
  | zero => rfl
  | succ n ih => exact ih (r.step m)

/-- When the owner returns from every callback nothing is left to do in the end. -/
theorem comes_to_rest (r : Run) : ∃ n, (r.play (List.replicate n .returned)).stack = [] :=
  ⟨r.weight, (play_replicate r .returned r.weight).symm ▸ r.stack_finish⟩

end Run

end Session

end ProgressFeed
