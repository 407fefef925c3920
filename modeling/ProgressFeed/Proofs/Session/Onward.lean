import ProgressFeed.Proofs.Session.Step

/-!
# How a session is carried on

A session is carried on by one operation at a time. When it has completed the next one follows, at
once or when the owner has returned from the notices between them, or else the session fails and is
over. Writes go on beside that.
-/

namespace ProgressFeed

/-- The operation carries a session on. -/
def Net.Operation.isChained : Net.Operation → Bool
  | .resolve | .connect | .handshake | .writeRequest | .readHead | .readSome | .readMessage => true
  | .readResponse | .writeMessage | .closeHandshake | .wait | .post => false

namespace Session

/-- What carries a session of this kind on, in this order; the last is repeated. -/
def chain : Channel.Kind → List Net.Operation
  | .webSocket => [.resolve, .connect, .handshake, .readMessage]
  | .eventStream => [.resolve, .connect, .writeRequest, .readHead, .readSome]

/-- Behind the notice the session goes on. -/
def Resume.leadsOn : Channel.Kind → Resume → Bool
  | _, .read => true
  | .eventStream, .deliver .. => true
  | .webSocket, .deliver .. => false
  | _, .nothing | _, .fail _ => false

variable {kind : Channel.Kind} {o : Net.Operation} {x : Resume} {s : Session}

/-- The step carries the session on, unless that is over. -/
inductive Step.Continues (kind : Channel.Kind) (s : Step Session) : Prop
  | onward {o : Net.Operation} (ho : o ∈ chain kind) (hp : s.pause = none) (hs : s.started = [o])
  | tells {n : Channel.Notice} {x : Resume} (hp : s.pause = some (n, x)) (hs : s.started = [])
      (hx : x.isFailing = true ∨ x.leadsOn kind = true)
  | ends (ho : s.session.isOver = true)

/-- The step goes on beside what carries the session on. -/
inductive Step.Attends (s : Step Session) : Prop
  | quiet (hp : s.pause = none) (hs : ∀ o ∈ s.started, o.isChained = false)
  | failed {m : Bytes} (hp : s.pause = some (.failed m, .fail m)) (hs : s.started = [])

theorem attends_rest (s : Session) : Step.Attends { session := s } := by
  refine .quiet rfl ?_
  intro o ho
  cases ho

theorem kind_ne_aborted {c : Net.Completion} {e : Net.Error} (hc : c.errorKind ≠ some .aborted)
    (he : c.error = some e) : e.kind ≠ .aborted := by
  intro hk
  apply hc
  rw [Net.Completion.errorKind, he, Option.map_some, hk]

theorem isChained_of_mem (ho : o ∈ chain kind) : o.isChained = true := by
  cases kind <;> revert o <;> decide

/-! ## Sockets -/

namespace Socket

variable {s : Socket}

theorem fail_continues (ho : s.isOver = false) (what : String) {e : Net.Error}
    (hk : e.kind ≠ .aborted) : ((s.fail what e).map socket).Continues kind := by
  simp only [fail, ho, failure?, hk, if_false, Bool.false_eq_true]
  exact .tells rfl rfl (.inl rfl)

theorem onRead_continues (ho : s.isOver = false) {c : Net.Completion}
    (hc : c.errorKind ≠ some .aborted) : ((s.onRead c).map socket).Continues .webSocket := by
  unfold onRead
  rw [if_neg (by simp [ho])]
  split
  · exact .tells rfl rfl (.inr rfl)
  · rename_i e he
    split
    · exact .ends (Bool.or_true _)
    · exact fail_continues ho "read" (kind_ne_aborted hc he)

theorem complete_continues (ho : s.isOver = false) (hmem : o ∈ chain .webSocket)
    {c : Net.Completion} (hc : c.errorKind ≠ some .aborted) :
    ((s.complete o c).map socket).Continues .webSocket := by
  have hclosing : s.isClosing = false := (Bool.or_eq_false_iff.1 ho).1
  simp only [chain, List.mem_cons, List.not_mem_nil, or_false] at hmem
  cases he : c.error with
  | none =>
    rcases hmem with rfl | rfl | rfl | rfl
    · simp only [complete, he]
      exact .onward (o := .connect) (by decide) rfl rfl
    · simp only [complete, he]
      exact .onward (o := .handshake) (by decide) rfl rfl
    · simp only [complete, he, onHandshake, hclosing, if_false, Bool.false_eq_true]
      exact .tells rfl rfl (.inr rfl)
    · exact onRead_continues ho hc
  | some e =>
    rcases hmem with rfl | rfl | rfl | rfl
    · simp only [complete, he]
      exact fail_continues ho "resolve" (kind_ne_aborted hc he)
    · simp only [complete, he]
      exact fail_continues ho "connect" (kind_ne_aborted hc he)
    · simp only [complete, he]
      exact fail_continues ho "handshake" (kind_ne_aborted hc he)
    · exact onRead_continues ho hc

theorem write_attends (s : Socket) : (s.write.map socket).Attends := by
  refine .quiet rfl fun o ho ↦ ?_
  rw [write_started s o ho]
  rfl

theorem fail_attends (ho : s.isOver = false) (what : String) (e : Net.Error) :
    ((s.fail what e).map socket).Attends := by
  rcases fail_cases ho what e with h | ⟨m, h⟩
  · exact h ▸ attends_rest (socket s)
  · exact h ▸ .failed rfl rfl

theorem onWrite_attends (ho : s.isOver = false) (c : Net.Completion) :
    ((s.onWrite c).map socket).Attends := by
  unfold onWrite
  split
  · exact fail_attends (s := { s with isWriting := false }) ho "write" _
  · dsimp only
    split
    · exact attends_rest _
    · exact write_attends _

theorem complete_attends (ho : s.isOver = false) (hchained : o.isChained = false)
    (c : Net.Completion) : ((s.complete o c).map socket).Attends := by
  cases o with
  | writeMessage => exact onWrite_attends ho c
  | readResponse | closeHandshake | wait | post => exact attends_rest (socket s)
  | _ => cases hchained

theorem resume_continues (ho : s.isOver = false)
    (hx : x.isFailing = true ∨ x.leadsOn .webSocket = true) :
    ((s.resume x).map socket).Continues .webSocket := by
  cases x with
  | read =>
    rw [resume, if_neg (by simp [ho])]
    exact .onward (o := .readMessage) (by decide) rfl rfl
  | fail m =>
    rw [resume_fail ho]
    exact .ends (Bool.or_true _)
  | nothing | deliver => simp [Resume.isFailing, Resume.leadsOn] at hx

theorem send_quiet (s : Socket) (payload : Bytes) :
    (s.send payload).2.pause = none ∧ ∀ o ∈ (s.send payload).2.started, o.isChained = false := by
  unfold send
  split
  · dsimp only
    split
    · exact ⟨rfl, by simp [rest, Step.started]⟩
    · refine ⟨rfl, fun o ho ↦ ?_⟩
      rw [write_started _ o ho]
      rfl
  · exact ⟨rfl, by simp [rest, Step.started]⟩

end Socket

/-! ## Streams -/

namespace Stream

variable {s : Stream}

theorem failWith_continues (s : Stream) (m : Bytes) :
    ((s.failWith m).map stream).Continues kind := .tells rfl rfl (.inl rfl)

theorem fail_continues (ho : s.isOver = false) (what : String) {e : Net.Error}
    (hk : e.kind ≠ .aborted) : ((s.fail what e).map stream).Continues kind := by
  simp only [fail, ho, failure?, hk, if_false, Bool.false_eq_true]
  exact failWith_continues s _

theorem deliver_continues (s : Stream) (isDone : Bool) (events : List EventStream.Event) :
    ((s.deliver isDone events).map stream).Continues .eventStream := by
  cases events with
  | nil =>
    cases isDone with
    | true => exact .ends (Bool.or_true _)
    | false => exact .onward (o := .readSome) (by decide) rfl rfl
  | cons e events => exact .tells rfl rfl (.inr rfl)

theorem onPiece_continues (s : Stream) (c : Net.Completion) :
    ((s.onPiece c).map stream).Continues .eventStream := by
  unfold onPiece
  split
  · exact failWith_continues _ _
  · exact deliver_continues _ _ _

theorem onRead_continues (ho : s.isOver = false) {c : Net.Completion}
    (hc : c.errorKind ≠ some .aborted) : ((s.onRead c).map stream).Continues .eventStream := by
  unfold onRead
  rw [if_neg (by simp [ho])]
  split
  · exact onPiece_continues s c
  · rename_i e he
    split
    · exact onPiece_continues s c
    · exact .ends (Bool.or_true _)
    · exact .ends (Bool.or_true _)
    · exact fail_continues ho "read" (kind_ne_aborted hc he)

theorem complete_continues (ho : s.isOver = false) (hmem : o ∈ chain .eventStream)
    {c : Net.Completion} (hc : c.errorKind ≠ some .aborted) :
    ((s.complete o c).map stream).Continues .eventStream := by
  have hclosing : s.isClosing = false := (Bool.or_eq_false_iff.1 ho).1
  simp only [chain, List.mem_cons, List.not_mem_nil, or_false] at hmem
  cases he : c.error with
  | none =>
    rcases hmem with rfl | rfl | rfl | rfl | rfl
    · simp only [complete, he]
      exact .onward (o := .connect) (by decide) rfl rfl
    · simp only [complete, he]
      exact .onward (o := .writeRequest) (by decide) rfl rfl
    · simp only [complete, he]
      exact .onward (o := .readHead) (by decide) rfl rfl
    · simp only [complete, he, onHead, hclosing, if_false, Bool.false_eq_true]
      split
      · exact failWith_continues s _
      · exact .tells rfl rfl (.inr rfl)
    · exact onRead_continues ho hc
  | some e =>
    rcases hmem with rfl | rfl | rfl | rfl | rfl
    · simp only [complete, he]
      exact fail_continues ho "resolve" (kind_ne_aborted hc he)
    · simp only [complete, he]
      exact fail_continues ho "connect" (kind_ne_aborted hc he)
    · simp only [complete, he]
      exact fail_continues ho "write" (kind_ne_aborted hc he)
    · simp only [complete, he]
      exact fail_continues ho "read header" (kind_ne_aborted hc he)
    · exact onRead_continues ho hc

theorem complete_attends (hchained : o.isChained = false) (c : Net.Completion) :
    ((s.complete o c).map stream).Attends := by
  cases o with
  | readResponse | writeMessage | closeHandshake | wait | post => exact attends_rest (stream s)
  | _ => cases hchained

theorem resume_continues (ho : s.isOver = false)
    (hx : x.isFailing = true ∨ x.leadsOn .eventStream = true) :
    ((s.resume x).map stream).Continues .eventStream := by
  cases x with
  | read =>
    rw [resume, if_neg (by simp [ho])]
    exact deliver_continues s false []
  | deliver events isDone =>
    rw [resume, if_neg (by simp [ho])]
    exact deliver_continues s isDone events
  | fail m =>
    rw [resume_fail ho]
    exact .ends (Bool.or_true _)
  | nothing => simp [Resume.isFailing, Resume.leadsOn] at hx

end Stream

/-! ## Sessions of either kind -/

theorem complete_continues (ho : s.isOver = false) (hmem : o ∈ chain s.kind)
    {c : Net.Completion} (hc : c.errorKind ≠ some .aborted) : (complete o c s).Continues s.kind := by
  cases s with
  | socket s => exact Socket.complete_continues ho hmem hc
  | stream s => exact Stream.complete_continues ho hmem hc

theorem complete_attends (ho : s.isOver = false) (hchained : o.isChained = false)
    (c : Net.Completion) : (complete o c s).Attends := by
  cases s with
  | socket s => exact Socket.complete_attends ho hchained c
  | stream s => exact Stream.complete_attends hchained c

theorem resume_continues (ho : s.isOver = false)
    (hx : x.isFailing = true ∨ x.leadsOn s.kind = true) : (resume x s).Continues s.kind := by
  cases s with
  | socket s => exact Socket.resume_continues ho hx
  | stream s => exact Stream.resume_continues ho hx

theorem send_quiet (payload : Bytes) (s : Session) :
    (send payload s).2.pause = none ∧ ∀ o ∈ (send payload s).2.started, o.isChained = false := by
  cases s with
  | socket s => exact Socket.send_quiet s payload
  | stream s => exact ⟨rfl, by simp [send, Stream.send, Stream.rest, Step.map, Step.started]⟩

theorem start_continues (s : Session) : (start s).Continues s.kind := by
  obtain ⟨-, hp, hs⟩ := start_eq s
  refine .onward (o := .resolve) ?_ hp hs
  cases s.kind <;> decide

/-- A session that is over is told of operations in vain, except of those that lead up to an open
channel. -/
theorem complete_calls_of_over (ho : s.isOver = true) (hopening : o.isOpening = false)
    (c : Net.Completion) : (complete o c s).calls = [] := by
  cases s with
  | socket s =>
    cases o with
    | readMessage =>
      have h : s.complete .readMessage c = s.rest := if_pos ho
      exact congrArg Step.calls h
    | writeMessage =>
      obtain ⟨outbox, h⟩ := Socket.onWrite_of_over ho c
      exact congrArg Step.calls h
    | readSome | readResponse | closeHandshake | wait | post => rfl
    | _ => cases hopening
  | stream s =>
    cases o with
    | readSome =>
      have h : s.complete .readSome c = s.rest := if_pos ho
      exact congrArg Step.calls h
    | readMessage | writeMessage | readResponse | closeHandshake | wait | post => rfl
    | _ => cases hopening

end Session

end ProgressFeed
