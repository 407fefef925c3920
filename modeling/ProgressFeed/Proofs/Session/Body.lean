import ProgressFeed.Proofs.EventStream.Pieces
import ProgressFeed.Proofs.Session.Contract

/-!
# The frames of a body

The body of a response comes in pieces, which the network cuts as it likes. What the owner of an
event stream hears depends on the body alone: the events that are complete in it, up to the first
line that is too long, and after them how the stream has ended.
-/

namespace ProgressFeed.Session

open EventStream EventStream.Reader Stage

/-- The longest line that a stream may have. -/
def lineLimit : Nat := 1024 * 1024

/-- What the owner hears of a line that is longer. -/
def overlongMessage : Bytes := utf8 "event stream: " ++ (Failure.lineTooLong lineLimit).message

/-- What the owner hears of events. -/
def framesOf (events : List Event) : List Record :=
  events.map fun e ↦ .notice (.frame (Stream.frame e))

theorem framesOf_append (events more : List Event) :
    framesOf (events ++ more) = framesOf events ++ framesOf more := List.map_append

/-- What the owner of an open stream has heard when it has got these events. -/
def told (events : List Event) : List Record := .notice .opened :: framesOf events

def Record.frame? : Record → Option Channel.Frame
  | .notice (.frame f) => some f
  | .notice .opened | .notice (.failed _) | .notice (.closed _) | .call _ | .closing | .sent .. =>
    none

theorem filterMap_frame?_framesOf (events : List Event) :
    (framesOf events).filterMap Record.frame? = events.map Stream.frame := by
  simp [framesOf, List.filterMap_map, Function.comp_def, Record.frame?]

theorem filterMap_frame?_told (events : List Event) :
    (told events).filterMap Record.frame? = events.map Stream.frame :=
  filterMap_frame?_framesOf events

theorem filterMap_frame?_dialogue (records : List Record) :
    (dialogue records).filterMap Record.frame? = records.filterMap Record.frame? := by
  rw [dialogue, List.filterMap_filter]
  refine congrArg (List.filterMap · records) (funext fun x ↦ ?_)
  cases x <;> rfl

theorem dialogue_append (records more : List Record) :
    dialogue (records ++ more) = dialogue records ++ dialogue more := List.filter_append ..

theorem dialogue_calls (calls : List Net.Call) : dialogue (calls.map .call) = [] :=
  List.filter_eq_nil_iff.2 (by simp)

/-! ## Steps of a stream -/

namespace Stream

variable {s : Stream} {body : Bytes}

/-- What a stream that opens may do next: it goes on to another operation at most, it is open, or it
has failed. -/
inductive Advances (s : Stream) : Step Stream → Prop
  | quiet (calls : List Net.Call)
      (hs : ∀ o ∈ calls.filterMap Net.Call.starts, o.isOpening = true)
      (hl : (calls.filterMap Net.Call.starts).length ≤ 1) :
    Advances s { session := s, calls }
  | opened : Advances s { session := s, calls := [.expireNever], pause := some (.opened, .read) }
  | failed (m : Bytes) : Advances s (s.failWith m)

theorem advances_next {calls : List Net.Call} {o : Net.Operation}
    (hs : calls.filterMap Net.Call.starts = [o]) (ho : o.isOpening = true) :
    s.Advances { session := s, calls } :=
  .quiet calls (by simp [hs, ho]) (by simp [hs])

theorem rest_advances : s.Advances s.rest := .quiet [] (by simp) (by simp)

theorem fail_advances (ho : s.isOver = false) (what : String) (e : Net.Error) :
    s.Advances (s.fail what e) := by
  rcases fail_cases ho what e with h | ⟨m, h⟩
  · exact h ▸ rest_advances
  · exact h ▸ .failed m

theorem onHead_advances (ho : s.isOver = false) (c : Net.Completion) : s.Advances (s.onHead c) := by
  have hc : s.isClosing = false := (Bool.or_eq_false_iff.1 ho).1
  rw [onHead, if_neg (by simp [hc])]
  split
  · exact .failed _
  · exact .opened

theorem complete_advances (ho : s.isOver = false) {o : Net.Operation} (hopening : o.isOpening = true)
    (c : Net.Completion) : s.Advances (s.complete o c) := by
  unfold complete
  split
  · exact advances_next rfl rfl
  · exact fail_advances ho "resolve" _
  · exact advances_next rfl rfl
  · exact fail_advances ho "connect" _
  · exact advances_next rfl rfl
  · exact fail_advances ho "write" _
  · exact onHead_advances ho c
  · exact fail_advances ho "read header" _
  · cases hopening
  · exact rest_advances

end Stream

namespace Run

variable {r : Run} {s : Stream} {body piece : Bytes}

/-- The piece of the body that the move brings. -/
def piece? (r : Run) : Move → Option Bytes
  | .complete i c =>
    if r.stack = [] ∧ r.pending[i]? = some .readSome ∧
        (c.error = none ∨ c.errorKind = some .bufferFull) then
      some (c.data.take Stream.pieceSize)
    else none
  | .open | .close _ | .send _ | .returned => none

/-- The pieces of the body that the moves bring. -/
def pieces (r : Run) : List Move → List Bytes
  | [] => []
  | m :: moves => (r.piece? m).toList ++ (r.step m).pieces moves

/-- The events that are still to be delivered. -/
def owed (r : Run) : List Event :=
  r.stack.flatMap fun
    | .deliver events _ => events
    | .nothing | .read | .fail _ => []

/-- The stream has read the body so far, without a fault. -/
structure Reads (s : Stream) (body : Bytes) : Prop where
  reader : s.reader = behind lineLimit body
  fits : Reader.Fits lineLimit body
  isOver : s.isOver = false

/-- What the owner has heard of the body: all of it, or nothing if the stream did not open. -/
def Heard (body : Bytes) (records : List Record) : Prop :=
  records = told (legible lineLimit body) ∨ records = [] ∧ body = []

/-- A failure of this message may end the stream. Behind a line that is too long no other may. -/
def MayFail (body : Bytes) (m : Bytes) : Prop := Reader.Fits lineLimit body ∨ m = overlongMessage

/-- What the owner hears at the end of the stream. -/
inductive Ending (body : Bytes) : List Record → Prop
  | ended (hf : Reader.Fits lineLimit body) :
    Ending body [.notice (.closed ⟨Channel.abnormalCode, utf8 "event stream ended"⟩)]
  | failed {m : Bytes} (hm : MayFail body m) :
    Ending body [.notice (.failed m), .notice (.closed ⟨Channel.abnormalCode, m⟩)]

/-- How a stream stands that has read the body and is not closed by its owner. -/
inductive Standing (r : Run) (s : Stream) (body : Bytes) : Prop
  | opening (hs : Reads s body) (hbody : body = []) (hstack : r.stack = [])
      (hpending : ∀ o ∈ r.pending, o.isOpening = true) (hlen : r.pending.length ≤ 1)
      (hstarted : r.isStarted = false → r.pending = []) (hd : dialogue r.records = [])
  | reading (hs : Reads s body)
      (hwait : r.stack = [.read] ∧ r.pending = [] ∨ r.stack = [] ∧ r.pending = [.readSome] ∨
        r.stack = [] ∧ r.pending = [])
      (hstarted : r.isStarted = true) (hd : dialogue r.records = told (legible lineLimit body))
  | delivering {events : List Event} {isDone : Bool} (hs : Reads s body)
      (hstack : r.stack = [.deliver events isDone]) (hpending : r.pending = [])
      (hstarted : r.isStarted = true)
      (hd : dialogue r.records ++ framesOf events = told (legible lineLimit body))
  | failing {m : Bytes} {heard : List Record} (ho : s.isOver = false) (hm : MayFail body m)
      (hstack : r.stack = [.fail m]) (hpending : r.pending = []) (hstarted : r.isStarted = true)
      (hh : Heard body heard) (hd : dialogue r.records = heard ++ [.notice (.failed m)])
  | gone {heard ending : List Record} (ho : s.isOver = true) (he : Ending body ending)
      (hstack : r.stack = [] ∨ r.stack = [.nothing]) (hpending : r.pending = [])
      (hstarted : r.isStarted = true) (hh : Heard body heard)
      (hd : dialogue r.records = heard ++ ending)

def Stands (r : Run) (body : Bytes) : Prop := ∃ s, r.session = .stream s ∧ r.Standing s body

theorem legible_nil (limit : Nat) : legible limit [] = [] := rfl

theorem reads_nil {s : Stream} (hr : s.reader = {}) (ho : s.isOver = false) : Reads s [] :=
  ⟨hr, by simp [Reader.Fits], ho⟩

theorem dialogue_take (r : Run) (x : Step Session) :
    dialogue (r.take x).records = dialogue r.records ++ (x.pause.map (Record.notice ·.1)).toList := by
  rw [take, dialogue_append, Step.records, dialogue_append, dialogue_calls]
  cases x.pause <;> rfl

/-- What an owner who lets the stream be does otherwise changes nothing. -/
theorem Standing.congr {r' : Run} (h : r.Standing s body) (hstarted : r'.isStarted = r.isStarted)
    (hpending : r'.pending = r.pending) (hstack : r'.stack = r.stack)
    (hd : dialogue r'.records = dialogue r.records) : r'.Standing s body := by
  cases h with
  | opening hs hbody h₁ h₂ h₃ h₄ h₅ =>
    rw [← hstack] at h₁
    rw [← hpending] at h₂ h₃ h₄
    rw [← hstarted] at h₄
    exact .opening hs hbody h₁ h₂ h₃ h₄ (hd.trans h₅)
  | reading hs hwait h₁ h₂ =>
    rw [← hstack, ← hpending] at hwait
    exact .reading hs hwait (hstarted.trans h₁) (hd.trans h₂)
  | delivering hs h₁ h₂ h₃ h₄ =>
    rw [← hd] at h₄
    exact .delivering hs (hstack.trans h₁) (hpending.trans h₂) (hstarted.trans h₃) h₄
  | failing ho hm h₁ h₂ h₃ hh h₄ =>
    exact .failing ho hm (hstack.trans h₁) (hpending.trans h₂) (hstarted.trans h₃) hh (hd.trans h₄)
  | gone ho he h₁ h₂ h₃ hh h₄ =>
    rw [← hstack] at h₁
    exact .gone ho he h₁ (hpending.trans h₂) (hstarted.trans h₃) hh (hd.trans h₄)

theorem take_stack (h : r.stack = []) (x : Step Session) :
    (r.take x).stack = (x.pause.map Prod.snd).toList := by
  rw [take, h, List.append_nil]

theorem take_pending (h : r.pending = []) (x : Step Session) : (r.take x).pending = x.started := by
  rw [take, h, List.nil_append]

section Take

variable (hstack : r.stack = []) (hpending : r.pending = []) (hstarted : r.isStarted = true)

include hstack hpending hstarted

/-- A stream that opens makes a step. -/
theorem take_advances {x : Step Stream} (h : s.Advances x) (hs : Reads s [])
    (hd : dialogue r.records = []) : (r.take (x.map .stream)).Stands [] := by
  have hdialogue := dialogue_take r (x.map .stream)
  have hst := take_stack hstack (x.map .stream)
  have hpe := take_pending hpending (x.map .stream)
  rw [hd] at hdialogue
  cases h with
  | quiet calls ho hl =>
    refine ⟨s, rfl, .opening hs rfl hst (hpe ▸ ho) (hpe ▸ hl) (fun h ↦ ?_) hdialogue⟩
    exact absurd (hstarted.symm.trans h) nofun
  | opened => exact ⟨s, rfl, .reading hs (.inl ⟨hst, hpe⟩) hstarted hdialogue⟩
  | failed m =>
    exact ⟨s, rfl, .failing hs.isOver (.inl hs.fits) hst hpe hstarted (.inr ⟨rfl, rfl⟩) hdialogue⟩

/-- Events are delivered, and after them the stream goes on or ends. -/
theorem take_deliver {events : List Event} (hs : Reads s body)
    (hd : dialogue r.records ++ framesOf events = told (legible lineLimit body)) (isDone : Bool) :
    (r.take ((s.deliver isDone events).map .stream)).Stands body := by
  have hdialogue := dialogue_take r ((s.deliver isDone events).map .stream)
  have hst := take_stack hstack ((s.deliver isDone events).map .stream)
  have hpe := take_pending hpending ((s.deliver isDone events).map .stream)
  cases events with
  | nil =>
    rw [framesOf, List.map_nil, List.append_nil] at hd
    rw [hd] at hdialogue
    cases isDone with
    | true =>
      exact ⟨{ s with isFinished := true }, rfl,
        .gone (Bool.or_true _) (.ended hs.fits) (.inr hst) hpe hstarted (.inl rfl) hdialogue⟩
    | false =>
      exact ⟨s, rfl, .reading hs (.inr (.inl ⟨hst, hpe⟩)) hstarted
        (hdialogue.trans (List.append_nil _))⟩
  | cons e events =>
    refine ⟨s, rfl, .delivering hs hst hpe hstarted ?_⟩
    rw [hdialogue, List.append_assoc]
    exact hd

/-- The stream fails behind what it has read. -/
theorem take_failWith {m : Bytes} (ho : s.isOver = false) (hm : MayFail body m)
    (hd : dialogue r.records = told (legible lineLimit body)) :
    (r.take ((s.failWith m).map .stream)).Stands body := by
  have hdialogue := dialogue_take r ((s.failWith m).map .stream)
  rw [hd] at hdialogue
  exact ⟨s, rfl, .failing ho hm (take_stack hstack _) (take_pending hpending _) hstarted (.inl rfl)
    hdialogue⟩

/-- A piece of the body is read. -/
theorem take_onPiece (hs : Reads s body) (hd : dialogue r.records = told (legible lineLimit body))
    (c : Net.Completion) :
    (r.take ((s.onPiece c).map .stream)).Stands (body ++ c.data.take Stream.pieceSize) := by
  have hp : (c.data.take Stream.pieceSize).length ≤ lineLimit :=
    (List.length_take_le _ _).trans (by decide)
  have hfeed := feed_behind hs.fits hp
  rw [← hs.reader] at hfeed
  rcases hfeed with ⟨hf, more, hfeed, hmore⟩ | ⟨-, hsame, reader, hfeed⟩
  · have honPiece : s.onPiece c =
        Stream.deliver { s with reader := behind lineLimit (body ++ c.data.take Stream.pieceSize) }
          c.isDone more := by
      simp only [Stream.onPiece, hfeed]
    have hreads : Reads { s with reader := behind lineLimit (body ++ c.data.take Stream.pieceSize) }
        (body ++ c.data.take Stream.pieceSize) := ⟨rfl, hf, hs.isOver⟩
    rw [honPiece]
    refine take_deliver hstack hpending hstarted hreads ?_ c.isDone
    rw [hd, hmore, told, told, framesOf_append]
    rfl
  · have honPiece : s.onPiece c = Stream.failWith { s with reader } overlongMessage := by
      simp only [Stream.onPiece, hfeed]
      rfl
    rw [honPiece]
    refine take_failWith hstack hpending hstarted hs.isOver (.inr rfl) ?_
    rw [hd, hsame]

/-- A read completes, with a piece of the body or otherwise. -/
theorem take_onRead (hs : Reads s body) (hd : dialogue r.records = told (legible lineLimit body))
    (c : Net.Completion) :
    (r.take ((s.onRead c).map .stream)).Stands
      (body ++ if c.error = none ∨ c.errorKind = some .bufferFull
        then c.data.take Stream.pieceSize else []) := by
  have ho : ¬ s.isOver = true := by simp [hs.isOver]
  have hnone : ∀ e : Net.Error, c.error = some e → e.kind ≠ .bufferFull →
      body ++ (if c.error = none ∨ c.errorKind = some .bufferFull
        then c.data.take Stream.pieceSize else []) = body := by
    intro e he hk
    simp [Net.Completion.errorKind, he, hk]
  cases he : c.error with
  | none =>
    have honRead : s.onRead c = s.onPiece c := by simp [Stream.onRead, ho, he]
    rw [honRead, if_pos (.inl rfl)]
    exact take_onPiece hstack hpending hstarted hs hd c
  | some e =>
    by_cases hk : e.kind = .bufferFull
    · have honRead : s.onRead c = s.onPiece c := by simp [Stream.onRead, ho, he, hk]
      rw [honRead, if_pos (.inr (by simp [Net.Completion.errorKind, he, hk]))]
      exact take_onPiece hstack hpending hstarted hs hd c
    · rw [← he, hnone e he hk]
      by_cases hend : e.kind = .endOfStream ∨ e.kind = .endOfFile
      · have honRead : s.onRead c = s.deliver true [] := by
          rcases hend with hend | hend <;> simp [Stream.onRead, ho, he, hend, Stream.deliver]
        rw [honRead]
        exact take_deliver hstack hpending hstarted hs (by simpa [framesOf] using hd) true
      · have honRead : s.onRead c = s.fail "read" e := by
          obtain ⟨kind, message⟩ := e
          cases kind with
          | bufferFull => exact absurd rfl hk
          | endOfStream => exact absurd (.inl rfl) hend
          | endOfFile => exact absurd (.inr rfl) hend
          | aborted | closed | other => simp [Stream.onRead, ho, he]
        rw [honRead]
        rcases Stream.fail_cases hs.isOver "read" e with h | ⟨m, h⟩
        · rw [h]
          exact ⟨s, rfl, .reading hs (.inr (.inr ⟨take_stack hstack _, take_pending hpending _⟩))
            hstarted ((dialogue_take r _).trans ((List.append_nil _).trans hd))⟩
        · rw [h]
          exact take_failWith hstack hpending hstarted hs.isOver (.inl hs.fits) hd

end Take

/-! ## Moves -/

theorem piece?_of_stack (h : r.stack ≠ []) (m : Move) : r.piece? m = none := by
  cases m with
  | complete => exact if_neg fun hc ↦ h hc.1
  | «open» | close | send | returned => rfl

theorem piece?_of_pending {i : Nat} (h : r.pending[i]? ≠ some .readSome) (c : Net.Completion) :
    r.piece? (.complete i c) = none := if_neg fun hc ↦ h hc.2.1

theorem Standing.isStarted_of_mem (h : r.Standing s body) {o : Net.Operation} (ho : o ∈ r.pending) :
    r.isStarted = true := by
  cases h with
  | opening _ _ _ _ _ hstarted =>
    cases hst : r.isStarted with
    | true => rfl
    | false => simp [hstarted hst] at ho
  | reading | delivering | failing | gone => assumption

theorem Standing.complete (h : r.Standing s body) (hsession : r.session = .stream s) (i : Nat)
    (c : Net.Completion) :
    (r.step (.complete i c)).Stands (body ++ (r.piece? (.complete i c)).getD []) := by
  -- Nothing but a read or an operation that opens the channel is ever under way.
  by_cases hstack : r.stack = []
  swap
  · obtain ⟨x, stack, hx⟩ := List.exists_cons_of_ne_nil hstack
    rw [piece?_of_stack hstack, Option.getD_none, List.append_nil]
    exact ⟨s, by simpa [step, hx] using hsession, by simpa [step, hx] using h⟩
  cases hi : r.pending[i]? with
  | none =>
    rw [piece?_of_pending (by simp [hi]), Option.getD_none, List.append_nil]
    exact ⟨s, by simpa [step, hi, hstack] using hsession, by simpa [step, hi, hstack] using h⟩
  | some o =>
    have hmem : o ∈ r.pending := List.mem_of_getElem? hi
    have hst := h.isStarted_of_mem hmem
    rw [step_complete hstack hi, hsession]
    cases h with
    | opening hs hbody _ hopening hlen _ hd =>
      have hnil : r.pending.eraseIdx i = [] := eraseIdx_eq_nil hlen hi
      have hread : r.pending[i]? ≠ some .readSome := by
        rw [hi]
        rintro ⟨⟩
        cases hopening _ hmem
      subst hbody
      rw [piece?_of_pending hread]
      exact take_advances (r := { r with pending := r.pending.eraseIdx i }) hstack hnil hst
        (Stream.complete_advances hs.isOver (hopening o hmem) c) hs hd
    | reading hs hwait _ hd =>
      obtain ⟨-, hp⟩ : r.stack = [] ∧ r.pending = [.readSome] := by
        rcases hwait with ⟨hst, -⟩ | hwait | ⟨-, hp⟩
        · simp [hstack] at hst
        · exact hwait
        · simp [hp] at hmem
      obtain rfl : o = .readSome := by simpa [hp] using hmem
      have hnil : r.pending.eraseIdx i = [] := eraseIdx_eq_nil (by simp [hp]) hi
      have hpiece : (r.piece? (.complete i c)).getD [] =
          if c.error = none ∨ c.errorKind = some .bufferFull then c.data.take Stream.pieceSize
          else [] := by
        simp only [piece?, hstack, hi, true_and]
        split <;> rfl
      rw [hpiece]
      exact take_onRead (r := { r with pending := r.pending.eraseIdx i }) hstack hnil hst hs hd c
    | delivering _ hs => simp [hs] at hstack
    | failing _ _ hs => simp [hs] at hstack
    | gone _ _ _ hp => simp [hp] at hmem

theorem Standing.returned (h : r.Standing s body) (hsession : r.session = .stream s) :
    (r.step .returned).Stands body := by
  cases hstack : r.stack with
  | nil =>
    exact ⟨s, by simpa [step, hstack] using hsession, by simpa [step, hstack] using h⟩
  | cons x stack =>
    have hstep : r.step .returned = { r with stack }.take (r.session.resume x) := by
      simp [step, hstack]
    rw [hstep, hsession]
    cases h with
    | opening _ _ hs => simp [hs] at hstack
    | reading hs hwait hstarted hd =>
      obtain ⟨hx, hp⟩ : r.stack = [.read] ∧ r.pending = [] := by
        rcases hwait with hwait | ⟨hst, -⟩ | ⟨hst, -⟩
        · exact hwait
        · simp [hst] at hstack
        · simp [hst] at hstack
      obtain ⟨rfl, rfl⟩ := List.cons.inj (hstack.symm.trans hx)
      have hresume : s.resume .read = s.deliver false [] := if_neg (by simp [hs.isOver])
      simp only [resume, hresume]
      exact take_deliver (r := { r with stack := [] }) rfl hp hstarted hs
        (by simpa [framesOf] using hd) false
    | @delivering events isDone hs hx hp hstarted hd =>
      obtain ⟨rfl, rfl⟩ := List.cons.inj (hstack.symm.trans hx)
      have hresume : s.resume (.deliver events isDone) = s.deliver isDone events :=
        if_neg (by simp [hs.isOver])
      simp only [resume, hresume]
      exact take_deliver (r := { r with stack := [] }) rfl hp hstarted hs hd isDone
    | @failing m heard ho hm hx hp hstarted hh hd =>
      obtain ⟨rfl, rfl⟩ := List.cons.inj (hstack.symm.trans hx)
      have hresume : s.resume (.fail m) = { s.finish m with calls := [.closeStream] } :=
        if_neg (by simp [ho])
      simp only [resume, hresume]
      refine ⟨{ s with isFinished := true }, rfl, .gone (Bool.or_true _) (.failed hm) (.inr rfl)
        (take_pending hp _) hstarted hh ?_⟩
      rw [dialogue_take, hd, List.append_assoc]
      rfl
    | gone ho he hx hp hstarted hh hd =>
      obtain ⟨rfl, rfl⟩ := List.cons.inj (hstack.symm.trans (hx.resolve_left (by simp [hstack])))
      refine ⟨s, rfl, .gone ho he (.inl rfl) (take_pending hp _) hstarted hh ?_⟩
      exact (dialogue_take _ _).trans ((List.append_nil _).trans hd)

theorem Stands.step (h : r.Stands body) {m : Move} (hm : ∀ c, m ≠ .close c) :
    (r.step m).Stands (body ++ (r.piece? m).getD []) := by
  obtain ⟨s, hsession, h⟩ := h
  cases m with
  | close c => exact absurd rfl (hm c)
  | complete i c => exact h.complete hsession i c
  | returned =>
    rw [piece?, Option.getD_none, List.append_nil]
    exact h.returned hsession
  | send payload =>
    rw [piece?, Option.getD_none, List.append_nil, step_send, hsession]
    refine ⟨s, rfl, h.congr rfl (List.append_nil _) rfl ?_⟩
    rw [dialogue_take, note, dialogue_append]
    exact (List.append_nil _).trans (List.append_nil _)
  | «open» =>
    rw [piece?, Option.getD_none, List.append_nil]
    cases hst : r.isStarted with
    | true => exact ⟨s, by simpa [Run.step, hst] using hsession, by simpa [Run.step, hst] using h⟩
    | false =>
      cases h with
      | opening hs hbody hstack _ _ hpending hd =>
        have hstep : r.step .open = { r with isStarted := true }.take (s.start.map .stream) := by
          simp only [Run.step, hst, hsession]
          rfl
        subst hbody
        rw [hstep]
        exact take_advances (r := { r with isStarted := true }) hstack (hpending hst) rfl
          (Stream.advances_next rfl rfl) hs hd
      | reading _ _ hstarted => simp [hst] at hstarted
      | delivering _ _ _ hstarted => simp [hst] at hstarted
      | failing _ _ _ _ hstarted => simp [hst] at hstarted
      | gone _ _ _ _ hstarted => simp [hst] at hstarted

theorem Stands.play (h : r.Stands body) {moves : List Move} (hm : ∀ c, .close c ∉ moves) :
    (r.play moves).Stands (body ++ (r.pieces moves).flatten) := by
  induction moves generalizing r body with
  | nil => simpa [Run.play, pieces] using h
  | cons m moves ih =>
    have hstep := h.step (m := m) fun c he ↦ hm c (he ▸ List.mem_cons_self ..)
    have hrest := ih hstep fun c hc ↦ hm c (List.mem_cons_of_mem _ hc)
    have hflatten : (r.pieces (m :: moves)).flatten =
        (r.piece? m).getD [] ++ ((r.step m).pieces moves).flatten := by
      rw [pieces, List.flatten_append]
      cases r.piece? m <;> simp
    rw [hflatten, ← List.append_assoc]
    exact hrest

theorem stands_start (e : Endpoint) (source token : Bytes) :
    (start (make .eventStream e source token)).Stands [] :=
  ⟨_, rfl, .opening (reads_nil rfl rfl) rfl rfl (by simp [start]) (by simp [start]) (fun _ ↦ rfl) rfl⟩

/-- What has been heard and what is owed are the frames of the body. -/
theorem Stands.frames (h : r.Stands body) :
    r.records.filterMap Record.frame? ++ r.owed.map Stream.frame =
      (legible lineLimit body).map Stream.frame := by
  have heard : ∀ records, Heard body records → records.filterMap Record.frame? =
      (legible lineLimit body).map Stream.frame := by
    rintro records (rfl | ⟨rfl, rfl⟩)
    · exact filterMap_frame?_told _
    · rfl
  obtain ⟨s, -, h⟩ := h
  rw [← filterMap_frame?_dialogue]
  cases h with
  | opening _ hbody hstack _ _ _ hd =>
    subst hbody
    simp [owed, hstack, hd, legible_nil]
  | reading _ hwait _ hd =>
    have howed : r.owed = [] := by
      rcases hwait with ⟨hstack, -⟩ | ⟨hstack, -⟩ | ⟨hstack, -⟩ <;> simp [owed, hstack]
    rw [hd, howed, filterMap_frame?_told, List.map_nil, List.append_nil]
  | delivering _ hstack _ _ hd =>
    have hframes := congrArg (List.filterMap Record.frame?) hd
    rw [List.filterMap_append, filterMap_frame?_framesOf, filterMap_frame?_told] at hframes
    simpa [owed, hstack] using hframes
  | failing _ _ hstack _ _ hh hd =>
    rw [hd, List.filterMap_append, heard _ hh]
    simp [owed, hstack, Record.frame?]
  | gone _ he hstack _ _ hh hd =>
    have howed : r.owed = [] := by
      rcases hstack with hstack | hstack <;> simp [owed, hstack]
    rw [hd, howed, List.filterMap_append, heard _ hh]
    cases he <;> simp [Record.frame?]

/-- Once a failure or the end has been heard no frame is owed. -/
theorem Stands.owed_eq_nil (h : r.Stands body) {q : Stage} (hf : r.Fits q) (hq : q.isLate = true) :
    r.owed = [] := by
  obtain ⟨s, hsession, h⟩ := h
  cases h with
  | opening _ _ hstack => simp [owed, hstack]
  | reading _ hwait =>
    rcases hwait with ⟨hstack, -⟩ | ⟨hstack, -⟩ | ⟨hstack, -⟩ <;> simp [owed, hstack]
  | delivering hs hstack =>
    cases q with
    | unopened | opened => cases hq
    | failing m => simp [hf.2.2] at hstack
    | finished =>
      have ho : (Session.stream s).isOver = true := hsession ▸ hf.1
      exact absurd (hs.isOver.symm.trans ho) nofun
  | failing _ _ hstack => simp [owed, hstack]
  | gone _ _ hstack => rcases hstack with hstack | hstack <;> simp [owed, hstack]

/-- All frames come before the failure and the end. -/
theorem Stands.frames_before (h : r.Stands body) (hu : r.Upheld .eventStream) {a b : List Record}
    {n : Channel.Notice} (hr : r.records = a ++ .notice n :: b)
    (hn : (∃ m, n = .failed m) ∨ ∃ c, n = .closed c) :
    a.filterMap Record.frame? = (legible lineLimit body).map Stream.frame ∧
      b.filterMap Record.frame? = [] ∧ r.owed = [] := by
  obtain ⟨-, q, hpath, hf⟩ := hu
  obtain ⟨q₁, q₂, -, hx, hb⟩ := (hr ▸ hpath).split
  have hlate : q₂.isLate = true := by
    rcases hn with ⟨m, rfl⟩ | ⟨c, rfl⟩ <;> cases hx <;> rfl
  obtain ⟨hq, hafter⟩ := hb.of_late hlate
  have hnone : b.filterMap Record.frame? = [] := by
    refine List.filterMap_eq_nil_iff.2 fun x hx ↦ ?_
    cases x with
    | notice n =>
      obtain ⟨c, rfl⟩ := hafter n hx
      rfl
    | call | closing | sent => rfl
  have howed := h.owed_eq_nil hf hq
  have hframes := h.frames
  have hnotice : Record.frame? (.notice n) = none := by
    rcases hn with ⟨m, rfl⟩ | ⟨c, rfl⟩ <;> rfl
  rw [hr, List.filterMap_append, List.filterMap_cons_none hnotice, hnone, howed] at hframes
  exact ⟨by simpa using hframes, hnone, howed⟩

/-- Behind a line that is too long there is one way for the stream to end. -/
theorem Stands.overlong (h : r.Stands body) (hstack : r.stack = [])
    (hlong : ∃ l ∈ lines body, lineLimit < l.length) :
    dialogue r.records = told (legible lineLimit body) ++
      [.notice (.failed overlongMessage),
        .notice (.closed ⟨Channel.abnormalCode, overlongMessage⟩)] := by
  have hfits : ¬ Reader.Fits lineLimit body := by
    intro hf
    obtain ⟨l, hl, hlt⟩ := hlong
    exact absurd (hf l hl) (Nat.not_le.2 hlt)
  obtain ⟨s, -, h⟩ := h
  cases h with
  | opening hs => exact absurd hs.fits hfits
  | reading hs => exact absurd hs.fits hfits
  | delivering hs => exact absurd hs.fits hfits
  | failing _ _ hfail => simp [hstack] at hfail
  | gone _ he _ _ _ hh hd =>
    have hheard := hh.resolve_right fun hnil ↦ hfits (hnil.2 ▸ by simp [Reader.Fits])
    cases he with
    | ended hf => exact absurd hf hfits
    | failed hm =>
      rw [hd, hheard, hm.resolve_left hfits]

theorem pieces_returned (r : Run) (n : Nat) : r.pieces (List.replicate n .returned) = [] := by
  induction n generalizing r with
  | zero => rfl
  | succ n ih =>
    rw [List.replicate_succ, pieces, ih]
    rfl

/-- Whatever an owner who never closes an event stream hears of the body, it does not depend on how
the network cuts the body into pieces, nor on how the stream ends. The frames that have come, and
those of the events that are still to be delivered, are those of the events that are complete in the
body, up to its first line that is too long, in order and each once; and the latter come when the
owner returns. A frame has no name just when its event is called `message`. All of them come before
the failure and the close. A line that is too long makes the stream fail, and then close with the
same message. -/
theorem frames_of_body (e : Endpoint) (source token : Bytes) (moves : List Move)
    (hopen : ∀ c, .close c ∉ moves) :
    let idle := start (make .eventStream e source token)
    let r := idle.play moves
    let body := (idle.pieces moves).flatten
    let events := legible lineLimit body
    r.records.filterMap Record.frame? ++ r.owed.map Stream.frame = events.map Stream.frame ∧
    (∃ n, (r.play (List.replicate n .returned)).stack = [] ∧
      (r.play (List.replicate n .returned)).records.filterMap Record.frame? =
        events.map Stream.frame) ∧
    (∀ ev, (Stream.frame ev).text = ev.data ∧ (Stream.frame ev).event =
      if ev.name = utf8 "message" then none else some ev.name) ∧
    (∀ a n b, r.records = a ++ .notice n :: b → ((∃ m, n = .failed m) ∨ ∃ c, n = .closed c) →
      a.filterMap Record.frame? = events.map Stream.frame ∧ b.filterMap Record.frame? = [] ∧
        r.owed = []) ∧
    ((∃ l ∈ lines body, lineLimit < l.length) → r.stack = [] →
      dialogue r.records = told events ++ [.notice (.failed overlongMessage),
        .notice (.closed ⟨Channel.abnormalCode, overlongMessage⟩)]) := by
  intro idle r body events
  have h : r.Stands body := (stands_start e source token).play hopen
  have hu : r.Upheld .eventStream := upheld_play .eventStream e source token moves
  refine ⟨h.frames, ?_, fun ev ↦ ⟨rfl, rfl⟩, fun a n b hr hn ↦ h.frames_before hu hr hn,
    fun hlong hstack ↦ h.overlong hstack hlong⟩
  obtain ⟨n, hn⟩ := r.comes_to_rest
  have hreturned : ∀ c, .close c ∉ List.replicate n Move.returned := by simp
  have hrest := h.play hreturned
  rw [pieces_returned, List.flatten_nil, List.append_nil] at hrest
  have hframes := hrest.frames
  have howed : owed (r.play (List.replicate n .returned)) = [] := by simp [owed, hn]
  rw [howed, List.map_nil, List.append_nil] at hframes
  exact ⟨n, hn, hframes⟩

/-- The body is cut inside of a field name, between two line feeds and inside of another name; one
read has filled its buffer, and the body ends with the last. -/
def cutMoves : List Move :=
  [.open, .complete 0 {}, .complete 0 {}, .complete 0 {}, .complete 0 {}, .returned,
    .complete 0 { data := utf8 "data: a" ++ [10] ++ utf8 "dat" },
    .complete 0 { data := utf8 "a: b" ++ [10], error := some ⟨.bufferFull, []⟩ },
    .complete 0 { data := [10] ++ utf8 "eve" }, .returned,
    .complete 0 { data := utf8 "nt: e" ++ [10] ++ utf8 "data:c" ++ [10, 10], isDone := true },
    .returned, .returned]

theorem frames_of_body_cut :
    (∀ c, .close c ∉ cutMoves) ∧
      ((start (make .eventStream {} [] [])).play cutMoves).records.filterMap Record.frame? =
        [⟨none, utf8 "a" ++ [10] ++ utf8 "b"⟩, ⟨some (utf8 "e"), utf8 "c"⟩] := by
  have hopen : ∀ c, .close c ∉ cutMoves := by simp [cutMoves]
  have hframes := (frames_of_body {} [] [] cutMoves hopen).1
  have hevents : legible lineLimit ((start (make .eventStream {} [] [])).pieces cutMoves).flatten =
      [⟨utf8 "message", utf8 "a" ++ [10] ++ utf8 "b", []⟩, ⟨utf8 "e", utf8 "c", []⟩] := by
    decide
  rw [hevents] at hframes
  exact ⟨hopen, (List.append_nil _).symm.trans (hframes.trans (by decide))⟩

end Run

end ProgressFeed.Session
