import ProgressFeed.Proofs.Session.Contract

/-!
# How a session ends

A session whose owner only returns from its callbacks goes from one stage of the conversation to
another whenever an operation completes. What has broken off or has come to its end closes it, with
another code than that of a close that was meant.
-/

namespace ProgressFeed.Session

namespace Stage

variable {kind : Channel.Kind} {q q₁ q₂ : Stage} {a b records : List Record}

theorem Next.unique {x : Record} (h : Next kind q x q₁) (h' : Next kind q x q₂) : q₁ = q₂ := by
  cases h <;> cases h' <;> rfl

theorem Path.unique (h : Path kind q records q₁) (h' : Path kind q records q₂) : q₁ = q₂ := by
  induction h with
  | nil =>
    cases h'
    rfl
  | cons hx _ ih =>
    cases h' with
    | cons hx' h' => exact ih (hx.unique hx' ▸ h')

theorem Path.of_append (h : Path kind q (a ++ b) q₂) :
    ∃ q₁, Path kind q a q₁ ∧ Path kind q₁ b q₂ := by
  induction a generalizing q with
  | nil => exact ⟨q, .nil q, h⟩
  | cons x a ih =>
    cases h with
    | cons hx h =>
      obtain ⟨q₁, ha, hb⟩ := ih h
      exact ⟨q₁, .cons hx ha, hb⟩

end Stage

def Record.notice? : Record → Option Channel.Notice
  | .notice n => some n
  | .call _ | .closing | .sent .. => none

/-- The close that the owner hears of. -/
def Record.closed? : Record → Option Channel.Closing
  | .notice (.closed c) => some c
  | .notice .opened | .notice (.frame _) | .notice (.failed _) => none
  | .call _ | .closing | .sent .. => none

/-- The close is one of the notices. -/
theorem findSome?_closed? (records : List Record) :
    records.findSome? Record.closed? =
      (records.filterMap Record.notice?).findSome? fun n ↦ (Record.notice n).closed? := by
  induction records with
  | nil => rfl
  | cons x records ih =>
    cases x with
    | notice n => simp only [List.findSome?_cons, List.filterMap_cons, Record.notice?, ih]
    | call | closing | sent => exact ih

namespace Run

variable {kind : Channel.Kind} {r r' : Run} {q q' : Stage} {news more : List Record} {i : Nat}
  {o : Net.Operation} {c : Net.Completion}

/-- A session at a stage of the conversation. -/
structure StandsAt (kind : Channel.Kind) (r : Run) (q : Stage) : Prop where
  upheld : r.Upheld kind
  path : Stage.Path kind .unopened r.records q
  fits : r.Fits q

theorem Upheld.standsAt (h : r.Upheld kind) : ∃ q, r.StandsAt kind q := by
  obtain ⟨-, q, hpath, hf⟩ := id h
  exact ⟨q, h, hpath, hf⟩

/-- The session has gone on from one stage to another, and its owner has let it be. -/
structure GoesTo (kind : Channel.Kind) (r : Run) (q : Stage) (news : List Record) (r' : Run)
    (q' : Stage) : Prop where
  records : r'.records = r.records ++ news
  path : Stage.Path kind q news q'
  standsAt : r'.StandsAt kind q'
  closing : .closing ∉ news

theorem GoesTo.refl (h : r.StandsAt kind q) : r.GoesTo kind q [] r q :=
  ⟨(List.append_nil _).symm, .nil q, h, by simp⟩

theorem GoesTo.trans {r'' : Run} {q'' : Stage} (h : r.GoesTo kind q news r' q')
    (h' : r'.GoesTo kind q' more r'' q'') : r.GoesTo kind q (news ++ more) r'' q'' := by
  refine ⟨?_, h.path.trans h'.path, h'.standsAt, ?_⟩
  · rw [h'.records, h.records, List.append_assoc]
  · simpa using ⟨h.closing, h'.closing⟩

theorem StandsAt.goesTo (h : r.StandsAt kind q) (h' : r'.Upheld kind)
    (hr : r'.records = r.records ++ news) (hc : .closing ∉ news) :
    ∃ q', r.GoesTo kind q news r' q' := by
  obtain ⟨q', -, hpath, hf⟩ := h'.standsAt
  obtain ⟨q₁, h₁, h₂⟩ := (hr ▸ hpath).of_append
  obtain rfl := h.path.unique h₁
  exact ⟨q', hr, h₂, ⟨h', hpath, hf⟩, hc⟩

theorem closing_notMem_records (s : Step Session) : .closing ∉ s.records := by
  cases h : s.pause <;> simp [Step.records, h]

theorem StandsAt.complete (h : r.StandsAt kind q) (i : Nat) (c : Net.Completion) :
    ∃ news q', r.GoesTo kind q news (r.step (.complete i c)) q' := by
  rcases step_complete_cases r i c with heq | ⟨o, -, -, heq⟩
  · exact ⟨[], q, by rw [heq]; exact .refl h⟩
  · obtain ⟨q', hq⟩ := h.goesTo (h.upheld.complete i c) (congrArg Run.records heq)
      (closing_notMem_records _)
    exact ⟨_, q', hq⟩

theorem StandsAt.returned (h : r.StandsAt kind q) :
    ∃ news q', r.GoesTo kind q news (r.step .returned) q' := by
  cases hs : r.stack with
  | nil =>
    have heq : r.step .returned = r := by simp [step, hs]
    exact ⟨[], q, by rw [heq]; exact .refl h⟩
  | cons x stack =>
    have heq : r.step .returned = { r with stack }.take (r.session.resume x) := by simp [step, hs]
    obtain ⟨q', hq⟩ := h.goesTo h.upheld.returned (congrArg Run.records heq)
      (closing_notMem_records _)
    exact ⟨_, q', hq⟩

theorem StandsAt.finish (h : r.StandsAt kind q) :
    ∃ news q', r.GoesTo kind q news r.finish q' := by
  refine runDown_induction (P := fun x : Run ↦ ∃ news q', r.GoesTo kind q news x q') ?_
    ⟨[], q, .refl h⟩
  rintro x ⟨news, q', hx⟩
  obtain ⟨more, q'', hmore⟩ := hx.standsAt.returned
  exact ⟨news ++ more, q'', hx.trans hmore⟩

/-- An operation completes, and the owner returns from every callback. -/
theorem StandsAt.complete_finish (h : r.StandsAt kind q) (i : Nat) (c : Net.Completion) :
    ∃ news q', r.GoesTo kind q news (r.step (.complete i c)).finish q' := by
  obtain ⟨news, q₁, h₁⟩ := h.complete i c
  obtain ⟨more, q', h'⟩ := h₁.standsAt.finish
  exact ⟨news ++ more, q', h₁.trans h'⟩

/-! ## What comes after the open -/

theorem filterMap_notice?_records (s : Step Session) :
    s.records.filterMap Record.notice? = (s.pause.map Prod.fst).toList := by
  have hcalls : (s.calls.map Record.call).filterMap Record.notice? = [] := by
    simp [List.filterMap_map, Function.comp_def, Record.notice?]
  rw [Step.records, List.filterMap_append, hcalls]
  cases s.pause <;> rfl

theorem finish_of_nil (hs : r.stack = []) : r.finish = r := runDown_of_zero (weight_eq_zero.2 hs)

theorem finish_step (r : Run) : r.finish = (r.step .returned).finish :=
  returned_lessens.runDown_step r

theorem records_returned (r : Run) : r.records <+: (r.step .returned).records := by
  cases hs : r.stack with
  | nil => simp [step, hs]
  | cons x stack =>
    simp only [step, hs, take]
    exact List.prefix_append ..

theorem records_complete (r : Run) (i : Nat) (c : Net.Completion) :
    r.records <+: (r.step (.complete i c)).records := by
  rcases step_complete_cases r i c with heq | ⟨o, -, -, heq⟩
  · exact ⟨[], by rw [heq, List.append_nil]⟩
  · rw [heq]
    exact List.prefix_append ..

theorem records_finish (r : Run) : r.records <+: r.finish.records :=
  runDown_induction (P := fun x : Run ↦ r.records <+: x.records)
    (fun x h ↦ h.trans x.records_returned) (List.prefix_refl _)

theorem resume_read_pause (s : Session) : (resume .read s).pause = none := by
  cases s with
  | socket s =>
    simp only [resume, Step.map, Socket.resume]
    split <;> rfl
  | stream s =>
    simp only [resume, Step.map, Stream.resume]
    split <;> rfl

/-- When the session opens, the owner hears nothing else until the next operation completes. -/
theorem GoesTo.opened_alone (h : r.GoesTo kind q news (r.step (.complete i c)).finish q')
    (hstands : r.StandsAt kind q) (hs : r.stack = []) :
    .notice .opened ∉ news ∨ news.filterMap Record.notice? = [.opened] := by
  by_cases hq : q = .unopened
  · subst hq
    obtain ⟨⟨ho, ha, -⟩, hopening, -, -⟩ := hstands.fits
    have hrecords := h.records
    rcases step_complete_cases r i c with heq | ⟨o, -, hi, heq⟩
    · rw [heq, finish_of_nil hs] at hrecords
      left
      simp [List.self_eq_append_right.1 hrecords]
    rw [heq] at hrecords
    have hopens := complete_opens ho ha (hopening o (List.mem_of_getElem? hi)) c
    generalize complete o c r.session = s at hopens hrecords
    cases hopens with
    | quiet hp =>
      rw [finish_of_nil (by simp [take, hp, hs])] at hrecords
      left
      rw [← List.append_cancel_left hrecords]
      simp [Step.records, hp]
    | opened hp =>
      have hstack : ({ r with pending := r.pending.eraseIdx i }.take s).stack = [.read] := by
        simp [take, hp, hs]
      have hpause := resume_read_pause s.session
      rw [finish_step, step, hstack, finish_of_nil (by simp [take, hpause])] at hrecords
      have hnews : news = s.records ++ (resume .read s.session).records := by
        simpa [take, eq_comm] using hrecords
      right
      rw [hnews, List.filterMap_append, filterMap_notice?_records, filterMap_notice?_records, hp,
        hpause]
      rfl
    | @failed m hp =>
      obtain ⟨rest, hrest⟩ := records_finish ({ r with pending := r.pending.eraseIdx i }.take s)
      have hnews : news = s.calls.map .call ++ .notice (.failed m) :: rest := by
        rw [hrecords] at hrest
        simpa [take, Step.records, hp, eq_comm] using hrest
      obtain ⟨q₁, q₂, -, hx, hpath⟩ := (hnews ▸ h.path).split
      have hq₂ : q₂ ≠ .unopened := by
        cases hx <;> simp
      left
      simpa [hnews] using hpath.opened_notMem hq₂
  · exact .inl (h.path.opened_notMem hq)

/-! ## The close that is heard -/

/-- The close with which the session ends by itself when an operation completes. -/
def ending? (r : Run) (i : Nat) (c : Net.Completion) : Option Channel.Closing :=
  ((r.step (.complete i c)).finish.records.drop r.records.length).findSome? Record.closed?

theorem GoesTo.ending?_eq (h : r.GoesTo kind q news (r.step (.complete i c)).finish q') :
    r.ending? i c = news.findSome? Record.closed? := by
  rw [ending?, h.records, List.drop_left]

/-- Since so many records, this close has been heard first. -/
def Closes (n : Nat) (closing : Channel.Closing) (r : Run) : Prop :=
  (r.records.drop n).findSome? Record.closed? = some closing

theorem Closes.mono {n : Nat} {closing : Channel.Closing} (h : r.Closes n closing)
    (hr : r.records <+: r'.records) : r'.Closes n closing := by
  obtain ⟨more, hr⟩ := hr
  unfold Closes at h ⊢
  rw [← hr, List.drop_append, List.findSome?_append, h, Option.some_or]

theorem closed?_of_pause {s : Step Session} {n : Channel.Notice} {x : Resume}
    (hp : s.pause = some (n, x)) :
    s.records.findSome? Record.closed? = (Record.notice n).closed? := by
  have hcalls : (s.calls.map Record.call).findSome? Record.closed? = none := by
    simp [List.findSome?_map, Function.comp_def, Record.closed?]
  rw [Step.records, hp, List.findSome?_append, hcalls]
  cases h : (Record.notice n).closed? <;> simp [h]

end Run

/-! ## What ends a connection -/

/-- An operation of a session has ended in a way that ends the connection as well, and not as its
owner has asked for. -/
inductive Breaks : Session → Net.Operation → Net.Completion → Prop
  | socket {s : Socket} {o : Net.Operation} {c : Net.Completion} {e : Net.Error}
      (ho : o ∈ [.resolve, .connect, .handshake, .writeMessage]) (he : c.error = some e)
      (hk : e.kind ≠ .aborted) : Breaks (.socket s) o c
  | socketRead {s : Socket} {c : Net.Completion} {e : Net.Error} (he : c.error = some e)
      (hk : e.kind ≠ .aborted) (hc : e.kind ≠ .closed) : Breaks (.socket s) .readMessage c
  /-- The server has closed the WebSocket, but not as usual. -/
  | peer {s : Socket} {c : Net.Completion} {e : Net.Error} (he : c.error = some e)
      (hk : e.kind = .closed) (hc : c.code ≠ Channel.normalCode) : Breaks (.socket s) .readMessage c
  | stream {s : Stream} {o : Net.Operation} {c : Net.Completion} {e : Net.Error}
      (ho : o ∈ [.resolve, .connect, .writeRequest, .readHead]) (he : c.error = some e)
      (hk : e.kind ≠ .aborted) : Breaks (.stream s) o c
  | streamRead {s : Stream} {c : Net.Completion} {e : Net.Error} (he : c.error = some e)
      (hk : e.kind ≠ .aborted) (hc : e.kind ≠ .bufferFull) : Breaks (.stream s) .readSome c
  | status {s : Stream} {c : Net.Completion} (he : c.error = none) (hs : c.status ≠ 200) :
    Breaks (.stream s) .readHead c
  /-- A line of the body is too long. -/
  | overlong {s : Stream} {c : Net.Completion} {f : EventStream.Failure}
      (hc : c.error = none ∨ c.errorKind = some .bufferFull)
      (hf : (s.reader.feed (c.data.take Stream.pieceSize)).2 = .error f) :
    Breaks (.stream s) .readSome c
  /-- The body is complete. -/
  | done {s : Stream} {c : Net.Completion} (hc : c.error = none ∨ c.errorKind = some .bufferFull)
      (hd : c.isDone = true) : Breaks (.stream s) .readSome c

/-- A step after which nothing is heard but frames and the end. -/
inductive Step.IsLast (s : Step Session) : Prop
  | failed {m : Bytes} (hp : s.pause = some (.failed m, .fail m)) (ho : s.session.isOver = false)
  | closed {c : Channel.Closing} {x : Resume} (hp : s.pause = some (.closed c, x))
      (hn : c.isNormal = false)
  | draining {t : Stream} {f : Channel.Frame} {events : List EventStream.Event}
      (hs : s.session = .stream t) (ho : t.isOver = false)
      (hp : s.pause = some (.frame f, .deliver events true))

theorem Socket.fail_isLast {s : Socket} (ho : s.isOver = false) (what : String) {e : Net.Error}
    (hk : e.kind ≠ .aborted) : ((s.fail what e).map socket).IsLast := by
  simp only [fail, ho, failure?, hk, if_false, Bool.false_eq_true]
  exact .failed rfl ho

theorem Stream.fail_isLast {s : Stream} (ho : s.isOver = false) (what : String) {e : Net.Error}
    (hk : e.kind ≠ .aborted) : ((s.fail what e).map stream).IsLast := by
  simp only [fail, ho, failure?, hk, if_false, Bool.false_eq_true]
  exact .failed rfl ho

theorem Stream.deliver_isLast {s : Stream} (ho : s.isOver = false)
    (events : List EventStream.Event) : ((s.deliver true events).map stream).IsLast := by
  cases events with
  | nil => exact .closed rfl (by decide)
  | cons e events => exact .draining rfl ho rfl

theorem Stream.onPiece_isLast {s : Stream} (ho : s.isOver = false) {c : Net.Completion}
    (h : (∃ f, (s.reader.feed (c.data.take pieceSize)).2 = .error f) ∨ c.isDone = true) :
    ((s.onPiece c).map stream).IsLast := by
  unfold onPiece
  split
  · exact .failed rfl ho
  · rename_i reader events hfeed
    have hd : c.isDone = true := h.resolve_left fun ⟨f, hf⟩ ↦ by simp [hfeed] at hf
    rw [hd]
    exact deliver_isLast (s := { s with reader }) ho events

theorem Stream.onRead_of_piece {s : Stream} (ho : s.isOver = false) {c : Net.Completion}
    (hc : c.error = none ∨ c.errorKind = some .bufferFull) : s.onRead c = s.onPiece c := by
  rcases hc with hc | hc
  · simp [onRead, ho, hc]
  · obtain ⟨e, he, hk⟩ := Option.map_eq_some_iff.1 hc
    simp [onRead, ho, he, hk]

theorem Breaks.isLast {s : Session} {o : Net.Operation} {c : Net.Completion} (h : s.Breaks o c)
    (hlive : s.isOver = false) : (complete o c s).IsLast := by
  cases h with
  | @socket s _ _ e ho he hk =>
    have hlive : s.isOver = false := hlive
    simp only [List.mem_cons, List.not_mem_nil, or_false] at ho
    rcases ho with rfl | rfl | rfl | rfl
    · simpa only [complete, Socket.complete, he] using Socket.fail_isLast hlive "resolve" hk
    · simpa only [complete, Socket.complete, he] using Socket.fail_isLast hlive "connect" hk
    · simpa only [complete, Socket.complete, he] using Socket.fail_isLast hlive "handshake" hk
    · simpa only [complete, Socket.complete, Socket.onWrite, he] using
        Socket.fail_isLast (s := { s with isWriting := false }) hlive "write" hk
  | @socketRead s _ e he hk hc =>
    have hlive : s.isOver = false := hlive
    simpa [complete, Socket.complete, Socket.onRead, hlive, he, hc] using
      Socket.fail_isLast hlive "read" hk
  | @peer s _ e he hk hc =>
    have hlive : s.isOver = false := hlive
    simp only [complete, Socket.complete, Socket.onRead, hlive, he, hk, if_true, if_false,
      Bool.false_eq_true]
    exact .closed rfl (by simpa [Channel.Closing.isNormal] using hc)
  | @stream s _ _ e ho he hk =>
    have hlive : s.isOver = false := hlive
    simp only [List.mem_cons, List.not_mem_nil, or_false] at ho
    rcases ho with rfl | rfl | rfl | rfl
    · simpa only [complete, Stream.complete, he] using Stream.fail_isLast hlive "resolve" hk
    · simpa only [complete, Stream.complete, he] using Stream.fail_isLast hlive "connect" hk
    · simpa only [complete, Stream.complete, he] using Stream.fail_isLast hlive "write" hk
    · simpa only [complete, Stream.complete, he] using Stream.fail_isLast hlive "read header" hk
  | @streamRead s _ e he hk hc =>
    have hlive : s.isOver = false := hlive
    simp only [complete, Stream.complete, Stream.onRead, hlive, he, if_false, Bool.false_eq_true]
    split
    · exact absurd ‹_› hc
    · exact .closed rfl (by decide)
    · exact .closed rfl (by decide)
    · exact Stream.fail_isLast hlive "read" hk
  | @status s _ he hs =>
    have hlive : s.isOver = false := hlive
    have hclosing : s.isClosing = false := (Bool.or_eq_false_iff.1 hlive).1
    simp only [complete, Stream.complete, he, Stream.onHead, hclosing, hs, ne_eq,
      not_false_eq_true, if_true, if_false, Bool.false_eq_true]
    exact .failed rfl hlive
  | @overlong s _ f hc hf =>
    have hlive : s.isOver = false := hlive
    simp only [complete, Stream.complete, Stream.onRead_of_piece hlive hc]
    exact Stream.onPiece_isLast hlive (.inl ⟨f, hf⟩)
  | @done s _ hc hd =>
    have hlive : s.isOver = false := hlive
    simp only [complete, Stream.complete, Stream.onRead_of_piece hlive hc]
    exact Stream.onPiece_isLast hlive (.inr hd)

namespace Run

variable {r : Run} {n i : Nat} {s : Step Session} {o : Net.Operation} {c : Net.Completion}

/-- Since so many records, no close has been heard. -/
structure IsOpen (n : Nat) (r : Run) : Prop where
  le : n ≤ r.records.length
  quiet : (r.records.drop n).findSome? Record.closed? = none

theorem findSome?_take (h : r.IsOpen n) (s : Step Session) :
    ((r.take s).records.drop n).findSome? Record.closed? = s.records.findSome? Record.closed? := by
  rw [take, List.drop_append_of_le_length h.le, List.findSome?_append, h.quiet, Option.none_or]

theorem IsOpen.take (h : r.IsOpen n) {m : Channel.Notice} {x : Resume} (hp : s.pause = some (m, x))
    (hm : (Record.notice m).closed? = none) : (r.take s).IsOpen n := by
  refine ⟨?_, (findSome?_take h s).trans ((closed?_of_pause hp).trans hm)⟩
  rw [Run.take, List.length_append]
  exact Nat.le_add_right_of_le h.le

theorem IsOpen.closes (h : r.IsOpen n) {closing : Channel.Closing} {x : Resume}
    (hp : s.pause = some (.closed closing, x)) : (r.take s).finish.Closes n closing :=
  Closes.mono ((findSome?_take h s).trans (closed?_of_pause hp)) (records_finish _)

/-- The events of a body that is complete are delivered, and then the stream ends. -/
theorem IsOpen.closes_draining (h : r.IsOpen n) {t : Stream} (ht : r.session = .stream t)
    (ho : t.isOver = false) {events : List EventStream.Event}
    (hs : r.stack = [.deliver events true]) : ∃ closing, r.finish.Closes n closing ∧ closing.isNormal = false := by
  induction events generalizing r with
  | nil =>
    have hstep : r.step .returned = { r with stack := [] }.take (t.finishBody.map stream) := by
      simp [step, hs, ht, resume, Stream.resume, ho, Stream.deliver]
    have h : IsOpen n { r with stack := [] } := ⟨h.le, h.quiet⟩
    rw [finish_step, hstep]
    exact ⟨_, h.closes rfl, by decide⟩
  | cons e events ih =>
    have hstep : r.step .returned = { r with stack := [] }.take
        ((t.deliver true (e :: events)).map stream) := by
      simp [step, hs, ht, resume, Stream.resume, ho]
    have h : IsOpen n { r with stack := [] } := ⟨h.le, h.quiet⟩
    rw [finish_step, hstep]
    exact ih (h.take rfl rfl) rfl rfl

theorem IsOpen.closes_last (h : r.IsOpen n) (hs : r.stack = []) (hlast : s.IsLast) :
    ∃ closing, (r.take s).finish.Closes n closing ∧ closing.isNormal = false := by
  cases hlast with
  | @failed m hp ho =>
    obtain ⟨⟨-, hpause⟩, -⟩ := resume_fail ho m
    have hstack : (r.take s).stack = [.fail m] := by simp [Run.take, hp, hs]
    have h : (r.take s).IsOpen n := h.take hp rfl
    have hopen : IsOpen n { r.take s with stack := [] } := ⟨h.le, h.quiet⟩
    rw [finish_step, step, hstack]
    exact ⟨_, hopen.closes hpause, rfl⟩
  | closed hp hn => exact ⟨_, h.closes hp, hn⟩
  | @draining t f events ht ho hp =>
    have hstack : (r.take s).stack = [.deliver events true] := by simp [Run.take, hp, hs]
    exact (h.take hp rfl).closes_draining ht ho hstack

/-- What breaks the connection of a session that is not over yet is heard of as a close, and that is
not the close of a connection that was meant to end. -/
theorem ending?_of_breaks (ho : r.session.isOver = false) (hs : r.stack = [])
    (hi : r.pending[i]? = some o) (h : r.session.Breaks o c) :
    ∃ closing, r.ending? i c = some closing ∧ closing.isNormal = false := by
  have hopen : IsOpen r.records.length { r with pending := r.pending.eraseIdx i } :=
    ⟨Nat.le_refl _, by simp⟩
  rw [ending?, step_complete hs hi]
  exact hopen.closes_last hs (h.isLast ho)

end Run

end ProgressFeed.Session
