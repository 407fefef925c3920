import ProgressFeed.Proofs.Session.Contract

/-!
# A session that its owner has closed

What was under way when the owner closed the session completes later. The owner hears nothing of
it, and after a failure nothing follows. But an operation that leads up to an open channel is
followed by the next when it has succeeded: nothing asks there whether the session is closed.
-/

namespace ProgressFeed.Session.Run

variable {kind : Channel.Kind} {r : Run} {i : Nat} {o : Net.Operation} {c : Net.Completion}

theorem Upheld.finished_of_closing (h : r.Upheld kind) (hc : .closing ∈ r.records) :
    r.Fits .finished := by
  have ho : r.session.isOver = true := h.isOver_iff.2 (.inl hc)
  obtain ⟨-, q, -, hf⟩ := h
  obtain rfl := hf.eq_finished ho
  exact hf

theorem Upheld.complete_closing (h : r.Upheld kind) (hc : .closing ∈ r.records)
    (hs : r.stack = []) (hi : r.pending[i]? = some o) (c : Net.Completion) :
    (r.step (.complete i c)).pending =
      r.pending.eraseIdx i ++ (if c.error = none then follows kind o else []) ∧
    ∃ calls : List Net.Call, (r.step (.complete i c)).records = r.records ++ calls.map .call := by
  obtain ⟨ho, hover⟩ := h.finished_of_closing hc
  have hlate : r.session.isClosing = true ∨ o.isOpening = false :=
    hover.imp_right fun hpast ↦ hpast.2 o (List.mem_of_getElem? hi)
  obtain ⟨⟨hpause, -, -⟩, hstarted⟩ := complete_of_over ho hlate c
  rw [step_complete hs hi, ← h.kind_eq]
  refine ⟨congrArg _ hstarted, (r.session.complete o c).calls, ?_⟩
  simp [Run.take, Step.records, hpause]

/-- In a session that its owner has closed, the completion of an operation is not heard of, and
starts nothing unless it is the success of one that leads up to an open channel. -/
theorem complete_after_closing (kind : Channel.Kind) (e : Endpoint) (source token : Bytes)
    (moves : List Move) {i : Nat} {o : Net.Operation}
    (hc : .closing ∈ ((start (make kind e source token)).play moves).records)
    (hs : ((start (make kind e source token)).play moves).stack = [])
    (hi : ((start (make kind e source token)).play moves).pending[i]? = some o)
    (c : Net.Completion) :
    (((start (make kind e source token)).play moves).step (.complete i c)).pending =
      ((start (make kind e source token)).play moves).pending.eraseIdx i ++
        (if c.error = none then follows kind o else []) ∧
    ∃ calls : List Net.Call,
      (((start (make kind e source token)).play moves).step (.complete i c)).records =
        ((start (make kind e source token)).play moves).records ++ calls.map .call :=
  (upheld_play kind e source token moves).complete_closing hc hs hi c

/-- The owner closes an event stream while it connects; what has been broken off is not heard of. -/
theorem complete_after_closing_aborted :
    ((start (make .eventStream {} [] [])).play [.open, .complete 0 {}, .close .byOwner,
      .complete 0 { error := some ⟨.aborted, []⟩ }]).pending = [] :=
  (complete_after_closing .eventStream {} [] [] [.open, .complete 0 {}, .close .byOwner]
    (i := 0) (o := .connect) (by decide) rfl rfl { error := some ⟨.aborted, []⟩ }).1

/-- The owner closes either kind of session before the name of the host is resolved. It still
connects, and then it sends the token. -/
theorem closing_ignored :
    ((start (make .webSocket {} (utf8 "src-1") (utf8 "token-1"))).play
      [.open, .close .byOwner, .complete 0 {}, .complete 0 {}]).records =
      [.call (.resolve (utf8 "localhost") 8000), .closing, .call .cancelResolver,
        .call .closeStream, .call (.expireAfter 30), .call .connect, .call .expireNever,
        .call .suggestTimeout, .call (.handshake (Endpoint.hostHeader {})
          (Endpoint.webSocketTarget (utf8 "src-1") (utf8 "token-1")))] ∧
    ((start (make .eventStream {} (utf8 "src-1") (utf8 "token-1"))).play
      [.open, .close .byOwner, .complete 0 {}, .complete 0 {}]).records =
      [.call (.resolve (utf8 "localhost") 8000), .closing, .call .cancelResolver,
        .call .shutDown, .call .closeStream, .call (.expireAfter 30), .call .connect,
        .call (.writeRequest (Stream.requestFor (Endpoint.hostHeader {})
          (Endpoint.eventStreamTarget (utf8 "src-1")) (utf8 "token-1")))] :=
  ⟨rfl, rfl⟩

end ProgressFeed.Session.Run
