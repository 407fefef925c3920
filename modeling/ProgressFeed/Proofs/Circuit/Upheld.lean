import ProgressFeed.Proofs.Circuit.Hearing

/-!
# What always holds of a circuit

Between two moves the one session that is not over is the one whose channel the link holds, and the
link has not reported its failure. A call or an alarm ends no connection that was not meant to end,
so that it leads to no wait and to no report of the transport.
-/

namespace ProgressFeed

namespace Session.Run

variable {kind : Channel.Kind} {s : Run}

theorem stack_send (s : Run) (payload : Bytes) : (s.step (.send payload)).stack = s.stack := by
  rw [step_send]
  cases ha : s.session.accepts with
  | false => simp [send_of_not_accepts ha, take, note]
  | true => simp [(send_of_accepts ha payload).1.2, take, note]

theorem isOver_send (s : Run) (payload : Bytes) :
    (s.step (.send payload)).session.isOver = s.session.isOver := by
  rw [step_send]
  cases ha : s.session.accepts with
  | false => simp [send_of_not_accepts ha, take]
  | true => exact (send_of_accepts ha payload).1.1

theorem stack_close (s : Run) (c : Channel.Closing) : (s.step (.close c)).stack = s.stack := by
  cases ho : s.session.isOver with
  | true => simp [step, close_of_over ho, take, note]
  | false => simp [step, (close_of_live ho c).2.1, take, note]

theorem isOver_close (s : Run) (c : Channel.Closing) :
    (s.step (.close c)).session.isOver = true := by
  cases ho : s.session.isOver with
  | true => simpa [step, close_of_over ho, take] using ho
  | false => exact isOver_of_isClosing (close_of_live ho c).1

end Session.Run

namespace Circuit

variable {kind : Channel.Kind} {sessions : List Session.Run} {i : Nat}
  {held : Option Nat} {commands : List Command}

/-- A session between two moves. -/
structure Stands (kind : Channel.Kind) (s : Session.Run) : Prop where
  upheld : s.Upheld kind
  stack : s.stack = []

/-- The one session that is not over is the one that is held. -/
def Manned (kind : Channel.Kind) (held : Option Nat) (sessions : List Session.Run) : Prop :=
  ∀ i s, sessions[i]? = some s → Stands kind s ∧ (s.session.isOver = false ↔ held = some i)

theorem Manned.modify (h : Manned kind held sessions) {f : Session.Run → Session.Run}
    {held' : Option Nat} (hf : ∀ s, sessions[i]? = some s →
      Stands kind (f s) ∧ ((f s).session.isOver = false ↔ held' = some i))
    (hne : ∀ j, j ≠ i → (held' = some j ↔ held = some j)) :
    Manned kind held' (sessions.modify i f) := by
  intro j s hj
  rw [List.getElem?_modify] at hj
  obtain ⟨t, ht, rfl⟩ := Option.map_eq_some_iff.1 hj
  by_cases hij : i = j
  · subst hij
    simpa using hf t ht
  · obtain ⟨hstands, hlive⟩ := h j t ht
    simpa [hij] using ⟨hstands, hlive.trans (hne j (Ne.symm hij)).symm⟩

theorem Manned.set (h : Manned kind held sessions) {s : Session.Run} {held' : Option Nat}
    (hs : Stands kind s ∧ (s.session.isOver = false ↔ held' = some i))
    (hne : ∀ j, j ≠ i → (held' = some j ↔ held = some j)) :
    Manned kind held' (sessions.set i s) := by
  rw [List.set_eq_modify]
  exact h.modify (fun _ _ ↦ hs) hne

theorem Manned.send (h : Manned kind held sessions) (i : Nat) (payload : Bytes) :
    Manned kind held (sessions.modify i (·.step (.send payload))) := by
  refine h.modify (fun s hs ↦ ?_) fun _ _ ↦ Iff.rfl
  obtain ⟨hstands, hlive⟩ := h i s hs
  refine ⟨⟨hstands.upheld.send payload, (s.stack_send payload).trans hstands.stack⟩, ?_⟩
  rw [s.isOver_send payload]
  exact hlive

theorem Manned.close (h : Manned kind (some i) sessions) (c : Channel.Closing) :
    Manned kind none (sessions.modify i (·.step (.close c))) := by
  refine h.modify (fun s hs ↦ ?_) fun j hj ↦ ?_
  · obtain ⟨hstands, -⟩ := h i s hs
    refine ⟨⟨hstands.upheld.close c, (s.stack_close c).trans hstands.stack⟩, ?_⟩
    simp [s.isOver_close c]
  · simp [Ne.symm hj]

theorem Manned.append (h : Manned kind none sessions) {s : Session.Run} (hs : Stands kind s)
    (ho : s.session.isOver = false) : Manned kind (some sessions.length) (sessions ++ [s]) := by
  intro j t hj
  rcases Nat.lt_trichotomy j sessions.length with hlt | rfl | hgt
  · rw [List.getElem?_append_left hlt] at hj
    obtain ⟨hstands, hlive⟩ := h j t hj
    refine ⟨hstands, hlive.trans ?_⟩
    simp only [reduceCtorEq, Option.some.injEq, false_iff]
    omega
  · simp only [List.getElem?_concat_length, Option.some.injEq] at hj
    subst hj
    simp [hs, ho]
  · rw [List.getElem?_eq_none (by simp; omega)] at hj
    cases hj

/-- A session as it is opened. -/
theorem stands_opened (kind : Channel.Kind) (endpoint : Endpoint) (source token : Bytes) :
    let s := (Session.Run.start (.make kind endpoint source token)).step .open
    Stands kind s ∧ s.session.isOver = false := by
  refine ⟨⟨(Session.Run.upheld_start kind endpoint source token).open, ?_⟩, ?_⟩
  · cases kind <;> rfl
  · cases kind <;> rfl

/-! ## Commands -/

theorem carry_slight (endpoint : Endpoint) {c : Command} (h : c.IsSlight)
    (hm : Manned kind held sessions) :
    Manned kind held (carry kind endpoint sessions c) ∧
      (carry kind endpoint sessions c).length = sessions.length := by
  cases c with
  | stopAlarm => exact ⟨hm, rfl⟩
  | send i payload => exact ⟨hm.send i payload, List.length_modify ..⟩
  | create | «open» | close | setAlarm | fetch => exact h.elim

theorem Manned.carry_slight (h : Manned kind held sessions) (endpoint : Endpoint)
    (hc : ∀ c ∈ commands, c.IsSlight) :
    Manned kind held (commands.foldl (carry kind endpoint) sessions) ∧
      (commands.foldl (carry kind endpoint) sessions).length = sessions.length := by
  induction commands generalizing sessions with
  | nil => exact ⟨h, rfl⟩
  | cons c commands ih =>
    obtain ⟨hm, hlen⟩ := Circuit.carry_slight endpoint (hc c (List.mem_cons_self ..)) h
    obtain ⟨hm', hlen'⟩ := ih hm fun d hd ↦ hc d (List.mem_cons_of_mem _ hd)
    exact ⟨hm', hlen'.trans hlen⟩

theorem modify_concat {α : Type} (xs : List α) (x : α) (f : α → α) :
    (xs ++ [x]).modify xs.length f = xs ++ [f x] := by
  induction xs with
  | nil => rfl
  | cons y xs ih => simp [ih]

/-- A session is made and opened at once. -/
theorem Manned.carry_create (h : Manned kind none sessions) (endpoint : Endpoint)
    (source token : Bytes) (stamp : Stamp) :
    Manned kind (some sessions.length) ([.create source token, .open sessions.length stamp].foldl
      (carry kind endpoint) sessions) ∧
    ([Command.create source token, .open sessions.length stamp].foldl
      (carry kind endpoint) sessions).length = sessions.length + 1 := by
  obtain ⟨hstands, ho⟩ := stands_opened kind endpoint source token
  simp only [List.foldl_cons, List.foldl_nil, carry, modify_concat]
  exact ⟨h.append hstands ho, by simp⟩

theorem Manned.carry_close (h : Manned kind held sessions) (endpoint : Endpoint) :
    Manned kind none ((held.map (Command.close · .byOwner)).toList.foldl (carry kind endpoint)
      sessions) ∧
    ((held.map (Command.close · .byOwner)).toList.foldl (carry kind endpoint) sessions).length =
      sessions.length := by
  cases held with
  | none => exact ⟨h, rfl⟩
  | some i => exact ⟨h.close .byOwner, List.length_modify ..⟩

end Circuit

/-! ## What has been reported -/

namespace Link

/-- The reports, that of a missing credential apart. -/
def reports (records : List Record) : List Fault :=
  (records.filterMap Record.fault?).filter (·.kind != .authentication)

/-- The waits that alarms have been set for. -/
def waits (records : List Record) : List Int := records.filterMap Record.delay?

namespace Run

variable {b : Backoff} {endings more : List Ending} {r r' r'' : Run} {commands : List Command}
  {faults : List Fault}

/-- From `r` on to `r'` there have been these endings, and the link has answered to them. -/
def Settles (b : Backoff) (endings : List Ending) (r r' : Run) : Prop :=
  ∃ records, r'.records = r.records ++ records ∧
    Accounts b endings (reports records) (waits records)

theorem Settles.refl (r : Run) : Settles b [] r r := ⟨[], (List.append_nil _).symm, .nil⟩

theorem Settles.trans (h : Settles b endings r r') (h' : Settles b more r' r'') :
    Settles b (endings ++ more) r r'' := by
  obtain ⟨records, hr, ha⟩ := h
  obtain ⟨records', hr', ha'⟩ := h'
  refine ⟨records ++ records', by rw [hr', hr, List.append_assoc], ?_⟩
  have hreports : reports (records ++ records') = reports records ++ reports records' := by
    simp [reports]
  rw [hreports, waits, List.filterMap_append]
  exact ha.append ha'

theorem Gives.settles (h : r.Gives r' commands faults)
    (ha : Accounts b endings (faults.filter (·.kind != .authentication))
      (commands.filterMap Command.delay?)) : Settles b endings r r' := by
  obtain ⟨records, hr, rfl, rfl⟩ := h
  refine ⟨records, hr, ?_⟩
  have hwaits : waits records = (records.filterMap Record.command?).filterMap Command.delay? := by
    rw [List.filterMap_filterMap]
    refine congrArg (List.filterMap · records) (funext fun x ↦ ?_)
    cases x <;> rfl
  rw [hwaits]
  exact ha

end Run

end Link

namespace Circuit

variable {id : Nat} {source : Bytes} {backoff : Backoff} {r r' : Circuit} {a : Answers} {i : Nat}

/-- What always holds between two moves. -/
structure Upheld (id : Nat) (source : Bytes) (backoff : Backoff) (r : Circuit) : Prop where
  rests : r.link.Rests id source backoff
  clean : r.link.IsClean
  manned : Manned r.kind r.link.held r.sessions
  length : r.sessions.length = r.link.ledger.opened.length

/-- A move upholds what always holds, and these endings account for it. -/
structure GoesTo (id : Nat) (source : Bytes) (backoff : Backoff) (r r' : Circuit)
    (endings : List Ending) : Prop where
  upheld : r'.Upheld id source backoff
  settles : Link.Run.Settles backoff endings r.link r'.link
  length : r.sessions.length ≤ r'.sessions.length
  held : ∀ i, r'.link.held = some i → r.link.held = some i ∨ r.sessions.length ≤ i
  ended : ∀ e ∈ endings, r.link.held = some e.session ∧ r'.link.held = none

theorem delays_slight {commands : List Command} (hc : ∀ c ∈ commands, c.IsSlight) :
    commands.filterMap Command.delay? = [] := by
  refine List.filterMap_eq_nil_iff.2 fun c hm ↦ ?_
  have h := hc c hm
  cases c with
  | send | stopAlarm => rfl
  | create | «open» | close | setAlarm | fetch => exact h.elim

theorem Upheld.tell (h : r.Upheld id source backoff) {m : Link.Move}
    (hs : r.link.Serves (r.link.meet a m)) : GoesTo id source backoff r (r.tell a m) [] := by
  have hrests := h.rests.meet a m
  cases hs with
  | @stays commands faults hc hf hheld ho hclean hgives =>
    obtain ⟨hmanned, hlength⟩ := h.manned.carry_slight r.endpoint hc
    rw [tell_of_gives hgives]
    refine ⟨⟨hrests, hclean h.clean, hheld ▸ hmanned, ?_⟩, ?_, hlength.ge, ?_, by simp⟩
    · rw [hlength, h.length, ho]
    · refine hgives.settles ?_
      rw [delays_slight hc, List.filter_eq_nil_iff.2 (by simpa using hf)]
      exact .nil
    · exact fun i hi ↦ .inl (hheld ▸ hi)
  | @opens commands source' token stamp hc hnone hheld ho hclean hgives =>
    have hm : Manned r.kind none r.sessions := hnone ▸ h.manned
    obtain ⟨hmanned, hlength⟩ := hm.carry_slight r.endpoint hc
    obtain ⟨hmanned', hlength'⟩ := hmanned.carry_create r.endpoint source' token stamp
    rw [hlength, ← List.foldl_append, h.length] at hmanned' hlength'
    have hdelays : [Command.create source' token,
        .open r.link.ledger.opened.length stamp].filterMap Command.delay? = [] := rfl
    rw [tell_of_gives hgives]
    refine ⟨⟨hrests, hclean, hheld ▸ hmanned', ?_⟩, ?_, ?_, ?_, by simp⟩
    · rw [hlength', ho, List.length_append, List.length_singleton]
    · refine hgives.settles ?_
      rw [List.filterMap_append, delays_slight hc, hdelays]
      exact .nil
    · rw [hlength', ← h.length]
      exact Nat.le_succ _
    · intro i hi
      rw [hheld, Option.some.injEq] at hi
      exact .inr (hi ▸ h.length.le)
  | @leaves commands hc hheld ho hgives =>
    obtain ⟨hmanned, hlength⟩ := h.manned.carry_slight r.endpoint hc
    obtain ⟨hmanned', hlength'⟩ := hmanned.carry_close r.endpoint
    rw [hlength, ← List.foldl_append] at hlength'
    rw [← List.foldl_append] at hmanned'
    have hdelays : (r.link.held.map (Command.close · .byOwner)).toList.filterMap Command.delay? =
        [] := by
      cases r.link.held <;> rfl
    rw [tell_of_gives hgives]
    have hclean := Link.Run.isClean_of_held hheld
    refine ⟨⟨hrests, hclean, hheld ▸ hmanned', ?_⟩, ?_, hlength'.ge, ?_, by simp⟩
    · rw [hlength', h.length, ho]
    · refine hgives.settles ?_
      rw [List.filterMap_append, delays_slight hc, hdelays]
      exact .nil
    · intro i hi
      rw [hheld] at hi
      cases hi

end Circuit

end ProgressFeed
