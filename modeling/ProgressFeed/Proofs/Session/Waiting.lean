import ProgressFeed.Proofs.Session.Ending
import ProgressFeed.Proofs.Session.Onward
import Mathlib.Data.List.Pairwise

/-!
# What a live session waits for

As long as nothing is reported to have been broken off, a session that lives waits for the operation
that carries it on, or for its owner to return from a notice. When its end has been heard it calls the
network no more.
-/

namespace ProgressFeed.Session

variable {kind : Channel.Kind} {o : Net.Operation}

/-- What the owner does. -/
def Record.isOwners : Record → Bool
  | .closing | .sent .. => true
  | .call _ | .notice _ => false

namespace Run

variable {r : Run} {m : Move}

/-- What the owner does at the move is recorded before what the session does. When nothing under way
leads up to an open channel, a session that is over does nothing at all. -/
structure Tells (r : Run) (m : Move) (own : List Record) (s : Step Session) : Prop where
  records : (r.step m).records = r.records ++ (own ++ s.records)
  own : ∀ x ∈ own, x.isOwners = true
  silent : r.session.isOver = true → r.IsPast → s.calls = []

theorem tells_of_same (h : r.step m = r) : r.Tells m [] { session := r.session } :=
  ⟨by simp [h, Step.records], by simp, fun _ _ ↦ rfl⟩

theorem exists_tells (r : Run) (m : Move) : ∃ own s, r.Tells m own s := by
  cases m with
  | «open» =>
    by_cases hst : r.isStarted = true
    · exact ⟨_, _, tells_of_same (if_pos hst)⟩
    · refine ⟨[], r.session.start, by simp [step, hst, Run.take], by simp, fun _ hpast ↦ ?_⟩
      exact absurd hpast.1 hst
  | close c =>
    refine ⟨[.closing], r.session.close c, by simp [step, note, Run.take],
      by simp [Record.isOwners], fun ho _ ↦ ?_⟩
    exact congrArg Step.calls (close_of_over ho c)
  | send payload =>
    refine ⟨[.sent payload (r.session.send payload).1.isOk], (r.session.send payload).2,
      by simp [step_send, note, Run.take], by simp [Record.isOwners], fun ho _ ↦ ?_⟩
    have ha : r.session.accepts = false := by
      by_contra ha
      simp [not_isOver_of_accepts (by simpa using ha)] at ho
    exact congrArg Step.calls (send_of_not_accepts ha payload)
  | complete i c =>
    rcases step_complete_cases r i c with heq | ⟨o, -, hi, heq⟩
    · exact ⟨_, _, tells_of_same heq⟩
    · refine ⟨[], r.session.complete o c, by simp [heq, Run.take], by simp, fun ho hpast ↦ ?_⟩
      exact complete_calls_of_over ho (hpast.2 o (List.mem_of_getElem? hi)) c
  | returned =>
    cases hs : r.stack with
    | nil => exact ⟨_, _, tells_of_same (by simp [step, hs])⟩
    | cons x stack =>
      refine ⟨[], r.session.resume x, by simp [step, hs, Run.take], by simp, fun ho _ ↦ ?_⟩
      exact congrArg Step.calls (resume_of_over ho x)

theorem HasEnded.step (h : r.HasEnded) (m : Move) : (r.step m).HasEnded := by
  obtain ⟨own, s, ht⟩ := r.exists_tells m
  unfold HasEnded
  rw [ht.records]
  refine h.imp (List.mem_append_left _) ?_
  rintro ⟨c, hc⟩
  exact ⟨c, List.mem_append_left _ hc⟩

theorem Upheld.isOver_step (h : r.Upheld kind) (ho : r.session.isOver = true) (m : Move) :
    (r.step m).session.isOver = true :=
  (h.step m).isOver_iff.2 ((h.isOver_iff.1 ho).step m)

/-! ## Waiting -/

/-- What is under way of the operations that carry a session on. -/
def chained (r : Run) : List Net.Operation := r.pending.filter (·.isChained)

/-- A session that lives waits for an operation that carries it on, or for its owner to return from a
notice behind which it goes on or is over. -/
def Waits (kind : Channel.Kind) (r : Run) : Prop :=
  r.isStarted = true → r.session.isOver = false →
    (r.stack = [] ∧ ∃ o ∈ chain kind, r.chained = [o]) ∨
      ∃ x, r.stack = [x] ∧ (x.isFailing = true ∨ x.leadsOn kind = true ∧ r.chained = [])

variable {st : Step Session}

theorem chained_take (r : Run) (st : Step Session) :
    (r.take st).chained = r.chained ++ st.started.filter (·.isChained) := List.filter_append ..

/-- Where nothing carries the session on any more, the step that carries it on is awaited. -/
theorem waits_of_continues (hs : r.stack = []) (hc : r.chained = []) (h : st.Continues kind) :
    (r.take st).Waits kind := by
  intro _ ho
  cases h with
  | @onward o hmem hp hstarted =>
    refine .inl ⟨by simp [Run.take, hp, hs], o, hmem, ?_⟩
    rw [chained_take, hc, hstarted]
    simp [isChained_of_mem hmem]
  | @tells n x hp hstarted hx =>
    refine .inr ⟨x, by simp [Run.take, hp, hs], hx.imp_right fun hx ↦ ⟨hx, ?_⟩⟩
    rw [chained_take, hc, hstarted]
    rfl
  | ends hover =>
    have hlive : st.session.isOver = false := ho
    simp [hover] at hlive

theorem chained_quiet (r : Run) (hs : ∀ o ∈ st.started, o.isChained = false) :
    (r.take st).chained = r.chained := by
  have hnone : st.started.filter (·.isChained) = [] :=
    List.filter_eq_nil_iff.2 fun o ho ↦ by simp [hs o ho]
  rw [chained_take, hnone, List.append_nil]

/-- A step beside leaves what is awaited as it is. -/
theorem waits_of_attends (hs : r.stack = []) (h : ∃ o ∈ chain kind, r.chained = [o])
    (hstep : st.Attends) : (r.take st).Waits kind := by
  intro _ _
  cases hstep with
  | quiet hp hstarted =>
    exact .inl ⟨by simp [Run.take, hp, hs], by rwa [chained_quiet r hstarted]⟩
  | @failed m hp hstarted => exact .inr ⟨.fail m, by simp [Run.take, hp, hs], .inl rfl⟩

/-- An operation is reported to have been broken off only when the session has ended. -/
def Tolerates (r : Run) : Move → Prop
  | .complete _ c => c.errorKind = some .aborted → r.HasEnded
  | .open | .close _ | .send _ | .returned => True

/-- This holds of every move in turn. -/
def AbortsLate (r : Run) : List Move → Prop
  | [] => True
  | m :: moves => r.Tolerates m ∧ (r.step m).AbortsLate moves

theorem chained_erase {i : Nat} (hi : r.pending[i]? = some o) :
    (o.isChained = false → chained { r with pending := r.pending.eraseIdx i } = r.chained) ∧
      ∀ o', o.isChained = true → r.chained = [o'] →
        o = o' ∧ chained { r with pending := r.pending.eraseIdx i } = [] := by
  obtain ⟨hlt, hget⟩ := List.getElem?_eq_some_iff.1 hi
  have hsplit : r.pending = r.pending.take i ++ o :: r.pending.drop (i + 1) := by
    rw [← hget, List.getElem_cons_drop, List.take_append_drop]
  have hrest : chained { r with pending := r.pending.eraseIdx i } =
      (r.pending.take i).filter (·.isChained) ++ (r.pending.drop (i + 1)).filter (·.isChained) := by
    rw [chained, List.eraseIdx_eq_take_drop_succ, List.filter_append]
  have hwhole : r.chained = (r.pending.take i).filter (·.isChained) ++
      (o :: r.pending.drop (i + 1)).filter (·.isChained) := by
    rw [chained, ← List.filter_append, ← hsplit]
  constructor
  · intro ho
    rw [hrest, hwhole, List.filter_cons_of_neg (by simp [ho])]
  · intro o' ho hone
    rw [hwhole, List.filter_cons_of_pos ho] at hone
    obtain ⟨hbefore, h⟩ | ⟨a, hbefore, h⟩ := List.append_eq_cons_iff.1 hone
    · obtain ⟨rfl, hafter⟩ := List.cons.inj h
      exact ⟨rfl, by rw [hrest, hbefore, hafter, List.nil_append]⟩
    · simp at h

theorem Upheld.live_of_step (h : r.Upheld kind) (ho : (r.step m).session.isOver = false) :
    r.session.isOver = false := by
  by_contra hover
  simp [h.isOver_step (by simpa using hover)] at ho

theorem Waits.complete (h : r.Waits kind) (hu : r.Upheld kind) {i : Nat} {c : Net.Completion}
    (hm : r.Tolerates (.complete i c)) : (r.step (.complete i c)).Waits kind := by
  rcases step_complete_cases r i c with heq | ⟨o, hs, hi, heq⟩
  · rwa [heq]
  intro hst ho'
  have ho : r.session.isOver = false := hu.live_of_step ho'
  have hwaits := h (by rwa [heq] at hst) ho
  rw [heq] at hst ho' ⊢
  obtain ⟨-, o', hmem, hone⟩ := hwaits.resolve_right fun ⟨x, hx, _⟩ ↦ by simp [hs] at hx
  obtain ⟨hother, hsame⟩ := chained_erase hi
  cases hchained : o.isChained with
  | true =>
    obtain ⟨rfl, hnil⟩ := hsame o' hchained hone
    have hc : c.errorKind ≠ some .aborted := by
      intro hab
      simp [hu.isOver_iff.2 (hm hab)] at ho
    have hcontinues : (Session.complete o c r.session).Continues kind := by
      rw [← hu.kind_eq] at hmem ⊢
      exact complete_continues ho hmem hc
    exact waits_of_continues hs hnil hcontinues hst ho'
  | false =>
    exact waits_of_attends hs ⟨o', hmem, (hother hchained).trans hone⟩
      (complete_attends ho hchained c) hst ho'

theorem Waits.returned (h : r.Waits kind) (hu : r.Upheld kind) : (r.step .returned).Waits kind := by
  cases hs : r.stack with
  | nil => simpa [step, hs] using h
  | cons x stack =>
    have heq : r.step .returned = { r with stack }.take (r.session.resume x) := by simp [step, hs]
    intro hst ho'
    have ho : r.session.isOver = false := hu.live_of_step ho'
    have hwaits := h (by rwa [heq] at hst) ho
    rw [heq] at hst ho' ⊢
    obtain ⟨hnil, -⟩ | ⟨y, hy, hleads⟩ := hwaits
    · simp [hs] at hnil
    obtain ⟨rfl, rfl⟩ := List.cons.inj (hs.symm.trans hy)
    rcases hleads with hfail | ⟨hlead, hnil⟩
    · -- A failure that has been announced ends the session, whatever else is under way.
      obtain ⟨m, rfl⟩ : ∃ m, x = .fail m := by
        cases x with
        | fail m => exact ⟨m, rfl⟩
        | nothing | read | deliver => cases hfail
      have hover : (r.session.resume (.fail m)).session.isOver = false := ho'
      rw [(resume_fail ho m).2] at hover
      cases hover
    · have hcontinues : (Session.resume x r.session).Continues kind := by
        rw [← hu.kind_eq] at hlead ⊢
        exact resume_continues ho (.inr hlead)
      exact waits_of_continues (r := { r with stack := [] }) rfl hnil hcontinues hst ho'

theorem Waits.send (h : r.Waits kind) (hu : r.Upheld kind) (payload : Bytes) :
    (r.step (.send payload)).Waits kind := by
  intro hst ho'
  obtain ⟨hp, hs⟩ := send_quiet payload r.session
  have hstack : (r.step (.send payload)).stack = r.stack := by
    simp [step_send, note, Run.take, hp]
  have hchained : (r.step (.send payload)).chained = r.chained := chained_quiet (r.note _) hs
  rw [hstack, hchained]
  exact h hst (hu.live_of_step ho')

theorem Waits.open (h : r.Waits kind) (hu : r.Upheld kind) : (r.step .open).Waits kind := by
  by_cases hst : r.isStarted = true
  · simpa [step, hst] using h
  intro hst' ho'
  have ho : r.session.isOver = false := hu.live_of_step ho'
  have heq : r.step .open = { r with isStarted := true }.take r.session.start := by
    simp [step, hst]
  obtain ⟨hs, hp⟩ : r.stack = [] ∧ r.pending = [] := by
    obtain ⟨-, q, -, hf⟩ := hu
    cases q with
    | unopened => exact ⟨hf.1.2.2, hf.2.2.2 (by simpa using hst)⟩
    | opened | failing => exact absurd hf.2.1.1 hst
    | finished => simp [hf.1] at ho
  have hnil : chained { r with isStarted := true } = [] := by simp [chained, hp]
  rw [heq] at hst' ho' ⊢
  exact waits_of_continues hs hnil (hu.kind_eq ▸ start_continues r.session) hst' ho'

theorem Waits.step (h : r.Waits kind) (hu : r.Upheld kind) (hm : r.Tolerates m) :
    (r.step m).Waits kind := by
  cases m with
  | «open» => exact h.open hu
  | send payload => exact h.send hu payload
  | complete i c => exact h.complete hu hm
  | returned => exact h.returned hu
  | close c =>
    intro _ ho
    have hend : (r.step (.close c)).HasEnded := by
      left
      simp [Run.step, note, Run.take]
    simp [(hu.step (.close c)).isOver_iff.2 hend] at ho

theorem Waits.play (h : r.Waits kind) (hu : r.Upheld kind) {moves : List Move}
    (hm : r.AbortsLate moves) : (r.play moves).Waits kind := by
  induction moves generalizing r with
  | nil => exact h
  | cons m moves ih => exact ih (h.step hu hm.1) (hu.step m) hm.2

/-! ## After the end -/

theorem IsPast.step (h : r.IsPast) (m : Move) : (r.step m).IsPast := by
  have hquiet (s : Session) : ∀ o ∈ Step.started { session := s }, o.isOpening = false := by
    simp [Step.started]
  cases m with
  | «open» => simpa [Run.step, h.1] using h
  | close c =>
    refine IsPast.take (r := r.note .closing) h ?_
    cases ho : r.session.isOver with
    | true => exact close_of_over ho c ▸ hquiet _
    | false => exact (close_of_live ho c).2.2
  | send payload =>
    refine IsPast.take (r := r.note _) h ?_
    cases ha : r.session.accepts with
    | true => exact (send_of_accepts ha payload).2
    | false => exact send_of_not_accepts ha payload ▸ hquiet _
  | complete i c =>
    rcases step_complete_cases r i c with heq | ⟨o, -, hi, heq⟩
    · rwa [heq]
    have hopening : o.isOpening = false := h.2 o (List.mem_of_getElem? hi)
    rw [heq]
    refine (h.erase i).take ?_
    cases ho : r.session.isOver with
    | true =>
      intro o' hmem
      rw [(complete_of_over ho (.inr hopening) c).2, follows_of_not_isOpening hopening, ite_self]
        at hmem
      cases hmem
    | false => exact (complete_goesOn ho hopening c).2
  | returned =>
    cases hs : r.stack with
    | nil => simpa [Run.step, hs] using h
    | cons x stack =>
      have heq : r.step .returned = { r with stack }.take (r.session.resume x) := by
        simp [Run.step, hs]
      rw [heq]
      refine IsPast.take (r := { r with stack }) h ?_
      cases ho : r.session.isOver with
      | true => exact resume_of_over ho x ▸ hquiet _
      | false =>
        cases x with
        | fail m => simp [Step.started, (resume_fail ho m).1.1, Net.Call.starts]
        | nothing | read | deliver => exact (resume_goesOn ho rfl).2

/-- Without a notice the conversation goes no further, unless the owner ends it. -/
theorem path_unheard {q q' : Stage} {records : List Record} (h : Stage.Path kind q records q')
    (hn : ∀ n, .notice n ∉ records) : q' = q ∨ q' = .finished := by
  induction h with
  | nil => exact .inl rfl
  | @cons q q₁ q₂ x records hx hpath ih =>
    have hq₂ := ih fun n hmem ↦ hn n (List.mem_cons_of_mem x hmem)
    cases hx with
    | call | sent => exact hq₂
    | closing => exact .inr (or_self_iff.1 hq₂)
    | opened | frame | refused | failed | failedClosed | closed =>
      exact absurd (List.mem_cons_self ..) (hn _)

/-- When the end has been heard, nothing under way leads up to an open channel. -/
def EndsPast (r : Run) : Prop := ∀ c, .notice (.closed c) ∈ r.records → r.IsPast

theorem EndsPast.step (h : r.EndsPast) (hu : r.Upheld kind) (m : Move) : (r.step m).EndsPast := by
  intro c hmem
  by_cases hpast : r.IsPast
  · exact hpast.step m
  exfalso
  obtain ⟨own, s, ht⟩ := r.exists_tells m
  obtain ⟨q, -, hpath, hf⟩ := hu.standsAt
  obtain ⟨q', -, hpath', -⟩ := (hu.step m).standsAt
  rw [ht.records] at hmem hpath'
  -- Before the session is open, and when it is over, no end can be heard at once.
  have hq : q = .unopened ∨ q = .finished := by
    cases q with
    | unopened => exact .inl rfl
    | opened | failing => exact absurd hf.2.1 hpast
    | finished => exact .inr rfl
  obtain ⟨q₁, h₁, hnews⟩ := hpath'.of_append
  obtain rfl := hpath.unique h₁
  have hnotice : (.notice (.closed c) : Record) ∈ (s.pause.map (.notice ·.1)).toList := by
    simp only [List.mem_append, Step.records] at hmem
    rcases hmem with hmem | hmem | hmem | hmem
    · exact absurd (h c hmem) hpast
    · cases ht.own _ hmem
    · simp at hmem
    · exact hmem
  obtain ⟨⟨n, x⟩, hp, hn⟩ := Option.map_eq_some_iff.1 (Option.mem_toList.1 hnotice)
  cases hn
  rw [Step.records, hp, ← List.append_assoc] at hnews
  obtain ⟨q₂, q₃, hbefore, hnext, -⟩ := hnews.split
  have hunheard : ∀ n, .notice n ∉ own ++ s.calls.map Record.call := by
    intro n hmem
    rcases List.mem_append.1 hmem with hmem | hmem
    · cases ht.own _ hmem
    · simp at hmem
  rcases path_unheard hbefore hunheard with rfl | rfl
  · rcases hq with rfl | rfl <;> cases hnext
  · cases hnext

/-- Nothing is called when the end has been heard. -/
def IsMute (r : Run) : Prop :=
  r.records.Pairwise fun x y ↦ x.closed?.isSome = true → ∀ call, y ≠ .call call

theorem closed?_eq_none_of_isOwners {x : Record} (h : x.isOwners = true) : x.closed? = none := by
  cases x with
  | closing | sent => rfl
  | call | notice => cases h

theorem IsMute.step (h : r.IsMute) (hu : r.Upheld kind) (he : r.EndsPast) (m : Move) :
    (r.step m).IsMute := by
  obtain ⟨own, s, ht⟩ := r.exists_tells m
  have hfront : ∀ x ∈ own ++ s.calls.map Record.call, x.closed? = none := by
    intro x hx
    rcases List.mem_append.1 hx with hx | hx
    · exact closed?_eq_none_of_isOwners (ht.own x hx)
    · obtain ⟨call, -, rfl⟩ := List.mem_map.1 hx
      rfl
  unfold IsMute
  rw [ht.records, Step.records, ← List.append_assoc own, List.pairwise_append,
    List.pairwise_append]
  refine ⟨h, ⟨?_, ?_, ?_⟩, ?_⟩
  · exact List.pairwise_of_forall_mem_list fun x hx _ _ hclosed ↦ by simp [hfront x hx] at hclosed
  · cases s.pause <;> simp
  · intro x hx _ _ hclosed
    simp [hfront x hx] at hclosed
  · intro x hx y hy hclosed call
    rintro rfl
    obtain ⟨c, hc⟩ := Option.isSome_iff_exists.1 hclosed
    obtain rfl : x = .notice (.closed c) := by
      cases x with
      | notice n => cases n <;> simp_all [Record.closed?]
      | call | closing | sent => cases hc
    have hcalls : s.calls = [] :=
      ht.silent (hu.isOver_iff.2 (.inr ⟨c, hx⟩)) (he c hx)
    simp only [hcalls, List.map_nil, List.append_nil, List.mem_append] at hy
    rcases hy with hy | hy
    · cases ht.own _ hy
    · simp at hy

/-- What always holds of a session that opens once. -/
structure Settled (kind : Channel.Kind) (r : Run) : Prop where
  upheld : r.Upheld kind
  endsPast : r.EndsPast
  isMute : r.IsMute

theorem Settled.play (h : r.Settled kind) (moves : List Move) : (r.play moves).Settled kind :=
  play_induction (fun _ m h ↦ ⟨h.upheld.step m, h.endsPast.step h.upheld m,
    h.isMute.step h.upheld h.endsPast m⟩) h moves

theorem settled_start (kind : Channel.Kind) (e : Endpoint) (source token : Bytes) :
    (start (make kind e source token)).Settled kind :=
  ⟨upheld_start kind e source token, by simp [EndsPast, start], List.Pairwise.nil⟩

/-- As long as nothing has been reported to be broken off, a session that has been opened and has not
ended is always carried on by exactly one operation under way, whenever no notice is. When its end has
been heard it calls the network no more. -/
theorem never_stuck (kind : Channel.Kind) (e : Endpoint) (source token : Bytes)
    (moves : List Move) :
    let r := (start (make kind e source token)).play moves
    ((start (make kind e source token)).AbortsLate moves →
      r.isStarted = true → r.stack = [] → ¬ r.HasEnded →
        ∃ o ∈ chain kind, r.pending.filter (·.isChained) = [o]) ∧
      ∀ a c b, r.records = a ++ .notice (.closed c) :: b → ∀ call, .call call ∉ b := by
  intro r
  have hr : r.Settled kind := (settled_start kind e source token).play moves
  constructor
  · intro hm hst hs hlive
    have hwaits : r.Waits kind :=
      Waits.play (fun h ↦ by cases h) (upheld_start kind e source token) hm
    have ho : r.session.isOver = false := by
      by_contra hover
      exact hlive (hr.upheld.isOver_iff.1 (by simpa using hover))
    rcases hwaits hst ho with ⟨-, h⟩ | ⟨x, hx, -⟩
    · exact h
    · simp [hs] at hx
  · intro a c b heq call hmem
    have hmute : r.IsMute := hr.isMute
    unfold IsMute at hmute
    rw [heq, List.pairwise_append, List.pairwise_cons] at hmute
    exact hmute.2.1.1 _ hmem rfl call rfl

/-- A socket that opens, and whose owner then sends something. -/
def sendingMoves : List Move :=
  [.open, .complete 0 {}, .complete 0 {}, .complete 0 {}, .send [], .returned]

/-- It reads while it writes; and when the server closes it, it does nothing about the close of its
owner. -/
theorem never_stuck_sending :
    (∃ o ∈ chain .webSocket,
      ((start (make .webSocket {} [] [])).play sendingMoves).pending.filter (·.isChained) = [o]) ∧
    ∀ call, .call call ∉ [Record.closing] := by
  have hlate : (start (make .webSocket {} [] [])).AbortsLate sendingMoves :=
    ⟨trivial, nofun, nofun, nofun, trivial, trivial, trivial⟩
  have hlive : ¬ ((start (make .webSocket {} [] [])).play sendingMoves).HasEnded := by
    have ho : ((start (make .webSocket {} [] [])).play sendingMoves).session.isOver = false := rfl
    intro hend
    rw [(upheld_play .webSocket {} [] [] sendingMoves).isOver_iff.2 hend] at ho
    cases ho
  refine ⟨(never_stuck .webSocket {} [] [] sendingMoves).1 hlate rfl rfl hlive, ?_⟩
  exact (never_stuck .webSocket {} [] [] (sendingMoves ++
    [.complete 1 { error := some ⟨.closed, []⟩, code := 1000 }, .close .byOwner])).2
    (((start (make .webSocket {} [] [])).play sendingMoves).records) ⟨1000, []⟩ [.closing] rfl

end Run

end ProgressFeed.Session
