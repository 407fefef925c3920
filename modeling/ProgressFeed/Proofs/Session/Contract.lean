import ProgressFeed.Proofs.Session.Stage
import ProgressFeed.Proofs.Session.Step

/-!
# The contract between a session and its owner

In every run of a session what its owner hears goes by the rules, whatever the network does and
whenever the owner calls. Each stage of the conversation says how the session stands: before it is
open at most one operation is under way, and behind that none of those that open a channel.
-/

namespace ProgressFeed.Session

namespace Run

/-- Nothing under way leads up to an open channel any more. -/
def IsPast (r : Run) : Prop := r.isStarted = true ∧ ∀ o ∈ r.pending, o.isOpening = false

/-- How a session at work stands at a stage. -/
def Fits (r : Run) : Stage → Prop
  | .unopened => (r.session.isOver = false ∧ r.session.accepts = false ∧ r.stack = []) ∧
      (∀ o ∈ r.pending, o.isOpening = true) ∧ r.pending.length ≤ 1 ∧
      (r.isStarted = false → r.pending = [])
  | .opened => r.session.isOver = false ∧ r.IsPast ∧
      (r.stack = [] ∨ ∃ x, r.stack = [x] ∧ x.isFailing = false)
  | .failing m => r.session.isOver = false ∧ r.IsPast ∧ r.stack = [.fail m]
  | .finished => r.session.isOver = true ∧ (r.session.isClosing = true ∨ r.IsPast)

/-- What has been heard in a run goes by the rules, and the session stands accordingly. -/
structure Upheld (kind : Channel.Kind) (r : Run) : Prop where
  kind_eq : r.session.kind = kind
  stage : ∃ q, Stage.Path kind .unopened r.records q ∧ r.Fits q

variable {kind : Channel.Kind} {r : Run} {s : Step Session} {q q' : Stage} {m : Bytes}

theorem path_quiet (hp : s.pause = none) (q : Stage) : Stage.Path kind q s.records q := by
  rw [Step.records, hp]
  exact (Stage.path_calls q s.calls).trans (.nil q)

theorem path_notice {n : Channel.Notice} {x : Resume} (hp : s.pause = some (n, x))
    (h : Stage.Next kind q (.notice n) q') : Stage.Path kind q s.records q' := by
  rw [Step.records, hp]
  exact (Stage.path_calls q s.calls).trans h.path

theorem IsPast.take (h : r.IsPast) (hs : ∀ o ∈ s.started, o.isOpening = false) :
    (r.take s).IsPast := by
  refine ⟨h.1, ?_⟩
  intro o ho
  rcases List.mem_append.1 ho with ho | ho
  · exact h.2 o ho
  · exact hs o ho

theorem IsPast.erase (h : r.IsPast) (i : Nat) :
    IsPast { r with pending := r.pending.eraseIdx i } := by
  refine ⟨h.1, ?_⟩
  intro o ho
  exact h.2 o (List.mem_of_mem_eraseIdx ho)

theorem take_opens (h : s.Opens) (hst : r.isStarted = true) (hp : r.pending = [])
    (hs : r.stack = []) : ∃ q, Stage.Path kind .unopened s.records q ∧ (r.take s).Fits q := by
  cases h with
  | quiet hpause ho ha hopening hlen =>
    refine ⟨.unopened, path_quiet hpause _, ⟨ho, ha, ?_⟩, ?_, ?_, ?_⟩
    · simp [Run.take, hpause, hs]
    · simpa [Run.take, hp] using hopening
    · simpa [Run.take, hp] using hlen
    · simp [Run.take, hst]
  | opened hpause ho hstarted =>
    refine ⟨.opened, path_notice hpause .opened, ho, ⟨hst, ?_⟩, .inr ⟨.read, ?_, rfl⟩⟩
    · simp [Run.take, hp, hstarted]
    · simp [Run.take, hpause, hs]
  | @failed m hpause ho hstarted =>
    refine ⟨.failing m, path_notice hpause (.refused m), ho, ⟨hst, ?_⟩, ?_⟩
    · simp [Run.take, hp, hstarted]
    · simp [Run.take, hpause, hs]

theorem take_goesOn (h : s.GoesOn) (hstarted : ∀ o ∈ s.started, o.isOpening = false)
    (hk : s.session.kind = kind) (hpast : r.IsPast) (hs : r.stack = []) :
    ∃ q, Stage.Path kind .opened s.records q ∧ (r.take s).Fits q := by
  have hpast := hpast.take hstarted
  cases h with
  | quiet hpause ho =>
    exact ⟨.opened, path_quiet hpause _, ho, hpast, .inl (by simp [Run.take, hpause, hs])⟩
  | @frame f x hpause hx ho =>
    exact ⟨.opened, path_notice hpause (.frame f), ho, hpast,
      .inr ⟨x, by simp [Run.take, hpause, hs], hx⟩⟩
  | @failed m hpause ho =>
    exact ⟨.failing m, path_notice hpause (.failed m), ho, hpast,
      by simp [Run.take, hpause, hs]⟩
  | @closed c x hpause hc ho =>
    exact ⟨.finished, path_notice hpause (.closed fun hke ↦ hc (hk.trans hke)), ho, .inr hpast⟩

theorem take_session (r : Run) : r.take { session := r.session } = r := by
  simp [take, Step.started, Step.records]

theorem Fits.eq_finished (h : r.Fits q) (ho : r.session.isOver = true) : q = .finished := by
  cases q with
  | unopened => simp [h.1.1] at ho
  | opened | failing => simp [h.1] at ho
  | finished => rfl

theorem Upheld.take (hk : s.session.kind = kind) (hpath : Stage.Path kind .unopened r.records q)
    (h : ∃ q', Stage.Path kind q s.records q' ∧ (r.take s).Fits q') : (r.take s).Upheld kind := by
  obtain ⟨q', hs, hf⟩ := h
  exact ⟨hk, q', hpath.trans hs, hf⟩

theorem Upheld.complete (h : r.Upheld kind) (i : Nat) (c : Net.Completion) :
    (r.step (.complete i c)).Upheld kind := by
  rcases step_complete_cases r i c with heq | ⟨o, hs, hi, heq⟩
  · rwa [heq]
  rw [heq]
  obtain ⟨hk, q, hpath, hf⟩ := h
  have hmem : o ∈ r.pending := List.mem_of_getElem? hi
  refine .take (kind_complete o c r.session ▸ hk) hpath ?_
  cases q with
  | unopened =>
    obtain ⟨⟨ho, ha, -⟩, hopening, hlen, hst⟩ := hf
    -- The operation that completes was the only one, so that what it starts is again the only one.
    have hnil : r.pending.eraseIdx i = [] := eraseIdx_eq_nil hlen hi
    have hstarted : r.isStarted = true := by
      cases hst' : r.isStarted with
      | true => rfl
      | false => simp [hst hst'] at hmem
    exact take_opens (complete_opens ho ha (hopening o hmem) c) hstarted hnil hs
  | opened =>
    obtain ⟨ho, hpast, -⟩ := hf
    obtain ⟨hgoes, hstarted⟩ := complete_goesOn ho (hpast.2 o hmem) c
    exact take_goesOn hgoes hstarted ((kind_complete o c _).trans hk) (hpast.erase i) hs
  | failing m => simp [hf.2.2] at hs
  | finished =>
    obtain ⟨ho, hc⟩ := hf
    obtain ⟨⟨hpause, ho', hc'⟩, hstarted⟩ :=
      complete_of_over ho (hc.imp_right fun hpast ↦ hpast.2 o hmem) c
    refine ⟨.finished, path_quiet hpause _, ho', ?_⟩
    rcases hc with hc | hpast
    · exact .inl (hc'.trans hc)
    · right
      apply (hpast.erase i).take
      intro o' hmem'
      simp [hstarted, follows_of_not_isOpening (hpast.2 o hmem)] at hmem'

theorem Upheld.returned (h : r.Upheld kind) : (r.step .returned).Upheld kind := by
  cases hs : r.stack with
  | nil => simpa [step, hs] using h
  | cons x stack =>
    have heq : r.step .returned = { r with stack }.take (r.session.resume x) := by simp [step, hs]
    rw [heq]
    obtain ⟨hk, q, hpath, hf⟩ := h
    refine .take (kind_resume x r.session ▸ hk) hpath ?_
    cases q with
    | unopened => simp [hf.1.2.2] at hs
    | opened =>
      obtain ⟨ho, hpast, hstack⟩ := hf
      obtain ⟨y, hy, hx⟩ := hstack.resolve_left (by simp [hs])
      obtain ⟨rfl, rfl⟩ := List.cons.inj (hs.symm.trans hy)
      obtain ⟨hgoes, hstarted⟩ := resume_goesOn ho hx
      exact take_goesOn hgoes hstarted ((kind_resume x _).trans hk) hpast rfl
    | failing m =>
      obtain ⟨ho, hpast, hstack⟩ := hf
      obtain ⟨rfl, rfl⟩ := List.cons.inj (hs.symm.trans hstack)
      obtain ⟨⟨hcalls, hpause⟩, ho'⟩ := resume_fail ho m
      refine ⟨.finished, path_notice hpause (.failedClosed m), ho', .inr ?_⟩
      exact IsPast.take hpast (by simp [Step.started, hcalls, Net.Call.starts])
    | finished =>
      rw [resume_of_over hf.1]
      exact ⟨.finished, path_quiet rfl _, (take_session _).symm ▸ hf⟩

theorem Upheld.close (h : r.Upheld kind) (c : Channel.Closing) :
    (r.step (.close c)).Upheld kind := by
  obtain ⟨hk, q, hpath, hf⟩ := h
  have hpath : Stage.Path kind .unopened (r.note .closing).records .finished :=
    hpath.trans (Stage.Next.closing q).path
  refine .take (kind_close c r.session ▸ hk) hpath ?_
  -- A session that has finished by itself does not take note of the close, but it is over too.
  cases ho : r.session.isOver with
  | true =>
    obtain rfl := hf.eq_finished ho
    rw [close_of_over ho]
    exact ⟨.finished, path_quiet rfl _, (take_session (r.note .closing)).symm ▸ hf⟩
  | false =>
    obtain ⟨hc, hpause, -⟩ := close_of_live ho c
    exact ⟨.finished, path_quiet hpause _, isOver_of_isClosing hc, .inl hc⟩

theorem Upheld.send (h : r.Upheld kind) (payload : Bytes) :
    (r.step (.send payload)).Upheld kind := by
  obtain ⟨hk, q, hpath, hf⟩ := h
  have hpath : Stage.Path kind .unopened
      (r.note (.sent payload (r.session.send payload).1.isOk)).records q :=
    hpath.trans (Stage.Next.sent q _ _).path
  rw [step_send]
  refine .take (kind_send payload r.session ▸ hk) hpath ⟨q, ?_⟩
  cases ha : r.session.accepts with
  | false =>
    rw [send_of_not_accepts ha]
    exact ⟨path_quiet rfl q, (take_session (r.note _)).symm ▸ hf⟩
  | true =>
    obtain ⟨⟨ho, hpause⟩, hstarted⟩ := send_of_accepts ha payload
    refine ⟨path_quiet hpause q, ?_⟩
    cases q with
    | unopened => simp [hf.1.2.1] at ha
    | opened =>
      obtain ⟨ho', hpast, hstack⟩ := hf
      refine ⟨ho.trans ho', IsPast.take hpast hstarted, ?_⟩
      simpa [Run.take, Run.note, hpause] using hstack
    | failing m =>
      obtain ⟨ho', hpast, hstack⟩ := hf
      refine ⟨ho.trans ho', IsPast.take hpast hstarted, ?_⟩
      simpa [Run.take, Run.note, hpause] using hstack
    | finished => exact absurd hf.1 (by simp [not_isOver_of_accepts ha])

theorem Upheld.open (h : r.Upheld kind) : (r.step .open).Upheld kind := by
  cases hst : r.isStarted with
  | true => simpa [step, hst] using h
  | false =>
    have heq : r.step .open = { r with isStarted := true }.take r.session.start := by
      simp [step, hst]
    rw [heq]
    obtain ⟨hk, q, hpath, hf⟩ := h
    obtain ⟨hs, hpause, hstarted⟩ := start_eq r.session
    refine .take ((congrArg Session.kind hs).trans hk) hpath ⟨q, path_quiet hpause q, ?_⟩
    cases q with
    | unopened =>
      obtain ⟨⟨ho, ha, hstack⟩, -, -, hp⟩ := hf
      refine ⟨⟨(congrArg isOver hs).trans ho, (congrArg accepts hs).trans ha, ?_⟩, ?_, ?_, ?_⟩
      · simp [Run.take, hpause, hstack]
      · simp [Run.take, hp hst, hstarted, Net.Operation.isOpening]
      · simp [Run.take, hp hst, hstarted]
      · simp [Run.take]
    | opened => simp [hf.2.1.1] at hst
    | failing m => simp [hf.2.1.1] at hst
    | finished =>
      refine ⟨(congrArg isOver hs).trans hf.1, .inl ((congrArg isClosing hs).trans ?_)⟩
      exact hf.2.resolve_right fun hpast ↦ by simp [hpast.1] at hst

theorem Upheld.step (h : r.Upheld kind) (m : Move) : (r.step m).Upheld kind := by
  cases m with
  | «open» => exact h.open
  | close c => exact h.close c
  | send payload => exact h.send payload
  | complete i c => exact h.complete i c
  | returned => exact h.returned

/-- The owner has closed the session, or has heard that it is over. -/
def HasEnded (r : Run) : Prop :=
  .closing ∈ r.records ∨ ∃ c, .notice (.closed c) ∈ r.records

theorem Upheld.isOver_iff (h : r.Upheld kind) : r.session.isOver = true ↔ r.HasEnded := by
  obtain ⟨-, q, hpath, hf⟩ := h
  constructor
  · intro ho
    obtain rfl := hf.eq_finished ho
    exact hpath.finished_mem (by simp)
  · intro hend
    obtain ⟨x, hmem, hx⟩ : ∃ x ∈ r.records, x = .closing ∨ ∃ c, x = .notice (.closed c) := by
      rcases hend with hmem | ⟨c, hmem⟩
      · exact ⟨_, hmem, .inl rfl⟩
      · exact ⟨_, hmem, .inr ⟨c, rfl⟩⟩
    obtain ⟨a, b, heq⟩ := List.append_of_mem hmem
    obtain ⟨q₁, q₂, -, hnext, hb⟩ := (heq ▸ hpath).split
    have hq₂ : q₂ = .finished := by
      rcases hx with rfl | ⟨c, rfl⟩ <;> cases hnext <;> rfl
    subst hq₂
    obtain ⟨rfl, -⟩ := hb.silent
    exact hf.1

theorem upheld_start (kind : Channel.Kind) (e : Endpoint) (source token : Bytes) :
    (start (make kind e source token)).Upheld kind := by
  cases kind <;> exact ⟨rfl, .unopened, .nil _, ⟨rfl, rfl, rfl⟩, by simp [start], by simp [start],
    fun _ ↦ rfl⟩

/-- What the owner of a session may rely on. -/
structure Kept (kind : Channel.Kind) (r : Run) : Prop where
  opened_once : ∀ a b, r.records = a ++ .notice .opened :: b → .notice .opened ∉ b
  frame_opened : ∀ a f b, r.records = a ++ .notice (.frame f) :: b → .notice .opened ∈ a
  failed_once : ∀ a m b, r.records = a ++ .notice (.failed m) :: b →
    ∀ m', .notice (.failed m') ∉ b
  /-- The close comes at once, unless the owner closes the session first. -/
  failed_closed : ∀ a m b, r.records = a ++ .notice (.failed m) :: b →
    (Stage.dialogue b = [] ∧ r.stack = [.fail m] ∧
      (r.step .returned).records =
        r.records ++ [.call .closeStream, .notice (.closed ⟨Channel.abnormalCode, m⟩)]) ∨
    (∃ more, Stage.dialogue b = .notice (.closed ⟨Channel.abnormalCode, m⟩) :: more) ∨
    (∃ more, Stage.dialogue b = .closing :: more)
  closed_last : ∀ a c b, r.records = a ++ .notice (.closed c) :: b → ∀ n, .notice n ∉ b
  closing_silent : ∀ a b, r.records = a ++ .closing :: b → ∀ n, .notice n ∉ b
  closed_code : kind = .eventStream →
    ∀ c, .notice (.closed c) ∈ r.records → c.code = Channel.abnormalCode
  open_silent : ∃ calls : List Net.Call, (r.step .open).records = r.records ++ calls.map .call
  /-- What the peer gives as its reasons is passed on. -/
  peer_closed : kind = .webSocket → ∀ i c e, r.stack = [] → r.pending[i]? = some .readMessage →
    c.error = some e → e.kind = .closed →
    .closing ∉ r.records → (∀ c', .notice (.closed c') ∉ r.records) →
    (r.step (.complete i c)).records = r.records ++ [.notice (.closed ⟨c.code, c.reason⟩)] ∧
      ∀ m, .notice (.failed m) ∉ r.records

theorem returned_failing (hs : r.stack = [.fail m]) (ho : r.session.isOver = false) :
    (r.step .returned).records =
      r.records ++ [.call .closeStream, .notice (.closed ⟨Channel.abnormalCode, m⟩)] := by
  obtain ⟨⟨hcalls, hpause⟩, -⟩ := resume_fail ho m
  simp [step, hs, Run.take, Step.records, hcalls, hpause]

theorem open_records (r : Run) :
    ∃ calls : List Net.Call, (r.step .open).records = r.records ++ calls.map .call := by
  cases hst : r.isStarted with
  | true => exact ⟨[], by simp [step, hst]⟩
  | false =>
    obtain ⟨-, hpause, -⟩ := start_eq r.session
    exact ⟨r.session.start.calls, by simp [step, hst, Run.take, Step.records, hpause]⟩

theorem Upheld.peer_closed (h : r.Upheld .webSocket) {i : Nat} {c : Net.Completion} {e : Net.Error}
    (hs : r.stack = []) (hi : r.pending[i]? = some .readMessage) (he : c.error = some e)
    (hclosed : e.kind = .closed) (hno : .closing ∉ r.records)
    (hnot : ∀ c', .notice (.closed c') ∉ r.records) :
    (r.step (.complete i c)).records = r.records ++ [.notice (.closed ⟨c.code, c.reason⟩)] ∧
      ∀ m, .notice (.failed m) ∉ r.records := by
  obtain ⟨hk, q, hpath, hf⟩ := h
  cases q with
  | unopened => cases hf.2.1 _ (List.mem_of_getElem? hi)
  | opened =>
    refine ⟨?_, hpath.failed_notMem rfl⟩
    rw [step_complete hs hi, Run.take, complete_peerClosed hf.1 hk he hclosed]
  | failing m => simp [hf.2.2] at hs
  | finished =>
    rcases hpath.finished_mem (by simp) with hmem | ⟨c', hmem⟩
    · exact absurd hmem hno
    · exact absurd hmem (hnot c')

theorem Upheld.kept (h : r.Upheld kind) : r.Kept kind := by
  obtain ⟨hk, q, hpath, hf⟩ := id h
  constructor
  case opened_once =>
    intro a b heq
    obtain ⟨q₁, q₂, -, hx, hb⟩ := (heq ▸ hpath).split
    cases hx
    exact hb.opened_notMem (by simp)
  case frame_opened =>
    intro a f b heq
    obtain ⟨q₁, q₂, ha, hx, -⟩ := (heq ▸ hpath).split
    cases hx
    exact ha.opened_mem (by simp)
  case failed_once =>
    intro a m b heq
    obtain ⟨q₁, q₂, -, hx, hb⟩ := (heq ▸ hpath).split
    have hlate : q₂.isLate = true := by
      cases hx <;> rfl
    intro m' hmem
    obtain ⟨c, hc⟩ := (hb.of_late hlate).2 _ hmem
    cases hc
  case failed_closed =>
    intro a m b heq
    obtain ⟨q₁, q₂, -, hx, hb⟩ := (heq ▸ hpath).split
    have hq₂ : q₂ = .failing m := by
      cases hx <;> rfl
    subst hq₂
    rcases hb.dialogue_failing with ⟨hnil, rfl⟩ | h
    · exact .inl ⟨hnil, hf.2.2, returned_failing hf.2.2 hf.1⟩
    · exact .inr h
  case closed_last =>
    intro a c b heq
    obtain ⟨q₁, q₂, -, hx, hb⟩ := (heq ▸ hpath).split
    cases hx <;> exact hb.silent.2
  case closing_silent =>
    intro a b heq
    obtain ⟨q₁, q₂, -, hx, hb⟩ := (heq ▸ hpath).split
    cases hx
    exact hb.silent.2
  case closed_code =>
    intro hkind c hmem
    obtain ⟨a, b, heq⟩ := List.append_of_mem hmem
    obtain ⟨q₁, q₂, -, hx, -⟩ := (heq ▸ hpath).split
    cases hx with
    | failedClosed => rfl
    | closed hc => exact hc hkind
  case open_silent => exact open_records r
  case peer_closed =>
    rintro rfl i c e hs hi he hclosed hno hnot
    exact h.peer_closed hs hi he hclosed hno hnot

theorem upheld_play (kind : Channel.Kind) (e : Endpoint) (source token : Bytes)
    (moves : List Move) : ((start (make kind e source token)).play moves).Upheld kind :=
  play_induction (fun _ m h ↦ h.step m) (upheld_start kind e source token) moves

/-- The contract between a session and its owner holds in every run. -/
theorem contract (kind : Channel.Kind) (e : Endpoint) (source token : Bytes) (moves : List Move) :
    ((start (make kind e source token)).play moves).Kept kind :=
  (upheld_play kind e source token moves).kept

/-- The server closes a WebSocket as soon as it is open. -/
example : Stage.dialogue ((start (make .webSocket {} [] [])).play
    [.open, .complete 0 {}, .complete 0 {}, .complete 0 {}, .returned,
      .complete 0 { error := some ⟨.closed, []⟩, code := 4000 }]).records =
    [.notice .opened, .notice (.closed ⟨4000, []⟩)] := rfl

end Run

end ProgressFeed.Session
