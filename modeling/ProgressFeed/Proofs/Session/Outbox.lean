import ProgressFeed.Proofs.Session.Contract
import Mathlib.Data.List.Forall2
import Mathlib.Data.List.Perm.Basic

/-!
# What a socket writes

An open socket takes payloads at any time, but writes one at a time. What it has taken waits in the
outbox, the payload being written first; when a write has succeeded the next one begins. A write
that fails leaves its payload where it is.
-/

namespace ProgressFeed

def Net.Call.payload? : Net.Call → Option Bytes
  | .writeMessage payload => some payload
  | _ => none

namespace Session

/-- The payloads that a step hands over to be written. -/
def Step.writes {σ : Type} (s : Step σ) : List Bytes := s.calls.filterMap Net.Call.payload?

theorem Step.count_started {σ : Type} (s : Step σ) :
    s.started.count .writeMessage = s.writes.length := by
  obtain ⟨session, calls, pause⟩ := s
  simp only [started, writes]
  induction calls with
  | nil => rfl
  | cons c calls ih =>
    cases c <;> simpa [List.filterMap_cons, Net.Call.starts, Net.Call.payload?] using ih

namespace Socket

/-- The step neither writes nor changes what is to be written. -/
structure Leaves (s : Socket) (st : Step Socket) : Prop where
  writes : st.writes = []
  outbox : st.session.outbox = s.outbox
  isWriting : st.session.isWriting = s.isWriting
  live : st.session.isOver = false → s.isOver = false

variable {s : Socket}

theorem rest_leaves (s : Socket) : s.Leaves s.rest := ⟨rfl, rfl, rfl, fun h ↦ h⟩

theorem finish_leaves (s : Socket) (c : Channel.Closing) : s.Leaves (s.finish c) := by
  refine ⟨rfl, rfl, rfl, fun h ↦ ?_⟩
  simp [finish, isOver] at h

theorem fail_leaves (s : Socket) (what : String) (e : Net.Error) : s.Leaves (s.fail what e) := by
  unfold fail
  split
  · exact rest_leaves s
  · split
    · exact rest_leaves s
    · exact ⟨rfl, rfl, rfl, fun h ↦ h⟩

theorem close_leaves (s : Socket) (c : Channel.Closing) : s.Leaves (s.close c) := by
  unfold close
  split
  · exact rest_leaves s
  · refine ⟨?_, rfl, rfl, fun h ↦ by simp [isOver] at h⟩
    cases s.isOpen <;> simp [Step.writes, Net.Call.payload?]

theorem onHandshake_leaves (s : Socket) : s.Leaves s.onHandshake := by
  unfold onHandshake
  split
  · exact rest_leaves s
  · exact ⟨rfl, rfl, rfl, fun h ↦ h⟩

theorem onRead_leaves (s : Socket) (c : Net.Completion) : s.Leaves (s.onRead c) := by
  unfold onRead
  split
  · exact rest_leaves s
  · split
    · exact ⟨rfl, rfl, rfl, fun h ↦ h⟩
    · split
      · exact finish_leaves s _
      · exact fail_leaves s "read" _

theorem complete_leaves {o : Net.Operation} (ho : o ≠ .writeMessage) (c : Net.Completion) :
    s.Leaves (s.complete o c) := by
  unfold complete
  split
  · exact ⟨rfl, rfl, rfl, fun h ↦ h⟩
  · exact fail_leaves s "resolve" _
  · exact ⟨rfl, rfl, rfl, fun h ↦ h⟩
  · exact fail_leaves s "connect" _
  · exact onHandshake_leaves s
  · exact fail_leaves s "handshake" _
  · exact onRead_leaves s c
  · exact absurd rfl ho
  · exact rest_leaves s

theorem writes_write {q : Bytes} (hq : s.outbox.head? = some q) :
    (s.write.map socket).writes = [q] := by
  simp only [Step.writes, Step.map, write, hq]
  rfl

theorem resume_leaves (s : Socket) (x : Resume) : s.Leaves (s.resume x) := by
  cases x with
  | nothing | deliver => exact rest_leaves s
  | read =>
    simp only [resume]
    split
    · exact rest_leaves s
    · exact ⟨rfl, rfl, rfl, fun h ↦ h⟩
  | fail m =>
    simp only [resume]
    split
    · exact rest_leaves s
    · have h := finish_leaves s ⟨Channel.abnormalCode, m⟩
      exact ⟨rfl, h.outbox, h.isWriting, h.live⟩

end Socket

/-! ## What there is to write -/

/-- What a socket has taken and handed over to be written, and how it stands with the rest. -/
structure Mail where
  taken : List Bytes
  written : List Bytes
  outbox : List Bytes
  isWriting : Bool
  /-- How many writes are under way. -/
  underway : Nat
  isOver : Bool

namespace Mail

/-- What may become of the mail; a write fails only if something is amiss. -/
inductive Next (amiss : Prop) (x y : Mail) : Prop
  | same (ht : y.taken = x.taken) (hw : y.written = x.written) (ho : y.outbox = x.outbox)
      (hi : y.isWriting = x.isWriting) (hu : y.underway = x.underway)
      (hl : y.isOver = false → x.isOver = false)
  /-- A payload is taken while another is being written. -/
  | waits (p : Bytes) (hx : x.isWriting = true) (ht : y.taken = x.taken ++ [p])
      (hw : y.written = x.written) (ho : y.outbox = x.outbox ++ [p]) (hi : y.isWriting = true)
      (hu : y.underway = x.underway)
  /-- A payload is taken, and the first of all that wait is written. -/
  | begins (p q : Bytes) (hx : x.isWriting = false) (ht : y.taken = x.taken ++ [p])
      (hq : (x.outbox ++ [p]).head? = some q) (hw : y.written = x.written ++ [q])
      (ho : y.outbox = x.outbox ++ [p]) (hi : y.isWriting = true) (hu : y.underway = x.underway + 1)
      (hl : x.isOver = false)
  /-- A payload has been written, and the next one is. -/
  | goesOn (q : Bytes) (hx : x.underway ≠ 0) (ht : y.taken = x.taken)
      (hq : x.outbox.tail.head? = some q) (hw : y.written = x.written ++ [q])
      (ho : y.outbox = x.outbox.tail) (hi : y.isWriting = true) (hu : y.underway = x.underway)
  /-- A payload has been written, and no other is. -/
  | ends (hx : x.underway ≠ 0) (ht : y.taken = x.taken) (hw : y.written = x.written)
      (ho : y.outbox = x.outbox.tail) (hi : y.isWriting = false)
      (hu : y.underway = x.underway - 1) (hl : y.isOver = false → y.outbox = [])
  | fails (hx : x.underway ≠ 0) (ha : amiss) (ht : y.taken = x.taken) (hw : y.written = x.written)
      (ho : y.outbox = x.outbox) (hi : y.isWriting = false) (hu : y.underway = x.underway - 1)

/-- What has been taken is `done` or still in the outbox. Each write is the attempt at one of the
payloads taken, and no later attempt is at an earlier one. -/
structure Orderly (x : Mail) (done : List Bytes) (tries : List Nat) : Prop where
  taken : x.taken = done ++ x.outbox
  underway : x.underway = x.isWriting.toNat
  busy : x.isWriting = true → x.outbox ≠ []
  written : List.Forall₂ (fun p k ↦ x.taken[k]? = some p) x.written tries
  sorted : tries.Pairwise (· ≤ ·)
  le : ∀ k ∈ tries, k ≤ done.length

/-- Each payload has been handed over once, and nothing waits without need. -/
structure Smooth (x : Mail) (done : List Bytes) : Prop where
  written : x.written = done ++ if x.isWriting then x.outbox.take 1 else []
  idle : x.isOver = false → x.isWriting = false → x.outbox = []

variable {amiss : Prop} {x y : Mail} {done : List Bytes} {tries : List Nat}

theorem Orderly.isWriting (h : x.Orderly done tries) (hx : x.underway ≠ 0) :
    x.isWriting = true := by
  by_contra hw
  simp [h.underway, hw] at hx

theorem Orderly.attempts (h : x.Orderly done tries) (more : List Bytes) :
    List.Forall₂ (fun p k ↦ (x.taken ++ more)[k]? = some p) x.written tries := by
  refine h.written.imp fun p k hk ↦ ?_
  obtain ⟨hlt, -⟩ := List.getElem?_eq_some_iff.1 hk
  rw [List.getElem?_append_left hlt, hk]

theorem Orderly.attempt (h : x.Orderly done tries) {outbox taken : List Bytes} {q : Bytes}
    {done' : List Bytes} (ht : taken = done' ++ outbox) (hq : outbox.head? = some q)
    (hle : done.length ≤ done'.length)
    (hwritten : List.Forall₂ (fun p k ↦ taken[k]? = some p) x.written tries) :
    List.Forall₂ (fun p k ↦ taken[k]? = some p) (x.written ++ [q]) (tries ++ [done'.length]) ∧
      (tries ++ [done'.length]).Pairwise (· ≤ ·) ∧
      ∀ k ∈ tries ++ [done'.length], k ≤ done'.length := by
  have hbound : ∀ k ∈ tries, k ≤ done'.length := fun k hk ↦ Nat.le_trans (h.le k hk) hle
  have hget : taken[done'.length]? = some q := by
    rw [ht, List.getElem?_append_right (Nat.le_refl _), Nat.sub_self, ← List.head?_eq_getElem?, hq]
  refine ⟨List.rel_append hwritten (.cons hget .nil), ?_, ?_⟩
  · refine List.pairwise_append.2 ⟨h.sorted, List.pairwise_singleton _ _, ?_⟩
    intro k hk j hj
    rw [List.mem_singleton.1 hj]
    exact hbound k hk
  · intro k hk
    rcases List.mem_append.1 hk with hk | hk
    · exact hbound k hk
    · exact Nat.le_of_eq (List.mem_singleton.1 hk)

/-- A write that has ended was that of the first payload in the outbox. -/
theorem Orderly.first (h : x.Orderly done tries) (hx : x.underway ≠ 0) :
    ∃ p rest, x.outbox = p :: rest ∧ x.taken = (done ++ [p]) ++ rest := by
  obtain ⟨p, rest, hp⟩ := List.exists_cons_of_ne_nil (h.busy (h.isWriting hx))
  exact ⟨p, rest, hp, by rw [h.taken, hp, List.append_assoc, List.singleton_append]⟩

theorem Orderly.next (h : x.Orderly done tries) (hn : Next amiss x y) :
    ∃ done' tries', y.Orderly done' tries' ∧
      (x.Smooth done → ¬ amiss → y.Smooth done') := by
  have hunderway := h.underway
  -- Only a write that begins is one more attempt, and only one that has succeeded one more done.
  cases hn with
  | same ht hw ho hi hu hl =>
    refine ⟨done, tries, ⟨?_, ?_, ?_, ?_, h.sorted, h.le⟩, fun hs _ ↦ ⟨?_, fun hover hidle ↦ ?_⟩⟩
    · rw [ht, ho, h.taken]
    · rw [hu, hi, hunderway]
    · rw [hi, ho]
      exact h.busy
    · rw [hw, ht]
      exact h.written
    · rw [hw, hi, ho, hs.written]
    · rw [ho]
      exact hs.idle (hl hover) (hi ▸ hidle)
  | waits p hx ht hw ho hi hu =>
    refine ⟨done, tries, ⟨?_, ?_, ?_, ?_, h.sorted, h.le⟩, fun hs _ ↦ ⟨?_, fun _ hidle ↦ ?_⟩⟩
    · rw [ht, ho, h.taken, List.append_assoc]
    · rw [hu, hi, hunderway, hx]
    · simp [ho]
    · rw [hw, ht]
      exact h.attempts [p]
    · obtain ⟨q, rest, hq⟩ := List.exists_cons_of_ne_nil (h.busy hx)
      rw [hw, hs.written, hx, hi, ho, hq]
      rfl
    · cases hi.symm.trans hidle
  | begins p q hx ht hq hw ho hi hu hl =>
    have htaken : y.taken = done ++ (x.outbox ++ [p]) := by rw [ht, h.taken, List.append_assoc]
    have hat : List.Forall₂ (fun p k ↦ y.taken[k]? = some p) x.written tries := by
      rw [ht]
      exact h.attempts [p]
    obtain ⟨hwritten, hsorted, hle⟩ := h.attempt htaken hq (Nat.le_refl _) hat
    refine ⟨done, _, ⟨?_, ?_, ?_, ?_, hsorted, hle⟩, fun hs _ ↦ ⟨?_, fun _ hidle ↦ ?_⟩⟩
    · rw [htaken, ho]
    · rw [hu, hi, hunderway, hx]
      rfl
    · simp [ho]
    · rw [hw]
      exact hwritten
    · -- Nothing else was waiting, so that the payload taken is the one written.
      have hnil := hs.idle hl hx
      obtain rfl : p = q := by simpa [hnil] using hq
      rw [hw, hs.written, hx, hi, ho, hnil]
      simp
    · cases hi.symm.trans hidle
  | goesOn q hx ht hq hw ho hi hu =>
    obtain ⟨p, rest, hp, htaken⟩ := h.first hx
    rw [hp, List.tail_cons] at hq ho
    have hat : List.Forall₂ (fun p k ↦ y.taken[k]? = some p) x.written tries := by
      rw [ht]
      exact h.written
    have hlonger : done.length ≤ (done ++ [p]).length := by simp
    obtain ⟨hwritten, hsorted, hle⟩ := h.attempt (ht.trans htaken) hq hlonger hat
    refine ⟨done ++ [p], _, ⟨?_, ?_, ?_, ?_, hsorted, hle⟩, fun hs _ ↦ ⟨?_, fun _ hidle ↦ ?_⟩⟩
    · rw [ht, ho, htaken]
    · rw [hu, hi, hunderway, h.isWriting hx]
    · rintro - hnil
      rw [ho] at hnil
      simp [hnil] at hq
    · rw [hw]
      exact hwritten
    · obtain ⟨rest', rfl⟩ : ∃ rest', rest = q :: rest' := by
        cases rest with
        | nil => cases hq
        | cons q' rest' => exact ⟨rest', by rw [Option.some.inj hq]⟩
      rw [hw, hs.written, h.isWriting hx, hi, ho, hp]
      simp
    · cases hi.symm.trans hidle
  | ends hx ht hw ho hi hu hl =>
    obtain ⟨p, rest, hp, htaken⟩ := h.first hx
    rw [hp, List.tail_cons] at ho
    refine ⟨done ++ [p], tries, ⟨?_, ?_, ?_, ?_, h.sorted, fun k hk ↦ ?_⟩,
      fun hs _ ↦ ⟨?_, fun hover _ ↦ hl hover⟩⟩
    · rw [ht, ho, htaken]
    · rw [hu, hi, hunderway, h.isWriting hx]
      rfl
    · simp [hi]
    · rw [hw, ht]
      exact h.written
    · exact Nat.le_trans (h.le k hk) (by simp)
    · rw [hw, hs.written, h.isWriting hx, hi, hp]
      simp
  | fails hx ha ht hw ho hi hu =>
    refine ⟨done, tries, ⟨?_, ?_, ?_, ?_, h.sorted, h.le⟩, fun _ hn ↦ absurd ha hn⟩
    · rw [ht, ho, h.taken]
    · rw [hu, hi, hunderway, h.isWriting hx]
      rfl
    · simp [hi]
    · rw [hw, ht]
      exact h.written

end Mail

/-! ## Runs -/

def Record.taken? : Record → Option Bytes
  | .sent payload true => some payload
  | .sent _ false | .call _ | .notice _ | .closing => none

def Record.written? : Record → Option Bytes
  | .call c => c.payload?
  | .notice _ | .closing | .sent .. => none

namespace Run

variable {r : Run} {s : Socket} {m : Move}

/-- The payloads that the session has taken, in order. -/
def taken (r : Run) : List Bytes := r.records.filterMap Record.taken?

/-- The payloads that the session has handed over to be written, in order. -/
def written (r : Run) : List Bytes := r.records.filterMap Record.written?

def mail (r : Run) (s : Socket) : Mail where
  taken := r.taken
  written := r.written
  outbox := s.outbox
  isWriting := s.isWriting
  underway := r.pending.count .writeMessage
  isOver := s.isOver

@[simp] theorem taken_take (r : Run) (st : Step Session) : (r.take st).taken = r.taken := by
  have hcalls : (st.calls.map Record.call).filterMap Record.taken? = [] := by simp [Record.taken?]
  have hpause : (st.pause.map (Record.notice ·.1)).toList.filterMap Record.taken? = [] := by
    cases st.pause <;> rfl
  simp [taken, Run.take, Step.records, hcalls, hpause]

@[simp] theorem written_take (r : Run) (st : Step Session) :
    (r.take st).written = r.written ++ st.writes := by
  have hcalls : (st.calls.map Record.call).filterMap Record.written? = st.writes := by
    rw [List.filterMap_map]
    rfl
  have hpause : (st.pause.map (Record.notice ·.1)).toList.filterMap Record.written? = [] := by
    cases st.pause <;> rfl
  simp [written, Run.take, Step.records, hcalls, hpause]

@[simp] theorem taken_closing (r : Run) : (r.note .closing).taken = r.taken := by
  simp [taken, note, Record.taken?]

@[simp] theorem written_closing (r : Run) : (r.note .closing).written = r.written := by
  simp [written, note, Record.written?]

@[simp] theorem taken_refused (r : Run) (payload : Bytes) :
    (r.note (.sent payload false)).taken = r.taken := by
  simp [taken, note, Record.taken?]

@[simp] theorem taken_sent (r : Run) (payload : Bytes) :
    (r.note (.sent payload true)).taken = r.taken ++ [payload] := by
  simp [taken, note, Record.taken?]

@[simp] theorem written_sent (r : Run) (payload : Bytes) (isTaken : Bool) :
    (r.note (.sent payload isTaken)).written = r.written := by
  simp [written, note, Record.written?]

theorem underway_take (r : Run) (st : Step Session) :
    (r.take st).pending.count .writeMessage =
      r.pending.count .writeMessage + st.writes.length := by
  rw [Run.take, List.count_append, st.count_started]

/-- A step beside the outbox leaves the mail as it is. -/
theorem next_of_leaves {amiss : Prop} {q : Run} {st : Step Socket} (h : s.Leaves st)
    (ht : q.taken = r.taken) (hw : q.written = r.written)
    (hu : q.pending.count .writeMessage = r.pending.count .writeMessage) :
    ∃ s', (q.take (st.map socket)).session = socket s' ∧
      Mail.Next amiss (r.mail s) ((q.take (st.map socket)).mail s') := by
  refine ⟨st.session, rfl, .same ?_ ?_ h.outbox h.isWriting ?_ h.live⟩
  · exact (taken_take q _).trans ht
  · have hwrites : (st.map socket).writes = [] := h.writes
    simp only [mail, written_take, hwrites, hw, List.append_nil]
  · have hwrites : (st.map socket).writes = [] := h.writes
    simp only [mail, underway_take, hwrites, hu, List.length_nil, Nat.add_zero]

/-- The move is not the failure of a write. -/
def Spares (r : Run) : Move → Prop
  | .complete i c => r.stack = [] → r.pending[i]? = some .writeMessage → c.error = none
  | .open | .close _ | .send _ | .returned => True

def NoWriteFails (r : Run) : List Move → Prop
  | [] => True
  | m :: moves => r.Spares m ∧ (r.step m).NoWriteFails moves

theorem count_eraseIdx {i : Nat} {o : Net.Operation} (hi : r.pending[i]? = some o) :
    (r.pending.eraseIdx i).count .writeMessage =
      r.pending.count .writeMessage - if o = .writeMessage then 1 else 0 := by
  obtain ⟨hlt, hget⟩ := List.getElem?_eq_some_iff.1 hi
  have hperm := (List.getElem_cons_eraseIdx_perm hlt).count_eq .writeMessage
  rw [hget, List.count_cons] at hperm
  simp only [beq_iff_eq] at hperm
  omega

theorem next_send (hs : r.session = socket s) (payload : Bytes) {amiss : Prop} :
    ∃ s', (r.step (.send payload)).session = socket s' ∧
      Mail.Next amiss (r.mail s) ((r.step (.send payload)).mail s') := by
  cases ha : s.accepts with
  | false =>
    have hstep : r.step (.send payload) =
        (r.note (.sent payload false)).take (s.rest.map socket) := by
      rw [step_send, hs]
      simp [Session.send, Socket.send, ha, Except.isOk, Except.toBool]
    rw [hstep]
    exact next_of_leaves s.rest_leaves (taken_refused r payload) (written_sent r payload false) rfl
  | true =>
    have hlive : s.isOver = false := not_isOver_of_accepts (s := socket s) ha
    cases hw : s.isWriting with
    | true =>
      have hstep : r.step (.send payload) = (r.note (.sent payload true)).take
          ((Socket.rest { s with outbox := s.outbox ++ [payload] }).map socket) := by
        rw [step_send, hs]
        simp [Session.send, Socket.send, ha, hw, Except.isOk, Except.toBool]
      rw [hstep]
      refine ⟨_, rfl, .waits payload hw ?_ ?_ rfl hw ?_⟩
      · simp [mail]
      · simp only [mail, written_take, written_sent]
        exact List.append_nil _
      · simp only [mail, underway_take]
        rfl
    | false =>
      have hstep : r.step (.send payload) = (r.note (.sent payload true)).take
          ((Socket.write { s with outbox := s.outbox ++ [payload] }).map socket) := by
        rw [step_send, hs]
        simp [Session.send, Socket.send, ha, hw, Except.isOk, Except.toBool]
      obtain ⟨q, hq⟩ : ∃ q, (s.outbox ++ [payload]).head? = some q :=
        Option.ne_none_iff_exists'.1 (by simp)
      have hwrites := Socket.writes_write (s := { s with outbox := s.outbox ++ [payload] }) hq
      rw [hstep]
      refine ⟨_, rfl, .begins payload q hw ?_ hq ?_ rfl rfl ?_ hlive⟩
      · simp [mail]
      · simp only [mail, written_take, written_sent, hwrites]
      · simp only [mail, underway_take, hwrites]
        rfl

theorem next_onWrite (s : Socket) {i : Nat}
    (hi : r.pending[i]? = some .writeMessage) (c : Net.Completion) :
    let q : Run := { r with pending := r.pending.eraseIdx i }
    ∃ s', (q.take ((s.onWrite c).map socket)).session = socket s' ∧
      Mail.Next (c.error ≠ none) (r.mail s) ((q.take ((s.onWrite c).map socket)).mail s') := by
  intro q
  have hne : r.pending.count .writeMessage ≠ 0 := by
    have hpos := List.count_pos_iff.2 (List.mem_of_getElem? hi)
    omega
  have hq : q.pending.count .writeMessage = r.pending.count .writeMessage - 1 := by
    have h := count_eraseIdx hi
    rwa [if_pos rfl] at h
  cases he : c.error with
  | some e =>
    have hstep : s.onWrite c = Socket.fail { s with isWriting := false } "write" e := by
      simp [Socket.onWrite, he]
    rw [hstep]
    have h := Socket.fail_leaves { s with isWriting := false } "write" e
    have hwrites : ((Socket.fail { s with isWriting := false } "write" e).map socket).writes = [] :=
      h.writes
    refine ⟨_, rfl, .fails hne (by simp) (taken_take q _) ?_ h.outbox h.isWriting ?_⟩
    · simp only [mail, written_take, hwrites, List.append_nil]
      rfl
    · simp only [mail, underway_take, hwrites, hq, List.length_nil, Nat.add_zero]
  | none =>
    by_cases hstop : s.outbox.tail.isEmpty = true ∨ s.isOver = true
    · have hstep : s.onWrite c =
          Socket.rest { s with isWriting := false, outbox := s.outbox.tail } := by
        simp only [Socket.onWrite, he]
        exact if_pos (Bool.or_eq_true_iff.2 hstop)
      rw [hstep]
      refine ⟨_, rfl, .ends hne (taken_take q _) ?_ rfl rfl ?_ fun hlive ↦ ?_⟩
      · simp only [mail, written_take]
        exact List.append_nil _
      · simp only [mail, underway_take, hq]
        rfl
      · have hlive : s.isOver = false := hlive
        have htail : s.outbox.tail = [] := by simpa [hlive] using hstop
        exact htail
    · obtain ⟨hnil, hover⟩ := not_or.1 hstop
      obtain ⟨p, rest, hp⟩ := List.exists_cons_of_ne_nil fun h ↦ hnil (List.isEmpty_iff.2 h)
      have hstep : s.onWrite c =
          Socket.write { s with isWriting := false, outbox := s.outbox.tail } := by
        simp only [Socket.onWrite, he]
        exact if_neg fun h ↦ hstop (Bool.or_eq_true_iff.1 h)
      have hhead : s.outbox.tail.head? = some p := by rw [hp, List.head?_cons]
      have hwrites :=
        Socket.writes_write (s := { s with isWriting := false, outbox := s.outbox.tail }) hhead
      have hcount : r.pending.count .writeMessage - 1 + 1 = r.pending.count .writeMessage := by
        omega
      rw [hstep]
      refine ⟨_, rfl, .goesOn p hne (taken_take q _) hhead ?_ rfl rfl ?_⟩
      · simp only [mail, written_take, hwrites]
        rfl
      · simp only [mail, underway_take, hwrites, hq, List.length_singleton, hcount]

theorem next_mail (hs : r.session = socket s) (m : Move) :
    ∃ s', (r.step m).session = socket s' ∧
      Mail.Next (¬ r.Spares m) (r.mail s) ((r.step m).mail s') := by
  have hsame : ∃ s', r.session = socket s' ∧ Mail.Next (¬ r.Spares m) (r.mail s) (r.mail s') :=
    ⟨s, hs, .same rfl rfl rfl rfl rfl fun h ↦ h⟩
  cases m with
  | «open» =>
    simp only [step]
    split
    · exact hsame
    · rw [hs]
      have hleaves : s.Leaves s.start := ⟨rfl, rfl, rfl, fun h ↦ h⟩
      exact next_of_leaves hleaves rfl rfl rfl
  | close c =>
    simp only [step, hs]
    exact next_of_leaves (s.close_leaves c) (taken_closing r) (written_closing r) rfl
  | send payload => exact next_send hs payload
  | complete i c =>
    rcases step_complete_cases r i c with heq | ⟨o, hstack, hi, heq⟩
    · rwa [heq]
    rw [heq, hs]
    by_cases ho : o = .writeMessage
    · subst ho
      obtain ⟨s', hs', hnext⟩ := next_onWrite s hi c
      refine ⟨s', hs', ?_⟩
      have hamiss : (c.error ≠ none) = ¬ r.Spares (.complete i c) := by
        simp [Spares, hstack, hi]
      rwa [← hamiss]
    · have hcount : (r.pending.eraseIdx i).count .writeMessage = r.pending.count .writeMessage := by
        rw [count_eraseIdx hi, if_neg ho, Nat.sub_zero]
      exact next_of_leaves (q := { r with pending := r.pending.eraseIdx i })
        (s.complete_leaves ho c) rfl rfl hcount
  | returned =>
    simp only [step]
    split
    · exact hsame
    · rename_i x stack _
      rw [hs]
      exact next_of_leaves (q := { r with stack }) (s.resume_leaves x) rfl rfl rfl

/-- How a socket stands with what it has taken, and how it does as long as no write fails. -/
def Posts (smooth : Prop) (r : Run) : Prop :=
  ∃ s done tries, r.session = socket s ∧ (r.mail s).Orderly done tries ∧
    (smooth → (r.mail s).Smooth done)

theorem Posts.step {smooth : Prop} (h : r.Posts smooth) (m : Move) :
    (r.step m).Posts (smooth ∧ r.Spares m) := by
  obtain ⟨s, done, tries, hs, horderly, hsmooth⟩ := h
  obtain ⟨s', hs', hnext⟩ := next_mail hs m
  obtain ⟨done', tries', horderly', hsmooth'⟩ := horderly.next hnext
  exact ⟨s', done', tries', hs', horderly', fun h ↦ hsmooth' (hsmooth h.1) (not_not_intro h.2)⟩

theorem Posts.play {smooth : Prop} (h : r.Posts smooth) (moves : List Move) :
    (r.play moves).Posts (smooth ∧ r.NoWriteFails moves) := by
  induction moves generalizing r smooth with
  | nil =>
    obtain ⟨s, done, tries, hs, horderly, hsmooth⟩ := h
    exact ⟨s, done, tries, hs, horderly, fun h ↦ hsmooth h.1⟩
  | cons m moves ih =>
    obtain ⟨s, done, tries, hs, horderly, hsmooth⟩ := ih (h.step m)
    exact ⟨s, done, tries, hs, horderly, fun h ↦ hsmooth ⟨⟨h.1, h.2.1⟩, h.2.2⟩⟩

theorem posts_start (e : Endpoint) (source token : Bytes) :
    (start (make .webSocket e source token)).Posts True := by
  refine ⟨_, [], [], rfl, ⟨rfl, rfl, ?_, .nil, .nil, by simp⟩, fun _ ↦ ⟨rfl, fun _ _ ↦ rfl⟩⟩
  intro h
  cases h

/-- However sends, completions, reads and closes come, at most one write of a WebSocket is under
way; each write is the attempt at a payload that was taken, none that was refused, and no attempt is
at a payload before that of the attempt before. As long as no write fails, what has been handed over
to be written is, each once and in order, a beginning of what has been taken; and while payloads are
taken, one is being written or all have been handed over. -/
theorem written_in_order (e : Endpoint) (source token : Bytes) (moves : List Move) :
    let r := (start (make .webSocket e source token)).play moves
    r.pending.count .writeMessage ≤ 1 ∧
    (∃ tries : List Nat, tries.Pairwise (· ≤ ·) ∧
      List.Forall₂ (fun p k ↦ r.taken[k]? = some p) r.written tries) ∧
    ((start (make .webSocket e source token)).NoWriteFails moves →
      r.written <+: r.taken ∧
      (r.session.accepts = true → .writeMessage ∈ r.pending ∨ r.written = r.taken)) := by
  intro r
  obtain ⟨s, done, tries, hs, horderly, hsmooth⟩ := (posts_start e source token).play moves
  change r.session = socket s at hs
  change (r.mail s).Orderly done tries at horderly
  change _ → (r.mail s).Smooth done at hsmooth
  have htaken : r.taken = done ++ s.outbox := horderly.taken
  have hunderway : r.pending.count .writeMessage = s.isWriting.toNat := horderly.underway
  refine ⟨hunderway ▸ Bool.toNat_le _, ⟨tries, horderly.sorted, horderly.written⟩, fun hm ↦ ?_⟩
  have hsmooth := hsmooth ⟨trivial, hm⟩
  have hwritten : r.written = done ++ if s.isWriting then s.outbox.take 1 else [] := hsmooth.written
  rw [hwritten, htaken]
  constructor
  · rw [List.prefix_append_right_inj]
    split
    · exact List.take_prefix 1 _
    · exact List.nil_prefix
  · intro ha
    cases hw : s.isWriting with
    | true =>
      left
      apply List.count_pos_iff.1
      simp [hunderway, hw]
    | false =>
      right
      have ha : s.accepts = true := by rwa [hs] at ha
      have hlive : s.isOver = false := not_isOver_of_accepts (s := socket s) ha
      have hnil : s.outbox = [] := hsmooth.idle hlive hw
      simp [hnil]

/-- The owner sends two payloads as soon as the socket is open, and the first one is written. -/
def queuedMoves : List Move :=
  [.open, .complete 0 {}, .complete 0 {}, .complete 0 {}, .send [97], .send [98], .returned,
    .complete 0 {}]

theorem written_in_order_queued :
    (start (make .webSocket {} [] [])).NoWriteFails queuedMoves ∧
      ((start (make .webSocket {} [] [])).play queuedMoves).taken = [[97], [98]] ∧
      ((start (make .webSocket {} [] [])).play queuedMoves).written <+: [[97], [98]] ∧
      .writeMessage ∈ ((start (make .webSocket {} [] [])).play queuedMoves).pending := by
  have hm : (start (make .webSocket {} [] [])).NoWriteFails queuedMoves :=
    ⟨trivial, fun _ _ ↦ rfl, fun _ _ ↦ rfl, fun _ _ ↦ rfl, trivial, trivial, trivial,
      fun _ _ ↦ rfl, trivial⟩
  have htaken : ((start (make .webSocket {} [] [])).play queuedMoves).taken = [[97], [98]] := rfl
  obtain ⟨hwritten, -⟩ := (written_in_order {} [] [] queuedMoves).2.2 hm
  exact ⟨hm, htaken, htaken ▸ hwritten, by decide⟩

/-- A payload whose write has failed stays first, and is written once more when the next is sent. -/
example : ((start (make .webSocket {} [] [])).play [.open, .complete 0 {}, .complete 0 {},
    .complete 0 {}, .send [97], .returned, .complete 0 { error := some ⟨.aborted, []⟩ },
    .send [98]]).written = [[97], [97]] := rfl

end Run

end Session

end ProgressFeed
