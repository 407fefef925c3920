import ProgressFeed.Proofs.Message.Language
import ProgressFeed.StatusQuery

/-!
# The answer to a status query

A query is a chain of operations, of which one is under way at a time. It is answered when the first
of them fails or the last one has read the response, and then nothing is under way any more.
-/

namespace ProgressFeed

namespace Message

variable {source body : Bytes} {p : Payload}

/-- The answer is what the body of a response says. -/
structure Means (source body : Bytes) (a : StatusAnswer) : Prop where
  noJob : a = .ok none ↔ body.all Bytes.isBlank = true ∨ Json.parse? body = some .null
  job : (∃ s, a = .ok (some s)) ↔
    ∃ p, Json.parse? body = some (.object p) ∧ Readable p (utf8 "progress")
  snapshot : ∀ s, a = .ok (some s) →
    ∃ p, Json.parse? body = some (.object p) ∧ readSnapshot source (.object p) = .ok s
  fault : ∀ f, a = .error f → f.kind = .decode

theorem means_noJob (h : body.all Bytes.isBlank = true ∨ Json.parse? body = some .null) :
    Means source body (.ok none) := by
  refine ⟨iff_of_true rfl h, iff_of_false (by simp) ?_, by simp, by simp⟩
  rintro ⟨p, hp, -⟩
  rcases h with h | h
  · simp [Json.parse?_of_blank h] at hp
  · simp [h] at hp

theorem means_rejected (hblank : ¬ body.all Bytes.isBlank = true)
    (hnull : Json.parse? body ≠ some .null)
    (hp : ∀ p, Json.parse? body = some (.object p) → ¬ Readable p (utf8 "progress"))
    (r : Rejection) : Means source body (.error r.fault) := by
  refine ⟨iff_of_false nofun ?_, iff_of_false (by simp) ?_, by simp, ?_⟩
  · exact not_or.2 ⟨hblank, hnull⟩
  · rintro ⟨p, hparse, hr⟩
    exact hp p hparse hr
  · rintro _ ⟨⟩
    rfl

theorem means_read (hparse : Json.parse? body = some (.object p)) (source : Bytes) :
    Means source body ((some <$> readSnapshot source (.object p)).mapError Rejection.fault) := by
  have hblank : ¬ body.all Bytes.isBlank = true := by
    intro h
    simp [Json.parse?_of_blank h] at hparse
  have hnull : Json.parse? body ≠ some .null := by simp [hparse]
  have haccepts : Accepts (readSnapshot source (.object p)) ↔ Readable p (utf8 "progress") :=
    (accepts_readSnapshot (Json.inRange_of_parse? hparse) source).trans readable_progress.symm
  cases hread : readSnapshot source (.object p) with
  | error r =>
    refine means_rejected hblank hnull (fun q hq hr ↦ ?_) r
    cases hparse.symm.trans hq
    exact not_accepts_error r (hread ▸ haccepts.2 hr)
  | ok s =>
    have hr : Readable p (utf8 "progress") := haccepts.1 (hread ▸ accepts_ok s)
    refine ⟨iff_of_false nofun (not_or.2 ⟨hblank, hnull⟩),
      iff_of_true ⟨s, rfl⟩ ⟨p, hparse, hr⟩, ?_, nofun⟩
    rintro _ ⟨⟩
    exact ⟨p, hparse, hread⟩

theorem means_ofStatusBody (source body : Bytes) :
    Means source body ((ofStatusBody source body).mapError Rejection.fault) := by
  unfold ofStatusBody
  split
  · rename_i hblank
    exact means_noJob (.inl hblank)
  · rename_i hblank
    split
    · rename_i hparse
      exact means_rejected hblank (by simp [hparse]) (by simp [hparse]) _
    · rename_i hparse
      exact means_noJob (.inr hparse)
    · rename_i root hne hparse
      cases root with
      | object p => exact means_read hparse source
      | null => exact absurd rfl hne
      | _ => exact means_rejected hblank (by simp [hparse]) (by simp [hparse]) _

end Message

namespace StatusQuery

/-! ## Runs -/

/-- A query at work. -/
structure Run where
  query : StatusQuery
  /-- The operations under way, oldest first. -/
  pending : List Net.Operation := []
  /-- What the query has called for. -/
  calls : List Net.Call := []
  /-- The operations that have completed, and how. -/
  log : List (Net.Operation × Net.Completion) := []
  /-- The answers that have been given. -/
  answers : List StatusAnswer := []

namespace Run

def take (r : Run) (s : Step) : Run :=
  { r with
    query := s.query
    pending := r.pending ++ s.calls.filterMap Net.Call.starts
    calls := r.calls ++ s.calls
    answers := r.answers ++ s.answer.toList }

/-- A query that has just been made. -/
def ask (endpoint : Endpoint) (source : Bytes) (token : Option Bytes) : Run :=
  let q : StatusQuery := { endpoint, source, token }
  take { query := q } q.start

/-- The pending operation of this number completes, if there is one. -/
def step (r : Run) (i : Nat) (c : Net.Completion) : Run :=
  match r.pending[i]? with
  | none => r
  | some o =>
    { r with pending := r.pending.eraseIdx i, log := r.log ++ [(o, c)] }.take (r.query.complete o c)

def play (r : Run) (completions : List (Nat × Net.Completion)) : Run :=
  completions.foldl (fun r x ↦ r.step x.1 x.2) r

end Run

/-! ## Courses -/

/-- The operations of a query that has a token. -/
def chain : List Net.Operation := [.resolve, .connect, .writeRequest, .readResponse]

/-- A response has come in. -/
structure Responds (log : List (Net.Operation × Net.Completion)) (c : Net.Completion) : Prop where
  read : (.readResponse, c) ∈ log
  succeeded : ∀ x ∈ log, x.2.error = none

/-- What the completions make of the query. -/
inductive Verdict (source : Bytes) (log : List (Net.Operation × Net.Completion)) :
    StatusAnswer → Prop
  | failed {f : Fault} (kind : f.kind = .transport) (h : ∃ x ∈ log, x.2.error ≠ none) :
    Verdict source log (.error f)
  | refused {f : Fault} {c : Net.Completion} (kind : f.kind = .transport) (h : Responds log c)
    (status : c.status < 200 ∨ 300 ≤ c.status) : Verdict source log (.error f)
  | read {c : Net.Completion} {a : StatusAnswer} (h : Responds log c)
    (status : 200 ≤ c.status ∧ c.status < 300) (means : Message.Means source c.data a) :
    Verdict source log a

/-- The courses that a query can take. -/
inductive Course (q : StatusQuery) : Run → Prop
  | posts (ht : q.token = none) : Course q ⟨q, [.post], [.post], [], []⟩
  | denied (ht : q.token = none) (c : Net.Completion) :
    Course q ⟨{ q with isAnswered := true }, [], [.post], [(.post, c)], [.error .noCredential]⟩
  | works (ht : q.token ≠ none) {o : Net.Operation} {calls : List Net.Call}
    {log : List (Net.Operation × Net.Completion)} (ho : chain[log.length]? = some o)
    (hlog : log.map Prod.fst <+: chain) (hok : ∀ x ∈ log, x.2.error = none) :
    Course q ⟨q, [o], calls, log, []⟩
  | answered (ht : q.token ≠ none) {calls : List Net.Call}
    {log : List (Net.Operation × Net.Completion)} {a : StatusAnswer}
    (hlog : log.map Prod.fst <+: chain) (hv : Verdict q.source log a) :
    Course q ⟨{ q with isAnswered := true }, [], calls, log, [a]⟩

theorem course_ask (endpoint : Endpoint) (source : Bytes) (token : Option Bytes) :
    Course { endpoint, source, token } (Run.ask endpoint source token) := by
  cases token with
  | none => exact .posts rfl
  | some token =>
    exact .works (Option.some_ne_none token) rfl (List.nil_prefix ..) (List.forall_mem_nil _)

theorem prefix_concat {α : Type} {l chain : List α} {o : α} (h : l <+: chain)
    (ho : chain[l.length]? = some o) : l ++ [o] <+: chain := by
  obtain ⟨t, rfl⟩ := h
  rw [List.getElem?_append_right (Nat.le_refl _), Nat.sub_self] at ho
  cases t with
  | nil => cases ho
  | cons x t =>
    cases ho
    exact ⟨t, by simp⟩

variable {q : StatusQuery} {r : Run} {c : Net.Completion} {o : Net.Operation}
  {calls : List Net.Call} {log : List (Net.Operation × Net.Completion)}

/-- Whatever the operation is that fails, the answer is that the connection has failed. -/
theorem complete_error {e : Net.Error} (ho : o ∈ chain) (hc : c.error = some e) (q : StatusQuery) :
    ∃ f : Fault, f.kind = .transport ∧ q.complete o c = q.answer (.error f) := by
  simp only [chain, List.mem_cons, List.not_mem_nil, or_false] at ho
  rcases ho with rfl | rfl | rfl | rfl <;> exact ⟨_, rfl, by simp only [complete, hc]; rfl⟩

theorem verdict_read (source : Bytes) (h : Responds log c) :
    Verdict source log (StatusQuery.read source c) := by
  unfold StatusQuery.read
  split
  · rename_i hs
    exact .refused rfl h hs
  · rename_i hs
    obtain ⟨hle, hlt⟩ := not_or.1 hs
    exact .read h ⟨Nat.not_lt.1 hle, Nat.not_le.1 hlt⟩ (Message.means_ofStatusBody source c.data)

/-- The operation that follows one that has succeeded. -/
theorem complete_ok {n : Nat} (ho : chain[n]? = some o) (hne : o ≠ .readResponse)
    (hc : c.error = none) (q : StatusQuery) :
    ∃ calls o', q.complete o c = { query := q, calls } ∧ calls.filterMap Net.Call.starts = [o'] ∧
      chain[n + 1]? = some o' := by
  rcases n with - | - | - | - | n <;> cases ho
  · exact ⟨[.expireAfter Net.connectTimeout, .connect], .connect, by simp only [complete, hc],
      rfl, rfl⟩
  · exact ⟨[.writeRequest (q.request (q.token.getD []))], .writeRequest,
      by simp only [complete, hc], rfl, rfl⟩
  · exact ⟨[.readResponse], .readResponse, by simp only [complete, hc], rfl, rfl⟩
  · exact absurd rfl hne

theorem complete_readResponse (hc : c.error = none) (q : StatusQuery) :
    q.complete .readResponse c = q.answer (StatusQuery.read q.source c) [.shutDown] := by
  simp only [complete, hc]

theorem course_works (ht : q.token ≠ none) (hfresh : q.isAnswered = false)
    (ho : chain[log.length]? = some o) (hlog : log.map Prod.fst <+: chain)
    (hok : ∀ x ∈ log, x.2.error = none) (c : Net.Completion) :
    Course q (Run.take ⟨q, [], calls, log ++ [(o, c)], []⟩ (q.complete o c)) := by
  have hmem : (o, c) ∈ log ++ [(o, c)] := by simp
  have hlog' : (log ++ [(o, c)]).map Prod.fst <+: chain := by
    rw [List.map_append]
    exact prefix_concat hlog (by rwa [List.length_map])
  cases hc : c.error with
  | some e =>
    obtain ⟨f, hkind, hstep⟩ := complete_error (List.mem_of_getElem? ho) hc q
    have hv : Verdict q.source (log ++ [(o, c)]) (.error f) :=
      .failed hkind ⟨_, hmem, by simp [hc]⟩
    rw [hstep]
    simpa [Run.take, answer, hfresh] using Course.answered ht hlog' hv
  | none =>
    have hok' : ∀ x ∈ log ++ [(o, c)], x.2.error = none :=
      List.forall_mem_append.2 ⟨hok, List.forall_mem_singleton.2 hc⟩
    by_cases hlast : o = .readResponse
    · subst hlast
      have hv := verdict_read q.source ⟨hmem, hok'⟩
      rw [complete_readResponse hc]
      simpa [Run.take, answer, hfresh, List.filterMap_cons, Net.Call.starts] using
        Course.answered ht hlog' hv
    · obtain ⟨more, o', hstep, hstarts, ho'⟩ := complete_ok ho hlast hc q
      rw [hstep]
      simp only [Run.take, hstarts, Option.toList_none, List.append_nil, List.nil_append]
      exact .works ht (by simpa using ho') hlog' hok'

theorem course_step (hfresh : q.isAnswered = false) (h : Course q r) (i : Nat)
    (c : Net.Completion) : Course q (r.step i c) := by
  cases h with
  | denied ht => exact .denied ht _
  | answered ht hlog hv => exact .answered ht hlog hv
  | posts ht =>
    cases i with
    | zero =>
      have hstep : Run.step ⟨q, [.post], [.post], [], []⟩ 0 c =
          ⟨{ q with isAnswered := true }, [], [.post], [(.post, c)], [.error .noCredential]⟩ := by
        simp [Run.step, Run.take, complete, answer, hfresh]
      rw [hstep]
      exact .denied ht c
    | succ i => exact .posts ht
  | works ht ho hlog hok =>
    cases i with
    | zero => exact course_works ht hfresh ho hlog hok c
    | succ i => exact .works ht ho hlog hok

theorem course_play (hfresh : q.isAnswered = false) (h : Course q r)
    (completions : List (Nat × Net.Completion)) : Course q (r.play completions) := by
  induction completions generalizing r with
  | nil => exact h
  | cons x completions ih => exact ih (course_step hfresh h x.1 x.2)

/-- However the operations of a query end, there is no answer before whoever has asked goes on, none
as long as an operation is under way, and exactly one as soon as none is. Without a token nothing is
sent, and the answer says so. With a token the operations come one after the other, and the answer is an
error of the connection if one of them fails or the status of the response is none of success, and
otherwise what the body says: no job if it is blank or null, a snapshot if it is the payload of a
progress message, and a decoding error if it is anything else. -/
theorem answered_once (endpoint : Endpoint) (source : Bytes) (token : Option Bytes)
    (completions : List (Nat × Net.Completion)) :
    let r₀ := Run.ask endpoint source token
    let r := r₀.play completions
    r₀.answers = [] ∧
    r.answers.length = (if r.pending = [] then 1 else 0) ∧
    (token = none → r.calls = [.post] ∧ ∀ a ∈ r.answers, a = .error .noCredential) ∧
    (token ≠ none → r.log.map Prod.fst <+: chain ∧ ∀ a ∈ r.answers, Verdict source r.log a) := by
  intro r₀ r
  have hc : Course { endpoint, source, token } r :=
    course_play rfl (course_ask endpoint source token) completions
  refine ⟨by cases token <;> rfl, ?_⟩
  clear_value r
  cases hc with
  | posts ht => exact ⟨rfl, fun _ ↦ ⟨rfl, by simp⟩, absurd ht⟩
  | denied ht => exact ⟨rfl, fun _ ↦ ⟨rfl, by simp⟩, absurd ht⟩
  | works ht ho hlog => exact ⟨rfl, fun hn ↦ absurd hn ht, fun _ ↦ ⟨hlog, by simp⟩⟩
  | answered ht hlog hv => exact ⟨rfl, fun hn ↦ absurd hn ht, fun _ ↦ ⟨hlog, by simpa using hv⟩⟩

end StatusQuery

end ProgressFeed
