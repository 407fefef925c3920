import ProgressFeed.Session

/-!
# Runs of a session

A run is a sequence of moves: the owner calls the session, an operation of the session completes, a
notice has been delivered. The owner may call at any time, so also while a notice is under way;
operations complete in any order and with any result, one at a time, when no notice is under way. A
move that cannot be made does nothing.
-/

namespace ProgressFeed.Session

inductive Move
  | open
  /-- The owner closes the session; `.byOwner` is also what it means to drop it. -/
  | close (c : Channel.Closing)
  | send (payload : Bytes)
  /-- The pending operation of this number completes. -/
  | complete (i : Nat) (c : Net.Completion)
  /-- The notice under way has been delivered. -/
  | returned
deriving DecidableEq, Repr

inductive Record
  | call (c : Net.Call)
  | notice (n : Channel.Notice)
  /-- The owner has closed the session. -/
  | closing
  | sent (payload : Bytes) (isTaken : Bool)
deriving DecidableEq, Repr

/-- A session at work. -/
structure Run where
  session : Session
  isStarted : Bool := false
  /-- The operations under way, oldest first. -/
  pending : List Net.Operation := []
  /-- What the notice under way leaves to do. -/
  stack : List Resume := []
  /-- What has happened so far, first things first. -/
  records : List Record := []
deriving DecidableEq, Repr

def Step.started {σ : Type} (s : Step σ) : List Net.Operation := s.calls.filterMap Net.Call.starts

def Step.records {σ : Type} (s : Step σ) : List Record :=
  s.calls.map .call ++ (s.pause.map (.notice ·.1)).toList

@[simp] theorem Step.started_map {σ τ : Type} (f : σ → τ) (s : Step σ) :
    (s.map f).started = s.started := rfl

@[simp] theorem Step.session_map {σ τ : Type} (f : σ → τ) (s : Step σ) :
    (s.map f).session = f s.session := rfl

namespace Run

def start (s : Session) : Run where
  session := s

def take (r : Run) (s : Step Session) : Run :=
  { r with
    session := s.session
    pending := r.pending ++ s.started
    stack := (s.pause.map Prod.snd).toList ++ r.stack
    records := r.records ++ s.records }

def note (r : Run) (x : Record) : Run := { r with records := r.records ++ [x] }

def step (r : Run) : Move → Run
  | .open => if r.isStarted then r else { r with isStarted := true }.take r.session.start
  | .close c => (r.note .closing).take (r.session.close c)
  | .send payload =>
    let (result, s) := r.session.send payload
    (r.note (.sent payload result.isOk)).take s
  | .complete i c =>
    match r.stack, r.pending[i]? with
    | [], some o => { r with pending := r.pending.eraseIdx i }.take (r.session.complete o c)
    | _, _ => r
  | .returned =>
    match r.stack with
    | [] => r
    | resume :: stack => { r with stack }.take (r.session.resume resume)

def play (r : Run) (moves : List Move) : Run := moves.foldl step r

theorem play_induction {P : Run → Prop} (hstep : ∀ r m, P r → P (r.step m)) {r : Run} (h : P r)
    (moves : List Move) : P (r.play moves) := by
  induction moves generalizing r with
  | nil => exact h
  | cons m moves ih => exact ih (hstep r m h)

theorem step_send (r : Run) (payload : Bytes) :
    r.step (.send payload) = (r.note (.sent payload (r.session.send payload).1.isOk)).take
      (r.session.send payload).2 := rfl

theorem step_complete {r : Run} (hs : r.stack = []) {i : Nat} {o : Net.Operation}
    (hi : r.pending[i]? = some o) (c : Net.Completion) :
    r.step (.complete i c) =
      { r with pending := r.pending.eraseIdx i }.take (r.session.complete o c) := by
  simp only [step, hs, hi]

/-- The only operation under way has completed. -/
theorem eraseIdx_eq_nil {pending : List Net.Operation} (hlen : pending.length ≤ 1) {i : Nat}
    {o : Net.Operation} (hi : pending[i]? = some o) : pending.eraseIdx i = [] := by
  obtain ⟨hlt, -⟩ := List.getElem?_eq_some_iff.1 hi
  apply List.eq_nil_of_length_eq_zero
  rw [List.length_eraseIdx_of_lt hlt]
  omega

theorem step_complete_cases (r : Run) (i : Nat) (c : Net.Completion) :
    r.step (.complete i c) = r ∨ ∃ o, r.stack = [] ∧ r.pending[i]? = some o ∧
      r.step (.complete i c) =
        { r with pending := r.pending.eraseIdx i }.take (r.session.complete o c) := by
  by_cases hs : r.stack = []
  · cases hi : r.pending[i]? with
    | none => exact .inl (by simp [step, hi])
    | some o => exact .inr ⟨o, hs, rfl, step_complete hs hi c⟩
  · obtain ⟨x, stack, hx⟩ := List.exists_cons_of_ne_nil hs
    exact .inl (by simp [step, hx])

end Run

end ProgressFeed.Session
