/-!
# Scripted runs

A run is a script of steps over some world. While a step is carried out callbacks may be made, and
reactions say which steps run inside the nth callback of a kind. What is under way is a stack, the
innermost piece first; one turn of the run does the next bit of the innermost piece, so a run is a
sequence of turns until the stack is empty.
-/

namespace ProgressFeed

/-- The kinds of callback. -/
inductive Script.Moment
  | connecting
  | connected
  | disconnected
  | opened
  | frame
  | fault
  | closed
  | snapshot
  | heartbeat
  | result
deriving DecidableEq, Repr

/-- Steps that run inside a callback. -/
structure Script.Reaction (σ : Type) where
  on : Script.Moment
  /-- Which callback of its kind, counted from one. -/
  nth : Nat
  steps : List σ
  /-- How many there have been. -/
  seen : Nat := 0

namespace Script

variable {ω σ φ ε : Type}

/-- A piece of work under way. -/
inductive Piece (σ φ : Type)
  /-- Steps that are still to be carried out. -/
  | steps (rest : List σ)
  /-- A callback is under way, and reactions from this one on have yet to hear of it. -/
  | react (moment : Moment) (next : Nat)
  /-- Work of the world. -/
  | work (w : φ)

/-- What a bit of work does: the world after it, what it records, and the work that comes of it,
which goes before everything else. -/
structure Turn (ω σ φ ε : Type) where
  world : ω
  records : List ε := []
  pieces : List (Piece σ φ) := []

/-- How a world carries out the steps of a script, and its own work. -/
structure Stage (ω σ φ ε : Type) where
  perform : ω → σ → Turn ω σ φ ε
  work : ω → φ → Turn ω σ φ ε

/-- A run under way. -/
structure Run (ω σ φ ε : Type) where
  world : ω
  reactions : List (Reaction σ) := []
  stack : List (Piece σ φ) := []
  /-- What has been recorded, last first. -/
  records : List ε := []

namespace Run

/-- Goes on with what a bit of work has come to. -/
def take (r : Run ω σ φ ε) (stack : List (Piece σ φ)) (t : Turn ω σ φ ε) : Run ω σ φ ε :=
  { r with
    world := t.world
    records := t.records.reverse ++ r.records
    stack := t.pieces ++ stack }

/-- Tells the reaction of this number of a callback. -/
def tell (r : Run ω σ φ ε) (moment : Moment) (i : Nat) (x : Reaction σ)
    (stack : List (Piece σ φ)) : Run ω σ φ ε :=
  let stack := .react moment (i + 1) :: stack
  if x.on = moment then
    { r with
      reactions := r.reactions.set i { x with seen := x.seen + 1 }
      stack := if x.seen + 1 = x.nth then .steps x.steps :: stack else stack }
  else { r with stack }

/-- One turn; nothing when the run is at rest. -/
def turn? (s : Stage ω σ φ ε) (r : Run ω σ φ ε) : Option (Run ω σ φ ε) :=
  match r.stack with
  | [] => none
  | .steps [] :: stack => some { r with stack }
  | .steps (x :: rest) :: stack => some (r.take (.steps rest :: stack) (s.perform r.world x))
  | .react moment i :: stack =>
    match r.reactions[i]? with
    | none => some { r with stack }
    | some x => some (r.tell moment i x stack)
  | .work w :: stack => some (r.take stack (s.work r.world w))

/-- Turns until the run is at rest, at most as many as given. -/
def turns (s : Stage ω σ φ ε) : Nat → Run ω σ φ ε → Run ω σ φ ε
  | 0, r => r
  | n + 1, r =>
    match r.turn? s with
    | none => r
    | some r => r.turns s n

/-- More turns than a script of any length comes to. -/
def plenty : Nat := 1 <<< 60

/-- Carries out one step to its end; what it has recorded, and the run after it. -/
def step (s : Stage ω σ φ ε) (r : Run ω σ φ ε) (x : σ) : List ε × Run ω σ φ ε :=
  let r := { r with stack := [.steps [x]], records := [] }.turns s plenty
  (r.records.reverse, { r with records := [] })

/-- Carries out a script. After each step `read` reads the world, and what it reads stands beside
the records of the step. -/
def script {β : Type} (s : Stage ω σ φ ε) (read : ω → β) :
    Run ω σ φ ε → List σ → List (List ε × β)
  | _, [] => []
  | r, x :: rest =>
    let (records, r) := r.step s x
    (records, read r.world) :: r.script s read rest

end Run

/-- Carries out a script from the start. -/
def play {β : Type} (s : Stage ω σ φ ε) (read : ω → β) (world : ω) (reactions : List (Reaction σ))
    (steps : List σ) : List (List ε × β) :=
  Run.script s read { world, reactions } steps

end Script

end ProgressFeed
