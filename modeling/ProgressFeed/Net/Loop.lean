import ProgressFeed.Net

/-!
# Pending operations

The operations under way, in the order in which they were started, each with its owner.
-/

namespace ProgressFeed.Net

/-- The operations under way of owners of type `α`. -/
structure Loop (α : Type) where
  pending : List (α × Operation) := []
deriving DecidableEq, Repr

namespace Loop

variable {α : Type}

/-- The owner makes calls. -/
def start (l : Loop α) (owner : α) (calls : List Call) : Loop α :=
  ⟨l.pending ++ (calls.filterMap Call.starts).map fun o ↦ (owner, o)⟩

/-- Takes the oldest operation that `p` holds of. -/
def take? (l : Loop α) (p : α × Operation → Bool) : Option ((α × Operation) × Loop α) :=
  (l.pending.find? p).map fun x ↦ (x, ⟨l.pending.eraseP p⟩)

end Loop

end ProgressFeed.Net
