import ProgressFeed.Event

/-!
# The bus

Subscribers register for a topic and get a number that is never given twice. An event goes to those
who are registered for its topic when it is published, in the order of their registration; what they
do to the register meanwhile counts for later events only.
-/

namespace ProgressFeed

structure Bus.Subscription (α : Type) where
  id : Nat
  topic : Topic
  subscriber : α
deriving DecidableEq, Repr

/-- A register of subscribers of type `α`. -/
structure Bus (α : Type) where
  /-- The number of the next subscription. -/
  next : Nat := 0
  subscriptions : List (Bus.Subscription α) := []
deriving DecidableEq, Repr

namespace Bus

variable {α : Type}

/-- Registers a subscriber for a topic, and gives it a number. -/
def subscribe (b : Bus α) (topic : Topic) (subscriber : α) : Nat × Bus α :=
  (b.next,
    { next := b.next + 1, subscriptions := b.subscriptions ++ [⟨b.next, topic, subscriber⟩] })

/-- Ends the subscription of this number to the topic, and tells whether there was one. -/
def unsubscribe (b : Bus α) (topic : Topic) (id : Nat) : Bool × Bus α :=
  let left := b.subscriptions.filter fun s ↦ !(s.topic == topic && s.id == id)
  (left.length != b.subscriptions.length, { b with subscriptions := left })

/-- Ends every subscription. -/
def clear (b : Bus α) : Bus α := { b with subscriptions := [] }

/-- The subscriptions to a topic. -/
def on (b : Bus α) (topic : Topic) : List (Subscription α) :=
  b.subscriptions.filter (·.topic == topic)

def count (b : Bus α) (topic : Topic) : Nat := (b.on topic).length

/-- Who gets an event that is published now. -/
def audience (b : Bus α) (e : Event) : List α := (b.on e.topic).map Subscription.subscriber

/-- Registers one subscriber for several topics, and gives it their numbers in this order. -/
def subscribeAll (b : Bus α) (subscriber : α) : List Topic → List Nat × Bus α
  | [] => ([], b)
  | topic :: topics =>
    let (id, b) := b.subscribe topic subscriber
    let (ids, b) := b.subscribeAll subscriber topics
    (id :: ids, b)

/-- Ends the subscriptions to these topics, each under its own number, as far as there are any. -/
def unsubscribeAll (b : Bus α) (entries : List (Topic × Nat)) : Bus α :=
  entries.foldl (fun b x ↦ (b.unsubscribe x.1 x.2).2) b

end Bus

end ProgressFeed
