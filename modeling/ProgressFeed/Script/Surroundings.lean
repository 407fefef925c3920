import ProgressFeed.Incoming

/-!
# Surroundings

What surrounds a feed or a link in a scripted run: something that has a state, answers, carries out
commands, and of its own accord or because the script says so lets something come in.
-/

namespace ProgressFeed.Script

/-- What happens in surroundings. What comes in is dealt with first, then what is left to do. -/
structure Outcome (S W R : Type) where
  state : S
  records : List R := []
  incoming : Option Incoming := none
  later : List W := []

/-- Surroundings of state `S` in which a script can do `P`, with work `W` left to do, and of which
`R` is recorded. -/
structure Surroundings (S P W R : Type) where
  /-- What would be answered now, given the channel on which the feed can send. -/
  outside : S → Option Nat → Outside
  obey : S → Command → S × List R
  perform : S → P → Outcome S W R
  work : S → W → Outcome S W R

/-- Carries out commands in order. -/
def Surroundings.obeyAll {S P W R : Type} (s : Surroundings S P W R) (state : S) :
    List Command → S × List R
  | [] => (state, [])
  | c :: commands =>
    let (state, records) := s.obey state c
    let (state, more) := s.obeyAll state commands
    (state, records ++ more)

end ProgressFeed.Script
