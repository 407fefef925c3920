import ProgressFeed.Proofs.Feed.Life
import ProgressFeed.Proofs.Feed.Traffic

/-!
# No channel is lost

The log of a life tells what happens to every channel that the world makes. At every moment the live
channel is the one that the feed holds, and when the feed is gone there is none.
-/

namespace ProgressFeed.Feed

/-- The life of a feed, with a log of what happens to its channels. -/
structure Watch where
  run : Run
  log : List Happening := []

namespace Watch

variable {c : Settings} {x : Watch}

def start (settings : Settings) (polls : Bool) (now : Int) : Watch where
  run := Run.start settings polls now

def live (x : Watch) (a : Answers) (m : Move) : Watch where
  run := x.run.live a m
  log := x.log ++ if x.run.allows m then x.run.awake.doings a m else []

def liveAll (x : Watch) (moves : List (Answers × Move)) : Watch :=
  moves.foldl (fun x y ↦ x.live y.1 y.2) x

/-- What always holds in the life of a feed. -/
structure Kept (c : Settings) (x : Watch) : Prop where
  upheld : x.run.Upheld c
  lasting : x.run.Lasting
  traffic : Traffic {} x.log x.run.custody

theorem Kept.live (h : x.Kept c) (a : Answers) (m : Move) : (x.live a m).Kept c := by
  refine ⟨h.upheld.live a m, h.lasting.live a m, ?_⟩
  unfold Watch.live
  dsimp only
  by_cases hm : x.run.allows m = true
  · have hawake : x.run.awake.Upheld c := h.upheld
    rw [if_pos hm, Run.live_of_allows hm]
    exact h.traffic.append (hawake.traffic rfl a m)
  · rw [if_neg hm, Run.live_of_not_allows hm, List.append_nil]
    exact h.traffic

theorem Kept.liveAll (h : x.Kept c) (moves : List (Answers × Move)) : (x.liveAll moves).Kept c := by
  induction moves generalizing x with
  | nil => exact h
  | cons y moves ih => exact ih (h.live y.1 y.2)

/-- A feed that is gone holds no channel and has no alarm set. -/
theorem Kept.gone (h : x.Kept c) (ht : x.run.isThere = false) :
    x.run.feed.channel = none ∧ x.run.ledger.clock.alarms = [] := by
  have hlink : x.run.feed.link = none := h.lasting.link_of_gone ht
  have hdead : x.run.isAlive = false := (Bool.or_eq_false_iff.1 ht).1
  have hk : x.run.feed.keepalive = none := (h.lasting.retiring hdead).1
  refine ⟨channel_eq_none hlink, h.upheld.alarms_eq_nil hk fun l hl ↦ ?_⟩
  rw [hlink] at hl
  cases hl

end Watch

end ProgressFeed.Feed
