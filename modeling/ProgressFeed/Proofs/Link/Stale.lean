import ProgressFeed.Proofs.Link.Consistent
import ProgressFeed.Proofs.Link.Traffic

/-!
# Notices of channels that are not held

A channel that has closed, or that the link has let go of, may still give notice, as often as it
likes and also from inside of callbacks. Its stamp is of an older generation then, and the run goes
on as if nothing had come in. This holds of no channel that the link does hold.
-/

namespace ProgressFeed.Link.Run

variable {id : Nat} {source : Bytes} {backoff : Backoff} {r : Run} {i : Nat}

/-- The channel that the link holds, if it is still there. -/
def held (r : Run) : Option Nat := r.link.bind Link.held

theorem take_rest {l : Link} (hl : r.link = some l) : r.take l.rest = r := by
  cases r
  cases hl
  simp [take]

/-- A notice that is marked with another generation than the link's goes unnoticed. -/
theorem hear_of_ne {l : Link} (hl : r.link = some l) (hi : l.held ≠ some i) {g : Nat}
    (hg : l.generation ≠ g) (n : Channel.Notice) (a : Answers) : r.hear l i g n a = r := by
  have hrest := take_rest hl
  cases n with
  | frame f => simp [hear, hears, hg]
  | opened =>
    have hi : ¬ l.channel.map Channel.Held.id = some i := hi
    simp [hear, hi, opened_of_ne hg, hrest]
  | failed message => simp [hear, failed_of_ne hg, hrest]
  | closed c => simp [hear, closed_of_ne hg, hrest]

theorem Upheld.step_stale (h : r.Upheld id source backoff) (hi : r.held ≠ some i)
    (n : Channel.Notice) (a : Answers) : r.step a (.notice i n) = r := by
  unfold Run.step
  split
  · simp
  · rename_i l hl
    have hheld : l.held ≠ some i := by simpa [held, hl] using hi
    simp only [Run.act]
    split
    · rfl
    · rename_i s hs
      refine hear_of_ne hl hheld (fun hg ↦ hheld ?_) n a
      exact ((h.link l hl).held_iff hs (h.stamp_link hl hs)).2 hg

theorem Upheld.play_stale (h : r.Upheld id source backoff) {stale : List (Answers × Move)}
    (hstale : ∀ x ∈ stale, ∃ i n, x.2 = .notice i n ∧ r.held ≠ some i) : r.play stale = r := by
  induction stale with
  | nil => rfl
  | cons x stale ih =>
    obtain ⟨i, n, hx, hi⟩ := hstale x (List.mem_cons_self ..)
    rw [play_cons, hx, h.step_stale hi]
    exact ih fun y hy ↦ hstale y (List.mem_cons_of_mem _ hy)

/-- The channel that the link holds is stamped with the generation of the link. -/
theorem Upheld.step_notice {l : Link} (h : r.Upheld id source backoff) (hl : r.link = some l)
    (hi : l.held = some i) (n : Channel.Notice) (a : Answers) :
    r.step a (.notice i n) = r.hear l i l.generation n a := by
  have hopen : r.ledger.opened[i]? = some l.stamp := ((h.link l hl).stamped.channel i).2 hi
  simp only [Run.step, hl, Run.act, hopen, stamp]

/-- The end of the held channel begins a new generation. -/
theorem Upheld.step_closed_ne (h : r.Upheld id source backoff) (hi : r.held = some i)
    (c : Channel.Closing) (a : Answers) : r.step a (.notice i (.closed c)) ≠ r := by
  obtain ⟨l, hl, hheld⟩ := Option.bind_eq_some_iff.1 hi
  have hu := h.link l hl
  have hs : l.state ≠ .disconnected := by
    intro hs
    rw [held_eq_none.2 (hu.sound.disconnected hs)] at hheld
    cases hheld
  intro heq
  have hlink := congrArg Run.link heq
  simp only [h.step_notice hl hheld, Run.hear, closed_of_live hs, Run.take, hl,
    Option.some.injEq] at hlink
  have hgeneration : l.generation + 1 = l.generation := congrArg Link.generation hlink
  omega

end ProgressFeed.Link.Run

namespace ProgressFeed.Link

open Run

/-- Wherever a run has got to, with whatever callbacks under way: notices of channels that the link
does not hold, in any number and order, leave the run as it is, and what comes after them is what
would come without them. A channel that the link holds is not ignored in this way. -/
theorem stale_inert (id : Nat) (source : Bytes) (backoff : Backoff)
    (before : List (Answers × Move)) :
    let r := (start id source backoff).play before
    (∀ stale after : List (Answers × Move),
      (∀ x ∈ stale, ∃ i n, x.2 = .notice i n ∧ r.held ≠ some i) →
      r.play stale = r ∧ r.play (stale ++ after) = r.play after) ∧
    ∀ i, r.held = some i → ∀ c a, r.step a (.notice i (.closed c)) ≠ r := by
  intro r
  have hu : r.Upheld id source backoff := upheld_play id source backoff before
  refine ⟨fun stale after hstale ↦ ?_, fun i hi c a ↦ hu.step_closed_ne hi c a⟩
  have hplay := hu.play_stale hstale
  exact ⟨hplay, by rw [play_append, hplay]⟩

/-- The channel that broke is not heard any more, though the owner is still in the callback in which
it has connected anew, and neither is the one that the owner has left. -/
theorem stale_inert_reentrant :
    let world : Answers := ⟨some (utf8 "token"), some true, true⟩
    let before : List (Answers × Move) :=
      [.connect, .returned, .notice 0 .opened, .notice 0 (.closed {}), .connect, .returned,
        .disconnect, .connect, .returned].map (world, ·)
    let stale : List (Answers × Move) :=
      [.notice 1 .opened, .notice 0 (.failed (utf8 "reset")), .notice 0 (.closed {}),
        .notice 1 (.closed {}), .notice 0 (.frame ⟨none, []⟩)].map (world, ·)
    ((start 0 [] {}).play before).held = some 2 ∧
      ((start 0 [] {}).play before).stack ≠ [] ∧
      ((start 0 [] {}).play before).play stale = (start 0 [] {}).play before := by
  intro world before stale
  refine ⟨by decide, by decide, ((stale_inert 0 [] {} before).1 stale [] fun x hx ↦ ?_).1⟩
  simp only [stale, List.map_cons, List.map_nil, List.mem_cons, List.not_mem_nil, or_false] at hx
  rcases hx with rfl | rfl | rfl | rfl | rfl <;> exact ⟨_, _, rfl, by decide⟩

end ProgressFeed.Link
