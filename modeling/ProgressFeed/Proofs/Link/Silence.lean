import ProgressFeed.Proofs.Link.Denial

/-!
# The silence after a disconnect

A link that has been told to disconnect holds no channel and has no alarm, and whatever it had left
to do belongs to an older generation, with one exception: the report of a missing credential belongs
to none. It is made even if the owner has disconnected during the announcement before it.
-/

namespace ProgressFeed.Link

def Record.isCallback : Record → Bool
  | .call _ | .frame _ => true
  | .command _ | .reset => false

theorem Below.mono {g g' : Nat} {stack : List Resume} (h : Below g stack) (hg : g ≤ g') :
    Below g' stack := ⟨h.sorted, fun k hk ↦ (h.lt k hk).trans_le hg⟩

theorem Below.tail {g : Nat} {x : Resume} {stack : List Resume} (h : Below g (x :: stack)) :
    Below g stack := by
  obtain ⟨hsorted, hlt⟩ := h
  rw [generations_cons] at hsorted hlt
  exact ⟨(List.pairwise_append.1 hsorted).2.1, fun k hk ↦ hlt k (List.mem_append_right _ hk)⟩

theorem Below.push_nothing {g : Nat} {stack : List Resume} (h : Below g stack) :
    Below g (.nothing :: stack) := by
  constructor
  · simpa [Resume.generation?] using h.sorted
  · simpa [Resume.generation?] using h.lt

namespace Run

/-- What the owner has been told so far. -/
def heard (r : Run) : List Record := r.records.filter Record.isCallback

variable {id : Nat} {source : Bytes} {backoff : Backoff} {r : Run} {l : Link} {s : Step}
  {heard : List Record} {n : Nat}

theorem filter_commands (commands : List Command) :
    (commands.map Record.command).filter Record.isCallback = [] := by
  simp [Record.isCallback]

theorem heard_take (r : Run) (s : Step) :
    (r.take s).heard = r.heard ++ (s.pause.map (.call ·.1)).toList := by
  have hcall : ((s.pause.map (.call ·.1)).toList : List Record).filter Record.isCallback =
      (s.pause.map (.call ·.1)).toList := by
    cases s.pause <;> rfl
  simp only [Run.heard, take, Step.records, List.filter_append, filter_commands, hcall,
    List.nil_append]

theorem heard_give (r : Run) (commands : List Command) : (r.give commands).heard = r.heard := by
  simp only [Run.heard, give, List.filter_append, filter_commands, List.append_nil]

theorem heard_note_reset (r : Run) : (r.note .reset).heard = r.heard := by
  simp [Run.heard, note, Record.isCallback]

/-- The owner has disconnected, and has been told no more than `heard` since, apart from a missing
credential; and that, with the times when it is still to be told, not more than `n` times. -/
structure Silent (heard : List Record) (n : Nat) (r : Run) : Prop where
  apart : ∀ l, r.link = some l →
    (l.state = .disconnected ∧ l.alarm = none) ∧ Below l.generation r.stack
  heard : ∃ k, r.heard = heard ++ List.replicate k (.call (.fault .noCredential)) ∧
    k + r.stack.count .deny ≤ n

theorem Silent.of_heard (h : r.Silent heard n) {r' : Run} (hlink : r'.link = r.link)
    (hstack : r'.stack = r.stack) (hheard : r'.heard = r.heard) : r'.Silent heard n := by
  constructor
  · intro l hl
    rw [hstack]
    exact h.apart l (hlink ▸ hl)
  · rw [hstack, hheard]
    exact h.heard

theorem Silent.take (h : r.Silent heard n) (hl : r.link = some l) (hp : s.pause = none)
    (hs : s.link.state = .disconnected ∧ s.link.alarm = none)
    (hg : l.generation ≤ s.link.generation) : (r.take s).Silent heard n := by
  have hstack : (r.take s).stack = r.stack := by simp [Run.take, Step.pending, hp]
  constructor
  · rintro _ ⟨⟩
    rw [hstack]
    exact ⟨hs, (h.apart l hl).2.mono hg⟩
  · rw [heard_take, hp, hstack]
    simpa using h.heard

theorem Silent.rest (h : r.Silent heard n) (hl : r.link = some l) :
    (r.take l.rest).Silent heard n := h.take hl rfl (h.apart l hl).1 le_rfl

theorem Silent.tail {x : Resume} {stack : List Resume} (h : r.Silent heard n)
    (hs : r.stack = x :: stack) : Silent heard n { r with stack } := by
  obtain ⟨hapart, k, hk, hle⟩ := h
  rw [hs] at hapart hle
  refine ⟨?_, k, hk, ?_⟩
  · intro l hl
    obtain ⟨hd, hbelow⟩ := hapart l hl
    exact ⟨hd, hbelow.tail⟩
  · have hcount : stack.count .deny ≤ (x :: stack).count .deny := List.count_le_count_cons
    dsimp only
    omega

theorem Silent.deny {stack : List Resume} (h : r.Silent heard n) (hl : r.link = some l)
    (hs : r.stack = .deny :: stack) : (Run.take { r with stack } l.deny).Silent heard n := by
  obtain ⟨hapart, -⟩ := h.tail hs
  obtain ⟨-, k, hk, hle⟩ := h
  rw [hs, List.count_cons_self] at hle
  refine ⟨?_, k + 1, ?_, ?_⟩
  · rintro _ ⟨⟩
    obtain ⟨hd, hbelow⟩ := hapart l hl
    exact ⟨hd, hbelow.push_nothing⟩
  · rw [heard_take, List.replicate_succ', ← List.append_assoc, ← hk]
    rfl
  · simp only [Run.take, Step.pending, deny_eq, Option.map_some, Option.toList_some,
      List.singleton_append]
    rw [List.count_cons_of_ne (by simp)]
    omega

theorem Silent.returned {x : Resume} {stack : List Resume} (h : r.Silent heard n)
    (hl : r.link = some l) (hs : r.stack = x :: stack) (o : Outside) :
    (Run.take { r with stack } (l.resume o x)).Silent heard n := by
  -- Everything with a generation is outdated; only the report has none and still says something.
  cases hx : x.generation? with
  | some g =>
    have hlt : g < l.generation := by
      refine (h.apart l hl).2.lt g ?_
      rw [hs, generations_cons, hx]
      exact List.mem_append_left _ (List.mem_singleton_self g)
    rw [resume_of_ne hx hlt.ne']
    exact (h.tail hs).rest hl
  | none =>
    cases x with
    | dial | abandon | settle | retry => cases hx
    | nothing => exact (h.tail hs).rest hl
    | deny => exact h.deny hl hs

theorem Silent.act (h : r.Silent heard n) (hu : r.Upheld id source backoff) (hl : r.link = some l)
    (a : Answers) {m : Move} (hm : m ≠ .connect) : (r.act l a m).Silent heard n := by
  have hlink := hu.link l hl
  obtain ⟨⟨hd, ha⟩, -⟩ := h.apart l hl
  cases m with
  | connect => exact absurd rfl hm
  | disconnect =>
    have hnote : (r.note .reset).Silent heard n := h.of_heard rfl rfl (heard_note_reset r)
    refine hnote.take hl ?_ ?_ ?_
    · rw [disconnect_of_disconnected hd]
    · rw [disconnect_link]
      exact ⟨rfl, rfl⟩
    · rw [disconnect_link]
      exact Nat.le_succ _
  | send payload => exact h.of_heard rfl rfl (heard_give r _)
  | drop => exact ⟨by rintro _ ⟨⟩, (heard_give r _) ▸ h.heard⟩
  | notice channel x =>
    simp only [Run.act]
    split
    · exact h
    · rename_i stamp hstamp
      -- No channel is held, so the one that gives notice is of an older generation.
      have hne : l.generation ≠ stamp.generation := by
        intro hg
        exact hlink.channel_of_stamp hstamp (hu.stamp_link hl hstamp) hg
          (hlink.sound.disconnected hd)
      cases x with
      | frame f =>
        simp only [Run.hear]
        rw [if_neg (by simpa [hears] using hne)]
        exact h
      | opened =>
        simp only [Run.hear, opened_of_ne hne]
        split
        · have hnote : (r.note .reset).Silent heard n := h.of_heard rfl rfl (heard_note_reset r)
          exact hnote.rest hl
        · exact h.rest hl
      | failed message =>
        simp only [Run.hear, failed_of_ne hne]
        exact h.rest hl
      | closed c =>
        simp only [Run.hear, closed_of_ne hne]
        exact h.rest hl
  | ring alarm =>
    simp only [Run.act]
    split
    · rename_i hset
      have hmem := hu.mem_setFor hl hset
      simp [hlink.alarmed, ha] at hmem
    · exact h
  | returned =>
    simp only [Run.act]
    split
    · exact h
    · rename_i x stack hstack
      exact h.returned hl hstack _

theorem Silent.step (h : r.Silent heard n) (hu : r.Upheld id source backoff) (a : Answers)
    {m : Move} (hm : m ≠ .connect) : (r.step a m).Silent heard n := by
  unfold Run.step
  split
  · rename_i hn
    obtain ⟨-, k, hk, hle⟩ := h
    refine ⟨by simp [hn], k, hk, ?_⟩
    have htail : r.stack.tail.count .deny ≤ r.stack.count .deny :=
      (List.tail_sublist _).count_le _
    dsimp only
    split <;> omega
  · rename_i l hl
    exact h.act hu hl a hm

theorem Silent.play (h : r.Silent heard n) (hu : r.Upheld id source backoff)
    {moves : List (Answers × Move)} (hm : ∀ x ∈ moves, x.2 ≠ .connect) :
    (r.play moves).Silent heard n := by
  induction moves generalizing r with
  | nil => exact h
  | cons x moves ih =>
    rw [play_cons]
    exact ih (h.step hu x.1 (hm x (List.mem_cons_self ..))) (hu.step x.1 x.2)
      fun y hy ↦ hm y (List.mem_cons_of_mem _ hy)

theorem Upheld.silent (hu : r.Upheld id source backoff) (a : Answers) :
    (r.step a .disconnect).Silent (r.step a .disconnect).heard (r.stack.count .deny) := by
  cases hl : r.link with
  | none =>
    refine ⟨fun l hl' ↦ ?_, 0, by simp, by simp [Run.step, hl]⟩
    simp [Run.step, hl] at hl'
  | some l =>
    have heq : r.step a .disconnect = (r.note .reset).take l.disconnect := by
      simp [Run.step, hl, Run.act]
    have hbelow : Below (l.generation + 1) r.stack :=
      (hu.link l hl).held.below_of_lt (Nat.lt_succ_self _)
    have hpending : l.disconnect.pending = [] ∨ l.disconnect.pending = [.nothing] := by
      by_cases hs : l.state = .disconnected
      · exact .inl (by rw [disconnect_of_disconnected hs]; rfl)
      · exact .inr (by rw [disconnect_of_live hs]; rfl)
    rw [heq]
    refine ⟨?_, 0, by simp, ?_⟩
    · rintro _ ⟨⟩
      rw [disconnect_link]
      refine ⟨⟨rfl, rfl⟩, ?_⟩
      change Below (l.generation + 1) (l.disconnect.pending ++ r.stack)
      rcases hpending with hp | hp <;> rw [hp]
      · exact hbelow
      · exact hbelow.push_nothing
    · change 0 + (l.disconnect.pending ++ r.stack).count .deny ≤ r.stack.count .deny
      rcases hpending with hp | hp <;> simp [hp]

end Run

open Run

/-- As long as the owner does not connect again, nothing is heard of a link after its disconnect;
but if the owner has disconnected while it was being told that there is no connection for want of a
credential, the missing credential is still reported, once. -/
theorem silent_after_disconnect (id : Nat) (source : Bytes) (backoff : Backoff)
    (before after : List (Answers × Move)) (a : Answers) (hafter : ∀ x ∈ after, x.2 ≠ .connect) :
    ((((start id source backoff).play before).step a .disconnect).play after).heard =
      (((start id source backoff).play before).step a .disconnect).heard ∨
    .deny ∈ ((start id source backoff).play before).stack ∧
      ((((start id source backoff).play before).step a .disconnect).play after).heard =
        (((start id source backoff).play before).step a .disconnect).heard ++
          [.call (.fault .noCredential)] := by
  have hu := upheld_play id source backoff before
  have hd := denied_play id source backoff before
  generalize (start id source backoff).play before = r at *
  obtain ⟨k, hk, hle⟩ := ((hu.silent a).play (hu.step a .disconnect) hafter).heard
  have hle := hd.1
  rw [hk]
  rcases Nat.eq_zero_or_pos k with rfl | hpos
  · exact .inl (by simp)
  · have h1 : k = 1 := by omega
    refine .inr ⟨List.count_pos_iff.1 (by omega), ?_⟩
    rw [h1]
    rfl

/-- The owner disconnects from a channel that has opened; the channel gives notice nevertheless. -/
theorem silent_after_disconnect_late :
    let world : Answers := ⟨some (utf8 "token"), some true, true⟩
    let before : List (Answers × Move) :=
      [.connect, .returned, .notice 0 .opened, .returned].map (world, ·)
    let after : List (Answers × Move) :=
      [.returned, .notice 0 (.frame ⟨none, []⟩), .notice 0 (.closed {}), .ring 0].map (world, ·)
    ((((start 0 [] {}).play before).step world .disconnect).play after).heard =
      (((start 0 [] {}).play before).step world .disconnect).heard :=
  (silent_after_disconnect 0 [] {} _ _ _ (by decide)).resolve_right fun h ↦ by
    exact absurd h.1 (by decide)

/-- Without a credential, the owner disconnects as soon as it is told that there is no connection.
The disconnect announces nothing and is over at once; then the missing credential is reported. -/
theorem heard_after_disconnect :
    let called := (start 0 [] {}).play [({}, .connect), ({}, .returned)]
    let disconnected := called.step {} .disconnect
    (called.heard = [.call (.state .disconnected .connecting),
        .call (.state .connecting .disconnected)] ∧ called.stack = [.deny]) ∧
    (disconnected.heard = called.heard ∧ disconnected.stack = called.stack) ∧
    (disconnected.step {} .returned).heard = called.heard ++ [.call (.fault .noCredential)] :=
  ⟨⟨rfl, rfl⟩, ⟨rfl, rfl⟩, rfl⟩

end ProgressFeed.Link
