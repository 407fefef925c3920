import ProgressFeed.Proofs.Link.Step
import Mathlib.Order.Nat

/-!
# What always holds of a link at work

Halfway through an operation the fields of a link need not agree with one another; what makes up for
it is on the stack. Of the calls under way at most one belongs to the current generation, and that
one says how the fields stand. With an empty stack nothing is owed, and the fields agree.
-/

namespace ProgressFeed.Link

/-- What the channel of the current generation is stamped with. -/
def stamp (l : Link) : Stamp := ⟨l.id, l.generation⟩

/-- How a link stands while a call of its current generation is under way. -/
def Resume.Fits (l : Link) : Resume → Prop
  | .dial _ | .abandon _ => l.state = .connecting ∧ l.channel = none
  | .settle .. => l.state = .disconnected ∧ l.alarm = none ∧ l.terminal = false
  | .retry _ => l.state = .disconnected ∧ l.alarm = none ∧ l.terminal = false ∧
      l.attempts < l.backoff.maxAttempts
  | .nothing | .deny => True

/-- What the fields of a link always have to do with one another. -/
structure Sound (l : Link) : Prop where
  connected : l.state = .connected → l.channel ≠ none ∧ l.attempts = 0
  disconnected : l.state = .disconnected → l.channel = none
  alarm : l.alarm ≠ none → l.state = .disconnected ∧ l.terminal = false ∧ 1 ≤ l.attempts
  terminal : l.terminal = true → l.state = .disconnected
  attempts : l.attempts ≤ l.backoff.maxAttempts
  intentional : l.state ≠ .disconnected → l.intentional = false

def generations (stack : List Resume) : List Nat := stack.filterMap Resume.generation?

/-- Every call under way is older than a generation, and inner ones are younger than outer ones. -/
structure Below (g : Nat) (stack : List Resume) : Prop where
  sorted : (generations stack).Pairwise (· > ·)
  lt : ∀ k ∈ generations stack, k < g

/-- What the calls under way have to do with a link. -/
structure Held (l : Link) (stack : List Resume) : Prop where
  sorted : (generations stack).Pairwise (· > ·)
  le : ∀ k ∈ generations stack, k ≤ l.generation
  fits : ∀ r ∈ stack, r.generation? = some l.generation → r.Fits l
  dialing : l.state = .connecting → l.channel = none → l.generation ∈ generations stack

/-- The stamp of the current generation belongs to the held channel, and no stamp is younger. -/
structure Stamped (l : Link) (w : Ledger) : Prop where
  le : ∀ s ∈ w.opened, s.link = l.id → s.generation ≤ l.generation
  channel : ∀ i, w.opened[i]? = some l.stamp ↔ l.channel.map Channel.Held.id = some i

/-- What holds of a link at work, whatever is under way. -/
structure Upheld (l : Link) (w : Ledger) (stack : List Resume) : Prop where
  sound : l.Sound
  held : l.Held stack
  stamped : l.Stamped w
  alarmed : w.clock.setFor (.reopen l.id) = l.alarm.toList
  numbered : w.clock.Numbered

/-- What holds of a link when no call under way belongs to its current generation. -/
structure Loose (l : Link) (w : Ledger) (stack : List Resume) : Prop where
  sound : l.Sound
  below : Below l.generation stack
  stamped : l.Stamped w
  alarmed : w.clock.setFor (.reopen l.id) = l.alarm.toList
  numbered : w.clock.Numbered

/-- What holds of a link after a step that it has made. -/
def Step.Upholds (s : Step) (w : Ledger) (stack : List Resume) : Prop :=
  s.link.Upheld (w.obeyAll s.commands) (s.pending ++ stack)

/-! ## Calls under way -/

section Calls

variable {l : Link} {r : Resume} {stack : List Resume} {g : Nat}

@[simp] theorem generations_cons :
    generations (r :: stack) = r.generation?.toList ++ generations stack := by
  cases h : r.generation? <;> simp [generations, h]

theorem mem_generations {k : Nat} :
    k ∈ generations stack ↔ ∃ r ∈ stack, r.generation? = some k := by
  simp [generations]

theorem Below.held (h : Below l.generation stack)
    (hd : l.state = .connecting → l.channel ≠ none) : l.Held stack where
  sorted := h.sorted
  le k hk := (h.lt k hk).le
  fits r hr hg := absurd (h.lt _ (mem_generations.2 ⟨r, hr, hg⟩)) (lt_irrefl _)
  dialing hs hc := absurd hc (hd hs)

theorem Held.push_none (h : l.Held stack) (hg : r.generation? = none) : l.Held (r :: stack) := by
  constructor
  · simpa [hg] using h.sorted
  · simpa [hg] using h.le
  · intro r' hr' hg'
    rcases List.mem_cons.1 hr' with rfl | hr'
    · rw [hg] at hg'
      cases hg'
    · exact h.fits r' hr' hg'
  · simpa [hg] using h.dialing

theorem Below.push (h : Below l.generation stack) (hg : r.generation? = some l.generation)
    (hf : r.Fits l) : l.Held (r :: stack) := by
  constructor
  · simpa [hg] using ⟨h.lt, h.sorted⟩
  · simpa [hg] using fun k hk ↦ (h.lt k hk).le
  · intro r' hr' hg'
    rcases List.mem_cons.1 hr' with rfl | hr'
    · exact hf
    · exact absurd (h.lt _ (mem_generations.2 ⟨r', hr', hg'⟩)) (lt_irrefl _)
  · simp [hg]

theorem Held.below_of_lt (h : l.Held stack) (hlt : l.generation < g) : Below g stack :=
  ⟨h.sorted, fun k hk ↦ (h.le k hk).trans_lt hlt⟩

theorem Held.below_tail (h : l.Held (r :: stack)) (hg : r.generation? = some l.generation) :
    Below l.generation stack := by
  have hs := h.sorted
  simp only [generations_cons, hg, Option.toList_some, List.singleton_append,
    List.pairwise_cons] at hs
  exact ⟨hs.2, hs.1⟩

theorem Held.tail (h : l.Held (r :: stack)) (hg : r.generation? ≠ some l.generation) :
    l.Held stack := by
  have hs := h.sorted
  have hle := h.le
  have hd := h.dialing
  simp only [generations_cons] at hs hle hd
  constructor
  · exact (List.pairwise_append.1 hs).2.1
  · exact fun k hk ↦ hle k (List.mem_append_right _ hk)
  · exact fun r' hr' ↦ h.fits r' (List.mem_cons_of_mem _ hr')
  · intro hst hc
    rcases List.mem_append.1 (hd hst hc) with hm | hm
    · exact absurd (Option.mem_toList.1 hm) hg
    · exact hm

/-- While a channel is held, no call under way belongs to the current generation. -/
theorem Held.below_of_channel (h : l.Held stack) (hl : l.Sound) (hc : l.channel ≠ none) :
    Below l.generation stack := by
  refine ⟨h.sorted, fun k hk ↦ (h.le k hk).lt_of_ne ?_⟩
  rintro rfl
  obtain ⟨r, hr, hg⟩ := mem_generations.1 hk
  have hf := h.fits r hr hg
  cases r with
  | dial | abandon => exact hc hf.2
  | settle | retry => exact hc (hl.disconnected hf.1)
  | nothing | deny => cases hg

end Calls

/-! ## The ledger -/

section Books

variable {l l' : Link} {w w' : Ledger}

theorem Stamped.leave (h : l.Stamped w) (hid : l'.id = l.id) (hg : l.generation < l'.generation)
    (hc : l'.channel = none) (hw : w'.opened = w.opened) : l'.Stamped w' where
  le s hs hl := Nat.le_trans (h.le s (hw ▸ hs) (hl.trans hid)) hg.le
  channel i := by
    simp only [hc, hw, Option.map_none, reduceCtorEq, iff_false]
    intro hi
    have hle := h.le _ (List.mem_of_getElem? hi) hid
    exact absurd hle (Nat.not_le.2 hg)

theorem Stamped.same (h : l.Stamped w) (hid : l'.id = l.id) (hg : l'.generation = l.generation)
    (hc : l'.channel = l.channel) (hw : w'.opened = w.opened) : l'.Stamped w' where
  le s hs hl := hg ▸ h.le s (hw ▸ hs) (hl.trans hid)
  channel i := by
    have hs : l'.stamp = l.stamp := by simp only [stamp, hid, hg]
    rw [hs, hc, hw]
    exact h.channel i

/-- All channels that were ever opened are older than a link that holds none. -/
theorem Stamped.lt (h : l.Stamped w) (hc : l.channel = none) :
    ∀ s ∈ w.opened, s.link = l.id → s.generation < l.generation := by
  intro s hs hid
  refine lt_of_le_of_ne (h.le s hs hid) fun hg ↦ ?_
  obtain ⟨i, hi⟩ := List.mem_iff_getElem?.1 hs
  have hstamp : s = l.stamp := by
    cases s
    exact congrArg₂ Stamp.mk hid hg
  simpa [hc] using (h.channel i).1 (hstamp ▸ hi)

theorem Stamped.open (h : l.Stamped w) (hn : l.channel = none) {c : Channel.Held}
    (hc : c.id = w.opened.length) :
    Stamped { l with channel := some c } (w.obey (.open c.id l.stamp)) := by
  have hnone : ∀ i : Nat, w.opened[i]? ≠ some l.stamp := by
    intro i hi
    have hi' := (h.channel i).1 hi
    simp [hn] at hi'
  constructor
  · intro s hs hl
    rcases List.mem_append.1 hs with hs | hs
    · exact h.le s hs hl
    · rw [List.mem_singleton.1 hs]
      exact le_rfl
  · intro i
    change (w.opened ++ [l.stamp])[i]? = some l.stamp ↔ some c.id = some i
    simp only [Option.some.injEq, hc]
    rcases Nat.lt_trichotomy i w.opened.length with hi | rfl | hi
    · rw [List.getElem?_append_left hi]
      exact ⟨fun he ↦ absurd he (hnone i), fun he ↦ absurd he hi.ne'⟩
    · simp
    · rw [List.getElem?_eq_none (by simp; omega)]
      exact ⟨fun he ↦ (Option.some_ne_none _ he.symm).elim, fun he ↦ absurd he hi.ne⟩

theorem opened_stopCommand : (w.obeyAll l.stopCommand).opened = w.opened := by
  cases h : l.alarm <;> simp [stopCommand, h, Ledger.obey]

theorem clock_farewell : (w.obeyAll l.farewell).clock = (w.obeyAll l.stopCommand).clock := by
  cases h : l.channel <;> simp [farewell, h, Ledger.obey]

theorem opened_farewell : (w.obeyAll l.farewell).opened = w.opened := by
  cases h : l.channel <;> simp [farewell, h, Ledger.obey, opened_stopCommand]

theorem setFor_stopCommand (h : w.clock.setFor (.reopen l.id) = l.alarm.toList) :
    (w.obeyAll l.stopCommand).clock.setFor (.reopen l.id) = [] := by
  cases ha : l.alarm with
  | none => simpa [stopCommand, ha] using h
  | some a => simp [stopCommand, ha, Ledger.obey, Clock.setFor_stop, h]

end Books

end ProgressFeed.Link
