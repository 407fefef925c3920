import ProgressFeed.Proofs.Link.Consistent

/-!
# The report of a missing credential

It follows the announcement that there is no connection, and a link that has come so far is
terminal. So at most one such report is owed at any time, and none by a link that is not terminal.
-/

namespace ProgressFeed.Link

/-- What a step has to do with the report, when the link was terminal before or not: only a link
that becomes terminal owes it. -/
structure Step.Denies (wasTerminal : Bool) (s : Step) : Prop where
  terminal : wasTerminal = true → s.link.terminal = true
  pending : .deny ∈ s.pending → wasTerminal = false ∧ s.link.terminal = true

variable {l : Link} {o : Outside} {s : Step} {t : Bool} {resume : Resume} {g : Nat}
  {c : Channel.Closing} {i : Bool} {f : Fault}

theorem Step.denies_of_notMem (ht : t = true → s.link.terminal = true) (hp : .deny ∉ s.pending) :
    s.Denies t := ⟨ht, fun h ↦ absurd h hp⟩

theorem rest_denies (ht : l.terminal = t) : l.rest.Denies t :=
  Step.denies_of_notMem ht.trans (by simp)

theorem report_denies (ht : t = true → l.terminal = true) (hr : resume ≠ .deny) :
    (l.report f resume).Denies t :=
  Step.denies_of_notMem ht (by simpa [report, Step.pending] using hr.symm)

theorem enter_denies {now : Connection} {next : Link → Step} (ht : l.terminal = t)
    (hr : resume ≠ .deny) (hn : (next l).Denies t) : (l.enter now resume next).Denies t := by
  unfold enter
  split
  · exact hn
  · exact Step.denies_of_notMem ht.trans (by simpa [Step.pending] using hr.symm)

theorem Step.Denies.after {commands : List Command} (h : s.Denies t) :
    (s.after commands).Denies t := ⟨h.terminal, h.pending⟩

theorem tryLater_denies (ht : l.terminal = t) : (l.tryLater o).Denies t :=
  Step.denies_of_notMem ht.trans (by simp [tryLater, Step.pending])

theorem retry_denies (ht : l.terminal = t) : (l.retry g o).Denies t := by
  unfold retry
  split
  · exact tryLater_denies ht
  · exact rest_denies ht

theorem settle_denies (ht : l.terminal = t) : (l.settle g c i o).Denies t := by
  unfold settle
  split
  · exact rest_denies ht
  · split
    · split
      · exact tryLater_denies ht
      · exact report_denies ht.trans (by simp)
    · exact report_denies (fun _ ↦ rfl) (by simp)

theorem closed_denies (ht : l.terminal = t) : (l.closed g c o).Denies t := by
  unfold closed
  split
  · exact enter_denies ht (by simp) (settle_denies ht)
  · exact rest_denies ht

theorem dial_denies (ht : l.terminal = t) (hg : l.generation = g → t = false) :
    (l.dial g o).Denies t := by
  unfold dial
  split
  · rename_i hself
    split
    · unfold enter
      split
      · exact report_denies (fun _ ↦ rfl) (by simp)
      · exact ⟨fun _ ↦ rfl, fun _ ↦ ⟨hg hself, rfl⟩⟩
    · split
      · exact Step.Denies.after (report_denies ht.trans (by simp))
      · exact Step.denies_of_notMem ht.trans (by simp [Step.pending])
  · exact rest_denies ht

theorem connect_denies (ht : l.terminal = t) : (l.connect o).Denies t := by
  by_cases hb : l.isBusy = true
  · rw [connect_of_isBusy hb]
    exact rest_denies ht
  · have hf : t = false := ht.symm.trans (isBusy_eq_false.1 (Bool.eq_false_iff.2 hb)).1
    rw [connect, if_neg hb]
    exact Step.Denies.after (enter_denies ht (by simp) (dial_denies ht fun _ ↦ hf))

theorem rang_denies {alarm : Nat} (ht : l.terminal = t) : (l.rang alarm o).Denies t :=
  connect_denies ht

theorem disconnect_denies (ht : l.terminal = t) : l.disconnect.Denies t :=
  Step.Denies.after (enter_denies ht (by simp) (rest_denies ht))

theorem opened_denies (ht : l.terminal = t) : (l.opened g).Denies t := by
  unfold opened
  split
  · exact enter_denies ht (by simp) (rest_denies ht)
  · exact rest_denies ht

theorem failed_denies {message : Bytes} (ht : l.terminal = t) :
    (l.failed g message).Denies t := by
  unfold failed
  split
  · exact report_denies ht.trans (by simp)
  · exact rest_denies ht

theorem Upheld.resume_denies {w : Ledger} {x : Resume} {stack : List Resume}
    (h : l.Upheld w (x :: stack)) : (l.resume o x).Denies l.terminal := by
  cases x with
  | nothing => exact rest_denies rfl
  | deny => exact report_denies (fun h ↦ h) (by simp)
  | dial g =>
    -- A link that still dials is connecting, which no terminal link is.
    refine dial_denies rfl fun hg ↦ ?_
    have hf := h.held.fits _ (List.mem_cons_self ..) (hg ▸ rfl)
    by_contra ht
    have hs := h.sound.terminal (by simpa using ht)
    simp [hf.1] at hs
  | abandon g => exact closed_denies rfl
  | settle g c i => exact settle_denies rfl
  | retry g => exact retry_denies rfl

namespace Run

variable {id : Nat} {source : Bytes} {backoff : Backoff} {r : Run}

/-- At most one report is owed, and none by a link that is not terminal. -/
def Denied (r : Run) : Prop :=
  r.stack.count .deny ≤ 1 ∧ ∀ l, r.link = some l → l.terminal = false → .deny ∉ r.stack

theorem Denied.take (h : r.Denied) (hl : r.link = some l) (hs : s.Denies l.terminal) :
    (r.take s).Denied := by
  have hcount : s.pending.count .deny ≤ 1 := by
    unfold Step.pending
    cases s.pause <;> simp [List.count_singleton]
    split <;> omega
  constructor
  · change (s.pending ++ r.stack).count .deny ≤ 1
    rw [List.count_append]
    by_cases hmem : .deny ∈ s.pending
    · have hno := List.count_eq_zero.2 (h.2 l hl (hs.pending hmem).1)
      omega
    · have hno := List.count_eq_zero.2 hmem
      have hle := h.1
      omega
  · rintro _ ⟨⟩ ht hmem
    rcases List.mem_append.1 hmem with hmem | hmem
    · simp [(hs.pending hmem).2] at ht
    · cases hlt : l.terminal with
      | true => simp [hs.terminal hlt] at ht
      | false => exact h.2 l hl hlt hmem

theorem Denied.tail {x : Resume} {stack : List Resume} (h : r.Denied) (hs : r.stack = x :: stack) :
    Denied { r with stack } := by
  obtain ⟨hcount, hmem⟩ := h
  rw [hs] at hcount hmem
  exact ⟨le_trans List.count_le_count_cons hcount,
    fun l hl ht h ↦ hmem l hl ht (List.mem_cons_of_mem _ h)⟩

theorem Denied.hear (h : r.Denied) (hl : r.link = some l) (channel generation : Nat)
    (n : Channel.Notice) (a : Answers) : (r.hear l channel generation n a).Denied := by
  cases n with
  | frame f =>
    simp only [Run.hear]
    split <;> exact h
  | opened =>
    simp only [Run.hear]
    split
    · exact Denied.take (r := r.note .reset) h hl (opened_denies rfl)
    · exact h.take hl (opened_denies rfl)
  | failed message => exact h.take hl (failed_denies rfl)
  | closed c => exact h.take hl (closed_denies rfl)

theorem Denied.act (h : r.Denied) (hu : r.Upheld id source backoff) (hl : r.link = some l)
    (a : Answers) (m : Move) : (r.act l a m).Denied := by
  cases m with
  | connect => exact h.take hl (connect_denies rfl)
  | disconnect => exact Denied.take (r := r.note .reset) h hl (disconnect_denies rfl)
  | send payload => exact h
  | drop => exact ⟨h.1, by rintro _ ⟨⟩⟩
  | notice channel n =>
    simp only [Run.act]
    split
    · exact h
    · exact h.hear hl _ _ n a
  | ring alarm =>
    simp only [Run.act]
    split
    · exact Denied.take
        (r := { r with ledger := { r.ledger with clock := r.ledger.clock.stop alarm } }) h hl
        (rang_denies rfl)
    · exact h
  | returned =>
    simp only [Run.act]
    split
    · exact h
    · rename_i x stack hstack
      exact (h.tail hstack).take hl (hstack ▸ hu.link l hl).resume_denies

theorem Denied.step (h : r.Denied) (hu : r.Upheld id source backoff) (a : Answers) (m : Move) :
    (r.step a m).Denied := by
  unfold Run.step
  split
  · rename_i hn
    refine ⟨?_, by simp [hn]⟩
    change List.count .deny (if m = .returned then r.stack.tail else r.stack) ≤ 1
    split
    · exact le_trans ((List.tail_sublist _).count_le _) h.1
    · exact h.1
  · rename_i l hl
    exact h.act hu hl a m

theorem denied_play (id : Nat) (source : Bytes) (backoff : Backoff)
    (moves : List (Answers × Move)) : ((start id source backoff).play moves).Denied := by
  refine (play_induction (P := fun r ↦ r.Upheld id source backoff ∧ r.Denied)
    (fun r a m h ↦ ⟨h.1.step a m, h.2.step h.1 a m⟩) ⟨upheld_start id source backoff, ?_⟩ moves).2
  simp [Denied, start]

end Run

end ProgressFeed.Link
