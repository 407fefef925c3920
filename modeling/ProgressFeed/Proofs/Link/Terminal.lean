import ProgressFeed.Proofs.Link.Consistent

/-!
# Terminal links

A terminal link stays terminal and makes no attempt any more, whatever happens to it.
-/

namespace ProgressFeed.Link

/-- A channel is made or opened, or an alarm is set. -/
def Record.isAttempt : Record → Bool
  | .command (.create ..) | .command (.open ..) | .command (.setAlarm ..) => true
  | .command _ | .call _ | .frame _ | .reset => false

/-- A step of a link that is terminal and stays so: it makes no attempt. -/
def Step.IsLast (s : Step) : Prop :=
  s.link.terminal = true ∧ ∀ c ∈ s.commands, (Record.command c).isAttempt = false

variable {l : Link} {w : Ledger} {stack : List Resume}

theorem rest_isLast (ht : l.terminal = true) : l.rest.IsLast := ⟨ht, by simp⟩

theorem isAttempt_farewell : ∀ c ∈ l.farewell, (Record.command c).isAttempt = false := by
  cases ha : l.alarm <;> cases hc : l.channel <;>
    simp [farewell, stopCommand, ha, hc, Record.isAttempt]

theorem disconnect_isLast (ht : l.terminal = true) : l.disconnect.IsLast := by
  constructor
  · rw [disconnect_link]
    exact ht
  · rw [disconnect_commands]
    exact isAttempt_farewell

theorem connect_isLast (ht : l.terminal = true) (o : Outside) : (l.connect o).IsLast := by
  rw [connect_of_isBusy (by simp [isBusy, ht])]
  exact rest_isLast ht

theorem rang_isLast (ht : l.terminal = true) (alarm : Nat) (o : Outside) :
    (l.rang alarm o).IsLast :=
  connect_isLast (l := { l with alarm := if l.alarm = some alarm then none else l.alarm }) ht o

theorem Upheld.notice_isLast (h : l.Upheld w stack) (ht : l.terminal = true) {i : Nat} {s : Stamp}
    (hi : w.opened[i]? = some s) (hs : s.link = l.id) (n : Channel.Notice) (o : Outside) :
    (l.notice s.generation n o).IsLast := by
  rw [notice_of_ne fun hg ↦
    h.channel_of_stamp hi hs hg (h.sound.disconnected (h.sound.terminal ht))]
  exact rest_isLast ht

theorem Upheld.resume_isLast {r : Resume} (h : l.Upheld w (r :: stack)) (ht : l.terminal = true)
    (o : Outside) : (l.resume o r).IsLast := by
  have hst := h.sound.terminal ht
  cases hr : r.generation? with
  | none =>
    cases r with
    | dial | abandon | settle | retry => cases hr
    | nothing => exact rest_isLast ht
    | deny => exact ⟨ht, by simp [Link.resume, deny_eq]⟩
  | some g =>
    by_cases hg : l.generation = g
    · have hf := h.held.fits r (List.mem_cons_self ..) (hg ▸ hr)
      cases r with
      | dial | abandon => simp [hf.1] at hst
      | settle => simp [hf.2.2] at ht
      | retry => simp [hf.2.2.1] at ht
      | nothing | deny => cases hr
    · rw [resume_of_ne hr hg]
      exact rest_isLast ht

namespace Run

variable {id : Nat} {source : Bytes} {backoff : Backoff} {r : Run}

/-- A run has gone on without an attempt, and its link is terminal, if it is still there. -/
def Over (before : List Record) (r : Run) : Prop :=
  (∃ more, r.records = before ++ more ∧ ∀ x ∈ more, x.isAttempt = false) ∧
    ∀ l, r.link = some l → l.terminal = true

theorem Over.take {before : List Record} (h : r.Over before) {s : Step} (hs : s.IsLast) :
    (r.take s).Over before := by
  obtain ⟨⟨more, hr, hm⟩, -⟩ := h
  refine ⟨⟨more ++ s.records, by simp [Run.take, hr], fun x hx ↦ ?_⟩, ?_⟩
  · rcases List.mem_append.1 hx with hx | hx
    · exact hm x hx
    · rcases List.mem_append.1 hx with hx | hx
      · obtain ⟨c, hc, rfl⟩ := List.mem_map.1 hx
        exact hs.2 c hc
      · obtain ⟨p, -, rfl⟩ := Option.map_eq_some_iff.1 (Option.mem_toList.1 hx)
        rfl
  · rintro _ ⟨⟩
    exact hs.1

theorem Over.give {before : List Record} (h : r.Over before) {commands : List Command}
    (hc : ∀ c ∈ commands, (Record.command c).isAttempt = false) :
    (r.give commands).Over before := by
  obtain ⟨⟨more, hr, hm⟩, ht⟩ := h
  refine ⟨⟨more ++ commands.map .command, by simp [Run.give, hr], fun x hx ↦ ?_⟩, ht⟩
  rcases List.mem_append.1 hx with hx | hx
  · exact hm x hx
  · obtain ⟨c, hmem, rfl⟩ := List.mem_map.1 hx
    exact hc c hmem

theorem Over.note {before : List Record} (h : r.Over before) {x : Record}
    (hx : x.isAttempt = false) : (r.note x).Over before := by
  obtain ⟨⟨more, hr, hm⟩, ht⟩ := h
  refine ⟨⟨more ++ [x], by simp [Run.note, hr], fun y hy ↦ ?_⟩, ht⟩
  rcases List.mem_append.1 hy with hy | hy
  · exact hm y hy
  · exact List.mem_singleton.1 hy ▸ hx

theorem Over.act {before : List Record} (h : r.Over before) (hu : r.Upheld id source backoff)
    (hl : r.link = some l) (a : Answers) (m : Move) : (r.act l a m).Over before := by
  have ht := h.2 l hl
  cases m with
  | connect => exact h.take (connect_isLast ht _)
  | disconnect => exact (h.note (x := .reset) rfl).take (disconnect_isLast ht)
  | send payload =>
    refine h.give fun c hc ↦ ?_
    have hs : l.state = .disconnected := (hu.link l hl).sound.terminal ht
    simp [Link.send, sender?, hs] at hc
  | drop => exact ⟨(h.give isAttempt_farewell).1, by rintro _ ⟨⟩⟩
  | notice channel n =>
    simp only [Run.act]
    split
    · exact h
    · rename_i s hs
      have hn := (hu.link l hl).notice_isLast ht hs (hu.stamp_link hl hs) n (r.ledger.outside a)
      cases n with
      | frame f =>
        simp only [Run.hear]
        split
        · exact h.note rfl
        · exact h
      | opened =>
        simp only [Run.hear]
        split
        · exact (h.note (x := .reset) rfl).take hn
        · exact h.take hn
      | failed message => exact h.take hn
      | closed c => exact h.take hn
  | ring alarm =>
    simp only [Run.act]
    split
    · have hover : Run.Over before
          { r with ledger := { r.ledger with clock := r.ledger.clock.stop alarm } } := h
      exact hover.take (rang_isLast ht alarm _)
    · exact h
  | returned =>
    simp only [Run.act]
    split
    · exact h
    · rename_i resume stack hstack
      have hover : Run.Over before { r with stack } := h
      exact hover.take ((hstack ▸ hu.link l hl).resume_isLast ht _)

theorem Over.play {before : List Record} (h : r.Over before) (hu : r.Upheld id source backoff)
    (moves : List (Answers × Move)) : (r.play moves).Over before := by
  refine (play_induction (P := fun r ↦ r.Upheld id source backoff ∧ r.Over before)
    (fun r a m h ↦ ⟨h.1.step a m, ?_⟩) ⟨hu, h⟩ moves).2
  unfold Run.step
  split
  · rename_i hn
    exact ⟨h.2.1, by simp [hn]⟩
  · rename_i l hl
    exact h.2.act h.1 hl a m

end Run

end ProgressFeed.Link
