import ProgressFeed.Proofs.Link.Run
import ProgressFeed.Proofs.Link.Step

/-!
# Attempts without a channel

A link that asks for a channel and gets none says so; all that it has left to do then is to end the
attempt.
-/

namespace ProgressFeed.Link

/-- If the link asks for a channel in this step, it has to give up the attempt. -/
def Step.Abandons (s : Step) : Prop :=
  ∀ source token, .create source token ∈ s.commands →
    ∃ call, s.pause = some (call, .abandon s.link.generation)

variable {l : Link} {o : Outside} {source token : Bytes}

theorem Step.abandons_of_nil {s : Step} (h : s.commands = []) : s.Abandons := by
  intro source token hm
  simp [h] at hm

theorem create_notMem_stopCommand : .create source token ∉ l.stopCommand := by
  cases h : l.alarm <;> simp [stopCommand, h]

theorem create_notMem_farewell : .create source token ∉ l.farewell := by
  cases h : l.channel <;> simp [farewell, create_notMem_stopCommand, h]

theorem Step.Abandons.after {s : Step} {commands : List Command} (h : s.Abandons)
    (hc : ∀ source token, .create source token ∉ commands) : (s.after commands).Abandons := by
  intro source token hm
  rcases List.mem_append.1 hm with hm | hm
  · exact absurd hm (hc source token)
  · exact h source token hm

theorem enter_abandons {now : Connection} {resume : Resume} {next : Link → Step}
    (h : l.state = now → (next l).Abandons) : (l.enter now resume next).Abandons := by
  unfold enter
  split
  · rename_i hs
    exact h hs
  · exact Step.abandons_of_nil rfl

theorem tryLater_abandons : (l.tryLater o).Abandons := by
  intro source token hm
  simp [tryLater] at hm

theorem retry_abandons (g : Nat) : (l.retry g o).Abandons := by
  unfold retry
  split
  · exact tryLater_abandons
  · exact Step.abandons_of_nil rfl

theorem settle_abandons (g : Nat) (c : Channel.Closing) (i : Bool) : (l.settle g c i o).Abandons := by
  unfold settle
  split
  · exact Step.abandons_of_nil rfl
  · split
    · split
      · exact tryLater_abandons
      · exact Step.abandons_of_nil rfl
    · exact Step.abandons_of_nil rfl

theorem closed_abandons (g : Nat) (c : Channel.Closing) : (l.closed g c o).Abandons := by
  unfold closed
  split
  · exact enter_abandons fun _ ↦ settle_abandons _ _ _
  · exact Step.abandons_of_nil rfl

theorem dial_abandons (ho : o.channel = none) (g : Nat) : (l.dial g o).Abandons := by
  unfold dial
  split
  · rename_i hg
    simp only [ho]
    split
    · exact enter_abandons fun _ ↦ Step.abandons_of_nil rfl
    · intro source token _
      exact ⟨.fault .noChannel, by simp [report, Step.after, hg]⟩
  · exact Step.abandons_of_nil rfl

theorem connect_abandons (ho : o.channel = none) : (l.connect o).Abandons := by
  unfold connect
  split
  · exact Step.abandons_of_nil rfl
  · exact Step.Abandons.after (enter_abandons fun _ ↦ dial_abandons ho _)
      fun _ _ ↦ create_notMem_stopCommand

theorem rang_abandons (ho : o.channel = none) (alarm : Nat) : (l.rang alarm o).Abandons :=
  connect_abandons ho

theorem disconnect_abandons : l.disconnect.Abandons :=
  Step.Abandons.after (enter_abandons fun _ ↦ Step.abandons_of_nil rfl)
    fun _ _ ↦ create_notMem_farewell

theorem opened_abandons (g : Nat) : (l.opened g).Abandons := by
  unfold opened
  split
  · exact enter_abandons fun _ ↦ Step.abandons_of_nil rfl
  · exact Step.abandons_of_nil rfl

theorem failed_abandons (g : Nat) (message : Bytes) : (l.failed g message).Abandons := by
  unfold failed
  split <;> exact Step.abandons_of_nil rfl

theorem resume_abandons (ho : o.channel = none) (x : Resume) : (l.resume o x).Abandons := by
  cases x with
  | nothing | deny => exact Step.abandons_of_nil rfl
  | dial g => exact dial_abandons ho g
  | abandon g => exact closed_abandons g _
  | settle g c i => exact settle_abandons g c i
  | retry g => exact retry_abandons g

namespace Run

/-- Whatever has been recorded since `before`, if the link has asked for a channel, it is about to give
up the attempt. -/
def Abandons (before : List Record) (r : Run) : Prop :=
  ∀ more source token, r.records = before ++ more → .command (.create source token) ∈ more →
    ∃ l stack, r.link = some l ∧ r.stack = .abandon l.generation :: stack

variable {r : Run}

theorem abandons_of_records {before front : List Record} (hr : r.records = before ++ front)
    (hf : ∀ source token, .command (.create source token) ∉ front) : r.Abandons before := by
  intro more source token hmore hm
  rw [hr, List.append_cancel_left_eq] at hmore
  exact absurd (hmore ▸ hm) (hf source token)

theorem abandons_refl (r : Run) : r.Abandons r.records :=
  abandons_of_records (List.append_nil _).symm (by simp)

theorem abandons_take {s : Step} (hs : s.Abandons) : (r.take s).Abandons r.records := by
  intro more source token hmore hm
  have hmore : more = s.records := (List.append_cancel_left hmore).symm
  have hcommand : .create source token ∈ s.commands := by
    rw [hmore] at hm
    rcases List.mem_append.1 hm with hm | hm
    · simpa using hm
    · cases hp : s.pause <;> simp [hp] at hm
  obtain ⟨call, hp⟩ := hs source token hcommand
  exact ⟨s.link, r.stack, rfl, by simp [take, Step.pending, hp]⟩

theorem abandons_give {commands : List Command}
    (hc : ∀ source token, .create source token ∉ commands) : (r.give commands).Abandons r.records :=
  abandons_of_records rfl (by simpa using hc)

theorem Abandons.of_note {before : List Record} {x : Record} (h : r.Abandons (before ++ [x]))
    (hr : ∃ more, r.records = before ++ [x] ++ more) (hx : ∀ c, x ≠ .command c) :
    r.Abandons before := by
  intro more source token hmore hm
  obtain ⟨rest, hrest⟩ := hr
  rw [hrest, List.append_assoc, List.append_cancel_left_eq] at hmore
  subst hmore
  rcases List.mem_append.1 hm with hm | hm
  · exact absurd (List.mem_singleton.1 hm).symm (hx _)
  · exact h rest source token hrest hm

theorem abandons_act {l : Link} {a : Answers} (ha : a.channel = none) (m : Move) :
    (r.act l a m).Abandons r.records := by
  have ho : ∀ w : Ledger, (w.outside a).channel = none := fun w ↦ by simp [Ledger.outside, ha]
  cases m with
  | connect => exact abandons_take (connect_abandons (ho _))
  | disconnect =>
    exact (abandons_take (r := r.note .reset) disconnect_abandons).of_note ⟨_, rfl⟩ (by simp)
  | send payload =>
    refine abandons_give fun source token ↦ ?_
    unfold send
    split <;> simp
  | drop =>
    exact abandons_of_records rfl fun _ _ ↦ by simpa using create_notMem_farewell
  | notice channel n =>
    simp only [act]
    split
    · exact abandons_refl r
    · rename_i s _
      cases n with
      | frame f =>
        simp only [hear]
        split
        · exact abandons_of_records rfl (by simp)
        · exact abandons_refl r
      | opened =>
        simp only [hear]
        split
        · exact (abandons_take (r := r.note .reset) (opened_abandons _)).of_note ⟨_, rfl⟩ (by simp)
        · exact abandons_take (opened_abandons _)
      | failed message => exact abandons_take (failed_abandons _ message)
      | closed c => exact abandons_take (closed_abandons _ c)
  | ring alarm =>
    simp only [act]
    split
    · exact abandons_take
        (r := { r with ledger := { r.ledger with clock := r.ledger.clock.stop alarm } })
        (rang_abandons (ho _) alarm)
    · exact abandons_refl r
  | returned =>
    simp only [act]
    split
    · exact abandons_refl r
    · rename_i x stack _
      exact abandons_take (r := { r with stack }) (resume_abandons (ho _) x)

theorem abandons_step {a : Answers} (ha : a.channel = none) (m : Move) :
    (r.step a m).Abandons r.records := by
  unfold step
  split
  · exact abandons_of_records (List.append_nil _).symm (by simp)
  · exact abandons_act ha m

end Run

end ProgressFeed.Link
