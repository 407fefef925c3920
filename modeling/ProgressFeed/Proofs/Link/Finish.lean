import ProgressFeed.Proofs.Link.Budget
import ProgressFeed.Proofs.Link.Stale
import ProgressFeed.Proofs.Rest

/-!
# A link whose owner only returns

The owner of a link may do nothing in a callback but return. Then whatever happens to the link comes
to an end before anything else can happen, and what it leads to depends on the link alone.
-/

namespace ProgressFeed.Link

/-- How many callbacks may return before nothing is left to do. -/
def Resume.weight : Resume → Nat
  | .nothing | .retry _ => 1
  | .deny | .settle .. => 2
  | .abandon _ => 3
  | .dial _ => 4

theorem Resume.weight_pos (x : Resume) : 0 < x.weight := by
  cases x <;> simp [weight]

variable {l : Link} {o : Outside}

theorem settle_weight (l : Link) (o : Outside) (g : Nat) (c : Channel.Closing) (i : Bool) :
    burden Resume.weight (l.settle g c i o).pending < 2 := by
  unfold settle
  split
  · simp [burden]
  split
  · split
    · simp [tryLater, Step.pending, burden]
    · simp [report, Step.pending, burden, Resume.weight]
  · simp [report, Step.pending, burden, Resume.weight]

theorem resume_weight (l : Link) (o : Outside) (x : Resume) :
    burden Resume.weight (l.resume o x).pending < x.weight := by
  cases x with
  | nothing => simp [resume, burden, Resume.weight]
  | deny => simp [resume, deny, report, Step.pending, burden, Resume.weight]
  | retry g =>
    simp only [resume, retry]
    split
    · simp [tryLater, Step.pending, burden, Resume.weight]
    · simp [burden, Resume.weight]
  | settle g c i => exact settle_weight l o g c i
  | abandon g =>
    simp only [resume, abandon, closed, enter]
    split
    · split
      · exact (settle_weight _ o _ _ _).trans (Nat.lt_succ_self 2)
      · simp [Step.pending, burden, Resume.weight]
    · simp [burden, Resume.weight]
  | dial g =>
    simp only [resume, dial, enter]
    split
    · split
      · split <;> simp [deny, report, Step.pending, burden, Resume.weight]
      · split <;> simp [report, Step.after, Step.pending, burden, Resume.weight]
    · simp [burden, Resume.weight]

def Record.command? : Record → Option Command
  | .command c => some c
  | .call _ | .frame _ | .reset => none

/-- The fault that the step reports. -/
def Step.faults (s : Step) : List Fault :=
  (s.pause.map (Record.call ·.1)).toList.filterMap Record.fault?

theorem Step.filterMap_command?_records (s : Step) :
    s.records.filterMap Record.command? = s.commands := by
  have hcall : (s.pause.map (Record.call ·.1)).toList.filterMap Record.command? = [] := by
    cases s.pause <;> rfl
  have hcommands : (s.commands.map Record.command).filterMap Record.command? = s.commands := by
    simp [List.filterMap_map, Function.comp_def, Record.command?]
  rw [Step.records, List.filterMap_append, hcall, hcommands, List.append_nil]

theorem Step.filterMap_fault?_records (s : Step) :
    s.records.filterMap Record.fault? = s.faults := by
  have hcommands : (s.commands.map Record.command).filterMap Record.fault? = [] := by
    simp [List.filterMap_map, Function.comp_def, Record.fault?]
  rw [Step.records, List.filterMap_append, hcommands, List.nil_append, Step.faults]

namespace Run

variable {id : Nat} {source : Bytes} {backoff : Backoff} {r r' : Run} {a : Answers} {i : Nat}
  {commands : List Command} {faults : List Fault}

def weight (r : Run) : Nat := burden Resume.weight r.stack

theorem weight_eq_zero : r.weight = 0 ↔ r.stack = [] := burden_eq_zero Resume.weight_pos

theorem step_of_gone (hl : r.link = none) (a : Answers) :
    r.step a .returned = { r with stack := r.stack.tail } := by
  simp [step, hl]

theorem returned_lessens (a : Answers) : Lessens (step · a .returned) weight where
  lt r hr := by
    obtain ⟨x, stack, hx⟩ := List.exists_cons_of_ne_nil fun hs ↦ hr (weight_eq_zero.2 hs)
    have hpos := x.weight_pos
    cases hl : r.link with
    | none =>
      simp only [weight, step_of_gone hl, hx, List.tail_cons, burden]
      omega
    | some l =>
      have hlt := resume_weight l (r.ledger.outside a) x
      rw [step_returned hl hx]
      simp only [weight, hx, take, burden_append, burden]
      omega
  fixed r hr := by
    have hs := weight_eq_zero.1 hr
    cases hl : r.link with
    | none =>
      rw [step_of_gone hl]
      cases r
      cases hs
      rfl
    | some l => simp [step, hl, act, hs]

/-- The owner returns from every callback. -/
def finish (r : Run) (a : Answers) : Run := runDown (step · a .returned) weight r

/-- Something happens to the link, and the owner returns from every callback. -/
def meet (r : Run) (a : Answers) (m : Move) : Run := (r.step a m).finish a

theorem stack_finish (r : Run) (a : Answers) : (r.finish a).stack = [] :=
  weight_eq_zero.1 ((returned_lessens a).runDown_measure r)

theorem stack_meet (r : Run) (a : Answers) (m : Move) : (r.meet a m).stack = [] := stack_finish _ a

theorem finish_of_nil (hs : r.stack = []) : r.finish a = r := runDown_of_zero (weight_eq_zero.2 hs)

theorem finish_cons {stack : List Resume} {x : Resume} (hl : r.link = some l)
    (hs : r.stack = x :: stack) :
    r.finish a = ({ r with stack }.take (l.resume (r.ledger.outside a) x)).finish a := by
  rw [← step_returned hl hs]
  exact (returned_lessens a).runDown_step r

theorem Upheld.meet (h : r.Upheld id source backoff) (a : Answers) (m : Move) :
    (r.meet a m).Upheld id source backoff := by
  refine runDown_induction (P := Run.Upheld id source backoff) (fun r h ↦ ?_) (h.step a m)
  exact h.step a .returned

/-! ## What a link says on the way -/

/-- From `r` on to `r'` the link has given these commands and reported these faults. -/
def Gives (r r' : Run) (commands : List Command) (faults : List Fault) : Prop :=
  ∃ records, r'.records = r.records ++ records ∧ records.filterMap Record.command? = commands ∧
    records.filterMap Record.fault? = faults

theorem Gives.refl (r : Run) : r.Gives r [] [] := ⟨[], by simp, rfl, rfl⟩

theorem Gives.trans {r'' : Run} {more : List Command} {others : List Fault}
    (h : r.Gives r' commands faults) (h' : r'.Gives r'' more others) :
    r.Gives r'' (commands ++ more) (faults ++ others) := by
  obtain ⟨records, hr, rfl, rfl⟩ := h
  obtain ⟨records', hr', rfl, rfl⟩ := h'
  refine ⟨records ++ records', ?_, List.filterMap_append, List.filterMap_append⟩
  rw [hr', hr, List.append_assoc]

theorem Gives.take (h : r.Gives r' commands faults) (s : Step) :
    r.Gives (r'.take s) (commands ++ s.commands) (faults ++ s.faults) :=
  h.trans ⟨s.records, rfl, s.filterMap_command?_records, s.filterMap_fault?_records⟩

theorem Gives.note (h : r.Gives r' commands faults) {x : Record} (hc : x.command? = none)
    (hf : x.fault? = none) : r.Gives (r'.note x) commands faults := by
  have hnote : r'.Gives (r'.note x) [] [] := ⟨[x], rfl, by simp [hc], by simp [hf]⟩
  simpa using h.trans hnote

/-! ## Notices of the held channel -/

theorem finish_take (hs : r.stack = []) {s : Step} (hp : ∀ x ∈ s.pending, x = .nothing) :
    (r.take s).finish a = { r.take s with stack := [] } := by
  cases hpause : s.pause with
  | none =>
    have hstack : (r.take s).stack = [] := by simp [take, Step.pending, hpause, hs]
    rw [finish_of_nil hstack, ← hstack]
  | some p =>
    have hp : p.2 = .nothing := hp p.2 (by simp [Step.pending, hpause])
    have hstack : (r.take s).stack = [.nothing] := by simp [take, Step.pending, hpause, hs, hp]
    rw [finish_cons rfl hstack, finish_of_nil] <;> simp [Link.resume, take]

theorem Upheld.meet_frame (h : r.Upheld id source backoff) (hs : r.stack = [])
    (hl : r.link = some l) (hi : l.held = some i) (f : Channel.Frame) (a : Answers) :
    r.meet a (.notice i (.frame f)) = r.note (.frame f) := by
  rw [Run.meet, h.step_notice hl hi, Run.hear, if_pos (by simp [hears])]
  exact finish_of_nil hs

theorem Upheld.meet_failed (h : r.Upheld id source backoff) (hs : r.stack = [])
    (hl : r.link = some l) (hi : l.held = some i) (m : Bytes) (a : Answers) :
    (r.meet a (.notice i (.failed m))).link = some { l with reported := true } ∧
      (r.meet a (.notice i (.failed m))).ledger = r.ledger ∧
      r.Gives (r.meet a (.notice i (.failed m))) [] [.channel m] := by
  rw [Run.meet, h.step_notice hl hi, Run.hear, failed_self, finish_take hs (by simp [Step.pending])]
  exact ⟨rfl, rfl, (Gives.refl r).take _⟩

theorem Upheld.meet_opened (h : r.Upheld id source backoff) (hs : r.stack = [])
    (hl : r.link = some l) (hi : l.held = some i) (a : Answers) :
    (r.meet a (.notice i .opened)).link = some { l with attempts := 0, state := .connected } ∧
      (r.meet a (.notice i .opened)).ledger = r.ledger ∧
      r.Gives (r.meet a (.notice i .opened)) [] [] := by
  have hgives : r.Gives (r.note .reset) [] [] := (Gives.refl r).note rfl rfl
  have hid : l.channel.map Channel.Held.id = some i := hi
  rw [Run.meet, h.step_notice hl hi, Run.hear, if_pos hid]
  by_cases hst : l.state = .connected
  · rw [opened_of_connected hst, finish_take (r := r.note .reset) hs (by simp [Step.pending])]
    exact ⟨by simp [take, hst], rfl, hgives.take _⟩
  · rw [opened_of_ne_connected hst, finish_take (r := r.note .reset) hs (by simp [Step.pending])]
    exact ⟨rfl, rfl, hgives.take _⟩

end Run

/-- The link announces the end of its connection, which it has not asked for. -/
def parting (l : Link) (c : Channel.Closing) : Step where
  link := { l with generation := l.generation + 1, channel := none, state := .disconnected }
  pause := some (.state l.state .disconnected, .settle (l.generation + 1) c c.isNormal)

theorem closed_eq_parting (hs : l.state ≠ .disconnected) (hi : l.intentional = false)
    (c : Channel.Closing) : l.closed l.generation c o = l.parting c := by
  simp [closed_of_live hs, parting, hi]

/-- What a link says to the end of its connection. -/
inductive Reacts (l : Link) (c : Channel.Closing) : List Command → List Fault → Prop
  | normal (hn : c.isNormal = true) : Reacts l c [] []
  | retry (hn : c.isNormal = false) (ha : l.attempts < l.backoff.maxAttempts) (alarm : Nat) :
    Reacts l c [.setAlarm alarm (l.backoff.delay l.attempts).toInt (.reopen l.id)]
      (if l.reported then [] else [.closed c.code c.reason])
  | exhausted (hn : c.isNormal = false) (ha : l.attempts = l.backoff.maxAttempts) :
    Reacts l c [] [.retriesExhausted l.attempts c.code]

namespace Run

variable {id : Nat} {source : Bytes} {backoff : Backoff} {r r' : Run} {a : Answers} {i : Nat}
  {commands : List Command} {faults : List Fault}

/-- The link has let go of its channel, with these commands and reports. -/
structure Parts (r r' : Run) (commands : List Command) (faults : List Fault) : Prop where
  link : ∃ l, r'.link = some l ∧ l.channel = none
  opened : r'.ledger.opened = r.ledger.opened
  gives : r.Gives r' commands faults

theorem Parts.after {r'' : Run} {others : List Fault} (h : r'.Parts r'' commands faults)
    (ho : r'.ledger.opened = r.ledger.opened) (hg : r.Gives r' [] others) :
    r.Parts r'' commands (others ++ faults) :=
  ⟨h.link, h.opened.trans ho, hg.trans h.gives⟩

theorem parts_tryLater {b : Run} (hc : l.channel = none)
    (ho : r.ledger.opened = b.ledger.opened) (h : b.Gives r [] faults) (o : Outside) :
    b.Parts (({ r with stack := [] }.take (l.tryLater o)).finish a)
      [.setAlarm o.alarm (l.backoff.delay l.attempts).toInt (.reopen l.id)] faults := by
  have h : b.Gives { r with stack := [] } [] faults := h
  have hgives := h.take (l.tryLater o)
  have hfaults : (l.tryLater o).faults = [] := rfl
  rw [hfaults, List.append_nil] at hgives
  rw [finish_of_nil rfl]
  exact ⟨⟨_, rfl, hc⟩, ho, hgives⟩

theorem finish_retry {b : Run} (hl : r.link = some l) (hc : l.channel = none)
    (hs : r.stack = [.retry l.generation]) (ho : r.ledger.opened = b.ledger.opened)
    (h : b.Gives r [] faults) :
    b.Parts (r.finish a)
      [.setAlarm r.ledger.clock.next (l.backoff.delay l.attempts).toInt (.reopen l.id)] faults := by
  rw [finish_cons hl hs, Link.resume, retry_self]
  exact parts_tryLater hc ho h _

theorem finish_settle {s : Step} (hs : r.stack = []) (hc : s.link.channel = none)
    (ha : s.link.attempts ≤ s.link.backoff.maxAttempts) {c : Channel.Closing}
    (hp : s.pending = [.settle s.link.generation c c.isNormal]) (hcommands : s.commands = [])
    (hfaults : s.faults = []) :
    ∃ commands faults, s.link.Reacts c commands faults ∧
      r.Parts ((r.take s).finish a) commands faults := by
  have hstack : (r.take s).stack = [.settle s.link.generation c c.isNormal] := by
    rw [take, hs, hp, List.append_nil]
  have ho : (r.take s).ledger.opened = r.ledger.opened := by simp [take, hcommands]
  have h : r.Gives { r.take s with stack := [] } [] [] := by
    have h := (Gives.refl r).take s
    rwa [hcommands, hfaults] at h
  rw [finish_cons rfl hstack, Link.resume]
  cases hn : c.isNormal with
  | true =>
    rw [settle_of_intentional, finish_of_nil rfl]
    exact ⟨[], [], .normal hn, ⟨_, rfl, hc⟩, ho, h.take s.link.rest⟩
  | false =>
    rcases Nat.lt_or_eq_of_le ha with ha | ha
    · have hreacts := Reacts.retry hn ha (r.take s).ledger.clock.next
      cases hr : s.link.reported with
      | true =>
        rw [settle_of_reported ha hr]
        rw [hr, if_pos rfl] at hreacts
        exact ⟨_, _, hreacts, parts_tryLater hc ho h _⟩
      | false =>
        rw [settle_of_not_reported ha hr]
        rw [hr, if_neg Bool.false_ne_true] at hreacts
        exact ⟨_, _, hreacts, finish_retry rfl hc rfl ho (h.take _)⟩
    · rw [settle_of_exhausted ha.ge, finish_take rfl (by simp [Step.pending])]
      exact ⟨_, _, .exhausted hn ha, ⟨_, rfl, hc⟩, ho, h.take _⟩

theorem Upheld.meet_closed (h : r.Upheld id source backoff) (hs : r.stack = [])
    (hl : r.link = some l) (hi : l.held = some i) (c : Channel.Closing) (a : Answers) :
    ∃ commands faults, l.Reacts c commands faults ∧
      r.Parts (r.meet a (.notice i (.closed c))) commands faults := by
  have hu := h.link l hl
  have hst : l.state ≠ .disconnected := by
    intro hst
    rw [held_eq_none.2 (hu.sound.disconnected hst)] at hi
    cases hi
  rw [Run.meet, h.step_notice hl hi, Run.hear, closed_eq_parting hst (hu.sound.intentional hst)]
  obtain ⟨commands, faults, hreacts, hparts⟩ :=
    finish_settle (s := l.parting c) (a := a) hs rfl hu.sound.attempts rfl rfl rfl
  refine ⟨commands, faults, ?_, hparts⟩
  cases hreacts with
  | normal hn => exact .normal hn
  | retry hn ha alarm => exact Reacts.retry (l := l) hn ha alarm
  | exhausted hn ha => exact Reacts.exhausted (l := l) hn ha

end Run

end ProgressFeed.Link
