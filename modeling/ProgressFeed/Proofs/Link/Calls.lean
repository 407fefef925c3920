import ProgressFeed.Proofs.Link.Finish

/-!
# What calls and alarms lead to

A link at rest that is called, or whose alarm rings, and whose owner only returns from callbacks,
goes on with the channel that it holds, or opens one when it holds none, or lets go of the one that
it holds. No wait comes of that, and no report but that of a missing credential.
-/

namespace ProgressFeed

/-- A command that neither makes or ends a channel nor sets an alarm. -/
def Command.IsSlight : Command → Prop
  | .send .. | .stopAlarm _ => True
  | .create .. | .open .. | .close .. | .setAlarm .. | .fetch .. => False

theorem Command.IsSlight.isAside {c : Command} (h : c.IsSlight) : c.IsAside := by
  cases c with
  | send | stopAlarm => trivial
  | create | «open» | close | setAlarm | fetch => exact h.elim

namespace Link

variable {l : Link}

theorem isSlight_stopCommand : ∀ c ∈ l.stopCommand, c.IsSlight := by
  cases h : l.alarm <;> simp [stopCommand, h, Command.IsSlight]

namespace Run

variable {id : Nat} {source : Bytes} {backoff : Backoff} {r r' : Run} {a : Answers} {i : Nat}
  {commands : List Command} {faults : List Fault}

/-- The connection that the link has is not reported. -/
def IsClean (r : Run) : Prop := ∀ l, r.link = some l → l.channel ≠ none → l.reported = false

theorem isClean_of_held (h : r.held = none) : r.IsClean := by
  intro l hl hc
  exact absurd (held_eq_none.1 (by simpa [held, hl] using h)) hc

/-- What a call or an alarm leads to. -/
inductive Serves (r r' : Run) : Prop
  | stays {commands : List Command} {faults : List Fault} (hc : ∀ c ∈ commands, c.IsSlight)
      (hf : ∀ f ∈ faults, f.kind = .authentication) (hheld : r'.held = r.held)
      (ho : r'.ledger.opened = r.ledger.opened) (hclean : r.IsClean → r'.IsClean)
      (hgives : r.Gives r' commands faults)
  | opens {commands : List Command} {source token : Bytes} {stamp : Stamp}
      (hc : ∀ c ∈ commands, c.IsSlight) (hnone : r.held = none)
      (hheld : r'.held = some r.ledger.opened.length)
      (ho : r'.ledger.opened = r.ledger.opened ++ [stamp]) (hclean : r'.IsClean)
      (hgives : r.Gives r'
        (commands ++ [.create source token, .open r.ledger.opened.length stamp]) [])
  | leaves {commands : List Command} (hc : ∀ c ∈ commands, c.IsSlight) (hheld : r'.held = none)
      (ho : r'.ledger.opened = r.ledger.opened)
      (hgives : r.Gives r' (commands ++ (r.held.map (Command.close · .byOwner)).toList) [])

theorem Serves.refl (r : Run) : r.Serves r :=
  .stays (by simp) (by simp) rfl rfl (fun h ↦ h) (.refl r)

/-- What only stops an alarm before does not matter. -/
theorem Serves.of_like {r₁ : Run} (h : r₁.Serves r') (hheld : r₁.held = r.held)
    (ho : r₁.ledger.opened = r.ledger.opened) (hrecords : r₁.records = r.records)
    (hclean : r.IsClean → r₁.IsClean) : r.Serves r' := by
  have hgives : ∀ {commands faults}, r₁.Gives r' commands faults → r.Gives r' commands faults := by
    intro commands faults hg
    simpa only [Gives, hrecords] using hg
  cases h with
  | stays hc hf h₁ h₂ h₃ h₄ =>
    exact .stays hc hf (h₁.trans hheld) (h₂.trans ho) (h₃ ∘ hclean) (hgives h₄)
  | opens hc h₁ h₂ h₃ h₄ h₅ =>
    rw [ho] at h₂ h₃ h₅
    exact .opens hc (hheld ▸ h₁) h₂ h₃ h₄ (hgives h₅)
  | leaves hc h₁ h₂ h₃ =>
    rw [hheld] at h₃
    exact .leaves hc h₁ (h₂.trans ho) (hgives h₃)

theorem step_of_none (hl : r.link = none) (hs : r.stack = []) (a : Answers) (m : Move) :
    r.step a m = r := by
  cases r
  cases hl
  cases hs
  simp [step]

theorem serves_of_step {m : Move} (hs : r.stack = []) (h : r.step a m = r) :
    r.Serves (r.meet a m) := by
  rw [Run.meet, h, finish_of_nil hs]
  exact .refl r

theorem serves_dial (hs : r.stack = []) (hnone : r.held = none) {s : Step}
    (hp : s.pending = [.dial s.link.generation]) (hst : s.link.state = .connecting)
    (hc : s.link.channel = none) (hr : s.link.reported = false)
    (hslight : ∀ c ∈ s.commands, c.IsSlight) (hfaults : s.faults = []) {isDuplex : Bool}
    (ha : a.channel = some isDuplex) : r.Serves ((r.take s).finish a) := by
  have hstack : (r.take s).stack = [.dial s.link.generation] := by
    rw [take, hs, hp, List.append_nil]
  have ho : (r.take s).ledger.opened = r.ledger.opened :=
    Ledger.opened_obeyAll_of_isAside fun c hm ↦ (hslight c hm).isAside
  have h : r.Gives { r.take s with stack := [] } s.commands [] := by
    have h := (Gives.refl r).take s
    rwa [hfaults] at h
  rw [finish_cons rfl hstack, Link.resume]
  cases htoken : a.token with
  | none =>
    rw [dial_of_no_token hst htoken, finish_cons rfl rfl, Link.resume, deny_eq,
      finish_take rfl (by simp [Step.pending])]
    refine .stays ?_ ?_ ?_ ho ?_ ((h.take _).take _)
    · simpa using hslight
    · simp [Step.faults, Record.fault?, Fault.noCredential]
    · rw [hnone]
      simp [held, Link.held, take, hc]
    · intro _
      exact isClean_of_held (by simp [held, Link.held, take, hc])
  | some token =>
    have hchannel : ((r.take s).ledger.outside a).channel =
        some ⟨r.ledger.opened.length, isDuplex⟩ := by
      simp [Ledger.outside, ha, ho]
    rw [dial_of_channel htoken hchannel, finish_of_nil rfl]
    refine .opens hslight hnone rfl ?_ ?_ (h.take _)
    · simp [take, Ledger.obey, ← ho]
    · rintro _ ⟨⟩ _
      exact hr

/-- At rest, a link that is not busy is apart. -/
theorem Upheld.disconnected_of_idle (h : r.Upheld id source backoff) (hl : r.link = some l)
    (hs : r.stack = []) (hb : l.isBusy = false) : l.state = .disconnected := by
  obtain ⟨-, hn, hc⟩ := isBusy_eq_false.1 hb
  cases hst : l.state with
  | disconnected => rfl
  | connected => exact absurd hst hn
  | connecting =>
    have hmem := (h.link l hl).held.dialing hst (hc hst)
    simp [hs, generations] at hmem

theorem step_connect_of_isBusy (hl : r.link = some l) (hb : l.isBusy = true) (a : Answers) :
    r.step a .connect = r := by
  simp only [Run.step, hl, Run.act, connect_of_isBusy hb, take_rest hl]

theorem Upheld.serves_connect (h : r.Upheld id source backoff) (hs : r.stack = []) {isDuplex : Bool}
    (ha : a.channel = some isDuplex) : r.Serves (r.meet a .connect) := by
  cases hl : r.link with
  | none => exact serves_of_step hs (step_of_none hl hs _ _)
  | some l =>
    by_cases hb : l.isBusy = true
    · exact serves_of_step hs (step_connect_of_isBusy hl hb a)
    have hidle : l.isBusy = false := Bool.eq_false_iff.2 hb
    have hst := h.disconnected_of_idle hl hs hidle
    have hc := (h.link l hl).sound.disconnected hst
    have hnone : r.held = none := by simp [held, hl, Link.held, hc]
    simp only [Run.meet, Run.step, hl, Run.act]
    rw [connect_of_disconnected (isBusy_eq_false.1 hidle).1 hst]
    exact serves_dial hs hnone rfl rfl hc rfl isSlight_stopCommand rfl ha

theorem Upheld.isSet_iff (h : r.Upheld id source backoff) (hl : r.link = some l) {alarm : Nat} :
    r.ledger.clock.isSet alarm = true ↔ l.alarm = some alarm := by
  have hu := h.link l hl
  constructor
  · intro hset
    have hmem := h.mem_setFor hl hset
    rw [hu.alarmed] at hmem
    exact Option.mem_toList.1 hmem
  · intro hal
    have hmem : alarm ∈ r.ledger.clock.setFor (.reopen l.id) := by simp [hu.alarmed, hal]
    obtain ⟨x, hx, -, hxa⟩ := Clock.mem_setFor.1 hmem
    exact List.any_eq_true.2 ⟨x, hx, by simpa using hxa⟩

/-- The run as the alarm of the link leaves it, before the link takes notice. -/
def calmed (r : Run) (l : Link) (alarm : Nat) : Run :=
  { r with
    link := some { l with alarm := none }
    ledger := { r.ledger with clock := r.ledger.clock.stop alarm } }

theorem Upheld.calmed (h : r.Upheld id source backoff) (hl : r.link = some l) {alarm : Nat}
    (hal : l.alarm = some alarm) : (r.calmed l alarm).Upheld id source backoff := by
  have hself := h.self l hl
  refine ⟨h.ledger.obey (c := .stopAlarm alarm) trivial, ?_, ?_⟩
  · rintro _ ⟨⟩
    exact hself
  · rintro _ ⟨⟩
    exact (h.link l hl).calm hal

/-- The alarm that rings is the one that the link has set, and the link then connects. -/
theorem Upheld.step_ring (h : r.Upheld id source backoff) (hl : r.link = some l) {alarm : Nat}
    (hal : l.alarm = some alarm) (a : Answers) :
    r.step a (.ring alarm) = (r.calmed l alarm).step a .connect := by
  have hset : r.ledger.clock.isSet alarm = true := (h.isSet_iff hl).2 hal
  simp [Run.step, hl, Run.act, hset, rang_of_alarm hal, take, Run.calmed]

theorem Upheld.serves_ring (h : r.Upheld id source backoff) (hs : r.stack = []) {isDuplex : Bool}
    (ha : a.channel = some isDuplex) (alarm : Nat) : r.Serves (r.meet a (.ring alarm)) := by
  cases hl : r.link with
  | none => exact serves_of_step hs (step_of_none hl hs _ _)
  | some l =>
    by_cases hset : r.ledger.clock.isSet alarm = true
    · have hal := (h.isSet_iff hl).1 hset
      have hserves := (h.calmed hl hal).serves_connect hs ha
      rw [Run.meet, h.step_ring hl hal]
      refine hserves.of_like ?_ rfl rfl fun hclean ↦ ?_
      · simp [Run.calmed, held, hl, Link.held]
      · rintro _ ⟨⟩ hc
        exact hclean l hl hc
    · exact serves_of_step hs (by simp [Run.step, hl, Run.act, hset])

theorem commands_farewell (hl : r.link = some l) :
    l.farewell = l.stopCommand ++ (r.held.map (Command.close · .byOwner)).toList := by
  cases hc : l.channel <;> simp [farewell, held, hl, Link.held, hc]

theorem serves_disconnect (hs : r.stack = []) (a : Answers) :
    r.Serves (r.meet a .disconnect) := by
  cases hl : r.link with
  | none => exact serves_of_step hs (step_of_none hl hs _ _)
  | some l =>
    have hgives : r.Gives (r.note .reset) [] [] := (Gives.refl r).note rfl rfl
    have hfaults : l.disconnect.faults = [] := by
      by_cases hst : l.state = .disconnected
      · rw [disconnect_of_disconnected hst]
        rfl
      · rw [disconnect_of_live hst]
        rfl
    have hp : ∀ x ∈ l.disconnect.pending, x = .nothing := by
      by_cases hst : l.state = .disconnected
      · simp [disconnect_of_disconnected hst, Step.pending]
      · simp [disconnect_of_live hst, Step.pending]
    simp only [Run.meet, Run.step, hl, Run.act]
    rw [finish_take (r := r.note .reset) hs hp]
    refine .leaves (isSlight_stopCommand (l := l)) ?_ ?_ ?_
    · simp [held, Link.held, take, apart]
    · simp [take, note, opened_farewell]
    · have h := hgives.take l.disconnect
      rw [disconnect_commands, hfaults, commands_farewell hl] at h
      exact h

theorem gives_give (r : Run) (commands : List Command) : r.Gives (r.give commands) commands [] := by
  refine ⟨commands.map .command, rfl, ?_, ?_⟩
  · simp [List.filterMap_map, Function.comp_def, Record.command?]
  · simp [List.filterMap_map, Function.comp_def, Record.fault?]

theorem serves_drop (hs : r.stack = []) (a : Answers) : r.Serves (r.meet a .drop) := by
  cases hl : r.link with
  | none => exact serves_of_step hs (step_of_none hl hs _ _)
  | some l =>
    have hgives : r.Gives { r.give l.farewell with link := none } l.farewell [] :=
      gives_give r l.farewell
    simp only [Run.meet, Run.step, hl, Run.act]
    rw [finish_of_nil (r := { r.give l.farewell with link := none }) hs]
    refine .leaves (isSlight_stopCommand (l := l)) rfl opened_farewell ?_
    rw [← commands_farewell hl]
    exact hgives

theorem serves_send (hs : r.stack = []) (payload : Bytes) (a : Answers) :
    r.Serves (r.meet a (.send payload)) := by
  cases hl : r.link with
  | none => exact serves_of_step hs (step_of_none hl hs _ _)
  | some l =>
    have hslight : ∀ c ∈ (l.send payload (r.ledger.outside a)).2, c.IsSlight := by
      unfold Link.send
      split <;> simp [Command.IsSlight]
    have ho := Ledger.opened_obeyAll_of_isAside (w := r.ledger) fun c hm ↦ (hslight c hm).isAside
    simp only [Run.meet, Run.step, hl, Run.act]
    rw [finish_of_nil (r := r.give _) hs]
    exact .stays hslight (by simp) rfl ho (fun h ↦ h) (gives_give r _)

end Run

end Link

end ProgressFeed
