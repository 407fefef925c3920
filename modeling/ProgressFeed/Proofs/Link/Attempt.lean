import ProgressFeed.Proofs.Link.Calls

/-!
# What comes of an attempt to connect

A link at rest that is called, or whose alarm rings, may attempt to connect. It then says so before
it asks for the credential, and asks only once. If its owner does nothing but return, the link ends
up terminal without a credential; without a channel the attempt has failed like a connection that
closes abnormally; and with both there is a new channel, asked for and opened once.
-/

namespace ProgressFeed.Link

def trying (l : Link) : Link := { l.anew with state := .connecting }

/-- The link as an attempt ends for which there is no channel. -/
def thwarted (l : Link) : Link :=
  { l.anew with
    state := .disconnected, reported := true, channel := none, generation := l.generation + 2 }

namespace Run

/-- Callbacks return one after another, and the world has an answer ready for each. -/
def returns (r : Run) (as : List Answers) : Run := r.play (as.map (·, .returned))

/-- What comes of the move depends on the credential. -/
def Asks (r : Run) (m : Move) : Prop := ∃ a token, r.step { a with token } m ≠ r.step a m

/-- From `r` on this has been recorded, and now the link is at rest and like this, and no alarm is
set but its own. -/
structure ComesTo (r r' : Run) (l : Link) (records : List Record) : Prop where
  link : r'.link = some l
  stack : r'.stack = []
  records : r'.records = r.records ++ records
  alarms : ∀ alarm, r'.ledger.clock.isSet alarm = true ↔ l.alarm = some alarm

/-- What has come of the attempt of a link that was `l` before, when `b` is what the world said to
the question for the credential. -/
inductive Outcome (l : Link) (source : Bytes) (b : Answers) (r r' : Run) : Prop
  | denied (ht : b.token = none)
      (h : r.ComesTo r' { l.anew with terminal := true, state := .disconnected }
        [.call (.state .connecting .disconnected), .call (.fault .noCredential)])
  | waits {token : Bytes} {alarm : Nat} (ht : b.token = some token) (hc : b.channel = none)
      (ha : l.attempts < l.backoff.maxAttempts)
      (h : r.ComesTo r'
        { l.thwarted with attempts := l.attempts + 1, alarm := some alarm }
        [.command (.create source token), .call (.fault .noChannel),
          .call (.state .connecting .disconnected),
          .command (.setAlarm alarm (l.backoff.delay l.attempts).toInt (.reopen l.id))])
  | exhausted {token : Bytes} (ht : b.token = some token) (hc : b.channel = none)
      (ha : l.attempts = l.backoff.maxAttempts)
      (h : r.ComesTo r' { l.thwarted with terminal := true }
        [.command (.create source token), .call (.fault .noChannel),
          .call (.state .connecting .disconnected),
          .call (.fault (.retriesExhausted l.attempts Channel.abnormalCode))])
  | opens {token : Bytes} {channel : Nat} {isDuplex : Bool} (ht : b.token = some token)
      (hc : b.channel = some isDuplex)
      (h : r.ComesTo r' { l.trying with channel := some ⟨channel, isDuplex⟩ }
        [.command (.create source token), .command (.open channel ⟨l.id, l.generation + 1⟩)])

/-- With this move a link that was `l` attempts to connect: it gives these commands, and announces
that it connects before it knows the credential. Only when the announcement returns is the
credential asked for, and never again in the attempt, which is over after three more returns. -/
structure Attempts (r : Run) (l : Link) (source : Bytes) (commands : List Command) (m : Move) :
    Prop where
  announced : ∀ a, (r.step a m).records =
    r.records ++ commands.map .command ++ [.call (.state .disconnected .connecting)]
  calm : ∀ a alarm, (r.step a m).ledger.clock.isSet alarm = false
  unasked : ¬ r.Asks m
  asked : ∀ a, (r.step a m).Asks .returned
  once : ∀ a b as, ¬ ((r.step a m).returns (b :: as)).Asks .returned
  outcome : ∀ a b as, 3 ≤ as.length →
    Outcome l source b (r.step a m) ((r.step a m).returns (b :: as))

variable {id : Nat} {source : Bytes} {backoff : Backoff} {r r₁ : Run} {l : Link} {as : List Answers}

theorem returns_cons (r : Run) (a : Answers) (as : List Answers) :
    r.returns (a :: as) = (r.step a .returned).returns as := rfl

theorem returns_of_nil (hs : r.stack = []) (as : List Answers) : r.returns as = r := by
  induction as with
  | nil => rfl
  | cons a as ih =>
    rw [returns_cons, (returned_lessens a).fixed r (weight_eq_zero.2 hs)]
    exact ih

theorem Upheld.returns (h : r.Upheld id source backoff) (as : List Answers) :
    (r.returns as).Upheld id source backoff :=
  play_induction (fun _ a m h ↦ h.step a m) h _

/-! ## Who asks for the credential -/

theorem weight_le_burden {x : Resume} {stack : List Resume} (hx : x ∈ stack) :
    x.weight ≤ burden Resume.weight stack := by
  induction hx with
  | head => exact Nat.le_add_right ..
  | tail _ _ ih => exact ih.trans (Nat.le_add_left ..)

theorem dial_notMem_pending (l : Link) (o : Outside) (x : Resume) (g : Nat) :
    .dial g ∉ (l.resume o x).pending := by
  -- Nothing heavier is left to do than to dial, and what a return leads to is lighter.
  intro hmem
  have hle := weight_le_burden hmem
  have hlt := resume_weight l o x
  have hx : x.weight ≤ 4 := by cases x <;> simp [Resume.weight]
  simp only [Resume.weight] at hle
  omega

theorem dial_notMem_returned (h : ∀ g, .dial g ∉ r.stack) (a : Answers) (g : Nat) :
    .dial g ∉ (r.step a .returned).stack := by
  cases hl : r.link with
  | none =>
    rw [step_of_gone hl]
    exact fun hmem ↦ h g (List.mem_of_mem_tail hmem)
  | some l =>
    cases hs : r.stack with
    | nil =>
      rw [(returned_lessens a).fixed r (weight_eq_zero.2 hs)]
      exact h g
    | cons x stack =>
      rw [step_returned hl hs]
      intro hmem
      rcases List.mem_append.1 hmem with hmem | hmem
      · exact dial_notMem_pending l _ x g hmem
      · exact h g (hs ▸ List.mem_cons_of_mem _ hmem)

theorem dial_notMem_returns (h : ∀ g, .dial g ∉ r.stack) (as : List Answers) (g : Nat) :
    .dial g ∉ (r.returns as).stack := by
  induction as generalizing r with
  | nil => exact h g
  | cons a as ih => exact ih (dial_notMem_returned h a)

theorem not_asks_returned (h : ∀ g, .dial g ∉ r.stack) : ¬ r.Asks .returned := by
  rintro ⟨a, token, hne⟩
  apply hne
  cases hl : r.link with
  | none => rw [step_of_gone hl, step_of_gone hl]
  | some l =>
    cases hs : r.stack with
    | nil =>
      have hzero := weight_eq_zero.2 hs
      rw [(returned_lessens _).fixed r hzero, (returned_lessens _).fixed r hzero]
    | cons x stack =>
      rw [step_returned hl hs, step_returned hl hs]
      cases x with
      | dial g => exact absurd (hs ▸ List.mem_cons_self ..) (h g)
      | nothing | deny | abandon | settle | retry => rfl

theorem asks_returned (hl : r.link = some l) (hst : l.state = .connecting)
    (ht : l.terminal = false) (hs : r.stack = [.dial l.generation]) : r.Asks .returned := by
  -- Without a credential the link becomes terminal, and with one it does not.
  refine ⟨⟨some [], some true, true⟩, none, fun heq ↦ ?_⟩
  rw [step_returned hl hs, step_returned hl hs, Link.resume, Link.resume,
    dial_of_no_token hst rfl, dial_of_channel rfl rfl] at heq
  have hlink := Option.some.inj (congrArg Run.link heq)
  have hterminal : true = l.terminal := congrArg Link.terminal hlink
  simp [ht] at hterminal

/-! ## What comes of dialling -/

theorem ComesTo.intro {r' : Run} {records : List Record} (h : r'.Upheld id source backoff)
    (hl : r'.link = some l) (hs : r'.stack = []) (hr : r'.records = r.records ++ records) :
    r.ComesTo r' l records := ⟨hl, hs, hr, fun _ ↦ h.isSet_iff hl⟩

theorem returns_nothing (hl : r.link = some l) (hs : r.stack = [.nothing]) (a : Answers)
    (as : List Answers) : r.returns (a :: as) = { r with stack := [] } := by
  rw [returns_cons, step_returned hl hs]
  exact (congrArg (Run.returns · as) (take_rest (r := { r with stack := [] }) hl)).trans
    (returns_of_nil rfl as)

/-- The link has said that there is no channel, and what comes now is what comes of an abnormal
close. -/
theorem returns_abandon {m : Link} (hl : r.link = some l) (hst : l.state = .connecting)
    (hi : l.intentional = false) (hs : r.stack = [.abandon l.generation])
    (hm : { l with generation := l.generation + 1, channel := none, state := .disconnected } = m)
    (a : Answers) (as : List Answers) :
    r.returns (a :: as) = ({ r with stack := [] }.take
      { link := m
        pause := some (.state .connecting .disconnected,
          .settle m.generation .unavailable false) }).returns as := by
  have hne : l.state ≠ .disconnected := by simp [hst]
  have hn : Channel.Closing.unavailable.isNormal = false := by decide
  subst hm
  rw [returns_cons, step_returned hl hs, Link.resume, abandon, closed_of_live hne, hi, hst, hn]
  rfl

theorem Upheld.outcome_returns (h : r.Upheld id source backoff) (hl : r.link = some l.trying)
    (hs : r.stack = [.dial l.trying.generation]) (b : Answers) (has : 3 ≤ as.length) :
    Outcome l l.source b r (r.returns (b :: as)) := by
  have hu := h.returns (b :: as)
  have hle : l.attempts ≤ l.backoff.maxAttempts := (h.link _ hl).sound.attempts
  obtain ⟨a₁, a₂, a₃, as, rfl⟩ : ∃ a₁ a₂ a₃ as', as = a₁ :: a₂ :: a₃ :: as' := by
    match as, has with
    | a₁ :: a₂ :: a₃ :: as', _ => exact ⟨a₁, a₂, a₃, as', rfl⟩
  rw [returns_cons, step_returned hl hs, Link.resume] at hu ⊢
  -- The answers are used up one by one; when the link is at rest the others change nothing.
  cases ht : b.token with
  | none =>
    have htoken : (r.ledger.outside b).token = none := ht
    rw [dial_of_no_token rfl htoken, returns_cons, step_returned rfl rfl, Link.resume, deny_eq,
      returns_nothing rfl rfl] at hu ⊢
    exact .denied ht (.intro hu rfl rfl (by simp [take, Step.records]))
  | some token =>
    have htoken : (r.ledger.outside b).token = some token := ht
    cases hb : b.channel with
    | some isDuplex =>
      have hchannel : (r.ledger.outside b).channel = some ⟨r.ledger.opened.length, isDuplex⟩ := by
        simp [Ledger.outside, hb]
      rw [dial_of_channel htoken hchannel, returns_of_nil rfl] at hu ⊢
      exact .opens ht hb (.intro hu rfl rfl (by simp [take, Step.records, trying, anew]))
    | none =>
      have hchannel : (r.ledger.outside b).channel = none := by simp [Ledger.outside, hb]
      rw [dial_of_no_channel htoken hchannel,
        returns_abandon (m := l.thwarted) rfl rfl rfl rfl rfl, returns_cons, step_returned rfl rfl,
        Link.resume] at hu ⊢
      rcases hle.lt_or_eq with hlt | heq
      · rw [settle_of_reported (l := l.thwarted) hlt rfl, returns_of_nil rfl] at hu ⊢
        refine .waits ht hb hlt (.intro hu rfl rfl ?_)
        simp [take, tryLater, Step.records, trying, thwarted, anew]
      · rw [settle_of_exhausted (l := l.thwarted) heq.ge, returns_nothing rfl rfl] at hu ⊢
        refine .exhausted ht hb heq (.intro hu rfl rfl ?_)
        simp [take, Step.records, trying, thwarted, anew, Channel.Closing.unavailable]

/-- It is the same whether the link was called or its alarm has rung. -/
theorem Upheld.attempts_of_step {m : Move} {commands : List Command}
    (h : r₁.Upheld id source backoff) (hstep : ∀ a, r.step a m = r₁)
    (hl : r₁.link = some l.trying) (ht : l.terminal = false)
    (hs : r₁.stack = [.dial l.trying.generation])
    (hr : r₁.records =
      r.records ++ commands.map .command ++ [.call (.state .disconnected .connecting)]) :
    r.Attempts l l.source commands m where
  announced a := by rw [hstep, hr]
  calm a alarm := by
    rw [hstep]
    have hiff : r₁.ledger.clock.isSet alarm = true ↔ l.trying.alarm = some alarm := h.isSet_iff hl
    simpa [trying, anew] using hiff
  unasked := by
    rintro ⟨a, token, hne⟩
    exact hne ((hstep _).trans (hstep a).symm)
  asked a := by
    rw [hstep]
    exact asks_returned hl rfl ht hs
  once a b as := by
    rw [hstep, returns_cons]
    refine not_asks_returned (dial_notMem_returns (fun g hmem ↦ ?_) as)
    rw [step_returned hl hs, take, List.append_nil] at hmem
    exact dial_notMem_pending _ _ _ g hmem
  outcome a b as has := by
    rw [hstep]
    exact h.outcome_returns hl hs b has

/-! ## The beginning of an attempt -/

theorem step_connect_of_disconnected (hl : r.link = some l) (ht : l.terminal = false)
    (hst : l.state = .disconnected) (a : Answers) :
    r.step a .connect = r.take
      { link := l.trying
        commands := l.stopCommand
        pause := some (.state .disconnected .connecting, .dial l.trying.generation) } := by
  simp only [Run.step, hl, Run.act, connect_of_disconnected ht hst]
  rfl

theorem Upheld.attempts_connect (h : r.Upheld id source backoff) (hl : r.link = some l)
    (hs : r.stack = []) (hb : l.isBusy = false) :
    r.Attempts l l.source l.stopCommand .connect := by
  have ht := (isBusy_eq_false.1 hb).1
  have hst := h.disconnected_of_idle hl hs hb
  have hstep := step_connect_of_disconnected hl ht hst
  have h₁ := h.step {} .connect
  rw [hstep] at h₁
  refine h₁.attempts_of_step hstep rfl ht ?_ ?_
  · simp [take, Step.pending, hs]
  · simp [take, Step.records]

/-- A link that waits is apart, and its alarm has been taken off when it takes notice. -/
theorem Upheld.attempts_ring (h : r.Upheld id source backoff) (hl : r.link = some l)
    (hs : r.stack = []) {alarm : Nat} (hset : r.ledger.clock.isSet alarm = true) :
    r.Attempts l l.source [] (.ring alarm) := by
  have hal := (h.isSet_iff hl).1 hset
  have hsound := (h.link l hl).sound
  obtain ⟨hst, ht, -⟩ := hsound.alarm (by simp [hal])
  have hstep : ∀ a, r.step a (.ring alarm) = (r.calmed l alarm).take
      { link := l.trying
        commands := []
        pause := some (.state .disconnected .connecting, .dial l.trying.generation) } :=
    fun a ↦ (h.step_ring hl hal a).trans
      (step_connect_of_disconnected (l := { l with alarm := none }) rfl ht hst a)
  have h₁ := h.step {} (.ring alarm)
  rw [hstep] at h₁
  refine h₁.attempts_of_step hstep rfl ht ?_ ?_
  · simp [take, Run.calmed, Step.pending, hs]
  · simp [take, Run.calmed, Step.records]

theorem Attempts.step_ne {m : Move} {commands : List Command}
    (h : r.Attempts l source commands m) (a : Answers) : r.step a m ≠ r := by
  intro heq
  have hr := congrArg List.length (h.announced a)
  rw [heq] at hr
  simp at hr

end Run

open Run

/-- Whatever has been called before, at rest: a call to connect changes nothing just when the link
is terminal, is connected, or is connecting by a channel. Otherwise, and whenever the alarm rings,
it stops its alarm, announces that it connects, asks for the credential once, and has one of these
outcomes: there is no credential, and it is terminal, having reported just that; there is no
channel, and it reports that, and waits for another attempt or has no retries left; or there is a
channel, made from its source and that credential, which it opens once, without losing a retry. -/
theorem connect_outcome (id : Nat) (source : Bytes) (backoff : Backoff)
    (moves : List (Answers × Move)) (l : Link)
    (hl : ((start id source backoff).play moves).link = some l)
    (hs : ((start id source backoff).play moves).stack = []) :
    let r := (start id source backoff).play moves
    let IsBusy := l.terminal = true ∨ l.state = .connected ∨
      l.state = .connecting ∧ l.channel.isSome = true
    ((∀ a, r.step a .connect = r) ↔ IsBusy) ∧
    (¬ IsBusy → r.Attempts l source l.stopCommand .connect) ∧
    ∀ alarm, r.ledger.clock.isSet alarm = true → r.Attempts l source [] (.ring alarm) := by
  intro r IsBusy
  have hu : r.Upheld id source backoff := upheld_play id source backoff moves
  have hbusy : l.isBusy = true ↔ IsBusy := by simp [IsBusy, isBusy, or_assoc]
  have hsource : l.source = source := (hu.self l hl).2.1
  have hattempts (hb : ¬ IsBusy) : r.Attempts l source l.stopCommand .connect := by
    have hidle : l.isBusy = false := Bool.eq_false_iff.2 (mt hbusy.1 hb)
    exact hsource ▸ hu.attempts_connect hl hs hidle
  refine ⟨⟨fun hsame ↦ ?_, fun hb ↦ step_connect_of_isBusy hl (hbusy.2 hb)⟩, hattempts,
    fun alarm hset ↦ hsource ▸ hu.attempts_ring hl hs hset⟩
  by_contra hb
  exact (hattempts hb).step_ne {} (hsame {})

/-- The two channels have broken; the owner calls before the alarm rings, and the credential has
been lost meanwhile. -/
theorem connect_outcome_lost :
    ((start 0 [] {}).play brokenMoves).stack = [] ∧
      ∃ l, ((start 0 [] {}).play brokenMoves).link = some l ∧ l.stopCommand = [.stopAlarm 0] ∧
        ∀ a as, 3 ≤ as.length → Outcome l [] {} (((start 0 [] {}).play brokenMoves).step a .connect)
          ((((start 0 [] {}).play brokenMoves).step a .connect).returns ({} :: as)) := by
  refine ⟨rfl, _, rfl, rfl, fun a as has ↦ ?_⟩
  exact ((connect_outcome 0 [] {} brokenMoves _ rfl rfl).2.1 (by decide)).outcome a {} as has

end ProgressFeed.Link
