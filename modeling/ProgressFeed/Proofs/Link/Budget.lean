import ProgressFeed.Proofs.Link.Missing
import ProgressFeed.Proofs.Link.Retries
import ProgressFeed.Proofs.Link.Stale
import ProgressFeed.Proofs.Link.Terminal

/-!
# The retry budget of a link

An abnormal end of a connection to which nobody answers by a call costs one retry, or the link when
none is left.
-/

namespace ProgressFeed.Link

/-- The owner answers to a callback by a call that changes the link. -/
def Move.isAnswer : Move → Bool
  | .connect | .disconnect | .drop => true
  | .send _ | .notice .. | .ring _ | .returned => false

def Record.fault? : Record → Option Fault
  | .call (.fault f) => some f
  | .call (.state ..) | .command _ | .frame _ | .reset => none

/-- The reports of an exhausted budget. -/
def exhaustions (records : List Record) : List Fault :=
  (records.filterMap Record.fault?).filter (·.kind == .exhausted)

namespace Run

/-- Until no more than so many callbacks are under way, the owner does not answer. -/
inductive Unanswered (depth : Nat) : Run → Run → Prop
  | done {r : Run} : r.stack.length = depth → Unanswered depth r r
  | move {r r' : Run} {m : Move} (a : Answers) : depth < r.stack.length → m.isAnswer = false →
      Unanswered depth (r.step a m) r' → Unanswered depth r r'

/-- Unless the owner answers, `P` holds as soon as no more than so many callbacks are under way. -/
def Ends (depth : Nat) (P : Run → Prop) (r : Run) : Prop :=
  (∃ r', Unanswered depth r r') ∧ ∀ r', Unanswered depth r r' → P r'

/-- A run has gone on by records that set alarms for these waits and report these exhaustions. -/
def Adds (before : List Record) (delays : List Int) (faults : List Fault) (r : Run) : Prop :=
  ∃ more, r.records = before ++ more ∧ more.filterMap Record.delay? = delays ∧
    exhaustions more = faults

/-- The link has set one alarm, for this wait, and has one retry less before it. -/
def TriesAgain (wait : Int) (attempts : Nat) (before r : Run) : Prop :=
  Adds before.records [wait] [] r ∧
    ∃ l, r.link = some l ∧ l.terminal = false ∧ l.isWaiting = true ∧ l.attempts = attempts + 1

/-- The link has set no alarm, is terminal, and has said so once, with the code of the close. -/
def GivesUp (attempts : Nat) (code : UInt16) (before r : Run) : Prop :=
  Adds before.records [] [.retriesExhausted attempts code] r ∧
    ∃ l, r.link = some l ∧ l.terminal = true ∧ l.isWaiting = false

variable {id : Nat} {source : Bytes} {backoff : Backoff} {r : Run} {l : Link} {depth : Nat}
  {P : Run → Prop}

/-! ## Unanswered callbacks -/

theorem Ends.done (hd : r.stack.length = depth) (h : P r) : Ends depth P r := by
  refine ⟨⟨r, .done hd⟩, fun r' hr ↦ ?_⟩
  cases hr with
  | done => exact h
  | move a hlt => omega

/-- A link that holds no channel and waits for no alarm takes no notice of anything. -/
theorem step_of_quiet (h : r.Upheld id source backoff) (hl : r.link = some l)
    (hc : l.channel = none) (ha : l.alarm = none) (a : Answers) {m : Move}
    (hm : m.isAnswer = false) (hr : m ≠ .returned) : r.step a m = r := by
  have hu := h.link l hl
  have hself := h.self l hl
  cases m with
  | connect | disconnect | drop => cases hm
  | returned => exact absurd rfl hr
  | send payload =>
    have hs : l.state ≠ .connected := fun hs ↦ (hu.sound.connected hs).1 hc
    have hgive : r.step a (.send payload) = r.give [] := by
      simp [Run.step, hl, Run.act, Link.send, sender?, hs]
    simp [hgive, give]
  | notice channel n => exact h.step_stale (by simp [held, hl, Link.held, hc]) n a
  | ring alarm =>
    have hset : r.ledger.clock.isSet alarm = false := by
      by_contra hset
      have hset : r.ledger.clock.isSet alarm = true := by simpa using hset
      obtain ⟨x, hx, -⟩ := List.any_eq_true.1 hset
      have hm : x.id ∈ r.ledger.clock.setFor (.reopen l.id) :=
        Clock.mem_setFor.2 ⟨x, hx, by rw [h.ledger.alarms x hx, hself.1], rfl⟩
      simp [hu.alarmed, ha] at hm
    simp [Run.step, hl, Run.act, hset]

/-- With a quiet link, all that can happen is that the innermost callback returns. -/
theorem Ends.returned (h : r.Upheld id source backoff) (hl : r.link = some l)
    (hc : l.channel = none) (ha : l.alarm = none) (hd : depth < r.stack.length)
    (hr : ∀ a, Ends depth P (r.step a .returned)) : Ends depth P r := by
  constructor
  · obtain ⟨r', hr'⟩ := (hr {}).1
    exact ⟨r', .move {} hd rfl hr'⟩
  · intro r' hr'
    obtain ⟨s, hs⟩ : ∃ s, s = r := ⟨r, rfl⟩
    rw [← hs] at hr'
    -- Up to the return of the callback, every move has left the run as it was.
    induction hr' with
    | done he =>
      subst hs
      omega
    | @move s r' m a hlt hm hrest ih =>
      subst hs
      by_cases hret : m = .returned
      · subst hret
        exact (hr a).2 r' hrest
      · exact ih (step_of_quiet h hl hc ha a hm hret)

theorem Adds.refl (r : Run) : Adds r.records [] [] r := ⟨[], by simp, rfl, rfl⟩

theorem Adds.take {before : List Record} {delays : List Int} {faults : List Fault}
    (h : Adds before delays faults r) (s : Step) :
    Adds before (delays ++ s.delays) (faults ++ exhaustions s.records) (r.take s) := by
  obtain ⟨more, hr, hd, hf⟩ := h
  refine ⟨more ++ s.records, ?_, ?_, ?_⟩
  · simp [Run.take, hr]
  · rw [List.filterMap_append, hd, s.filterMap_delay?_records]
  · simp [exhaustions, List.filterMap_append, ← hf]

theorem step_returned {stack : List Resume} {resume : Resume} (hl : r.link = some l)
    (hs : r.stack = resume :: stack) (a : Answers) :
    r.step a .returned = { r with stack }.take (l.resume (r.ledger.outside a) resume) := by
  simp [Run.step, hl, Run.act, hs]

/-! ## The end of a connection -/

theorem triesAgain_take {before : Run} {stack : List Resume} (hadds : Adds before.records [] [] r)
    (ht : l.terminal = false) (o : Outside) :
    TriesAgain (l.backoff.delay l.attempts).toInt l.attempts before ({ r with stack }.take (l.tryLater o)) := by
  have htake : Adds before.records [] [] { r with stack } := hadds
  exact ⟨htake.take (l.tryLater o), _, rfl, ht, rfl, rfl⟩

theorem ends_settle {before : Run} {stack : List Resume} {c : Channel.Closing}
    (h : r.Upheld id source backoff) (hl : r.link = some l)
    (hs : r.stack = .settle l.generation c false :: stack) (hadds : Adds before.records [] [] r) :
    (l.attempts < l.backoff.maxAttempts →
      Ends stack.length (TriesAgain (l.backoff.delay l.attempts).toInt l.attempts before) r) ∧
    (l.attempts = l.backoff.maxAttempts →
      Ends stack.length (GivesUp l.attempts c.code before) r) := by
  have hu := h.link l hl
  obtain ⟨hst, ha, ht⟩ := hu.held.fits (.settle l.generation c false) (by simp [hs]) rfl
  have hc := hu.sound.disconnected hst
  have hd : stack.length < r.stack.length := by simp [hs]
  constructor
  · intro hlt
    refine Ends.returned h hl hc ha hd fun a ↦ ?_
    have h' := h.step a .returned
    rw [step_returned hl hs, Link.resume] at h' ⊢
    cases hr : l.reported with
    | true =>
      rw [settle_of_reported hlt hr]
      exact Ends.done rfl (triesAgain_take hadds ht _)
    | false =>
      rw [settle_of_not_reported hlt hr] at h' ⊢
      refine Ends.returned h' rfl hc ha (Nat.lt_succ_self _) fun a' ↦ ?_
      rw [step_returned rfl rfl, Link.resume, retry_self]
      refine Ends.done rfl (triesAgain_take ?_ ht _)
      have htake : Adds before.records [] [] { r with stack } := hadds
      exact htake.take _
  · intro hge
    refine Ends.returned h hl hc ha hd fun a ↦ ?_
    have h' := h.step a .returned
    rw [step_returned hl hs, Link.resume, settle_of_exhausted hge.ge] at h' ⊢
    refine Ends.returned h' rfl hc ha (Nat.lt_succ_self _) fun a' ↦ ?_
    rw [step_returned rfl rfl]
    have htake : Adds before.records [] [] { r with stack } := hadds
    refine Ends.done rfl ⟨(htake.take _).take _, _, rfl, rfl, ?_⟩
    simp [Link.resume, isWaiting, ha]

theorem ends_closed {before : Run} (stack : List Resume) {c : Channel.Closing} (a : Answers)
    (h : Upheld id source backoff
      ({ r with stack }.take (l.closed l.generation c (r.ledger.outside a))))
    (hs : l.state ≠ .disconnected) (hi : l.intentional = false) (hn : c.isNormal = false)
    (hadds : Adds before.records [] [] r) :
    (l.attempts < l.backoff.maxAttempts →
      Ends stack.length (TriesAgain (l.backoff.delay l.attempts).toInt l.attempts before)
        ({ r with stack }.take (l.closed l.generation c (r.ledger.outside a)))) ∧
    (l.attempts = l.backoff.maxAttempts →
      Ends stack.length (GivesUp l.attempts c.code before)
        ({ r with stack }.take (l.closed l.generation c (r.ledger.outside a)))) := by
  rw [closed_of_live hs] at h ⊢
  simp only [hn, hi, Bool.or_false] at h ⊢
  have htake : Adds before.records [] [] { r with stack } := hadds
  have hends := ends_settle h rfl rfl (htake.take _)
  exact hends

theorem ends_notice_closed (h : r.Upheld id source backoff) (hl : r.link = some l)
    {d : Channel.Held} (hd : l.channel = some d) {c : Channel.Closing} (hn : c.isNormal = false)
    (a : Answers) :
    (l.attempts < l.backoff.maxAttempts →
      Ends r.stack.length (TriesAgain (l.backoff.delay l.attempts).toInt l.attempts r)
        (r.step a (.notice d.id (.closed c)))) ∧
    (l.attempts = l.backoff.maxAttempts →
      Ends r.stack.length (GivesUp l.attempts c.code r) (r.step a (.notice d.id (.closed c)))) := by
  have hu := h.link l hl
  have hst : l.state ≠ .disconnected := by
    intro hst
    simp [hu.sound.disconnected hst] at hd
  have hheld : l.held = some d.id := congrArg (Option.map Channel.Held.id) hd
  have hstep := h.step_notice hl hheld (.closed c) a
  have h' := h.step a (.notice d.id (.closed c))
  rw [hstep, Run.hear] at h' ⊢
  exact ends_closed r.stack a h' hst (hu.sound.intentional hst) hn (Adds.refl r)

theorem ends_abandon (h : r.Upheld id source backoff) (hl : r.link = some l) {stack : List Resume}
    (hs : r.stack = .abandon l.generation :: stack) :
    (l.attempts < l.backoff.maxAttempts →
      Ends stack.length (TriesAgain (l.backoff.delay l.attempts).toInt l.attempts r) r) ∧
    (l.attempts = l.backoff.maxAttempts →
      Ends stack.length (GivesUp l.attempts Channel.abnormalCode r) r) := by
  have hu := h.link l hl
  obtain ⟨hst, hc⟩ := hu.held.fits (.abandon l.generation) (by simp [hs]) rfl
  have hne : l.state ≠ .disconnected := by simp [hst]
  have ha : l.alarm = none := by
    by_contra ha
    exact hne (hu.sound.alarm ha).1
  have hd : stack.length < r.stack.length := by simp [hs]
  have h' : ∀ a, Upheld id source backoff ({ r with stack }.take
      (l.closed l.generation .unavailable (r.ledger.outside a))) := by
    intro a
    have h' := h.step a .returned
    rw [step_returned hl hs] at h'
    exact h'
  have hends := fun a ↦
    ends_closed stack a (h' a) hne (hu.sound.intentional hne) (by decide) (Adds.refl r)
  constructor <;> intro hlt <;> refine Ends.returned h hl hc ha hd fun a ↦ ?_ <;>
    rw [step_returned hl hs]
  · exact (hends a).1 hlt
  · exact (hends a).2 hlt

theorem notice_closed_normal (h : r.Upheld id source backoff) (i : Nat) {c : Channel.Closing}
    (hn : c.isNormal = true) (a : Answers) :
    ∃ more stack, (r.step a (.notice i (.closed c))).records = r.records ++ more ∧
      more.filterMap Record.delay? = [] ∧ more.filterMap Record.fault? = [] ∧
      (r.step a (.notice i (.closed c))).stack = stack ++ r.stack ∧
      ∀ x ∈ stack, ∀ (l : Link) (o : Outside), l.resume o x = l.rest := by
  have hrest : ∃ more stack, r.records = r.records ++ more ∧
      more.filterMap Record.delay? = [] ∧ more.filterMap Record.fault? = [] ∧
      r.stack = stack ++ r.stack ∧
      ∀ x ∈ stack, ∀ (l : Link) (o : Outside), l.resume o x = l.rest :=
    ⟨[], [], by simp, rfl, rfl, rfl, by simp⟩
  cases hl : r.link with
  | none => simp [Run.step, hl]
  | some l =>
    simp only [Run.step, hl, Run.act]
    split
    · exact hrest
    · rename_i s hi
      have hid : s.link = l.id :=
        (h.ledger.opened s (List.mem_of_getElem? hi)).trans (h.self l hl).1.symm
      simp only [Run.hear]
      by_cases hg : l.generation = s.generation
      · have hc := (h.link l hl).channel_of_stamp hi hid hg
        have hst : l.state ≠ .disconnected := fun hst ↦ hc ((h.link l hl).sound.disconnected hst)
        rw [← hg, closed_of_live hst, hn]
        refine ⟨_, _, rfl, rfl, rfl, rfl, fun x hx l' o ↦ ?_⟩
        rw [List.mem_singleton.1 hx]
        exact settle_of_intentional _ _
      · rw [closed_of_ne hg]
        simp [take]

end Run

open Run

/-- In every run with waits that fit into 64 bits:
the retries since the last reset wait `base`, twice `base` and so on, and are within the budget;
a normal close sets no alarm and reports nothing, neither at once nor later;
an abnormal close of the held channel, and likewise the end of an attempt for which there is no
channel, sets exactly one alarm if a retry is left and nobody answers, and otherwise sets none, makes
the link terminal and reports exactly once that the budget is exhausted; and whenever a channel is
asked for and there is none, the end of that attempt is what comes next;
and a terminal link never makes an attempt again. -/
theorem retry_budget (id : Nat) (source : Bytes) (backoff : Backoff)
    (moves : List (Answers × Move)) (hlo : -2 ^ 63 ≤ backoff.base.toInt * 2 ^ 30)
    (hhi : backoff.base.toInt * 2 ^ 30 < 2 ^ 63) :
    let r := (start id source backoff).play moves
    let wait (k : Nat) : Int := backoff.base.toInt * 2 ^ min k 30
    (∃ k ≤ backoff.maxAttempts, retries r.records = (List.range k).map wait) ∧
    (∀ (i : Nat) (c : Channel.Closing) (a : Answers), c.isNormal = true →
      ∃ more stack, (r.step a (.notice i (.closed c))).records = r.records ++ more ∧
        more.filterMap Record.delay? = [] ∧ more.filterMap Record.fault? = [] ∧
        (r.step a (.notice i (.closed c))).stack = stack ++ r.stack ∧
        ∀ x ∈ stack, ∀ (l : Link) (o : Outside), l.resume o x = l.rest) ∧
    (∀ (l : Link) (d : Channel.Held) (c : Channel.Closing) (a : Answers), r.link = some l →
      l.channel = some d → c.isNormal = false →
      (l.attempts < backoff.maxAttempts → Ends r.stack.length
        (TriesAgain (wait l.attempts) l.attempts r) (r.step a (.notice d.id (.closed c)))) ∧
      (l.attempts = backoff.maxAttempts → Ends r.stack.length
        (GivesUp l.attempts c.code r) (r.step a (.notice d.id (.closed c))))) ∧
    (∀ (l : Link) (stack : List Resume), r.link = some l →
      r.stack = .abandon l.generation :: stack →
      (l.attempts < backoff.maxAttempts →
        Ends stack.length (TriesAgain (wait l.attempts) l.attempts r) r) ∧
      (l.attempts = backoff.maxAttempts →
        Ends stack.length (GivesUp l.attempts Channel.abnormalCode r) r)) ∧
    (∀ (a : Answers) (m : Move), a.channel = none → (r.step a m).Abandons r.records) ∧
    (∀ l, r.link = some l → l.terminal = true →
      ∀ more : List (Answers × Move), (r.play more).Over r.records ∧
        ∀ l', (r.play more).link = some l' →
          l'.state = .disconnected ∧ l'.channel = none ∧ l'.isWaiting = false) := by
  intro r wait
  obtain ⟨hu, hcount⟩ := counted_play id source backoff moves
  have hwait : ∀ k, (backoff.delay k).toInt = wait k := Backoff.toInt_delay hlo hhi
  refine ⟨?_, fun i c a hn ↦ notice_closed_normal hu i hn a, ?_, ?_,
    fun a m ha ↦ abandons_step ha m, ?_⟩
  · obtain ⟨k, hk, hr, -⟩ := hcount
    refine ⟨k, hk, hr.trans ?_⟩
    exact List.map_congr_left fun j _ ↦ hwait j
  · intro l d c a hl hd hn
    have hb := (hu.self l hl).2.2
    have hends := ends_notice_closed hu hl hd hn a
    rwa [hb, hwait] at hends
  · intro l stack hl hs
    have hb := (hu.self l hl).2.2
    have hends := ends_abandon hu hl hs
    rwa [hb, hwait] at hends
  · intro l hl ht more
    have hover : (r.play more).Over r.records := by
      refine Over.play ⟨⟨[], (List.append_nil _).symm, by simp⟩, fun l' hl' ↦ ?_⟩ hu more
      cases hl.symm.trans hl'
      exact ht
    refine ⟨hover, fun l' hl' ↦ ?_⟩
    have hu' := play_induction (P := (·.Upheld id source backoff))
      (fun _ a m h ↦ h.step a m) hu more
    have hsound := (hu'.link l' hl').sound
    have hst := hsound.terminal (hover.2 l' hl')
    refine ⟨hst, hsound.disconnected hst, ?_⟩
    by_contra hw
    have ha := (hsound.alarm (by simpa [isWaiting] using hw)).2.1
    simp [hover.2 l' hl'] at ha

theorem retry_budget_broken :
    (-2 ^ 63 ≤ ({} : Backoff).base.toInt * 2 ^ 30 ∧
      ({} : Backoff).base.toInt * 2 ^ 30 < 2 ^ 63) ∧
    ∃ k ≤ 5, retries ((start 0 [] {}).play brokenMoves).records =
      (List.range k).map fun j ↦ 1000 * 2 ^ min j 30 :=
  ⟨by decide, (retry_budget 0 [] {} brokenMoves (by decide) (by decide)).1⟩

end ProgressFeed.Link
