import ProgressFeed.Proofs.Feed.Moves
import ProgressFeed.Proofs.Feed.Turns

/-!
# The life of a feed

A feed is retired when nothing is under way. While it retires it tells its subscribers that the
connection is over, and they may call it once more, as if it were to stay; nothing comes in from
outside meanwhile. In the end whatever link it has then is dropped, and after that there is no feed.
-/

namespace ProgressFeed.Feed

variable {c : Settings} {f : Feed} {w : Ledger} {stack : List Resume} {o : Outside}

/-! ## Signs of life -/

theorem relay_keepalive {call : Link.Call} (h : ∀ was, call ≠ .state was .connected)
    (hk : f.keepalive = none) (x : Resume) : (f.relay call x o).feed.keepalive = none := by
  cases call with
  | fault e => exact hk
  | state was now =>
    have hn : now ≠ .connected := by
      rintro rfl
      exact h was rfl
    simp only [relay, if_neg hn]
    rfl

/-- Without a new connection no signs of life are begun. -/
theorem adopt_keepalive {s : Link.Step} {was : Connection} (hs : s.Falls was)
    (hk : f.keepalive = none) (next : Next) {rest : Feed → Step}
    (hrest : (rest { f with link := some s.link }).feed.keepalive = none) :
    (f.adopt s next rest o).feed.keepalive = none := by
  cases hp : s.pause with
  | none => simpa [adopt, Step.after, hp] using hrest
  | some p =>
    obtain ⟨call, resume⟩ := p
    simp only [adopt, Step.after, hp]
    refine relay_keepalive (f := { f with link := some s.link }) ?_ hk _
    rintro x rfl
    have ht := hs.turns
    have hchange : s.change? = some (x, .connected) := by simp [Link.Step.change?, hp, Link.Call.change?]
    unfold Link.Step.Turns at ht
    simp only [hchange] at ht
    obtain ⟨-, hnow, hcan⟩ := ht
    have hwas : was = .connected := hs.off hnow.symm
    rw [hwas] at hcan
    cases hcan

theorem connectFresh_keepalive : (f.connectFresh o).feed.keepalive = none := by
  rw [connectFresh_eq]

theorem proceed_keepalive (hk : f.keepalive = none) (next : Next) :
    (f.proceed o next).feed.keepalive = none := by
  cases next with
  | nothing | forget | retire => exact hk
  | startOver => exact connectFresh_keepalive

theorem closeStream_keepalive (next : Next) : (f.closeStream next o).feed.keepalive = none := by
  cases hl : f.link with
  | none =>
    rw [closeStream_of_none hl]
    exact proceed_keepalive (f := f.closed) rfl next
  | some l =>
    by_cases hs : l.state = .disconnected
    · rw [closeStream_of_disconnected hl hs]
      exact proceed_keepalive (f := f.closed) rfl next
    · rw [closeStream_of_live hl hs]
      rfl

theorem connect_keepalive (hk : f.keepalive = none) : (f.connect o).feed.keepalive = none := by
  unfold connect
  split
  · exact connectFresh_keepalive
  · split
    · exact connectFresh_keepalive
    · exact adopt_keepalive Link.connect_falls hk .nothing hk

theorem resume_keepalive (hk : f.keepalive = none) (x : Resume) :
    (f.resume o x).feed.keepalive = none := by
  cases x with
  | nothing => exact hk
  | delivered terminal epoch =>
    simp only [resume]
    split
    · exact closeStream_keepalive .nothing
    · exact hk
  | link id r next =>
    simp only [resume]
    split
    · exact proceed_keepalive hk next
    · rename_i l _
      exact adopt_keepalive (Link.resume_falls r) hk next
        (proceed_keepalive (f := { f with link := some (l.resume o r).link }) hk next)

/-! ## Moves -/

/-- A subscriber makes the move while an event is delivered to it. -/
def Move.isCall : Move → Bool
  | .connect | .disconnect | .reconnect | .keepalive | .refresh | .setPolls _ | .returned => true
  | .retire | .notice .. | .advance _ | .answer .. => false

namespace Run

variable {r q : Run} {a : Answers} {m : Move} {cause : Cause} {s : Step}

/-- Whether a move can be made. -/
def allows (r : Run) : Move → Bool
  | .retire => r.isAlive && r.stack.isEmpty
  | m => r.isAlive || (m.isCall && !r.stack.isEmpty)

theorem isCall_of_allows (h : r.allows m = true) (hl : r.isAlive = false) :
    m.isCall = true ∧ r.stack ≠ [] := by
  cases m with
  | connect | disconnect | reconnect | keepalive | refresh | setPolls | returned =>
    simpa [allows, hl, Move.isCall] using h
  | retire | notice | advance | answer => simp [allows, hl, Move.isCall] at h

/-- The run as if the feed were not about to retire. -/
def awake (r : Run) : Run := { r with isAlive := true }

/-- One move in the life of a feed. -/
def live (r : Run) (a : Answers) (m : Move) : Run :=
  if r.allows m then
    { r.awake.step a m with isAlive := r.isAlive && (r.awake.step a m).isAlive }
  else r

def liveAll (r : Run) (moves : List (Answers × Move)) : Run :=
  moves.foldl (fun r x ↦ r.live x.1 x.2) r

/-- The feed has not been retired, though it may be about to. -/
def isThere (r : Run) : Bool := r.isAlive || !r.stack.isEmpty

theorem live_of_allows (h : r.allows m = true) :
    r.live a m = { r.awake.step a m with isAlive := r.isAlive && (r.awake.step a m).isAlive } :=
  if_pos h

theorem live_of_not_allows (h : ¬ r.allows m = true) : r.live a m = r := if_neg h

theorem Upheld.live (h : r.Upheld c) (a : Answers) (m : Move) : (r.live a m).Upheld c := by
  by_cases hm : r.allows m = true
  · rw [live_of_allows hm]
    have hawake : r.awake.Upheld c := h
    exact hawake.step a m
  · rw [live_of_not_allows hm]
    exact h

theorem under_of_ne (h : m ≠ .returned) : r.under m = r.stack := by
  cases m with
  | returned => exact absurd rfl h
  | _ => rfl

theorem under_subset : r.under m ⊆ r.stack := by
  by_cases h : m = .returned
  · subst h
    exact fun x hx ↦ List.mem_of_mem_tail hx
  · rw [under_of_ne h]
    exact List.Subset.refl _

/-- The outermost call stays under way until it returns itself. -/
theorem under_eq_append {inner : List Resume} {x : Resume} (hs : r.stack = inner ++ [x])
    (h : ¬ (m = .returned ∧ inner = [])) :
    ∃ inner', r.under m = inner' ++ [x] ∧ inner' ⊆ inner := by
  by_cases hm : m = .returned
  · subst hm
    cases inner with
    | nil => exact absurd ⟨rfl, rfl⟩ h
    | cons y inner => exact ⟨inner, by simp [under, hs], List.subset_cons_self y inner⟩
  · exact ⟨inner, (under_of_ne hm).trans hs, List.Subset.refl _⟩

/-- What always holds of the end of a feed: what is left to do is in order, and only the outermost
call of a feed that retires is its retirement. -/
structure Lasting (r : Run) : Prop where
  orderly : ∀ x ∈ r.stack, x.IsOrderly
  alive : r.isAlive = true → ∀ x ∈ r.stack, x.next ≠ .retire
  retiring : r.isAlive = false → r.feed.keepalive = none ∧
    (r.stack = [] ∧ r.feed.link = none ∨
      ∃ inner id, r.stack = inner ++ [.link id .nothing .retire] ∧ ∀ x ∈ inner, x.next ≠ .retire)

theorem lasting_start (c : Settings) (polls : Bool) (now : Int) : (start c polls now).Lasting := by
  constructor <;> simp [start]

/-- A feed that is gone has no link. -/
theorem Lasting.link_of_gone (h : r.Lasting) (hgone : r.isThere = false) : r.feed.link = none := by
  obtain ⟨hdead, hstack⟩ : r.isAlive = false ∧ r.stack = [] := by simpa [isThere] using hgone
  rcases (h.retiring hdead).2 with ⟨-, hlink⟩ | ⟨inner, id, hs, -⟩
  · exact hlink
  · simp [hstack] at hs

theorem Makes.owes (hm : r.Makes a m q cause s) (h : ∀ x ∈ r.stack, x.IsOrderly)
    (hne : m ≠ .retire) : ∃ next, s.Owes next ∧ next ≠ .retire := by
  cases hm with
  | retire => exact absurd rfl hne
  | connect => exact ⟨.nothing, connect_owes, nofun⟩
  | disconnect => exact ⟨.forget, closeStream_owes .forget, nofun⟩
  | reconnect => exact ⟨.startOver, closeStream_owes .startOver, nofun⟩
  | frame | notice => exact ⟨.nothing, notice_owes _ _, nofun⟩
  | rang => exact ⟨.nothing, rang_owes _ _, nofun⟩
  | answer => exact ⟨.nothing, polled_owes _ _, nofun⟩
  | returned hs => exact ⟨.nothing, resume_owes (h _ (by simp [hs])), nofun⟩

/-- A move leaves something new to do at most, and never a retirement but its own. -/
theorem stack_step (h : ∀ x ∈ r.stack, x.IsOrderly) (a : Answers) (hne : m ≠ .retire) :
    ∃ new, (r.awake.step a m).stack = new ++ r.under m ∧
      ∀ x ∈ new, x.IsOrderly ∧ x.next ≠ .retire := by
  rcases step_cases (r := r.awake) rfl a m with ⟨q, cause, s, hm⟩ | hm
  · obtain ⟨next, hs, hnext⟩ := hm.owes h hne
    refine ⟨s.pending, by rw [hm.step rfl, take, hm.stack]; rfl, fun x hx ↦ ?_⟩
    obtain ⟨e, hp⟩ := Step.mem_pending.1 hx
    obtain ⟨ho, hn⟩ := hs e x hp
    refine ⟨ho, fun he ↦ ?_⟩
    rcases hn with hn | hn
    · exact absurd (hn.symm.trans he) (by simp)
    · exact hnext (hn.symm.trans he)
  · exact ⟨[], hm.stack.trans hm.under.symm, by simp⟩

theorem isAlive_step (h : r.isAlive = true) (a : Answers) (hne : m ≠ .retire) :
    (r.step a m).isAlive = true := by
  rcases step_cases h a m with ⟨q, cause, s, hm⟩ | hm
  · rw [hm.step h]
    cases hm with
    | retire => exact absurd rfl hne
    | frame => split <;> exact h
    | connect | disconnect | reconnect | notice | rang | answer | returned => exact h
  · exact hm.isAlive.trans h

/-- Subscribers cannot bring about that signs of life are begun. -/
theorem keepalive_step (hk : r.feed.keepalive = none) (a : Answers) (hm : m.isCall = true) :
    (r.awake.step a m).feed.keepalive = none := by
  cases m with
  | retire | notice | advance | answer => cases hm
  | connect => exact connect_keepalive hk
  | disconnect => exact closeStream_keepalive .forget
  | reconnect => exact closeStream_keepalive .startOver
  | keepalive | refresh | setPolls => exact hk
  | returned =>
    simp only [Run.step]
    split
    · exact hk
    · exact resume_keepalive hk _

/-- The retirement is over at once, or when its event has been delivered. -/
theorem retire_ends (f : Feed) (o : Outside) :
    (f.retire o).pending = [] ∧ (f.retire o).feed.link = none ∨
      ∃ id, (f.retire o).pending = [.link id .nothing .retire] := by
  cases hl : f.link with
  | none =>
    rw [retire, closeStream_of_none hl]
    exact .inl ⟨rfl, rfl⟩
  | some l =>
    by_cases hs : l.state = .disconnected
    · rw [retire, closeStream_of_disconnected hl hs]
      exact .inl ⟨rfl, rfl⟩
    · rw [retire, closeStream_of_live hl hs]
      exact .inr ⟨l.id, rfl⟩

theorem Lasting.retire (hstack : r.stack = []) (a : Answers) :
    (r.awake.step a .retire).Lasting := by
  have hs : (r.awake.step a .retire).stack = (r.feed.retire (r.ledger.outside a)).pending := by
    simp [Run.step, ifAlive, awake, take, hstack]
  have hk : (r.awake.step a .retire).feed.keepalive = none := closeStream_keepalive .retire
  refine ⟨fun x hx ↦ ?_, fun h ↦ ?_, fun _ ↦ ⟨hk, ?_⟩⟩
  · rw [hs] at hx
    rcases retire_ends r.feed (r.ledger.outside a) with ⟨hp, -⟩ | ⟨id, hp⟩
    · simp [hp] at hx
    · rw [hp, List.mem_singleton] at hx
      exact hx ▸ .inr ⟨id, rfl⟩
  · simp [Run.step, ifAlive, awake, take] at h
  · rw [hs]
    rcases retire_ends r.feed (r.ledger.outside a) with ⟨hp, hl⟩ | ⟨id, hp⟩
    · exact .inl ⟨hp, hl⟩
    · exact .inr ⟨[], id, hp, by simp⟩

theorem Lasting.live (h : r.Lasting) (a : Answers) (m : Move) : (r.live a m).Lasting := by
  by_cases hm : r.allows m = true
  swap
  · rw [live_of_not_allows hm]
    exact h
  rw [live_of_allows hm]
  by_cases hr : m = .retire
  · subst hr
    obtain ⟨-, hstack⟩ : r.isAlive = true ∧ r.stack = [] := by simpa [allows] using hm
    have he := Lasting.retire hstack a
    have ha : (r.awake.step a .retire).isAlive = false := by simp [Run.step, ifAlive, awake, take]
    exact ⟨he.orderly, by simp [ha], fun _ ↦ he.retiring ha⟩
  have ha : (r.awake.step a m).isAlive = true := isAlive_step rfl a hr
  obtain ⟨new, hstack, hnew⟩ := stack_step h.orderly a hr
  have hunder : r.under m ⊆ r.stack := under_subset
  rw [ha, Bool.and_true]
  refine ⟨fun x hx ↦ ?_, fun hl x hx ↦ ?_, fun hl ↦ ?_⟩
  · rcases List.mem_append.1 (hstack ▸ hx) with hx | hx
    · exact (hnew x hx).1
    · exact h.orderly x (hunder hx)
  · rcases List.mem_append.1 (hstack ▸ hx) with hx | hx
    · exact (hnew x hx).2
    · exact h.alive hl x (hunder hx)
  · obtain ⟨hcall, hne⟩ := isCall_of_allows hm hl
    obtain ⟨hk, hend⟩ := h.retiring hl
    obtain ⟨inner, id, hs, hinner⟩ := hend.resolve_left fun he ↦ hne he.1
    refine ⟨keepalive_step hk a hcall, ?_⟩
    by_cases hlast : m = .returned ∧ inner = []
    · obtain ⟨rfl, rfl⟩ := hlast
      left
      have hstep : r.awake.step a .returned =
          { r.awake with stack := [] }.take .other (r.feed.proceed (r.ledger.outside a) .retire) := by
        rw [step_returned_cons (r := r.awake) hs, resume_of_link_nothing]
        rfl
      rw [hstep]
      exact ⟨rfl, rfl⟩
    · right
      obtain ⟨inner', hunder', hinner'⟩ := under_eq_append hs hlast
      refine ⟨new ++ inner', id, by rw [hstack, hunder', List.append_assoc], fun x hx ↦ ?_⟩
      rcases List.mem_append.1 hx with hx | hx
      · exact (hnew x hx).2
      · exact hinner x (hinner' hx)

end Run

end ProgressFeed.Feed
