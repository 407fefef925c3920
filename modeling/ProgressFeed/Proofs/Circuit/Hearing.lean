import ProgressFeed.Proofs.Circuit.Step

/-!
# What a link makes of what a session says

The link goes with its session through the stages of the conversation. It reports a failure when it
hears of it, and the end of the connection when it hears of that, but only once, if the failure has
been reported already.
-/

namespace ProgressFeed

/-- A connection that has ended by itself, though it was not meant to. -/
structure Ending where
  session : Nat
  /-- The retries since the last open. -/
  attempts : Nat
  closing : Channel.Closing
deriving DecidableEq, Repr

/-- The reports that come of these endings, one after the other, and the waits that the alarms are
set for. As long as a retry is left there is one report of the transport and one wait; when none is
left there is at most one report of the transport, then the one that the budget is exhausted, and no
wait. -/
inductive Accounts (b : Backoff) : List Ending → List Fault → List Int → Prop
  | nil : Accounts b [] [] []
  | retry {e : Ending} {endings : List Ending} {f : Fault} {faults : List Fault} {waits : List Int}
      (ha : e.attempts < b.maxAttempts)
      (hf : f = .channel e.closing.reason ∨ f = .closed e.closing.code e.closing.reason)
      (h : Accounts b endings faults waits) :
    Accounts b (e :: endings) (f :: faults) ((b.delay e.attempts).toInt :: waits)
  | exhausted {e : Ending} {endings : List Ending} {first faults : List Fault} {waits : List Int}
      (ha : e.attempts = b.maxAttempts) (hf : first = [] ∨ first = [.channel e.closing.reason])
      (h : Accounts b endings faults waits) :
    Accounts b (e :: endings)
      (first ++ .retriesExhausted b.maxAttempts e.closing.code :: faults) waits

theorem Accounts.append {b : Backoff} {endings more : List Ending} {faults others : List Fault}
    {waits later : List Int} (h : Accounts b endings faults waits)
    (h' : Accounts b more others later) :
    Accounts b (endings ++ more) (faults ++ others) (waits ++ later) := by
  induction h with
  | nil => exact h'
  | retry ha hf _ ih => exact .retry ha hf ih
  | exhausted ha hf _ ih =>
    rw [List.append_assoc]
    exact .exhausted ha hf ih

/-- None of these reports is of a missing credential. -/
theorem Accounts.filter_eq {b : Backoff} {endings : List Ending} {faults : List Fault}
    {waits : List Int} (h : Accounts b endings faults waits) :
    faults.filter (·.kind != .authentication) = faults := by
  induction h with
  | nil => rfl
  | retry ha hf _ ih => rcases hf with rfl | rfl <;> exact congrArg (List.cons _) ih
  | exhausted ha hf _ ih =>
    rw [List.filter_append]
    rcases hf with rfl | rfl <;> exact congrArg _ (congrArg (List.cons _) ih)

namespace Link

open Session (Stage)

variable {l : Link} {c : Channel.Closing} {commands : List Command} {faults : List Fault}

/-- The ending that a close is, if it was not meant. -/
def endings (l : Link) (i : Nat) (c : Channel.Closing) : List Ending :=
  if c.isNormal then [] else [⟨i, l.attempts, c⟩]

theorem session_of_mem_endings {i : Nat} {e : Ending} (he : e ∈ l.endings i c) : e.session = i := by
  unfold endings at he
  split at he
  · cases he
  · rw [List.mem_singleton.1 he]

theorem Reacts.accounts (h : l.Reacts c commands faults) (hr : l.reported = false) (i : Nat) :
    Accounts l.backoff (l.endings i c) faults (commands.filterMap Command.delay?) := by
  cases h with
  | normal hn =>
    rw [endings, if_pos hn]
    exact .nil
  | retry hn ha alarm =>
    rw [endings, if_neg (by simp [hn]), hr]
    exact .retry ha (.inr rfl) .nil
  | exhausted hn ha =>
    rw [endings, if_neg (by simp [hn]), ha]
    exact .exhausted rfl (.inl rfl) .nil

/-- The failure has been reported when the close comes in. -/
theorem Reacts.accounts_reported (h : l.Reacts c commands faults) (hr : l.reported = true)
    (hn : c.isNormal = false) (i : Nat) :
    Accounts l.backoff (l.endings i c) (.channel c.reason :: faults)
      (commands.filterMap Command.delay?) := by
  rw [endings, if_neg (by simp [hn])]
  cases h with
  | normal hn' => simp [hn] at hn'
  | retry _ ha alarm =>
    rw [hr]
    exact .retry ha (.inl rfl) .nil
  | exhausted _ ha =>
    rw [ha]
    exact .exhausted rfl (.inr rfl) .nil

namespace Run

variable {id : Nat} {source : Bytes} {backoff : Backoff} {r r' : Run} {a : Answers} {i : Nat}
  {kind : Channel.Kind} {q q' : Stage} {e : Option Channel.Closing}

/-- How a link has got along that has held the channel `i`, when the session is at a stage and has
told of its end. -/
inductive Tracks (r : Run) (l : Link) (i : Nat) : Stage → Option Channel.Closing → Run → Prop
  | live {q : Stage} {r' : Run} (hq : q.isLate = false) (hl : r'.link = some l)
      (ho : r'.ledger.opened = r.ledger.opened) (hg : r.Gives r' [] []) : Tracks r l i q none r'
  | failing {m : Bytes} {r' : Run} (hl : r'.link = some { l with reported := true })
      (ho : r'.ledger.opened = r.ledger.opened) (hg : r.Gives r' [] [.channel m]) :
    Tracks r l i (.failing m) none r'
  | finished {c : Channel.Closing} {r' : Run} {commands : List Command} {faults : List Fault}
      (hp : r.Parts r' commands faults)
      (ha : Accounts l.backoff (l.endings i c) faults (commands.filterMap Command.delay?)) :
    Tracks r l i .finished (some c) r'

theorem Tracks.next (h : r.Tracks l i q e r') (hr : r'.Rests id source backoff)
    (hi : l.held = some i) (hl : l.reported = false) {x : Session.Record}
    (hx : Stage.Next kind q x q') (hclosing : x ≠ .closing) (hopened : x ≠ .notice .opened) :
    r.Tracks l i q' (e.or x.closed?) (r'.hearAll a i [x]) := by
  cases hx with
  | call | sent =>
    rw [hearAll_of_other rfl]
    exact (Option.or_none (o := e)).symm ▸ h
  | closing => exact absurd rfl hclosing
  | opened => exact absurd rfl hopened
  | frame f =>
    cases h with
    | live hq hlink ho hg =>
      rw [hearAll_of_notice rfl, hr.upheld.meet_frame hr.stack hlink hi]
      exact .live rfl hlink ho (hg.note rfl rfl)
  | refused m | failed m =>
    cases h with
    | live hq hlink ho hg =>
      obtain ⟨hlink', hledger, hg'⟩ := hr.upheld.meet_failed hr.stack hlink hi m a
      rw [hearAll_of_notice rfl]
      exact .failing hlink' (hledger ▸ ho) (hg.trans hg')
  | failedClosed m =>
    cases h with
    | failing hlink ho hg =>
      obtain ⟨commands, faults, hreacts, hparts⟩ :=
        hr.upheld.meet_closed hr.stack hlink hi ⟨Channel.abnormalCode, m⟩ a
      rw [hearAll_of_notice rfl]
      exact .finished (hparts.after ho hg) (hreacts.accounts_reported rfl rfl i)
    | live hq => cases hq
  | @closed c hc =>
    cases h with
    | live hq hlink ho hg =>
      obtain ⟨commands, faults, hreacts, hparts⟩ := hr.upheld.meet_closed hr.stack hlink hi c a
      rw [hearAll_of_notice rfl]
      exact .finished (hparts.after ho hg) (hreacts.accounts hl i)

theorem Tracks.path (h : r.Tracks l i q e r') (hr : r'.Rests id source backoff)
    (hi : l.held = some i) (hl : l.reported = false) {news : List Session.Record}
    (hpath : Stage.Path kind q news q') (hclosing : .closing ∉ news)
    (hopened : .notice .opened ∉ news) :
    r.Tracks l i q' (e.or (news.findSome? Session.Record.closed?)) (r'.hearAll a i news) := by
  -- The link has come to rest after one record when it hears the next.
  induction hpath generalizing e r' with
  | nil => simpa [hearAll] using h
  | @cons q₁ q₂ q₃ x news hx _ ih =>
    have hclosing' : x ≠ .closing := fun h ↦ hclosing (h ▸ List.mem_cons_self ..)
    have hopened' : x ≠ .notice .opened := fun h ↦ hopened (h ▸ List.mem_cons_self ..)
    have hnext := h.next (a := a) hr hi hl hx hclosing' hopened'
    have hrest := ih hnext (hr.hearAll a i [x])
      (fun h ↦ hclosing (List.mem_cons_of_mem _ h)) fun h ↦ hopened (List.mem_cons_of_mem _ h)
    rw [← List.singleton_append, hearAll_append, List.findSome?_append, ← Option.or_assoc]
    simpa using hrest

end Run

end Link

end ProgressFeed
