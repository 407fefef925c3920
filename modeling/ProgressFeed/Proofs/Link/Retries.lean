import ProgressFeed.Proofs.Backoff
import ProgressFeed.Proofs.Link.Consistent

/-!
# Counting the retries of a link

An open of the held channel and the owner's `disconnect` are resets. Between two resets the retries
are numbered from zero; each waits twice as long as the one before, and there are no more of them
than the budget allows.
-/

namespace ProgressFeed

/-- The waits before the first retries. -/
def Backoff.schedule (b : Backoff) (k : Nat) : List Int :=
  (List.range k).map fun j ↦ (b.delay j).toInt

theorem Backoff.schedule_succ (b : Backoff) (k : Nat) :
    b.schedule (k + 1) = b.schedule k ++ [(b.delay k).toInt] := by
  simp [schedule, List.range_succ]

namespace Link

def Record.delay? : Record → Option Int
  | .command c => c.delay?
  | .call _ | .frame _ | .reset => none

def Record.count (delays : List Int) (x : Record) : List Int :=
  if x = .reset then [] else delays ++ x.delay?.toList

/-- The waits of the retries since the last reset. -/
def retries (records : List Record) : List Int := records.foldl Record.count []

variable {records more : List Record} {id : Nat} {source : Bytes} {backoff : Backoff}
  {r : Run} {l : Link}

theorem retries_reset : retries (records ++ [.reset]) = [] := by
  simp [retries, Record.count]

theorem retries_append (h : .reset ∉ more) :
    retries (records ++ more) = retries records ++ more.filterMap Record.delay? := by
  induction more generalizing records with
  | nil => simp
  | cons x more ih =>
    have hx : x ≠ .reset := fun he ↦ h (he ▸ List.mem_cons_self ..)
    have hcount : retries (records ++ [x]) = retries records ++ x.delay?.toList := by
      simp [retries, Record.count, hx]
    rw [← List.singleton_append, ← List.append_assoc,
      ih fun hm ↦ h (List.mem_cons_of_mem _ hm), hcount, List.filterMap_append, List.append_assoc]
    congr 2

theorem filterMap_delay?_command (commands : List Command) :
    (commands.map Record.command).filterMap Record.delay? = commands.filterMap Command.delay? := by
  simp [List.filterMap_map, Function.comp_def, Record.delay?]

theorem Step.filterMap_delay?_records (s : Step) : s.records.filterMap Record.delay? = s.delays := by
  have hcall : (s.pause.map (Record.call ·.1)).toList.filterMap Record.delay? = [] := by
    cases s.pause <;> simp [Record.delay?]
  rw [Step.records, List.filterMap_append, filterMap_delay?_command, hcall, List.append_nil,
    Step.delays]

theorem Step.reset_notMem_records (s : Step) : .reset ∉ s.records := by
  cases h : s.pause <;> simp [Step.records, h]

namespace Run

/-- The retries since the last reset are those of the schedule, as many as the link has counted. -/
def Counted (backoff : Backoff) (r : Run) : Prop :=
  ∃ k ≤ backoff.maxAttempts, retries r.records = backoff.schedule k ∧
    ∀ l, r.link = some l → l.attempts = k

theorem counted_take {s : Step} (hr : retries r.records = backoff.schedule l.attempts)
    (hb : l.backoff = backoff) (hs : s.IsOf l) (hu : (r.take s).Upheld id source backoff) :
    (r.take s).Counted backoff := by
  have hle : s.link.attempts ≤ backoff.maxAttempts := by
    have hself := hu.self s.link rfl
    exact hself.2.2 ▸ (hu.link s.link rfl).sound.attempts
  refine ⟨s.link.attempts, hle, ?_, ?_⟩
  · change retries (r.records ++ s.records) = _
    rw [retries_append s.reset_notMem_records, s.filterMap_delay?_records, hr]
    rcases hs.delays with ⟨hd, ha⟩ | ⟨hd, ha, -⟩
    · rw [hd, ha, List.append_nil]
    · rw [hd, ha, hb, Backoff.schedule_succ]
  · rintro _ ⟨⟩
    rfl

theorem Counted.of_link (h : r.Counted backoff) (hl : r.link = some l) :
    retries r.records = backoff.schedule l.attempts := by
  obtain ⟨k, -, hk, ha⟩ := h
  rw [hk, ha l hl]

theorem Counted.give (h : r.Counted backoff) {commands : List Command}
    (hc : commands.filterMap Command.delay? = []) : (r.give commands).Counted backoff := by
  obtain ⟨k, hle, hk, ha⟩ := h
  refine ⟨k, hle, ?_, ha⟩
  change retries (r.records ++ commands.map .command) = _
  rw [retries_append (by simp), filterMap_delay?_command, hc, List.append_nil, hk]

theorem delays_send (l : Link) (payload : Bytes) (o : Outside) :
    (l.send payload o).2.filterMap Command.delay? = [] := by
  unfold Link.send
  split <;> rfl

theorem Counted.hear (h : r.Counted backoff) (hu : r.Upheld id source backoff)
    (hl : r.link = some l) {i : Nat} {s : Stamp} (hi : r.ledger.opened[i]? = some s)
    (n : Channel.Notice) (a : Answers) : (r.hear l i s.generation n a).Counted backoff := by
  have ⟨k, hle, hk, ha⟩ := h
  have hself := hu.self l hl
  have hs : s.link = l.id := (hu.ledger.opened s (List.mem_of_getElem? hi)).trans hself.1.symm
  have hu' := hu.hear hl hi n a
  have ho := notice_isOf (l := l) (r.ledger.outside a) s.generation n
  cases n with
  | frame f =>
    simp only [Run.hear]
    split
    · refine ⟨k, hle, ?_, ha⟩
      change retries (r.records ++ [.frame f]) = _
      rw [retries_append (by simp), hk]
      simp [Record.delay?]
    · exact h
  | opened =>
    simp only [Run.hear] at hu' ⊢
    -- The open of the held channel is noted as a reset, and no other open restores the retries.
    by_cases hc : l.channel.map Channel.Held.id = some i
    · rw [if_pos hc] at hu' ⊢
      have hg := ((hu.link l hl).held_iff hi hs).1 hc
      rw [if_pos ⟨rfl, hg⟩] at ho
      exact counted_take (l := l.restored) retries_reset hself.2.2 ho hu'
    · rw [if_neg hc] at hu' ⊢
      have hg : l.generation ≠ s.generation := fun hg ↦ hc (((hu.link l hl).held_iff hi hs).2 hg)
      rw [if_neg fun he ↦ hg he.2] at ho
      exact counted_take (h.of_link hl) hself.2.2 ho hu'
  | failed message => exact counted_take (h.of_link hl) hself.2.2 (failed_isOf _ message) hu'
  | closed c => exact counted_take (h.of_link hl) hself.2.2 (closed_isOf _ _ c) hu'

theorem Counted.act (h : r.Counted backoff) (hu : r.Upheld id source backoff)
    (hl : r.link = some l) (a : Answers) (m : Move) : (r.act l a m).Counted backoff := by
  have hself := hu.self l hl
  have hu' := hu.act hl a m
  have hr := h.of_link hl
  cases m with
  | connect => exact counted_take hr hself.2.2 (connect_isOf _) hu'
  | disconnect =>
    exact counted_take (r := r.note .reset) (l := l.restored) retries_reset hself.2.2
      disconnect_isOf hu'
  | send payload => exact h.give (delays_send l payload _)
  | drop =>
    obtain ⟨k, hle, hk, -⟩ := h.give (delays_farewell (l := l))
    refine ⟨k, hle, hk, ?_⟩
    rintro _ ⟨⟩
  | notice channel n =>
    simp only [Run.act]
    split
    · exact h
    · rename_i s hs
      exact h.hear hu hl hs n a
  | ring alarm =>
    simp only [Run.act] at hu' ⊢
    split
    · rename_i hset
      rw [if_pos hset] at hu'
      exact counted_take hr hself.2.2 (rang_isOf _ alarm) hu'
    · exact h
  | returned =>
    simp only [Run.act] at hu' ⊢
    split
    · exact h
    · rename_i resume stack hstack
      rw [hstack] at hu'
      exact counted_take hr hself.2.2 (resume_isOf _ resume) hu'

theorem Counted.step (h : r.Counted backoff) (hu : r.Upheld id source backoff) (a : Answers)
    (m : Move) : (r.step a m).Counted backoff := by
  unfold Run.step
  split
  · rename_i hn
    obtain ⟨k, hle, hk, -⟩ := h
    refine ⟨k, hle, hk, ?_⟩
    simp [hn]
  · rename_i l hl
    exact h.act hu hl a m

theorem counted_play (id : Nat) (source : Bytes) (backoff : Backoff)
    (moves : List (Answers × Move)) :
    ((start id source backoff).play moves).Upheld id source backoff ∧
      ((start id source backoff).play moves).Counted backoff := by
  refine play_induction (P := fun r ↦ r.Upheld id source backoff ∧ r.Counted backoff)
    (fun _ a m h ↦ ⟨h.1.step a m, h.2.step h.1 a m⟩) ?_ moves
  refine ⟨upheld_start id source backoff, 0, Nat.zero_le _, rfl, ?_⟩
  rintro _ ⟨⟩
  rfl

end Run

end Link

end ProgressFeed
