import ProgressFeed.Proofs.Feed.Step
import ProgressFeed.Proofs.Link.Own
import ProgressFeed.Proofs.Link.Upheld

/-!
# What always holds of a feed at work

The link of a feed is upheld by the part of the ledger and of the calls under way that bears its
number. Everything else in the ledger belongs to earlier links, whose alarms are stopped, or to the
signs of life.
-/

namespace ProgressFeed

/-! ## What the commands of one link leave alone -/

namespace Ledger

variable {id : Nat} {w : Ledger} {commands : List Command}

theorem next_obeyAll (h : commands.filterMap Command.delay? = []) :
    (w.obeyAll commands).clock.next = w.clock.next := by
  induction commands generalizing w with
  | nil => rfl
  | cons c commands ih =>
    rw [List.filterMap_cons] at h
    cases c with
    | setAlarm => simp [Command.delay?] at h
    | create | «open» | close | send | stopAlarm | fetch => exact ih h

theorem queries_obeyAll (h : ∀ c ∈ commands, c.IsOf id) :
    (w.obeyAll commands).queries = w.queries := by
  induction commands generalizing w with
  | nil => rfl
  | cons c commands ih =>
    have hc := h c (List.mem_cons_self ..)
    have hcs := fun d hd ↦ h d (List.mem_cons_of_mem _ hd)
    cases c with
    | fetch => exact hc.elim
    | create | «open» | close | send | stopAlarm | setAlarm => exact ih hcs

theorem mem_opened_obeyAll (h : ∀ c ∈ commands, c.IsOf id) {s : Stamp}
    (hs : s ∈ (w.obeyAll commands).opened) : s ∈ w.opened ∨ s.link = id := by
  induction commands generalizing w with
  | nil => exact .inl hs
  | cons c commands ih =>
    have hc := h c (List.mem_cons_self ..)
    rcases ih (fun d hd ↦ h d (List.mem_cons_of_mem _ hd)) hs with hs | hs
    · cases c with
      | «open» channel stamp =>
        rcases List.mem_append.1 hs with hs | hs
        · exact .inl hs
        · exact .inr (List.mem_singleton.1 hs ▸ hc)
      | create | close | send | stopAlarm | setAlarm | fetch => exact .inl hs
    · exact .inr hs

theorem mem_alarms_obeyAll (h : ∀ c ∈ commands, c.IsOf id) {x : Clock.Alarm Task}
    (hx : x ∈ (w.obeyAll commands).clock.alarms) :
    x ∈ w.clock.alarms ∨ x.task = .reopen id := by
  induction commands generalizing w with
  | nil => exact .inl hx
  | cons c commands ih =>
    have hc := h c (List.mem_cons_self ..)
    rcases ih (fun d hd ↦ h d (List.mem_cons_of_mem _ hd)) hx with hx | hx
    · cases c with
      | setAlarm alarm delay task =>
        rcases List.mem_append.1 hx with hx | hx
        · exact .inl hx
        · exact .inr (List.mem_singleton.1 hx ▸ hc)
      | stopAlarm alarm => exact .inl (List.mem_filter.1 hx).1
      | create | «open» | close | send | fetch => exact .inl hx
    · exact .inr hx

/-- A link does not touch the alarms that are set for another task. -/
theorem setFor_obeyAll {task : Task} (h : ∀ c ∈ commands, c.IsOf id) (ht : task ≠ .reopen id)
    (hs : ∀ alarm, .stopAlarm alarm ∈ commands → alarm ∉ w.clock.setFor task) :
    (w.obeyAll commands).clock.setFor task = w.clock.setFor task := by
  induction commands generalizing w with
  | nil => rfl
  | cons c commands ih =>
    have hc := h c (List.mem_cons_self ..)
    have hstep : (w.obey c).clock.setFor task = w.clock.setFor task := by
      cases c with
      | setAlarm alarm delay task' =>
        exact Clock.setFor_set_of_ne _ _ fun he ↦ ht (he ▸ hc)
      | stopAlarm alarm =>
        change (w.clock.stop alarm).setFor task = _
        rw [Clock.setFor_stop, List.filter_eq_self.2]
        intro i hi
        have hne : i ≠ alarm := fun he ↦ hs alarm (List.mem_cons_self ..) (he ▸ hi)
        simpa using hne
      | create | «open» | close | send | fetch => rfl
    rw [obeyAll_cons, ih (fun d hd ↦ h d (List.mem_cons_of_mem _ hd)) (fun i hi ↦ ?_), hstep]
    rw [hstep]
    exact hs i (List.mem_cons_of_mem _ hi)

end Ledger

/-- A link does not mind what becomes of the alarms and the queries of others. -/
theorem Link.Upheld.of_ledger {l : Link} {w w' : Ledger} {calls : List Link.Resume}
    (h : l.Upheld w calls) (ho : w'.opened = w.opened)
    (hs : w'.clock.setFor (.reopen l.id) = w.clock.setFor (.reopen l.id))
    (hn : w'.clock.Numbered) : l.Upheld w' calls :=
  ⟨h.sound, h.held, h.stamped.same rfl rfl rfl ho, hs.trans h.alarmed, hn⟩

namespace Feed

/-- The link to which what is left to do belongs. -/
def Resume.link? : Resume → Option Nat
  | .link id _ _ => some id
  | .nothing | .delivered .. => none

def Resume.call? (id : Nat) : Resume → Option Link.Resume
  | .link i resume _ => if i = id then some resume else none
  | .nothing | .delivered .. => none

/-- What the deliveries under way leave a link to do. -/
def calls (id : Nat) (stack : List Resume) : List Link.Resume := stack.filterMap (·.call? id)

/-- What holds of a feed at work, the state of its link apart. -/
structure Kept (c : Settings) (f : Feed) (w : Ledger) (stack : List Resume) : Prop where
  settings : f.settings = c
  numbered : w.clock.Numbered
  keepalive : w.clock.setFor .keepalive = f.keepalive.toList
  alarms : ∀ x ∈ w.clock.alarms, x.task = .keepalive ∨ ∃ l, f.link = some l ∧ x.task = .reopen l.id
  stamps : ∀ s ∈ w.opened, s.link < f.links
  calls : ∀ x ∈ stack, ∀ id, x.link? = some id → id < f.links
  queries : ∀ q ∈ w.queries, q ≤ f.epoch
  owns : ∀ l, f.link = some l →
    l.id + 1 = f.links ∧ l.source = c.source ∧ l.backoff = c.backoff

/-- What holds of a feed at work, whatever is under way. -/
structure Upheld (c : Settings) (f : Feed) (w : Ledger) (stack : List Resume) : Prop
    extends Kept c f w stack where
  link : ∀ l, f.link = some l → l.Upheld w (Feed.calls l.id stack)

/-- What holds of a feed after a step that it has made. -/
def Step.Upholds (c : Settings) (s : Step) (w : Ledger) (stack : List Resume) : Prop :=
  s.feed.Upheld c (w.obeyAll s.commands) (s.pending ++ stack)

section

variable {c : Settings} {f : Feed} {w : Ledger} {stack : List Resume} {o : Outside}

/-- A notice counts just when the channel it comes from is held. -/
theorem Upheld.channel_eq_iff (h : f.Upheld c w stack) {i : Nat} {s : Stamp}
    (hi : w.opened[i]? = some s) :
    f.channel = some i ↔ ∃ l, f.linkOf? s.link = some l ∧ l.generation = s.generation := by
  cases hl : f.link with
  | none => simp [channel, linkOf?, hl]
  | some l =>
    have hu := h.link l hl
    have hc : f.channel = l.channel.map Channel.Held.id := by simp [channel, hl]
    constructor
    · intro hf
      have hs := (hu.stamped.channel i).2 (hc ▸ hf)
      rw [hi] at hs
      cases hs
      exact ⟨l, linkOf?_eq_some.2 ⟨hl, rfl⟩, rfl⟩
    · rintro ⟨l', hlink, hg⟩
      obtain ⟨hl', hid⟩ := linkOf?_eq_some.1 hlink
      cases hl.symm.trans hl'
      rw [hc]
      exact (hu.held_iff hi hid.symm).2 hg

theorem Upheld.alarms_eq_nil (h : f.Upheld c w stack) (hk : f.keepalive = none)
    (hl : ∀ l, f.link = some l → l.alarm = none) : w.clock.alarms = [] := by
  refine List.eq_nil_iff_forall_not_mem.2 fun x hx ↦ ?_
  rcases h.alarms x hx with ht | ⟨l, hlink, ht⟩
  · have hmem := Clock.mem_setFor.2 ⟨x, hx, ht, rfl⟩
    simp [h.keepalive, hk] at hmem
  · have hmem := Clock.mem_setFor.2 ⟨x, hx, ht, rfl⟩
    simp [(h.link l hlink).alarmed, hl l hlink] at hmem

theorem Step.Upholds.after {s : Step} {commands : List Command}
    (h : s.Upholds c (w.obeyAll commands) stack) : (s.after commands).Upholds c w stack := by
  simpa [Step.Upholds, Step.after, Step.pending] using h

end

end Feed

end ProgressFeed
