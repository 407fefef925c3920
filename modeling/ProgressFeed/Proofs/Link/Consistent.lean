import ProgressFeed.Proofs.Link.Own
import ProgressFeed.Proofs.Link.Upheld

/-!
# The fields of a link agree with one another

Whatever has been called, from inside of callbacks as well as from outside: as soon as no call is
under way, the state of a link, the channel it holds, its alarm, its retries and the alarms that the
world keeps for it fit together.
-/

namespace ProgressFeed

/-- The channels and the alarms in the ledger are those of one link. -/
structure Ledger.IsOf (id : Nat) (w : Ledger) : Prop where
  opened : ∀ s ∈ w.opened, s.link = id
  alarms : ∀ x ∈ w.clock.alarms, x.task = .reopen id

theorem Ledger.IsOf.obey {id : Nat} {w : Ledger} (h : w.IsOf id) {c : Command} (hc : c.IsOf id) :
    (w.obey c).IsOf id := by
  cases c with
  | «open» channel stamp =>
    refine ⟨fun s hs ↦ ?_, h.alarms⟩
    rcases List.mem_append.1 hs with hs | hs
    · exact h.opened s hs
    · exact List.mem_singleton.1 hs ▸ hc
  | setAlarm alarm delay task =>
    refine ⟨h.opened, fun x hx ↦ ?_⟩
    rcases List.mem_append.1 hx with hx | hx
    · exact h.alarms x hx
    · exact List.mem_singleton.1 hx ▸ hc
  | stopAlarm alarm => exact ⟨h.opened, fun x hx ↦ h.alarms x (List.mem_filter.1 hx).1⟩
  | fetch => exact hc.elim
  | create | close | send => exact h

theorem Ledger.IsOf.obeyAll {id : Nat} {w : Ledger} (h : w.IsOf id) {commands : List Command}
    (hc : ∀ c ∈ commands, c.IsOf id) : (w.obeyAll commands).IsOf id := by
  induction commands generalizing w with
  | nil => exact h
  | cons c commands ih =>
    exact ih (h.obey (hc c (List.mem_cons_self ..))) fun d hd ↦ hc d (List.mem_cons_of_mem _ hd)

namespace Link.Run

variable {id : Nat} {source : Bytes} {backoff : Backoff} {r : Run} {l : Link}

def Is (id : Nat) (source : Bytes) (backoff : Backoff) (l : Link) : Prop :=
  l.id = id ∧ l.source = source ∧ l.backoff = backoff

/-- What always holds in a run of one link. -/
structure Upheld (id : Nat) (source : Bytes) (backoff : Backoff) (r : Run) : Prop where
  ledger : r.ledger.IsOf id
  self : ∀ l, r.link = some l → Is id source backoff l
  link : ∀ l, r.link = some l → l.Upheld r.ledger r.stack

theorem upheld_start (id : Nat) (source : Bytes) (backoff : Backoff) :
    (start id source backoff).Upheld id source backoff := by
  refine ⟨⟨by simp [start], by simp [start]⟩, ?_, ?_⟩
  · rintro _ ⟨⟩
    exact ⟨rfl, rfl, rfl⟩
  · rintro _ ⟨⟩
    refine ⟨?_, ?_, ?_, rfl, .empty⟩
    · constructor <;> simp
    · constructor <;> simp [start, generations]
    · constructor <;> simp [start]

theorem upheld_take (hw : r.ledger.IsOf id) (hl : Is id source backoff l) {s : Step}
    (hs : s.Upholds r.ledger r.stack) (ho : s.IsOf l) : (r.take s).Upheld id source backoff := by
  obtain ⟨hid, hsource, hbackoff⟩ := hl
  refine ⟨hw.obeyAll (hid ▸ ho.commands), ?_, ?_⟩
  · rintro _ ⟨⟩
    exact ⟨ho.id.trans hid, ho.source.trans hsource, ho.backoff.trans hbackoff⟩
  · rintro _ ⟨⟩
    exact hs

theorem Upheld.note (h : r.Upheld id source backoff) (x : Record) :
    (r.note x).Upheld id source backoff := ⟨h.ledger, h.self, h.link⟩

theorem give_send (r : Run) (l : Link) (payload : Bytes) (o : Outside) :
    r.give (l.send payload o).2 =
      { r with records := r.records ++ (l.send payload o).2.map .command } := by
  unfold Link.send
  split <;> rfl

theorem Upheld.stamp_link (h : r.Upheld id source backoff) (hl : r.link = some l) {i : Nat}
    {s : Stamp} (hi : r.ledger.opened[i]? = some s) : s.link = l.id :=
  (h.ledger.opened s (List.mem_of_getElem? hi)).trans (h.self l hl).1.symm

/-- Every alarm that is set is one of the link. -/
theorem Upheld.mem_setFor (h : r.Upheld id source backoff) (hl : r.link = some l) {alarm : Nat}
    (hset : r.ledger.clock.isSet alarm = true) :
    alarm ∈ r.ledger.clock.setFor (.reopen l.id) := by
  obtain ⟨x, hx, hxa⟩ := List.any_eq_true.1 hset
  have htask : x.task = .reopen l.id := by rw [h.ledger.alarms x hx, (h.self l hl).1]
  exact Clock.mem_setFor.2 ⟨x, hx, htask, by simpa using hxa⟩

theorem Upheld.hear (h : r.Upheld id source backoff) (hl : r.link = some l) {i : Nat} {s : Stamp}
    (hi : r.ledger.opened[i]? = some s) (n : Channel.Notice) (a : Answers) :
    (r.hear l i s.generation n a).Upheld id source backoff := by
  have hself := h.self l hl
  have hn := (h.link l hl).notice (a := a) hi (h.stamp_link hl hi) n
  have ho := notice_isOf (l := l) (r.ledger.outside a) s.generation n
  have hself' : Is id source backoff
      (if n = .opened ∧ l.generation = s.generation then l.restored else l) := by
    split <;> exact hself
  cases n with
  | frame f =>
    simp only [Run.hear]
    split
    · exact h.note _
    · exact h
  | opened =>
    simp only [Run.hear]
    split
    · exact upheld_take (r := r.note .reset) h.ledger hself' hn ho
    · exact upheld_take h.ledger hself' hn ho
  | failed message => exact upheld_take h.ledger hself' hn ho
  | closed c => exact upheld_take h.ledger hself' hn ho

theorem Upheld.ring (h : r.Upheld id source backoff) (hl : r.link = some l) {alarm : Nat}
    (hset : r.ledger.clock.isSet alarm = true) (a : Answers) :
    let w := { r.ledger with clock := r.ledger.clock.stop alarm }
    ({ r with ledger := w }.take (l.rang alarm (w.outside a))).Upheld id source backoff := by
  have hw : Ledger.IsOf id { r.ledger with clock := r.ledger.clock.stop alarm } :=
    h.ledger.obey (c := .stopAlarm alarm) trivial
  exact upheld_take (r := { r with ledger := { r.ledger with clock := r.ledger.clock.stop alarm } })
    hw (h.self l hl) ((h.link l hl).rang (h.mem_setFor hl hset)) (rang_isOf _ alarm)

theorem Upheld.act (h : r.Upheld id source backoff) (hl : r.link = some l) (a : Answers) (m : Move) :
    (r.act l a m).Upheld id source backoff := by
  have hu := h.link l hl
  have hself := h.self l hl
  cases m with
  | connect => exact upheld_take h.ledger hself hu.connect (connect_isOf _)
  | disconnect =>
    exact upheld_take (r := r.note .reset) (l := l.restored) h.ledger hself hu.disconnect
      disconnect_isOf
  | send payload =>
    simp only [Run.act, give_send]
    exact ⟨h.ledger, h.self, h.link⟩
  | drop =>
    refine ⟨h.ledger.obeyAll (hself.1 ▸ farewell_isOf), ?_, ?_⟩ <;> rintro _ ⟨⟩
  | notice channel n =>
    simp only [Run.act]
    split
    · exact h
    · rename_i s hs
      exact h.hear hl hs n a
  | ring alarm =>
    simp only [Run.act]
    split
    · rename_i hset
      exact h.ring hl hset a
    · exact h
  | returned =>
    simp only [Run.act]
    split
    · exact h
    · rename_i resume stack hstack
      rw [hstack] at hu
      exact upheld_take (r := { r with stack }) h.ledger hself hu.resume (resume_isOf _ _)

theorem Upheld.step (h : r.Upheld id source backoff) (a : Answers) (m : Move) :
    (r.step a m).Upheld id source backoff := by
  unfold Run.step
  split
  · rename_i hn
    refine ⟨h.ledger, ?_, ?_⟩ <;> simp [hn]
  · rename_i l hl
    exact h.act hl a m

theorem upheld_play (id : Nat) (source : Bytes) (backoff : Backoff) (moves : List (Answers × Move)) :
    ((start id source backoff).play moves).Upheld id source backoff :=
  play_induction (fun _ a m h ↦ h.step a m) (upheld_start id source backoff) moves

end Link.Run

namespace Link

open Run

/-- In every run, as soon as no call is under way: a link has a channel exactly while it connects or
is connected; a retry is pending only for a link that is apart, not terminal, and within its budget;
a terminal link is apart for good; retries never exceed the budget, and a connected link has none;
and the world keeps at most one alarm for the link, the one that the link knows of. -/
theorem consistent_at_rest (id : Nat) (source : Bytes) (backoff : Backoff)
    (moves : List (Answers × Move)) (l : Link)
    (hl : ((start id source backoff).play moves).link = some l)
    (hs : ((start id source backoff).play moves).stack = []) :
    (l.state = .connecting ∨ l.state = .connected ↔ l.channel.isSome = true) ∧
    (l.isWaiting = true → l.state = .disconnected ∧ l.channel = none ∧ l.terminal = false ∧
      1 ≤ l.attempts ∧ l.attempts ≤ backoff.maxAttempts) ∧
    (l.terminal = true → l.state = .disconnected ∧ l.channel = none ∧ l.isWaiting = false) ∧
    (l.attempts ≤ backoff.maxAttempts ∧ (l.state = .connected → l.attempts = 0)) ∧
    (((start id source backoff).play moves).ledger.clock.alarms.length ≤ 1 ∧
      ((start id source backoff).play moves).ledger.clock.alarms.map Clock.Alarm.id =
        l.alarm.toList) := by
  have h := upheld_play id source backoff moves
  generalize (start id source backoff).play moves = r at *
  obtain ⟨hid, -, hb⟩ := h.self l hl
  obtain ⟨hsound, hheld, -, halarmed, -⟩ := h.link l hl
  have hle : l.attempts ≤ backoff.maxAttempts := hb ▸ hsound.attempts
  -- A link without a channel can only be connecting as long as a call is there to dial.
  have hconnecting : l.state = .connecting → l.channel ≠ none := by
    intro hc hn
    have hg := hheld.dialing hc hn
    simp [hs, generations] at hg
  have halarms : r.ledger.clock.alarms.map Clock.Alarm.id = l.alarm.toList := by
    rw [← halarmed, Clock.setFor, hid, List.filter_eq_self.2]
    exact fun x hx ↦ by simp [h.ledger.alarms x hx]
  refine ⟨⟨?_, ?_⟩, ?_, ?_, ⟨hle, fun hc ↦ (hsound.connected hc).2⟩, ?_, halarms⟩
  · rintro (hc | hc)
    · exact Option.isSome_iff_ne_none.2 (hconnecting hc)
    · exact Option.isSome_iff_ne_none.2 (hsound.connected hc).1
  · intro hc
    cases hst : l.state with
    | connecting => exact .inl rfl
    | connected => exact .inr rfl
    | disconnected => simp [hsound.disconnected hst] at hc
  · intro hw
    obtain ⟨hst, ht, h1⟩ := hsound.alarm (Option.isSome_iff_ne_none.1 hw)
    exact ⟨hst, hsound.disconnected hst, ht, h1, hle⟩
  · intro ht
    have hst := hsound.terminal ht
    refine ⟨hst, hsound.disconnected hst, ?_⟩
    by_contra hw
    have ha := hsound.alarm (by simpa [isWaiting] using hw)
    simp [ha.2.1] at ht
  · have hlen := congrArg List.length halarms
    rw [List.length_map] at hlen
    rw [hlen]
    cases l.alarm <;> simp

/-- A channel opens and breaks; the owner connects again from inside of the announcement, and the
next channel breaks as well. -/
def brokenMoves : List (Answers × Move) :=
  [.connect, .returned, .notice 0 .opened, .returned, .notice 0 (.closed {}), .connect, .returned,
    .returned, .notice 1 (.closed {}), .returned, .returned].map
    (⟨some (utf8 "token"), some true, true⟩, ·)

theorem consistent_at_rest_broken :
    ((start 0 [] {}).play brokenMoves).stack = [] ∧
      ∃ l, ((start 0 [] {}).play brokenMoves).link = some l ∧ l.isWaiting = true ∧
        l.state = .disconnected ∧ l.channel = none ∧ l.terminal = false ∧ 1 ≤ l.attempts ∧
          l.attempts ≤ 5 := by
  refine ⟨rfl, _, rfl, rfl, ?_⟩
  exact (consistent_at_rest 0 [] {} brokenMoves _ rfl rfl).2.1 rfl

end Link

end ProgressFeed
