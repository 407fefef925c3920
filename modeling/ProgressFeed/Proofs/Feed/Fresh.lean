import ProgressFeed.Proofs.Feed.Life
import ProgressFeed.Proofs.Feed.Traffic

/-!
# What still counts after a disconnection

A closing of the stream begins a new epoch and lets the channel go. From then on only channels and
queries that come later have a say.
-/

namespace ProgressFeed

theorem Traffic.count_le {x y : Custody} {log : List Happening} (h : Traffic x log y) :
    x.count ≤ y.count := by
  have hlen := congrArg List.length h.made
  simp only [List.length_append, List.length_range] at hlen
  omega

theorem Traffic.held_ge {x y : Custody} {log : List Happening} (h : Traffic x log y) {n : Nat}
    (hx : ∀ i, x.held = some i → n ≤ i) (hn : n ≤ x.count) : ∀ i, y.held = some i → n ≤ i := by
  intro i hi
  rcases (h.held_iff.1 hi).1 with hi | hi
  · exact hx i hi
  · exact hn.trans (h.le_of_made hi)

namespace Feed

variable {c : Settings} {f : Feed} {o : Outside}

/-! ## Epochs -/

theorem startKeepalive_epoch : (f.startKeepalive o).feed.epoch = f.epoch := by
  obtain ⟨keepalive, h⟩ := startKeepalive_keeps f o
  rw [h]

theorem relay_epoch (call : Link.Call) (x : Resume) : (f.relay call x o).feed.epoch = f.epoch := by
  obtain ⟨keepalive, h⟩ := relay_keeps f call x o
  rw [h]

theorem adopt_epoch (s : Link.Step) (next : Next) {rest : Feed → Step}
    (hrest : f.epoch ≤ (rest { f with link := some s.link }).feed.epoch) :
    f.epoch ≤ (f.adopt s next rest o).feed.epoch := by
  cases hp : s.pause with
  | none => simpa [adopt, Step.after, hp] using hrest
  | some p => simp [adopt, Step.after, hp, relay_epoch]

theorem follow_epoch (s : Link.Step) : f.epoch ≤ (f.follow s o).feed.epoch :=
  adopt_epoch s .nothing le_rfl

theorem proceed_epoch (next : Next) : (f.proceed o next).feed.epoch = f.epoch := by
  cases next with
  | nothing | forget | retire => rfl
  | startOver =>
    simp only [proceed]
    rw [connectFresh_eq]
    rfl

theorem closeStream_epoch (next : Next) : (f.closeStream next o).feed.epoch = f.epoch + 1 := by
  cases hl : f.link with
  | none =>
    rw [closeStream_of_none hl]
    exact proceed_epoch (f := f.closed) next
  | some l =>
    by_cases hs : l.state = .disconnected
    · rw [closeStream_of_disconnected hl hs]
      exact proceed_epoch (f := f.closed) next
    · rw [closeStream_of_live hl hs]
      rfl

theorem disconnect_channel : (f.closeStream .forget o).feed.channel = none := by
  cases hl : f.link with
  | none =>
    rw [closeStream_of_none hl]
    exact channel_closed
  | some l =>
    by_cases hs : l.state = .disconnected
    · rw [closeStream_of_disconnected hl hs]
      exact channel_closed
    · rw [closeStream_of_live hl hs]
      exact channel_closed

theorem connect_epoch : f.epoch ≤ (f.connect o).feed.epoch := by
  have hfresh : f.epoch ≤ (f.connectFresh o).feed.epoch := by
    rw [connectFresh_eq]
  unfold connect
  split
  · exact hfresh
  · split
    · exact hfresh
    · exact follow_epoch _

theorem receiveFrame_epoch (frame : Channel.Frame) : (f.receiveFrame frame).feed.epoch = f.epoch := by
  rw [receiveFrame_eq]
  split <;> rfl

theorem notice_epoch (s : Stamp) (n : Channel.Notice) : f.epoch ≤ (f.notice s n o).feed.epoch := by
  unfold notice
  split
  · exact le_rfl
  · cases n with
    | frame frame =>
      simp only
      split
      · exact (receiveFrame_epoch frame).ge
      · exact le_rfl
    | opened | failed | closed => exact follow_epoch _

theorem rang_epoch (alarm : Nat) (task : Task) : f.epoch ≤ (f.rang alarm o task).feed.epoch := by
  cases task with
  | keepalive =>
    rw [rang, beat_eq]
    split
    · exact (startKeepalive_epoch (f := f.rung alarm)).ge
    · exact le_rfl
  | reopen id =>
    simp only [rang]
    split
    · exact le_rfl
    · exact follow_epoch _

theorem polled_epoch (epoch : Nat) (answer : StatusAnswer) :
    (f.polled epoch answer).feed.epoch = f.epoch := by
  unfold polled
  split
  · split <;> rfl
  · rfl

theorem epoch_of_polled {epoch : Nat} {answer : StatusAnswer} {e : Event}
    (hp : (f.polled epoch answer).pause.map Prod.fst = some e) : epoch = f.epoch := by
  by_contra hne
  simp [polled, Ne.symm hne, rest] at hp

theorem resume_epoch (x : Resume) : f.epoch ≤ (f.resume o x).feed.epoch := by
  cases x with
  | nothing => exact le_rfl
  | delivered terminal epoch =>
    simp only [resume]
    split
    · rw [closeStream_epoch]
      exact Nat.le_succ _
    · exact le_rfl
  | link id r next =>
    simp only [resume]
    split
    · exact (proceed_epoch next).ge
    · rename_i l _
      exact adopt_epoch _ next (proceed_epoch (f := { f with link := some (l.resume o r).link }) next).ge

/-- What the feed publishes of its own accord is neither progress nor a sign of life. -/
theorem Step.IsOf.topic {s : Step} (hs : s.IsOf f) {e : Event}
    (he : s.pause.map Prod.fst = some e) : e.topic ≠ .snapshot ∧ e.topic ≠ .heartbeat := by
  obtain ⟨⟨e', x⟩, hp, rfl⟩ := Option.map_eq_some_iff.1 he
  rcases hs.event e' x hp with ⟨source, was, now, rfl⟩ | ⟨source, y, rfl⟩ <;> simp [Event.topic]

/-- Where a move comes from. -/
inductive Origin
  | channel (i : Nat)
  | query (q : Nat)
  | other
deriving DecidableEq, Repr

def Move.origin : Move → Origin
  | .notice i _ => .channel i
  | .answer q _ => .query q
  | _ => .other

/-- The origin is one of the channels or queries from these numbers on. -/
def Origin.IsFrom (channel query : Nat) : Origin → Prop
  | .channel i => channel ≤ i
  | .query q => query ≤ q
  | .other => False

namespace Run

variable {r q : Run} {a : Answers} {m : Move} {cause : Cause} {s : Step}

theorem Makes.epoch_le (hm : r.Makes a m q cause s) : r.feed.epoch ≤ s.feed.epoch := by
  cases hm with
  | connect => exact connect_epoch
  | disconnect | reconnect | retire => exact (Nat.le_succ _).trans (closeStream_epoch _).ge
  | frame hi frame => exact notice_epoch _ (.frame frame)
  | notice => exact notice_epoch _ _
  | rang => exact rang_epoch _ _
  | answer hq answer => exact (polled_epoch _ answer).ge
  | returned => exact resume_epoch _

/-- A move begins no older epoch, and forgets no query. -/
theorem step_ages (h : r.isAlive = true) (a : Answers) (m : Move) :
    r.feed.epoch ≤ (r.step a m).feed.epoch ∧ r.ledger.queries <+: (r.step a m).ledger.queries := by
  rcases step_cases h a m with ⟨q, cause, s, hm⟩ | hm
  · rw [hm.step h, ← hm.queries]
    exact ⟨hm.epoch_le, queries_grow q.ledger s.commands⟩
  · obtain ⟨polls, hfeed⟩ := hm.feed
    exact ⟨by rw [hfeed], hm.queries⟩

theorem queries_step (h : r.isAlive = true) (a : Answers) (m : Move) {q : Nat}
    (hq : q < r.ledger.queries.length) :
    (r.step a m).ledger.queries[q]? = r.ledger.queries[q]? := by
  rw [List.getElem?_eq_getElem hq]
  exact List.prefix_iff_getElem?.1 (step_ages h a m).2 q hq

/-- Of all channels and queries, only those from these numbers on have a say. -/
structure Beyond (r : Run) (channel query : Nat) : Prop where
  opened : channel ≤ r.ledger.opened.length
  channel : ∀ i, r.feed.channel = some i → channel ≤ i
  asked : query ≤ r.ledger.queries.length
  query : ∀ q epoch, q < query → r.ledger.queries[q]? = some epoch → epoch < r.feed.epoch

variable {i k : Nat}

theorem Beyond.live (hb : r.Beyond i k) (h : r.Upheld c) (a : Answers) (m : Move) :
    (r.live a m).Beyond i k := by
  by_cases hm : r.allows m = true
  swap
  · rw [live_of_not_allows hm]
    exact hb
  rw [live_of_allows hm]
  have hawake : r.awake.Upheld c := h
  have ht := hawake.traffic rfl a m
  obtain ⟨hepoch, hqueries⟩ := step_ages (r := r.awake) rfl a m
  constructor
  · exact hb.opened.trans ht.count_le
  · exact ht.held_ge hb.channel hb.opened
  · exact hb.asked.trans hqueries.length_le
  · intro q epoch hq hget
    have hold : r.ledger.queries[q]? = some epoch :=
      (queries_step (r := r.awake) rfl a m (hq.trans_le hb.asked)).symm.trans hget
    exact (hb.query q epoch hq hold).trans_le hepoch

/-- After a disconnection the channels and queries that there have been count no more. -/
theorem Upheld.disconnect_beyond (h : r.Upheld c) (ht : r.isThere = true) (a : Answers) :
    (r.live a .disconnect).Beyond r.ledger.opened.length r.ledger.queries.length := by
  have hm : r.allows .disconnect = true := by simpa [allows, Move.isCall, isThere] using ht
  rw [live_of_allows hm]
  have hawake : r.awake.Upheld c := h
  have htraffic := hawake.traffic rfl a .disconnect
  obtain ⟨-, hqueries⟩ := step_ages (r := r.awake) rfl a .disconnect
  have hfeed : (r.awake.step a .disconnect).feed =
      (r.feed.closeStream .forget (r.ledger.outside a)).feed := rfl
  constructor
  · exact htraffic.count_le
  · intro j hj
    rw [hfeed, disconnect_channel] at hj
    cases hj
  · exact hqueries.length_le
  · intro q epoch hq hget
    have hold : r.ledger.queries[q]? = some epoch :=
      (queries_step (r := r.awake) rfl a .disconnect hq).symm.trans hget
    have hle := h.queries epoch (List.mem_of_getElem? hold)
    rw [hfeed, closeStream_epoch]
    exact Nat.lt_succ_of_le hle

/-! ## What is published -/

/-- The event that a move publishes. -/
def published? (r : Run) (a : Answers) (m : Move) : Option Event :=
  ((r.news a m).filterMap Record.event?).head?

theorem Makes.published? (hm : r.Makes a m q cause s) (hl : r.isAlive = true) :
    r.published? a m = s.pause.map Prod.fst := by
  rw [Run.published?, hm.events hl]
  cases s.pause <;> rfl

theorem Idles.published? (hm : r.Idles a m) : r.published? a m = none := by
  rw [Run.published?, hm.events]
  rfl

theorem Upheld.channel_of_frame (h : r.Upheld c) {j : Nat} {stamp : Stamp}
    (hj : r.ledger.opened[j]? = some stamp) {frame : Channel.Frame} {o : Outside} {e : Event}
    (hp : (r.feed.notice stamp (.frame frame) o).pause.map Prod.fst = some e) :
    r.feed.channel = some j := by
  by_contra hne
  have hrest : r.feed.notice stamp (.frame frame) o = r.feed.rest :=
    notice_of_ne (fun l hl hid hg ↦ hne ((h.channel_eq_iff hj).2
      ⟨l, linkOf?_eq_some.2 ⟨hl, hid⟩, hg⟩)) _ _
  rw [hrest] at hp
  cases hp

/-- Progress and signs of life of the server come over the held channel or from a query of the current
epoch. -/
theorem Upheld.published_topic (h : r.Upheld c) (hl : r.isAlive = true) {e : Event}
    (hp : r.published? a m = some e) (he : e.topic = .snapshot ∨ e.topic = .heartbeat) :
    (∃ j, m.origin = .channel j ∧ r.feed.channel = some j) ∨
      ∃ k, m.origin = .query k ∧ r.ledger.queries[k]? = some r.feed.epoch := by
  rcases step_cases hl a m with ⟨q, cause, s, hm⟩ | hm
  swap
  · cases hm.published?.symm.trans hp
  rw [hm.published? hl] at hp
  have hown : ¬ s.IsOf r.feed := fun hs ↦ he.elim (hs.topic hp).1 (hs.topic hp).2
  cases hm with
  | connect => exact absurd (connect_isOf _ _) hown
  | disconnect | reconnect | retire => exact absurd (closeStream_isOf _ _ _) hown
  | frame hj frame => exact .inl ⟨_, rfl, h.channel_of_frame hj hp⟩
  | notice hi hn => exact absurd (notice_isOf _ _ _ hn) hown
  | rang => exact absurd (rang_isOf _ _ _ _) hown
  | answer hk answer => exact .inr ⟨_, rfl, epoch_of_polled hp ▸ hk⟩
  | returned => exact absurd (resume_isOf _ _ _) hown

/-- So progress and signs of life come from those that have a say. -/
theorem Beyond.origin (hb : r.Beyond i k) (h : r.Upheld c) (hl : r.isAlive = true) {e : Event}
    (hp : r.published? a m = some e) (he : e.topic = .snapshot ∨ e.topic = .heartbeat) :
    m.origin.IsFrom i k := by
  rcases h.published_topic hl hp he with ⟨j, ho, hj⟩ | ⟨q, ho, hq⟩
  · rw [ho]
    exact hb.channel j hj
  · rw [ho]
    by_contra hlt
    exact absurd (hb.query q _ (not_le.1 hlt) hq) (lt_irrefl _)

end Run

end Feed

end ProgressFeed
