import ProgressFeed.Proofs.Feed.Pace
import ProgressFeed.Proofs.Feed.Trail
import ProgressFeed.Proofs.Feed.Within

/-!
# Beginnings and ends of connections

Connections that are announced to begin are announced to end, but for one that there still is and
for those that are cut off: a fresh start or a retirement drops the link, though somebody has made a
connection since its end was announced. A feed has a connection only from a channel that opens, so
none is cut off as long as no channel opens while a fresh start or a retirement is under way.
-/

namespace ProgressFeed.Feed

variable {c : Settings} {f : Feed} {o : Outside} {l : Link} {s : Step}

/-! ## Steps that make no connection -/

/-- The step makes no connection where there was none. -/
def Step.OpensNone (s : Step) (f : Feed) : Prop :=
  s.feed.connection = .connected → f.connection = .connected

theorem opensNone_of_link (h : s.feed.link = f.link) : s.OpensNone f := by
  intro hs
  rwa [connection, h] at hs

theorem opensNone_of_ne (h : s.feed.connection ≠ .connected) : s.OpensNone f :=
  fun hs ↦ absurd hs h

theorem rest_opensNone : f.rest.OpensNone f := opensNone_of_link rfl

theorem proceed_opensNone (next : Next) : (f.proceed o next).OpensNone f := by
  intro h
  by_contra hf
  exact proceed_off hf next h

theorem adopt_opensNone (hl : f.link = some l) {s : Link.Step} (hs : s.Falls l.state)
    (next : Next) {rest : Feed → Step}
    (hrest : (rest { f with link := some s.link }).OpensNone { f with link := some s.link }) :
    (f.adopt s next rest o).OpensNone f := by
  have hstate : f.connection = l.state := by simp [connection, hl]
  intro h
  rw [hstate]
  refine hs.off ?_
  cases hp : s.pause with
  | none =>
    simp only [adopt, Step.after, hp] at h
    exact hrest h
  | some p =>
    simp only [adopt, Step.after, hp, connection, relay_link] at h
    exact h

theorem follow_opensNone (hl : f.link = some l) {s : Link.Step} (hs : s.Falls l.state) :
    (f.follow s o).OpensNone f := adopt_opensNone hl hs .nothing rest_opensNone

theorem connectFresh_opensNone : (f.connectFresh o).OpensNone f := by
  rw [connectFresh_eq]
  exact opensNone_of_ne (by simp [connection, newLink])

theorem connect_opensNone : (f.connect o).OpensNone f := by
  unfold connect
  split
  · exact connectFresh_opensNone
  · rename_i l hl
    split
    · exact connectFresh_opensNone
    · exact follow_opensNone hl Link.connect_falls

theorem closeStream_opensNone (next : Next) : (f.closeStream next o).OpensNone f :=
  opensNone_of_ne (closeStream_off next)

theorem notice_opensNone (stamp : Stamp) {n : Channel.Notice} (hn : n ≠ .opened) :
    (f.notice stamp n o).OpensNone f := by
  unfold notice
  split
  · exact rest_opensNone
  · rename_i l hlink
    have hl := (linkOf?_eq_some.1 hlink).1
    cases n with
    | opened => exact absurd rfl hn
    | frame frame =>
      simp only
      split
      · refine opensNone_of_link ?_
        rw [receiveFrame_eq]
        split <;> rfl
      · exact rest_opensNone
    | failed message => exact follow_opensNone hl (Link.failed_falls stamp.generation message)
    | closed closing => exact follow_opensNone hl (Link.closed_falls stamp.generation closing)

theorem rang_opensNone (alarm : Nat) (task : Task) : (f.rang alarm o task).OpensNone f := by
  cases task with
  | keepalive =>
    rw [rang, beat_eq]
    split
    · have hlink : ((f.rung alarm).startKeepalive o).feed.link = f.link := startKeepalive_link
      exact opensNone_of_link hlink
    · exact opensNone_of_link rfl
  | reopen id =>
    simp only [rang]
    split
    · exact rest_opensNone
    · rename_i l hlink
      exact follow_opensNone (linkOf?_eq_some.1 hlink).1 (Link.rang_falls alarm)

theorem polled_opensNone (epoch : Nat) (answer : StatusAnswer) :
    (f.polled epoch answer).OpensNone f := opensNone_of_link (polled_isCalm epoch answer).link

theorem resume_opensNone (x : Resume) : (f.resume o x).OpensNone f := by
  cases x with
  | nothing => exact rest_opensNone
  | delivered terminal epoch =>
    simp only [resume]
    split
    · exact closeStream_opensNone .nothing
    · exact rest_opensNone
  | link id r next =>
    simp only [resume]
    split
    · exact proceed_opensNone next
    · rename_i l hlink
      exact adopt_opensNone (linkOf?_eq_some.1 hlink).1 (Link.resume_falls r) next
        (proceed_opensNone next)

/-! ## Runs -/

/-- A channel tells that it has opened. -/
def Move.opens : Move → Bool
  | .notice _ .opened => true
  | _ => false

/-- How many of the changes are the beginning of a connection. -/
def connects (changes : List (Connection × Connection)) : Nat :=
  changes.countP (·.2 == .connected)

/-- How many of the changes are the end of a connection. -/
def disconnects (changes : List (Connection × Connection)) : Nat :=
  changes.countP fun x ↦ x.1 == .connected && x.2 == .disconnected

namespace Run

variable {r r₀ q : Run} {a : Answers} {m : Move} {cause : Cause}

/-- Only a channel that opens makes a connection. -/
theorem Makes.opensNone (hm : r.Makes a m q cause s) (hn : m.opens = false) :
    s.OpensNone r.feed := by
  cases hm with
  | connect => exact connect_opensNone
  | disconnect => exact closeStream_opensNone .forget
  | reconnect => exact closeStream_opensNone .startOver
  | retire => exact closeStream_opensNone .retire
  | frame hi frame => exact notice_opensNone _ (by simp)
  | notice hi =>
    refine notice_opensNone _ ?_
    rintro rfl
    cases hn
  | rang => exact rang_opensNone _ _
  | answer _ answer => exact polled_opensNone _ answer
  | returned => exact resume_opensNone _

/-- What is to drop the link is under way: a fresh start or a retirement. -/
def isDropping (r : Run) : Bool := r.stack.any (·.next.drops)

/-- As long as there is a connection, nothing under way is to drop it. -/
def IsUnbound (r : Run) : Prop := r.feed.connection = .connected → r.isDropping = false

/-- What a step leaves to do binds it only when the connection is over. -/
theorem Makes.next_of_connected (hm : r.Makes a m q cause s) (hu : r.Upheld c)
    (ho : ∀ x ∈ r.stack, x.IsOrderly) (hc : s.feed.connection = .connected) {x : Resume}
    (hx : x ∈ s.pending) : x.next = .nothing := by
  by_cases hret : m = .returned
  · subst hret
    cases hm with
    | returned hs => exact (resume_owes (ho _ (by simp [hs]))).of_mem hx
  obtain ⟨e, hp⟩ := Step.mem_pending.1 hx
  by_contra hne
  have hparting := (hm.follows ho hp).parting hne
  have ht := hu.turns hm hret
  obtain ⟨was, hchange⟩ : ∃ was, s.change? = some (was, .disconnected) := by
    rw [Step.change?, hp]
    cases e with
    | state source was now => cases now <;> first | exact ⟨was, rfl⟩ | cases hparting
    | snapshot | heartbeat | fault => cases hparting
  unfold Step.Turns at ht
  simp only [hchange, hc] at ht
  cases ht.2.1

theorem isDropping_eq_false : r.isDropping = false ↔ ∀ x ∈ r.stack, x.next.drops = false := by
  simp [isDropping]

theorem IsUnbound.live (hf : r.IsUnbound) (hu : r.Upheld c) (hl : r.Lasting)
    (hopens : m.opens = true → r.isDropping = false) : (r.live a m).IsUnbound := by
  intro hc
  by_cases hm : r.allows m = true
  swap
  · rw [live_of_not_allows hm] at hc ⊢
    exact hf hc
  rw [live_of_allows hm] at hc ⊢
  have hawake : r.awake.Upheld c := hu
  rcases step_cases (r := r.awake) rfl a m with ⟨q, cause, s, hmakes⟩ | hidle
  · rw [hmakes.step rfl] at hc ⊢
    -- A move that opens nothing finds the connection, and then nothing before it is to drop it.
    have hbefore : r.isDropping = false := by
      cases hn : m.opens with
      | true => exact hopens hn
      | false => exact hf (hmakes.opensNone hn hc)
    refine isDropping_eq_false.2 fun x hx ↦ ?_
    rcases List.mem_append.1 hx with hx | hx
    · rw [hmakes.next_of_connected hawake hl.orderly hc hx]
      rfl
    · exact isDropping_eq_false.1 hbefore x (under_subset (hmakes.stack ▸ hx))
  · obtain ⟨polls, hfeed⟩ := hidle.feed
    have hstack : (r.awake.step a m).stack = r.stack := hidle.stack
    simp only [hfeed] at hc
    rw [isDropping, hstack]
    exact hf hc

theorem IsUnbound.cuts (hf : r.IsUnbound) (m : Move) : r.cuts m = false := by
  by_cases hret : m = .returned
  swap
  · exact cuts_of_ne hret
  subst hret
  cases hs : r.stack with
  | nil => simp [Run.cuts, hs]
  | cons x stack =>
    rw [cuts_of_stack hs]
    by_contra hcut
    obtain ⟨hdrops, hc⟩ : x.next.drops = true ∧ r.feed.connection = .connected := by
      simpa using hcut
    have hnone := isDropping_eq_false.1 (hf hc) x (by simp [hs])
    rw [hdrops] at hnone
    cases hnone

/-- Since a moment without a connection, as many connections have been announced to begin as to end,
but for one that there still is and for those that have been lost. -/
def Balanced (r₀ : Run) (lost : Nat) (r : Run) : Prop :=
  ∃ since, r.changes = r₀.changes ++ since ∧
    connects since = disconnects since + (if r.feed.connection = .connected then 1 else 0) + lost

variable {lost : Nat}

theorem balanced_self (h : r.feed.connection ≠ .connected) : r.Balanced 0 r := by
  refine ⟨[], (List.append_nil _).symm, ?_⟩
  rw [if_neg h]
  rfl

theorem Balanced.goes {r' : Run} (hb : r₀.Balanced lost r) (hg : r.Goes r') :
    r₀.Balanced lost r' := by
  obtain ⟨since, hsince, hcount⟩ := hb
  obtain ⟨x, hchanges, hx⟩ := hg
  refine ⟨since ++ x.toList, by rw [hchanges, hsince, List.append_assoc], ?_⟩
  cases x with
  | none =>
    simp only at hx
    rw [Option.toList_none, List.append_nil, hx]
    exact hcount
  | some y =>
    obtain ⟨was, now⟩ := y
    obtain ⟨rfl, rfl, hcan⟩ := hx
    simp only [connects, disconnects, Option.toList_some, List.countP_append, List.countP_singleton]
      at hcount ⊢
    cases hwas : r.feed.connection <;> cases hnow : r'.feed.connection <;>
      simp [hwas, hnow, Connection.canBecome] at hcan hcount ⊢ <;> omega

/-- When a connection is dropped, neither its end nor the beginning of another one is announced. -/
theorem Balanced.drop {r' : Run} (hb : r₀.Balanced lost r)
    {more : List (Connection × Connection)} (hchanges : r'.changes = r.changes ++ more)
    (hmore : connects more = 0 ∧ disconnects more = 0) (hnow : r'.feed.connection ≠ .connected) :
    r₀.Balanced (lost + (r.feed.connection == .connected).toNat) r' := by
  obtain ⟨since, hsince, hcount⟩ := hb
  refine ⟨since ++ more, by rw [hchanges, hsince, List.append_assoc], ?_⟩
  have hconnects : connects (since ++ more) = connects since + connects more :=
    List.countP_append
  have hdisconnects : disconnects (since ++ more) = disconnects since + disconnects more :=
    List.countP_append
  have hlost : (r.feed.connection == .connected).toNat =
      if r.feed.connection = .connected then 1 else 0 := by
    by_cases hwas : r.feed.connection = .connected <;> simp [hwas]
  rw [hconnects, hdisconnects, hmore.1, hmore.2, if_neg hnow, hlost]
  omega

theorem Balanced.live (hb : r₀.Balanced lost r) (hu : r.Upheld c) (hl : r.Lasting)
    (a : Answers) (m : Move) : r₀.Balanced (lost + (r.cuts m).toNat) (r.live a m) := by
  rcases hu.live_changes hl a m with
    ⟨-, hcuts, hg⟩ | ⟨-, hcuts, -, hnow, hchanges⟩ | ⟨-, hcuts, hchanges, hgone⟩ <;> rw [hcuts]
  · exact hb.goes hg
  · exact hb.drop hchanges ⟨rfl, rfl⟩ (by simp [hnow])
  · have hnow : (r.live a m).feed.connection ≠ .connected := by
      simp [connection, (hl.live a m).link_of_gone hgone]
    exact hb.drop (hchanges.trans (List.append_nil _).symm) ⟨rfl, rfl⟩ hnow

end Run

/-! ## Subscribers -/

/-- A channel tells that it has opened. -/
def Act.opens {α : Type} : Act α → Bool
  | .move _ m => m.opens
  | .subscribe .. | .unsubscribe .. | .clear | .tell => false

namespace Broadcast

variable {α : Type} {b : Broadcast α} {r₀ : Run} {lost : Nat}

/-- Channels open only while neither a fresh start nor a retirement is under way. -/
def opensApart (b : Broadcast α) : List (Act α) → Bool
  | [] => true
  | y :: acts => (!y.opens || !b.run.isDropping) && (b.act y).opensApart acts

/-- The act cuts off a connection. -/
def cuts (b : Broadcast α) : Act α → Bool
  | .move _ m => b.allows m && b.run.cuts m
  | .subscribe .. | .unsubscribe .. | .clear | .tell => false

/-- How many connections are cut off. -/
def losses (b : Broadcast α) : List (Act α) → Nat
  | [] => 0
  | y :: acts => (b.cuts y).toNat + (b.act y).losses acts

theorem lasting_act (h : b.run.Lasting) (y : Act α) : (b.act y).run.Lasting := by
  rcases b.run_act y with hrun | ⟨a, m, -, hrun⟩ <;> rw [hrun]
  · exact h
  · exact h.live a m

theorem lasting_play (h : b.run.Lasting) (acts : List (Act α)) : (b.play acts).run.Lasting := by
  induction acts generalizing b with
  | nil => exact h
  | cons y acts ih => exact ih (lasting_act h y)

/-- What an act does to the run, and whether it cuts off a connection, is up to the move that it
makes. -/
theorem cuts_cases (b : Broadcast α) (y : Act α) :
    (b.act y).run = b.run ∧ b.cuts y = false ∨
      ∃ a m, y = .move a m ∧ (b.act y).run = b.run.live a m ∧ b.cuts y = b.run.cuts m := by
  cases y with
  | subscribe | unsubscribe | clear | tell => exact .inl ⟨rfl, rfl⟩
  | move a m =>
    by_cases hallows : b.allows m = true
    · exact .inr ⟨a, m, rfl, run_move hallows, by rw [cuts, hallows, Bool.true_and]⟩
    · have hact : b.act (.move a m) = b := if_neg hallows
      exact .inl ⟨congrArg run hact, by simp [cuts, hallows]⟩

theorem balanced_act (hb : r₀.Balanced lost b.run) (hu : b.run.Upheld c) (hl : b.run.Lasting)
    (y : Act α) : r₀.Balanced (lost + (b.cuts y).toNat) (b.act y).run := by
  rcases b.cuts_cases y with ⟨hrun, hcuts⟩ | ⟨a, m, -, hrun, hcuts⟩ <;> rw [hrun, hcuts]
  · exact hb
  · exact hb.live hu hl a m

theorem balanced_play (hb : r₀.Balanced lost b.run) (hu : b.run.Upheld c) (hl : b.run.Lasting)
    (acts : List (Act α)) : r₀.Balanced (lost + b.losses acts) (b.play acts).run := by
  induction acts generalizing b lost with
  | nil => exact hb
  | cons y acts ih =>
    rw [losses, ← Nat.add_assoc]
    exact ih (balanced_act hb hu hl y) (upheld_act hu y) (lasting_act hl y)

theorem isUnbound_act (hf : b.run.IsUnbound) (hu : b.run.Upheld c) (hl : b.run.Lasting)
    (hy : y.opens = true → b.run.isDropping = false) : (b.act y).run.IsUnbound := by
  rcases b.run_act y with hrun | ⟨a, m, rfl, hrun⟩ <;> rw [hrun]
  · exact hf
  · exact hf.live hu hl hy

theorem cuts_eq_false (hf : b.run.IsUnbound) (y : Act α) : b.cuts y = false := by
  rcases b.cuts_cases y with ⟨-, hcuts⟩ | ⟨a, m, -, -, hcuts⟩ <;> rw [hcuts]
  exact hf.cuts m

theorem losses_eq_zero (hf : b.run.IsUnbound) (hu : b.run.Upheld c) (hl : b.run.Lasting)
    {acts : List (Act α)} (hopens : b.opensApart acts = true) : b.losses acts = 0 := by
  induction acts generalizing b with
  | nil => rfl
  | cons y acts ih =>
    obtain ⟨hy, hacts⟩ : (!y.opens || !b.run.isDropping) = true ∧
        (b.act y).opensApart acts = true := Bool.and_eq_true_iff.1 hopens
    have hapart : y.opens = true → b.run.isDropping = false := by
      intro hy'
      simpa [hy'] using hy
    rw [losses, cuts_eq_false hf, Bool.toNat_false, Nat.zero_add]
    exact ih (isUnbound_act hf hu hl hapart) (upheld_act hu y) (lasting_act hl y) hacts

end Broadcast

end ProgressFeed.Feed
