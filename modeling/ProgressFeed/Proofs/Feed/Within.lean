import ProgressFeed.Proofs.Feed.Broadcast
import ProgressFeed.Proofs.Feed.Parted
import Mathlib.Data.List.Forall2

/-!
# While an event is on its way

Every event on its way has left one thing to do, and the event tells what kind of thing that is.
From its publication until its delivery is over, an event and what it has left to do stay where they
are, and so does everything below them; whatever comes meanwhile comes and goes on top.
-/

namespace ProgressFeed.Feed

variable {f : Feed} {o : Outside}

/-! ## What an event leaves to do -/

def Resume.isDelivered : Resume → Bool
  | .delivered .. => true
  | .nothing | .link .. => false

/-- A snapshot leaves to see whether the job is over, and nothing else does. -/
def Step.Tells (s : Step) (f : Feed) : Prop :=
  ∀ e x, s.pause = some (e, x) →
    (∃ t, e = .snapshot t ∧ x = .delivered t.isTerminal f.epoch) ∨
      e.topic ≠ .snapshot ∧ x.isDelivered = false

def Step.IsPlain (s : Step) : Prop := ∀ e x, s.pause = some (e, x) → x.isDelivered = false

theorem Step.IsPlain.after {s : Step} (h : s.IsPlain) (commands : List Command) :
    (s.after commands).IsPlain := h

theorem Step.IsPlain.tells {s : Step} (h : s.IsPlain) (hs : s.IsOf f) : s.Tells f :=
  fun e x hp ↦ .inr ⟨(hs.topic (congrArg (Option.map Prod.fst) hp)).1, h e x hp⟩

theorem isPlain_of_pause_none {s : Step} (h : s.pause = none) : s.IsPlain := by
  intro e x hp
  simp [h] at hp

theorem publish_isPlain (e : Event) {x : Resume} (hx : x.isDelivered = false) :
    (f.publish e x).IsPlain := by
  rintro _ _ ⟨⟩
  exact hx

theorem relay_isPlain (call : Link.Call) {x : Resume} (hx : x.isDelivered = false) :
    (f.relay call x o).IsPlain := by
  cases call with
  | fault e => exact publish_isPlain _ hx
  | state was now => exact (publish_isPlain _ hx).after _

theorem adopt_isPlain (s : Link.Step) (next : Next) {rest : Feed → Step}
    (hrest : (rest { f with link := some s.link }).IsPlain) : (f.adopt s next rest o).IsPlain := by
  refine Step.IsPlain.after ?_ _
  split
  · exact hrest
  · exact relay_isPlain _ rfl

theorem rest_isPlain : f.rest.IsPlain := isPlain_of_pause_none rfl

theorem follow_isPlain (s : Link.Step) : (f.follow s o).IsPlain :=
  adopt_isPlain s .nothing rest_isPlain

theorem connectFresh_isPlain : (f.connectFresh o).IsPlain := (follow_isPlain _).after _

theorem proceed_isPlain (next : Next) : (f.proceed o next).IsPlain := by
  cases next with
  | nothing | forget | retire => exact isPlain_of_pause_none rfl
  | startOver => exact connectFresh_isPlain

theorem closeStream_isPlain (next : Next) : (f.closeStream next o).IsPlain := by
  refine Step.IsPlain.after ?_ _
  dsimp only
  split
  · exact proceed_isPlain next
  · exact adopt_isPlain _ next (proceed_isPlain next)

theorem connect_isPlain : (f.connect o).IsPlain := by
  unfold connect
  split
  · exact connectFresh_isPlain
  · split
    · exact connectFresh_isPlain
    · exact follow_isPlain _

theorem notice_isPlain (stamp : Stamp) {n : Channel.Notice} (hn : ∀ frame, n ≠ .frame frame) :
    (f.notice stamp n o).IsPlain := by
  unfold notice
  split
  · exact rest_isPlain
  · cases n with
    | frame frame => exact absurd rfl (hn frame)
    | opened | failed | closed => exact follow_isPlain _

theorem rang_isPlain (alarm : Nat) (task : Task) : (f.rang alarm o task).IsPlain := by
  cases task with
  | keepalive =>
    rw [rang, beat_eq]
    split
    · exact isPlain_of_pause_none startKeepalive_pause
    · exact rest_isPlain
  | reopen id =>
    simp only [rang]
    split
    · exact rest_isPlain
    · exact follow_isPlain _

theorem resume_isPlain (x : Resume) : (f.resume o x).IsPlain := by
  cases x with
  | nothing => exact rest_isPlain
  | delivered terminal epoch =>
    simp only [resume]
    split
    · exact closeStream_isPlain .nothing
    · exact rest_isPlain
  | link id r next =>
    simp only [resume]
    split
    · exact proceed_isPlain next
    · exact adopt_isPlain _ next (proceed_isPlain next)

theorem deliver_tells (s : Snapshot) : (f.deliver s).Tells f := by
  rintro _ _ ⟨⟩
  exact .inl ⟨s, rfl, rfl⟩

theorem rest_tells : f.rest.Tells f := rest_isPlain.tells (rest_isOf f)

theorem publishFault_tells (e : Fault) : (f.publishFault e).Tells f := by
  rintro _ _ ⟨⟩
  exact .inr ⟨nofun, rfl⟩

theorem notice_frame_tells (stamp : Stamp) (frame : Channel.Frame) :
    (f.notice stamp (.frame frame) o).Tells f := by
  unfold notice
  split
  · exact rest_tells
  · simp only
    split
    · unfold receiveFrame
      split
      · exact publishFault_tells _
      · rename_i m _
        cases m with
        | progress s => exact deliver_tells s
        | error => exact publishFault_tells _
        | connected | closing => exact rest_tells
        | heartbeat =>
          rintro _ _ ⟨⟩
          exact .inr ⟨nofun, rfl⟩
    · exact rest_tells

theorem polled_tells (epoch : Nat) (answer : StatusAnswer) : (f.polled epoch answer).Tells f := by
  unfold polled
  split
  · split
    · exact publishFault_tells _
    · exact rest_tells
    · exact deliver_tells _
  · exact rest_tells

/-! ## Moves -/

/-- What a move leaves of what lies on top of one another. -/
def Move.leaves {β : Type} (m : Move) (xs : List β) : List β :=
  match m with
  | .returned => xs.tail
  | _ => xs

theorem Move.leaves_of_ne {β : Type} {m : Move} (h : m ≠ .returned) (xs : List β) :
    m.leaves xs = xs := by
  cases m with
  | returned => exact absurd rfl h
  | _ => rfl

theorem Move.leaves_append {β : Type} {m : Move} {xs : List β} (h : ¬ (m = .returned ∧ xs = []))
    (ys : List β) : m.leaves (xs ++ ys) = m.leaves xs ++ ys := by
  by_cases hm : m = .returned
  · subst hm
    cases xs with
    | nil => exact absurd ⟨rfl, rfl⟩ h
    | cons x xs => rfl
  · rw [leaves_of_ne hm, leaves_of_ne hm]

theorem Move.map_leaves {β γ : Type} (m : Move) (g : β → γ) (xs : List β) :
    (m.leaves xs).map g = m.leaves (xs.map g) := by
  cases m with
  | returned => exact List.map_tail
  | _ => rfl

theorem Move.length_leaves {β γ : Type} (m : Move) {xs : List β} {ys : List γ}
    (h : xs.length = ys.length) : (m.leaves xs).length = (m.leaves ys).length := by
  cases m with
  | returned => simp [leaves, h]
  | _ => exact h

theorem Move.leaves_subset {β : Type} (m : Move) (xs : List β) : m.leaves xs ⊆ xs := by
  cases m with
  | returned => exact fun x hx ↦ List.mem_of_mem_tail hx
  | _ => exact List.Subset.refl _

namespace Run

variable {c : Settings} {r q : Run} {a : Answers} {m : Move} {cause : Cause} {s : Step}

theorem under_eq (r : Run) (m : Move) : r.under m = m.leaves r.stack := by
  cases m <;> rfl

theorem Makes.tells (hm : r.Makes a m q cause s) : s.Tells r.feed := by
  cases hm with
  | connect => exact connect_isPlain.tells (connect_isOf _ _)
  | disconnect => exact (closeStream_isPlain .forget).tells (closeStream_isOf _ _ _)
  | reconnect => exact (closeStream_isPlain .startOver).tells (closeStream_isOf _ _ _)
  | retire => exact (closeStream_isPlain .retire).tells (closeStream_isOf _ _ _)
  | frame hi frame => exact notice_frame_tells _ frame
  | notice hi hn => exact (notice_isPlain _ hn).tells (notice_isOf _ _ _ hn)
  | rang => exact (rang_isPlain _ _).tells (rang_isOf _ _ _ _)
  | answer hq answer => exact polled_tells _ answer
  | returned => exact (resume_isPlain _).tells (resume_isOf _ _ _)

theorem Makes.delivered_of_snapshot (hm : r.Makes a m q cause s) {t : Snapshot} {x : Resume}
    (hp : s.pause = some (.snapshot t, x)) : x = .delivered t.isTerminal r.feed.epoch := by
  rcases hm.tells _ x hp with ⟨t', ht, hx⟩ | ⟨htopic, -⟩
  · cases ht
    exact hx
  · exact absurd rfl htopic

theorem Makes.snapshot_of_delivered (hm : r.Makes a m q cause s) {e : Event} {epoch : Nat}
    (hp : s.pause = some (e, .delivered true epoch)) :
    ∃ t, e = .snapshot t ∧ t.isTerminal = true := by
  rcases hm.tells e _ hp with ⟨t, rfl, hx⟩ | ⟨-, hx⟩
  · injection hx with ht
    exact ⟨t, rfl, ht.symm⟩
  · cases hx

theorem Makes.resume (hm : r.Makes a .returned q cause s) {x : Resume} {stack : List Resume}
    (hs : r.stack = x :: stack) : s = r.feed.resume (r.ledger.outside a) x := by
  cases hm with
  | returned hs' =>
    obtain ⟨rfl, -⟩ := List.cons.inj (hs.symm.trans hs')
    rfl

/-- A call after which nothing follows leaves nothing to follow and the progress as it is, apart
from what is published. -/
theorem Makes.keeps (hm : r.Makes a m q cause s) (hforget : m.isForgetful = false)
    (hnext : ∀ x, m = .returned → r.stack.head? = some x → x.next = .nothing) :
    s.Owes .nothing ∧ s.Adds r.feed.progress := by
  cases hm with
  | disconnect | reconnect | retire => cases hforget
  | connect => exact ⟨connect_owes, connect_adds⟩
  | frame | notice => exact ⟨notice_owes _ _, notice_adds _ _⟩
  | rang => exact ⟨rang_owes _ _, rang_adds _ _⟩
  | answer => exact ⟨polled_owes _ _, polled_adds _ _⟩
  | @returned x stack hs =>
    have hx : x.next = .nothing := hnext x rfl (by simp [hs])
    have hadds := resume_adds (f := r.feed) (o := r.ledger.outside a) (.inl hx)
    rw [hx, Next.leaves, if_pos rfl] at hadds
    exact ⟨resume_owes (.inl hx), hadds⟩

theorem Makes.origin_of_snapshot (hm : r.Makes a m q cause s) {t : Snapshot} {x : Resume}
    (hp : s.pause = some (.snapshot t, x)) : m ≠ .returned ∧ m.isForgetful = false := by
  have hown : ¬ s.IsOf r.feed := fun hs ↦ (hs.topic (congrArg (Option.map Prod.fst) hp)).1 rfl
  cases hm with
  | disconnect | reconnect | retire => exact absurd (closeStream_isOf _ _ _) hown
  | returned => exact absurd (resume_isOf _ _ _) hown
  | connect | frame | notice | rang | answer => exact ⟨nofun, rfl⟩

end Run

/-! ## What belongs to what -/

/-- This can be left to do when the event has been delivered. -/
structure Resume.Follows (x : Resume) (e : Event) : Prop where
  orderly : x.IsOrderly
  /-- Only when the end of a connection has been announced, something follows. -/
  parting : x.next ≠ .nothing → e.isParting = true
  ending : ∀ epoch, x = .delivered true epoch → ∃ s, e = .snapshot s ∧ s.isTerminal = true

theorem Run.Makes.follows {r q : Run} {a : Answers} {m : Move} {cause : Cause} {s : Step}
    (hm : r.Makes a m q cause s) (horderly : ∀ x ∈ r.stack, x.IsOrderly) {e : Event} {x : Resume}
    (hp : s.pause = some (e, x)) : x.Follows e := by
  have hending : ∀ epoch, x = .delivered true epoch →
      ∃ s, e = .snapshot s ∧ s.isTerminal = true := by
    rintro epoch rfl
    exact hm.snapshot_of_delivered hp
  have hquiet : s.Owes .nothing → x.Follows e := by
    intro ho
    obtain ⟨hx, hnext⟩ := ho e x hp
    exact ⟨hx, fun hne ↦ absurd (or_self_iff.1 hnext) hne, hending⟩
  have hcloses : ∀ (next : Next) (o : Outside), next ≠ .nothing → s = r.feed.closeStream next o →
      x.Follows e := by
    rintro next o hne rfl
    obtain ⟨hparting, hnext⟩ := closeStream_announces (f := r.feed) (o := o) hne
    refine ⟨(closeStream_owes next e x hp).1, fun hx ↦ ?_, hending⟩
    have hboth : (x.next != .nothing) = true := bne_iff_ne.2 hx
    rw [hnext e x hp] at hboth
    simpa [hp, hboth] using hparting
  cases hm with
  | disconnect => exact hcloses .forget _ nofun rfl
  | reconnect => exact hcloses .startOver _ nofun rfl
  | retire => exact hcloses .retire _ nofun rfl
  | connect => exact hquiet connect_owes
  | frame | notice => exact hquiet (notice_owes _ _)
  | rang => exact hquiet (rang_owes _ _)
  | answer => exact hquiet (polled_owes _ _)
  | returned hs => exact hquiet (resume_owes (horderly _ (by simp [hs])))

namespace Broadcast

variable {α : Type} {b b' : Broadcast α} {c : Settings} {a : Answers} {m : Move} {s : Step}
  {q : Run} {cause : Cause}

/-- The events on their way, the innermost first. -/
def events (b : Broadcast α) : List Emission := b.deliveries.map Delivery.emission

def published? (b : Broadcast α) : Act α → Option Event
  | .move a m => if b.allows m then b.run.awake.published? a m else none
  | .subscribe .. | .unsubscribe .. | .clear | .tell => none

def shown (b : Broadcast α) : List (Act α) → List Snapshot
  | [] => []
  | x :: acts => ((b.published? x).bind Event.snapshot?).toList ++ (b.act x).shown acts

theorem play_cons (b : Broadcast α) (x : Act α) (acts : List (Act α)) :
    b.play (x :: acts) = (b.act x).play acts := rfl

theorem play_append (b : Broadcast α) (acts more : List (Act α)) :
    b.play (acts ++ more) = (b.play acts).play more := List.foldl_append

/-- The move has come to this step. -/
structure Made (b b' : Broadcast α) (m : Move) (s : Step) : Prop where
  feed : b'.run.feed = s.feed
  stack : b'.run.stack = s.pending ++ m.leaves b.run.stack
  closures : b'.run.closures = b.run.closures ++ s.commands.filterMap Command.closure?
  events : b'.events =
    (s.pause.map fun p ↦ ⟨b.begun, m.origin, p.1⟩).toList ++ m.leaves b.events
  begun : b.begun ≤ b'.begun

theorem Made.spares {f : Feed} (h : b.Made b' m s) (hs : s.Spares f) :
    b'.run.closures = b.run.closures := by
  rw [h.closures, hs.closures, List.append_nil]

/-- An event that was published before is not published again. -/
theorem Made.not_mem_events {e : Emission} (h : b.Made b' m s) (hbegun : e.number < b.begun)
    (he : e ∉ m.leaves b.events) : e ∉ b'.events := by
  intro hmem
  rcases List.mem_append.1 (h.events ▸ hmem) with hmem | hmem
  · obtain ⟨p, -, rfl⟩ := Option.map_eq_some_iff.1 (Option.mem_toList.1 hmem)
    exact absurd hbegun (lt_irrefl _)
  · exact he hmem

/-- The feed has made no step. -/
structure Same (b b' : Broadcast α) : Prop where
  feed : ∃ polls, b'.run.feed = { b.run.feed with polls }
  stack : b'.run.stack = b.run.stack
  closures : b'.run.closures = b.run.closures
  begun : b.begun ≤ b'.begun

theorem under_eq (b : Broadcast α) (m : Move) : b.under m = m.leaves b.deliveries := by
  cases m <;> rfl

theorem made_move (hallows : b.allows m = true) (hm : b.run.awake.Makes a m q cause s) :
    b.Made (b.move a m) m s ∧ b.published? (.move a m) = s.pause.map Prod.fst := by
  have hrun : b.run.allows m = true := (Bool.and_eq_true_iff.1 hallows).1
  have hpublished : b.run.awake.published? a m = s.pause.map Prod.fst := hm.published? rfl
  have hgo : (b.go a m).events = m.leaves b.events := by
    rw [events, go, under_eq, Move.map_leaves]
    rfl
  have hlive : (b.run.live a m).feed = s.feed ∧
      (b.run.live a m).stack = s.pending ++ m.leaves b.run.stack ∧
      (b.run.live a m).closures = b.run.closures ++ s.commands.filterMap Command.closure? := by
    rw [Run.live_of_allows hrun]
    refine ⟨?_, ?_, hm.closures rfl⟩
    · rw [hm.step rfl]
      rfl
    · rw [hm.step rfl, ← Run.under_eq]
      exact congrArg (s.pending ++ ·) hm.stack
  refine ⟨?_, by rw [published?, if_pos hallows, hpublished]⟩
  obtain ⟨hfeed, hstack, hclosures⟩ := hlive
  rw [move, if_pos hallows, hpublished]
  cases hp : s.pause with
  | none => exact ⟨hfeed, hstack, hclosures, by simpa [hp] using hgo, le_rfl⟩
  | some p =>
    refine ⟨hfeed, hstack, hclosures, ?_, Nat.le_succ _⟩
    rw [Option.map_some, ← hgo, hp]
    rfl

theorem same_move (hallows : b.allows m = true) (hm : b.run.awake.Idles a m) :
    b.Same (b.move a m) ∧ (b.move a m).events = m.leaves b.events ∧
      b.published? (.move a m) = none := by
  have hrun : b.run.allows m = true := (Bool.and_eq_true_iff.1 hallows).1
  have hgo : b.move a m = b.go a m := by
    rw [move, if_pos hallows, hm.published?]
  have hlive : (b.go a m).run = _ := Run.live_of_allows hrun
  rw [hgo]
  refine ⟨⟨?_, ?_, ?_, le_rfl⟩, ?_, by rw [published?, if_pos hallows, hm.published?]⟩
  · obtain ⟨polls, hfeed⟩ := hm.feed
    exact ⟨polls, by rw [hlive, hfeed]; rfl⟩
  · rw [hlive, hm.stack]
    rfl
  · rw [hlive]
    exact hm.closures
  · rw [events, go, under_eq, Move.map_leaves]
    rfl

theorem events_tell : b.tell.events = b.events := by
  cases hs : b.deliveries <;> simp [events, tell, hs]

/-- At a move the feed makes a step or none; at anything else it makes none, and the events on their
way are the same as before. -/
theorem act_cases (b : Broadcast α) (x : Act α) :
    (∃ a m q cause s, x = .move a m ∧ b.allows m = true ∧ b.run.awake.Makes a m q cause s ∧
      b.Made (b.act x) m s ∧ b.published? x = s.pause.map Prod.fst) ∨
    b.Same (b.act x) ∧ b.published? x = none ∧
      ((b.act x).events = b.events ∨ b.run.stack = [] ∧ (b.act x).events = b.events.tail) := by
  have hstill : (b.act x).run = b.run → (b.act x).begun = b.begun → (b.act x).events = b.events →
      b.published? x = none → b.Same (b.act x) ∧ b.published? x = none ∧
        ((b.act x).events = b.events ∨ b.run.stack = [] ∧ (b.act x).events = b.events.tail) :=
    fun hrun hbegun hevents hnone ↦
      ⟨⟨⟨b.run.feed.polls, by rw [hrun]⟩, by rw [hrun], by rw [hrun], hbegun.ge⟩, hnone,
        .inl hevents⟩
  cases x with
  | subscribe | unsubscribe | clear => exact .inr (hstill rfl rfl rfl rfl)
  | tell => exact .inr (hstill rfl rfl events_tell rfl)
  | move a m =>
    by_cases hallows : b.allows m = true
    swap
    · have hact : b.act (.move a m) = b := if_neg hallows
      exact .inr (hstill (by rw [hact]) (by rw [hact]) (by rw [hact]) (if_neg hallows))
    rcases Run.step_cases (r := b.run.awake) rfl a m with ⟨q, cause, s, hm⟩ | hm
    · obtain ⟨hmade, hpublished⟩ := made_move hallows hm
      exact .inl ⟨a, m, q, cause, s, rfl, hallows, hm, hmade, hpublished⟩
    · obtain ⟨hsame, hevents, hnone⟩ := same_move hallows hm
      refine .inr ⟨hsame, hnone, ?_⟩
      by_cases hreturned : m = .returned
      · subst hreturned
        refine .inr ⟨?_, hevents⟩
        cases hs : b.run.stack with
        | nil => rfl
        | cons x stack =>
          have htail : stack = x :: stack := by simpa [Run.under, Run.awake, hs] using hm.under
          exact absurd htail.symm (List.cons_ne_self x stack)
      · exact .inl (hevents.trans (Move.leaves_of_ne hreturned _))

/-! ## Events and what they have left to do -/

/-- What is left to do belongs to the events on their way. -/
def Paired (b : Broadcast α) : Prop :=
  List.Forall₂ (fun e x ↦ Resume.Follows x e.event) b.events b.run.stack

theorem Paired.of_mem (h : b.Paired) {y : Resume} (hy : y ∈ b.run.stack) :
    ∃ e ∈ b.events, y.Follows e.event := by
  obtain ⟨i, hi, rfl⟩ := List.mem_iff_getElem.1 hy
  have hlt : i < b.events.length := h.length_eq ▸ hi
  exact ⟨b.events[i], List.getElem_mem hlt, h.get hlt hi⟩

theorem Paired.orderly (h : b.Paired) : ∀ y ∈ b.run.stack, y.IsOrderly := by
  intro y hy
  obtain ⟨e, -, hfollows⟩ := h.of_mem hy
  exact hfollows.orderly

/-- Unless the end of a connection is being announced, nothing is to follow. -/
theorem Paired.next (h : b.Paired)
    (hquiet : ∀ d ∈ b.deliveries, d.emission.event.isParting = false) :
    ∀ y ∈ b.run.stack, y.next = .nothing := by
  intro y hy
  obtain ⟨e, he, hfollows⟩ := h.of_mem hy
  obtain ⟨d, hd, rfl⟩ := List.mem_map.1 he
  by_contra hne
  exact absurd (hfollows.parting hne) (by simp [hquiet d hd])

theorem Paired.leaves (h : b.Paired) (m : Move) :
    List.Forall₂ (fun e x ↦ Resume.Follows x e.event) (m.leaves b.events)
      (m.leaves b.run.stack) := by
  cases m with
  | returned => simpa only [Move.leaves, List.drop_one] using List.forall₂_drop 1 h
  | _ => exact h

theorem Paired.act (h : b.Paired) (x : Act α) : (b.act x).Paired := by
  rcases b.act_cases x with ⟨a, m, q, cause, s, -, -, hm, hmade, -⟩ | ⟨hsame, -, hevents⟩
  · have hleaves := h.leaves m
    unfold Paired
    rw [hmade.events, hmade.stack, Step.pending]
    cases hp : s.pause with
    | none => exact hleaves
    | some p => exact .cons (hm.follows h.orderly hp) hleaves
  · unfold Paired
    rw [hsame.stack]
    rcases hevents with hevents | ⟨hs, hevents⟩
    · rwa [hevents]
    · have hnil : b.events = [] := List.length_eq_zero_iff.1 (by rw [h.length_eq, hs]; rfl)
      rw [hevents, hnil, hs]
      exact .nil

theorem Paired.play (h : b.Paired) (acts : List (Act α)) : (b.play acts).Paired := by
  induction acts generalizing b with
  | nil => exact h
  | cons x acts ih => exact ih (h.act x)

theorem paired_start (c : Settings) (polls : Bool) (now : Int) :
    (start c polls now : Broadcast α).Paired := .nil

end Broadcast

end ProgressFeed.Feed
