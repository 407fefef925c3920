import ProgressFeed.Proofs.Feed.Fresh
import Mathlib.Data.List.Induction

/-!
# The progress that a feed shows

Somebody who notes which snapshots a feed publishes, and strikes them out when a call that closes the
stream for good is through, knows the feed's progress: the latest snapshot is the last one noted, and
the history of phases is that of the snapshots noted.
A closing that has to be announced is through when the announcement has been delivered, whatever
happens meanwhile; and a stream that ends with its job is closed without anything being forgotten.
-/

namespace ProgressFeed

namespace Phase.History

theorem ofList_append (ps : List Phase) (p : Phase) :
    ofList (ps ++ [p]) = (ofList ps).observe p := List.foldl_append

theorem observe_current (h : History) (p : Phase) : (h.observe p).current = some p := by
  by_cases hc : h.changes p = true
  · simp [observe, hc]
  · have hsame : h.current = some p := by simpa [changes] using hc
    simp [observe, hc, hsame]

theorem ofList_current (ps : List Phase) : (ofList ps).current = ps.getLast? := by
  induction ps using List.reverseRecOn with
  | nil => rfl
  | append_singleton ps p ih => rw [ofList_append, observe_current, List.getLast?_concat]

end Phase.History

namespace Event

def snapshot? : Event → Option Snapshot
  | .snapshot s => some s
  | .state .. | .heartbeat .. | .fault .. => none

/-- The connection is announced to be over. -/
def isParting : Event → Bool
  | .state _ _ .disconnected => true
  | .state _ _ .connecting | .state _ _ .connected | .snapshot _ | .heartbeat .. | .fault .. => false

theorem snapshot?_of_topic {e : Event} (h : e.topic ≠ .snapshot) : e.snapshot? = none := by
  cases e with
  | snapshot s => exact absurd rfl h
  | state | heartbeat | fault => rfl

end Event

namespace Feed

structure Progress where
  latest : Option Snapshot := none
  phases : Phase.History := .empty

namespace Progress

def add (p : Progress) : Option Snapshot → Progress
  | none => p
  | some s => { latest := some s, phases := p.phases.observe s.phase }

/-- The progress of a feed that has shown these snapshots and no other. -/
def ofList (shown : List Snapshot) : Progress where
  latest := shown.getLast?
  phases := .ofList (shown.map Snapshot.phase)

theorem ofList_append (shown : List Snapshot) (s : Option Snapshot) :
    ofList (shown ++ s.toList) = (ofList shown).add s := by
  cases s with
  | none => rw [Option.toList_none, List.append_nil]; rfl
  | some s =>
    simp only [ofList, add, Option.toList_some, List.map_append, List.map_cons, List.map_nil,
      List.getLast?_concat, Phase.History.ofList_append]

end Progress

variable {f : Feed} {o : Outside}

def progress (f : Feed) : Progress := ⟨f.latest, f.phases⟩

/-! ## Steps -/

/-- What the step publishes is all that it adds to this progress. -/
def Step.Adds (s : Step) (p : Progress) : Prop :=
  s.feed.progress = p.add ((s.pause.map Prod.fst).bind Event.snapshot?)

theorem Step.Adds.after {s : Step} {p : Progress} (h : s.Adds p) (commands : List Command) :
    (s.after commands).Adds p := h

theorem Step.IsOf.adds {s : Step} (hs : s.IsOf f) {p : Progress} (hp : s.feed.progress = p) :
    s.Adds p := by
  have hnone : (s.pause.map Prod.fst).bind Event.snapshot? = none := by
    refine Option.bind_eq_none_iff.2 fun e he ↦ ?_
    exact Event.snapshot?_of_topic (hs.topic he).1
  unfold Step.Adds
  rw [hnone, hp]
  rfl

theorem follow_adds (s : Link.Step) : (f.follow s o).Adds f.progress := by
  obtain ⟨keepalive, h⟩ := follow_keeps f s o
  apply (follow_isOf f o s).adds
  rw [h]
  rfl

theorem connectFresh_adds : (f.connectFresh o).Adds f.progress := by
  apply (connectFresh_isOf f o).adds
  rw [connectFresh_eq]
  rfl

theorem connect_adds : (f.connect o).Adds f.progress := by
  unfold connect
  split
  · exact connectFresh_adds
  · split
    · exact connectFresh_adds
    · exact follow_adds _

/-- The progress that is left when this has followed. -/
def Next.leaves (next : Next) (p : Progress) : Progress := if next = .nothing then p else {}

theorem proceed_adds (next : Next) : (f.proceed o next).Adds (next.leaves f.progress) := by
  cases next with
  | nothing | forget | retire => rfl
  | startOver => exact connectFresh_adds (f := f.forget)

theorem closeStream_adds (next : Next) :
    (f.closeStream next o).Adds
      (if f.connection = .disconnected then next.leaves f.progress else f.progress) := by
  cases hl : f.link with
  | none =>
    have hc : f.connection = .disconnected := by simp [connection, hl]
    rw [closeStream_of_none hl, if_pos hc]
    exact (proceed_adds (f := f.closed) next).after _
  | some l =>
    have hconnection : f.connection = l.state := by simp [connection, hl]
    by_cases hs : l.state = .disconnected
    · rw [closeStream_of_disconnected hl hs, if_pos (hconnection.trans hs)]
      exact (proceed_adds (f := f.closed) next).after _
    · rw [closeStream_of_live hl hs, if_neg (hconnection ▸ hs)]
      rfl

/-- Whether an event announces that the connection is over, and something then follows. -/
def Step.Announces (s : Step) (parts : Bool) : Prop :=
  (s.pause.map Prod.fst).any Event.isParting = parts ∧
    ∀ e x, s.pause = some (e, x) → (x.next != .nothing) = parts

theorem proceed_announces (next : Next) : (f.proceed o next).Announces false := by
  constructor
  · cases next with
    | nothing | forget | retire => rfl
    | startOver =>
      have hfresh : f.proceed o .startOver = f.forget.connectFresh o := rfl
      rw [hfresh, connectFresh_eq]
      rfl
  · intro e x hp
    have howes : (f.proceed o next).Owes .nothing := proceed_owes next
    obtain ⟨-, hnext⟩ := howes e x hp
    rw [or_self_iff.1 hnext]
    rfl

theorem closeStream_announces {next : Next} (hnext : next ≠ .nothing) :
    (f.closeStream next o).Announces (f.connection != .disconnected) := by
  cases hl : f.link with
  | none =>
    have hc : (f.connection != .disconnected) = false := by simp [connection, hl]
    rw [closeStream_of_none hl, hc]
    exact proceed_announces (f := f.closed) next
  | some l =>
    have hconnection : f.connection = l.state := by simp [connection, hl]
    rw [hconnection]
    by_cases hs : l.state = .disconnected
    · rw [closeStream_of_disconnected hl hs, hs]
      exact proceed_announces (f := f.closed) next
    · rw [closeStream_of_live hl hs, bne_iff_ne.2 hs]
      refine ⟨rfl, ?_⟩
      rintro _ _ ⟨⟩
      exact bne_iff_ne.2 hnext

theorem deliver_adds (s : Snapshot) : (f.deliver s).Adds f.progress := rfl

theorem event?_bind_snapshot? (source : Bytes) (frame : Channel.Frame) :
    (frame.event? source).bind Event.snapshot? = frame.snapshot? source := by
  unfold Channel.Frame.event? Channel.Frame.snapshot? Channel.Frame.heartbeat?
    Channel.Frame.fault?
  cases hm : Message.ofFrame source frame with
  | error rejection => rfl
  | ok m =>
    cases m with
    | error message type details => cases type <;> rfl
    | progress | heartbeat | connected | closing => rfl

theorem receiveFrame_adds (frame : Channel.Frame) : (f.receiveFrame frame).Adds f.progress := by
  unfold Step.Adds
  rw [receiveFrame_pause, event?_bind_snapshot?, receiveFrame_eq]
  cases frame.snapshot? f.settings.source with
  | none => rfl
  | some s => rfl

theorem notice_adds (s : Stamp) (n : Channel.Notice) : (f.notice s n o).Adds f.progress := by
  unfold notice
  split
  · rfl
  · cases n with
    | frame frame =>
      simp only
      split
      · exact receiveFrame_adds frame
      · rfl
    | opened | failed | closed => exact follow_adds _

theorem beat_adds (alarm : Nat) : (f.beat alarm o).Adds f.progress := by
  apply (rang_isOf f o alarm .keepalive).adds
  rw [rang, beat_eq]
  split
  · unfold startKeepalive
    split <;> rfl
  · rfl

theorem rang_adds (alarm : Nat) (task : Task) : (f.rang alarm o task).Adds f.progress := by
  cases task with
  | keepalive => exact beat_adds alarm
  | reopen id =>
    simp only [rang]
    split
    · rfl
    · exact follow_adds _

theorem polled_adds (epoch : Nat) (answer : StatusAnswer) :
    (f.polled epoch answer).Adds f.progress := by
  unfold polled
  split
  · split
    · rfl
    · rfl
    · exact deliver_adds _
  · rfl

/-- A call that returns forgets the progress if that is what follows it, and otherwise nothing. -/
theorem resume_adds {x : Resume} (hx : x.IsOrderly) :
    (f.resume o x).Adds (x.next.leaves f.progress) := by
  rcases hx with hx | ⟨id, hx⟩
  · rw [hx]
    cases x with
    | nothing => rfl
    | delivered terminal epoch =>
      simp only [resume]
      split
      · have h := closeStream_adds (f := f) (o := o) .nothing
        rwa [Next.leaves, if_pos rfl, ite_self] at h
      · rfl
    | link id r next =>
      cases hx
      simp only [resume]
      split
      · rfl
      · exact follow_adds _
  · rw [hx, resume_of_link_nothing]
    exact proceed_adds _

/-! ## Keeping account -/

/-- The call closes the stream for good. -/
def Move.isForgetful : Move → Bool
  | .disconnect | .reconnect | .retire => true
  | .connect | .keepalive | .refresh | .setPolls _ | .notice .. | .advance _ | .answer ..
  | .returned => false

/-- A feed at work, and what somebody has noted who hears what it publishes. -/
structure Account where
  run : Run
  /-- Whether an event on its way announces such a closing, the innermost event first. -/
  closings : List Bool := []
  /-- The snapshots published since the last such closing was through, first things first. -/
  shown : List Snapshot := []

namespace Account

variable {w : Account} {a : Answers} {m : Move} {q : Run} {cause : Cause} {s : Step}

def start (c : Settings) (polls : Bool) (now : Int) : Account := { run := .start c polls now }

/-- What the move publishes. -/
def told? (w : Account) (a : Answers) (m : Move) : Option Event := w.run.awake.published? a m

def announces (w : Account) (a : Answers) (m : Move) : Bool :=
  m.isForgetful && (w.told? a m).any Event.isParting

/-- A closing is through when there is nothing to announce, or when the announcement has been
delivered. -/
def forgets (w : Account) (a : Answers) : Move → Bool
  | .returned => w.closings.head?.any id
  | m => m.isForgetful && !w.announces a m

def under (w : Account) : Move → List Bool
  | .returned => w.closings.tail
  | _ => w.closings

def live (w : Account) (a : Answers) (m : Move) : Account :=
  if w.run.allows m then
    { run := w.run.live a m
      closings := ((w.told? a m).map fun _ ↦ w.announces a m).toList ++ w.under m
      shown := (if w.forgets a m then [] else w.shown) ++
        ((w.told? a m).bind Event.snapshot?).toList }
  else w

def liveAll (w : Account) (moves : List (Answers × Move)) : Account :=
  moves.foldl (fun w x ↦ w.live x.1 x.2) w

theorem run_live : (w.live a m).run = w.run.live a m := by
  unfold live
  split
  · rfl
  · exact (Run.live_of_not_allows ‹_›).symm

theorem run_liveAll (w : Account) (moves : List (Answers × Move)) :
    (w.liveAll moves).run = w.run.liveAll moves := by
  induction moves generalizing w with
  | nil => rfl
  | cons x moves ih =>
    have h := ih (w.live x.1 x.2)
    rwa [run_live] at h

theorem live_of_allows (h : w.run.allows m = true) :
    w.live a m =
      { run := w.run.live a m
        closings := ((w.told? a m).map fun _ ↦ w.announces a m).toList ++ w.under m
        shown := (if w.forgets a m then [] else w.shown) ++
          ((w.told? a m).bind Event.snapshot?).toList } := if_pos h

theorem live_of_not_allows (h : ¬ w.run.allows m = true) : w.live a m = w := if_neg h

/-- What is noted agrees with what the feed has and with what its calls still have to do. -/
structure Holds (w : Account) : Prop where
  lasting : w.run.Lasting
  closings : w.closings = w.run.stack.map (·.next != .nothing)
  progress : w.run.feed.progress = .ofList w.shown

theorem holds_start (c : Settings) (polls : Bool) (now : Int) : (start c polls now).Holds :=
  ⟨Run.lasting_start c polls now, rfl, rfl⟩

theorem forgets_of_ne (h : m ≠ .returned) :
    w.forgets a m = (m.isForgetful && !w.announces a m) := by
  cases m with
  | returned => exact absurd rfl h
  | _ => rfl

theorem Holds.under (h : w.Holds) : w.under m = (w.run.under m).map (·.next != .nothing) := by
  cases m with
  | returned => rw [Account.under, h.closings, Run.under, List.map_tail]
  | _ => exact h.closings

theorem told?_of_makes (hm : w.run.awake.Makes a m q cause s) :
    w.told? a m = s.pause.map Prod.fst := hm.published? rfl

/-- At the move the feed makes a step that leaves something to follow if and only if a closing is
announced, and that sets out from no progress if a closing is through. -/
theorem Holds.makes (h : w.Holds) (hallows : w.run.allows m = true)
    (hm : w.run.awake.Makes a m q cause s)
    (hnext : ∀ e x, s.pause = some (e, x) → (x.next != .nothing) = w.announces a m)
    (hadds : s.Adds (if w.forgets a m then {} else w.run.feed.progress)) : (w.live a m).Holds := by
  have hrun : (w.run.live a m).stack = s.pending ++ w.run.under m := by
    rw [Run.live_of_allows hallows, hm.step rfl]
    exact congrArg (s.pending ++ ·) hm.stack
  have hfeed : (w.run.live a m).feed = s.feed := by
    rw [Run.live_of_allows hallows, hm.step rfl]
    rfl
  rw [live_of_allows hallows]
  constructor
  · exact h.lasting.live a m
  · simp only
    rw [hrun, List.map_append, h.under, told?_of_makes hm, Step.pending]
    cases hp : s.pause with
    | none => rfl
    | some p => simp [hnext p.1 p.2 hp]
  · simp only
    rw [hfeed, told?_of_makes hm, Progress.ofList_append, hadds]
    split
    · rfl
    · rw [h.progress]

theorem Holds.idles (h : w.Holds) (hallows : w.run.allows m = true)
    (hm : w.run.awake.Idles a m) (hforget : m.isForgetful = false) : (w.live a m).Holds := by
  have hforgets : w.forgets a m = false := by
    by_cases hreturned : m = .returned
    · subst hreturned
      have hnil : w.run.stack = [] := by
        cases hs : w.run.stack with
        | nil => rfl
        | cons x stack =>
          have htail : stack = x :: stack := by simpa [Run.under, Run.awake, hs] using hm.under
          exact absurd htail.symm (List.cons_ne_self x stack)
      rw [forgets, h.closings, hnil]
      rfl
    · rw [forgets_of_ne hreturned, hforget, Bool.false_and]
  have htold : w.told? a m = none := hm.published?
  obtain ⟨polls, hfeed⟩ := hm.feed
  rw [live_of_allows hallows, htold, hforgets]
  constructor
  · exact h.lasting.live a m
  · simp only
    have hstack : w.run.under m = (w.run.awake.step a m).stack := hm.under.trans hm.stack.symm
    rw [Run.live_of_allows hallows, h.under, hstack]
    rfl
  · simp only
    have hsame : (w.run.live a m).feed.progress = w.run.feed.progress := by
      rw [Run.live_of_allows hallows, hfeed]
      rfl
    simpa [hsame] using h.progress

/-- A call that closes the stream for good. -/
theorem Holds.closes (h : w.Holds) (hallows : w.run.allows m = true) (hforget : m.isForgetful = true)
    {next : Next} (hnext : next ≠ .nothing)
    (hm : w.run.awake.Makes a m q cause
      (w.run.feed.closeStream next (w.run.ledger.outside a))) : (w.live a m).Holds := by
  obtain ⟨hparts, hfollows⟩ :=
    closeStream_announces (f := w.run.feed) (o := w.run.ledger.outside a) hnext
  have hannounces : w.announces a m = (w.run.feed.connection != .disconnected) := by
    rw [announces, hforget, told?_of_makes hm, hparts, Bool.true_and]
  have hforgets : w.forgets a m = !w.announces a m := by
    rw [forgets_of_ne (by rintro rfl; cases hforget), hforget, Bool.true_and]
  refine h.makes hallows hm (hannounces ▸ hfollows) ?_
  rw [hforgets, hannounces]
  have hadds := closeStream_adds (f := w.run.feed) (o := w.run.ledger.outside a) next
  by_cases hc : w.run.feed.connection = .disconnected
  · simpa [hc, Next.leaves, hnext] using hadds
  · simpa [hc] using hadds

/-- A step at any other move leaves nothing to follow. -/
theorem Holds.goes (h : w.Holds) (hallows : w.run.allows m = true) (hforget : m.isForgetful = false)
    (hreturned : m ≠ .returned) (hm : w.run.awake.Makes a m q cause s) (hs : s.Owes .nothing)
    (hadds : s.Adds w.run.feed.progress) : (w.live a m).Holds := by
  have hannounces : w.announces a m = false := by rw [announces, hforget, Bool.false_and]
  have hforgets : w.forgets a m = false := by
    rw [forgets_of_ne hreturned, hforget, Bool.false_and]
  refine h.makes hallows hm (fun e x hp ↦ ?_) ?_
  · obtain ⟨-, hnext⟩ := hs e x hp
    rw [hannounces, or_self_iff.1 hnext]
    rfl
  · rwa [hforgets]

/-- A delivery is over: a closing that it announced is through. -/
theorem Holds.returns (h : w.Holds) (hallows : w.run.allows .returned = true) {x : Resume}
    {stack : List Resume} (hs : w.run.stack = x :: stack) : (w.live a .returned).Holds := by
  have hm : w.run.awake.Makes a .returned { w.run.awake with stack } .other
      (w.run.feed.resume (w.run.ledger.outside a) x) := .returned hs
  have horderly : x.IsOrderly := h.lasting.orderly x (by simp [hs])
  have howes : (w.run.feed.resume (w.run.ledger.outside a) x).Owes .nothing := resume_owes horderly
  have hforgets : w.forgets a .returned = (x.next != .nothing) := by
    rw [forgets, h.closings, hs]
    rfl
  refine h.makes hallows hm (fun e y hp ↦ ?_) ?_
  · obtain ⟨-, hnext⟩ := howes e y hp
    rw [or_self_iff.1 hnext]
    rfl
  · have hadds := resume_adds (f := w.run.feed) (o := w.run.ledger.outside a) horderly
    rw [hforgets]
    by_cases hx : x.next = .nothing
    · simpa [hx, Next.leaves] using hadds
    · simpa [hx, Next.leaves] using hadds

theorem Holds.live (h : w.Holds) (a : Answers) (m : Move) : (w.live a m).Holds := by
  by_cases hallows : w.run.allows m = true
  swap
  · rw [live_of_not_allows hallows]
    exact h
  cases hforget : m.isForgetful with
  | true =>
    cases m with
    | disconnect => exact h.closes hallows hforget (by decide) .disconnect
    | reconnect => exact h.closes hallows hforget (by decide) .reconnect
    | retire => exact h.closes hallows hforget (by decide) .retire
    | _ => cases hforget
  | false =>
    rcases Run.step_cases (r := w.run.awake) rfl a m with ⟨q, cause, s, hm⟩ | hm
    · cases hm with
      | disconnect | reconnect | retire => cases hforget
      | connect => exact h.goes hallows hforget nofun .connect connect_owes connect_adds
      | frame hi frame =>
        exact h.goes hallows hforget nofun (.frame hi frame) (notice_owes _ _) (notice_adds _ _)
      | notice hi hn =>
        exact h.goes hallows hforget nofun (.notice hi hn) (notice_owes _ _) (notice_adds _ _)
      | rang hx => exact h.goes hallows hforget nofun (.rang hx) (rang_owes _ _) (rang_adds _ _)
      | answer hq answer =>
        exact h.goes hallows hforget nofun (.answer hq answer) (polled_owes _ _) (polled_adds _ _)
      | returned hs => exact h.returns hallows hs
    · exact h.idles hallows hm hforget

theorem Holds.liveAll (h : w.Holds) (moves : List (Answers × Move)) : (w.liveAll moves).Holds := by
  induction moves generalizing w with
  | nil => exact h
  | cons x moves ih => exact ih (h.live x.1 x.2)

end Account

/-- In every life of a feed, whatever its subscribers call meanwhile, the latest snapshot is the last
one published since a closing of the stream was through, the phase is that of the latest snapshot,
and the history is that of the phases of these snapshots. -/
theorem progress_matches_deliveries (c : Settings) (polls : Bool) (now : Int)
    (moves : List (Answers × Move)) :
    let w := (Account.start c polls now).liveAll moves
    w.run = (Run.start c polls now).liveAll moves ∧
      w.run.feed.latest = w.shown.getLast? ∧
      w.run.feed.phases.current = w.run.feed.latest.map Snapshot.phase ∧
      w.run.feed.phases = .ofList (w.shown.map Snapshot.phase) := by
  intro w
  have h : w.Holds := (Account.holds_start c polls now).liveAll moves
  have hlatest : w.run.feed.latest = w.shown.getLast? := congrArg Progress.latest h.progress
  have hphases : w.run.feed.phases = .ofList (w.shown.map Snapshot.phase) :=
    congrArg Progress.phases h.progress
  refine ⟨Account.run_liveAll _ moves, hlatest, ?_, hphases⟩
  rw [hphases, hlatest, Phase.History.ofList_current, List.getLast?_map]

end Feed

end ProgressFeed
