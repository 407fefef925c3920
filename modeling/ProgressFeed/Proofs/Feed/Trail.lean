import ProgressFeed.Proofs.Feed.Life
import ProgressFeed.Proofs.Feed.Past

/-!
# The trail of connections

The changes that a feed publishes lead from one connection to the next, and the last one to where it
is. There is one exception: when somebody connects while a fresh start is about to drop the link,
this link is dropped all the same, and nobody hears that its connection is over.
-/

namespace ProgressFeed.Feed

/-- Each change sets out from where the one before it has led. -/
def Unbroken : Connection → List (Connection × Connection) → Prop
  | _, [] => True
  | c, (was, now) :: changes => was = c ∧ Unbroken now changes

/-- Where changes lead. -/
def reached : Connection → List (Connection × Connection) → Connection
  | c, [] => c
  | _, (_, now) :: changes => reached now changes

theorem unbroken_append {c : Connection} {changes more : List (Connection × Connection)} :
    Unbroken c (changes ++ more) ↔ Unbroken c changes ∧ Unbroken (reached c changes) more := by
  induction changes generalizing c with
  | nil => simp [Unbroken, reached]
  | cons x changes ih => simp [Unbroken, reached, ih, and_assoc]

theorem reached_append (c : Connection) (changes more : List (Connection × Connection)) :
    reached c (changes ++ more) = reached (reached c changes) more := by
  induction changes generalizing c with
  | nil => rfl
  | cons x changes ih => exact ih x.2

namespace Record

def change? : Record → Option (Connection × Connection)
  | .event _ e => e.change?
  | .command _ | .frame _ | .taken _ => none

theorem change?_eq (x : Record) : x.change? = x.event?.bind Event.change? := by
  cases x with
  | event | command | frame | taken => rfl

end Record

theorem Step.filterMap_change?_records (s : Step) (cause : Cause) :
    (s.records cause).filterMap Record.change? = s.change?.toList := by
  have hcommands : (s.commands.map Record.command).filterMap Record.change? = [] := by
    simp [List.filterMap_map, Function.comp_def, Record.change?]
  rw [Step.records, List.filterMap_append, hcommands, Step.change?]
  cases hp : s.pause with
  | none => rfl
  | some p => cases hc : p.1.change? <;> simp [Record.change?, hc]

namespace Run

variable {c : Settings} {r r' q : Run} {a : Answers} {m : Move} {cause : Cause} {s : Step}

/-- The changes of the connection that have been published. -/
def changes (r : Run) : List (Connection × Connection) := r.records.filterMap Record.change?

/-- The move publishes how it changes the connection, if it does. -/
def Goes (r r' : Run) : Prop :=
  ∃ x : Option (Connection × Connection), r'.changes = r.changes ++ x.toList ∧
    match x with
    | none => r'.feed.connection = r.feed.connection
    | some (was, now) =>
      was = r.feed.connection ∧ now = r'.feed.connection ∧ was.canBecome now = true

theorem goes_of_eq (hr : r'.changes = r.changes) (hf : r'.feed.connection = r.feed.connection) :
    r.Goes r' := ⟨none, by simp [hr], hf⟩

theorem changes_take (r : Run) (cause : Cause) (s : Step) :
    (r.take cause s).changes = r.changes ++ s.change?.toList := by
  simp only [changes, take, List.filterMap_append, Step.filterMap_change?_records]

theorem take_goes (hs : s.Turns r.feed.connection) :
    r.Goes (r.take cause s) := by
  refine ⟨s.change?, changes_take r cause s, ?_⟩
  unfold Step.Turns at hs
  cases hc : s.change? with
  | none =>
    simp only [hc] at hs
    exact hs
  | some x =>
    obtain ⟨was, now⟩ := x
    simp only [hc] at hs
    obtain ⟨rfl, hnow, hcan⟩ := hs
    exact ⟨rfl, hnow, hcan⟩

theorem Makes.changes (hm : r.Makes a m q cause s) : q.changes = r.changes := by
  obtain ⟨isAlive, clock, frames, rfl⟩ := hm.before
  simp [Run.changes, List.filterMap_map, Function.comp_def, Record.change?]

theorem Makes.goes (hm : r.Makes a m q cause s) (hl : r.isAlive = true)
    (hs : s.Turns r.feed.connection) : r.Goes (r.step a m) := by
  have hgoes : q.Goes (q.take cause s) := take_goes (hm.feed ▸ hs)
  rw [hm.step hl]
  unfold Goes at hgoes ⊢
  rwa [hm.changes, hm.feed] at hgoes

theorem Idles.goes (hm : r.Idles a m) : r.Goes (r.step a m) := by
  obtain ⟨polls, hfeed⟩ := hm.feed
  refine goes_of_eq ?_ (by rw [hfeed]; rfl)
  have hnews : (r.news a m).filterMap Record.change? = [] := by
    rw [funext Record.change?_eq, ← List.filterMap_filterMap, hm.events]
    rfl
  rw [changes, records_step, List.filterMap_append, hnews, List.append_nil]
  rfl

theorem Upheld.turns (h : r.Upheld c) (hm : r.Makes a m q cause s) (hne : m ≠ .returned) :
    s.Turns r.feed.connection := by
  cases hm with
  | returned => exact absurd rfl hne
  | connect => exact Feed.Upheld.connect_turns h
  | disconnect => exact closeStream_turns .forget
  | reconnect => exact closeStream_turns .startOver
  | retire => exact closeStream_turns .retire
  | frame hi frame => exact Feed.Upheld.notice_turns h hi (.frame frame)
  | notice hi => exact Feed.Upheld.notice_turns h hi _
  | rang => exact rang_turns _ _
  | answer _ answer => exact polled_turns _ answer

theorem Upheld.goes_of_ne_returned (h : r.Upheld c) (hl : r.isAlive = true) (a : Answers)
    (hne : m ≠ .returned) : r.Goes (r.step a m) := by
  rcases step_cases hl a m with ⟨q, cause, s, hm⟩ | hm
  · exact hm.goes hl (h.turns hm hne)
  · exact hm.goes

/-- A call returns after which a fresh start is to follow, and finds that somebody has connected. -/
def isOvertaken (r : Run) : Move → Bool
  | .returned => r.stack.head?.any fun x ↦ x.next == .startOver && r.feed.connection != .disconnected
  | _ => false

/-- No fresh start is overtaken. -/
def isUndisturbed (r : Run) : List (Answers × Move) → Bool
  | [] => true
  | x :: moves => !r.isOvertaken x.2 && (r.live x.1 x.2).isUndisturbed moves

theorem isOvertaken_of_ne (h : m ≠ .returned) : r.isOvertaken m = false := by
  cases m with
  | returned => exact absurd rfl h
  | _ => rfl

/-- A call returns and drops the link, though somebody has made a connection meanwhile. -/
def cuts (r : Run) : Move → Bool
  | .returned => r.stack.head?.any fun x ↦ x.next.drops && r.feed.connection == .connected
  | _ => false

theorem cuts_of_ne (h : m ≠ .returned) : r.cuts m = false := by
  cases m with
  | returned => exact absurd rfl h
  | _ => rfl

theorem cuts_of_stack {x : Resume} {stack : List Resume} (hs : r.stack = x :: stack) :
    r.cuts .returned = (x.next.drops && r.feed.connection == .connected) := by
  simp [cuts, hs]

theorem isOvertaken_of_stack {x : Resume} {stack : List Resume} (hs : r.stack = x :: stack) :
    r.isOvertaken .returned =
      (x.next == .startOver && r.feed.connection != .disconnected) := by
  simp [isOvertaken, hs]

theorem exists_of_isOvertaken (h : r.isOvertaken m = true) :
    m = .returned ∧ ∃ x stack, r.stack = x :: stack ∧ x.next = .startOver := by
  cases m with
  | returned =>
    cases hs : r.stack with
    | nil => simp [isOvertaken, hs] at h
    | cons x stack =>
      rw [isOvertaken_of_stack hs, Bool.and_eq_true, beq_iff_eq] at h
      exact ⟨rfl, x, stack, rfl, h.1⟩
  | _ => cases h

/-- A retirement that is under way is the outermost call, and alone when it is the innermost. -/
theorem Lasting.eq_of_retire (h : r.Lasting) {x : Resume} {stack : List Resume}
    (hs : r.stack = x :: stack) (hx : x.next = .retire) :
    ∃ id, r.stack = [.link id .nothing .retire] := by
  have hmem : x ∈ r.stack := by simp [hs]
  cases hl : r.isAlive with
  | true => exact absurd hx (h.alive hl x hmem)
  | false =>
    obtain ⟨-, hend⟩ := h.retiring hl
    rcases hend with ⟨hnil, -⟩ | ⟨inner, id, hinner, hne⟩
    · simp [hnil] at hs
    · cases inner with
      | nil => exact ⟨id, hinner⟩
      | cons y inner =>
        have hxy : x = y := (List.cons.inj (hs.symm.trans hinner)).1
        exact absurd hx (hne x (hxy ▸ List.mem_cons_self ..))

theorem live_returned {x : Resume} {stack : List Resume} (hs : r.stack = x :: stack) (a : Answers) :
    r.live a .returned =
      { r with stack }.take .other (r.feed.resume (r.ledger.outside a) x) := by
  have hm : r.allows .returned = true := by simp [allows, Move.isCall, hs]
  rw [live_of_allows hm, step_returned_cons (r := r.awake) hs]
  simp [awake, take]

/-- The retirement returns, and the feed is gone. -/
theorem Lasting.gone (h : r.Lasting) {x : Resume} {stack : List Resume} (hs : r.stack = x :: stack)
    (hx : x.next = .retire) (a : Answers) :
    (r.live a .returned).changes = r.changes ∧ (r.live a .returned).isThere = false := by
  obtain ⟨id, hlast⟩ := h.eq_of_retire hs hx
  obtain ⟨rfl, rfl⟩ := List.cons.inj (hs.symm.trans hlast)
  have hdead : r.isAlive = false := by
    by_contra hlive
    exact h.alive (by simpa using hlive) (.link id .nothing .retire) (by simp [hs]) rfl
  rw [live_returned hs, resume_of_link_nothing]
  refine ⟨(changes_take _ _ _).trans (List.append_nil _), ?_⟩
  simp [isThere, hdead, take, proceed, Step.pending]

/-- A fresh start follows, wherever the connection is, over a link that has no channel yet. -/
theorem live_startOver {x : Resume} {stack : List Resume} (hs : r.stack = x :: stack)
    (ho : x.IsOrderly) (hx : x.next = .startOver) (a : Answers) :
    (r.live a .returned).feed.connection = .connecting ∧
      (r.live a .returned).feed.channel = none ∧
      (r.live a .returned).changes = r.changes ++ [(.disconnected, .connecting)] := by
  obtain ⟨id, rfl⟩ : ∃ id, x = .link id .nothing .startOver := by
    rcases ho with ho | ⟨id, ho⟩
    · exact absurd (ho.symm.trans hx) (by simp)
    · exact ⟨id, hx ▸ ho⟩
  have hfresh : r.feed.proceed (r.ledger.outside a) .startOver =
      r.feed.forget.connectFresh (r.ledger.outside a) := rfl
  rw [live_returned hs, resume_of_link_nothing, hfresh, connectFresh_eq]
  exact ⟨rfl, rfl, changes_take _ _ _⟩

/-- What a move in the life of a feed does to the trail: it goes on, or a fresh start is overtaken,
or the feed is gone. The last two cut off the connection, if there is one. -/
theorem Upheld.live_changes (h : r.Upheld c) (hl : r.Lasting) (a : Answers) (m : Move) :
    r.isOvertaken m = false ∧ r.cuts m = false ∧ r.Goes (r.live a m) ∨
    r.isOvertaken m = true ∧ r.cuts m = (r.feed.connection == .connected) ∧
      r.feed.connection ≠ .disconnected ∧ (r.live a m).feed.connection = .connecting ∧
      (r.live a m).changes = r.changes ++ [(.disconnected, .connecting)] ∨
    r.isOvertaken m = false ∧ r.cuts m = (r.feed.connection == .connected) ∧
      (r.live a m).changes = r.changes ∧ (r.live a m).isThere = false := by
  by_cases hret : m = .returned
  swap
  · refine .inl ⟨isOvertaken_of_ne hret, cuts_of_ne hret, ?_⟩
    by_cases hm : r.allows m = true
    · have hawake : r.awake.Upheld c := h
      rw [live_of_allows hm]
      exact hawake.goes_of_ne_returned rfl a hret
    · rw [live_of_not_allows hm]
      exact goes_of_eq rfl rfl
  subst hret
  cases hs : r.stack with
  | nil =>
    have hsame : (r.live a .returned).changes = r.changes ∧
        (r.live a .returned).feed.connection = r.feed.connection := by
      by_cases hm : r.allows .returned = true
      · rw [live_of_allows hm, step_returned_nil (r := r.awake) hs]
        exact ⟨rfl, rfl⟩
      · rw [live_of_not_allows hm]
        exact ⟨rfl, rfl⟩
    exact .inl ⟨by simp [isOvertaken, hs], by simp [cuts, hs], goes_of_eq hsame.1 hsame.2⟩
  | cons x stack =>
    have ho : x.IsOrderly := hl.orderly x (by simp [hs])
    have hover := isOvertaken_of_stack hs
    have hcuts := cuts_of_stack hs
    by_cases hretire : x.next = .retire
    · obtain ⟨hchanges, hgone⟩ := hl.gone hs hretire a
      exact .inr (.inr ⟨by simp [hover, hretire], by simp [hcuts, hretire, Next.drops], hchanges,
        hgone⟩)
    by_cases hlate : x.next = .startOver ∧ r.feed.connection ≠ .disconnected
    · obtain ⟨hnow, -, hchanges⟩ := live_startOver hs ho hlate.1 a
      exact .inr (.inl ⟨by simp [hover, hlate], by simp [hcuts, hlate.1, Next.drops], hlate.2, hnow,
        hchanges⟩)
    have hovertaken : ¬ x.IsOvertaken r.feed := by
      rintro ⟨hnext | hnext, hconnection⟩
      · exact hlate ⟨hnext, hconnection⟩
      · exact hretire hnext
    rw [live_returned hs]
    refine .inl ⟨?_, ?_, take_goes (r := { r with stack }) (resume_turns ho hovertaken)⟩
    · rw [hover]
      by_contra hb
      simp only [Bool.not_eq_false, Bool.and_eq_true, beq_iff_eq, bne_iff_ne] at hb
      exact hlate hb
    · rw [hcuts]
      by_contra hb
      simp only [Bool.not_eq_false, Bool.and_eq_true, beq_iff_eq] at hb
      rcases Next.eq_of_drops hb.1 with hnext | hnext
      · exact hlate ⟨hnext, by simp [hb.2]⟩
      · exact hretire hnext

/-- What the trail tells of a feed that is there. -/
structure Trailed (r : Run) : Prop where
  possible : ∀ x ∈ r.changes, x.1.canBecome x.2 = true
  reached : r.isThere = true → r.feed.connection = reached .disconnected r.changes

theorem trailed_start (c : Settings) (polls : Bool) (now : Int) : (start c polls now).Trailed :=
  ⟨by simp [changes, start], fun _ ↦ rfl⟩

theorem Trailed.goes (ht : r.Trailed) (hthere : r.isThere = true) (hg : r.Goes r') :
    r'.Trailed ∧
      (Unbroken .disconnected r'.changes ↔ Unbroken .disconnected r.changes) := by
  obtain ⟨x, hchanges, hx⟩ := hg
  have hreached := ht.reached hthere
  cases x with
  | none =>
    rw [Option.toList_none, List.append_nil] at hchanges
    rw [hchanges]
    refine ⟨⟨fun y hy ↦ ht.possible y (hchanges ▸ hy), fun _ ↦ ?_⟩, Iff.rfl⟩
    rw [hx, hreached, hchanges]
  | some y =>
    obtain ⟨was, now⟩ := y
    obtain ⟨hwas, hnow, hcan⟩ := hx
    rw [Option.toList_some] at hchanges
    refine ⟨⟨fun z hz ↦ ?_, fun _ ↦ ?_⟩, ?_⟩
    · rcases List.mem_append.1 (hchanges ▸ hz) with hz | hz
      · exact ht.possible z hz
      · rw [List.mem_singleton.1 hz]
        exact hcan
    · rw [hchanges, reached_append, ← hnow]
      rfl
    · rw [hchanges, unbroken_append, ← hreached]
      simp [Unbroken, hwas]

/-- A fresh start that is overtaken breaks the trail, which then goes on from the fresh link. -/
theorem Trailed.overtaken (ht : r.Trailed) (hthere : r.isThere = true)
    (hwas : r.feed.connection ≠ .disconnected) (hnow : r'.feed.connection = .connecting)
    (hchanges : r'.changes = r.changes ++ [(.disconnected, .connecting)]) :
    r'.Trailed ∧ ¬ Unbroken .disconnected r'.changes := by
  refine ⟨⟨fun x hx ↦ ?_, fun _ ↦ ?_⟩, ?_⟩
  · rcases List.mem_append.1 (hchanges ▸ hx) with hx | hx
    · exact ht.possible x hx
    · rw [List.mem_singleton.1 hx]
      rfl
  · rw [hchanges, reached_append, hnow]
    rfl
  · rw [hchanges, unbroken_append, ← ht.reached hthere]
    rintro ⟨-, hbreak, -⟩
    exact hwas hbreak.symm

theorem Trailed.live (ht : r.Trailed) (h : r.Upheld c) (hl : r.Lasting) (a : Answers) (m : Move) :
    (r.live a m).Trailed ∧
      (Unbroken .disconnected (r.live a m).changes ↔
        Unbroken .disconnected r.changes ∧ r.isOvertaken m = false) := by
  by_cases hthere : r.isThere = true
  · rcases h.live_changes hl a m with
      ⟨hover, -, hg⟩ | ⟨hover, -, hwas, hnow, hchanges⟩ | ⟨hover, -, hchanges, hgone⟩
    · obtain ⟨hr, hbroken⟩ := ht.goes hthere hg
      exact ⟨hr, by simp [hbroken, hover]⟩
    · obtain ⟨hr, hbroken⟩ := ht.overtaken hthere hwas hnow hchanges
      exact ⟨hr, by simp [hbroken, hover]⟩
    · refine ⟨⟨fun x hx ↦ ht.possible x (hchanges ▸ hx), fun hstill ↦ ?_⟩, by simp [hchanges, hover]⟩
      rw [hgone] at hstill
      cases hstill
  · obtain ⟨hdead, hstack⟩ : r.isAlive = false ∧ r.stack = [] := by simpa [isThere] using hthere
    have hm : ¬ r.allows m = true := fun hm ↦ (isCall_of_allows hm hdead).2 hstack
    have hover : r.isOvertaken m = false := by
      by_cases hret : m = .returned
      · simp [isOvertaken, hret, hstack]
      · exact isOvertaken_of_ne hret
    rw [live_of_not_allows hm]
    exact ⟨ht, by simp [hover]⟩

theorem Trailed.liveAll (ht : r.Trailed) (h : r.Upheld c) (hl : r.Lasting)
    (moves : List (Answers × Move)) :
    (r.liveAll moves).Trailed ∧
      (Unbroken .disconnected (r.liveAll moves).changes ↔
        Unbroken .disconnected r.changes ∧ r.isUndisturbed moves = true) := by
  induction moves generalizing r with
  | nil => exact ⟨ht, by simp [liveAll, isUndisturbed]⟩
  | cons x moves ih =>
    obtain ⟨ht', hstep⟩ := ht.live h hl x.1 x.2
    obtain ⟨hr, hrun⟩ := ih ht' (h.live x.1 x.2) (hl.live x.1 x.2)
    refine ⟨hr, hrun.trans ?_⟩
    rw [hstep, isUndisturbed]
    simp [and_assoc]

end Run

/-- In every life of a feed, whatever its subscribers call meanwhile, only possible changes of the
connection are published, and as long as the feed is there the last one leads to where the connection
is. They form one unbroken trail, unless somebody connects while a fresh start is about to drop the
link: exactly then the fresh link sets out from no connection though none has been reached. -/
theorem trail_unbroken_iff (c : Settings) (polls : Bool) (now : Int)
    (moves : List (Answers × Move)) :
    let r := (Run.start c polls now).liveAll moves
    (∀ x ∈ r.changes, x.1.canBecome x.2 = true) ∧
      (r.isThere = true → r.feed.connection = reached .disconnected r.changes) ∧
      (Unbroken .disconnected r.changes ↔ (Run.start c polls now).isUndisturbed moves = true) := by
  intro r
  obtain ⟨ht, hunbroken⟩ := (Run.trailed_start c polls now).liveAll
    (Run.upheld_start c polls now) (Run.lasting_start c polls now) moves
  refine ⟨ht.possible, ht.reached, hunbroken.trans ?_⟩
  simp [Run.changes, Run.start, Unbroken]

/-- A subscriber connects when it hears that the connection is over, which is not what it seems: a
fresh start is under way. -/
def overtakingMoves : List (Answers × Move) :=
  [.connect, .returned, .reconnect, .connect, .returned, .returned, .returned].map
    (⟨some (utf8 "token"), some true, true⟩, ·)

/-- The connection is twice announced to begin, and not to end in between. -/
theorem trail_broken :
    let r := (Run.start { source := utf8 "job" } false 0).liveAll overtakingMoves
    r.stack = [] ∧ r.feed.connection = .connecting ∧
      r.changes = [(.disconnected, .connecting), (.connecting, .disconnected),
        (.disconnected, .connecting), (.disconnected, .connecting)] ∧
      ¬ Unbroken .disconnected r.changes := by
  refine ⟨rfl, rfl, rfl, ?_⟩
  rintro ⟨-, -, -, hbreak, -⟩
  cases hbreak

end ProgressFeed.Feed
