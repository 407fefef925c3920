import ProgressFeed.Feed
import ProgressFeed.Proofs.Ledger

/-!
# Shifted numbers

Links, channels, alarms and epochs are known by number only. A shift adds to all numbers; whatever
is done with shifted numbers is what is done without, shifted. Generations are shifted for every link
apart.
-/

namespace ProgressFeed

/-- What is added to the numbers of each kind. -/
structure Shift where
  link : Nat
  generation : Nat → Nat
  channel : Nat
  alarm : Nat
  epoch : Nat

namespace Shift

variable (σ : Shift)

def held (c : Channel.Held) : Channel.Held := { c with id := σ.channel + c.id }

def stamp (s : Stamp) : Stamp := ⟨σ.link + s.link, σ.generation s.link + s.generation⟩

def task : Task → Task
  | .reopen id => .reopen (σ.link + id)
  | .keepalive => .keepalive

def command : Command → Command
  | .create source token => .create source token
  | .open channel stamp => .open (σ.channel + channel) (σ.stamp stamp)
  | .close channel closing => .close (σ.channel + channel) closing
  | .send channel payload => .send (σ.channel + channel) payload
  | .setAlarm alarm delay task => .setAlarm (σ.alarm + alarm) delay (σ.task task)
  | .stopAlarm alarm => .stopAlarm (σ.alarm + alarm)
  | .fetch source epoch => .fetch source (σ.epoch + epoch)

def outside (o : Outside) : Outside :=
  { o with channel := o.channel.map σ.held, alarm := σ.alarm + o.alarm }

def linkOf (l : Link) : Link :=
  { l with
    id := σ.link + l.id
    channel := l.channel.map σ.held
    alarm := l.alarm.map (σ.alarm + ·)
    generation := σ.generation l.id + l.generation }

/-- What is left to the link of this number to do. -/
def call (id : Nat) : Link.Resume → Link.Resume
  | .nothing => .nothing
  | .dial g => .dial (σ.generation id + g)
  | .deny => .deny
  | .abandon g => .abandon (σ.generation id + g)
  | .settle g closing intentional => .settle (σ.generation id + g) closing intentional
  | .retry g => .retry (σ.generation id + g)

def linkStep (s : Link.Step) : Link.Step where
  link := σ.linkOf s.link
  commands := s.commands.map σ.command
  pause := s.pause.map fun p ↦ (p.1, σ.call s.link.id p.2)

def resume : Feed.Resume → Feed.Resume
  | .nothing => .nothing
  | .link id r next => .link (σ.link + id) (σ.call id r) next
  | .delivered terminal epoch => .delivered terminal (σ.epoch + epoch)

def feed (f : Feed) : Feed :=
  { f with
    link := f.link.map σ.linkOf
    links := σ.link + f.links
    keepalive := f.keepalive.map (σ.alarm + ·)
    epoch := σ.epoch + f.epoch }

def step (s : Feed.Step) : Feed.Step where
  feed := σ.feed s.feed
  commands := s.commands.map σ.command
  pause := s.pause.map fun p ↦ (p.1, σ.resume p.2)

def alarmOf (x : Clock.Alarm Task) : Clock.Alarm Task :=
  { x with id := σ.alarm + x.id, task := σ.task x.task }

def clock (c : Clock Task) : Clock Task :=
  { c with next := σ.alarm + c.next, alarms := c.alarms.map σ.alarmOf }

/-- The ledger behind some channels and some queries that were there before. -/
def ledger (opened : List Stamp) (queries : List Nat) (w : Ledger) : Ledger where
  clock := σ.clock w.clock
  opened := opened ++ w.opened.map σ.stamp
  queries := queries ++ w.queries.map (σ.epoch + ·)

variable {σ}

/-! ## The ledger -/

section Books

variable {opened : List Stamp} {queries : List Nat} {w : Ledger}

theorem outside_ledger (h : opened.length = σ.channel) (a : Answers) :
    (σ.ledger opened queries w).outside a = σ.outside (w.outside a) := by
  simp [Ledger.outside, ledger, outside, clock, held, h, Option.map_map, Function.comp_def]

theorem obey_ledger (c : Command) :
    (σ.ledger opened queries w).obey (σ.command c) = σ.ledger opened queries (w.obey c) := by
  cases c with
  | create | close | send => rfl
  | «open» | fetch => simp [Ledger.obey, ledger, command]
  | setAlarm => simp [Ledger.obey, ledger, command, clock, Clock.set, alarmOf, Nat.add_assoc]
  | stopAlarm alarm =>
    have hf : ∀ x : Clock.Alarm Task,
        ((σ.alarmOf x).id != σ.alarm + alarm) = (x.id != alarm) := by
      intro x
      simp [alarmOf, bne]
    simp [Ledger.obey, ledger, command, clock, Clock.stop, List.filter_map, Function.comp_def, hf]

theorem obeyAll_ledger (commands : List Command) :
    (σ.ledger opened queries w).obeyAll (commands.map σ.command) =
      σ.ledger opened queries (w.obeyAll commands) := by
  induction commands generalizing w with
  | nil => rfl
  | cons c commands ih => rw [List.map_cons, Ledger.obeyAll_cons, obey_ledger, ih, Ledger.obeyAll_cons]

theorem earliest_map (alarms : List (Clock.Alarm Task)) :
    Clock.earliest (alarms.map σ.alarmOf) = (Clock.earliest alarms).map σ.alarmOf := by
  have hb : ∀ x y, (σ.alarmOf x).before (σ.alarmOf y) = x.before y := by
    intro x y
    have hid : decide (σ.alarm + x.id < σ.alarm + y.id) = decide (x.id < y.id) := by simp
    exact congrArg (fun b ↦ decide (x.due < y.due) || (x.due == y.due && b)) hid
  induction alarms with
  | nil => rfl
  | cons x alarms ih =>
    simp only [List.map_cons, Clock.earliest, ih]
    cases Clock.earliest alarms with
    | none => rfl
    | some y =>
      simp only [Option.map_some, hb]
      split <;> rfl

theorem takeDue?_clock (c : Clock Task) (target : Int) :
    (σ.clock c).takeDue? target =
      (c.takeDue? target).map fun p ↦ (σ.alarmOf p.1, σ.clock p.2) := by
  have hfilter : (σ.clock c).alarms.filter (fun a ↦ decide (a.due ≤ target)) =
      (c.alarms.filter fun a ↦ decide (a.due ≤ target)).map σ.alarmOf := by
    rw [clock, List.filter_map]
    rfl
  have hstop : ∀ id, (σ.clock c).stop (σ.alarm + id) = σ.clock (c.stop id) := by
    intro id
    have h : (σ.ledger [] [] { clock := c }).obey (σ.command (.stopAlarm id)) =
        σ.ledger [] [] (Ledger.obey { clock := c } (.stopAlarm id)) := obey_ledger _
    exact congrArg Ledger.clock h
  simp only [Clock.takeDue?, hfilter, earliest_map, Option.map_map]
  congr 1
  funext x
  simp only [Function.comp_apply, Prod.mk.injEq, true_and]
  change { (σ.clock c).stop (σ.alarm + x.id) with now := x.due } = _
  rw [hstop]
  rfl

end Books

end Shift

end ProgressFeed
