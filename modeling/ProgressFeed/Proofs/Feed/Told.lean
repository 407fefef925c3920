import ProgressFeed.Proofs.Feed.Own
import ProgressFeed.Proofs.Feed.Upheld

/-!
# What is told of the frames

Every frame of the held channel is read by itself, and what it says is published at once: a snapshot,
a sign of life of the server, or a fault. Nothing is kept back, joined or reordered.
-/

namespace ProgressFeed

namespace Channel.Frame

variable (source : Bytes) (f : Frame)

def snapshot? : Option Snapshot :=
  match Message.ofFrame source f with
  | .ok (.progress s) => some s
  | _ => none

def heartbeat? : Option Event :=
  match Message.ofFrame source f with
  | .ok (.heartbeat source active timestamp) => some (.heartbeat source active timestamp)
  | _ => none

/-- What is wrong with the frame, or on the server's side. -/
def fault? : Option Fault :=
  match Message.ofFrame source f with
  | .error rejection =>
    some { kind := .decode, message := utf8 "decode failure: " ++ rejection.text }
  | .ok (.error message (some type) _) =>
    some { kind := .server, message := type ++ utf8 ": " ++ message }
  | .ok (.error message none _) => some { kind := .server, message }
  | _ => none

/-- The event that a frame gives rise to. -/
def event? : Option Event :=
  ((f.snapshot? source).map .snapshot).or
    ((f.heartbeat? source).or ((f.fault? source).map (.fault source)))

end Channel.Frame

namespace Feed

def seen (f : Feed) (s : Snapshot) : Feed :=
  { f with phases := f.phases.observe s.phase, latest := some s }

/-- What a frame changes: nothing, unless there is a snapshot in it. -/
theorem receiveFrame_eq (f : Feed) (frame : Channel.Frame) :
    f.receiveFrame frame =
      match frame.snapshot? f.settings.source with
      | some s =>
        { feed := f.seen s, pause := some (.snapshot s, .delivered s.isTerminal f.epoch) }
      | none =>
        { feed := f, pause := (frame.event? f.settings.source).map (·, .nothing) } := by
  unfold receiveFrame Channel.Frame.event? Channel.Frame.snapshot? Channel.Frame.heartbeat?
    Channel.Frame.fault?
  cases hm : Message.ofFrame f.settings.source frame with
  | error rejection => simp [publishFault, publish, Message.Rejection.fault]
  | ok m =>
    cases m with
    | progress s => rfl
    | heartbeat => rfl
    | connected | closing => rfl
    | error message type details => cases type <;> rfl

theorem receiveFrame_pause (f : Feed) (frame : Channel.Frame) :
    (f.receiveFrame frame).pause.map Prod.fst = frame.event? f.settings.source := by
  rw [receiveFrame_eq]
  split
  · rename_i s hs
    simp [Channel.Frame.event?, hs]
  · rw [Option.map_map]
    exact Option.map_id'

@[simp] theorem receiveFrame_commands (f : Feed) (frame : Channel.Frame) :
    (f.receiveFrame frame).commands = [] := by
  rw [receiveFrame_eq]
  split <;> rfl

/-! ## Records -/

namespace Record

def frame? : Record → Option Channel.Frame
  | .frame f => some f
  | .command _ | .event .. | .taken _ => none

/-- An event to which a frame has led. -/
def ofFrame? : Record → Option Event
  | .event .frame e => some e
  | .event .answer _ | .event .other _ | .command _ | .frame _ | .taken _ => none

/-- A snapshot that is not the answer to a query. -/
def snapshot? : Record → Option Snapshot
  | .event .frame (.snapshot s) | .event .other (.snapshot s) => some s
  | _ => none

def heartbeat? : Record → Option Event
  | .event _ (.heartbeat source active timestamp) => some (.heartbeat source active timestamp)
  | _ => none

/-- A fault to which a frame has led. -/
def fault? : Record → Option Fault
  | .event .frame (.fault _ f) => some f
  | _ => none

end Record

/-- The events to which frames have led are what the frames say, and there are no other snapshots,
answers apart, and no other signs of life. -/
structure Told (source : Bytes) (records : List Record) : Prop where
  events : records.filterMap Record.ofFrame? =
    (records.filterMap Record.frame?).filterMap (·.event? source)
  snapshots : records.filterMap Record.snapshot? =
    (records.filterMap Record.frame?).filterMap (·.snapshot? source)
  heartbeats : records.filterMap Record.heartbeat? =
    (records.filterMap Record.frame?).filterMap (·.heartbeat? source)
  faults : records.filterMap Record.fault? =
    (records.filterMap Record.frame?).filterMap (·.fault? source)

/-- A record that has nothing to do with frames. -/
structure Record.IsAside (x : Record) : Prop where
  frame : x.frame? = none
  event : x.ofFrame? = none
  snapshot : x.snapshot? = none
  heartbeat : x.heartbeat? = none
  fault : x.fault? = none

variable {source : Bytes} {records more : List Record}

theorem Told.append (h : Told source records) (h' : Told source more) :
    Told source (records ++ more) := by
  constructor
  · simp only [List.filterMap_append, h.events, h'.events]
  · simp only [List.filterMap_append, h.snapshots, h'.snapshots]
  · simp only [List.filterMap_append, h.heartbeats, h'.heartbeats]
  · simp only [List.filterMap_append, h.faults, h'.faults]

theorem told_of_isAside (h : ∀ x ∈ records, x.IsAside) : Told source records := by
  have hf : records.filterMap Record.frame? = [] :=
    List.filterMap_eq_nil_iff.2 fun x hx ↦ (h x hx).frame
  constructor <;> rw [hf] <;> refine List.filterMap_eq_nil_iff.2 fun x hx ↦ ?_
  · exact (h x hx).event
  · exact (h x hx).snapshot
  · exact (h x hx).heartbeat
  · exact (h x hx).fault

theorem told_frame (f : Channel.Frame) :
    Told source (.frame f :: ((f.event? source).map (Record.event .frame)).toList) := by
  cases hm : Message.ofFrame source f with
  | error rejection =>
    constructor <;>
      simp [Channel.Frame.event?, Channel.Frame.snapshot?, Channel.Frame.heartbeat?,
        Channel.Frame.fault?, Record.frame?, Record.ofFrame?, Record.snapshot?, Record.heartbeat?,
        Record.fault?, List.filterMap_cons, hm]
  | ok m =>
    rcases m with s | ⟨src, active, time⟩ | ⟨src, time⟩ | ⟨message, type | type, details⟩ |
        ⟨src, message, time⟩ <;> constructor <;>
      simp [Channel.Frame.event?, Channel.Frame.snapshot?, Channel.Frame.heartbeat?,
        Channel.Frame.fault?, Record.frame?, Record.ofFrame?, Record.snapshot?, Record.heartbeat?,
        Record.fault?, List.filterMap_cons, hm]

/-! ## Runs -/

namespace Run

variable {c : Settings} {r : Run}

theorem isAside_command (d : Command) : (Record.command d).IsAside := ⟨rfl, rfl, rfl, rfl, rfl⟩

theorem told_give (h : Told source r.records) (commands : List Command) :
    Told source (r.give commands).records := by
  refine h.append (told_of_isAside fun x hx ↦ ?_)
  obtain ⟨d, -, rfl⟩ := List.mem_map.1 hx
  exact isAside_command d

theorem told_take {s : Step} {cause : Cause} (h : Told source r.records)
    (hs : ∀ e resume, s.pause = some (e, resume) → (Record.event cause e).IsAside) :
    Told source (r.take cause s).records := by
  refine h.append (told_of_isAside fun x hx ↦ ?_)
  rcases List.mem_append.1 hx with hx | hx
  · obtain ⟨d, -, rfl⟩ := List.mem_map.1 hx
    exact isAside_command d
  · obtain ⟨p, hp, rfl⟩ := Option.map_eq_some_iff.1 (Option.mem_toList.1 hx)
    exact hs p.1 p.2 hp

theorem told_own {f : Feed} {s : Step} (h : Told source r.records) (hs : s.IsOf f) :
    Told source (r.take .other s).records := by
  refine told_take h fun e resume hp ↦ ?_
  rcases hs.event e resume hp with ⟨x, was, now, rfl⟩ | ⟨x, y, rfl⟩ <;> exact ⟨rfl, rfl, rfl, rfl, rfl⟩

theorem told_ifAlive {r' : Run} (h : Told source r.records) (h' : Told source r'.records) :
    Told source (r.ifAlive r').records := by
  unfold ifAlive
  split
  · exact h'
  · exact h

theorem step_frame_of_held (hu : r.Upheld c) {i : Nat} (hi : r.feed.channel = some i)
    (frame : Channel.Frame) (a : Answers) :
    r.step a (.notice i (.frame frame)) =
      (r.note (.frame frame)).take .frame (r.feed.receiveFrame frame) := by
  cases hl : r.feed.link with
  | none => simp [channel, hl] at hi
  | some l =>
    have hc : l.channel.map Channel.Held.id = some i := by simpa [channel, hl] using hi
    have hs := ((hu.link l hl).stamped.channel i).2 hc
    have hlink : r.feed.linkOf? l.id = some l := linkOf?_eq_some.2 ⟨hl, rfl⟩
    simp [step, hs, hear, hi, notice, Link.hears, Link.stamp, hlink]

theorem step_frame_of_not_held (hu : r.Upheld c) {i : Nat} (hi : r.feed.channel ≠ some i)
    (frame : Channel.Frame) (a : Answers) : r.step a (.notice i (.frame frame)) = r := by
  simp only [step]
  split
  · rfl
  · rename_i s hs
    have hn : r.feed.notice s (.frame frame) (r.ledger.outside a) = r.feed.rest :=
      notice_of_ne (fun l hl hid hg ↦ hi ((hu.channel_eq_iff hs).2
        ⟨l, linkOf?_eq_some.2 ⟨hl, hid⟩, hg⟩)) _ _
    simp only [hear, if_neg hi, hn, take_rest]

theorem told_step (hu : r.Upheld c) (h : Told c.source r.records) (a : Answers) (m : Move) :
    Told c.source (r.step a m).records := by
  cases m with
  | connect => exact told_ifAlive h (told_own h (connect_isOf _ _))
  | disconnect => exact told_ifAlive h (told_own h (closeStream_isOf _ _ _))
  | reconnect => exact told_ifAlive h (told_own h (closeStream_isOf _ _ _))
  | keepalive =>
    refine told_ifAlive h (Told.append (told_give h _) (told_of_isAside fun x hx ↦ ?_))
    rw [List.mem_singleton.1 hx]
    exact ⟨rfl, rfl, rfl, rfl, rfl⟩
  | refresh => exact told_ifAlive h (told_give h _)
  | setPolls polls => exact told_ifAlive h h
  | retire => exact told_ifAlive h (told_own (r := { r with isAlive := false }) h
      (closeStream_isOf _ _ _))
  | notice channel n =>
    cases n with
    | frame frame =>
      by_cases hi : r.feed.channel = some channel
      · rw [step_frame_of_held hu hi]
        have hf := receiveFrame_pause r.feed frame
        rw [hu.settings] at hf
        have he : ((r.note (.frame frame)).take .frame (r.feed.receiveFrame frame)).records =
            r.records ++ .frame frame ::
              ((frame.event? c.source).map (Record.event .frame)).toList := by
          simp [take, note, Step.records, ← hf, Option.map_map, Function.comp_def]
        rw [he]
        exact h.append (told_frame frame)
      · rw [step_frame_of_not_held hu hi]
        exact h
    | opened | failed | closed =>
      simp only [step]
      split
      · exact h
      · exact told_own h (notice_isOf _ _ _ (by simp))
  | advance target =>
    simp only [step]
    split
    · exact h
    · rename_i x clock _
      exact told_own (r := { r with ledger := { r.ledger with clock } }) h (rang_isOf _ _ _ _)
  | answer query answer =>
    simp only [step]
    split
    · exact h
    · refine told_take h fun e resume hp ↦ ?_
      unfold polled at hp
      split at hp
      · split at hp <;> cases hp <;> exact ⟨rfl, rfl, rfl, rfl, rfl⟩
      · cases hp
  | returned =>
    simp only [step]
    split
    · exact h
    · rename_i x stack _
      exact told_own (r := { r with stack }) h (resume_isOf _ _ x)

theorem told_play (c : Settings) (polls : Bool) (now : Int) (moves : List (Answers × Move)) :
    Told c.source ((start c polls now).play moves).records := by
  refine (play_induction (P := fun r ↦ r.Upheld c ∧ Told c.source r.records)
    (fun r a m h ↦ ⟨h.1.step a m, told_step h.1 h.2 a m⟩) ⟨upheld_start c polls now, ?_⟩ moves).2
  exact told_of_isAside (by simp [start])

end Run

end Feed

end ProgressFeed
