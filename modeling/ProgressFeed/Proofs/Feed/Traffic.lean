import ProgressFeed.Proofs.Feed.Moves
import ProgressFeed.Proofs.Feed.Told
import ProgressFeed.Proofs.Link.Traffic

/-!
# The channels of a feed

A feed holds the channel of its link. When it drops a link, it closes the channel that this still
holds.
-/

namespace ProgressFeed.Feed

variable {c : Settings} {f : Feed} {w : Ledger} {stack : List Resume} {a : Answers} {o : Outside}
  {l : Link}

theorem channel_eq_held (hl : f.link = some l) : f.channel = l.held := by
  simp [channel, Link.held, hl]

theorem channel_eq_none (hl : f.link = none) : f.channel = none := by
  simp [channel, hl]

theorem channel_congr {f' : Feed} (hl : f'.link = f.link) : f'.channel = f.channel := by
  simp [channel, hl]

theorem Upheld.lt_of_channel (h : f.Upheld c w stack) {i : Nat} (hi : f.channel = some i) :
    i < w.opened.length := by
  cases hl : f.link with
  | none => simp [channel_eq_none hl] at hi
  | some l =>
    rw [channel_eq_held hl] at hi
    exact (h.link l hl).lt_of_held hi

/-- The commands of the step lead from the channel that was held to the one that the feed holds. -/
def Step.Hands (s : Step) (w : Ledger) (a : Answers) (held : Option Nat) : Prop :=
  w.Handover a held s.commands s.feed.channel

theorem Step.Hands.after {s : Step} {commands : List Command} {held held' : Option Nat}
    (h : w.Handover a held commands held') (hs : s.Hands (w.obeyAll commands) a held') :
    (s.after commands).Hands w a held := h.append hs

/-- The step leaves channels alone. -/
structure Step.IsCalm (s : Step) (f : Feed) : Prop where
  link : s.feed.link = f.link
  commands : ∀ d ∈ s.commands, d.IsAside

theorem Step.IsCalm.hands {s : Step} (h : s.IsCalm f) (w : Ledger) (a : Answers) :
    s.Hands w a f.channel := by
  unfold Step.Hands
  rw [channel_congr h.link]
  exact Ledger.handover_of_isAside h.commands f.channel

theorem rest_isCalm : f.rest.IsCalm f := ⟨rfl, by simp [rest]⟩

theorem publish_isCalm (e : Event) (x : Resume) : (f.publish e x).IsCalm f :=
  ⟨rfl, by simp [publish]⟩

theorem stopKeepalive_isCalm : f.stopKeepalive.IsCalm f := by
  refine ⟨rfl, ?_⟩
  cases hk : f.keepalive <;> simp [stopKeepalive, hk, Command.IsAside]

theorem startKeepalive_isCalm : (f.startKeepalive o).IsCalm f := by
  have hs := stopKeepalive_isCalm (f := f)
  unfold startKeepalive
  split
  · refine ⟨rfl, fun d hd ↦ ?_⟩
    rcases List.mem_append.1 hd with hd | hd
    · exact hs.commands d hd
    · rw [List.mem_singleton.1 hd]
      trivial
  · exact hs

theorem relay_isCalm (call : Link.Call) (x : Resume) : (f.relay call x o).IsCalm f := by
  cases call with
  | fault e => exact publish_isCalm _ x
  | state was now =>
    have hs : (if now = .connected then f.startKeepalive o else f.stopKeepalive).IsCalm f := by
      split
      · exact startKeepalive_isCalm
      · exact stopKeepalive_isCalm
    refine ⟨hs.link, fun d hd ↦ hs.commands d ?_⟩
    simpa [relay, publish, Step.after] using hd

/-- A link hands a channel over, and what follows sets out from there. -/
theorem adopt_hands {s : Link.Step} {held : Option Nat} (hs : s.Hands w a held) (next : Next)
    {rest : Feed → Step}
    (hrest : (rest { f with link := some s.link }).Hands (w.obeyAll s.commands) a s.link.held) :
    (f.adopt s next rest o).Hands w a held := by
  refine Step.Hands.after hs ?_
  split
  · exact hrest
  · exact (relay_isCalm (f := { f with link := some s.link }) _ _).hands _ a

theorem follow_hands {s : Link.Step} {held : Option Nat} (hs : s.Hands w a held) :
    (f.follow s o).Hands w a held :=
  adopt_hands hs .nothing ((rest_isCalm (f := { f with link := some s.link })).hands _ a)

theorem handover_farewell (h : ∀ i, f.channel = some i → i < w.opened.length) :
    w.Handover a f.channel f.farewell none := by
  cases hl : f.link with
  | none =>
    rw [channel_eq_none hl]
    simp only [Feed.farewell, hl, Option.elim_none]
    exact Ledger.handover_nil none
  | some l =>
    rw [channel_eq_held hl]
    simp only [Feed.farewell, hl, Option.elim_some]
    exact Link.handover_farewell fun i hi ↦ h i ((channel_eq_held hl).trans hi)

theorem connectFresh_hands (h : ∀ i, f.channel = some i → i < w.opened.length) :
    (f.connectFresh o).Hands w a f.channel := by
  rw [connectFresh_eq]
  exact (handover_farewell h).append
    (Ledger.handover_of_isAside (stopKeepalive_isCalm (f := f)).commands none)

theorem proceed_hands (h : ∀ i, f.channel = some i → i < w.opened.length) (next : Next) :
    (f.proceed o next).Hands w a f.channel := by
  cases next with
  | nothing => exact rest_isCalm.hands w a
  | forget => exact (rest_isCalm (f := f.forget)).hands w a
  | startOver => exact connectFresh_hands (f := f.forget) h
  | retire => exact handover_farewell h

theorem Upheld.closeStream_hands (h : f.Upheld c w stack) (next : Next) :
    (f.closeStream next o).Hands w a f.channel := by
  have hstop := (stopKeepalive_isCalm (f := f)).commands
  have hproceed : ∀ w : Ledger, (f.closed.proceed o next).Hands w a none := by
    intro w
    have hp := proceed_hands (f := f.closed) (w := w) (a := a) (o := o) (by simp) next
    rwa [channel_closed] at hp
  cases hl : f.link with
  | none =>
    rw [closeStream_of_none hl, channel_eq_none hl]
    exact Ledger.Handover.after_isAside (hproceed _) hstop
  | some l =>
    have hfarewell : (w.obeyAll f.stopKeepalive.commands).Handover a l.held l.farewell none := by
      refine Link.handover_farewell fun i hi ↦ ?_
      rw [Ledger.opened_obeyAll_of_isAside hstop]
      exact (h.link l hl).lt_of_held hi
    have hclose := Ledger.Handover.after_isAside hfarewell hstop
    rw [channel_eq_held hl]
    by_cases hs : l.state = .disconnected
    · rw [closeStream_of_disconnected hl hs]
      exact hclose.append (hproceed _)
    · rw [closeStream_of_live hl hs]
      unfold Step.Hands
      rwa [channel_closed]

theorem Upheld.connect_hands (h : f.Upheld c w stack) :
    (f.connect (w.outside a)).Hands w a f.channel := by
  unfold Feed.connect
  split
  · exact connectFresh_hands fun i hi ↦ h.lt_of_channel hi
  · rename_i l hl
    split
    · exact connectFresh_hands fun i hi ↦ h.lt_of_channel hi
    · rw [channel_eq_held hl]
      exact follow_hands (h.link l hl).connect_hands

theorem receiveFrame_isCalm (frame : Channel.Frame) : (f.receiveFrame frame).IsCalm f := by
  refine ⟨?_, by simp⟩
  rw [receiveFrame_eq]
  split <;> rfl

theorem notice_frame_isCalm {stamp : Stamp} (frame : Channel.Frame) :
    (f.notice stamp (.frame frame) o).IsCalm f := by
  unfold notice
  split
  · exact rest_isCalm
  · simp only
    split
    · exact receiveFrame_isCalm frame
    · exact rest_isCalm

theorem notice_hands {stamp : Stamp} {n : Channel.Notice} (hn : ∀ frame, n ≠ .frame frame)
    (hl : ∀ l : Link, (l.notice stamp.generation n o).IsCalm l) :
    (f.notice stamp n o).Hands w a f.channel := by
  unfold notice
  split
  · exact rest_isCalm.hands w a
  · rename_i l hlink
    rw [channel_eq_held (linkOf?_eq_some.1 hlink).1]
    cases n with
    | frame frame => exact absurd rfl (hn frame)
    | opened | failed | closed => exact follow_hands ((hl l).hands w a)

theorem polled_isCalm (epoch : Nat) (answer : StatusAnswer) : (f.polled epoch answer).IsCalm f := by
  unfold polled
  split
  · split
    · exact publish_isCalm _ _
    · exact rest_isCalm
    · exact ⟨rfl, by simp [deliver, publish]⟩
  · exact rest_isCalm

theorem Upheld.rang_hands (h : f.Upheld c w stack) {x : Clock.Alarm Task} (hx : x ∈ w.clock.alarms) :
    let w' := { w with clock := w.clock.stop x.id }
    (f.rang x.id (w'.outside a) x.task).Hands w' a f.channel := by
  intro w'
  cases ht : x.task with
  | keepalive =>
    have hlink : (f.rung x.id).link = f.link := rfl
    rw [Feed.rang, beat_eq, ← channel_congr hlink]
    split
    · exact Ledger.Handover.after_isAside (startKeepalive_isCalm.hands _ a) sendKeepalive_isAside
    · exact rest_isCalm.hands w' a
  | reopen id =>
    obtain ⟨l, hl, hid, hmem⟩ := h.link_of_reopen hx ht
    simp only [Feed.rang, linkOf?_eq_some.2 ⟨hl, hid⟩, channel_eq_held hl]
    exact follow_hands ((h.link l hl).rang_hands hmem)

theorem Upheld.resume_hands {x : Resume} (h : f.Upheld c w (x :: stack)) :
    (f.resume (w.outside a) x).Hands w a f.channel := by
  have hlt : ∀ i, f.channel = some i → i < w.opened.length := fun i hi ↦ h.lt_of_channel hi
  cases x with
  | nothing => exact rest_isCalm.hands w a
  | delivered terminal epoch =>
    simp only [Feed.resume]
    split
    · exact h.closeStream_hands .nothing
    · exact rest_isCalm.hands w a
  | link id r next =>
    simp only [Feed.resume]
    split
    · exact proceed_hands hlt next
    · rename_i l hlink
      obtain ⟨hl, hid⟩ := linkOf?_eq_some.1 hlink
      have hu : l.Upheld w (r :: Feed.calls l.id stack) := by
        have hu := h.link l hl
        rwa [Feed.calls, List.filterMap_cons, Resume.call?, if_pos hid.symm] at hu
      have hup := hu.resume (a := a)
      rw [channel_eq_held hl]
      exact adopt_hands hu.resume_hands next
        (proceed_hands (f := { f with link := some _ }) (fun i hi ↦ hup.lt_of_held hi) next)

/-! ## Runs -/

namespace Run

variable {r q : Run} {m : Move} {cause : Cause} {s : Step}

/-- The channel that is held, and how many there have been. -/
def custody (r : Run) : Custody := ⟨r.feed.channel, r.ledger.opened.length⟩

/-- A channel that tells of its end. -/
def endings (r : Run) : Move → List Happening
  | .notice i (.closed _) => if i < r.ledger.opened.length then [.ended i] else []
  | _ => []

/-- What a move means for the channels. -/
def doings (r : Run) (a : Answers) (m : Move) : List Happening :=
  r.endings m ++ happenings r.ledger a ((r.news a m).filterMap Record.command?)

theorem happenings_congr {w w' : Ledger} (h : w.opened = w'.opened) (commands : List Command) :
    happenings w a commands = happenings w' a commands := by
  induction commands generalizing w w' with
  | nil => rfl
  | cons d commands ih =>
    have hd : d.happening? w a = d.happening? w' a := by
      cases d <;> simp [Command.happening?, Ledger.outside, h]
    have ho : (w.obey d).opened = (w'.obey d).opened := by
      cases d <;> simp [Ledger.obey, h]
    rw [happenings, happenings, hd, ih ho]

theorem Makes.traffic (hm : r.Makes a m q cause s) (hl : r.isAlive = true) {held : Option Nat}
    (hs : s.Hands q.ledger a held) :
    Traffic ⟨held, r.ledger.opened.length⟩
      (happenings r.ledger a ((r.news a m).filterMap Record.command?)) (r.step a m).custody := by
  rw [hm.commands hl, hm.step hl, happenings_congr hm.opened.symm, ← hm.opened]
  exact hs

theorem Idles.traffic (h : r.Idles a m) :
    Traffic r.custody (happenings r.ledger a ((r.news a m).filterMap Record.command?))
      (r.step a m).custody := by
  obtain ⟨polls, hfeed⟩ := h.feed
  have hcustody : (r.step a m).custody = r.custody := by
    rw [custody, hfeed, h.opened]
    rfl
  rw [Ledger.happenings_of_isAside h.commands, hcustody]
  exact .nil _

/-- The held channel is let go when it tells of its end, and other channels have no one to tell. -/
theorem Upheld.closed_hands (h : r.Upheld c) {i : Nat} {s : Stamp}
    (hi : r.ledger.opened[i]? = some s) (closing : Channel.Closing) (a : Answers) :
    (r.feed.notice s (.closed closing) (r.ledger.outside a)).Hands r.ledger a
      (r.feed.channel.filter (· != i)) := by
  by_cases hheld : r.feed.channel = some i
  · obtain ⟨l, hlink, hg⟩ := (h.channel_eq_iff hi).1 hheld
    have hfilter : r.feed.channel.filter (· != i) = none := by simp [hheld]
    simp only [Feed.notice, hlink, hfilter]
    exact follow_hands (Link.closed_hands hg closing r.ledger a)
  · have hfilter : r.feed.channel.filter (· != i) = r.feed.channel := by
      cases hc : r.feed.channel with
      | none => rfl
      | some j =>
        have hj : j ≠ i := fun he ↦ hheld (hc.trans (congrArg some he))
        simp [Option.filter, hj]
    have hrest : r.feed.notice s (.closed closing) (r.ledger.outside a) = r.feed.rest :=
      notice_of_ne (fun l hl hid hg ↦ hheld ((h.channel_eq_iff hi).2
        ⟨l, linkOf?_eq_some.2 ⟨hl, hid⟩, hg⟩)) _ _
    rw [hfilter, hrest]
    exact rest_isCalm.hands r.ledger a

/-- At a move at which no channel ends. -/
theorem Upheld.hands (h : r.Upheld c) (hm : r.Makes a m q cause s) (hend : r.endings m = []) :
    s.Hands q.ledger a r.feed.channel := by
  cases hm with
  | connect => exact Feed.Upheld.connect_hands h
  | disconnect => exact Feed.Upheld.closeStream_hands h .forget
  | reconnect => exact Feed.Upheld.closeStream_hands h .startOver
  | retire => exact Feed.Upheld.closeStream_hands h .retire
  | frame hi frame => exact (notice_frame_isCalm frame).hands _ a
  | @notice i stamp hi n hn =>
    cases n with
    | frame frame => exact absurd rfl (hn frame)
    | opened => exact notice_hands hn fun l ↦ Link.opened_isCalm
    | failed message => exact notice_hands hn fun l ↦ Link.failed_isCalm message
    | closed closing =>
      have hlen : i < r.ledger.opened.length := (List.getElem?_eq_some_iff.1 hi).1
      simp [endings, hlen] at hend
  | rang hx =>
    obtain ⟨y, hy, he⟩ := Option.map_eq_some_iff.1 hx
    obtain ⟨rfl, rfl⟩ := Prod.mk.inj he
    have hmem : y ∈ r.ledger.clock.alarms := (List.mem_filter.1 (Clock.earliest_mem hy)).1
    exact Feed.Upheld.rang_hands (Feed.Upheld.at h y.due) hmem
  | answer hq answer => exact (polled_isCalm _ answer).hands _ a
  | @returned x stack hs =>
    have hx : r.feed.Upheld c r.ledger (x :: stack) := hs ▸ h
    exact hx.resume_hands

theorem Upheld.traffic (h : r.Upheld c) (hl : r.isAlive = true) (a : Answers) (m : Move) :
    Traffic r.custody (r.doings a m) (r.step a m).custody := by
  by_cases hend : r.endings m = []
  · rw [doings, hend, List.nil_append]
    rcases step_cases hl a m with ⟨q, cause, s, hm⟩ | hm
    · exact hm.traffic hl (h.hands hm hend)
    · exact hm.traffic
  · obtain ⟨i, closing, rfl, hlen⟩ : ∃ i closing, m = .notice i (.closed closing) ∧
        i < r.ledger.opened.length := by
      unfold endings at hend
      split at hend
      · rename_i i closing
        exact ⟨i, closing, rfl, by by_contra hlen; exact hend (if_neg hlen)⟩
      · exact absurd rfl hend
    have hi : r.ledger.opened[i]? = some r.ledger.opened[i] := List.getElem?_eq_getElem hlen
    rw [doings, endings, if_pos hlen]
    have hm := Makes.notice (a := a) hi (n := .closed closing) nofun
    exact .finish hlen (hm.traffic hl (h.closed_hands hi closing a))

end Run

end ProgressFeed.Feed
