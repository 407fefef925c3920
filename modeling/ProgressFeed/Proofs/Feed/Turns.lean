import ProgressFeed.Proofs.Feed.Owed
import ProgressFeed.Proofs.Link.Turns

/-!
# How the connection of a feed changes

What a link announces the feed publishes. It takes a link that is apart already out of service
without a word, and the fresh one begins apart; but what follows a closing of the stream is done when
the event has been delivered, and somebody may have connected again by then.
-/

namespace ProgressFeed

def Event.change? : Event → Option (Connection × Connection)
  | .state _ was now => some (was, now)
  | .snapshot _ | .heartbeat .. | .fault .. => none

namespace Feed

variable {c : Settings} {f : Feed} {w : Ledger} {stack : List Resume} {o : Outside} {l : Link}

/-- The change of the connection that the step publishes. -/
def Step.change? (s : Step) : Option (Connection × Connection) := s.pause.bind (·.1.change?)

/-- The step changes the connection from `was` only by a change that is possible, and publishes it. -/
def Step.Turns (s : Step) (was : Connection) : Prop :=
  match s.change? with
  | none => s.feed.connection = was
  | some (x, now) => x = was ∧ now = s.feed.connection ∧ was.canBecome now = true

theorem Step.Turns.after {s : Step} {was : Connection} (h : s.Turns was) (commands : List Command) :
    (s.after commands).Turns was := h

theorem rest_turns : f.rest.Turns f.connection := rfl

/-- Whatever is published that is no change of the connection. -/
theorem turns_of_change?_none {s : Step} (hs : s.change? = none) (hl : s.feed.link = f.link) :
    s.Turns f.connection := by
  unfold Step.Turns
  simp only [hs, connection, hl]

theorem startKeepalive_link : (f.startKeepalive o).feed.link = f.link := by
  obtain ⟨keepalive, h⟩ := startKeepalive_keeps f o
  rw [h]

theorem startKeepalive_change? : (f.startKeepalive o).change? = none := by
  simp [Step.change?, startKeepalive_pause]

theorem relay_link (call : Link.Call) (x : Resume) : (f.relay call x o).feed.link = f.link := by
  obtain ⟨keepalive, h⟩ := relay_keeps f call x o
  rw [h]

theorem relay_change? (call : Link.Call) (x : Resume) :
    (f.relay call x o).change? = call.change? := by
  cases call with
  | fault e => rfl
  | state was now =>
    simp only [relay]
    split <;> rfl

/-- What follows when the link has nothing to say finds the connection as it was. -/
theorem adopt_turns {s : Link.Step} {was : Connection} (hs : s.Turns was) (next : Next)
    {rest : Feed → Step}
    (hrest : s.link.state = was → (rest { f with link := some s.link }).Turns was) :
    (f.adopt s next rest o).Turns was := by
  refine Step.Turns.after ?_ _
  cases hp : s.pause with
  | none =>
    have hchange : s.change? = none := by simp [Link.Step.change?, hp]
    unfold Link.Step.Turns at hs
    simp only [hchange] at hs
    exact hrest hs
  | some p =>
    obtain ⟨call, resume⟩ := p
    have hchange : s.change? = call.change? := by simp [Link.Step.change?, hp]
    unfold Step.Turns connection
    unfold Link.Step.Turns at hs
    simp only [relay_change?, relay_link, Option.elim_some]
    rwa [hchange] at hs

theorem follow_turns {s : Link.Step} {was : Connection} (hs : s.Turns was) :
    (f.follow s o).Turns was := by
  refine adopt_turns hs .nothing fun h ↦ ?_
  rw [← h]
  exact rest_turns

/-- The fresh link comes from no connection, whatever there was. -/
theorem connectFresh_turns : (f.connectFresh o).Turns .disconnected := by
  rw [connectFresh_eq]
  exact ⟨rfl, rfl, rfl⟩

theorem proceed_turns {next : Next}
    (h : next = .startOver ∨ next = .retire → f.connection = .disconnected) :
    (f.proceed o next).Turns f.connection := by
  cases next with
  | nothing => exact rest_turns
  | forget => exact rest_turns (f := f.forget)
  | startOver =>
    rw [h (.inl rfl)]
    exact connectFresh_turns
  | retire =>
    rw [h (.inr rfl)]
    rfl

theorem closeStream_turns (next : Next) : (f.closeStream next o).Turns f.connection := by
  have hproceed : (f.closed.proceed o next).Turns .disconnected := by
    have h : (f.closed.proceed o next).Turns f.closed.connection :=
      proceed_turns fun _ ↦ connection_closed
    rwa [connection_closed] at h
  cases hl : f.link with
  | none =>
    have hf : f.connection = .disconnected := by simp [connection, hl]
    rw [closeStream_of_none hl, hf]
    exact hproceed.after _
  | some l =>
    have hf : f.connection = l.state := by simp [connection, hl]
    by_cases hs : l.state = .disconnected
    · rw [closeStream_of_disconnected hl hs, hf, hs]
      exact hproceed.after _
    · rw [closeStream_of_live hl hs, hf]
      exact ⟨rfl, connection_closed.symm, Connection.canBecome_disconnected hs⟩

theorem Upheld.connect_turns (h : f.Upheld c w stack) : (f.connect o).Turns f.connection := by
  unfold Feed.connect
  split
  · rename_i hl
    have hf : f.connection = .disconnected := by simp [connection, hl]
    rw [hf]
    exact connectFresh_turns
  · rename_i l hl
    have hf : f.connection = l.state := by simp [connection, hl]
    rw [hf]
    split
    · rename_i ht
      rw [(h.link l hl).sound.terminal ht]
      exact connectFresh_turns
    · exact follow_turns Link.connect_falls.turns

theorem receiveFrame_turns (frame : Channel.Frame) : (f.receiveFrame frame).Turns f.connection := by
  unfold receiveFrame
  split
  · exact turns_of_change?_none rfl rfl
  · rename_i m _
    cases m <;> exact turns_of_change?_none rfl rfl

theorem Upheld.notice_turns (h : f.Upheld c w stack) {i : Nat} {s : Stamp}
    (hi : w.opened[i]? = some s) (n : Channel.Notice) : (f.notice s n o).Turns f.connection := by
  unfold Feed.notice
  split
  · exact rest_turns
  · rename_i l hlink
    obtain ⟨hl, hid⟩ := linkOf?_eq_some.1 hlink
    have hf : f.connection = l.state := by simp [connection, hl]
    have hn := fun n ↦ (h.link l hl).notice_turns (o := o) hi hid.symm n
    cases n with
    | frame frame =>
      simp only
      split
      · exact receiveFrame_turns frame
      · exact rest_turns
    | opened =>
      rw [hf]
      exact follow_turns (hn .opened)
    | failed message =>
      rw [hf]
      exact follow_turns (hn (.failed message))
    | closed closing =>
      rw [hf]
      exact follow_turns (hn (.closed closing))

theorem rang_turns (alarm : Nat) (task : Task) : (f.rang alarm o task).Turns f.connection := by
  cases task with
  | keepalive =>
    rw [rang, beat_eq]
    split
    · have hlink : ((f.rung alarm).startKeepalive o).feed.link = f.link := startKeepalive_link
      exact (turns_of_change?_none startKeepalive_change? hlink).after _
    · exact turns_of_change?_none rfl rfl
  | reopen id =>
    simp only [rang]
    split
    · exact rest_turns
    · rename_i l hlink
      have hf : f.connection = l.state := by simp [connection, (linkOf?_eq_some.1 hlink).1]
      rw [hf]
      exact follow_turns (Link.rang_falls alarm).turns

theorem polled_turns (epoch : Nat) (answer : StatusAnswer) :
    (f.polled epoch answer).Turns f.connection := by
  unfold polled
  split
  · split <;> exact turns_of_change?_none rfl rfl
  · exact rest_turns

/-! ## What follows a closing -/

/-- What follows a closing finds that somebody has connected again. -/
def Resume.IsOvertaken (f : Feed) (x : Resume) : Prop :=
  (x.next = .startOver ∨ x.next = .retire) ∧ f.connection ≠ .disconnected

theorem resume_turns {x : Resume} (hx : x.IsOrderly) (h : ¬ x.IsOvertaken f) :
    (f.resume o x).Turns f.connection := by
  rcases hx with hx | ⟨id, hx⟩
  · cases x with
    | nothing => exact rest_turns
    | delivered terminal epoch =>
      simp only [resume]
      split
      · exact closeStream_turns .nothing
      · exact rest_turns
    | link id r next =>
      cases hx
      simp only [resume]
      split
      · exact rest_turns
      · rename_i l hlink
        have hf : f.connection = l.state := by simp [connection, (linkOf?_eq_some.1 hlink).1]
        rw [hf]
        exact follow_turns (Link.resume_falls r).turns
  · rw [hx, resume_of_link_nothing]
    refine proceed_turns fun hn ↦ ?_
    by_contra hc
    exact h ⟨hn, hc⟩

end Feed

end ProgressFeed
