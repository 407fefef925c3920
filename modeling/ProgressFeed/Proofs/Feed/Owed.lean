import ProgressFeed.Proofs.Feed.Upheld

/-!
# What a step leaves to do

Of what is left to do when an event has been delivered, only a closing of the stream makes that
something follows when the link has done its part.
-/

namespace ProgressFeed.Feed

variable {f : Feed} {o : Outside}

/-- What is to follow drops the link, whatever has become of it. -/
def Next.drops : Next → Bool
  | .startOver | .retire => true
  | .nothing | .forget => false

theorem Next.eq_of_drops {next : Next} (h : next.drops = true) :
    next = .startOver ∨ next = .retire := by
  cases next with
  | startOver => exact .inl rfl
  | retire => exact .inr rfl
  | nothing | forget => cases h

def Resume.next : Resume → Next
  | .link _ _ next => next
  | .nothing | .delivered .. => .nothing

/-- Only a link that has been told to disconnect, and has no more to do, is followed by something. -/
def Resume.IsOrderly (x : Resume) : Prop := x.next = .nothing ∨ ∃ id, x = .link id .nothing x.next

theorem resume_of_link_nothing (id : Nat) (next : Next) (o : Outside) :
    f.resume o (.link id .nothing next) = f.proceed o next := by
  cases hlink : f.linkOf? id with
  | none => simp [resume, hlink]
  | some l =>
    obtain ⟨hl, rfl⟩ := linkOf?_eq_some.1 hlink
    exact resume_link_nothing hl next o

/-- The step leaves at most `next` to follow. -/
def Step.Owes (s : Step) (next : Next) : Prop :=
  ∀ e x, s.pause = some (e, x) → x.IsOrderly ∧ (x.next = .nothing ∨ x.next = next)

variable {next : Next}

theorem Step.Owes.after {s : Step} (h : s.Owes next) (commands : List Command) :
    (s.after commands).Owes next := h

theorem Step.mem_pending {s : Step} {x : Resume} :
    x ∈ s.pending ↔ ∃ e, s.pause = some (e, x) := by
  simp [Step.pending]

theorem Step.Owes.of_mem {s : Step} (h : s.Owes .nothing) {x : Resume} (hx : x ∈ s.pending) :
    x.next = .nothing := by
  obtain ⟨e, hp⟩ := Step.mem_pending.1 hx
  exact or_self_iff.1 (h e x hp).2

theorem owes_of_pause_none {s : Step} (h : s.pause = none) (next : Next) : s.Owes next := by
  intro e x hp
  simp [h] at hp

theorem rest_owes : f.rest.Owes next := owes_of_pause_none rfl next

theorem publish_owes (e : Event) {x : Resume} (hx : x.next = .nothing) : (f.publish e x).Owes next := by
  rintro _ _ ⟨⟩
  exact ⟨.inl hx, .inl hx⟩

theorem startKeepalive_pause : (f.startKeepalive o).pause = none := by
  unfold startKeepalive
  split <;> rfl

theorem relay_owes (call : Link.Call) {x : Resume} (hx : x.next = .nothing) :
    (f.relay call x o).Owes next := by
  cases call with
  | fault e => exact publish_owes _ hx
  | state was now => exact (publish_owes _ hx).after _

theorem follow_owes (s : Link.Step) : (f.follow s o).Owes next := by
  refine Step.Owes.after ?_ _
  split
  · exact rest_owes
  · exact relay_owes _ rfl

theorem connectFresh_owes : (f.connectFresh o).Owes next := (follow_owes _).after _

theorem proceed_owes (n : Next) : (f.proceed o n).Owes next := by
  cases n with
  | nothing | forget => exact rest_owes
  | startOver => exact connectFresh_owes
  | retire => exact owes_of_pause_none rfl next

theorem closeStream_owes (next : Next) : (f.closeStream next o).Owes next := by
  cases hl : f.link with
  | none =>
    rw [closeStream_of_none hl]
    exact (proceed_owes next).after _
  | some l =>
    by_cases hs : l.state = .disconnected
    · rw [closeStream_of_disconnected hl hs]
      exact (proceed_owes next).after _
    · rw [closeStream_of_live hl hs]
      rintro _ _ ⟨⟩
      exact ⟨.inr ⟨l.id, rfl⟩, .inr rfl⟩

theorem connect_owes : (f.connect o).Owes next := by
  unfold connect
  split
  · exact connectFresh_owes
  · split
    · exact connectFresh_owes
    · exact follow_owes _

theorem deliver_owes (s : Snapshot) : (f.deliver s).Owes next := by
  rintro _ _ ⟨⟩
  exact ⟨.inl rfl, .inl rfl⟩

theorem receiveFrame_owes (frame : Channel.Frame) : (f.receiveFrame frame).Owes next := by
  unfold receiveFrame
  split
  · exact publish_owes _ rfl
  · rename_i m _
    cases m with
    | progress s => exact deliver_owes s
    | heartbeat | error => exact publish_owes _ rfl
    | connected | closing => exact rest_owes

theorem notice_owes (s : Stamp) (n : Channel.Notice) : (f.notice s n o).Owes next := by
  unfold notice
  split
  · exact rest_owes
  · cases n with
    | frame frame =>
      simp only
      split
      · exact receiveFrame_owes frame
      · exact rest_owes
    | opened | failed | closed => exact follow_owes _

theorem rang_owes (alarm : Nat) (task : Task) : (f.rang alarm o task).Owes next := by
  cases task with
  | keepalive =>
    rw [rang, beat_eq]
    split
    · exact (owes_of_pause_none startKeepalive_pause next).after _
    · exact rest_owes
  | reopen id =>
    simp only [rang]
    split
    · exact rest_owes
    · exact follow_owes _

theorem polled_owes (epoch : Nat) (answer : StatusAnswer) : (f.polled epoch answer).Owes next := by
  unfold polled
  split
  · split
    · exact publish_owes _ rfl
    · exact rest_owes
    · exact deliver_owes _
  · exact rest_owes

theorem resume_owes {x : Resume} (hx : x.IsOrderly) : (f.resume o x).Owes next := by
  rcases hx with hx | ⟨id, hx⟩
  · cases x with
    | nothing => exact rest_owes
    | delivered terminal epoch =>
      simp only [resume]
      split
      · intro e x hp
        obtain ⟨ho, hn⟩ := closeStream_owes .nothing e x hp
        exact ⟨ho, .inl (hn.elim (fun h ↦ h) (fun h ↦ h))⟩
      · exact rest_owes
    | link id r next =>
      cases hx
      simp only [resume]
      split
      · exact rest_owes
      · exact follow_owes _
  · rw [hx, resume_of_link_nothing]
    exact proceed_owes _

end ProgressFeed.Feed
