import ProgressFeed.Proofs.Feed.Step
import Mathlib.Order.Nat

/-!
# What a feed does of its own accord

Frames and answers apart, a feed publishes changes of the connection and faults only. No step takes
the number of a link back.
-/

namespace ProgressFeed.Feed

/-- What the step publishes, if anything, is a change of the connection or a fault. -/
structure Step.IsOf (s : Step) (f : Feed) : Prop where
  event : ∀ e resume, s.pause = some (e, resume) →
    (∃ x was now, e = .state x was now) ∨ ∃ x y, e = .fault x y
  links : f.links ≤ s.feed.links

variable (f : Feed) (o : Outside)

theorem rest_isOf : f.rest.IsOf f := ⟨by simp [rest], le_rfl⟩

variable {f} in
theorem Step.IsOf.after {s : Step} (h : s.IsOf f) (commands : List Command) :
    (s.after commands).IsOf f := ⟨h.event, h.links⟩

theorem stopKeepalive_isOf : f.stopKeepalive.IsOf f := ⟨by simp [stopKeepalive], le_rfl⟩

theorem startKeepalive_isOf : (f.startKeepalive o).IsOf f := by
  unfold startKeepalive
  split
  · exact ⟨by simp [Step.after], le_rfl⟩
  · exact stopKeepalive_isOf f

theorem relay_isOf (call : Link.Call) (x : Resume) : (f.relay call x o).IsOf f := by
  cases call with
  | fault y => exact ⟨by simp [relay, publish], le_rfl⟩
  | state was now =>
    have hs : (if now = .connected then f.startKeepalive o else f.stopKeepalive).IsOf f := by
      split
      · exact startKeepalive_isOf f o
      · exact stopKeepalive_isOf f
    refine ⟨?_, hs.links⟩
    simp [relay, publish, Step.after]

theorem adopt_isOf (s : Link.Step) (next : Next) {rest : Feed → Step}
    (hrest : ∀ f, (rest f).IsOf f) : (f.adopt s next rest o).IsOf f := by
  refine Step.IsOf.after ?_ _
  split
  · exact ⟨(hrest _).event, (hrest { f with link := some s.link }).links⟩
  · rename_i call resume _
    have h := relay_isOf { f with link := some s.link } o call (.link s.link.id resume next)
    exact ⟨h.event, h.links⟩

theorem follow_isOf (s : Link.Step) : (f.follow s o).IsOf f := adopt_isOf f o s .nothing rest_isOf

theorem connectFresh_isOf : (f.connectFresh o).IsOf f := by
  have h := follow_isOf { f with links := f.links + 1 } o (f.freshLink.connect o)
  exact Step.IsOf.after ⟨h.event, (Nat.le_succ _).trans h.links⟩ _

theorem proceed_isOf (next : Next) : (f.proceed o next).IsOf f := by
  cases next with
  | nothing => exact rest_isOf f
  | forget => exact ⟨by simp [proceed, rest], le_rfl⟩
  | startOver =>
    have h := connectFresh_isOf f.forget o
    exact ⟨h.event, h.links⟩
  | retire => exact ⟨by simp [proceed], le_rfl⟩

theorem closeStream_isOf (next : Next) : (f.closeStream next o).IsOf f := by
  refine Step.IsOf.after ?_ _
  dsimp only
  split
  · have h := proceed_isOf { f.stopKeepalive.feed with epoch := f.epoch + 1 } o next
    exact ⟨h.event, h.links⟩
  · rename_i l _
    have h := adopt_isOf { f.stopKeepalive.feed with epoch := f.epoch + 1 } o l.disconnect next
      (proceed_isOf · o next)
    exact ⟨h.event, h.links⟩

theorem connect_isOf : (f.connect o).IsOf f := by
  unfold connect
  split
  · exact connectFresh_isOf f o
  · split
    · exact connectFresh_isOf f o
    · exact follow_isOf f o _

theorem rang_isOf (alarm : Nat) (task : Task) : (f.rang alarm o task).IsOf f := by
  cases task with
  | keepalive =>
    rw [rang, beat_eq]
    split
    · obtain ⟨hevent, hlinks⟩ := startKeepalive_isOf (f.rung alarm) o
      have h : ((f.rung alarm).startKeepalive o).IsOf f := ⟨hevent, hlinks⟩
      exact h.after _
    · obtain ⟨hevent, hlinks⟩ := rest_isOf (f.rung alarm)
      exact ⟨hevent, hlinks⟩
  | reopen id =>
    simp only [rang]
    split
    · exact rest_isOf f
    · exact follow_isOf f o _

theorem resume_isOf (x : Resume) : (f.resume o x).IsOf f := by
  cases x with
  | nothing => exact rest_isOf f
  | link id r next =>
    simp only [resume]
    split
    · exact proceed_isOf f o next
    · exact adopt_isOf f o _ next (proceed_isOf · o next)
  | delivered terminal epoch =>
    simp only [resume]
    split
    · exact closeStream_isOf f o .nothing
    · exact rest_isOf f

theorem notice_isOf (stamp : Stamp) {n : Channel.Notice} (hn : ∀ frame, n ≠ .frame frame) :
    (f.notice stamp n o).IsOf f := by
  unfold notice
  split
  · exact rest_isOf f
  · cases n with
    | frame frame => exact absurd rfl (hn frame)
    | opened | failed | closed => exact follow_isOf f o _

/-! ## What comes in from outside -/

theorem receiveFrame_links (frame : Channel.Frame) :
    (f.receiveFrame frame).feed.links = f.links := by
  unfold receiveFrame
  split
  · rfl
  · rename_i m _
    cases m <;> rfl

theorem polled_links (epoch : Nat) (answer : StatusAnswer) :
    (f.polled epoch answer).feed.links = f.links := by
  unfold polled
  split
  · split <;> rfl
  · rfl

end ProgressFeed.Feed
