import ProgressFeed.Proofs.Feed.Idle

/-!
# A run behind another, before the first link

As long as one of two runs has had no link and the other one has nothing but a spent link, the feeds
are idle alike. With the first connection they go on as two runs with a link, one behind the other.
-/

namespace ProgressFeed.Feed.Run

/-- `r` has had no link yet, and `r'` is `r` behind what had been before. -/
structure Unlinked (σ : Shift) (before r' r : Run) : Prop extends Alongside σ before r' r where
  idle : Idle σ before.ledger.opened r'.feed r.feed
  opened : r.ledger.opened = []
  alarms : r.ledger.clock.alarms = []
  calls : ∀ x ∈ r.stack, x.link? = none

/-- The two runs do the same, whether there has been a link or not. -/
inductive Renewed (channel alarm : Nat) (before r' r : Run) : Prop
  | unlinked (σ : Shift) (hc : σ.channel = channel) (ha : σ.alarm = alarm)
      (h : Unlinked σ before r' r)
  | behind (σ : Shift) (hc : σ.channel = channel) (ha : σ.alarm = alarm)
      (h : Behind σ before r' r)

variable {σ : Shift} {before r' r : Run}

/-- As long as there are no links it does not matter how links are shifted. -/
theorem Unlinked.on (h : Unlinked σ before r' r) (link generation : Nat) :
    Alongside (σ.on link generation) before r' r := by
  refine ⟨h.channels, h.queries, h.isAlive, ?_, ?_, h.records⟩
  · rw [h.ledger]
    simp [Shift.ledger, Shift.clock, Shift.on, h.opened, h.alarms]
  · rw [h.stack]
    refine List.map_congr_left fun x hx ↦ ?_
    have hx := h.calls x hx
    cases x with
    | nothing | delivered => rfl
    | link => cases hx

theorem Unlinked.take (h : Unlinked σ before r' r) {s' s : Step}
    (hf : Idle σ before.ledger.opened s'.feed s.feed) (hc' : s'.commands = [])
    (hc : s.commands = []) (hp : s'.pause = s.pause.map fun p ↦ (p.1, σ.resume p.2))
    (hcalls : ∀ e x, s.pause = some (e, x) → x.link? = none) (cause : Cause) :
    Unlinked σ before (r'.take cause s') (r.take cause s) := by
  refine ⟨h.toAlongside.take (by simp [hc', hc]) hp cause, hf, ?_, ?_, fun x hx ↦ ?_⟩
  · simpa [Run.take, hc] using h.opened
  · simpa [Run.take, hc] using h.alarms
  · rcases List.mem_append.1 hx with hx | hx
    · obtain ⟨p, hp, rfl⟩ := Option.map_eq_some_iff.1 (Option.mem_toList.1 hx)
      exact hcalls p.1 p.2 hp
    · exact h.calls x hx

theorem Unlinked.rest (h : Unlinked σ before r' r) {f' f : Feed}
    (hf : Idle σ before.ledger.opened f' f) (cause : Cause) :
    Unlinked σ before (r'.take cause { feed := f' }) (r.take cause { feed := f }) :=
  h.take hf rfl rfl rfl (by simp) cause

theorem Unlinked.link (h : Unlinked σ before r' r) {link generation : Nat} {s : Step}
    (hs : s.feed.links = 1)
    (hstale : ∀ x ∈ before.ledger.opened, ∀ t, (σ.on link generation).stamp t ≠ x) (cause : Cause) :
    Behind (σ.on link generation) before (r'.take cause ((σ.on link generation).step s))
      (r.take cause s) := by
  refine ⟨(h.on link generation).take rfl rfl cause, rfl, hstale, fun i hi ↦ ?_⟩
  have hi : i ≠ 0 := by
    change s.feed.links ≤ i at hi
    omega
  simp [Shift.on, hi]

theorem Unlinked.ifAlive (h : Unlinked σ before r' r) {channel alarm : Nat} {q' q : Run}
    (hc : σ.channel = channel) (ha : σ.alarm = alarm) (hq : Renewed channel alarm before q' q) :
    Renewed channel alarm before (r'.ifAlive q') (r.ifAlive q) := by
  unfold Run.ifAlive
  rw [h.isAlive]
  split
  · exact hq
  · exact .unlinked σ hc ha h

theorem Unlinked.connectFresh (h : Unlinked σ before r' r) {f' f : Feed}
    (hf : Idle σ before.ledger.opened f' f) (o o' : Outside) :
    Renewed σ.channel σ.alarm before (r'.take .other (f'.connectFresh o'))
      (r.take .other (f.connectFresh o)) := by
  rw [hf.connectFresh o o']
  refine .behind (σ.on f'.links 0) rfl rfl (h.link ?_ ?_ .other)
  · rw [connectFresh_eq]
    simp [hf.links]
  · rintro s hs t rfl
    have hlt := hf.stale _ hs
    simp only [Shift.stamp, Shift.on] at hlt
    omega

theorem Unlinked.closeStream (h : Unlinked σ before r' r) (next : Next) (o o' : Outside) :
    Renewed σ.channel σ.alarm before (r'.take .other (r'.feed.closeStream next o'))
      (r.take .other (r.feed.closeStream next o)) := by
  obtain ⟨hc', hc⟩ := h.idle.closeStream next o o'
  rw [hc', hc]
  have hidle := h.idle.closed
  cases next with
  | nothing => exact .unlinked σ rfl rfl (h.rest hidle .other)
  | forget => exact .unlinked σ rfl rfl (h.rest hidle.forget .other)
  | startOver => exact h.connectFresh hidle.forget o o'
  | retire =>
    refine .unlinked σ rfl rfl (h.take hidle.forget.dropLink hidle.forget.farewell ?_ rfl
      (by simp [proceed]) .other)
    simp [proceed, Feed.farewell, Feed.closed, h.idle.link]

theorem Unlinked.advance (h : Unlinked σ before r' r) (target : Int) (a : Answers) :
    Unlinked σ before (r'.step a (.advance target)) (r.step a (.advance target)) := by
  have halarms : r'.ledger.clock.alarms = [] := by
    rw [h.ledger]
    simp [Shift.ledger, Shift.clock, h.alarms]
  have hdue : ∀ c : Clock Task, c.alarms = [] → c.takeDue? target = none := by
    intro c hc
    simp [Clock.takeDue?, hc, Clock.earliest]
  simp only [Run.step, hdue _ h.alarms, hdue _ halarms]
  exact ⟨⟨h.channels, h.queries, h.isAlive, by simp only [h.ledger]; rfl, h.stack, h.records⟩, h.idle,
    h.opened, h.alarms, h.calls⟩

theorem Unlinked.answer (h : Unlinked σ before r' r) (epoch : Nat) (x : StatusAnswer) :
    Unlinked σ before (r'.take .answer (r'.feed.polled (σ.epoch + epoch) x))
      (r.take .answer (r.feed.polled epoch x)) := by
  have hsettings := h.idle.settings
  have hepoch : r'.feed.epoch = σ.epoch + r.feed.epoch := by rw [h.idle.feed]
  have he : r'.feed.epoch = σ.epoch + epoch ↔ r.feed.epoch = epoch := by
    rw [hepoch]
    exact Nat.add_left_cancel_iff
  unfold Feed.polled
  simp only [he]
  split
  · rcases x with e | _ | s
    · refine h.take h.idle rfl rfl ?_ ?_ .answer
      · simp [publishFault, publish, hsettings, Shift.resume]
      · simp [publishFault, publish, Resume.link?]
    · exact h.rest h.idle .answer
    · refine h.take (h.idle.seen s) rfl rfl ?_ ?_ .answer
      · simp [deliver, publish, Shift.resume, hepoch]
      · simp [deliver, publish, Resume.link?]
  · exact h.rest h.idle .answer

theorem Unlinked.returned (h : Unlinked σ before r' r) (a : Answers) :
    Renewed σ.channel σ.alarm before (r'.step a .returned) (r.step a .returned) := by
  cases hs : r.stack with
  | nil =>
    have hs' : r'.stack = [] := by rw [h.stack, hs]; rfl
    rw [step_returned_nil hs, step_returned_nil hs']
    exact .unlinked σ rfl rfl h
  | cons x stack =>
    have hs' : r'.stack = σ.resume x :: stack.map σ.resume := by rw [h.stack, hs]; rfl
    have hcalls : ∀ y ∈ stack, y.link? = none := fun y hy ↦
      h.calls y (by rw [hs]; exact List.mem_cons_of_mem _ hy)
    have hpop : Unlinked σ before { r' with stack := stack.map σ.resume } { r with stack } :=
      ⟨⟨h.channels, h.queries, h.isAlive, h.ledger, rfl, h.records⟩, h.idle, h.opened, h.alarms,
        hcalls⟩
    have hx := h.calls x (by rw [hs]; exact List.mem_cons_self ..)
    have hepoch : r'.feed.epoch = σ.epoch + r.feed.epoch := by rw [h.idle.feed]
    rw [step_returned_cons hs, step_returned_cons hs']
    cases x with
    | nothing => exact .unlinked σ rfl rfl (hpop.rest h.idle .other)
    | link => cases hx
    | delivered terminal epoch =>
      have he : (r'.feed.epoch == σ.epoch + epoch) = (r.feed.epoch == epoch) := by simp [hepoch]
      simp only [Feed.resume, Shift.resume, he, h.idle.settings]
      split
      · exact hpop.closeStream .nothing _ _
      · exact .unlinked σ rfl rfl (hpop.rest h.idle .other)

theorem Unlinked.step (h : Unlinked σ before r' r) (a : Answers) {m m₀ : Move}
    (hm : m.later? σ.channel before.ledger.queries.length = some m₀) :
    Renewed σ.channel σ.alarm before (r'.step a m) (r.step a m₀) := by
  cases m with
  | connect =>
    cases hm
    -- Whether the spent link connects again or makes way for a new one decides about the shift.
    obtain ⟨link, generation, hconnect, hstale⟩ :=
      h.idle.connect (r.ledger.outside a) (r'.ledger.outside a)
    have hlinks : (r.feed.connect (r.ledger.outside a)).feed.links = 1 := by
      simp [Feed.connect, h.idle.link, connectFresh_eq, h.idle.links]
    refine h.ifAlive rfl rfl (.behind (σ.on link generation) rfl rfl ?_)
    rw [hconnect]
    exact h.link hlinks hstale .other
  | disconnect =>
    cases hm
    exact h.ifAlive rfl rfl (h.closeStream .forget _ _)
  | reconnect =>
    cases hm
    exact h.ifAlive rfl rfl (h.closeStream .startOver _ _)
  | keepalive =>
    cases hm
    obtain ⟨hs', hs⟩ := h.idle.sendKeepalive (r.ledger.outside a) (r'.ledger.outside a)
    simp only [Run.step, hs, hs']
    refine h.ifAlive rfl rfl (.unlinked σ rfl rfl ?_)
    exact ⟨(h.toAlongside.give []).taken false, h.idle, h.opened, h.alarms, h.calls⟩
  | refresh =>
    cases hm
    simp only [Run.step, h.idle.refresh]
    refine h.ifAlive rfl rfl (.unlinked σ rfl rfl ⟨h.toAlongside.give _, h.idle, ?_, ?_, h.calls⟩)
    · have hopened := h.opened
      simp only [Run.give, Feed.refresh]
      split <;> exact hopened
    · have halarms := h.alarms
      simp only [Run.give, Feed.refresh]
      split <;> exact halarms
  | setPolls polls =>
    cases hm
    exact h.ifAlive rfl rfl (.unlinked σ rfl rfl
      ⟨⟨h.channels, h.queries, h.isAlive, h.ledger, h.stack, h.records⟩, h.idle.setPolls polls,
        h.opened, h.alarms, h.calls⟩)
  | retire =>
    cases hm
    have hdead : Unlinked σ before { r' with isAlive := false } { r with isAlive := false } :=
      ⟨⟨h.channels, h.queries, rfl, h.ledger, h.stack, h.records⟩, h.idle, h.opened, h.alarms, h.calls⟩
    exact h.ifAlive rfl rfl (hdead.closeStream .retire _ _)
  | notice channel n =>
    obtain ⟨i, rfl, rfl⟩ := Move.later?_notice hm
    simp only [Run.step, h.toAlongside.opened, h.opened, List.getElem?_nil, Option.map_none]
    exact .unlinked σ rfl rfl h
  | advance target =>
    cases hm
    exact .unlinked σ rfl rfl (h.advance target a)
  | answer query x =>
    obtain ⟨i, rfl, rfl⟩ := Move.later?_answer hm
    simp only [Run.step, h.toAlongside.asked]
    cases r.ledger.queries[i]? with
    | none => exact .unlinked σ rfl rfl h
    | some epoch =>
      simp only [Option.map_some]
      exact .unlinked σ rfl rfl (h.answer epoch x)
  | returned =>
    cases hm
    exact h.returned a

theorem Unlinked.step_stale (h : Unlinked σ before r' r) (a : Answers) {m : Move}
    (hm : m.later? σ.channel before.ledger.queries.length = none) : r'.step a m = r' := by
  refine h.toAlongside.step_stale (fun s hs n o ↦ ?_) (fun i _ ↦ ?_) ?_ a hm
  · exact notice_of_ne (fun l hl hid ↦ ((h.idle.spent l hl).young s hs hid.symm).ne') n o
  · cases hl : r'.feed.link with
    | none => simp [channel, hl]
    | some l => simp [channel, hl, (h.idle.spent l hl).channel]
  · rw [h.idle.feed]
    exact Nat.le_add_right _ _

namespace Renewed

variable {channel alarm : Nat}

theorem step (h : Renewed channel alarm before r' r) (a : Answers) {m m₀ : Move}
    (hm : m.later? channel before.ledger.queries.length = some m₀) :
    Renewed channel alarm before (r'.step a m) (r.step a m₀) := by
  rcases h with ⟨σ, rfl, rfl, h⟩ | ⟨σ, rfl, rfl, h⟩
  · exact h.step a hm
  · exact .behind σ rfl rfl (h.step a hm)

theorem step_stale (h : Renewed channel alarm before r' r) (a : Answers) {m : Move}
    (hm : m.later? channel before.ledger.queries.length = none) : r'.step a m = r' := by
  rcases h with ⟨σ, rfl, rfl, h⟩ | ⟨σ, rfl, rfl, h⟩
  · exact h.step_stale a hm
  · exact h.step_stale a hm

theorem play (h : Renewed channel alarm before r' r) (moves : List (Answers × Move)) :
    Renewed channel alarm before (r'.play moves) (r.play (moves.filterMap fun x ↦
      (x.2.later? channel before.ledger.queries.length).map (x.1, ·))) := by
  induction moves generalizing r' r with
  | nil => exact h
  | cons x moves ih =>
    cases hm : x.2.later? channel before.ledger.queries.length with
    | none =>
      simp only [play_cons, List.filterMap_cons, hm, Option.map_none, h.step_stale x.1 hm]
      exact ih h
    | some m₀ =>
      simp only [play_cons, List.filterMap_cons, hm, Option.map_some]
      exact ih (h.step x.1 hm)

end Renewed

end ProgressFeed.Feed.Run
