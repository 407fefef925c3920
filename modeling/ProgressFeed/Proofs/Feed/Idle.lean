import ProgressFeed.Proofs.Feed.Alongside

/-!
# Idle feeds

After a disconnect a feed may still have a link, but one that is apart and waits for nothing. Until
the next connection the feed does what it would do without.
-/

namespace ProgressFeed

namespace Feed

/-- A link that is left from before and that nobody can tell from a fresh one, except by its number,
its generation and being terminal. -/
structure Spent (opened : List Stamp) (f : Feed) (l : Link) : Prop where
  state : l.state = .disconnected
  channel : l.channel = none
  alarm : l.alarm = none
  attempts : l.attempts = 0
  source : l.source = f.settings.source
  backoff : l.backoff = f.settings.backoff
  id : l.id + 1 = f.links
  young : ∀ s ∈ opened, s.link = l.id → s.generation < l.generation

/-- The feed `f` has had no link yet, and `f'` is like it, with nothing but a spent link. -/
structure Idle (σ : Shift) (opened : List Stamp) (f' f : Feed) : Prop where
  feed : f' = { f with link := f'.link, links := f'.links, epoch := σ.epoch + f.epoch }
  link : f.link = none
  links : f.links = 0
  keepalive : f.keepalive = none
  spent : ∀ l, f'.link = some l → Spent opened f' l
  stale : ∀ s ∈ opened, s.link < f'.links

variable {σ : Shift} {opened : List Stamp} {f' f : Feed} {o o' : Outside}

theorem Spent.farewell {l : Link} (h : Spent opened f l) : l.farewell = [] := by
  simp [Link.farewell, Link.stopCommand, h.alarm, h.channel]

namespace Idle

theorem keepalive' (h : Idle σ opened f' f) : f'.keepalive = none := by
  rw [h.feed]
  exact h.keepalive

theorem settings (h : Idle σ opened f' f) : f'.settings = f.settings := by
  rw [h.feed]

theorem farewell (h : Idle σ opened f' f) : f'.farewell = [] := by
  cases hl : f'.link with
  | none => simp [Feed.farewell, hl]
  | some l => simpa [Feed.farewell, hl] using (h.spent l hl).farewell

theorem connection (h : Idle σ opened f' f) : f'.connection = .disconnected := by
  cases hl : f'.link with
  | none => simp [Feed.connection, hl]
  | some l => simp [Feed.connection, hl, (h.spent l hl).state]

theorem attempts (h : Idle σ opened f' f) : f'.attempts = 0 := by
  cases hl : f'.link with
  | none => simp [Feed.attempts, hl]
  | some l => simp [Feed.attempts, hl, (h.spent l hl).attempts]

/-! ## What leaves the feeds idle -/

theorem closed (h : Idle σ opened f' f) : Idle σ opened f'.closed f.closed := by
  have hfeed := h.feed
  refine ⟨?_, by simp [Feed.closed, h.link], h.links, rfl, ?_, h.stale⟩
  · rw [Feed.closed, hfeed]
    rfl
  · intro l hl
    obtain ⟨m, hm, rfl⟩ := Option.map_eq_some_iff.1 hl
    have hs := h.spent m hm
    exact ⟨rfl, rfl, rfl, rfl, hs.source, hs.backoff, hs.id,
      fun s hmem hid ↦ Nat.lt_succ_of_lt (hs.young s hmem hid)⟩

theorem forget (h : Idle σ opened f' f) : Idle σ opened f'.forget f.forget := by
  have hfeed := h.feed
  refine ⟨?_, h.link, h.links, h.keepalive, fun l hl ↦ ?_, h.stale⟩
  · rw [Feed.forget, hfeed]
    rfl
  · have hs := h.spent l hl
    exact ⟨hs.state, hs.channel, hs.alarm, hs.attempts, hs.source, hs.backoff, hs.id, hs.young⟩

theorem dropLink (h : Idle σ opened f' f) :
    Idle σ opened { f' with link := none } { f with link := none } := by
  have hfeed := h.feed
  refine ⟨?_, rfl, h.links, h.keepalive, by simp, h.stale⟩
  rw [hfeed]

theorem setPolls (h : Idle σ opened f' f) (polls : Bool) :
    Idle σ opened { f' with polls } { f with polls } := by
  have hfeed := h.feed
  refine ⟨?_, h.link, h.links, h.keepalive, fun l hl ↦ ?_, h.stale⟩
  · rw [hfeed]
  · have hs := h.spent l hl
    exact ⟨hs.state, hs.channel, hs.alarm, hs.attempts, hs.source, hs.backoff, hs.id, hs.young⟩

theorem seen (h : Idle σ opened f' f) (s : Snapshot) :
    Idle σ opened { f' with phases := f'.phases.observe s.phase, latest := some s }
      { f with phases := f.phases.observe s.phase, latest := some s } := by
  have hfeed := h.feed
  refine ⟨?_, h.link, h.links, h.keepalive, fun l hl ↦ ?_, h.stale⟩
  · rw [hfeed]
  · have hs := h.spent l hl
    exact ⟨hs.state, hs.channel, hs.alarm, hs.attempts, hs.source, hs.backoff, hs.id, hs.young⟩

theorem closeStream (h : Idle σ opened f' f) (next : Next) (o o' : Outside) :
    f'.closeStream next o' = f'.closed.proceed o' next ∧
      f.closeStream next o = f.closed.proceed o next := by
  have hafter : ∀ s : Step, s.after [] = s := fun s ↦ rfl
  have hstop' : f'.stopKeepalive.commands = [] := by simp [stopKeepalive, h.keepalive']
  have hstop : f.stopKeepalive.commands = [] := by simp [stopKeepalive, h.keepalive]
  constructor
  · cases hl : f'.link with
    | none => rw [closeStream_of_none hl, hstop', hafter]
    | some l =>
      have hs := h.spent l hl
      rw [closeStream_of_disconnected hl hs.state, hstop', hs.farewell, List.nil_append, hafter]
  · rw [closeStream_of_none h.link, hstop, hafter]

end Idle

/-! ## The next connection -/

end Feed

/-- The shift for feeds that have links from now on: the first one is, for the other feed, the one of
this number, and has so many generations behind it. -/
def Shift.on (σ : Shift) (link generation : Nat) : Shift :=
  { σ with link, generation := fun i ↦ if i = 0 then generation else 0 }

namespace Feed.Idle

variable {σ : Shift} {opened : List Stamp} {f' f : Feed} {o o' : Outside}

theorem newLink_eq (h : f.links = 0) :
    f.newLink =
      { id := 0, source := f.settings.source, backoff := f.settings.backoff, state := .connecting
        generation := 1 } := by
  simp [newLink, freshLink, Link.anew, h]

/-- The step of a feed that announces its first connection, in the other feed. -/
theorem step_connectFresh (h : Idle σ opened f' f) (link generation : Nat) :
    (σ.on link generation).step (f.connectFresh o) =
      { feed :=
          { f' with
            link := some
              { id := link, source := f.settings.source, backoff := f.settings.backoff
                state := .connecting, generation := generation + 1 }
            links := link + 1 }
        pause := some (.state f.settings.source .disconnected .connecting,
          .link link (.dial (generation + 1)) .nothing) } := by
  have hfarewell : f.farewell = [] := by simp [Feed.farewell, h.link]
  rw [connectFresh_eq, newLink_eq h.links, h.feed]
  simp [Shift.step, Shift.feed, Shift.linkOf, Shift.resume, Shift.call, Shift.on, hfarewell, h.links,
    h.keepalive, stopKeepalive]

theorem connectFresh (h : Idle σ opened f' f) (o o' : Outside) :
    f'.connectFresh o' = (σ.on f'.links 0).step (f.connectFresh o) := by
  rw [h.step_connectFresh, connectFresh_eq, h.farewell]
  simp [stopKeepalive, h.keepalive', newLink, freshLink, Link.anew, h.settings]

theorem connect (h : Idle σ opened f' f) (o o' : Outside) :
    ∃ link generation, f'.connect o' = (σ.on link generation).step (f.connect o) ∧
      ∀ s ∈ opened, ∀ t, (σ.on link generation).stamp t ≠ s := by
  have hf : f.connect o = f.connectFresh o := by simp [Feed.connect, h.link]
  have hfresh : ∀ s ∈ opened, ∀ t, (σ.on f'.links 0).stamp t ≠ s := by
    rintro s hs t rfl
    have hlt := h.stale _ hs
    simp only [Shift.stamp, Shift.on] at hlt
    omega
  rw [hf]
  cases hl : f'.link with
  | none =>
    refine ⟨f'.links, 0, ?_, hfresh⟩
    rw [← h.connectFresh o o']
    simp [Feed.connect, hl]
  | some l =>
    have hs := h.spent l hl
    cases ht : l.terminal with
    | true =>
      refine ⟨f'.links, 0, ?_, hfresh⟩
      rw [← h.connectFresh o o']
      simp [Feed.connect, hl, ht]
    | false =>
      refine ⟨l.id, l.generation, ?_, ?_⟩
      · rw [h.step_connectFresh]
        simp [Feed.connect, hl, ht, Link.connect_of_disconnected ht hs.state, follow, adopt, relay,
          publish, stopKeepalive, h.keepalive', Step.after, Link.anew, Link.stopCommand, hs.alarm,
          hs.channel, hs.attempts, hs.source, hs.backoff, h.settings, hs.id]
      · rintro s hmem t rfl
        have hlt := h.stale _ hmem
        have hyoung := hs.young _ hmem
        have hid := hs.id
        simp only [Shift.stamp, Shift.on] at hlt hyoung
        have ht0 : t.link = 0 := by omega
        simp only [ht0, if_true] at hyoung
        omega

theorem sendKeepalive (h : Idle σ opened f' f) (o o' : Outside) :
    f'.sendKeepalive o' = (false, []) ∧ f.sendKeepalive o = (false, []) := by
  constructor
  · cases hl : f'.link with
    | none => simp [Feed.sendKeepalive, hl]
    | some l => simp [Feed.sendKeepalive, hl, Link.send, Link.sender?, (h.spent l hl).state]
  · simp [Feed.sendKeepalive, h.link]

theorem refresh (h : Idle σ opened f' f) : f'.refresh = f.refresh.map σ.command := by
  rw [Feed.refresh, h.feed, Feed.refresh]
  dsimp only
  split <;> rfl

end Feed.Idle

end ProgressFeed
