import ProgressFeed.Proofs.Feed.Run
import ProgressFeed.Proofs.Link.Step

/-!
# What a feed does in one step

What comes of a step of the link depends on whether the link has something to say. When its owner
closes the stream it says so exactly if it was not apart already.
-/

namespace ProgressFeed.Feed

variable {f : Feed} {l : Link}

theorem linkOf?_eq_some {id : Nat} {l : Link} :
    f.linkOf? id = some l ↔ f.link = some l ∧ l.id = id := by
  simp [linkOf?, Option.filter_eq_some_iff]

/-- A link that has just announced its first connection. -/
def newLink (f : Feed) : Link := { f.freshLink.anew with state := .connecting }

theorem connectFresh_eq (f : Feed) (o : Outside) :
    f.connectFresh o =
      { feed := { f with link := some f.newLink, links := f.links + 1, keepalive := none }
        commands := f.farewell ++ f.stopKeepalive.commands
        pause := some (.state f.settings.source .disconnected .connecting,
          .link f.links (.dial 1) .nothing) } := by
  rw [connectFresh, Link.connect_of_disconnected rfl rfl]
  simp [follow, adopt, relay, publish, stopKeepalive, Step.after, newLink, freshLink, Link.anew,
    Link.stopCommand]

/-- The feed as a closing of the stream leaves it, before anything else follows. -/
def closed (f : Feed) : Feed :=
  { f with keepalive := none, epoch := f.epoch + 1, link := f.link.map Link.apart }

theorem closed_link (h : f.closed.link = some l) : ∃ m, f.link = some m ∧ m.apart = l :=
  Option.map_eq_some_iff.1 h

@[simp] theorem connection_closed : f.closed.connection = .disconnected := by
  cases hl : f.link <;> simp [connection, closed, hl, Link.apart]

@[simp] theorem attempts_closed : f.closed.attempts = 0 := by
  cases hl : f.link <;> simp [attempts, closed, hl, Link.apart]

@[simp] theorem channel_closed : f.closed.channel = none := by
  cases hl : f.link <;> simp [channel, closed, hl, Link.apart]

theorem closeStream_of_none (hl : f.link = none) (next : Next) (o : Outside) :
    f.closeStream next o = (f.closed.proceed o next).after f.stopKeepalive.commands := by
  simp [closeStream, stopKeepalive, closed, hl]

theorem closeStream_of_disconnected (hl : f.link = some l) (hs : l.state = .disconnected)
    (next : Next) (o : Outside) :
    f.closeStream next o =
      (f.closed.proceed o next).after (f.stopKeepalive.commands ++ l.farewell) := by
  simp [closeStream, stopKeepalive, closed, hl, Link.disconnect_of_disconnected hs, adopt,
    Step.after]

theorem closeStream_of_live (hl : f.link = some l) (hs : l.state ≠ .disconnected) (next : Next)
    (o : Outside) :
    f.closeStream next o =
      { feed := f.closed
        commands := f.stopKeepalive.commands ++ l.farewell
        pause := some (.state f.settings.source l.state .disconnected,
          .link l.id .nothing next) } := by
  simp [closeStream, stopKeepalive, closed, hl, Link.disconnect_of_live hs, adopt, relay, publish,
    Step.after, Link.apart]

/-! ## What a step leaves alone -/

theorem startKeepalive_keeps (f : Feed) (o : Outside) :
    ∃ keepalive, (f.startKeepalive o).feed = { f with keepalive } := by
  unfold startKeepalive
  split
  · exact ⟨some o.alarm, rfl⟩
  · exact ⟨none, rfl⟩

theorem relay_keeps (f : Feed) (call : Link.Call) (x : Resume) (o : Outside) :
    ∃ keepalive, (f.relay call x o).feed = { f with keepalive } := by
  cases call with
  | fault e => exact ⟨f.keepalive, rfl⟩
  | state was now =>
    simp only [relay]
    split
    · exact startKeepalive_keeps f o
    · exact ⟨none, rfl⟩

theorem follow_keeps (f : Feed) (s : Link.Step) (o : Outside) :
    ∃ keepalive, (f.follow s o).feed = { f with link := some s.link, keepalive } := by
  cases hp : s.pause with
  | none => exact ⟨f.keepalive, by simp [follow, adopt, Step.after, hp, rest]⟩
  | some p =>
    obtain ⟨keepalive, h⟩ :=
      relay_keeps { f with link := some s.link } p.1 (.link s.link.id p.2 .nothing) o
    exact ⟨keepalive, by simpa [follow, adopt, Step.after, hp] using h⟩

/-! ## Signs of life -/

/-- The feed when the alarm has rung, if it was its own. -/
def rung (f : Feed) (alarm : Nat) : Feed :=
  { f with keepalive := if f.keepalive = some alarm then none else f.keepalive }

theorem beat_eq (f : Feed) (alarm : Nat) (o : Outside) :
    f.beat alarm o =
      if f.connection = .connected then
        ((f.rung alarm).startKeepalive o).after (f.sendKeepalive o).2
      else (f.rung alarm).rest := rfl

theorem beat_of_connected (h : f.connection = .connected) (alarm : Nat) (o : Outside) :
    f.beat alarm o = ((f.rung alarm).startKeepalive o).after (f.sendKeepalive o).2 := if_pos h

theorem beat_of_ne (h : f.connection ≠ .connected) (alarm : Nat) (o : Outside) :
    f.beat alarm o = (f.rung alarm).rest := if_neg h

theorem notice_of_ne {s : Stamp}
    (h : ∀ l, f.link = some l → l.id = s.link → l.generation ≠ s.generation) (n : Channel.Notice)
    (o : Outside) : f.notice s n o = f.rest := by
  unfold notice
  split
  · rfl
  · rename_i l hlink
    obtain ⟨hl, hid⟩ := linkOf?_eq_some.1 hlink
    have hg := h l hl hid
    have he : { f with link := some l } = f := by
      cases f
      cases hl
      rfl
    have hrest : f.follow l.rest o = f.rest := by
      simp [follow, adopt, Link.rest, rest, Step.after, he]
    cases n with
    | frame frame => simp [Link.hears, hg]
    | opened => simp [Link.notice_of_ne hg, hrest]
    | failed message => simp [Link.notice_of_ne hg, hrest]
    | closed closing => simp [Link.notice_of_ne hg, hrest]

theorem resume_link_nothing (hl : f.link = some l) (next : Next) (o : Outside) :
    f.resume o (.link l.id .nothing next) = f.proceed o next := by
  have he : { f with link := some l } = f := by
    cases f
    cases hl
    rfl
  simp [resume, linkOf?_eq_some.2 ⟨hl, rfl⟩, adopt, Link.resume, Link.rest, Step.after, he]

namespace Run

variable {r : Run}

theorem take_rest (r : Run) (cause : Cause) : r.take cause r.feed.rest = r := by
  cases r
  simp [take, rest, Step.pending, Step.records]

/-- What the closing of the stream tells the subscribers. -/
def closing (f : Feed) : List Record :=
  if f.connection = .disconnected then []
  else [.event .other (.state f.settings.source f.connection .disconnected)]

/-- A closing of the stream is over when its event, if there is one, has been delivered, and nobody
has called the feed meanwhile. -/
theorem closeStream_returned (hstack : r.stack = []) {f f' : Feed} {next : Next}
    (hnext : ∀ o, f.closed.proceed o next = f'.rest) (o : Outside) (a : Answers) :
    (r.take .other (f.closeStream next o)).step a .returned =
      { r with
        feed := f'
        ledger := r.ledger.obeyAll (f.stopKeepalive.commands ++ f.farewell)
        records := r.records ++ (f.stopKeepalive.commands ++ f.farewell).map .command ++ closing f } := by
  have hquiet : ∀ commands : List Command,
      (r.take .other (f'.rest.after commands)).step a .returned =
        { r with
          feed := f'
          ledger := r.ledger.obeyAll commands
          records := r.records ++ commands.map .command } := by
    intro commands
    have hs : (r.take .other (f'.rest.after commands)).stack = [] := by
      simp [take, rest, Step.after, Step.pending, hstack]
    rw [step_returned_nil hs]
    simp [take, rest, Step.after, Step.pending, Step.records]
  cases hl : f.link with
  | none =>
    rw [closeStream_of_none hl, hnext, hquiet]
    simp [closing, connection, Feed.farewell, hl]
  | some l =>
    have hconnection : f.connection = l.state := by simp [connection, hl]
    have hfarewell : f.farewell = l.farewell := by simp [Feed.farewell, hl]
    by_cases hs : l.state = .disconnected
    · rw [closeStream_of_disconnected hl hs, hnext, hquiet]
      simp [closing, hconnection, hs, hfarewell]
    · rw [closeStream_of_live hl hs]
      have hlink : f.closed.link = some l.apart := by simp [closed, hl]
      have hresume : ∀ o, f.closed.resume o (.link l.id .nothing next) = f'.rest := fun o ↦
        (resume_link_nothing hlink next o).trans (hnext o)
      simp [step, take, Step.pending, Step.records, hresume, rest, closing, hconnection, hs,
        hfarewell, hstack]

end Run

end ProgressFeed.Feed
