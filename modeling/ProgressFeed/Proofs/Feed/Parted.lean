import ProgressFeed.Proofs.Feed.Closures

/-!
# After the end of a stream

When its stream has been closed, a feed holds no channel and waits for nothing. Unless a fresh start
is still to follow, it stays so until somebody connects: what is left to do belongs to older
generations of the link, and no channel has a say any more.
-/

namespace ProgressFeed.Feed

variable {c : Settings} {f : Feed} {w : Ledger} {stack : List Resume} {a : Answers} {o : Outside}
  {l : Link}

/-- The stream is over. The link, if there is one, is apart, and no call under way belongs to its
generation or is followed by a fresh start. -/
structure Parted (f : Feed) (stack : List Resume) : Prop where
  link : ∀ l, f.link = some l → (l.state = .disconnected ∧ l.alarm = none) ∧
    l.generation ∉ Link.generations (calls l.id stack)
  keepalive : f.keepalive = none
  next : ∀ x ∈ stack, x.next ≠ .startOver

/-- The step leaves the feed apart, and concerns no channel. -/
structure Step.StaysApart (s : Step) (stack : List Resume) : Prop where
  parted : s.feed.Parted (s.pending ++ stack)
  commands : ∀ d ∈ s.commands, d.IsAside

namespace Parted

theorem connection (h : f.Parted stack) : f.connection = .disconnected := by
  cases hl : f.link with
  | none => simp [Feed.connection, hl]
  | some l => simpa [Feed.connection, hl] using (h.link l hl).1.1

theorem channel (h : f.Parted stack) (hu : f.Upheld c w stack) : f.channel = none := by
  cases hl : f.link with
  | none => exact channel_eq_none hl
  | some l =>
    have hc : l.channel = none := (hu.link l hl).sound.disconnected (h.link l hl).1.1
    exact (channel_eq_held hl).trans (Link.held_eq_none.2 hc)

theorem alarms (h : f.Parted stack) (hu : f.Upheld c w stack) : w.clock.alarms = [] :=
  hu.alarms_eq_nil h.keepalive fun l hl ↦ (h.link l hl).1.2

theorem of_eq {f' : Feed} (h : f.Parted stack) (hl : f'.link = f.link)
    (hk : f'.keepalive = f.keepalive) : f'.Parted stack :=
  ⟨fun l hl' ↦ h.link l (hl ▸ hl'), hk.trans h.keepalive, h.next⟩

theorem tail {x : Resume} (h : f.Parted (x :: stack)) : f.Parted stack := by
  refine ⟨fun l hl ↦ ⟨(h.link l hl).1, fun hg ↦ (h.link l hl).2 ?_⟩, h.keepalive,
    fun y hy ↦ h.next y (List.mem_cons_of_mem _ hy)⟩
  cases hx : x.call? l.id with
  | none => simpa [calls, hx] using hg
  | some r =>
    have hcalls : calls l.id (x :: stack) = r :: calls l.id stack := by simp [calls, hx]
    rw [hcalls, Link.generations_cons]
    exact List.mem_append_right _ hg

theorem push {x : Resume} (h : f.Parted stack) (hnext : x.next ≠ .startOver)
    (hx : ∀ id r, x.call? id = some r → r.generation? = none) : f.Parted (x :: stack) := by
  refine ⟨fun l hl ↦ ⟨(h.link l hl).1, fun hg ↦ (h.link l hl).2 ?_⟩, h.keepalive,
    fun y hy ↦ ?_⟩
  · cases hc : x.call? l.id with
    | none => simpa [calls, hc] using hg
    | some r =>
      have hcalls : calls l.id (x :: stack) = r :: calls l.id stack := by simp [calls, hc]
      rwa [hcalls, Link.generations_cons, hx l.id r hc] at hg
  · rcases List.mem_cons.1 hy with rfl | hy
    · exact hnext
    · exact h.next y hy

theorem rest (h : f.Parted stack) : f.rest.StaysApart stack := ⟨h, by simp [Feed.rest]⟩

theorem farewell_isAside (hc : f.channel = none) : ∀ d ∈ f.farewell, d.IsAside := by
  cases hl : f.link with
  | none => simp [Feed.farewell, hl]
  | some l =>
    have hnone : l.channel = none := Link.held_eq_none.1 ((channel_eq_held hl).symm.trans hc)
    simpa [Feed.farewell, hl, Link.farewell, hnone] using fun d ↦ Link.isAside_stopCommand d

theorem proceed (h : f.Parted stack) (hc : f.channel = none) {next : Next}
    (hn : next ≠ .startOver) : (f.proceed o next).StaysApart stack := by
  cases next with
  | nothing => exact h.rest
  | forget =>
    have hforget : f.forget.Parted stack := h.of_eq rfl rfl
    exact hforget.rest
  | startOver => exact absurd rfl hn
  | retire => exact ⟨⟨nofun, h.keepalive, h.next⟩, farewell_isAside hc⟩

end Parted

/-- Closing the stream leaves the feed apart, whatever is under way. -/
theorem Upheld.closed_parted (h : f.Upheld c w stack) (hnext : ∀ x ∈ stack, x.next ≠ .startOver) :
    f.closed.Parted stack := by
  refine ⟨fun l hl ↦ ?_, rfl, hnext⟩
  obtain ⟨m, hm, rfl⟩ := closed_link hl
  refine ⟨⟨rfl, rfl⟩, fun hg ↦ ?_⟩
  exact absurd ((h.link m hm).held.le _ hg) (Nat.not_succ_le_self _)

theorem Upheld.closeStream_parted (h : f.Upheld c w stack)
    (hnext : ∀ x ∈ stack, x.next ≠ .startOver) :
    (f.closeStream .nothing o).feed.Parted ((f.closeStream .nothing o).pending ++ stack) := by
  have hclosed := h.closed_parted hnext
  cases hl : f.link with
  | none =>
    rw [closeStream_of_none hl]
    exact hclosed
  | some l =>
    by_cases hs : l.state = .disconnected
    · rw [closeStream_of_disconnected hl hs]
      exact hclosed
    · rw [closeStream_of_live hl hs]
      refine hclosed.push (x := .link l.id .nothing .nothing) nofun fun i r hr ↦ ?_
      simp only [Resume.call?, Option.ite_none_right_eq_some, Option.some.injEq] at hr
      rw [← hr.2]
      rfl

theorem Parted.closeStream (h : f.Parted stack) (hu : f.Upheld c w stack) {next : Next}
    (hn : next ≠ .startOver) : (f.closeStream next o).StaysApart stack := by
  have hproceed : (f.closed.proceed o next).StaysApart stack :=
    (hu.closed_parted h.next).proceed channel_closed hn
  have hstop : f.stopKeepalive.commands = [] := by simp [stopKeepalive, h.keepalive]
  cases hl : f.link with
  | none =>
    rw [closeStream_of_none hl, hstop]
    exact hproceed
  | some l =>
    rw [closeStream_of_disconnected hl (h.link l hl).1.1, hstop, List.nil_append]
    refine ⟨hproceed.parted, fun d hd ↦ (List.mem_append.1 hd).elim (fun hd ↦ ?_)
      (hproceed.commands d)⟩
    exact Parted.farewell_isAside (h.channel hu) d (by simpa [Feed.farewell, hl] using hd)

/-- No channel has a say. -/
theorem Parted.notice (h : f.Parted stack) (hu : f.Upheld c w stack) {i : Nat} {s : Stamp}
    (hi : w.opened[i]? = some s) (n : Channel.Notice) : (f.notice s n o).StaysApart stack := by
  have hne : f.channel ≠ some i := by simp [h.channel hu]
  rw [notice_of_ne fun l hl hid hg ↦
    hne ((hu.channel_eq_iff hi).2 ⟨l, linkOf?_eq_some.2 ⟨hl, hid⟩, hg⟩)]
  exact h.rest

theorem Parted.polled (h : f.Parted stack) (epoch : Nat) (answer : StatusAnswer) :
    (f.polled epoch answer).StaysApart stack := by
  unfold Feed.polled
  split
  · split
    · have hpush : f.Parted (.nothing :: stack) :=
        h.push (by simp [Resume.next]) (by simp [Resume.call?])
      exact ⟨hpush, by simp [publishFault, publish]⟩
    · exact h.rest
    · rename_i s
      have hseen : (f.deliver s).feed.Parted stack := h.of_eq rfl rfl
      have hpush : (f.deliver s).feed.Parted (.delivered s.isTerminal f.epoch :: stack) :=
        hseen.push (by simp [Resume.next]) (by simp [Resume.call?])
      exact ⟨hpush, by simp [deliver, publish]⟩
  · exact h.rest

theorem resume_of_rest (hl : f.link = some l) {r : Link.Resume} (hr : l.resume o r = l.rest)
    (next : Next) : f.resume o (.link l.id r next) = f.proceed o next := by
  have hnothing : l.resume o .nothing = l.rest := rfl
  rw [← resume_link_nothing hl next o]
  simp only [resume, linkOf?_eq_some.2 ⟨hl, rfl⟩, hr, hnothing]

theorem Parted.resume {x : Resume} (h : f.Parted (x :: stack)) (hu : f.Upheld c w (x :: stack)) :
    (f.resume o x).StaysApart stack := by
  have hnext : x.next ≠ .startOver := h.next x (List.mem_cons_self ..)
  cases x with
  | nothing => exact h.tail.rest
  | delivered terminal epoch =>
    simp only [Feed.resume]
    split
    · exact h.tail.closeStream (hu.tail fun _ _ ↦ rfl) (by decide)
    · exact h.tail.rest
  | link id r next =>
    cases hlink : f.linkOf? id with
    | none =>
      simp only [Feed.resume, hlink]
      exact h.tail.proceed (h.channel hu) hnext
    | some l =>
      obtain ⟨hl, rfl⟩ := linkOf?_eq_some.1 hlink
      have hold : r.generation? ≠ some l.generation := by
        intro hg
        refine (h.link l hl).2 (Link.mem_generations.2 ⟨r, ?_, hg⟩)
        exact List.mem_filterMap.2 ⟨_, List.mem_cons_self .., if_pos rfl⟩
      by_cases hdeny : r = .deny
      · subst hdeny
        -- The missing credential belongs to no generation, and is still reported.
        have hresume : f.resume o (.link l.id .deny next) =
            Step.after [] (f.publish (.fault f.settings.source .noCredential)
              (.link l.id .nothing next)) := by
          have he : { f with link := some l } = f := by
            cases f
            cases hl
            rfl
          simp [Feed.resume, hlink, Link.resume, Link.deny_eq, adopt, relay, he]
        rw [hresume]
        refine ⟨h.tail.push hnext fun i r hr ↦ ?_, by simp [Step.after, publish]⟩
        simp only [Resume.call?, Option.ite_none_right_eq_some, Option.some.injEq] at hr
        rw [← hr.2]
        rfl
      · have hrest : l.resume o r = l.rest := by
          cases hg : r.generation? with
          | some g => exact Link.resume_of_ne hg fun he ↦ hold (hg.trans (congrArg some he.symm))
          | none =>
            cases r with
            | nothing => rfl
            | deny => exact absurd rfl hdeny
            | dial | abandon | settle | retry => cases hg
        rw [resume_of_rest hl hrest]
        exact h.tail.proceed (h.channel hu) hnext

/-! ## Runs -/

namespace Run

variable {r q : Run} {m : Move} {cause : Cause} {s : Step}

def Parted (r : Run) : Prop := r.feed.Parted r.stack

theorem Parted.stays (h : r.Parted) (hu : r.Upheld c) (hm : r.Makes a m q cause s)
    (hconnect : m ≠ .connect) (hreconnect : m ≠ .reconnect) : s.StaysApart (r.under m) := by
  have hcloses : ∀ next : Next, next ≠ .startOver →
      (r.feed.closeStream next (r.ledger.outside a)).StaysApart r.stack := fun _ hn ↦
    Feed.Parted.closeStream h hu hn
  cases hm with
  | connect => exact absurd rfl hconnect
  | reconnect => exact absurd rfl hreconnect
  | disconnect => exact hcloses .forget nofun
  | retire => exact hcloses .retire nofun
  | frame hi frame => exact Feed.Parted.notice h hu hi (.frame frame)
  | notice hi hn => exact Feed.Parted.notice h hu hi _
  | rang hx =>
    obtain ⟨x, hx, -⟩ := Option.map_eq_some_iff.1 hx
    have hmem : x ∈ r.ledger.clock.alarms := (List.mem_filter.1 (Clock.earliest_mem hx)).1
    rw [Feed.Parted.alarms h hu] at hmem
    cases hmem
  | answer hq answer => exact Feed.Parted.polled h _ answer
  | @returned x stack hs =>
    have hx : r.feed.Upheld c r.ledger (x :: stack) := hs ▸ hu
    have hparted : r.feed.Parted (x :: stack) := hs ▸ h
    rw [under, hs]
    exact hparted.resume hx

theorem Parted.live (h : r.Parted) (hu : r.Upheld c) (a : Answers) (hconnect : m ≠ .connect)
    (hreconnect : m ≠ .reconnect) :
    (r.live a m).Parted ∧ (r.live a m).ledger.opened = r.ledger.opened ∧
      (r.live a m).closures = r.closures := by
  by_cases hallows : r.allows m = true
  swap
  · rw [live_of_not_allows hallows]
    exact ⟨h, rfl, rfl⟩
  rw [live_of_allows hallows]
  have hawake : r.awake.Upheld c := hu
  have hparted : r.awake.Parted := h
  change (r.awake.step a m).Parted ∧ (r.awake.step a m).ledger.opened = r.awake.ledger.opened ∧
    (r.awake.step a m).closures = r.awake.closures
  rcases step_cases (r := r.awake) rfl a m with ⟨q, cause, s, hm⟩ | hm
  · have hs := hparted.stays hawake hm hconnect hreconnect
    have hnone : s.commands.filterMap Command.closure? = [] :=
      List.filterMap_eq_nil_iff.2 fun d hd ↦ (hs.commands d hd).closure?
    refine ⟨?_, ?_, by rw [hm.closures rfl, hnone, List.append_nil]⟩
    · rw [hm.step rfl, Parted, take, hm.stack]
      exact hs.parted
    · rw [hm.step rfl, take, Ledger.opened_obeyAll_of_isAside hs.commands, hm.opened]
  · obtain ⟨polls, hfeed⟩ := hm.feed
    refine ⟨?_, hm.opened, hm.closures⟩
    rw [Parted, hfeed, hm.stack]
    exact Feed.Parted.of_eq hparted rfl rfl

end Run

end ProgressFeed.Feed
