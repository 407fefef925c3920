import ProgressFeed.Proofs.Feed.Sound

/-!
# Every step of a feed upholds what always holds
-/

namespace ProgressFeed.Feed

variable {c : Settings} {f : Feed} {w : Ledger} {stack : List Resume} {a : Answers} {o : Outside}
  {l : Link}

/-! ## Signs of life -/

theorem Upheld.stopKeepalive (h : f.Upheld c w stack) : f.stopKeepalive.Upholds c w stack := by
  cases hk : f.keepalive with
  | none =>
    have he : f.stopKeepalive = f.rest := by
      cases f
      cases hk
      rfl
    rw [he]
    exact h
  | some alarm =>
    have hmem : alarm ∈ w.clock.setFor .keepalive := by simp [h.keepalive, hk]
    have hreopen : ∀ id, (w.clock.stop alarm).setFor (.reopen id) = w.clock.setFor (.reopen id) :=
      fun id ↦ h.numbered.setFor_stop_of_mem hmem (by simp)
    simp only [Feed.stopKeepalive, hk, Option.map_some, Option.toList_some]
    refine ⟨⟨h.settings, h.numbered.stop alarm, ?_, ?_, h.stamps, h.calls, h.queries, h.owns⟩, ?_⟩
    · change (w.clock.stop alarm).setFor .keepalive = []
      simp [Clock.setFor_stop, h.keepalive, hk]
    · exact fun x hx ↦ h.alarms x (List.mem_filter.1 hx).1
    · exact fun l hl ↦ (h.link l hl).of_ledger rfl (hreopen l.id) (h.numbered.stop alarm)

theorem Upheld.setKeepalive (h : f.Upheld c w stack) (hk : f.keepalive = none) (delay : Int) :
    Upheld c { f with keepalive := some w.clock.next }
      (w.obey (.setAlarm w.clock.next delay .keepalive)) stack := by
  have hn := h.numbered.set delay .keepalive
  refine ⟨⟨h.settings, hn, ?_, ?_, h.stamps, h.calls, h.queries, h.owns⟩, ?_⟩
  · change (w.clock.set delay .keepalive).setFor .keepalive = [w.clock.next]
    rw [Clock.setFor_set_self, h.keepalive, hk]
    rfl
  · intro x hx
    rcases List.mem_append.1 hx with hx | hx
    · exact h.alarms x hx
    · exact .inl (List.mem_singleton.1 hx ▸ rfl)
  · intro l hl
    exact (h.link l hl).of_ledger rfl (Clock.setFor_set_of_ne _ _ (by simp)) hn

theorem Upheld.startKeepalive (h : f.Upheld c w stack) (ho : o.alarm = w.clock.next) :
    (f.startKeepalive o).Upholds c w stack := by
  unfold Feed.startKeepalive
  split
  · have hs := h.stopKeepalive
    have hnext : (w.obeyAll f.stopKeepalive.commands).clock.next = w.clock.next := by
      cases hk : f.keepalive <;> simp [Feed.stopKeepalive, hk, Ledger.obey, Clock.stop]
    refine Step.Upholds.after ?_
    have hset := Upheld.setKeepalive hs rfl f.settings.keepalive
    rw [hnext, ← ho] at hset
    exact hset
  · exact h.stopKeepalive

/-! ## The link -/

/-- What the link says is published; what is left to do is already counted as under way. -/
theorem Upheld.relay {x : Resume} (h : f.Upheld c w (x :: stack)) (call : Link.Call)
    (ho : o.alarm = w.clock.next) : (f.relay call x o).Upholds c w stack := by
  cases call with
  | fault e => exact h
  | state was now =>
    by_cases hn : now = .connected
    · simp only [Feed.relay, if_pos hn]
      refine Step.Upholds.after ?_
      have hk : (f.startKeepalive o).pending = [] := by
        unfold Feed.startKeepalive
        split <;> rfl
      have hs := h.startKeepalive ho
      rw [Step.Upholds, hk] at hs
      exact hs
    · simp only [Feed.relay, if_neg hn]
      refine Step.Upholds.after ?_
      exact h.stopKeepalive

theorem Kept.obeyAll (h : f.Kept c w stack) (hl : f.link = some l) {commands : List Command}
    (hal : w.clock.setFor (.reopen l.id) = l.alarm.toList) (hc : ∀ d ∈ commands, d.IsOf l.id)
    (hs : ∀ alarm, .stopAlarm alarm ∈ commands → l.alarm = some alarm) (l' : Link)
    (hid : l'.id = l.id) (hsource : l'.source = l.source) (hbackoff : l'.backoff = l.backoff) :
    Kept c { f with link := some l' } (w.obeyAll commands) stack where
  settings := h.settings
  numbered := Ledger.numbered_obeyAll h.numbered commands
  keepalive := by
    rw [Ledger.setFor_obeyAll hc (by simp) fun alarm hm ↦ ?_, h.keepalive]
    have hmem : alarm ∈ w.clock.setFor (.reopen l.id) := by simp [hal, hs alarm hm]
    exact h.numbered.not_mem_setFor hmem (by simp)
  alarms x hx := by
    have hown : ∃ m, some l' = some m ∧ Task.reopen l.id = .reopen m.id := ⟨l', rfl, by rw [hid]⟩
    rcases Ledger.mem_alarms_obeyAll hc hx with hx | hx
    · rcases h.alarms x hx with hx | ⟨m, hm, hx⟩
      · exact .inl hx
      · rw [hl] at hm
        cases hm
        exact .inr (hx ▸ hown)
    · exact .inr (hx ▸ hown)
  stamps s hs' := by
    rcases Ledger.mem_opened_obeyAll hc hs' with hs' | hs'
    · exact h.stamps s hs'
    · have hown := (h.owns l hl).1
      change s.link < f.links
      omega
  calls := h.calls
  queries := by
    rw [Ledger.queries_obeyAll hc]
    exact h.queries
  owns := by
    rintro _ ⟨⟩
    obtain ⟨hown, hs', hb'⟩ := h.owns l hl
    exact ⟨hid ▸ hown, hsource.trans hs', hbackoff.trans hb'⟩

/-- The link makes a step of its own, or one that restores its retries. -/
theorem Kept.adopt (h : f.Kept c w stack) (hl : f.link = some l) {s : Link.Step} {next : Next}
    {rest : Feed → Step} (hs : s.Upholds w (Feed.calls l.id stack))
    (hof : s.IsOf l ∨ s.IsOf l.restored) (hal : w.clock.setFor (.reopen l.id) = l.alarm.toList)
    (ho : o.alarm = w.clock.next)
    (hrest : ∀ f' w', Upheld c f' w' stack → (rest f').Upholds c w' stack) :
    (f.adopt s next rest o).Upholds c w stack := by
  obtain ⟨hid, hsource, hbackoff, hc, hstop, hhush⟩ : s.link.id = l.id ∧ s.link.source = l.source ∧
      s.link.backoff = l.backoff ∧ (∀ d ∈ s.commands, d.IsOf l.id) ∧
      (∀ alarm, .stopAlarm alarm ∈ s.commands → l.alarm = some alarm) ∧
      (s.delays = [] ∨ s.pause = none) := by
    rcases hof with hof | hof <;>
      exact ⟨hof.id, hof.source, hof.backoff, hof.commands, hof.stops,
        hof.delays.imp And.left (·.2.2)⟩
  have hkept := h.obeyAll hl hal hc hstop s.link hid hsource hbackoff
  refine Step.Upholds.after ?_
  cases hp : s.pause with
  | none =>
    refine hrest _ _ ⟨hkept, ?_⟩
    rintro _ ⟨⟩
    simpa [Link.Step.Upholds, Link.Step.pending, hp, hid] using hs
  | some p =>
    obtain ⟨call, resume⟩ := p
    refine Upheld.relay ⟨⟨hkept.settings, hkept.numbered, hkept.keepalive, hkept.alarms,
      hkept.stamps, ?_, hkept.queries, hkept.owns⟩, ?_⟩ call ?_
    · intro x hx id hxid
      rcases List.mem_cons.1 hx with rfl | hx
      · cases hxid
        have hown := (h.owns l hl).1
        change s.link.id < f.links
        omega
      · exact h.calls x hx id hxid
    · rintro _ ⟨⟩
      simpa [Link.Step.Upholds, Link.Step.pending, hp, hid, Feed.calls, Resume.call?] using hs
    -- A step with something to say sets no alarm, so the number for the next one still fits.
    · rw [Ledger.next_obeyAll (hhush.resolve_right (by simp [hp])), ho]

theorem Upheld.follow (h : f.Upheld c w stack) (hl : f.link = some l) {s : Link.Step}
    (hs : s.Upholds w (Feed.calls l.id stack)) (hof : s.IsOf l ∨ s.IsOf l.restored)
    (ho : o.alarm = w.clock.next) : (f.follow s o).Upholds c w stack :=
  h.toKept.adopt hl hs hof (h.link l hl).alarmed ho fun _ _ h' ↦ h'

/-! ## Links come and go -/

theorem Upheld.dropLink (h : f.Upheld c w stack) :
    Upheld c { f with link := none } (w.obeyAll f.farewell) stack := by
  cases hl : f.link with
  | none =>
    have he : { f with link := none } = f := by
      cases f
      cases hl
      rfl
    simpa [Feed.farewell, hl, he] using h
  | some l =>
    have hu := h.link l hl
    have hk := h.toKept.obeyAll hl hu.alarmed Link.farewell_isOf
      (fun _ ↦ Link.stops_farewell) l rfl rfl rfl
    simp only [Feed.farewell, hl, Option.elim_some]
    refine ⟨⟨hk.settings, hk.numbered, hk.keepalive, fun x hx ↦ ?_, hk.stamps, hk.calls, hk.queries,
      by simp⟩, by simp⟩
    rcases hk.alarms x hx with ht | ⟨m, hm, ht⟩
    · exact .inl ht
    · cases hm
      have hmem := Clock.mem_setFor.2 ⟨x, hx, ht, rfl⟩
      rw [Link.clock_farewell, Link.setFor_stopCommand hu.alarmed] at hmem
      cases hmem

theorem Upheld.addLink (h : f.Upheld c w stack) (hn : f.link = none) :
    Upheld c { f with link := some f.newLink, links := f.links + 1 } w
      (.link f.links (.dial 1) .nothing :: stack) := by
  have hcalls : Feed.calls f.links stack = [] := by
    refine List.filterMap_eq_nil_iff.2 fun x hx ↦ ?_
    cases x with
    | nothing | delivered => rfl
    | link id resume next =>
      have hlt := h.calls _ hx id rfl
      simp [Resume.call?, hlt.ne]
  have hstamp : ∀ s ∈ w.opened, s.link ≠ f.links := fun s hs ↦ (h.stamps s hs).ne
  have hset : w.clock.setFor (.reopen f.links) = [] := by
    refine List.map_eq_nil_iff.2 (List.filter_eq_nil_iff.2 fun x hx ↦ ?_)
    rcases h.alarms x hx with ht | ⟨l, hl, -⟩
    · simp [ht]
    · simp [hn] at hl
  refine ⟨⟨h.settings, h.numbered, h.keepalive, ?_, ?_, ?_, h.queries, ?_⟩, ?_⟩
  · intro x hx
    rcases h.alarms x hx with ht | ⟨l, hl, -⟩
    · exact .inl ht
    · simp [hn] at hl
  · exact fun s hs ↦ Nat.lt_succ_of_lt (h.stamps s hs)
  · intro x hx id hid
    rcases List.mem_cons.1 hx with rfl | hx
    · cases hid
      exact Nat.lt_succ_self _
    · exact Nat.lt_succ_of_lt (h.calls x hx id hid)
  · rintro _ ⟨⟩
    exact ⟨rfl, congrArg Settings.source h.settings,
      congrArg Settings.backoff h.settings⟩
  · rintro _ ⟨⟩
    refine ⟨?_, ?_, ?_, hset, h.numbered⟩
    · constructor <;> simp [newLink, Link.anew, freshLink]
    · have hc : Feed.calls f.newLink.id (.link f.links (.dial 1) .nothing :: stack) = [.dial 1] := by
        change Feed.calls f.links _ = _
        simp only [Feed.calls, List.filterMap_cons, Resume.call?, if_true]
        exact congrArg _ hcalls
      rw [hc]
      refine Link.Below.push ⟨?_, ?_⟩ rfl ⟨rfl, rfl⟩ <;> simp [Link.generations]
    · constructor
      · exact fun s hs hl ↦ absurd hl (hstamp s hs)
      · intro i
        refine ⟨fun hi ↦ absurd rfl (hstamp _ (List.mem_of_getElem? hi)), fun hi ↦ ?_⟩
        simp [newLink, Link.anew, freshLink] at hi

theorem Upheld.connectFresh (h : f.Upheld c w stack) (o : Outside) :
    (f.connectFresh o).Upholds c w stack := by
  have hadd := h.dropLink.addLink rfl
  have hs := hadd.stopKeepalive
  rw [connectFresh_eq]
  change Upheld c _ (w.obeyAll (f.farewell ++ f.stopKeepalive.commands)) _
  rw [Ledger.obeyAll_append]
  exact hs

theorem Upheld.forget (h : f.Upheld c w stack) : f.forget.Upheld c w stack :=
  ⟨⟨h.settings, h.numbered, h.keepalive, h.alarms, h.stamps, h.calls, h.queries, h.owns⟩, h.link⟩

theorem Upheld.proceed (h : f.Upheld c w stack) (o : Outside) (next : Next) :
    (f.proceed o next).Upholds c w stack := by
  cases next with
  | nothing => exact h
  | forget => exact h.forget
  | startOver => exact h.forget.connectFresh o
  | retire => exact h.forget.dropLink

theorem Upheld.closeStream (h : f.Upheld c w stack) (next : Next) (ho : o.alarm = w.clock.next) :
    (f.closeStream next o).Upholds c w stack := by
  have hs := h.stopKeepalive
  have hnext : (w.obeyAll f.stopKeepalive.commands).clock.next = w.clock.next := by
    cases hk : f.keepalive <;> simp [Feed.stopKeepalive, hk, Ledger.obey, Clock.stop]
  have he : Upheld c { f.stopKeepalive.feed with epoch := f.epoch + 1 }
      (w.obeyAll f.stopKeepalive.commands) stack :=
    ⟨⟨hs.settings, hs.numbered, hs.keepalive, hs.alarms, hs.stamps, hs.calls,
      fun q hq ↦ Nat.le_succ_of_le (hs.queries q hq), hs.owns⟩, hs.link⟩
  refine Step.Upholds.after ?_
  dsimp only
  split
  · exact he.proceed o next
  · rename_i l hl
    have hu := he.link l hl
    exact he.toKept.adopt hl hu.disconnect (.inr Link.disconnect_isOf) hu.alarmed
      (ho.trans hnext.symm) fun _ _ h' ↦ h'.proceed o next

/-! ## What the owner does -/

theorem Upheld.connect (h : f.Upheld c w stack) : (f.connect (w.outside a)).Upholds c w stack := by
  unfold Feed.connect
  split
  · exact h.connectFresh _
  · rename_i l hl
    split
    · exact h.connectFresh _
    · exact h.follow hl (h.link l hl).connect (.inl (Link.connect_isOf _)) rfl

theorem Upheld.sendKeepalive (h : f.Upheld c w stack) (o : Outside) :
    f.Upheld c (w.obeyAll (f.sendKeepalive o).2) stack := by
  unfold Feed.sendKeepalive Link.send
  split
  · exact h
  · split <;> exact h

theorem Upheld.refresh (h : f.Upheld c w stack) : f.Upheld c (w.obeyAll f.refresh) stack := by
  unfold Feed.refresh
  split
  · refine ⟨⟨h.settings, h.numbered, h.keepalive, h.alarms, h.stamps, h.calls, fun q hq ↦ ?_,
      h.owns⟩, fun l hl ↦ (h.link l hl).of_ledger rfl rfl h.numbered⟩
    rcases List.mem_append.1 hq with hq | hq
    · exact h.queries q hq
    · exact (List.mem_singleton.1 hq).le
  · exact h

/-! ## What comes in -/

theorem Upheld.push {x : Resume} (h : f.Upheld c w stack) (hx : x.link? = none) :
    f.Upheld c w (x :: stack) := by
  have hcalls : ∀ id, Feed.calls id (x :: stack) = Feed.calls id stack := by
    intro id
    cases x with
    | nothing | delivered => rfl
    | link => cases hx
  refine ⟨⟨h.settings, h.numbered, h.keepalive, h.alarms, h.stamps, fun y hy id hid ↦ ?_, h.queries,
    h.owns⟩, fun l hl ↦ hcalls l.id ▸ h.link l hl⟩
  rcases List.mem_cons.1 hy with rfl | hy
  · rw [hx] at hid
    cases hid
  · exact h.calls y hy id hid

theorem Upheld.deliver (h : f.Upheld c w stack) (s : Snapshot) :
    (f.deliver s).Upholds c w stack := by
  have hs : Upheld c { f with phases := f.phases.observe s.phase, latest := some s } w stack :=
    ⟨⟨h.settings, h.numbered, h.keepalive, h.alarms, h.stamps, h.calls, h.queries, h.owns⟩, h.link⟩
  exact hs.push rfl

theorem Upheld.publishFault (h : f.Upheld c w stack) (e : Fault) :
    (f.publishFault e).Upholds c w stack := h.push rfl

theorem Upheld.receiveFrame (h : f.Upheld c w stack) (frame : Channel.Frame) :
    (f.receiveFrame frame).Upholds c w stack := by
  unfold Feed.receiveFrame
  split
  · exact h.publishFault _
  · rename_i m _
    cases m with
    | progress s => exact h.deliver s
    | heartbeat => exact h.push rfl
    | connected | closing => exact h
    | error => exact h.publishFault _

theorem Upheld.notice (h : f.Upheld c w stack) {i : Nat} {s : Stamp} (hi : w.opened[i]? = some s)
    (n : Channel.Notice) : (f.notice s n (w.outside a)).Upholds c w stack := by
  unfold Feed.notice
  split
  · exact h
  · rename_i l hlink
    obtain ⟨hl, hid⟩ := linkOf?_eq_some.1 hlink
    have hn := fun n ↦ (h.link l hl).notice (a := a) hi hid.symm n
    have hof := fun n ↦ Link.notice_isOf (l := l) (w.outside a) s.generation n
    cases n with
    | frame frame =>
      simp only
      split
      · exact h.receiveFrame frame
      · exact h
    | opened =>
      refine h.follow hl (hn .opened) ?_ rfl
      have ho := hof .opened
      split at ho
      · exact .inr ho
      · exact .inl ho
    | failed message => exact h.follow hl (hn (.failed message)) (.inl (hof (.failed message))) rfl
    | closed closing => exact h.follow hl (hn (.closed closing)) (.inl (hof (.closed closing))) rfl

theorem Upheld.beat (h : f.Upheld c w stack) (ho : o.alarm = w.clock.next) (alarm : Nat)
    (hk : f.keepalive = none) : (f.beat alarm o).Upholds c w stack := by
  have he : { f with keepalive := if f.keepalive = some alarm then none else f.keepalive } = f := by
    cases f
    cases hk
    rfl
  unfold Feed.beat
  simp only [he]
  split
  · refine Step.Upholds.after ?_
    refine (h.sendKeepalive o).startKeepalive (ho.trans ?_)
    unfold Feed.sendKeepalive Link.send
    split
    · rfl
    · split <;> rfl
  · exact h

theorem Upheld.calm (h : f.Upheld c w stack) {alarm : Nat} (hk : f.keepalive = some alarm) :
    Upheld c { f with keepalive := none } { w with clock := w.clock.stop alarm } stack := by
  have hs := h.stopKeepalive
  simpa [Feed.stopKeepalive, Step.Upholds, Step.pending, hk, Ledger.obey] using hs

theorem Upheld.calmLink (h : f.Upheld c w stack) (hl : f.link = some l) {alarm : Nat}
    (ha : l.alarm = some alarm) :
    Upheld c { f with link := some { l with alarm := none } }
      { w with clock := w.clock.stop alarm } stack := by
  have hu := h.link l hl
  have hk := h.toKept.obeyAll hl hu.alarmed Link.stopCommand_isOf
    (fun _ ↦ Link.stops_stopCommand) { l with alarm := none } rfl rfl rfl
  simp only [Link.stopCommand, ha, Option.map_some, Option.toList_some] at hk
  refine ⟨hk, ?_⟩
  rintro _ ⟨⟩
  exact hu.calm ha

/-- The link has set the alarm at which it is to open a channel again. -/
theorem Upheld.link_of_reopen (h : f.Upheld c w stack) {x : Clock.Alarm Task}
    (hx : x ∈ w.clock.alarms) {id : Nat} (ht : x.task = .reopen id) :
    ∃ l, f.link = some l ∧ l.id = id ∧ x.id ∈ w.clock.setFor (.reopen l.id) := by
  rcases h.alarms x hx with hk | ⟨l, hl, hk⟩
  · rw [ht] at hk
    cases hk
  · have hid : l.id = id := by
      rw [ht] at hk
      exact (Task.reopen.inj hk).symm
    exact ⟨l, hl, hid, Clock.mem_setFor.2 ⟨x, hx, hk, rfl⟩⟩

theorem Upheld.rang (h : f.Upheld c w stack) {x : Clock.Alarm Task} (hx : x ∈ w.clock.alarms) :
    let w' := { w with clock := w.clock.stop x.id }
    (f.rang x.id (w'.outside a) x.task).Upholds c w' stack := by
  intro w'
  cases ht : x.task with
  | keepalive =>
    have hmem := Clock.mem_setFor.2 ⟨x, hx, ht, rfl⟩
    rw [h.keepalive, Option.mem_toList] at hmem
    have hb := (h.calm hmem).beat (o := w'.outside a) rfl x.id rfl
    have he : f.beat x.id (w'.outside a) =
        Feed.beat { f with keepalive := none } x.id (w'.outside a) := by
      simp [Feed.beat, Option.mem_def.1 hmem]
    rw [Feed.rang, he]
    exact hb
  | reopen id =>
    obtain ⟨l, hl, hid, hmem⟩ := h.link_of_reopen hx ht
    rw [(h.link l hl).alarmed, Option.mem_toList] at hmem
    have hc := h.calmLink hl hmem
    have hf := hc.follow (o := w'.outside a) rfl ((hc.link _ rfl).connect (a := a))
      (.inl (Link.connect_isOf _)) rfl
    simp only [Feed.rang, linkOf?_eq_some.2 ⟨hl, hid⟩, Link.rang_of_alarm hmem]
    exact hf

theorem Upheld.polled (h : f.Upheld c w stack) (epoch : Nat) (answer : StatusAnswer) :
    (f.polled epoch answer).Upholds c w stack := by
  unfold Feed.polled
  split
  · split
    · exact h.publishFault _
    · exact h
    · exact h.deliver _
  · exact h

/-! ## What is left to do -/

theorem Kept.tail {x : Resume} (h : f.Kept c w (x :: stack)) : f.Kept c w stack :=
  ⟨h.settings, h.numbered, h.keepalive, h.alarms, h.stamps,
    fun y hy ↦ h.calls y (List.mem_cons_of_mem _ hy), h.queries, h.owns⟩

theorem Upheld.tail {x : Resume} (h : f.Upheld c w (x :: stack))
    (hx : ∀ l, f.link = some l → x.call? l.id = none) : f.Upheld c w stack := by
  refine ⟨h.toKept.tail, fun l hl ↦ ?_⟩
  have hu := h.link l hl
  rwa [Feed.calls, List.filterMap_cons, hx l hl] at hu

theorem Upheld.resume {x : Resume} (h : f.Upheld c w (x :: stack)) :
    (f.resume (w.outside a) x).Upholds c w stack := by
  cases x with
  | nothing => exact h.tail fun _ _ ↦ rfl
  | delivered terminal epoch =>
    have ht : f.Upheld c w stack := h.tail fun _ _ ↦ rfl
    simp only [Feed.resume]
    split
    · exact ht.closeStream .nothing rfl
    · exact ht
  | link id r next =>
    simp only [Feed.resume]
    split
    · rename_i hnone
      refine (h.tail fun l hl ↦ if_neg fun hid ↦ ?_).proceed _ next
      simp [linkOf?_eq_some.2 ⟨hl, hid.symm⟩] at hnone
    · rename_i l hlink
      obtain ⟨hl, hid⟩ := linkOf?_eq_some.1 hlink
      have hu := h.link l hl
      have hcall : (Resume.link id r next).call? l.id = some r := if_pos hid.symm
      simp only [Feed.calls, List.filterMap_cons, hcall] at hu
      exact h.toKept.tail.adopt hl hu.resume (.inl (Link.resume_isOf _ r)) hu.alarmed rfl
        fun _ _ h' ↦ h'.proceed _ next

theorem Upheld.at (h : f.Upheld c w stack) (now : Int) :
    Upheld c f { w with clock := { w.clock with now } } stack :=
  ⟨⟨h.settings, h.numbered.at now, h.keepalive, h.alarms, h.stamps, h.calls, h.queries, h.owns⟩,
    fun l hl ↦ (h.link l hl).of_ledger rfl rfl (h.numbered.at now)⟩

/-! ## Runs -/

namespace Run

variable {r : Run}

/-- What always holds in a run. -/
def Upheld (c : Settings) (r : Run) : Prop := r.feed.Upheld c r.ledger r.stack

theorem upheld_start (c : Settings) (polls : Bool) (now : Int) :
    (start c polls now).Upheld c := by
  refine ⟨⟨rfl, Clock.Numbered.empty.at now, rfl, ?_, ?_, ?_, ?_, ?_⟩, ?_⟩ <;> simp [start]

theorem Upheld.ifAlive {r' : Run} (h : r.Upheld c) (h' : r'.Upheld c) : (r.ifAlive r').Upheld c := by
  unfold Run.ifAlive
  split
  · exact h'
  · exact h

theorem Upheld.hear (h : r.Upheld c) {i : Nat} {s : Stamp} (hi : r.ledger.opened[i]? = some s)
    (n : Channel.Notice) (a : Answers) : (r.hear i s n (r.ledger.outside a)).Upheld c := by
  have hn := fun n ↦ Feed.Upheld.notice (a := a) h hi n
  cases n with
  | frame f =>
    simp only [Run.hear]
    split <;> exact hn (.frame f)
  | opened => exact hn .opened
  | failed message => exact hn (.failed message)
  | closed closing => exact hn (.closed closing)

theorem Upheld.advance (h : r.Upheld c) (target : Int) (a : Answers) :
    (r.step a (.advance target)).Upheld c := by
  simp only [Run.step]
  split
  · exact Feed.Upheld.at h target
  · rename_i x clock hdue
    obtain ⟨y, hy, he⟩ := Option.map_eq_some_iff.1 hdue
    obtain ⟨rfl, rfl⟩ := Prod.mk.inj he
    have hmem : y ∈ r.ledger.clock.alarms := (List.mem_filter.1 (Clock.earliest_mem hy)).1
    exact (Feed.Upheld.at h y.due).rang hmem

theorem Upheld.step (h : r.Upheld c) (a : Answers) (m : Move) : (r.step a m).Upheld c := by
  cases m with
  | connect => exact h.ifAlive (Feed.Upheld.connect h)
  | disconnect => exact h.ifAlive (Feed.Upheld.closeStream h .forget rfl)
  | reconnect => exact h.ifAlive (Feed.Upheld.closeStream h .startOver rfl)
  | keepalive => exact h.ifAlive (Feed.Upheld.sendKeepalive h _)
  | refresh => exact h.ifAlive (Feed.Upheld.refresh h)
  | setPolls polls =>
    have hs : Upheld c { r with feed := { r.feed with polls } } :=
      ⟨⟨h.settings, h.numbered, h.keepalive, h.alarms, h.stamps, h.calls, h.queries, h.owns⟩, h.link⟩
    exact h.ifAlive hs
  | retire => exact h.ifAlive (Feed.Upheld.closeStream h .retire rfl)
  | notice channel n =>
    simp only [Run.step]
    split
    · exact h
    · rename_i s hs
      exact h.hear hs n a
  | advance target => exact h.advance target a
  | answer query answer =>
    simp only [Run.step]
    split
    · exact h
    · exact Feed.Upheld.polled h _ answer
  | returned =>
    simp only [Run.step]
    split
    · exact h
    · rename_i x stack hstack
      have hx : r.feed.Upheld c r.ledger (x :: stack) := hstack ▸ h
      exact hx.resume

theorem upheld_play {c : Settings} {r : Run} (h : r.Upheld c) (moves : List (Answers × Move)) :
    (r.play moves).Upheld c :=
  play_induction (P := (·.Upheld c)) (fun _ a m h ↦ h.step a m) h moves

end Run

end ProgressFeed.Feed
