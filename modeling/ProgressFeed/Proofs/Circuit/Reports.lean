import ProgressFeed.Proofs.Circuit.Upheld

/-!
# Every failed connection is reported once

A connection ends when its session says that it is closed. If the session has failed, it says that
first, and so the link hears of the same end twice; but it reports it once, and waits once before it
tries again. Between the two nothing else can happen to the link, and before the next connection is
opened it forgets what it has reported.
-/

namespace ProgressFeed.Circuit

open Session (Stage)

variable {id : Nat} {source : Bytes} {backoff : Backoff} {r r' : Circuit} {a : Answers} {i : Nat}

/-- The connection that ends by a move, if it was not meant to. -/
def ending? (r : Circuit) : Move → Option Ending
  | .complete i j c =>
    match r.link.link, r.sessions[i]?.bind (·.ending? j c) with
    | some l, some closing => (l.endings i closing).head?
    | _, _ => none
  | .connect | .disconnect | .send _ | .drop | .ring _ => none

/-- At rest no failure is announced. -/
theorem isLate_of_stands {kind : Channel.Kind} {s : Session.Run} {q : Stage}
    (h : s.StandsAt kind q) (hs : s.stack = []) :
    q = .finished ∧ s.session.isOver = true ∨ q.isLate = false ∧ s.session.isOver = false := by
  cases q with
  | unopened => exact .inr ⟨rfl, h.fits.1.1⟩
  | opened => exact .inr ⟨rfl, h.fits.1⟩
  | failing m => simp [h.fits.2.2] at hs
  | finished => exact .inl ⟨rfl, h.fits.1⟩

theorem toList_ending? {l : Link} (hl : r.link.link = some l) {s : Session.Run}
    (hi : r.sessions[i]? = some s) (j : Nat) (c : Net.Completion) :
    (r.ending? (.complete i j c)).toList = (s.ending? j c).elim [] (l.endings i) := by
  simp only [ending?, hl, hi, Option.bind_some]
  cases s.ending? j c with
  | none => rfl
  | some closing =>
    simp only [Option.elim_some, Link.endings]
    split <;> rfl

/-- A session has moved on, and the link with it. -/
theorem Upheld.set (h : r.Upheld id source backoff) {link : Link.Run} {s : Session.Run}
    {endings : List Ending} (hrests : link.Rests id source backoff) (hclean : link.IsClean)
    (ho : link.ledger.opened = r.link.ledger.opened)
    (hs : Stands r.kind s ∧ (s.session.isOver = false ↔ link.held = some i))
    (hheld : link.held = r.link.held ∧ endings = [] ∨
      (r.link.held = some i ∧ link.held = none) ∧ ∀ e ∈ endings, e.session = i)
    (hsettles : Link.Run.Settles backoff endings r.link link) :
    GoesTo id source backoff r { r with link, sessions := r.sessions.set i s } endings := by
  have hne : ∀ j, j ≠ i → (link.held = some j ↔ r.link.held = some j) := by
    intro j hj
    rcases hheld with ⟨heq, -⟩ | ⟨⟨hi, hnone⟩, -⟩
    · rw [heq]
    · simp [hi, hnone, Ne.symm hj]
  refine ⟨⟨hrests, hclean, h.manned.set hs hne, ?_⟩, hsettles, ?_, fun j hj ↦ ?_, fun e he ↦ ?_⟩
  · rw [List.length_set, h.length, ho]
  · rw [List.length_set]
  · rcases hheld with ⟨heq, -⟩ | ⟨⟨-, hnone⟩, -⟩
    · exact .inl (heq ▸ hj)
    · simp [hnone] at hj
  · rcases hheld with ⟨-, rfl⟩ | ⟨⟨hi, hnone⟩, hsession⟩
    · cases he
    · exact ⟨hsession e he ▸ hi, hnone⟩

/-- A session that is over says nothing. -/
theorem Upheld.complete_over (h : r.Upheld id source backoff) {s : Session.Run}
    (hi : r.sessions[i]? = some s) (ho : s.session.isOver = true) (j : Nat) (c : Net.Completion) :
    GoesTo id source backoff r (r.complete a i j c) (r.ending? (.complete i j c)).toList := by
  obtain ⟨hstands, hlive⟩ := h.manned i s hi
  obtain ⟨q, hq⟩ := hstands.upheld.standsAt
  obtain ⟨news, q', hgoes⟩ := hq.complete_finish j c
  -- Nothing comes after the last stage, so that there is nothing for the link to hear.
  obtain rfl := hq.fits.eq_finished ho
  obtain ⟨rfl, hsilent⟩ := hgoes.path.silent
  have hnotices : news.filterMap Session.Record.notice? = [] := by
    refine List.filterMap_eq_nil_iff.2 fun x hx ↦ ?_
    cases x with
    | notice n => exact absurd hx (hsilent n)
    | call | closing | sent => rfl
  have hending : s.ending? j c = none := by
    rw [hgoes.ending?_eq, Session.findSome?_closed?, hnotices]
    rfl
  have hnone : (r.ending? (.complete i j c)).toList = [] := by
    cases hl : r.link.link with
    | none => simp [ending?, hl]
    | some l => rw [toList_ending? hl hi, hending]; rfl
  have hlink : r.link.hearAll a i news = r.link := by rw [Link.Run.hearAll, hnotices]; rfl
  rw [complete_eq h.rests hi j c hgoes.records, hlink, hnone]
  refine h.set h.rests h.clean rfl ⟨⟨hgoes.standsAt.upheld, Session.Run.stack_finish _⟩, ?_⟩
    (.inl ⟨rfl, rfl⟩) (.refl _)
  rw [← hlive]
  simp [ho, hgoes.standsAt.fits.1]

/-- When the session opens, the link is connected and says nothing else. -/
theorem Upheld.set_opened (h : r.Upheld id source backoff) {l : Link} (hl : r.link.link = some l)
    (hheld : l.held = some i) (hreported : l.reported = false) {s : Session.Run}
    (hs : Stands r.kind s) (ho : s.session.isOver = false) (a : Answers) :
    GoesTo id source backoff r
      { r with link := r.link.meet a (.notice i .opened), sessions := r.sessions.set i s } [] := by
  obtain ⟨hlink, hledger, hgives⟩ := h.rests.upheld.meet_opened h.rests.stack hl hheld a
  have hheld' : (r.link.meet a (.notice i .opened)).held = some i := by
    rw [Link.Run.held, hlink]
    exact hheld
  have hrheld : r.link.held = some i := by simpa [Link.Run.held, hl] using hheld
  refine h.set (h.rests.meet a _) ?_ (congrArg Ledger.opened hledger) ⟨hs, ?_⟩
    (.inl ⟨hheld'.trans hrheld.symm, rfl⟩) (hgives.settles .nil)
  · intro l' hl' _
    rw [hlink, Option.some.injEq] at hl'
    exact hl' ▸ hreported
  · simp [ho, hheld']

/-- When the session does not open, the link goes with it through the conversation. -/
theorem Upheld.set_heard (h : r.Upheld id source backoff) {l : Link} (hl : r.link.link = some l)
    (hheld : l.held = some i) (hreported : l.reported = false) {s s' : Session.Run} {q q' : Stage}
    {news : List Session.Record} (hgoes : s.GoesTo r.kind q news s' q') (hq : q.isLate = false)
    (hopened : .notice .opened ∉ news) (hs : s'.stack = []) (a : Answers) :
    GoesTo id source backoff r
      { r with link := r.link.hearAll a i news, sessions := r.sessions.set i s' }
      ((news.findSome? Session.Record.closed?).elim [] (l.endings i)) := by
  have hrheld : r.link.held = some i := by simpa [Link.Run.held, hl] using hheld
  have hstands : Stands r.kind s' := ⟨hgoes.standsAt.upheld, hs⟩
  have hlinks := h.rests.hearAll a i news
  have htracks := Link.Run.Tracks.path (a := a) (.live hq hl rfl (.refl _)) h.rests hheld hreported
    hgoes.path hgoes.closing hopened
  have hstage := isLate_of_stands hgoes.standsAt hs
  rw [Option.none_or] at htracks
  generalize news.findSome? Session.Record.closed? = e at htracks
  cases htracks with
  | live hq' hlink hledger hgives =>
    have ho : s'.session.isOver = false := by
      rcases hstage with ⟨rfl, -⟩ | ⟨-, ho⟩
      · cases hq'
      · exact ho
    have hheld' : (r.link.hearAll a i news).held = some i := by
      simpa [Link.Run.held, hlink] using hheld
    refine h.set hlinks ?_ hledger ⟨hstands, ?_⟩ (.inl ⟨hheld'.trans hrheld.symm, rfl⟩)
      (hgives.settles .nil)
    · intro l' hl' _
      rw [hlink, Option.some.injEq] at hl'
      exact hl' ▸ hreported
    · simp [ho, hheld']
  | failing =>
    rcases hstage with ⟨hq', -⟩ | ⟨hq', -⟩ <;> cases hq'
  | @finished c _ commands faults hparts haccounts =>
    have ho : s'.session.isOver = true := by
      rcases hstage with ⟨-, ho⟩ | ⟨hq', -⟩
      · exact ho
      · cases hq'
    obtain ⟨l', hl', hc⟩ := hparts.link
    have hnone : (r.link.hearAll a i news).held = none := by
      simp [Link.Run.held, hl', Link.held, hc]
    refine h.set hlinks (Link.Run.isClean_of_held hnone) hparts.opened ⟨hstands, ?_⟩
      (.inr ⟨⟨hrheld, hnone⟩, fun e he ↦ Link.session_of_mem_endings he⟩) ?_
    · simp [ho, hnone]
    · obtain ⟨-, -, hbackoff⟩ := h.rests.upheld.self l hl
      refine hparts.gives.settles ?_
      rw [haccounts.filter_eq, ← hbackoff]
      exact haccounts

theorem Upheld.complete_live (h : r.Upheld id source backoff) {s : Session.Run}
    (hi : r.sessions[i]? = some s) (ho : s.session.isOver = false) (j : Nat) (c : Net.Completion) :
    GoesTo id source backoff r (r.complete a i j c) (r.ending? (.complete i j c)).toList := by
  obtain ⟨hstands, hlive⟩ := h.manned i s hi
  obtain ⟨l, hl, hheld⟩ := Option.bind_eq_some_iff.1 (hlive.1 ho)
  have hreported : l.reported = false := h.clean l hl fun hc ↦ by
    rw [Link.held_eq_none.2 hc] at hheld
    cases hheld
  obtain ⟨q, hq⟩ := hstands.upheld.standsAt
  obtain ⟨news, q', hgoes⟩ := hq.complete_finish j c
  have hlate : q.isLate = false := by
    rcases isLate_of_stands hq hstands.stack with ⟨-, hover⟩ | ⟨hlate, -⟩
    · simp [ho] at hover
    · exact hlate
  rw [complete_eq h.rests hi j c hgoes.records, toList_ending? hl hi, hgoes.ending?_eq]
  -- An open changes what the link counts, but then nothing else is heard in this move.
  rcases hgoes.opened_alone hq hstands.stack with hopened | halone
  · exact h.set_heard hl hheld hreported hgoes hlate hopened (Session.Run.stack_finish _) a
  · have honly : ∀ n, .notice n ∈ news → n = .opened := by
      intro n hn
      have hmem : n ∈ news.filterMap Session.Record.notice? := List.mem_filterMap.2 ⟨_, hn, rfl⟩
      rw [halone] at hmem
      exact List.mem_singleton.1 hmem
    have hclosed : news.findSome? Session.Record.closed? = none := by
      rw [Session.findSome?_closed?, halone]
      rfl
    have ho' : (s.step (.complete j c)).finish.session.isOver = false := by
      rcases isLate_of_stands hgoes.standsAt (Session.Run.stack_finish _) with ⟨rfl, -⟩ | ⟨-, ho'⟩
      · have hne : q ≠ .finished := fun hq ↦ by simp [hq, Stage.isLate] at hlate
        rcases hgoes.path.finished_mem hne with hmem | ⟨closing, hmem⟩
        · exact absurd hmem hgoes.closing
        · cases honly _ hmem
      · exact ho'
    rw [hclosed, Link.Run.hearAll, halone]
    exact h.set_opened hl hheld hreported ⟨hgoes.standsAt.upheld, Session.Run.stack_finish _⟩ ho' a

/-! ## Steps and runs -/

theorem Upheld.complete (h : r.Upheld id source backoff) (a : Answers) (i j : Nat)
    (c : Net.Completion) :
    GoesTo id source backoff r (r.complete a i j c) (r.ending? (.complete i j c)).toList := by
  cases hi : r.sessions[i]? with
  | none =>
    have hending : r.ending? (.complete i j c) = none := by
      simp only [ending?, hi, Option.bind_none]
      split <;> simp_all
    rw [complete_of_none hi, hending]
    exact ⟨h, .refl _, Nat.le_refl _, fun _ hi ↦ .inl hi, by simp⟩
  | some s =>
    cases ho : s.session.isOver with
    | true => exact h.complete_over hi ho j c
    | false => exact h.complete_live hi ho j c

theorem Upheld.step (h : r.Upheld id source backoff) (token : Option Bytes) (m : Move) :
    GoesTo id source backoff r (r.step token m) (r.ending? m).toList := by
  have hs := h.rests.stack
  cases m with
  | connect => exact h.tell (h.rests.upheld.serves_connect hs rfl)
  | disconnect => exact h.tell (Link.Run.serves_disconnect hs _)
  | send payload => exact h.tell (Link.Run.serves_send hs payload _)
  | drop => exact h.tell (Link.Run.serves_drop hs _)
  | ring alarm => exact h.tell (h.rests.upheld.serves_ring hs rfl alarm)
  | complete i j c => exact h.complete _ i j c

theorem upheld_start (kind : Channel.Kind) (endpoint : Endpoint) (id : Nat) (source : Bytes)
    (backoff : Backoff) : (start kind endpoint id source backoff).Upheld id source backoff := by
  refine ⟨⟨Link.Run.upheld_start id source backoff, rfl⟩, ?_, ?_, rfl⟩
  · rintro _ ⟨⟩ hc
    exact absurd rfl hc
  · intro i s hi
    simp [start] at hi

/-- The connections that end in a run though they were not meant to. -/
def endings (r : Circuit) : List (Option Bytes × Move) → List Ending
  | [] => []
  | x :: moves => (r.ending? x.2).toList ++ (r.step x.1 x.2).endings moves

theorem Upheld.play (h : r.Upheld id source backoff) (moves : List (Option Bytes × Move)) :
    (r.play moves).Upheld id source backoff ∧
      Link.Run.Settles backoff (r.endings moves) r.link (r.play moves).link := by
  induction moves generalizing r with
  | nil => exact ⟨h, .refl _⟩
  | cons x moves ih =>
    have hstep := h.step x.1 x.2
    obtain ⟨hplay, hsettles⟩ := ih hstep.upheld
    exact ⟨hplay, hstep.settles.trans hsettles⟩

/-- What ends is held, or is still to come. -/
theorem Upheld.session_of_mem (h : r.Upheld id source backoff) {moves : List (Option Bytes × Move)}
    {e : Ending} (he : e ∈ r.endings moves) :
    r.link.held = some e.session ∨ r.sessions.length ≤ e.session := by
  induction moves generalizing r with
  | nil => cases he
  | cons x moves ih =>
    have hstep := h.step x.1 x.2
    rcases List.mem_append.1 he with he | he
    · exact .inl (hstep.ended e he).1
    · rcases ih hstep.upheld he with hheld | hle
      · exact hstep.held _ hheld
      · exact .inr (hstep.length.trans hle)

theorem Upheld.lt_of_held (h : r.Upheld id source backoff) (hi : r.link.held = some i) :
    i < r.sessions.length := by
  obtain ⟨l, hl, hheld⟩ := Option.bind_eq_some_iff.1 hi
  rw [h.length]
  exact (h.rests.upheld.link l hl).lt_of_held hheld

/-- No connection ends twice. -/
theorem Upheld.nodup_endings (h : r.Upheld id source backoff) (moves : List (Option Bytes × Move)) :
    ((r.endings moves).map Ending.session).Nodup := by
  induction moves generalizing r with
  | nil => exact List.nodup_nil
  | cons x moves ih =>
    have hstep := h.step x.1 x.2
    cases hending : r.ending? x.2 with
    | none => simpa [endings, hending] using ih hstep.upheld
    | some e =>
      obtain ⟨hheld, hnone⟩ := hstep.ended e (by simp [hending])
      -- The link lets go of what ends, and whatever it holds later has a greater number.
      have hlt : e.session < r.sessions.length := h.lt_of_held hheld
      have hnot : e.session ∉ ((r.step x.1 x.2).endings moves).map Ending.session := by
        intro hmem
        obtain ⟨e', he', heq⟩ := List.mem_map.1 hmem
        have hle := (hstep.upheld.session_of_mem he').resolve_left (by simp [hnone])
        have hgrows := hstep.length
        omega
      simpa [endings, hending] using ⟨by simpa using hnot, ih hstep.upheld⟩

theorem Upheld.ending?_of_breaks (h : r.Upheld id source backoff) {s : Session.Run} {j : Nat}
    {o : Net.Operation} {c : Net.Completion} (hi : r.sessions[i]? = some s)
    (ho : s.session.isOver = false) (hj : s.pending[j]? = some o) (hb : s.session.Breaks o c) :
    ∃ l closing, (r.link.link = some l ∧ l.held = some i) ∧ closing.isNormal = false ∧
      r.ending? (.complete i j c) = some ⟨i, l.attempts, closing⟩ := by
  obtain ⟨hstands, hlive⟩ := h.manned i s hi
  obtain ⟨l, hl, hheld⟩ := Option.bind_eq_some_iff.1 (hlive.1 ho)
  obtain ⟨closing, hending, hn⟩ := Session.Run.ending?_of_breaks ho hstands.stack hj hb
  refine ⟨l, closing, ⟨hl, hheld⟩, hn, ?_⟩
  simp [ending?, hl, hi, hending, Link.endings, hn]

/-- Every failed connection is reported exactly once. In every run of a link over sessions of either
kind, with an owner that only returns from its callbacks:
all that is ever reported, of a missing credential apart, and all alarms that are set answer to the
connections that have ended without being meant to, one after the other;
no connection ends twice;
what a move adds answers to the connection that it ends, if it ends one, and is nothing otherwise;
and a connection whose session is not over ends at once when one of its operations fails, or the
peer closes it, or the body comes to its end, and it counts the retries of the link at that time. -/
theorem failures_reported_once (kind : Channel.Kind) (endpoint : Endpoint) (id : Nat)
    (source : Bytes) (backoff : Backoff) (moves : List (Option Bytes × Move)) :
    let x := start kind endpoint id source backoff
    let r := x.play moves
    Accounts backoff (x.endings moves) (Link.reports r.link.records) (Link.waits r.link.records) ∧
    ((x.endings moves).map Ending.session).Nodup ∧
    (∀ token m, Accounts backoff (r.ending? m).toList
      (Link.reports ((r.step token m).link.since r.link))
      (Link.waits ((r.step token m).link.since r.link))) ∧
    ∀ (i j : Nat) (s : Session.Run) (o : Net.Operation) (c : Net.Completion),
      r.sessions[i]? = some s → s.session.isOver = false → s.pending[j]? = some o →
      s.session.Breaks o c →
      ∃ l closing, (r.link.link = some l ∧ l.held = some i) ∧ closing.isNormal = false ∧
        r.ending? (.complete i j c) = some ⟨i, l.attempts, closing⟩ := by
  intro x r
  have hx : x.Upheld id source backoff := upheld_start kind endpoint id source backoff
  obtain ⟨hr, hsettles⟩ := hx.play moves
  refine ⟨?_, hx.nodup_endings moves, fun token m ↦ ?_, ?_⟩
  · obtain ⟨records, heq, haccounts⟩ := hsettles
    have hrecords : r.link.records = records := heq
    rw [hrecords]
    exact haccounts
  · obtain ⟨records, heq, haccounts⟩ := (hr.step token m).settles
    rw [Link.Run.since_eq heq]
    exact haccounts
  · intro i j s o c hi ho hj hb
    exact hr.ending?_of_breaks hi ho hj hb

/-- A WebSocket opens, and a payload is being written. -/
def writing : List (Option Bytes × Move) :=
  [.connect, .complete 0 0 {}, .complete 0 0 {}, .complete 0 0 {}, .send (utf8 "hello")].map
    (some (utf8 "token"), ·)

def reset : Net.Completion := { error := some ⟨.other, utf8 "reset"⟩ }

/-- When the write fails the session says so and closes, but it is reported once. -/
theorem failures_reported_once_write :
    let r := (start .webSocket {} 0 [] {}).play writing
    (∃ l closing, (r.link.link = some l ∧ l.held = some 0) ∧ closing.isNormal = false ∧
      r.ending? (.complete 0 1 reset) = some ⟨0, l.attempts, closing⟩) ∧
    Link.reports ((r.step none (.complete 0 1 reset)).link.since r.link) =
      [.channel (utf8 "websocket write: reset")] ∧
    Link.waits ((r.step none (.complete 0 1 reset)).link.since r.link) = [1000] := by
  intro r
  have hkind : (r.sessions[0]?).map (·.session.kind) = some .webSocket := by decide +kernel
  have hover : (r.sessions[0]?).map (·.session.isOver) = some false := by decide +kernel
  have hpending : (r.sessions[0]?).bind (·.pending[1]?) = some .writeMessage := by decide +kernel
  refine ⟨?_, by decide +kernel, by decide +kernel⟩
  obtain ⟨s, hs, hsession⟩ := Option.map_eq_some_iff.1 hkind
  rw [hs, Option.map_some, Option.some.injEq] at hover
  rw [hs, Option.bind_some] at hpending
  have hbreaks : s.session.Breaks .writeMessage reset := by
    cases heq : s.session with
    | socket t => exact .socket (by simp) rfl (by decide)
    | stream t =>
      rw [heq] at hsession
      cases hsession
  exact (failures_reported_once .webSocket {} 0 [] {} writing).2.2.2 0 1 s .writeMessage reset hs
    hover hpending hbreaks

end ProgressFeed.Circuit
