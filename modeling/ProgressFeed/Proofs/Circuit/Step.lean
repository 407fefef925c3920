import ProgressFeed.Proofs.Circuit.Run

/-!
# What happens in one step of a circuit

A step goes to and fro between the link and a session, but neither looks at the other on the way.
So the link ends up where it would end up by itself, with the same notices, and so does the session.
-/

namespace ProgressFeed

namespace Link.Run

variable {id : Nat} {source : Bytes} {backoff : Backoff} {r r' : Run} {a : Answers} {i : Nat}
  {commands more : List Command} {faults others : List Fault}

theorem records_take (r : Run) (s : Step) : r.records <+: (r.take s).records :=
  List.prefix_append ..

theorem records_note (r : Run) (x : Record) : r.records <+: (r.note x).records :=
  List.prefix_append ..

theorem records_hear (r : Run) (l : Link) (channel generation : Nat) (n : Channel.Notice)
    (a : Answers) : r.records <+: (r.hear l channel generation n a).records := by
  cases n with
  | frame f =>
    simp only [hear]
    split
    · exact r.records_note _
    · exact List.prefix_refl _
  | opened =>
    simp only [hear]
    split
    · exact (r.records_note _).trans (records_take ..)
    · exact r.records_take _
  | failed message => exact r.records_take _
  | closed c => exact r.records_take _

theorem records_act (r : Run) (l : Link) (a : Answers) (m : Move) :
    r.records <+: (r.act l a m).records := by
  cases m with
  | connect => exact r.records_take _
  | disconnect => exact (r.records_note _).trans (records_take ..)
  | send | drop => exact List.prefix_append ..
  | notice channel n =>
    simp only [act]
    split
    · exact List.prefix_refl _
    · exact r.records_hear ..
  | ring alarm =>
    simp only [act]
    split
    · exact List.prefix_append ..
    · exact List.prefix_refl _
  | returned =>
    simp only [act]
    split
    · exact List.prefix_refl _
    · exact List.prefix_append ..

theorem records_step (r : Run) (a : Answers) (m : Move) : r.records <+: (r.step a m).records := by
  unfold Run.step
  split
  · exact List.prefix_refl _
  · exact records_act ..

theorem since_eq {records : List Record} (h : r'.records = r.records ++ records) :
    r'.since r = records := by
  rw [since, h, List.drop_left]

/-- The link hears all notices among these records, and its owner returns from every callback. -/
def hearAll (a : Answers) (i : Nat) (news : List Session.Record) (r : Run) : Run :=
  (news.filterMap Session.Record.notice?).foldl (fun r n ↦ r.meet a (.notice i n)) r

theorem hearAll_append (news more : List Session.Record) (r : Run) :
    r.hearAll a i (news ++ more) = (r.hearAll a i news).hearAll a i more := by
  rw [hearAll, List.filterMap_append, List.foldl_append]
  rfl

theorem hearAll_of_notice {x : Session.Record} {n : Channel.Notice} (hx : x.notice? = some n)
    (r : Run) : r.hearAll a i [x] = r.meet a (.notice i n) := by
  simp [hearAll, hx]

theorem hearAll_of_other {x : Session.Record} (hx : x.notice? = none) (r : Run) :
    r.hearAll a i [x] = r := by
  simp [hearAll, hx]

/-- A link at rest. -/
structure Rests (id : Nat) (source : Bytes) (backoff : Backoff) (r : Run) : Prop where
  upheld : r.Upheld id source backoff
  stack : r.stack = []

theorem Rests.meet (h : r.Rests id source backoff) (a : Answers) (m : Move) :
    (r.meet a m).Rests id source backoff :=
  ⟨h.upheld.meet a m, stack_meet r a m⟩

theorem Rests.hearAll (h : r.Rests id source backoff) (a : Answers) (i : Nat)
    (news : List Session.Record) : (r.hearAll a i news).Rests id source backoff := by
  unfold Run.hearAll
  induction news.filterMap Session.Record.notice? generalizing r with
  | nil => exact h
  | cons n notices ih => exact ih (h.meet a (.notice i n))

theorem Rests.meet_stale (h : r.Rests id source backoff) (hi : r.held ≠ some i)
    (n : Channel.Notice) (a : Answers) : r.meet a (.notice i n) = r := by
  rw [Run.meet, h.upheld.step_stale hi, finish_of_nil h.stack]

/-- A notice leads at most to the command to set an alarm. -/
theorem Rests.meet_notice (h : r.Rests id source backoff) (i : Nat) (n : Channel.Notice)
    (a : Answers) : ∃ commands faults, r.Gives (r.meet a (.notice i n)) commands faults ∧
      ∀ c ∈ commands, ∃ alarm delay task, c = .setAlarm alarm delay task := by
  by_cases hi : r.held = some i
  · obtain ⟨l, hl, hi⟩ := Option.bind_eq_some_iff.1 hi
    cases n with
    | opened => exact ⟨[], [], (h.upheld.meet_opened h.stack hl hi a).2.2, by simp⟩
    | frame f =>
      rw [h.upheld.meet_frame h.stack hl hi]
      exact ⟨[], [], (Gives.refl r).note rfl rfl, by simp⟩
    | failed m => exact ⟨[], _, (h.upheld.meet_failed h.stack hl hi m a).2.2, by simp⟩
    | closed c =>
      obtain ⟨commands, faults, hreacts, hparts⟩ := h.upheld.meet_closed h.stack hl hi c a
      refine ⟨commands, faults, hparts.gives, ?_⟩
      cases hreacts with
      | normal | exhausted => simp
      | retry hn ha alarm => simp
  · rw [h.meet_stale hi]
    exact ⟨[], [], .refl r, by simp⟩

end Link.Run

namespace Circuit

variable {id : Nat} {source : Bytes} {backoff : Backoff} {r : Circuit} {a : Answers} {i : Nat}
  {s : Session.Run}

theorem tell_link (r : Circuit) (a : Answers) (m : Link.Move) :
    (r.tell a m).link = r.link.meet a m :=
  runDown_map (g := Circuit.link) (fun _ ↦ rfl) rfl

theorem drive_eq (r : Circuit) (a : Answers) (m : Link.Move) : ∃ records : List Link.Record,
    (r.link.step a m).records = r.link.records ++ records ∧
    r.drive a m = { r with
      link := r.link.step a m
      sessions := (records.filterMap Link.Record.command?).foldl (carry r.kind r.endpoint)
        r.sessions } := by
  obtain ⟨records, hrecords⟩ := r.link.records_step a m
  exact ⟨records, hrecords.symm, by simp only [drive, Link.Run.since_eq hrecords.symm]⟩

theorem tell_eq (r : Circuit) (a : Answers) (m : Link.Move) : ∃ records : List Link.Record,
    (r.link.meet a m).records = r.link.records ++ records ∧
    r.tell a m = { r with
      link := r.link.meet a m
      sessions := (records.filterMap Link.Record.command?).foldl (carry r.kind r.endpoint)
        r.sessions } := by
  have htell : ∃ records : List Link.Record,
      (r.tell a m).link.records = r.link.records ++ records ∧
      r.tell a m = { r with
        link := (r.tell a m).link
        sessions := (records.filterMap Link.Record.command?).foldl (carry r.kind r.endpoint)
          r.sessions } := by
    refine runDown_induction (P := fun x : Circuit ↦ ∃ records : List Link.Record,
      x.link.records = r.link.records ++ records ∧ x = { r with
        link := x.link
        sessions := (records.filterMap Link.Record.command?).foldl (carry r.kind r.endpoint)
          r.sessions }) ?_ ?_
    · rintro x ⟨records, hrecords, hx⟩
      obtain ⟨more, hmore, hdrive⟩ := x.drive_eq a .returned
      refine ⟨records ++ more, ?_, ?_⟩
      · rw [hdrive, hmore, hrecords, List.append_assoc]
      · rw [hdrive, List.filterMap_append, List.foldl_append]
        rw [hx]
    · obtain ⟨records, hrecords, hdrive⟩ := r.drive_eq a m
      exact ⟨records, by rw [hdrive, hrecords], by rw [hdrive]⟩
  rwa [tell_link] at htell

theorem tell_of_gives {m : Link.Move} {commands : List Command} {faults : List Fault}
    (h : r.link.Gives (r.link.meet a m) commands faults) :
    r.tell a m = { r with
      link := r.link.meet a m
      sessions := commands.foldl (carry r.kind r.endpoint) r.sessions } := by
  obtain ⟨records, hrecords, heq⟩ := r.tell_eq a m
  obtain ⟨records', hrecords', rfl, -⟩ := h
  obtain rfl := List.append_cancel_left (hrecords.symm.trans hrecords')
  exact heq

theorem foldl_carry_setAlarm {commands : List Command}
    (h : ∀ c ∈ commands, ∃ alarm delay task, c = .setAlarm alarm delay task)
    (sessions : List Session.Run) :
    commands.foldl (carry r.kind r.endpoint) sessions = sessions := by
  induction commands with
  | nil => rfl
  | cons c commands ih =>
    obtain ⟨alarm, delay, task, rfl⟩ := h c (List.mem_cons_self ..)
    exact ih fun d hd ↦ h d (List.mem_cons_of_mem _ hd)

theorem tell_notice (h : r.link.Rests id source backoff) (i : Nat) (n : Channel.Notice) :
    r.tell a (.notice i n) = { r with link := r.link.meet a (.notice i n) } := by
  obtain ⟨commands, faults, hgives, halarms⟩ := h.meet_notice i n a
  rw [tell_of_gives hgives, foldl_carry_setAlarm halarms]

theorem foldl_tell (h : r.link.Rests id source backoff) (notices : List Channel.Notice) :
    notices.foldl (fun r n ↦ r.tell a (.notice i n)) r =
      { r with link := notices.foldl (fun r n ↦ r.meet a (.notice i n)) r.link } := by
  induction notices generalizing r with
  | nil => rfl
  | cons n notices ih =>
    rw [List.foldl_cons, tell_notice h, ih (h.meet a _)]
    rfl

theorem touch_eq (h : r.link.Rests id source backoff) (hi : r.sessions[i]? = some s)
    {m : Session.Move} {news : List Session.Record} (hm : (s.step m).records = s.records ++ news) :
    r.touch a i m = { r with
      link := r.link.hearAll a i news
      sessions := r.sessions.set i (s.step m) } := by
  have hsince : (s.step m).since s = news := by rw [Session.Run.since, hm, List.drop_left]
  simp only [touch, hi, hsince]
  exact foldl_tell (r := { r with sessions := r.sessions.set i (s.step m) }) h _

theorem getElem?_set_of_some {sessions : List Session.Run} (hi : sessions[i]? = some s)
    (s' : Session.Run) : (sessions.set i s')[i]? = some s' :=
  List.getElem?_set_self (List.getElem?_eq_some_iff.1 hi).1

/-- The owner returns from the callbacks of a session a number of times. -/
theorem iterate_touch (h : r.link.Rests id source backoff) (hi : r.sessions[i]? = some s)
    (n : Nat) : ∃ news, ((Session.Run.step · .returned)^[n] s).records = s.records ++ news ∧
      (touch · a i .returned)^[n] r = { r with
        link := r.link.hearAll a i news
        sessions := r.sessions.set i ((Session.Run.step · .returned)^[n] s) } := by
  induction n generalizing r s with
  | zero =>
    obtain ⟨hlt, hs⟩ := List.getElem?_eq_some_iff.1 hi
    refine ⟨[], by simp, ?_⟩
    rw [Function.iterate_zero_apply, Function.iterate_zero_apply, ← hs, List.set_getElem_self]
    rfl
  | succ n ih =>
    obtain ⟨news, hnews⟩ := s.records_returned
    have htouch := touch_eq (a := a) h hi hnews.symm
    have hrests : (r.touch a i .returned).link.Rests id source backoff := by
      rw [htouch]
      exact h.hearAll a i news
    have hget : (r.touch a i .returned).sessions[i]? = some (s.step .returned) := by
      rw [htouch]
      exact getElem?_set_of_some hi _
    obtain ⟨more, hmore, heq⟩ := ih hrests hget
    refine ⟨news ++ more, ?_, ?_⟩
    · rw [Function.iterate_succ_apply, hmore, ← hnews, List.append_assoc]
    · rw [Function.iterate_succ_apply, heq, htouch]
      simp [Link.Run.hearAll_append]

theorem complete_eq (h : r.link.Rests id source backoff) (hi : r.sessions[i]? = some s) (j : Nat)
    (c : Net.Completion) {news : List Session.Record}
    (hnews : (s.step (.complete j c)).finish.records = s.records ++ news) :
    r.complete a i j c = { r with
      link := r.link.hearAll a i news
      sessions := r.sessions.set i (s.step (.complete j c)).finish } := by
  obtain ⟨first, hfirst⟩ := s.records_complete j c
  have htouch := touch_eq (a := a) h hi hfirst.symm
  have hrests : (r.touch a i (.complete j c)).link.Rests id source backoff := by
    rw [htouch]
    exact h.hearAll a i first
  have hget : (r.touch a i (.complete j c)).sessions[i]? = some (s.step (.complete j c)) := by
    rw [htouch]
    exact getElem?_set_of_some hi _
  have hweight : weight i (r.touch a i (.complete j c)) = (s.step (.complete j c)).weight := by
    rw [weight, hget]
    rfl
  -- As often as the session returns from a callback, the whole circuit does.
  obtain ⟨more, hmore, heq⟩ := iterate_touch hrests hget (s.step (.complete j c)).weight
  have hfinish : news = first ++ more := by
    have hrecords : (s.step (.complete j c)).finish.records = s.records ++ (first ++ more) := by
      rw [← List.append_assoc, hfirst]
      exact hmore
    exact List.append_cancel_left (hnews.symm.trans hrecords)
  rw [complete, runDown, hweight, heq, htouch]
  simp only [hfinish, Link.Run.hearAll_append, List.set_set]
  rfl

theorem complete_of_none (hi : r.sessions[i]? = none) (j : Nat) (c : Net.Completion) :
    r.complete a i j c = r := by
  have htouch : r.touch a i (.complete j c) = r := by simp [touch, hi]
  rw [complete, htouch, runDown_of_zero (by simp [weight, hi])]

end Circuit

end ProgressFeed
