import ProgressFeed.EventStream.Reader
import ProgressFeed.Proofs.EventStream.Blocks
import ProgressFeed.Proofs.EventStream.Lines
import Mathlib.Data.List.TakeWhile

/-!
# Reading a stream in pieces

However a stream is cut into pieces, reading them one after another gives the events that the
stream has as a whole. The state of the reader behind some octets is not found by running it; it
is told by the lines of these octets.
-/

namespace ProgressFeed.EventStream

/-- Lines, the first of them without the byte order mark. -/
def unmarked : List Bytes → List Bytes
  | [] => []
  | l :: ls => (Bytes.after? [0xEF, 0xBB, 0xBF] l).getD l :: ls

def eventsOf (ls : List Bytes) : List Event := eventsFrom [] [] (unmarked ls)

/-- The id in force behind the lines of a stream. -/
def lastIdOf (ls : List Bytes) : Bytes := (ids (unmarked ls)).getLastD []

theorem lines_unmarked (ls : List Bytes) :
    ((({} : Draft).lines (unmarked ls)).2 = eventsOf ls) ∧
      ((({} : Draft).lines (unmarked ls)).1.id = lastIdOf ls) := by
  have h := drafted_lines [] [] (unmarked ls)
  exact h

theorem withoutMark_eq (l : Bytes) :
    Reader.withoutMark l = (Bytes.after? [0xEF, 0xBB, 0xBF] l).getD l := by
  unfold Reader.withoutMark Bytes.after?
  split
  · rfl
  · rename_i h
    have hp : ¬List.isPrefixOf [0xEF, 0xBB, 0xBF] l = true := by
      intro hp
      obtain ⟨t, ht⟩ := List.isPrefixOf_iff_prefix.1 hp
      exact h t ht.symm
    rw [if_neg hp]
    rfl

theorem unmarked_append (ls : List Bytes) (l : Bytes) :
    unmarked (ls ++ [l]) = unmarked ls ++ [if ls.isEmpty then Reader.withoutMark l else l] := by
  cases ls <;> simp [unmarked, withoutMark_eq]

namespace Reader

/-- The reader behind the octets of a stream. -/
def behind (limit : Nat) (s : Bytes) : Reader where
  limit
  mode := if s.getLast? = some 13 then .afterReturn else .line
  line := (tail s).reverse
  size := (tail s).length
  atStart := (whole s).isEmpty
  draft := (({} : Draft).lines (unmarked (whole s))).1

variable {limit : Nat} {s : Bytes} {b : UInt8}

theorem push_feed (h : s.getLast? = some 13) :
    (behind limit s).push 10 = .ok (behind limit (s ++ [10]), none) := by
  simp [push, behind, h, append_feed h]

theorem push_of_not_feed (h : ¬(s.getLast? = some 13 ∧ b = 10)) :
    (behind limit s).push b = (behind limit s).inLine b := by
  by_cases hs : s.getLast? = some 13
  · have hb : b ≠ 10 := fun hb ↦ h ⟨hs, hb⟩
    simp [push, behind, hs, hb]
  · simp [push, behind, hs]

/-- What the line under way comes to if it ends here. -/
def ended (s : Bytes) : Draft × Option Event :=
  (({} : Draft).lines (unmarked (whole s))).1.line
    (if (whole s).isEmpty then withoutMark (tail s) else tail s)

theorem lines_append_tail (s : Bytes) :
    ({} : Draft).lines (unmarked (whole s ++ [tail s])) =
      ((ended s).1, (({} : Draft).lines (unmarked (whole s))).2 ++ (ended s).2.toList) := by
  rw [unmarked_append, Draft.lines_append]
  simp [Draft.lines, ended]

theorem push_end (hb : b = 13 ∨ b = 10) (h : ¬(s.getLast? = some 13 ∧ b = 10)) :
    (behind limit s).push b = .ok (behind limit (s ++ [b]), (ended s).2) := by
  have hline (mode : Mode) : (behind limit s).endLine mode =
      ({ limit, mode, atStart := false, draft := (ended s).1 }, (ended s).2) := by
    simp only [endLine, behind, List.reverse_reverse]
    rfl
  have hbehind : behind limit (s ++ [b]) =
      { limit, mode := if b = 13 then .afterReturn else .line, atStart := false,
        draft := (ended s).1 } := by
    simp [behind, append_end hb h, lines_append_tail]
  rw [push_of_not_feed h, hbehind]
  rcases hb with rfl | rfl
  · exact congrArg Except.ok (hline .afterReturn)
  · exact congrArg Except.ok (hline .line)

theorem push_inside (hb : ¬(b = 13 ∨ b = 10)) :
    (behind limit s).push b =
      if limit ≤ (tail s).length then .error (.lineTooLong limit)
      else .ok (behind limit (s ++ [b]), none) := by
  obtain ⟨h13, h10⟩ := not_or.1 hb
  rw [push_of_not_feed fun h ↦ h10 h.2]
  simp [inLine, behind, h13, h10, append_inside hb]
  rfl

/-- No line of a stream is longer than the limit, and neither is its tail. -/
def Fits (limit : Nat) (s : Bytes) : Prop := ∀ l ∈ lines s, l.length ≤ limit

theorem Fits.mem_whole (h : Fits limit s) : ∀ l ∈ whole s, l.length ≤ limit := by
  intro l hl
  exact h l (by simp [lines_eq, hl])

/-- An octet takes the reader from the octets before it to the octets with it, and completes the
event that the stream has more by then; unless it is one too many for its line. -/
theorem push_behind (hs : Fits limit s) (b : UInt8) :
    (Fits limit (s ++ [b]) ∧ ∃ event,
      (behind limit s).push b = .ok (behind limit (s ++ [b]), event) ∧
      eventsOf (whole (s ++ [b])) = eventsOf (whole s) ++ event.toList) ∨
    (¬(b = 13 ∨ b = 10) ∧ limit ≤ (tail s).length ∧
      (behind limit s).push b = .error (.lineTooLong limit)) := by
  by_cases hb : b = 13 ∨ b = 10
  · left
    by_cases hf : s.getLast? = some 13 ∧ b = 10
    · obtain ⟨hr, rfl⟩ := hf
      refine ⟨?_, none, push_feed hr, by simp [(append_feed hr).1]⟩
      rwa [Fits, lines_append_feed hr]
    · refine ⟨?_, (ended s).2, push_end hb hf, ?_⟩
      · rw [Fits, lines_append_end hb hf, ← lines_eq]
        intro l hl
        rcases List.mem_append.1 hl with hl | hl
        · exact hs l hl
        · simp [List.mem_singleton.1 hl]
      · rw [(append_end hb hf).1, ← (lines_unmarked _).1, lines_append_tail, (lines_unmarked _).1]
  · by_cases ht : limit ≤ (tail s).length
    · right
      exact ⟨hb, ht, by rw [push_inside hb, if_pos ht]⟩
    · left
      refine ⟨?_, none, by rw [push_inside hb, if_neg ht], by simp [append_inside hb]⟩
      intro l hl
      rw [lines_eq, (append_inside hb).1, (append_inside hb).2] at hl
      rcases List.mem_append.1 hl with hl | hl
      · exact hs.mem_whole l hl
      · rw [List.mem_singleton.1 hl, List.length_append, List.length_singleton]
        omega

/-- The octet that is one too many makes its line too long for good, and the lines before it are
all those that can be read. -/
theorem overlong (hs : Fits limit s) (hb : ¬(b = 13 ∨ b = 10)) (ht : limit ≤ (tail s).length)
    (u : Bytes) :
    (∃ l ∈ lines (s ++ b :: u), limit < l.length) ∧
      (whole (s ++ b :: u)).takeWhile (·.length ≤ limit) = whole s := by
  obtain ⟨l, ls, -, hl⟩ := lines_append_inside (s := s) hb u
  have hlong : limit < (tail s ++ b :: l).length := by
    rw [List.length_append, List.length_cons]
    omega
  have hshort : ∀ x ∈ whole s, decide (x.length ≤ limit) = true := by
    intro x hx
    exact decide_eq_true (hs.mem_whole x hx)
  refine ⟨⟨tail s ++ b :: l, by simp [hl], hlong⟩, ?_⟩
  cases ls using List.reverseRecOn with
  | nil =>
    rw [whole_of_lines hl]
    exact List.takeWhile_eq_self_iff.2 hshort
  | append_singleton ls t =>
    rw [← List.cons_append, ← List.append_assoc] at hl
    rw [whole_of_lines hl, List.takeWhile_append_of_pos hshort,
      List.takeWhile_cons_of_neg (by simpa using hlong), List.append_nil]

theorem Fits.takeWhile_whole (h : Fits limit s) :
    (whole s).takeWhile (·.length ≤ limit) = whole s :=
  List.takeWhile_eq_self_iff.2 fun l hl ↦ decide_eq_true (h.mem_whole l hl)

/-- The line that a piece makes too long has begun before it, if the piece is no longer than the
limit itself. -/
theorem whole_append_of_overlong {q u : Bytes} {b : UInt8} (hp : (q ++ b :: u).length ≤ limit)
    (ht : limit ≤ (tail (s ++ q)).length) : whole (s ++ q) = whole s := by
  refine whole_append ?_
  rw [List.length_append, List.length_cons] at hp
  omega

/-- The octets of a piece: either all of them are read, or there is a first one too many. -/
theorem go_behind (hs : Fits limit s) (events : List Event) (p : Bytes) :
    (Fits limit (s ++ p) ∧ ∃ more,
      feed.go (behind limit s) events p = (behind limit (s ++ p), .ok (events.reverse ++ more)) ∧
      eventsOf (whole (s ++ p)) = eventsOf (whole s) ++ more) ∨
    (∃ q b u, p = q ++ b :: u ∧ Fits limit (s ++ q) ∧ ¬(b = 13 ∨ b = 10) ∧
      limit ≤ (tail (s ++ q)).length ∧
      feed.go (behind limit s) events p =
        ({ behind limit (s ++ q) with mode := .broken }, .error (.lineTooLong limit))) := by
  induction p generalizing s events with
  | nil => exact .inl ⟨by simpa using hs, [], by simp [feed.go], by simp⟩
  | cons b p ih =>
    rcases push_behind hs b with ⟨hsb, event, hpush, hevent⟩ | ⟨hb, ht, hpush⟩
    · have hgo : feed.go (behind limit s) events (b :: p) =
          feed.go (behind limit (s ++ [b])) (event.toList ++ events) p := by
        cases event <;> simp [feed.go, hpush]
      rw [hgo]
      have hassoc (u : Bytes) : s ++ [b] ++ u = s ++ b :: u := by simp
      rcases ih hsb (event.toList ++ events) with
        ⟨hf, more, hmore, he⟩ | ⟨q, c, u, rfl, hq, hc, ht, hfail⟩
      · rw [hassoc] at hf hmore he
        refine .inl ⟨hf, event.toList ++ more, ?_, by rw [he, hevent, List.append_assoc]⟩
        rw [hmore]
        cases event <;> simp
      · rw [hassoc] at hq ht hfail
        exact .inr ⟨b :: q, c, u, by simp, hq, hc, ht, hfail⟩
    · refine .inr ⟨[], b, p, rfl, by simpa using hs, hb, by simpa using ht, ?_⟩
      simp [feed.go, hpush]

/-- The events of a stream, up to its first line that is too long. -/
def legible (limit : Nat) (s : Bytes) : List Event :=
  eventsOf ((whole s).takeWhile (·.length ≤ limit))

theorem Fits.legible_eq (h : Fits limit s) : legible limit s = eventsOf (whole s) :=
  congrArg eventsOf h.takeWhile_whole

/-- A piece that is no longer than the limit completes the events that the stream has more by then. A
line that it makes too long has begun before it, so that no event of the piece is lost with it. -/
theorem feed_behind (hs : Fits limit s) {p : Bytes} (hp : p.length ≤ limit) :
    (Fits limit (s ++ p) ∧ ∃ more, (behind limit s).feed p = (behind limit (s ++ p), .ok more) ∧
      legible limit (s ++ p) = legible limit s ++ more) ∨
    ((∃ l ∈ lines (s ++ p), limit < l.length) ∧ legible limit (s ++ p) = legible limit s ∧
      ∃ r, (behind limit s).feed p = (r, .error (.lineTooLong limit))) := by
  rcases go_behind hs [] p with ⟨hf, more, hgo, he⟩ | ⟨q, b, u, rfl, hq, hb, ht, hgo⟩
  · refine .inl ⟨hf, more, hgo, ?_⟩
    rw [hf.legible_eq, hs.legible_eq, he]
  · obtain ⟨hlong, hwhole⟩ := overlong hq hb ht u
    rw [List.append_assoc] at hlong hwhole
    refine .inr ⟨hlong, ?_, _, hgo⟩
    rw [legible, hwhole, whole_append_of_overlong hp ht, hs.legible_eq]

/-- Reads pieces one after another; what is said of each. -/
def feedAll (r : Reader) : List Bytes → Reader × List (Except Failure (List Event))
  | [] => (r, [])
  | p :: pieces =>
    let (r, answer) := r.feed p
    let (r, answers) := r.feedAll pieces
    (r, answer :: answers)

def delivered (answers : List (Except Failure (List Event))) : List Event :=
  answers.flatMap fun x ↦ x.toOption.getD []

/-- A broken reader hands out nothing more, and stays as it is. -/
theorem feedAll_of_broken {r : Reader} (hr : r.mode = .broken) (pieces : List Bytes) :
    (r.feedAll pieces).1 = r ∧ delivered (r.feedAll pieces).2 = [] := by
  induction pieces with
  | nil => exact ⟨rfl, rfl⟩
  | cons p pieces ih =>
    cases p with
    | nil => exact ih
    | cons b p =>
      have hself : { r with mode := .broken } = r := by
        cases r
        cases hr
        rfl
      have hfeed : r.feed (b :: p) = (r, .error .broken) := by
        simp [feed, feed.go, push, hr, hself]
      simp only [feedAll, hfeed]
      exact ih

/-- What has come of pieces that were read behind the octets of a stream. -/
structure Outcome (limit : Nat) (s : Bytes) (pieces : List Bytes) : Prop where
  fails : (∃ x ∈ ((behind limit s).feedAll pieces).2, ∃ e, x = .error e) ↔
    ∃ l ∈ lines (s ++ pieces.flatten), limit < l.length
  events : eventsOf (whole s) ++ delivered ((behind limit s).feedAll pieces).2 =
    eventsOf ((whole (s ++ pieces.flatten)).takeWhile (·.length ≤ limit))
  lastId : ((behind limit s).feedAll pieces).1.lastId =
    lastIdOf ((whole (s ++ pieces.flatten)).takeWhile (·.length ≤ limit))

theorem lastId_behind (limit : Nat) (s : Bytes) :
    (behind limit s).lastId = lastIdOf (whole s) := (lines_unmarked _).2

theorem outcome (pieces : List Bytes) (hp : ∀ p ∈ pieces, p.length ≤ limit) (hs : Fits limit s) :
    Outcome limit s pieces := by
  induction pieces generalizing s with
  | nil =>
    constructor
    · simpa [feedAll, Fits] using hs
    · simp [feedAll, delivered, hs.takeWhile_whole]
    · simp [feedAll, hs.takeWhile_whole, lastId_behind]
  | cons p pieces ih =>
    have hassoc : s ++ (p :: pieces).flatten = s ++ p ++ pieces.flatten := by simp
    rcases go_behind hs [] p with ⟨hf, more, hgo, he⟩ | ⟨q, b, u, rfl, hq, hb, ht, hgo⟩
    · obtain ⟨h₁, h₂, h₃⟩ := ih (fun x hx ↦ hp x (List.mem_cons_of_mem _ hx)) hf
      have hfeed : (behind limit s).feedAll (p :: pieces) =
          (((behind limit (s ++ p)).feedAll pieces).1,
            .ok more :: ((behind limit (s ++ p)).feedAll pieces).2) := by
        simp only [feedAll, feed, hgo, List.reverse_nil, List.nil_append]
      constructor
      · rw [hfeed, hassoc, ← h₁]
        simp
      · rw [hfeed, hassoc, ← h₂, he, List.append_assoc]
        rfl
      · rw [hfeed, hassoc]
        exact h₃
    · have hwhole := whole_append_of_overlong (hp _ (List.mem_cons_self ..)) ht
      have hbroken :=
        feedAll_of_broken (r := { behind limit (s ++ q) with mode := .broken }) rfl pieces
      have hfeed : (behind limit s).feedAll ((q ++ b :: u) :: pieces) =
          ((feedAll { behind limit (s ++ q) with mode := .broken } pieces).1,
            .error (.lineTooLong limit) ::
              (feedAll { behind limit (s ++ q) with mode := .broken } pieces).2) := by
        simp only [feedAll, feed, hgo]
      have hover := overlong hq hb ht (u ++ pieces.flatten)
      have hcut : s ++ ((q ++ b :: u) :: pieces).flatten =
          s ++ q ++ b :: (u ++ pieces.flatten) := by simp
      rw [← hcut] at hover
      constructor
      · rw [hfeed]
        exact ⟨fun _ ↦ hover.1, fun _ ↦ ⟨_, List.mem_cons_self .., _, rfl⟩⟩
      · rw [hfeed, hover.2, hwhole]
        exact (congrArg (eventsOf (whole s) ++ ·) hbroken.2).trans (List.append_nil _)
      · rw [hfeed, hover.2, hbroken.1]
        exact lastId_behind limit (s ++ q)

/-- Pieces no longer than the limit, read one after another by a new reader. Reading fails just when
the stream has a line or a tail longer than the limit. The events handed out and the last id are
those of the lines before the first that is too long, and so all of the stream if there is none. -/
theorem feedAll_eq_eventsOf (limit : Nat) (pieces : List Bytes)
    (hp : ∀ p ∈ pieces, p.length ≤ limit) :
    ((∃ x ∈ (feedAll { limit } pieces).2, ∃ e, x = .error e) ↔
      ∃ l ∈ lines pieces.flatten, limit < l.length) ∧
    delivered (feedAll { limit } pieces).2 =
      eventsOf ((whole pieces.flatten).takeWhile (·.length ≤ limit)) ∧
    (feedAll { limit } pieces).1.lastId =
      lastIdOf ((whole pieces.flatten).takeWhile (·.length ≤ limit)) ∧
    ((∀ l ∈ lines pieces.flatten, l.length ≤ limit) →
      delivered (feedAll { limit } pieces).2 = eventsOf (whole pieces.flatten) ∧
      (feedAll { limit } pieces).1.lastId = lastIdOf (whole pieces.flatten)) := by
  obtain ⟨h₁, h₂, h₃⟩ := outcome (s := []) pieces hp (by simp [Fits])
  refine ⟨h₁, h₂, h₃, fun hf ↦ ?_⟩
  rw [← Fits.takeWhile_whole hf]
  exact ⟨h₂, h₃⟩

/-- A stream cut inside the byte order mark, inside a pair of line ends and inside a field. -/
def cutPieces : List Bytes :=
  [[0xEF, 0xBB], [0xBF, 13], 10 :: utf8 "id:7", 13 :: utf8 "da", utf8 "ta: a" ++ [10],
    utf8 "data" ++ [13], [13], [10, 10] ++ utf8 ":data", 13 :: utf8 "event:e", [10],
    utf8 "data:b" ++ [10, 13], utf8 "data:c"]

theorem feedAll_eq_eventsOf_cut :
    (∀ p ∈ cutPieces, p.length ≤ 10) ∧
      delivered (feedAll { limit := 10 } cutPieces).2 =
        [⟨utf8 "message", utf8 "a" ++ [10], utf8 "7"⟩, ⟨utf8 "e", utf8 "b", utf8 "7"⟩] ∧
      (feedAll { limit := 10 } cutPieces).1.lastId = utf8 "7" := by
  have hp : ∀ p ∈ cutPieces, p.length ≤ 10 := by decide
  have hl : ∀ l ∈ lines cutPieces.flatten, l.length ≤ 10 := by decide
  obtain ⟨he, hi⟩ := (feedAll_eq_eventsOf 10 cutPieces hp).2.2.2 hl
  exact ⟨hp, he.trans (by decide), hi.trans (by decide)⟩

end Reader

end ProgressFeed.EventStream
