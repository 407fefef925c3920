import ProgressFeed.EventStream
import Mathlib.Data.List.TakeDrop

/-!
# The events of a stream

The lines between two blank lines make up an event, whose data are the values of the data fields
among them. Its name is the last one given there, and its id the last one given so far. This says
of a whole stream which events it has; reading its lines one by one comes to the same.
-/

namespace ProgressFeed.EventStream

/-- What stands before the first colon of a line. A comment has a field without a name. -/
def fieldName (line : Bytes) : Bytes := line.takeWhile (· != 58)

/-- What stands behind the first colon of a line, without one leading space. -/
def fieldValue (line : Bytes) : Bytes :=
  let value := (line.dropWhile (· != 58)).tail
  if value.head? = some 32 then value.tail else value

def values (name : Bytes) (block : List Bytes) : List Bytes :=
  (block.filter (fieldName · = name)).map fieldValue

/-- The ids that lines give; a value with a zero octet is none. -/
def ids (block : List Bytes) : List Bytes := (values (utf8 "id") block).filter (!·.contains 0)

/-- The event that a block of lines makes up, behind those before it. -/
def blockEvent (past block : List Bytes) : Option Event :=
  let data := values (utf8 "data") block
  let name := (values (utf8 "event") block).getLastD []
  if data = [] then none
  else some {
    name := if name = [] then utf8 "message" else name
    data := [10].intercalate data
    id := (ids (past ++ block)).getLastD [] }

/-- The events of the lines that follow, when a block is under way. -/
def eventsFrom (past block : List Bytes) : List Bytes → List Event
  | [] => []
  | [] :: ls => (blockEvent past block).toList ++ eventsFrom (past ++ block) [] ls
  | l :: ls => eventsFrom past (block ++ [l]) ls

variable {past block ls : List Bytes} {l : Bytes}

theorem field_eq (line : Bytes) : field line = (fieldName line, fieldValue line) := by
  unfold field fieldName fieldValue
  rw [List.span_eq_takeWhile_dropWhile]
  cases hd : line.dropWhile (· != 58) with
  | nil => simp
  | cons b v =>
    have hb : b = 58 := by
      have h := List.head_dropWhile_not (· != 58) (l := line) (by simp [hd])
      simpa [hd] using h
    subst hb
    cases v with
    | nil => simp
    | cons c v =>
      by_cases hc : c = 32
      · subst hc
        simp
      · simp [hc]

@[simp] theorem values_nil (name : Bytes) : values name [] = [] := rfl

theorem values_append (name : Bytes) (block more : List Bytes) :
    values name (block ++ more) = values name block ++ values name more := by
  simp [values]

theorem values_singleton (name l : Bytes) :
    values name [l] = if fieldName l = name then [fieldValue l] else [] := by
  by_cases h : fieldName l = name <;> simp [values, h]

/-- A line that is not blank sets a field, if only one that does not count. -/
theorem line_of_ne_nil (d : Draft) (hl : l ≠ []) :
    d.line l = (d.setField (fieldName l) (fieldValue l), none) := by
  cases l with
  | nil => exact absurd rfl hl
  | cons b l =>
    by_cases hb : b = 58
    · subst hb
      rfl
    · have h : d.line (b :: l) =
          ((d.setField (field (b :: l)).1 (field (b :: l)).2), none) := by
        rw [Draft.line.eq_3] <;> simp [hb]
      rw [h, field_eq]

/-- The event under way behind these lines. -/
def drafted (past block : List Bytes) : Draft where
  name := (values (utf8 "event") block).getLastD []
  data := (values (utf8 "data") block).reverse
  id := (ids (past ++ block)).getLastD []

theorem ids_append (block more : List Bytes) : ids (block ++ more) = ids block ++ ids more := by
  simp [ids, values_append]

theorem ids_singleton (l : Bytes) :
    ids [l] =
      if fieldName l = utf8 "id" ∧ (fieldValue l).contains 0 = false then [fieldValue l]
      else [] := by
  by_cases hn : fieldName l = utf8 "id"
  · by_cases h0 : 0 ∈ fieldValue l <;> simp [ids, values_singleton, hn, h0]
  · simp [ids, values_singleton, hn]

theorem drafted_line (hl : l ≠ []) :
    (drafted past block).line l = (drafted past (block ++ [l]), none) := by
  have hde : utf8 "data" ≠ utf8 "event" := by decide
  have hie : utf8 "id" ≠ utf8 "event" := by decide
  have hid : utf8 "id" ≠ utf8 "data" := by decide
  rw [line_of_ne_nil _ hl]
  simp only [Draft.setField, drafted, values_append, values_singleton, ← List.append_assoc,
    ids_append _ [l], ids_singleton]
  by_cases he : fieldName l = utf8 "event"
  · simp [he, hde.symm, hie.symm]
  by_cases hd : fieldName l = utf8 "data"
  · simp [hd, hde, hid.symm]
  by_cases hi : fieldName l = utf8 "id"
  · by_cases h0 : 0 ∈ fieldValue l <;> simp [hi, hie, hid, h0]
  · simp [he, hd, hi]

theorem drafted_dispatch :
    (drafted past block).dispatch = (drafted (past ++ block) [], blockEvent past block) := by
  refine Prod.ext (by simp [drafted, Draft.dispatch]) ?_
  simp only [drafted, Draft.dispatch, blockEvent, List.isEmpty_reverse, List.isEmpty_iff,
    List.reverse_reverse]
  rfl

def Draft.lines (d : Draft) : List Bytes → Draft × List Event
  | [] => (d, [])
  | l :: ls =>
    let (d, event) := d.line l
    let (d, events) := d.lines ls
    (d, event.toList ++ events)

theorem Draft.lines_append (d : Draft) (ls more : List Bytes) :
    d.lines (ls ++ more) =
      (((d.lines ls).1.lines more).1, (d.lines ls).2 ++ ((d.lines ls).1.lines more).2) := by
  induction ls generalizing d with
  | nil => rfl
  | cons l ls ih => simp [Draft.lines, ih]

theorem drafted_lines (past block ls : List Bytes) :
    ((drafted past block).lines ls).2 = eventsFrom past block ls ∧
      ((drafted past block).lines ls).1.id = (ids (past ++ block ++ ls)).getLastD [] := by
  induction ls generalizing past block with
  | nil => exact ⟨rfl, by simp [Draft.lines, drafted]⟩
  | cons l ls ih =>
    cases l with
    | nil =>
      obtain ⟨he, hi⟩ := ih (past ++ block) []
      have hids : ids ([] :: ls) = ids ls := ids_append [[]] ls
      simp only [Draft.lines, Draft.line, drafted_dispatch, eventsFrom, he, hi, true_and]
      simp [ids_append, hids]
    | cons b l =>
      obtain ⟨he, hi⟩ := ih past (block ++ [b :: l])
      simp only [Draft.lines, drafted_line (List.cons_ne_nil b l), eventsFrom, he, hi]
      simp

end ProgressFeed.EventStream
