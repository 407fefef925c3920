import ProgressFeed.Proofs.Message.Language
import Mathlib.Data.List.Nodup

/-!
# What a message is read from

A message of a known type is read from a few fields of its payload. Payloads that give these fields
the same values make the same message, or are rejected for the same reason, however they are
written.
-/

namespace ProgressFeed

namespace Json

variable {p q : List (Bytes × Json)} {name : Bytes} {v : Json}

theorem member?_append (p q : List (Bytes × Json)) (name : Bytes) :
    member? (p ++ q) name = (member? q name).or (member? p name) := by
  simp only [member?, List.reverse_append, List.find?_append]
  cases q.reverse.find? fun m ↦ m.1 == name <;> rfl

theorem member?_cons_self (name : Bytes) (v : Json) (p : List (Bytes × Json)) :
    member? ((name, v) :: p) name = (member? p name).or (some v) := by
  rw [← List.singleton_append, member?_append]
  simp [member?]

theorem member?_cons_of_ne {other : Bytes} (h : other ≠ name) (v : Json)
    (p : List (Bytes × Json)) : member? ((other, v) :: p) name = member? p name := by
  rw [← List.singleton_append, member?_append]
  simp [member?, h]

theorem member?_eq_none : member? p name = none ↔ ∀ m ∈ p, m.1 ≠ name := by
  simp [member?]

theorem member?_eq_some (h : (p.map Prod.fst).Nodup) : member? p name = some v ↔ (name, v) ∈ p := by
  induction p with
  | nil => simp [member?]
  | cons m p ih =>
    obtain ⟨other, w⟩ := m
    obtain ⟨hother, hp⟩ := List.nodup_cons.1 h
    by_cases hname : other = name
    · subst hname
      have hfresh : ∀ m ∈ p, m.1 ≠ other := by
        rintro m hm rfl
        exact hother (List.mem_map.2 ⟨m, hm, rfl⟩)
      have hnone : member? p other = none := member?_eq_none.2 hfresh
      have hmem : (other, v) ∉ p := fun hm ↦ hfresh _ hm rfl
      simp [member?_cons_self, hnone, hmem, eq_comm]
    · simp [member?_cons_of_ne hname, ih hp, Ne.symm hname]

theorem member?_perm (h : p.Perm q) (hd : (p.map Prod.fst).Nodup) (name : Bytes) :
    member? p name = member? q name := by
  have hd' : (q.map Prod.fst).Nodup := (h.map Prod.fst).nodup_iff.1 hd
  apply Option.ext
  intro v
  rw [member?_eq_some hd, member?_eq_some hd', h.mem_iff]

end Json

namespace Message

/-- What a message of this shape is read from, its source apart. -/
def Shape.fields : Shape → List Field
  | heartbeat => [.two "is_active" "isActive", .one "timestamp"]
  | connected => [.one "timestamp"]
  | error => [.one "message", .two "error_type" "errorType", .one "details"]
  | closing => [.one "message", .one "timestamp"]

/-- A message of the type is read from these fields. -/
inductive Reads : Bytes → List Field → Prop
  | progress : Reads (utf8 "progress") snapshotFields
  | shaped {type : Bytes} (shape : Shape) (named : type ∈ shape.names) :
      Reads type (sourceField :: shape.fields)

variable {p q : Payload} {type : Bytes} {fields : List Field}

/-! ## Payloads written otherwise -/

/-- The second payload says what the first one says in other words, as far as these fields go. -/
inductive Rewords (fields : List Field) : Payload → Payload → Prop
  | symm {p q : Payload} (h : Rewords fields p q) : Rewords fields q p
  | trans {p q r : Payload} (h : Rewords fields p q) (h' : Rewords fields q r) : Rewords fields p r
  /-- A member that is none of the fields is added. -/
  | unknown (a b : Payload) {name : Bytes} (v : Json) (hn : ∀ f ∈ fields, name ∉ f.spellings) :
      Rewords fields (a ++ b) (a ++ (name, v) :: b)
  /-- A null is bound to a name that is not bound yet. -/
  | null (a b : Payload) {name : Bytes} (hn : ∀ m ∈ a ++ b, m.1 ≠ name) :
      Rewords fields (a ++ b) (a ++ (name, .null) :: b)
  /-- Members with distinct names are put into another order. -/
  | order {p q : Payload} (h : p.Perm q) (hd : (p.map Prod.fst).Nodup) : Rewords fields p q
  /-- A field is spelled otherwise. -/
  | spelling (a b : Payload) {f : Field} {name name' : Bytes} (v : Json) (hf : f ∈ fields)
      (hn : name ∈ f.spellings) (hn' : name' ∈ f.spellings)
      (hother : ∀ m ∈ a ++ b, m.1 ∉ f.spellings) :
      Rewords fields (a ++ (name, v) :: b) (a ++ (name', v) :: b)

/-- No name spells two of these fields. -/
def Apart (fields : List Field) : Prop :=
  ∀ f ∈ fields, ∀ g ∈ fields, ∀ name ∈ f.spellings, name ∈ g.spellings → f = g

theorem member?_insert_of_ne {a b : Payload} {name other : Bytes} (h : name ≠ other) (v : Json) :
    Json.member? (a ++ (name, v) :: b) other = Json.member? (a ++ b) other := by
  rw [Json.member?_append, Json.member?_cons_of_ne h, Json.member?_append]

theorem member?_insert_self {a b : Payload} {name : Bytes} (h : ∀ m ∈ a ++ b, m.1 ≠ name)
    (v : Json) : Json.member? (a ++ (name, v) :: b) name = some v := by
  have ha : Json.member? a name = none :=
    Json.member?_eq_none.2 fun m hm ↦ h m (List.mem_append_left b hm)
  have hb : Json.member? b name = none :=
    Json.member?_eq_none.2 fun m hm ↦ h m (List.mem_append_right a hm)
  rw [Json.member?_append, Json.member?_cons_self, ha, hb]
  rfl

theorem present?_insert_null {a b : Payload} {name : Bytes} (h : ∀ m ∈ a ++ b, m.1 ≠ name)
    (other : Bytes) :
    Field.present? (a ++ (name, .null) :: b) other = Field.present? (a ++ b) other := by
  by_cases hname : name = other
  · subst hname
    rw [Field.present?, Field.present?, member?_insert_self h, Json.member?_eq_none.2 h]
  · rw [Field.present?, Field.present?, member?_insert_of_ne hname]

/-- If one spelling of the field is bound and no other, the field has that value. -/
theorem Field.find?_insert {f : Field} {a b : Payload} {name : Bytes} (hn : name ∈ f.spellings)
    (hother : ∀ m ∈ a ++ b, m.1 ∉ f.spellings) (v : Json) :
    f.find? (a ++ (name, v) :: b) = if v.isNull then none else some v := by
  have hself : Json.member? (a ++ (name, v) :: b) name = some v :=
    member?_insert_self (fun m hm he ↦ hother m hm (he ▸ hn)) v
  have hrest : ∀ s ∈ f.spellings, s ≠ name → Json.member? (a ++ (name, v) :: b) s = none := by
    intro s hs hne
    rw [member?_insert_of_ne hne.symm]
    exact Json.member?_eq_none.2 fun m hm he ↦ hother m hm (he ▸ hs)
  by_cases hv : v = .null
  · subst hv
    refine List.findSome?_eq_none_iff.2 fun s hs ↦ present?_eq_none.2 ?_
    by_cases hne : s = name
    · exact .inr (hne ▸ hself)
    · exact .inl (hrest s hs hne)
  · have hnull : ¬ v.isNull = true := by
      cases v <;> simp_all [Json.isNull]
    obtain ⟨before, after, hsplit, hbefore⟩ := List.eq_append_cons_of_mem hn
    rw [if_neg hnull, find?_eq_some]
    refine ⟨before, name, after, hsplit, hself, hv, fun s hs ↦ .inl (hrest s ?_ ?_)⟩
    · exact hsplit ▸ List.mem_append_left _ hs
    · exact ne_of_mem_of_not_mem hs hbefore

theorem Rewords.find? (h : Rewords fields p q) (hapart : Apart fields) :
    ∀ f ∈ fields, f.find? p = f.find? q := by
  induction h with
  | symm _ ih => exact fun f hf ↦ (ih f hf).symm
  | trans _ _ ih ih' => exact fun f hf ↦ (ih f hf).trans (ih' f hf)
  | unknown a b v hn =>
    refine fun f hf ↦ Field.find?_congr fun s hs ↦ (member?_insert_of_ne ?_ v).symm
    rintro rfl
    exact hn f hf hs
  | null a b hn =>
    exact fun f _ ↦ Field.find?_of_present fun s _ ↦ (present?_insert_null hn s).symm
  | order h hd => exact fun f _ ↦ Field.find?_congr fun s _ ↦ Json.member?_perm h hd s
  | @spelling a b f name name' v hf hn hn' hother =>
    intro g hg
    by_cases hfg : f = g
    · subst hfg
      rw [Field.find?_insert hn hother, Field.find?_insert hn' hother]
    · refine Field.find?_congr fun s hs ↦ ?_
      have hne : name ≠ s := fun he ↦ hfg (hapart f hf g hg name hn (he ▸ hs))
      have hne' : name' ≠ s := fun he ↦ hfg (hapart f hf g hg name' hn' (he ▸ hs))
      rw [member?_insert_of_ne hne, member?_insert_of_ne hne']

/-! ## Messages -/

theorem readShape_congr {shape : Shape} (h : ∀ f ∈ shape.fields, f.find? p = f.find? q)
    (source : Bytes) : readShape source p shape = readShape source q shape := by
  cases shape with
  | heartbeat =>
    simp only [Shape.fields, List.forall_mem_cons] at h
    obtain ⟨hactive, htime, -⟩ := h
    simp only [readShape, Field.flag, timestamp, hactive, htime]
  | connected =>
    simp only [Shape.fields, List.forall_mem_cons] at h
    simp only [readShape, timestamp, h.1]
  | error =>
    simp only [Shape.fields, List.forall_mem_cons] at h
    obtain ⟨hmessage, hkind, hdetails, -⟩ := h
    simp only [readShape, Field.textOr, Field.text?, hmessage, hkind, hdetails]
  | closing =>
    simp only [Shape.fields, List.forall_mem_cons] at h
    obtain ⟨hmessage, htime, -⟩ := h
    simp only [readShape, Field.textOr, Field.text?, timestamp, hmessage, htime]

theorem Reads.readTyped_congr (h : Reads type fields) (hfind : ∀ f ∈ fields, f.find? p = f.find? q)
    (source : Bytes) : readTyped source type (.object p) = readTyped source type (.object q) := by
  cases h with
  | progress =>
    rw [readTyped_progress, readTyped_progress, readSnapshot_congr hfind]
  | shaped shape named =>
    obtain ⟨hsource, hfind⟩ := List.forall_mem_cons.1 hfind
    have htext : sourceField.textOr p source = sourceField.textOr q source := by
      simp only [Field.textOr, Field.text?, hsource]
    have hne := Shape.ne_progress named
    simp only [readTyped_of_ne hne, htext, Shape.ofName?_eq_some.2 named, Option.elim_some,
      readShape_congr hfind]

theorem Reads.apart (h : Reads type fields) : Apart fields := by
  cases h with
  | progress => unfold Apart; decide +kernel
  | shaped shape _ => cases shape <;> unfold Apart <;> decide

/-- Frames that give the one or the other as the payload of a message of this type come to the same,
be it a message or a rejection. -/
def ReadAlike (type : Bytes) (p q : Payload) : Prop :=
  ∀ (source : Bytes) (f g : Channel.Frame) (root root' : Json),
    Json.parse? f.text = some root → Conveys f root type (.object p) →
    Json.parse? g.text = some root' → Conveys g root' type (.object q) →
      ofFrame source f = ofFrame source g

theorem Reads.alike (h : Reads type fields) (hfind : ∀ f ∈ fields, f.find? p = f.find? q) :
    ReadAlike type p q := by
  intro source f g root root' hf hp hg hq
  rw [hp.ofFrame hf, hq.ofFrame hg, h.readTyped_congr hfind]

/-- Two payloads in which the first value that is not null among the spellings of each field is the
same are read alike. So unknown members, nulls, the order of the members and the choice among the
spellings do not matter, nor does it what a server says of the activity of a job. -/
theorem read_by_fields_alone (h : Reads type fields) :
    (∀ p q, (∀ f ∈ fields, ∀ v, f.Binds p v ↔ f.Binds q v) → ReadAlike type p q) ∧
    (∀ p q, Rewords fields p q → ReadAlike type p q) ∧
    (type = utf8 "progress" → ∀ (a b : Payload) (v : Json),
      ∀ name ∈ (Field.two "is_active" "isActive").spellings,
        ReadAlike type (a ++ b) (a ++ (name, v) :: b)) := by
  refine ⟨fun p q hbinds ↦ h.alike fun f hf ↦ ?_, fun p q hwords ↦ h.alike (hwords.find? h.apart),
    ?_⟩
  · apply Option.ext
    intro v
    rw [find?_eq_some, find?_eq_some, hbinds f hf v]
  · rintro rfl a b v name hname
    have hunknown : ∀ name ∈ (Field.two "is_active" "isActive").spellings,
        ∀ f ∈ snapshotFields, name ∉ f.spellings := by decide
    exact Reads.progress.alike
      ((Rewords.unknown a b v (hunknown name hname)).find? Reads.progress.apart)

def plainBeat : Channel.Frame where
  text := utf8 "\x7b\"type\":\"heartbeat\",\"data\":\x7b\"is_active\":true\x7d\x7d"

def plainMembers : Payload := [(utf8 "is_active", .boolean true)]

/-- The same sign of life with the other spelling, a null and something unknown. -/
def wordyBeat : Channel.Frame where
  text := utf8 "\x7b\"type\":\"heartbeat\",\"data\":\x7b" ++
    utf8 "\"timestamp\":null,\"isActive\":true,\"load\":\"low\"\x7d\x7d"

def wordyMembers : Payload :=
  [(utf8 "timestamp", .null), (utf8 "isActive", .boolean true), (utf8 "load", .text (utf8 "low"))]

theorem rewords_beat :
    Rewords (sourceField :: Shape.heartbeat.fields) plainMembers wordyMembers := by
  have hspelling : Rewords (sourceField :: Shape.heartbeat.fields) plainMembers
      [(utf8 "isActive", .boolean true)] :=
    .spelling [] [] (f := .two "is_active" "isActive") (.boolean true) (by decide) (by decide)
      (by decide) (by simp)
  have hunknown : Rewords (sourceField :: Shape.heartbeat.fields)
      [(utf8 "isActive", .boolean true)]
      [(utf8 "isActive", .boolean true), (utf8 "load", .text (utf8 "low"))] :=
    .unknown [(utf8 "isActive", .boolean true)] [] (.text (utf8 "low")) (by decide)
  have hnull : Rewords (sourceField :: Shape.heartbeat.fields)
      [(utf8 "isActive", .boolean true), (utf8 "load", .text (utf8 "low"))] wordyMembers :=
    .null [] [(utf8 "isActive", .boolean true), (utf8 "load", .text (utf8 "low"))] (by decide)
  exact (hspelling.trans hunknown).trans hnull

theorem read_by_fields_alone_beat :
    Reads (utf8 "heartbeat") (sourceField :: Shape.heartbeat.fields) ∧
      Rewords (sourceField :: Shape.heartbeat.fields) plainMembers wordyMembers ∧
      ofFrame (utf8 "job") plainBeat = ofFrame (utf8 "job") wordyBeat := by
  have hreads : Reads (utf8 "heartbeat") (sourceField :: Shape.heartbeat.fields) :=
    .shaped .heartbeat (by decide)
  have hplain : Json.parse? plainBeat.text = some (.object
      [(utf8 "type", .text (utf8 "heartbeat")), (utf8 "data", .object plainMembers)]) := by cbv
  have hwordy : Json.parse? wordyBeat.text = some (.object
      [(utf8 "type", .text (utf8 "heartbeat")), (utf8 "data", .object wordyMembers)]) := by cbv
  refine ⟨hreads, rewords_beat, ?_⟩
  exact (read_by_fields_alone hreads).2.1 _ _ rewords_beat _ _ _ _ _
    hplain (.enveloped rfl (.inl rfl) rfl rfl) hwordy (.enveloped rfl (.inl rfl) rfl rfl)

end Message

end ProgressFeed
