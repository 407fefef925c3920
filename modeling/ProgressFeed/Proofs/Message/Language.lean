import ProgressFeed.Proofs.Json.Range
import ProgressFeed.Proofs.Message.Wrapping

/-!
# The frames that carry a message

A frame gives a type and a payload. It is accepted if and only if the type is known, the payload is an
object, and every field that a message of this type reads is absent or of its kind; progress has to
name a phase as well.
-/

namespace ProgressFeed

theorem Phase.ofName?_eq_some {s : Bytes} {phase : Phase} :
    ofName? s = some phase ↔ s = phase.name := by
  constructor
  · intro h
    have hname : (phase.name == s) = true := List.find?_some (p := fun q ↦ name q == s) h
    exact (eq_of_beq hname).symm
  · rintro rfl
    cases phase <;> rfl

namespace Message

variable {p q : Payload} {v : Json} {type source : Bytes}

/-! ## Fields -/

/-- The first spelling of the field that is present and not null has this value. -/
def Field.Binds (f : Field) (p : Payload) (v : Json) : Prop :=
  ∃ before name after, f.spellings = before ++ name :: after ∧
    Json.member? p name = some v ∧ v ≠ .null ∧
    ∀ n ∈ before, Json.member? p n = none ∨ Json.member? p n = some .null

inductive Kind
  | text
  | flag
  | count
  | amount

/-- A zero may be written with a minus sign. -/
inductive Kind.Admits : Kind → Json → Prop
  | text (s : Bytes) : Admits text (.text s)
  | flag (b : Bool) : Admits flag (.boolean b)
  | count {n : Nat} (h : n < 2 ^ 64) : Admits count (.unsigned n)
  | countZero : Admits count (.integer 0)
  | amountWhole (n : Nat) : Admits amount (.unsigned n)
  | amountZero : Admits amount (.integer 0)
  | amountReal {x : Binary64} (h : x.isNegative = true → x.magnitude = 0) : Admits amount (.real x)

/-- The field is absent or of this kind. -/
def Field.Fits (f : Field) (kind : Kind) (p : Payload) : Prop := ∀ v, f.Binds p v → kind.Admits v

theorem present?_eq_some {name : Bytes} :
    Field.present? p name = some v ↔ Json.member? p name = some v ∧ v ≠ .null := by
  unfold Field.present?
  split
  · rename_i hnull
    rw [hnull]
    constructor
    · intro h
      cases h
    · rintro ⟨h, hne⟩
      exact absurd (Option.some.inj h).symm hne
  · rename_i hne
    refine ⟨fun h ↦ ⟨h, ?_⟩, And.left⟩
    rintro rfl
    exact hne h

theorem present?_eq_none {name : Bytes} :
    Field.present? p name = none ↔ Json.member? p name = none ∨ Json.member? p name = some .null := by
  unfold Field.present?
  split
  · simp [*]
  · simp_all

theorem find?_eq_some {f : Field} : f.find? p = some v ↔ f.Binds p v := by
  unfold Field.find? Field.Binds
  simp only [List.findSome?_eq_some_iff, present?_eq_some, present?_eq_none, and_assoc]

theorem fits_iff {f : Field} {kind : Kind} :
    f.Fits kind p ↔ ∀ v, f.find? p = some v → kind.Admits v :=
  forall_congr' fun _ ↦ imp_congr_left find?_eq_some.symm

/-! ## What is accepted -/

section

variable {α β : Type}

def Accepts (x : Except Rejection α) : Prop := ∃ a, x = .ok a

theorem accepts_ok (a : α) : Accepts (.ok a) := ⟨a, rfl⟩

theorem not_accepts_error (r : Rejection) : ¬ Accepts (.error r : Except Rejection α) := by
  rintro ⟨a, ⟨⟩⟩

theorem accepts_map {x : Except Rejection α} (f : α → β) : Accepts (f <$> x) ↔ Accepts x := by
  cases x with
  | error r => exact iff_of_false (not_accepts_error r) (not_accepts_error r)
  | ok a => exact iff_of_true (accepts_ok (f a)) (accepts_ok a)

/-- Of what is read in a row, the later does not depend on the earlier. -/
theorem accepts_bind {x : Except Rejection α} {g : α → Except Rejection β} {P Q : Prop}
    (hx : Accepts x ↔ P) (hg : ∀ a, Accepts (g a) ↔ Q) : Accepts (x >>= g) ↔ P ∧ Q := by
  cases x with
  | error r =>
    have hP : ¬ P := fun h ↦ not_accepts_error r (hx.2 h)
    exact iff_of_false (not_accepts_error r) fun h ↦ hP h.1
  | ok a =>
    have hP : P := hx.1 (accepts_ok a)
    exact (hg a).trans (iff_and_self.2 fun _ ↦ hP)

/-- A field that may be absent is accepted when its value is. -/
theorem accepts_field {f : Field} {kind : Kind} {none : Except Rejection α}
    {some : Json → Except Rejection α} (hnone : Accepts none)
    (hsome : ∀ v, f.find? p = .some v → (Accepts (some v) ↔ kind.Admits v)) :
    Accepts (match f.find? p with | .none => none | .some v => some v) ↔ f.Fits kind p := by
  rw [fits_iff]
  cases hv : f.find? p with
  | none => exact iff_of_true hnone fun _ h ↦ nomatch h
  | some v => simpa using hsome v hv

end

theorem Field.accepts_text? (f : Field) (p : Payload) : Accepts (f.text? p) ↔ f.Fits .text p := by
  refine accepts_field (accepts_ok none) fun v _ ↦ ?_
  cases v with
  | text s => exact iff_of_true (accepts_ok _) (.text s)
  | _ => exact iff_of_false (not_accepts_error _) nofun

theorem Field.accepts_textOr (f : Field) (p : Payload) (default : Bytes) :
    Accepts (f.textOr p default) ↔ f.Fits .text p :=
  (accepts_map _).trans (f.accepts_text? p)

theorem Field.accepts_flag (f : Field) (p : Payload) : Accepts (f.flag p) ↔ f.Fits .flag p := by
  refine accepts_field (accepts_ok false) fun v _ ↦ ?_
  cases v with
  | boolean b => exact iff_of_true (accepts_ok _) (.flag b)
  | _ => exact iff_of_false (not_accepts_error _) nofun

theorem Field.accepts_asCount (f : Field) (h : v.InRange) :
    Accepts (f.asCount v) ↔ Kind.count.Admits v := by
  cases h with
  | unsigned h => exact iff_of_true (accepts_ok _) (.count h)
  | @integer i least most =>
    by_cases hi : i < 0
    · rw [asCount, if_pos hi]
      refine iff_of_false (not_accepts_error _) fun h ↦ ?_
      cases h
      exact lt_irrefl _ hi
    · obtain rfl : i = 0 := by omega
      exact iff_of_true (accepts_ok _) .countZero
  | _ => exact iff_of_false (not_accepts_error _) nofun

theorem inRange_of_find? {f : Field} (hp : (Json.object p).InRange) (hv : f.find? p = some v) :
    v.InRange := by
  obtain ⟨_, _, _, _, hmember, -⟩ := find?_eq_some.1 hv
  exact hp.member hmember

variable (hp : (Json.object p).InRange)
include hp

theorem Field.accepts_count (f : Field) : Accepts (f.count p) ↔ f.Fits .count p :=
  accepts_field (accepts_ok 0) fun _ hv ↦ f.accepts_asCount (inRange_of_find? hp hv)

theorem Field.accepts_count? (f : Field) : Accepts (f.count? p) ↔ f.Fits .count p :=
  accepts_field (accepts_ok none) fun _ hv ↦
    (accepts_map some).trans (f.accepts_asCount (inRange_of_find? hp hv))

theorem Field.accepts_amount (f : Field) : Accepts (f.amount p) ↔ f.Fits .amount p := by
  refine accepts_field (accepts_ok Binary64.zero) fun v hv ↦ ?_
  have hnumber (x : Binary64) :
      Accepts (if x.lt .zero then f.misfit .negative else .ok x) ↔ ¬ x.lt .zero = true := by
    split
    · exact iff_of_false (not_accepts_error _) (not_not_intro ‹_›)
    · exact iff_of_true (accepts_ok x) ‹_›
  cases inRange_of_find? hp hv with
  | @unsigned n h =>
    refine (hnumber (.ofInt n)).trans (iff_of_true ?_ (.amountWhole n))
    simp [Binary64.lt_zero_ofInt]
  | @integer i least most =>
    refine (hnumber (.ofInt i)).trans ?_
    rw [Binary64.lt_zero_ofInt, decide_eq_true_eq]
    by_cases hi : i < 0
    · refine iff_of_false (not_not_intro hi) fun h ↦ ?_
      cases h
      exact lt_irrefl _ hi
    · obtain rfl : i = 0 := by omega
      exact iff_of_true hi .amountZero
  | @real x h =>
    refine (hnumber x).trans ?_
    rw [Binary64.lt_zero_iff (le_of_lt h), not_and_not_right]
    exact ⟨.amountReal, fun h ↦ by cases h with | amountReal h => exact h⟩
  | _ => exact iff_of_false (not_accepts_error _) nofun

/-! ## Messages -/

/-- What a snapshot takes from its payload, the phase apart. -/
def snapshotKinds : List (Field × Kind) :=
  [(sourceField, .text), (.two "phase_description" "phaseDescription", .text),
    (.two "elapsed_time_secs" "elapsedSeconds", .count),
    (.two "directories_found" "directoriesFound", .count),
    (.two "directories_processed" "directoriesProcessed", .count),
    (.two "files_found" "filesFound", .count), (.two "files_processed" "filesProcessed", .count),
    (.two "bytes_processed" "bytesProcessed", .count), (.one "errors", .count),
    (.one "warnings", .count),
    (.two "processing_rate_files_per_sec" "processingRateFilesPerSec", .amount),
    (.two "files_progress_percent" "filesProgressPercent", .amount),
    (.two "estimated_time_remaining_secs" "estimatedSecondsRemaining", .count),
    (.two "current_directory" "currentDirectory", .text), (.two "current_file" "currentFile", .text)]

namespace Shape

/-- What a message of this shape is called. -/
def names : Shape → List Bytes
  | heartbeat => [utf8 "heartbeat"]
  | connected => [utf8 "connected", utf8 "connection_confirmed"]
  | error => [utf8 "error"]
  | closing => [utf8 "connection_closing"]

/-- What a message of this shape takes from its payload, source and time apart. -/
def kinds : Shape → List (Field × Kind)
  | heartbeat => [(.two "is_active" "isActive", .flag)]
  | connected => []
  | error =>
    [(.one "message", .text), (.two "error_type" "errorType", .text), (.one "details", .text)]
  | closing => [(.one "message", .text)]

end Shape

/-- The payload makes a message of the type. -/
inductive Readable (p : Payload) : Bytes → Prop
  | progress (phase : Phase) (named : (Field.one "phase").Binds p (.text phase.name))
    (fits : ∀ x ∈ snapshotKinds, x.1.Fits x.2 p) : Readable p (utf8 "progress")
  | shaped {type : Bytes} (shape : Shape) (named : type ∈ shape.names)
    (source : sourceField.Fits .text p) (fits : ∀ x ∈ shape.kinds, x.1.Fits x.2 p) :
    Readable p type

omit hp

theorem accepts_readPhase :
    Accepts (readPhase p) ↔ ∃ phase : Phase, (Field.one "phase").Binds p (.text phase.name) := by
  simp only [← find?_eq_some, readPhase]
  constructor
  · rintro ⟨phase, h⟩
    split at h
    · cases h
    · rename_i name hname
      split at h
      · cases h
      · rename_i phase' hphase
        refine ⟨phase', ?_⟩
        rw [text?_eq_some.1 hname, Phase.ofName?_eq_some.1 hphase]
  · rintro ⟨phase, h⟩
    have hname : ((Field.one "phase").find? p).bind Json.text? = some phase.name :=
      text?_eq_some.2 h
    simp only [hname, Phase.ofName?_eq_some.2 rfl]
    exact accepts_ok phase

theorem accepts_readSnapshot (hp : (Json.object p).InRange) (source : Bytes) :
    Accepts (readSnapshot source (.object p)) ↔
      (∃ phase : Phase, (Field.one "phase").Binds p (.text phase.name)) ∧
        ∀ x ∈ snapshotKinds, x.1.Fits x.2 p := by
  simp only [snapshotKinds, List.forall_mem_cons, List.not_mem_nil, false_implies, implies_true]
  refine accepts_bind accepts_readPhase fun phase ↦ ?_
  refine accepts_bind (Field.accepts_textOr _ p source) fun _ ↦ ?_
  refine accepts_bind (Field.accepts_textOr _ p _) fun _ ↦ ?_
  iterate 8 refine accepts_bind (Field.accepts_count hp _) fun _ ↦ ?_
  iterate 2 refine accepts_bind (Field.accepts_amount hp _) fun _ ↦ ?_
  refine accepts_bind (Field.accepts_count? hp _) fun _ ↦ ?_
  iterate 2 refine accepts_bind (Field.accepts_text? _ p) fun _ ↦ ?_
  exact iff_of_true (accepts_ok _) trivial

namespace Shape

theorem ofName?_eq_some {shape : Shape} : ofName? type = some shape ↔ type ∈ shape.names := by
  constructor
  · intro h
    unfold ofName? at h
    split_ifs at h with hheartbeat hconnected herror hclosing
    all_goals cases h
    · exact List.mem_singleton.2 (eq_of_beq hheartbeat)
    · simpa [names] using hconnected
    · exact List.mem_singleton.2 (eq_of_beq herror)
    · exact List.mem_singleton.2 (eq_of_beq hclosing)
  · intro h
    cases shape <;> simp only [names, List.mem_cons, List.not_mem_nil, or_false] at h
    · exact h ▸ rfl
    · rcases h with rfl | rfl <;> rfl
    · exact h ▸ rfl
    · exact h ▸ rfl

theorem ne_progress {shape : Shape} (h : type ∈ shape.names) : type ≠ utf8 "progress" := by
  rintro rfl
  cases shape <;> revert h <;> decide

end Shape

theorem accepts_readShape (source : Bytes) (shape : Shape) :
    Accepts (readShape source p shape) ↔ ∀ x ∈ shape.kinds, x.1.Fits x.2 p := by
  cases shape <;> simp only [Shape.kinds, List.forall_mem_cons, List.not_mem_nil, false_implies,
    implies_true]
  case heartbeat =>
    refine accepts_bind (Field.accepts_flag _ p) fun _ ↦ ?_
    exact iff_of_true (accepts_ok _) trivial
  case connected => exact iff_of_true (accepts_ok _) trivial
  case error =>
    refine accepts_bind (Field.accepts_textOr _ p _) fun _ ↦ ?_
    iterate 2 refine accepts_bind (Field.accepts_text? _ p) fun _ ↦ ?_
    exact iff_of_true (accepts_ok _) trivial
  case closing =>
    refine accepts_bind (Field.accepts_textOr _ p _) fun _ ↦ ?_
    exact iff_of_true (accepts_ok _) trivial

theorem readTyped_of_ne (h : type ≠ utf8 "progress") (source : Bytes) (p : Payload) :
    readTyped source type (.object p) = sourceField.textOr p source >>= fun source ↦
      (Shape.ofName? type).elim (.error (.unknownType type)) (readShape source p) := by
  simp only [readTyped, Json.members?, beq_iff_eq, if_neg h]
  cases Shape.ofName? type <;> rfl

theorem readable_progress :
    Readable p (utf8 "progress") ↔
      (∃ phase : Phase, (Field.one "phase").Binds p (.text phase.name)) ∧
        ∀ x ∈ snapshotKinds, x.1.Fits x.2 p := by
  constructor
  · intro h
    cases h with
    | progress phase named fits => exact ⟨⟨phase, named⟩, fits⟩
    | shaped shape named => exact absurd rfl (Shape.ne_progress named)
  · rintro ⟨⟨phase, named⟩, fits⟩
    exact .progress phase named fits

theorem readable_of_ne (h : type ≠ utf8 "progress") :
    Readable p type ↔ sourceField.Fits .text p ∧
      ∃ shape, Shape.ofName? type = some shape ∧ ∀ x ∈ shape.kinds, x.1.Fits x.2 p := by
  constructor
  · intro hr
    cases hr with
    | progress => exact absurd rfl h
    | shaped shape named source fits =>
      exact ⟨source, shape, Shape.ofName?_eq_some.2 named, fits⟩
  · rintro ⟨source, shape, named, fits⟩
    exact .shaped shape (Shape.ofName?_eq_some.1 named) source fits

theorem accepts_readTyped (hp : (Json.object p).InRange) (source type : Bytes) :
    Accepts (readTyped source type (.object p)) ↔ Readable p type := by
  by_cases h : type = utf8 "progress"
  · subst h
    rw [readTyped_progress, accepts_map, accepts_readSnapshot hp, readable_progress]
  · rw [readTyped_of_ne h, readable_of_ne h]
    refine accepts_bind (Field.accepts_textOr _ p source) fun source ↦ ?_
    cases Shape.ofName? type with
    | none => exact iff_of_false (not_accepts_error _) nofun
    | some shape => exact (accepts_readShape source shape).trans (by simp)

/-- A payload that is no object makes no message. -/
theorem accepts_readTyped_iff {payload : Json} (hp : payload.InRange) (source type : Bytes) :
    Accepts (readTyped source type payload) ↔ ∃ p, payload = .object p ∧ Readable p type := by
  cases payload with
  | object p =>
    rw [accepts_readTyped hp]
    exact ⟨fun h ↦ ⟨p, rfl, h⟩, fun ⟨q, hq, h⟩ ↦ Json.object.inj hq ▸ h⟩
  | _ => exact iff_of_false (not_accepts_error _) nofun

/-! ## Frames -/

variable {f : Channel.Frame} {root payload : Json}

theorem Conveys.inRange (h : Conveys f root type payload) (hroot : root.InRange) :
    payload.InRange := by
  cases h with
  | enveloped object event typed data =>
    subst object
    exact hroot.member data
  | bare | flat => exact hroot

/-- A frame that conveys nothing is rejected. -/
theorem exists_conveys (ht : Json.parse? f.text = some root)
    (h : Accepts (Message.ofFrame source f)) : ∃ type payload, Conveys f root type payload := by
  by_cases hmessage : f.event = none ∨ f.event = some (utf8 "message")
  · rw [ofFrame_of_none ht hmessage] at h
    cases root with
    | object e =>
      cases htype : (Json.member? e (utf8 "type")).bind Json.text? with
      | none =>
        have hreject : readEnvelope source (.object e) = .error .frameUntyped := by
          simp only [readEnvelope, Json.members?, htype]
        exact absurd (hreject ▸ h) (not_accepts_error _)
      | some type =>
        have typed := text?_eq_some.1 htype
        cases hdata : Json.member? e (utf8 "data") with
        | none => exact ⟨type, _, .flat rfl hmessage typed hdata⟩
        | some payload =>
          exact ⟨type, payload, .enveloped rfl (or_assoc.1 (.inl hmessage)) typed hdata⟩
    | _ => exact absurd h (not_accepts_error _)
  · obtain ⟨hnone, hne⟩ := not_or.1 hmessage
    obtain ⟨type, hevent⟩ := Option.ne_none_iff_exists'.1 hnone
    have hnamed : type ≠ utf8 "message" := fun h ↦ hne (h ▸ hevent)
    by_cases henvelope : ∃ e payload, root = .object e ∧
        Json.member? e (utf8 "type") = some (.text type) ∧
        Json.member? e (utf8 "data") = some payload
    · obtain ⟨e, payload, object, typed, data⟩ := henvelope
      exact ⟨type, payload, .enveloped object (.inr (.inr hevent)) typed data⟩
    · refine ⟨type, root, .bare hevent hnamed fun e object typed ↦ ?_⟩
      by_contra hdata
      obtain ⟨payload, data⟩ := Option.ne_none_iff_exists'.1 hdata
      exact henvelope ⟨e, payload, object, typed, data⟩

/-- The type and the payload that a frame gives are the only ones. -/
theorem Conveys.unique {type' : Bytes} {payload' : Json} (h : Conveys f root type payload)
    (h' : Conveys f root type' payload') : type = type' ∧ payload = payload' := by
  cases h <;> cases h' <;> simp_all

/-! ## Times -/

theorem Field.Fits.congr {field : Field} {kind : Kind} (h : field.find? p = field.find? q)
    (hf : field.Fits kind p) : field.Fits kind q := by
  rw [fits_iff] at hf ⊢
  rwa [← h]

/-- Payloads that differ in their times only are equally readable. -/
theorem Readable.congr
    (h : ∀ name, name ≠ utf8 "timestamp" → Json.member? p name = Json.member? q name)
    (hr : Readable p type) : Readable q type := by
  have hfind (field : Field) (hf : utf8 "timestamp" ∉ field.spellings) :
      field.find? p = field.find? q :=
    Field.find?_congr fun name hn ↦ h name (ne_of_mem_of_not_mem hn hf)
  cases hr with
  | progress phase named fits =>
    have huntimed : ∀ x ∈ snapshotKinds, utf8 "timestamp" ∉ x.1.spellings := by decide
    refine .progress phase ?_ fun x hx ↦ (fits x hx).congr (hfind x.1 (huntimed x hx))
    rw [← find?_eq_some, ← hfind (.one "phase") (by decide)]
    exact find?_eq_some.2 named
  | shaped shape named source fits =>
    have huntimed : ∀ x ∈ shape.kinds, utf8 "timestamp" ∉ x.1.spellings := by
      cases shape <;> decide
    exact .shaped shape named (source.congr (hfind sourceField (by decide)))
      fun x hx ↦ (fits x hx).congr (hfind x.1 (huntimed x hx))

/-- A frame is accepted if and only if its text is JSON, it gives a type and a payload, and the payload
is an object that makes a message of this type. Whatever stands there as the time is no obstacle. -/
theorem frames_accepted_iff (source : Bytes) (f : Channel.Frame) :
    ((∃ m, ofFrame source f = .ok m) ↔
      ∃ root type p, Json.parse? f.text = some root ∧ Conveys f root type (.object p) ∧
        Readable p type) ∧
    ∀ type p q, (∀ name, name ≠ utf8 "timestamp" → Json.member? p name = Json.member? q name) →
      (Readable p type ↔ Readable q type) := by
  refine ⟨⟨fun h ↦ ?_, ?_⟩, fun type p q h ↦ ⟨.congr h, .congr fun name hn ↦ (h name hn).symm⟩⟩
  · cases ht : Json.parse? f.text with
    | none =>
      have hreject : ofFrame source f = .error .frameNotJson := by simp only [ofFrame, ht]
      exact absurd (hreject ▸ h) (not_accepts_error _)
    | some root =>
      obtain ⟨type, payload, hc⟩ := exists_conveys ht h
      have hrange : payload.InRange := hc.inRange (Json.inRange_of_parse? ht)
      have haccepts : Accepts (readTyped source type payload) := hc.ofFrame ht source ▸ h
      obtain ⟨p, rfl, hr⟩ := (accepts_readTyped_iff hrange source type).1 haccepts
      exact ⟨root, type, p, rfl, hc, hr⟩
  · rintro ⟨root, type, p, ht, hc, hr⟩
    have hrange : (Json.object p).InRange := hc.inRange (Json.inRange_of_parse? ht)
    rw [hc.ofFrame ht source]
    exact (accepts_readTyped hrange source type).2 hr

end Message

end ProgressFeed
