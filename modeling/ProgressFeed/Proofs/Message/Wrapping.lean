import ProgressFeed.Message.Decode

/-!
# The wrappings of a payload

Progress comes as the data of an envelope, bare under its event name, with its type among its own
members, or as the body of a status answer. Whatever the wrapping, the same fields are read.
-/

namespace ProgressFeed

namespace Json

theorem eq_of_isBlank_of_not_isGap {b : UInt8} (hb : Bytes.isBlank b = true)
    (hg : isGap b = false) : b = 11 ∨ b = 12 := by
  simp only [Bytes.isBlank, isGap, Bool.or_eq_true, Bool.or_eq_false_iff, Bool.and_eq_true,
    beq_iff_eq, beq_eq_false_iff_ne, decide_eq_true_eq, UInt8.le_iff_toNat_le, ne_eq,
    ← UInt8.toNat_inj, UInt8.reduceToNat] at hb hg ⊢
  omega

theorem readValue?_of_blank {s : Bytes} (h : s.all Bytes.isBlank = true) (n : Nat) :
    readValue? (n + 1) (skipGap s) = none := by
  cases hs : skipGap s with
  | nil => rfl
  | cons b t =>
    have hmem : b ∈ skipGap s := hs ▸ List.mem_cons_self ..
    have hb : Bytes.isBlank b = true :=
      List.all_eq_true.1 h b ((List.dropWhile_sublist isGap).subset hmem)
    have hg : isGap b = false := by
      have hhead := List.head?_dropWhile_not isGap s
      rw [show s.dropWhile isGap = b :: t from hs] at hhead
      simpa using hhead
    -- The two blanks that are no gap begin no value.
    rcases eq_of_isBlank_of_not_isGap hb hg with rfl | rfl <;> rfl

/-- A text of blanks alone writes no value. -/
theorem parse?_of_blank {s : Bytes} (h : s.all Bytes.isBlank = true) : parse? s = none := by
  unfold parse?
  split
  · simp [Bytes.isBlank] at h
  · simp only [readValue?_of_blank h]

end Json

namespace Message

variable {p q : Payload}

/-! ## What is read of a payload -/

theorem Field.find?_of_present {f : Field}
    (h : ∀ name ∈ f.spellings, present? p name = present? q name) : f.find? p = f.find? q := by
  unfold Field.find?
  generalize f.spellings = names at h
  induction names with
  | nil => rfl
  | cons name names ih =>
    have hname := h name (List.mem_cons_self ..)
    simp only [List.findSome?_cons, hname, ih fun n hn ↦ h n (List.mem_cons_of_mem _ hn)]

theorem Field.find?_congr {f : Field}
    (h : ∀ name ∈ f.spellings, Json.member? p name = Json.member? q name) :
    f.find? p = f.find? q :=
  find?_of_present fun name hn ↦ by simp only [present?, h name hn]

/-- The fields that make up a snapshot. -/
def snapshotFields : List Field :=
  [.one "phase", sourceField, .two "phase_description" "phaseDescription",
    .two "elapsed_time_secs" "elapsedSeconds", .two "directories_found" "directoriesFound",
    .two "directories_processed" "directoriesProcessed", .two "files_found" "filesFound",
    .two "files_processed" "filesProcessed", .two "bytes_processed" "bytesProcessed",
    .one "errors", .one "warnings",
    .two "processing_rate_files_per_sec" "processingRateFilesPerSec",
    .two "files_progress_percent" "filesProgressPercent",
    .two "estimated_time_remaining_secs" "estimatedSecondsRemaining",
    .two "current_directory" "currentDirectory", .two "current_file" "currentFile"]

theorem readSnapshot_congr (h : ∀ f ∈ snapshotFields, f.find? p = f.find? q) (source : Bytes) :
    readSnapshot source (.object p) = readSnapshot source (.object q) := by
  simp only [snapshotFields, List.forall_mem_cons] at h
  obtain ⟨hphase, hsource, hdescription, helapsed, hfound, hprocessed, hfiles, hdone, hbytes,
    herrors, hwarnings, hrate, hpercent, hremaining, hdirectory, hfile, -⟩ := h
  simp only [readSnapshot, Json.members?, readPhase, Field.textOr, Field.text?, Field.count,
    Field.count?, Field.amount, hphase, hsource, hdescription, helapsed, hfound, hprocessed, hfiles,
    hdone, hbytes, herrors, hwarnings, hrate, hpercent, hremaining, hdirectory, hfile]

/-- No snapshot is made of the type. -/
theorem readSnapshot_congr_type
    (h : ∀ name, name ≠ utf8 "type" → Json.member? p name = Json.member? q name) (source : Bytes) :
    readSnapshot source (.object p) = readSnapshot source (.object q) := by
  have hother : ∀ f ∈ snapshotFields, ∀ name ∈ f.spellings, name ≠ utf8 "type" := by decide
  exact readSnapshot_congr (fun f hf ↦ Field.find?_congr fun name hn ↦ h name (hother f hf name hn))
    source

/-! ## Wrappings -/

/-- The frame carries an object with these members as progress. -/
inductive Carries (p : Payload) (f : Channel.Frame) : Prop
  /-- They are the data of an envelope. -/
  | enveloped (e : Payload) (text : Json.parse? f.text = some (.object e))
      (event : f.event = none ∨ f.event = some (utf8 "message") ∨
        f.event = some (utf8 "progress"))
      (type : Json.member? e (utf8 "type") = some (.text (utf8 "progress")))
      (data : Json.member? e (utf8 "data") = some (.object p))
  /-- They are all there is, and look like no envelope. -/
  | bare (text : Json.parse? f.text = some (.object p))
      (event : f.event = some (utf8 "progress"))
      (plain : Json.member? p (utf8 "type") = some (.text (utf8 "progress")) →
        Json.member? p (utf8 "data") = none)
  /-- The type has been put among them. -/
  | typed (e : Payload) (text : Json.parse? f.text = some (.object e)) (event : f.event = none)
      (type : Json.member? e (utf8 "type") = some (.text (utf8 "progress")))
      (others : ∀ name, name ≠ utf8 "type" → Json.member? e name = Json.member? p name)
      (plain : Json.member? p (utf8 "data") = none)

theorem readTyped_progress (source : Bytes) (p : Payload) :
    readTyped source (utf8 "progress") (.object p) =
      .progress <$> readSnapshot source (.object p) := rfl

theorem readEnvelope_of_type {type : Bytes} {e : Payload}
    (h : Json.member? e (utf8 "type") = some (.text type)) (source : Bytes) :
    readEnvelope source (.object e) =
      readTyped source type ((Json.member? e (utf8 "data")).getD (.object e)) := by
  simp [readEnvelope, Json.members?, h, Json.text?]

theorem text?_eq_some {v : Option Json} {s : Bytes} :
    v.bind Json.text? = some s ↔ v = some (.text s) := by
  cases v with
  | none => simp
  | some v => cases v <;> simp [Json.text?]

theorem ofFrame_of_none {f : Channel.Frame} {root : Json} (ht : Json.parse? f.text = some root)
    (he : f.event = none ∨ f.event = some (utf8 "message")) (source : Bytes) :
    ofFrame source f = readEnvelope source root := by
  have hname : eventName? f = none := by
    rcases he with he | he
    · rw [eventName?, he]
      rfl
    · rw [eventName?, he]
      decide
  simp only [ofFrame, ht, hname]

theorem ofFrame_of_event {f : Channel.Frame} {root : Json} (ht : Json.parse? f.text = some root)
    {type : Bytes} (he : f.event = some type) (hne : type ≠ utf8 "message") (source : Bytes) :
    ofFrame source f = readTyped source type ((enveloped? type root).getD root) := by
  have hname : eventName? f = some type := by
    rw [eventName?, he, Option.filter_some, if_pos (bne_iff_ne.2 hne)]
  simp only [ofFrame, ht, hname]

theorem enveloped?_of_type {type : Bytes} {e : Payload}
    (h : Json.member? e (utf8 "type") = some (.text type)) :
    enveloped? type (.object e) = Json.member? e (utf8 "data") := by
  simp [enveloped?, Json.members?, h, Json.text?]

theorem enveloped?_of_ne {type : Bytes} {e : Payload}
    (h : Json.member? e (utf8 "type") ≠ some (.text type)) :
    enveloped? type (.object e) = none := by
  simp [enveloped?, Json.members?, text?_eq_some, h]

/-- The frame, with this text, gives a type and a payload. -/
inductive Conveys (f : Channel.Frame) (root : Json) : Bytes → Json → Prop
  /-- It is an envelope, of the type that its event names if it names one. -/
  | enveloped {type : Bytes} {e : Payload} {payload : Json} (object : root = .object e)
    (event : f.event = none ∨ f.event = some (utf8 "message") ∨ f.event = some type)
    (typed : Json.member? e (utf8 "type") = some (.text type))
    (data : Json.member? e (utf8 "data") = some payload) : Conveys f root type payload
  /-- Its event names the type, and it looks like no envelope of this type. -/
  | bare {type : Bytes} (event : f.event = some type) (named : type ≠ utf8 "message")
    (plain : ∀ e, root = .object e → Json.member? e (utf8 "type") = some (.text type) →
      Json.member? e (utf8 "data") = none) : Conveys f root type root
  /-- The type stands among the members of the payload. -/
  | flat {type : Bytes} {e : Payload} (object : root = .object e)
    (event : f.event = none ∨ f.event = some (utf8 "message"))
    (typed : Json.member? e (utf8 "type") = some (.text type))
    (plain : Json.member? e (utf8 "data") = none) : Conveys f root type root

theorem Conveys.ofFrame {f : Channel.Frame} {root payload : Json} {type : Bytes}
    (h : Conveys f root type payload) (ht : Json.parse? f.text = some root)
    (source : Bytes) : Message.ofFrame source f = readTyped source type payload := by
  cases h with
  | enveloped object event typed data =>
    subst object
    by_cases hmessage : f.event = none ∨ f.event = some (utf8 "message")
    · rw [ofFrame_of_none ht hmessage, readEnvelope_of_type typed, data, Option.getD_some]
    · obtain ⟨hnone, hne⟩ := not_or.1 hmessage
      have hevent : f.event = some type := by simpa [hnone, hne] using event
      have hnamed : type ≠ utf8 "message" := fun h ↦ hne (h ▸ hevent)
      rw [ofFrame_of_event ht hevent hnamed, enveloped?_of_type typed, data, Option.getD_some]
  | bare event named plain =>
    have hbare : enveloped? type root = none := by
      cases root with
      | object e =>
        by_cases htype : Json.member? e (utf8 "type") = some (.text type)
        · rw [enveloped?_of_type htype, plain e rfl htype]
        · exact enveloped?_of_ne htype
      | _ => rfl
    rw [ofFrame_of_event ht event named, hbare, Option.getD_none]
  | flat object event typed plain =>
    subst object
    rw [ofFrame_of_none ht event, readEnvelope_of_type typed, plain, Option.getD_none]

theorem ofFrame_of_carries {f : Channel.Frame} (h : Carries p f) (source : Bytes) :
    ofFrame source f = .progress <$> readSnapshot source (.object p) := by
  rw [← readTyped_progress]
  cases h with
  | enveloped e htext hevent htype hdata =>
    exact (Conveys.enveloped rfl hevent htype hdata).ofFrame htext source
  | bare htext hevent hplain =>
    refine (Conveys.bare hevent (by decide) ?_).ofFrame htext source
    rintro _ ⟨⟩
    exact hplain
  | typed e htext hevent htype hothers hplain =>
    have hdata : Json.member? e (utf8 "data") = none := (hothers _ (by decide)).trans hplain
    rw [(Conveys.flat rfl (.inl hevent) htype hdata).ofFrame htext source, readTyped_progress,
      readTyped_progress, readSnapshot_congr_type hothers]

theorem ofStatusBody_of_object {body : Bytes} (h : Json.parse? body = some (.object p))
    (source : Bytes) : ofStatusBody source body = some <$> readSnapshot source (.object p) := by
  have hb : ¬ body.all Bytes.isBlank = true := by
    intro hb
    simp [Json.parse?_of_blank hb] at h
  simp only [ofStatusBody, if_neg hb, h]

end Message

end ProgressFeed
