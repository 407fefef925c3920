import ProgressFeed.Endpoint
import ProgressFeed.Proofs.Percent

/-!
# Targets name their source and token

What is variable in a target is written without delimiters. So a target is cut at its slashes and at
its question mark into the parts that its template has, whatever has been put into them, and it is
determined by these parts.
-/

namespace ProgressFeed.Endpoint

open Percent (encode decode Written)

def slash : UInt8 := '/'.toUInt8

def questionMark : UInt8 := '?'.toUInt8

/-- What a server can be asked for. -/
inductive Target
  | webSocket (source token : Bytes)
  | eventStream (source : Bytes)
  | status (source : Bytes)
deriving DecidableEq, Repr

namespace Target

def text : Target → Bytes
  | .webSocket s t => webSocketTarget s t
  | .eventStream s => eventStreamTarget s
  | .status s => statusTarget s

/-- What all targets of a source begin with, between the slashes. -/
def sourceParts (source : Bytes) : List Bytes :=
  [[], utf8 "api", utf8 "sources", encode source, utf8 "sync"]

/-- What stands between the slashes of the template. -/
def parts : Target → List Bytes
  | .webSocket s t => sourceParts s ++ [utf8 "progress", utf8 "ws?token=" ++ encode t]
  | .eventStream s => sourceParts s ++ [utf8 "progress"]
  | .status s => sourceParts s ++ [utf8 "status"]

/-- What stands before and behind the question mark of the template. -/
def halves : Target → List Bytes
  | .webSocket s t => [sourcePath s ++ utf8 "/progress/ws", utf8 "token=" ++ encode t]
  | .eventStream s => [sourcePath s ++ utf8 "/progress"]
  | .status s => [sourcePath s ++ utf8 "/status"]

/-! ## Slashes -/

theorem slash_notMem_encode (s : Bytes) : slash ∉ encode s :=
  Percent.notMem_encode (by decide) (by decide) s

theorem text_eq_parts (x : Target) : x.text = [slash].intercalate x.parts := by
  have hsources : utf8 "/api/sources/" =
      slash :: utf8 "api" ++ slash :: utf8 "sources" ++ [slash] := by decide
  have hsync : utf8 "/sync" = slash :: utf8 "sync" := by decide
  have hprogress : utf8 "/progress" = slash :: utf8 "progress" := by decide
  have hsocket : utf8 "/progress/ws?token=" =
      slash :: utf8 "progress" ++ slash :: utf8 "ws?token=" := by decide
  have hstatus : utf8 "/status" = slash :: utf8 "status" := by decide
  cases x with
  | webSocket s t =>
    simp [text, parts, webSocketTarget, sourcePath, sourceParts, List.intercalate, hsources, hsync,
      hsocket]
  | eventStream s =>
    simp [text, parts, eventStreamTarget, sourcePath, sourceParts, List.intercalate, hsources, hsync,
      hprogress]
  | status s =>
    simp [text, parts, statusTarget, sourcePath, sourceParts, List.intercalate, hsources, hsync,
      hstatus]

theorem slash_notMem_sourceParts (s : Bytes) : ∀ p ∈ sourceParts s, slash ∉ p := by
  have hfixed : slash ∉ utf8 "api" ∧ slash ∉ utf8 "sources" ∧ slash ∉ utf8 "sync" := by decide
  simp [sourceParts, hfixed, slash_notMem_encode s]

theorem slash_notMem_parts (x : Target) : ∀ p ∈ x.parts, slash ∉ p := by
  have hfixed : slash ∉ utf8 "progress" ∧ slash ∉ utf8 "ws?token=" ∧ slash ∉ utf8 "status" := by
    decide
  cases x with
  | webSocket s t =>
    refine List.forall_mem_append.2 ⟨slash_notMem_sourceParts s, ?_⟩
    simp [hfixed, slash_notMem_encode t]
  | eventStream s => exact List.forall_mem_append.2 ⟨slash_notMem_sourceParts s, by simp [hfixed]⟩
  | status s => exact List.forall_mem_append.2 ⟨slash_notMem_sourceParts s, by simp [hfixed]⟩

theorem text_splitOn_slash (x : Target) : x.text.splitOn slash = x.parts := by
  rw [text_eq_parts, List.splitOn_intercalate slash x.slash_notMem_parts]
  cases x <;> exact List.cons_ne_nil _ _

/-! ## The question mark -/

theorem questionMark_notMem_encode (s : Bytes) : questionMark ∉ encode s :=
  Percent.notMem_encode (by decide) (by decide) s

theorem text_eq_halves (x : Target) : x.text = [questionMark].intercalate x.halves := by
  cases x with
  | webSocket s t =>
    have hcut : utf8 "/progress/ws?token=" =
        utf8 "/progress/ws" ++ questionMark :: utf8 "token=" := by decide
    simp [text, webSocketTarget, halves, hcut, List.intercalate]
  | eventStream s => exact (List.append_nil _).symm
  | status s => exact (List.append_nil _).symm

theorem questionMark_notMem_sourcePath (s : Bytes) : questionMark ∉ sourcePath s := by
  have hfixed : questionMark ∉ utf8 "/api/sources/" ∧ questionMark ∉ utf8 "/sync" := by decide
  simp [sourcePath, hfixed, questionMark_notMem_encode s]

theorem questionMark_notMem_halves (x : Target) : ∀ p ∈ x.halves, questionMark ∉ p := by
  have hfixed : questionMark ∉ utf8 "/progress/ws" ∧ questionMark ∉ utf8 "token=" ∧
      questionMark ∉ utf8 "/progress" ∧ questionMark ∉ utf8 "/status" := by decide
  cases x with
  | webSocket s t =>
    simp [halves, hfixed, questionMark_notMem_sourcePath s, questionMark_notMem_encode t]
  | eventStream s => simp [halves, hfixed, questionMark_notMem_sourcePath s]
  | status s => simp [halves, hfixed, questionMark_notMem_sourcePath s]

theorem text_splitOn_questionMark (x : Target) : x.text.splitOn questionMark = x.halves := by
  rw [text_eq_halves, List.splitOn_intercalate questionMark x.questionMark_notMem_halves]
  cases x <;> exact List.cons_ne_nil _ _

/-! ## What the parts say -/

theorem sourceParts_append_inj {s s' : Bytes} {rest rest' : List Bytes}
    (h : sourceParts s ++ rest = sourceParts s' ++ rest') : s = s' ∧ rest = rest' := by
  obtain ⟨hsource, hrest⟩ := List.append_inj h rfl
  simp only [sourceParts, List.cons.injEq, true_and, and_true] at hsource
  exact ⟨Percent.encode_injective hsource, hrest⟩

theorem parts_injective : Function.Injective parts := by
  have hne : utf8 "progress" ≠ utf8 "status" := by decide
  intro x y h
  -- Behind the source, targets of different kinds differ in number or in the last part.
  cases x <;> cases y <;> obtain ⟨rfl, hrest⟩ := sourceParts_append_inj h <;>
    simp_all [Percent.encode_injective.eq_iff]

theorem text_injective : Function.Injective text := by
  intro x y h
  apply parts_injective
  rw [← text_splitOn_slash, ← text_splitOn_slash, h]

end Target

open Target

/-- Percent encoding writes unreserved characters and capital triplets only, each octet on its own,
and is undone by decoding. So the targets of a server say what they ask for: equal targets are of one
kind, and of one source and one token; and whatever source and token are, a target has the slashes
and the question mark of its template, where the template has them, and no others. -/
theorem targets_unambiguous :
    (∀ s w, Written s w ↔ encode s = w) ∧
    (∀ s, decode (encode s) = s) ∧
    Function.Injective encode ∧
    (∀ s t, encode (s ++ t) = encode s ++ encode t) ∧
    Function.Injective2 webSocketTarget ∧
    Function.Injective eventStreamTarget ∧
    Function.Injective statusTarget ∧
    (∀ s t s', webSocketTarget s t ≠ eventStreamTarget s') ∧
    (∀ s t s', webSocketTarget s t ≠ statusTarget s') ∧
    (∀ s s', eventStreamTarget s ≠ statusTarget s') ∧
    (∀ x : Target, x.text.splitOn slash = x.parts ∧ x.text.splitOn questionMark = x.halves) := by
  refine ⟨fun s w ↦ Percent.written_iff, Percent.decode_encode, Percent.encode_injective,
    Percent.encode_append, ?_, ?_, ?_, ?_, ?_, ?_,
    fun x ↦ ⟨x.text_splitOn_slash, x.text_splitOn_questionMark⟩⟩
  · intro s s' t t' h
    exact Target.webSocket.inj (@text_injective (.webSocket s t) (.webSocket s' t') h)
  · intro s s' h
    exact Target.eventStream.inj (@text_injective (.eventStream s) (.eventStream s') h)
  · intro s s' h
    exact Target.status.inj (@text_injective (.status s) (.status s') h)
  · intro s t s' h
    exact Target.noConfusion (@text_injective (.webSocket s t) (.eventStream s') h)
  · intro s t s' h
    exact Target.noConfusion (@text_injective (.webSocket s t) (.status s') h)
  · intro s s' h
    exact Target.noConfusion (@text_injective (.eventStream s) (.status s') h)

/-- A source that looks like the rest of a target stays one part of it. -/
example : statusTarget (utf8 "1/sync/progress/ws?token=") =
    utf8 "/api/sources/1%2Fsync%2Fprogress%2Fws%3Ftoken%3D/sync/status" := by decide

end ProgressFeed.Endpoint
