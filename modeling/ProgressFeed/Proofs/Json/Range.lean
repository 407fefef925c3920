import ProgressFeed.Json.Parser
import Mathlib.Tactic.Positivity

/-!
# The values that a text can write

An integer that is read as such fits 64 bits, and a double that is read is finite. So it is below zero
exactly when it bears a minus sign and is no zero.
-/

namespace ProgressFeed

namespace Binary64

/-- Neither infinite nor no number at all. -/
def IsFinite (x : Binary64) : Prop := x.magnitude < infinite

variable {negative : Bool} {word : Nat} {x : Binary64}

theorem toNat_ofParts (h : word < 2 ^ 63) :
    (ofParts negative word).bits.toNat = if negative then 2 ^ 63 + word else word := by
  have hfits : (if negative then 2 ^ 63 + word else word) < 2 ^ 64 := by
    split <;> omega
  simp only [ofParts, Nat.one_shiftLeft, Nat.toUInt64, UInt64.toNat_ofNat']
  exact Nat.mod_eq_of_lt hfits

theorem magnitude_ofParts (h : word < 2 ^ 63) : (ofParts negative word).magnitude = word := by
  rw [magnitude, toNat_ofParts h, Nat.one_shiftLeft]
  cases negative with
  | false => exact Nat.mod_eq_of_lt h
  | true => rw [if_pos rfl, Nat.add_mod_left, Nat.mod_eq_of_lt h]

theorem isNegative_ofParts (h : word < 2 ^ 63) :
    (ofParts negative word).isNegative = negative := by
  rw [isNegative, toNat_ofParts h, Nat.one_shiftLeft]
  cases negative with
  | false => simpa using h
  | true => simp

theorem infinite_lt : infinite < 2 ^ 63 := by decide

theorem isFinite_ofParts (h : word < infinite) : (ofParts negative word).IsFinite := by
  unfold IsFinite
  rwa [magnitude_ofParts (h.trans infinite_lt)]

theorem isFinite_of_ofDecimal? {m : Nat} {e : Int} (h : ofDecimal? negative m e = some x) :
    x.IsFinite := by
  have hzero : (ofParts negative 0).IsFinite := isFinite_ofParts (by decide)
  simp only [ofDecimal?] at h
  split at h
  · cases h
    exact hzero
  · split at h
    · cases h
    · split at h
      · cases h
        exact hzero
      · generalize (if e < 0 then nearestWord m (Nat.pow 10 e.natAbs)
          else nearestWord (m * Nat.pow 10 e.natAbs) 1) = word at h
        split at h
        · cases h
          exact isFinite_ofParts ‹_›
        · cases h

/-! ## Below zero -/

/-- The rank that a sign and a magnitude give. -/
theorem rank_neg_iff : x.rank < 0 ↔ x.isNegative = true ∧ x.magnitude ≠ 0 := by
  unfold rank
  split
  · simp [*, Nat.pos_iff_ne_zero]
  · simp [*]

theorem rank_zero : zero.rank = 0 := by decide

theorem lt_zero_iff (h : x.magnitude ≤ infinite) :
    x.lt zero = true ↔ x.isNegative = true ∧ x.magnitude ≠ 0 := by
  have hnumber : x.isNaN = false := by simpa [isNaN] using h
  have hzero : zero.isNaN = false := by decide
  rw [lt, hnumber, hzero, rank_zero, ← rank_neg_iff]
  simp

/-- The nearest number to a positive integer is no zero. -/
theorem nearestWord_pos {n : Nat} : 0 < nearestWord n 1 := by
  have hbinade : -1 ≤ binade n 1 := by
    have hlog : (0 : Int) ≤ n.log2 - (1 : Nat).log2 := by
      have hone : (1 : Nat).log2 = 0 := by decide
      omega
    simp only [binade]
    split <;> omega
  have hunit : 0 < (max (binade n 1 - 52) (-1074) + 1074).toNat := by omega
  have hword : 0 < (max (binade n 1 - 52) (-1074) + 1074).toNat <<< 52 := by
    rw [Nat.shiftLeft_eq]
    positivity
  exact Nat.add_pos_left hword _

theorem lt_zero_ofInt (i : Int) : (ofInt i).lt zero = decide (i < 0) := by
  have hword : (if i == 0 then 0 else min infinite (nearestWord i.natAbs 1)) ≤ infinite := by
    split
    · exact Nat.zero_le _
    · exact Nat.min_le_left _ _
  have hne (hi : i < 0) : (if i == 0 then 0 else min infinite (nearestWord i.natAbs 1)) ≠ 0 := by
    have hzero : (i == 0) = false := by simpa using hi.ne
    have hpos : 0 < min infinite (nearestWord i.natAbs 1) :=
      lt_min (by decide) nearestWord_pos
    rw [hzero]
    exact hpos.ne'
  unfold ofInt
  generalize (if i == 0 then 0 else min infinite (nearestWord i.natAbs 1)) = word at hword hne
  have hbound : word < 2 ^ 63 := hword.trans_lt infinite_lt
  rw [Bool.eq_iff_iff, lt_zero_iff (by rwa [magnitude_ofParts hbound]), isNegative_ofParts hbound,
    magnitude_ofParts hbound]
  exact ⟨fun h ↦ h.1, fun h ↦ ⟨h, hne (of_decide_eq_true h)⟩⟩

end Binary64

namespace Json

/-- Every number in the value is one that a text can write. -/
inductive InRange : Json → Prop
  | null : InRange null
  | boolean (b : Bool) : InRange (boolean b)
  | unsigned {n : Nat} (h : n < 2 ^ 64) : InRange (unsigned n)
  | integer {i : Int} (least : -2 ^ 63 ≤ i) (most : i ≤ 0) : InRange (integer i)
  | real {x : Binary64} (h : x.IsFinite) : InRange (real x)
  | text (s : Bytes) : InRange (text s)
  | array {items : List Json} (h : ∀ v ∈ items, InRange v) : InRange (array items)
  | object {members : List (Bytes × Json)} (h : ∀ m ∈ members, InRange m.2) :
    InRange (object members)

variable {v : Json} {s t : Bytes}

theorem inRange_of_real {x : Option Binary64} (h : x.map real = some v)
    (hx : ∀ y, x = some y → y.IsFinite) : v.InRange := by
  obtain ⟨y, hy, rfl⟩ := Option.map_eq_some_iff.1 h
  exact .real (hx y hy)

theorem inRange_of_ofInteger? {negative : Bool} {n : Nat} (h : ofInteger? negative n = some v) :
    v.InRange := by
  unfold ofInteger? at h
  rw [Nat.one_shiftLeft, Nat.one_shiftLeft] at h
  split at h
  · split at h
    · cases h
      exact .integer (by omega) (by omega)
    · exact inRange_of_real h fun _ ↦ Binary64.isFinite_of_ofDecimal?
  · split at h
    · cases h
      exact .unsigned ‹_›
    · exact inRange_of_real h fun _ ↦ Binary64.isFinite_of_ofDecimal?

theorem inRange_of_readNumber? (h : readNumber? s = some (v, t)) : v.InRange := by
  simp only [readNumber?, Option.bind_eq_bind, Option.bind_eq_some_iff, Prod.exists] at h
  obtain ⟨ds, s₁, -, fs, s₂, -, exponent, s₃, -, value, hvalue, hv⟩ := h
  cases hv
  unfold ofLiteral? at hvalue
  split at hvalue
  · exact inRange_of_ofInteger? hvalue
  · exact inRange_of_real hvalue fun _ ↦ Binary64.isFinite_of_ofDecimal?

/-- What the three readers give, with this much depth. -/
def ReadsInRange (fuel : Nat) : Prop :=
  (∀ s v t, readValue? fuel s = some (v, t) → v.InRange) ∧
    (∀ items s v t, (∀ w ∈ items, w.InRange) → readItems? fuel items s = some (v, t) → v.InRange) ∧
    ∀ members s v t, (∀ m ∈ members, m.2.InRange) → readMembers? fuel members s = some (v, t) →
      v.InRange

theorem readsInRange_zero : ReadsInRange 0 :=
  ⟨by simp [readValue?], by simp [readItems?], by simp [readMembers?]⟩

variable {fuel : Nat}

theorem ReadsInRange.value (h : ReadsInRange fuel) (hv : readValue? (fuel + 1) s = some (v, t)) :
    v.InRange := by
  obtain ⟨-, hitems, hmembers⟩ := h
  unfold readValue? at hv
  split at hv
  · obtain ⟨x, -, hx⟩ := Option.map_eq_some_iff.1 hv
    cases hx
    exact .text _
  · split at hv
    · cases hv
      exact .array (by simp)
    · exact hitems [] _ v t (by simp) hv
  · split at hv
    · cases hv
      exact .object (by simp)
    · exact hmembers [] _ v t (by simp) hv
  · cases hv
    exact .null
  · cases hv
    exact .boolean true
  · cases hv
    exact .boolean false
  · exact inRange_of_readNumber? hv

theorem ReadsInRange.items (h : ReadsInRange fuel) {items : List Json}
    (hi : ∀ w ∈ items, w.InRange) (hv : readItems? (fuel + 1) items s = some (v, t)) :
    v.InRange := by
  obtain ⟨hvalue, hitems, -⟩ := h
  unfold readItems? at hv
  split at hv
  · cases hv
  · rename_i w r hw
    have hnew : ∀ x ∈ w :: items, x.InRange :=
      List.forall_mem_cons.2 ⟨hvalue s w r hw, hi⟩
    split at hv
    · cases hv
      exact .array fun x hx ↦ hnew x (List.mem_reverse.1 hx)
    · exact hitems _ _ v t hnew hv
    · cases hv

theorem ReadsInRange.members (h : ReadsInRange fuel) {members : List (Bytes × Json)}
    (hm : ∀ m ∈ members, m.2.InRange) (hv : readMembers? (fuel + 1) members s = some (v, t)) :
    v.InRange := by
  obtain ⟨hvalue, -, hmembers⟩ := h
  unfold readMembers? at hv
  split at hv
  swap
  · cases hv
  split at hv
  · cases hv
  split at hv
  swap
  · cases hv
  split at hv
  · cases hv
  rename_i name _ _ _ _ _ _ w r hw
  have hnew : ∀ m ∈ (name, w) :: members, m.2.InRange :=
    List.forall_mem_cons.2 ⟨hvalue _ w r hw, hm⟩
  split at hv
  · cases hv
    exact .object fun m hx ↦ hnew m (List.mem_reverse.1 hx)
  · exact hmembers _ _ v t hnew hv
  · cases hv

theorem readsInRange (fuel : Nat) : ReadsInRange fuel := by
  induction fuel with
  | zero => exact readsInRange_zero
  | succ fuel ih =>
    refine ⟨fun _ _ _ hv ↦ ih.value hv, fun _ _ _ _ hi hv ↦ ih.items hi hv,
      fun _ _ _ _ hm hv ↦ ih.members hm hv⟩

theorem inRange_of_parse? (h : parse? s = some v) : v.InRange := by
  simp only [parse?] at h
  split at h
  · rename_i w r hw
    split at h
    · cases h
      exact (readsInRange _).1 _ _ _ hw
    · cases h
  · cases h

/-! ## Members -/

variable {members : List (Bytes × Json)} {name : Bytes}

theorem mem_of_member? (h : member? members name = some v) : (name, v) ∈ members := by
  obtain ⟨⟨name', w⟩, hm, rfl⟩ := Option.map_eq_some_iff.1 h
  have hname : name' = name := by simpa using List.find?_some hm
  rw [← hname]
  exact List.mem_reverse.1 (List.mem_of_find?_eq_some hm)

theorem InRange.member (h : (Json.object members).InRange) (hv : member? members name = some v) :
    v.InRange := by
  cases h with
  | object h => exact h _ (mem_of_member? hv)

end Json

end ProgressFeed
