import ProgressFeed.Percent
import Mathlib.Data.FinEnum
import Mathlib.Logic.Function.Basic

/-!
# Percent encoding keeps texts apart

`Written` says what is written for which octets. Whatever is written for a text is read back by
`decode`, so no two texts are written alike; and it holds no delimiter, since only unreserved octets
and percent signs are ever written.
-/

namespace ProgressFeed.Percent

/-- The characters that RFC 3986 leaves unreserved. -/
def unreserved : Bytes :=
  utf8 "ABCDEFGHIJKLMNOPQRSTUVWXYZabcdefghijklmnopqrstuvwxyz0123456789-._~"

/-- The hexadecimal digits, in the order of their values. -/
def capitals : Bytes := utf8 "0123456789ABCDEF"

/-- An unreserved octet is written as it is, and any other as a percent sign with the two digits of
its value. -/
inductive Written : Bytes → Bytes → Prop
  | nil : Written [] []
  | plain {b : UInt8} {s w : Bytes} (hb : b ∈ unreserved) (h : Written s w) :
    Written (b :: s) (b :: w)
  | triplet {b x y : UInt8} {i j : Nat} {s w : Bytes} (hb : b ∉ unreserved)
      (hx : capitals[i]? = some x) (hy : capitals[j]? = some y) (hv : b.toNat = 16 * i + j)
      (h : Written s w) :
    Written (b :: s) (37 :: x :: y :: w)

variable {b c x y : UInt8} {i j : Nat} {s w : Bytes}

/-! ## Octets and digits -/

theorem isUnreserved_iff : isUnreserved b = true ↔ b ∈ unreserved := by
  have hall : unreserved.all isUnreserved = true := by decide +kernel
  refine ⟨?_, List.all_eq_true.1 hall b⟩
  revert b
  decide +kernel

theorem percent_notMem_unreserved : 37 ∉ unreserved := mt isUnreserved_iff.2 (by decide)

theorem capitals_subset : capitals ⊆ unreserved := by
  have hall : capitals.all isUnreserved = true := by decide
  exact fun c hc ↦ isUnreserved_iff.1 (List.all_eq_true.1 hall c hc)

theorem capitals_upperHex (h : b.toNat < 16) : capitals[b.toNat]? = some (Bytes.upperHex b) := by
  have hall : capitals = (List.range 16).map fun i ↦ Bytes.upperHex (UInt8.ofNat i) := by decide
  rw [hall, List.getElem?_map, List.getElem?_range h, Option.map_some, UInt8.ofNat_toNat]

theorem lt_of_capital (h : capitals[i]? = some x) : i < 16 := (List.getElem?_eq_some_iff.1 h).1

theorem hexValue?_capital (h : capitals[i]? = some x) : hexValue? x = some (UInt8.ofNat i) := by
  have hall : capitals.map hexValue? = (List.range 16).map fun i ↦ some (UInt8.ofNat i) := by decide
  have hread := congrArg (·[i]?) hall
  simp only [List.getElem?_map, h, List.getElem?_range (lt_of_capital h), Option.map_some] at hread
  exact Option.some_inj.1 hread

theorem high_or_low (hi : i < 16) (hj : j < 16) (hv : b.toNat = 16 * i + j) :
    UInt8.ofNat i <<< 4 ||| UInt8.ofNat j = b := by
  apply UInt8.toNat_inj.1
  have hfit : i <<< 4 < 2 ^ 8 := by
    rw [Nat.shiftLeft_eq]
    omega
  have hhigh : (UInt8.ofNat i <<< 4).toNat = i <<< 4 := by
    rw [UInt8.toNat_shiftLeft, UInt8.toNat_ofNat_of_lt' (Nat.lt_trans hi (by decide))]
    exact Nat.mod_eq_of_lt hfit
  rw [UInt8.toNat_or, hhigh, UInt8.toNat_ofNat_of_lt' (Nat.lt_trans hj (by decide)),
    ← Nat.shiftLeft_add_eq_or_of_lt hj, hv, Nat.shiftLeft_eq, Nat.mul_comm]

/-! ## Writing -/

theorem encodeOctet_of_mem (hb : b ∈ unreserved) : encodeOctet b = [b] :=
  if_pos (isUnreserved_iff.2 hb)

theorem encodeOctet_of_notMem (hb : b ∉ unreserved) (hx : capitals[i]? = some x)
    (hy : capitals[j]? = some y) (hv : b.toNat = 16 * i + j) : encodeOctet b = [37, x, y] := by
  have hi := lt_of_capital hx
  have hj := lt_of_capital hy
  have hhigh : (b >>> 4).toNat = i := by
    rw [UInt8.toNat_shiftRight]
    exact (Nat.shiftRight_eq_div_pow _ 4).trans (by omega)
  have hlow : (b &&& 15).toNat = j := by
    rw [UInt8.toNat_and]
    exact (Nat.and_two_pow_sub_one_eq_mod _ 4).trans (by omega)
  have hx' := capitals_upperHex (b := b >>> 4) (by omega)
  have hy' := capitals_upperHex (b := b &&& 15) (by omega)
  rw [hhigh, hx, Option.some_inj] at hx'
  rw [hlow, hy, Option.some_inj] at hy'
  rw [encodeOctet, if_neg (mt isUnreserved_iff.1 hb), hx', hy']

theorem encode_cons (b : UInt8) (s : Bytes) : encode (b :: s) = encodeOctet b ++ encode s :=
  List.flatMap_cons

theorem encode_append (s t : Bytes) : encode (s ++ t) = encode s ++ encode t :=
  List.flatMap_append

theorem Written.encode_eq (h : Written s w) : encode s = w := by
  induction h with
  | nil => rfl
  | plain hb _ ih => rw [encode_cons, encodeOctet_of_mem hb, ih, List.singleton_append]
  | triplet hb hx hy hv _ ih => rw [encode_cons, encodeOctet_of_notMem hb hx hy hv, ih]; rfl

theorem written_encode (s : Bytes) : Written s (encode s) := by
  induction s with
  | nil => exact .nil
  | cons b s ih =>
    rw [encode_cons]
    by_cases hb : b ∈ unreserved
    · rw [encodeOctet_of_mem hb]
      exact .plain hb ih
    · have hlt := b.toNat_lt
      have hv : b.toNat = 16 * (b.toNat / 16) + b.toNat % 16 := by omega
      obtain ⟨x, hx⟩ : ∃ x, capitals[b.toNat / 16]? = some x :=
        ⟨_, List.getElem?_eq_getElem (show b.toNat / 16 < 16 by omega)⟩
      obtain ⟨y, hy⟩ : ∃ y, capitals[b.toNat % 16]? = some y :=
        ⟨_, List.getElem?_eq_getElem (show b.toNat % 16 < 16 by omega)⟩
      rw [encodeOctet_of_notMem hb hx hy hv]
      exact .triplet hb hx hy hv ih

/-- There is one way to write a text. -/
theorem written_iff : Written s w ↔ encode s = w :=
  ⟨Written.encode_eq, fun h ↦ h ▸ written_encode s⟩

/-- What is written holds unreserved octets and percent signs only. -/
theorem Written.mem (h : Written s w) (hc : c ∈ w) : c = 37 ∨ c ∈ unreserved := by
  induction h with
  | nil => simp at hc
  | plain hb _ ih =>
    rcases List.mem_cons.1 hc with rfl | hc
    · exact .inr hb
    · exact ih hc
  | triplet _ hx hy _ _ ih =>
    simp only [List.mem_cons] at hc
    rcases hc with rfl | rfl | rfl | hc
    · exact .inl rfl
    · exact .inr (capitals_subset (List.mem_of_getElem? hx))
    · exact .inr (capitals_subset (List.mem_of_getElem? hy))
    · exact ih hc

theorem notMem_encode (hc : c ≠ 37) (hu : isUnreserved c = false) (s : Bytes) : c ∉ encode s := by
  intro h
  rcases (written_encode s).mem h with hp | hm
  · exact hc hp
  · exact Bool.false_ne_true (hu.symm.trans (isUnreserved_iff.2 hm))

/-! ## Reading back -/

theorem decode_cons (hb : b ≠ 37) (s : Bytes) : decode (b :: s) = b :: decode s :=
  decode.eq_2 b s fun _ _ _ h _ ↦ hb h

theorem Written.decode (h : Written s w) : decode w = s := by
  induction h with
  | nil => rfl
  | plain hb _ ih =>
    rw [decode_cons (fun h ↦ percent_notMem_unreserved (h ▸ hb)), ih]
  | triplet _ hx hy hv _ ih =>
    rw [decode.eq_1, hexValue?_capital hx, hexValue?_capital hy]
    simp only [high_or_low (lt_of_capital hx) (lt_of_capital hy) hv, ih]

theorem decode_encode (s : Bytes) : Percent.decode (encode s) = s := (written_encode s).decode

theorem encode_injective : Function.Injective encode :=
  Function.LeftInverse.injective decode_encode

end ProgressFeed.Percent
