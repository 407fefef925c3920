import ProgressFeed.Backoff
import Mathlib.Algebra.Order.Ring.Int

/-!
# Waits that fit into 64 bits

The factor of a wait is cut off at thirty doublings, so it fits whatever the attempt is. The product
with the base is not cut off: it fits for every attempt just when the base is below 2^33
milliseconds, and with a greater base the first wait that does not fit is negative.
-/

namespace ProgressFeed.Backoff

variable {b : Backoff} {j k : Nat}

/-- How many times the base the wait before attempt number `k` is. -/
def factor (k : Nat) : Int64 := Int64.ofNat (1 <<< min k 30)

theorem delay_eq (b : Backoff) (k : Nat) : b.delay k = b.base * factor k := rfl

theorem toInt_factor (k : Nat) : (factor k).toInt = 2 ^ min k 30 := by
  have hle : 2 ^ min k 30 ≤ 2 ^ 30 := Nat.pow_le_pow_right (by decide) (Nat.min_le_right k 30)
  rw [factor, Nat.one_shiftLeft, Int64.toInt_ofNat_of_lt (by omega)]
  exact Int.natCast_pow 2 _

/-- The product that the wait is does not fit into 64 bits. -/
def Overflows (b : Backoff) (k : Nat) : Prop :=
  b.base.toBitVec.smulOverflow (factor k).toBitVec = true

instance (b : Backoff) (k : Nat) : Decidable (b.Overflows k) := inferInstanceAs (Decidable (_ = _))

theorem not_overflows_iff : ¬ b.Overflows k ↔
    -2 ^ 63 ≤ b.base.toInt * 2 ^ min k 30 ∧ b.base.toInt * 2 ^ min k 30 < 2 ^ 63 := by
  simp only [Overflows, BitVec.smulOverflow, Int64.toInt_toBitVec, toInt_factor, Bool.or_eq_true,
    decide_eq_true_eq]
  omega

theorem toInt_delay_of_not_overflows (h : ¬ b.Overflows k) :
    (b.delay k).toInt = b.base.toInt * 2 ^ min k 30 := by
  rw [delay_eq, ← toInt_factor]
  exact BitVec.toInt_mul_of_not_smulOverflow h

/-- When the longest wait fits into 64 bits, no wait wraps. -/
theorem toInt_delay {b : Backoff} (hlo : -2 ^ 63 ≤ b.base.toInt * 2 ^ 30)
    (hhi : b.base.toInt * 2 ^ 30 < 2 ^ 63) (k : Nat) :
    (b.delay k).toInt = b.base.toInt * 2 ^ min k 30 := by
  have hpos : (0 : Int) < 2 ^ min k 30 := Int.pow_pos (by decide)
  have hle : (2 : Int) ^ min k 30 ≤ 2 ^ 30 := pow_le_pow_right₀ (by decide) (Nat.min_le_right k 30)
  apply toInt_delay_of_not_overflows
  rw [not_overflows_iff]
  rcases Int.le_total 0 b.base.toInt with h0 | h0
  · have hmul := Int.mul_le_mul_of_nonneg_left hle h0
    have hnonneg := Int.mul_nonneg h0 (Int.le_of_lt hpos)
    omega
  · have hmul := Int.mul_le_mul_of_nonpos_left h0 hle
    have hnonpos := Int.mul_nonpos_of_nonpos_of_nonneg h0 (Int.le_of_lt hpos)
    omega

section nonneg

variable (hb : 0 ≤ b.base)
include hb

theorem overflows_iff : b.Overflows k ↔ 2 ^ 63 ≤ b.base.toInt * 2 ^ min k 30 := by
  have h0 : 0 ≤ b.base.toInt := Int64.le_iff_toInt_le.1 hb
  have hnonneg : 0 ≤ b.base.toInt * 2 ^ min k 30 := Int.mul_nonneg h0 (Int.pow_nonneg (by decide))
  rw [← not_iff_not, not_overflows_iff]
  omega

theorem product_mono (h : j ≤ k) :
    b.base.toInt * 2 ^ min j 30 ≤ b.base.toInt * 2 ^ min k 30 := by
  have hmin : min j 30 ≤ min k 30 := by omega
  exact Int.mul_le_mul_of_nonneg_left (pow_le_pow_right₀ (by decide) hmin)
    (Int64.le_iff_toInt_le.1 hb)

theorem not_overflows_of_le (h : j ≤ k) (hk : ¬ b.Overflows k) : ¬ b.Overflows j := by
  rw [overflows_iff hb] at hk ⊢
  have hmono := product_mono hb h
  omega

theorem delay_mono (h : j ≤ k) (hk : ¬ b.Overflows k) : b.delay j ≤ b.delay k := by
  rw [Int64.le_iff_toInt_le, toInt_delay_of_not_overflows hk,
    toInt_delay_of_not_overflows (not_overflows_of_le hb h hk)]
  exact product_mono hb h

theorem base_le_delay (hk : ¬ b.Overflows k) : b.base ≤ b.delay k := by
  have hzero : b.delay 0 = b.base := Int64.mul_one b.base
  rw [← hzero]
  exact delay_mono hb (Nat.zero_le k) hk

theorem not_overflows_zero : ¬ b.Overflows 0 := by
  have hlt := b.base.toInt_lt
  rw [overflows_iff hb, Nat.zero_min, Int.pow_zero, Int.mul_one]
  omega

/-- No attempt is worse than the one with thirty doublings. -/
theorem not_overflows_of_thirty (h : ¬ b.Overflows 30) (k : Nat) : ¬ b.Overflows k := by
  rcases Nat.le_total k 30 with hk | hk
  · exact not_overflows_of_le hb hk h
  · rw [overflows_iff hb] at h ⊢
    rwa [Nat.min_eq_right hk]

theorem not_overflows_thirty_iff : ¬ b.Overflows 30 ↔ b.base.toInt < 2 ^ 33 := by
  rw [overflows_iff hb, Nat.min_self]
  omega

/-- The first wait that does not fit has just one bit too many, and that is the sign. -/
theorem delay_neg (hk : b.Overflows k) (hfirst : ∀ j < k, ¬ b.Overflows j) : b.delay k < 0 := by
  cases k with
  | zero => exact absurd hk (not_overflows_zero hb)
  | succ m =>
    have hle : m + 1 ≤ 30 := by
      by_contra hlt
      exact not_overflows_of_thirty hb (hfirst 30 (by omega)) _ hk
    have hm := hfirst m (Nat.lt_succ_self m)
    have hdouble : b.base.toInt * 2 ^ (m + 1) = b.base.toInt * 2 ^ m * 2 := by
      rw [Int.pow_succ, Int.mul_assoc]
    rw [overflows_iff hb, Nat.min_eq_left (by omega)] at hk hm
    rw [Int64.lt_iff_toInt_lt, delay_eq, Int64.toInt_mul, toInt_factor, Nat.min_eq_left hle,
      Int.bmod_def, Int.emod_eq_of_lt (by omega) (by omega), if_neg (by omega), Int64.toInt_zero]
    omega

end nonneg

/-- What is asked of a configuration: of any two attempts, numbered in 32 bits, the earlier one does
not overflow, waits for the base at least, and no longer than the later one. -/
def IsSound (b : Backoff) : Prop :=
  ∀ j k : UInt32, j ≤ k → ¬ b.Overflows j.toNat ∧ b.base ≤ b.delay j.toNat ∧
    b.delay j.toNat ≤ b.delay k.toNat

/-- With a base that is not negative: all is as asked just when the base is below 2^33 milliseconds.
In any case the wait of an attempt that does not overflow is the base, doubled as often as the
attempt says but thirty times at most, and up to that attempt all is as asked; and the first attempt
that overflows, if there is one, has a negative wait. -/
theorem isSound_iff (b : Backoff) (hb : 0 ≤ b.base) :
    (b.IsSound ↔ b.base.toInt < 2 ^ 33) ∧
    (∀ k, ¬ b.Overflows k → (b.delay k).toInt = b.base.toInt * 2 ^ min k 30 ∧
      ∀ j ≤ k, ¬ b.Overflows j ∧ b.base ≤ b.delay j ∧ b.delay j ≤ b.delay k) ∧
    (∀ k, b.Overflows k → (∀ j < k, ¬ b.Overflows j) → b.delay k < 0) := by
  have hupTo : ∀ {j k : Nat}, j ≤ k → ¬ b.Overflows k →
      ¬ b.Overflows j ∧ b.base ≤ b.delay j ∧ b.delay j ≤ b.delay k := by
    intro j k hjk hk
    have hj := not_overflows_of_le hb hjk hk
    exact ⟨hj, base_le_delay hb hj, delay_mono hb hjk hk⟩
  refine ⟨⟨fun h ↦ ?_, fun h ↦ ?_⟩, fun k hk ↦ ?_, fun k hk hfirst ↦ delay_neg hb hk hfirst⟩
  · exact (not_overflows_thirty_iff hb).1 (h 30 30 (UInt32.le_refl 30)).1
  · have hall := not_overflows_of_thirty hb ((not_overflows_thirty_iff hb).2 h)
    intro j k hjk
    exact hupTo (UInt32.le_iff_toNat_le.1 hjk) (hall k.toNat)
  · exact ⟨toInt_delay_of_not_overflows hk, fun j hjk ↦ hupTo hjk hk⟩

/-- The greatest base for which all is as asked, and the least for which it is not. -/
theorem isSound_iff_boundary :
    0 ≤ ({ base := 2 ^ 33 - 1 } : Backoff).base ∧ ({ base := 2 ^ 33 - 1 } : Backoff).IsSound ∧
    0 ≤ ({ base := 2 ^ 33 } : Backoff).base ∧ ¬ ({ base := 2 ^ 33 } : Backoff).IsSound :=
  ⟨by decide, (isSound_iff { base := 2 ^ 33 - 1 } (by decide)).1.2 (by decide),
    by decide, fun h ↦ absurd ((isSound_iff { base := 2 ^ 33 } (by decide)).1.1 h) (by decide)⟩

/-- The first wait is the greatest there is, and the second one is over before it begins. -/
theorem greatest_base_unsound :
    let b : Backoff := { base := Int64.maxValue }
    0 ≤ b.base ∧ b.delay 0 = Int64.maxValue ∧ b.delay 1 = -2 ∧ b.Overflows 1 ∧ ¬ b.IsSound := by
  refine ⟨by decide, by decide, by decide, by decide, fun h ↦ ?_⟩
  exact absurd (h 1 1 (UInt32.le_refl 1)).1 (by decide)

end ProgressFeed.Backoff
