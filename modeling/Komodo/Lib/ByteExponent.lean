/-
# Mantissas of 23 bits with an exponent of bytes

A number of `S` bytes, the three highest of which are the mantissa `M` (`number S M`).  The mantissa
is below `2^23`, because its highest bit is taken, so a number whose highest byte is 128 or more
has one byte more, and a mantissa of two bytes.

The normal form of a number (`Normal`) is unique, and keeps the order (`Normal.mono`).  It stands
for the greatest number with as many bytes of mantissa that is not above the number itself
(`Normal.isGreatest`).
-/

import Mathlib.Tactic

namespace Komodo
namespace ByteExponent

open Nat

/-- The number of `S` bytes with the mantissa `M`, rounded down. -/
def number (S M : ℕ) : ℕ := M * 256 ^ S / 256 ^ 3

/-- The number of bytes and the mantissa of `v`. -/
structure Normal (v S M : ℕ) : Prop where
  mantissa : M = v * 256 ^ 3 / 256 ^ S
  lt : M < 2 ^ 23
  ge : v ≠ 0 → 2 ^ 15 ≤ M
  zero : v = 0 → S = 0

variable {v w S S' M M' : ℕ}

theorem number_of_le (hS : S ≤ 3) : number S M = M / 256 ^ (3 - S) := by
  have hsplit : 256 ^ 3 = 256 ^ (3 - S) * 256 ^ S := by rw [← pow_add, Nat.sub_add_cancel hS]
  rw [number, hsplit, Nat.mul_div_mul_right _ _ (Nat.pow_pos (by decide))]

theorem number_of_ge (hS : 3 ≤ S) : number S M = M * 256 ^ (S - 3) := by
  obtain ⟨d, rfl⟩ := Nat.exists_eq_add_of_le hS
  rw [number, Nat.add_sub_cancel_left, pow_add, Nat.mul_left_comm,
    Nat.mul_div_cancel_left _ (by decide)]

theorem Normal.le (h : Normal v S M) : M * 256 ^ S ≤ v * 256 ^ 3 := by
  rw [h.mantissa]
  exact div_mul_le_self _ _

theorem Normal.lt_succ (h : Normal v S M) : v * 256 ^ 3 < (M + 1) * 256 ^ S := by
  have hpos : 0 < 256 ^ S := Nat.pow_pos (by decide)
  have hlt := lt_mul_div_succ (v * 256 ^ 3) hpos
  rwa [← h.mantissa, mul_comm (256 ^ S)] at hlt

theorem Normal.mantissa_eq_zero (h : Normal 0 S M) : M = 0 := by
  rw [h.mantissa, Nat.zero_mul, Nat.zero_div]

theorem Normal.size_le (h : Normal v S M) (h' : Normal w S' M') (hle : v ≤ w) : S ≤ S' := by
  rcases Nat.eq_zero_or_pos v with rfl | hv
  · rw [h.zero rfl]
    exact zero_le _
  by_contra hlt
  have hbytes : 256 ^ S' * 256 ≤ 256 ^ S := by
    rw [← pow_succ]
    exact Nat.pow_le_pow_right (by decide) (by omega)
  have hlow : 2 ^ 15 * 256 ^ S ≤ v * 256 ^ 3 :=
    (mul_le_mul_right _ (h.ge hv.ne')).trans h.le
  have hhigh : w * 256 ^ 3 < 2 ^ 23 * 256 ^ S' :=
    h'.lt_succ.trans_le (mul_le_mul_right _ h'.lt)
  omega

theorem Normal.mono (h : Normal v S M) (h' : Normal w S' M') (hle : v ≤ w) :
    S * 2 ^ 24 + M ≤ S' * 2 ^ 24 + M' := by
  have hlt := h.lt
  obtain hS | rfl := lt_or_eq_of_le (h.size_le h' hle)
  · omega
  · have hM : M ≤ M' := by
      rw [h.mantissa, h'.mantissa]
      exact Nat.div_le_div_right (Nat.mul_le_mul_right _ hle)
    omega

theorem Normal.unique (h : Normal v S M) (h' : Normal v S' M') : S = S' ∧ M = M' := by
  obtain rfl : S = S' :=
    le_antisymm (h.size_le h' (le_refl v)) (h'.size_le h (le_refl v))
  exact ⟨rfl, by rw [h.mantissa, h'.mantissa]⟩

theorem Normal.number_le (h : Normal v S M) : number S M ≤ v := by
  unfold number
  exact Nat.div_le_of_le_mul (by rw [Nat.mul_comm (256 ^ 3)]; exact h.le)

theorem normal_number (hM : 2 ^ 15 ≤ M) (hlt : M < 2 ^ 23) (hexact : 256 ^ 3 ∣ M * 256 ^ S) :
    Normal (number S M) S M := by
  have hmul : number S M * 256 ^ 3 = M * 256 ^ S := Nat.div_mul_cancel hexact
  refine ⟨?_, hlt, fun _ => hM, fun hzero => ?_⟩
  · rw [hmul, Nat.mul_div_cancel _ (Nat.pow_pos (by decide))]
  · rw [hzero, zero_mul] at hmul
    have hpos : 0 < M * 256 ^ S := Nat.mul_pos (by omega) (Nat.pow_pos (by decide))
    omega

theorem exists_number_eq (S M : ℕ) : ∃ m e, m ≤ M ∧ number S M = m * 256 ^ e := by
  rcases le_total S 3 with hS | hS
  · exact ⟨M / 256 ^ (3 - S), 0, div_le_self _ _, by
      rw [number_of_le hS, pow_zero, mul_one]⟩
  · exact ⟨M, S - 3, le_refl _, number_of_ge hS⟩

/-- The three highest of the `n` bytes of a number, shifted by one where the highest bit is set. -/
theorem normal_of_bytes {n : ℕ} (hlt : v < 256 ^ n) (hge : v ≠ 0 → 0 < n ∧ 256 ^ (n - 1) ≤ v)
    (hzero : v = 0 → n = 0) {raw : ℕ} (hraw : raw = v * 256 ^ 3 / 256 ^ n) :
    raw < 2 ^ 24 ∧ (2 ^ 23 ≤ raw → Normal v (n + 1) (raw / 256)) ∧
      (raw < 2 ^ 23 → Normal v n raw) := by
  have hpos : 0 < 256 ^ n := Nat.pow_pos (by decide)
  have hhigh : raw < 2 ^ 24 := by
    rw [hraw, div_lt_iff_lt_mul hpos, mul_comm]
    exact mul_lt_mul_of_pos_left hlt (by decide)
  have hlow : v ≠ 0 → 2 ^ 16 ≤ raw := by
    intro hv
    obtain ⟨hn, hle⟩ := hge hv
    rw [hraw, le_div_iff_mul_le hpos]
    calc 2 ^ 16 * 256 ^ n = 256 ^ (n - 1) * 256 ^ 3 := by
          rw [show 2 ^ 16 = 256 ^ 2 from rfl, ← pow_add, ← pow_add]
          congr 1
          omega
      _ ≤ v * 256 ^ 3 := mul_le_mul_right _ hle
  have hnone : v = 0 → raw = 0 := by
    rintro rfl
    rw [hraw, Nat.zero_mul, Nat.zero_div]
  refine ⟨hhigh, fun hbit => ⟨?_, by omega, fun _ => by omega, fun hv => ?_⟩,
    fun hbit => ⟨hraw, hbit, fun hv => ?_, hzero⟩⟩
  · rw [hraw, Nat.div_div_eq_div_mul, ← pow_succ]
  · have := hnone hv
    omega
  · exact (by decide : 2 ^ 15 ≤ 2 ^ 16).trans (hlow hv)

/-- The normal form stands for the greatest number that is not above `v`, of those with a mantissa
below `K`: as many bytes as the mantissa has, or all bits that it may have. -/
theorem Normal.isGreatest (h : Normal v S M) {K : ℕ} (hlt : M < K) (hK : v ≠ 0 → K ≤ 256 * M) :
    IsGreatest {x | x ≤ v ∧ ∃ m e, m < K ∧ x = m * 256 ^ e} (number S M) := by
  constructor
  · obtain ⟨m, e, hm, hnumber⟩ := exists_number_eq S M
    exact ⟨h.number_le, m, e, lt_of_le_of_lt hm hlt, hnumber⟩
  · rintro _ ⟨hle, m, e, hm, rfl⟩
    rcases Nat.eq_zero_or_pos v with rfl | hv
    · exact hle.trans (zero_le _)
    rw [number, le_div_iff_mul_le (by decide)]
    have hpow : m * 256 ^ e * 256 ^ 3 = m * 256 ^ (e + 3) := by rw [mul_assoc, ← pow_add]
    have hbelow : m * 256 ^ (e + 3) < (M + 1) * 256 ^ S := by
      rw [← hpow]
      exact (mul_le_mul_right _ hle).trans_lt h.lt_succ
    rw [hpow]
    rcases lt_or_ge (e + 3) S with hS | hS
    · -- an exponent below that of the normal form, where the mantissa is too small
      have hbytes : 256 ^ (e + 3) * 256 ≤ 256 ^ S := by
        rw [← pow_succ]
        exact Nat.pow_le_pow_right (by decide) hS
      calc m * 256 ^ (e + 3) ≤ 256 * M * 256 ^ (e + 3) :=
            mul_le_mul_right _ (hm.le.trans (hK hv.ne'))
        _ = M * (256 ^ (e + 3) * 256) := by ring
        _ ≤ M * 256 ^ S := mul_le_mul_left _ hbytes
    · -- a multiple of the unit of the normal form
      obtain ⟨d, hd⟩ := Nat.exists_eq_add_of_le hS
      have hunit : m * 256 ^ (e + 3) = m * 256 ^ d * 256 ^ S := by
        rw [hd, pow_add]
        ring
      rw [hunit] at hbelow ⊢
      exact Nat.mul_le_mul_right _ (Nat.lt_succ_iff.1 (Nat.lt_of_mul_lt_mul_right hbelow))

end ByteExponent
end Komodo
