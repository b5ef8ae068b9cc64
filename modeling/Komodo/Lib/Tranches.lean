/-
# Payments in tranches

A rate that changes after every `p` payments, added up over a number of payments: whole tranches
at the rates one after the other, and a part of the next (`sum_tranches`).  The tranches that are
begun pay for all of it (`sum_le_begun`).

A rate that falls or rises by the same step in every tranche adds up to a rectangle and triangles
(`falling_eq`, `rising_eq`).  Steps that are rounded down go no further than a share that is
rounded after them (`steps_le_share`), and as far where nothing is rounded (`share_of_dvd`).
-/

import Mathlib.Tactic

namespace Komodo
namespace Tranches

open Finset Nat

variable {M : Type} [AddCommMonoid M]

/-- **Whole tranches and a part of the next.** -/
theorem sum_tranches (f : ℕ → M) {p m : ℕ} (hm : m ≤ p) (n : ℕ) :
    ∑ i ∈ range (n * p + m), f (i / p) = p • ∑ k ∈ range n, f k + m • f n := by
  have hpart : ∀ {m : ℕ}, m ≤ p → ∀ n, ∑ i ∈ range m, f ((n * p + i) / p) = m • f n := by
    intro m hm n
    rw [sum_congr rfl fun i hi => ?_, sum_const, card_range]
    have hi : i < p := lt_of_lt_of_le (mem_range.1 hi) hm
    rw [mul_comm, mul_add_div (by omega), div_eq_of_lt hi, add_zero]
  rw [sum_range_add, hpart hm]
  congr 1
  induction n with
  | zero => rw [zero_mul, range_zero, sum_empty, sum_empty, nsmul_zero]
  | succ n ih => rw [succ_mul, sum_range_add, ih, hpart le_rfl, sum_range_succ, nsmul_add]

/-- The tranches that are begun by `n` payments. -/
def begun (p n : ℕ) : ℕ := (n + p - 1) / p

variable {p n : ℕ}

theorem begun_of_dvd (hp : 0 < p) : begun p (n * p) = n := by
  unfold begun
  rw [Nat.add_sub_assoc (by omega), Nat.mul_comm, Nat.mul_add_div hp, Nat.div_eq_of_lt (by omega),
    add_zero]

theorem begun_add {m : ℕ} (hm : 0 < m) (hmp : m ≤ p) : begun p (n * p + m) = n + 1 := by
  have hsplit : n * p + m + p - 1 = p * (n + 1) + (m - 1) := by
    rw [mul_succ, mul_comm p n]
    omega
  unfold begun
  rw [hsplit, mul_add_div (by omega), div_eq_of_lt (by omega), add_zero]

/-- Another tranche is begun after `p` payments. -/
theorem begun_succ (hp : 0 < p) (hn : 0 < n) : begun p n = begun p (n - p) + 1 := by
  unfold begun
  rcases lt_or_ge n p with h | h
  · rw [Nat.sub_eq_zero_of_le h.le, Nat.zero_add, Nat.div_eq_of_lt (by omega : p - 1 < p),
      show n + p - 1 = p + (n - 1) by omega, add_div_left _ hp, div_eq_of_lt (by omega)]
  · rw [show n - p + p - 1 = n - 1 by omega, show n + p - 1 = n - 1 + p by omega,
      add_div_right _ hp]

variable {R : Type} [AddCommMonoid R] [PartialOrder R] [IsOrderedAddMonoid R]

/-- **The tranches that are begun pay for all of it.** -/
theorem sum_le_begun {f : ℕ → R} (hp : 0 < p) (hnonneg : ∀ k, 0 ≤ f k) :
    ∑ i ∈ range n, f (i / p) ≤ p • ∑ k ∈ range (begun p n), f k := by
  have hn : n / p * p + n % p = n := by rw [mul_comm]; exact div_add_mod n p
  rw [← hn]
  rcases Nat.eq_zero_or_pos (n % p) with hzero | hpos
  · rw [hzero, sum_tranches f (zero_le p), zero_nsmul, add_zero, add_zero, begun_of_dvd hp]
  · have hlt := mod_lt n hp
    rw [sum_tranches f hlt.le, begun_add hpos hlt.le, sum_range_succ, nsmul_add]
    gcongr
    exact hnonneg _

theorem begun_add_one (hp : 0 < p) (h : ¬p ∣ n) : begun p (n + 1) = begun p n := by
  have hpos : 0 < n % p := pos_of_ne_zero fun hzero => h (dvd_of_mod_eq_zero hzero)
  have hlt := mod_lt n hp
  have hn : n = n / p * p + n % p := by rw [mul_comm]; exact (div_add_mod n p).symm
  rw [hn, add_assoc, begun_add hpos hlt.le, begun_add (by omega) hlt]

theorem sum_le_of_classes {ι κ : Type} [DecidableEq κ] (cls : ι → κ) {s : Finset ι} {t : Finset κ}
    {f : ι → R} {money : κ → R} (hmem : ∀ i ∈ s, f i ≠ 0 → cls i ∈ t)
    (hcover : ∀ k ∈ t, ∑ i ∈ s with cls i = k, f i ≤ money k) :
    ∑ i ∈ s, f i ≤ ∑ k ∈ t, money k := by
  have hclass : ∀ i ∈ s.filter (cls · ∈ t), cls i ∈ t := fun i hi => (mem_filter.1 hi).2
  rw [← sum_filter_of_ne hmem, ← sum_fiberwise_of_maps_to hclass]
  refine sum_le_sum fun k hk => ?_
  have hsame : (s.filter (cls · ∈ t)).filter (cls · = k) = s.filter (cls · = k) := by
    rw [filter_filter]
    exact filter_congr fun i _ => ⟨fun h => h.2, fun h => ⟨h ▸ hk, h⟩⟩
  rw [hsame]
  exact hcover k hk

/-! ### Equal steps -/

section steps

variable {S : Type} [CommRing S] {p d T : S}

/-- **A rate that falls by `d`**, with `T` for half of a tranche of it. -/
theorem falling_eq (hT : 2 * T = p * d) (r : S) (n : ℕ) :
    T * n + T * n * n + (r - d * n) * (n * p) = p * ∑ k ∈ range n, (r - k * d) := by
  induction n with
  | zero => simp
  | succ n ih =>
    rw [sum_range_succ, mul_add, ← ih]
    push_cast
    linear_combination (n + 1) * hT

/-- **A rate that rises by `d`.** -/
theorem rising_eq (hT : 2 * T = p * d) (r : S) (n : ℕ) :
    T * (n - 1) + T * (n - 1) * (n - 1) + r * (n * p) = p * ∑ k ∈ range n, (r + k * d) := by
  induction n with
  | zero => simp
  | succ n ih =>
    rw [sum_range_succ, mul_add, ← ih]
    push_cast
    linear_combination n * hT

end steps

/-- The share of `gap` after `k` of `n` tranches. -/
theorem share_eq (hp : 0 < p) (gap k n : ℕ) : gap * (p * k) / (n * p) = k * gap / n := by
  rw [Nat.mul_comm p k, ← Nat.mul_assoc, Nat.mul_comm gap k, Nat.mul_div_mul_right _ _ hp]

theorem steps_le_share (hp : 0 < p) (gap k n : ℕ) :
    k * (gap / n) ≤ gap * (p * k) / (n * p) := by
  rw [share_eq hp]
  exact mul_div_le_mul_div_assoc k gap n

theorem share_of_dvd {gap : ℕ} (hp : 0 < p) (h : n ∣ gap) (k : ℕ) :
    gap * (p * k) / (n * p) = k * (gap / n) := by
  rw [share_eq hp, Nat.mul_div_assoc k h]

end Tranches
end Komodo
