/-
# Numbers in limbs of 32 bits

The value of a list of limbs, the lowest first, for the loops of multi-word arithmetic.

A loop that adds or multiplies takes a sum of 64 bits apart into a limb and a carry
(`split_toNat`), and its result is a remainder whose low limb and whose rest are known
(`add_mul_mod`).  A loop that shifts collects bits with `|=`: at limb `i` that is a bitwise or of
the value with the bits moved up by `32 * i` (`value_modify_or`), and a limb that is shifted by less
than its width is what two limbs take of it (`shiftLeft_eq_or`, `shiftRight_eq_or`).
-/

import Mathlib.Tactic
import Mathlib.Data.Nat.Bitwise
import Mathlib.Data.Nat.Size

namespace Komodo
namespace Limbs

open Nat List

/-- The value of limbs, the lowest first. -/
def value : List UInt32 → ℕ
  | [] => 0
  | x :: xs => x.toNat + 2 ^ 32 * value xs

theorem value_lt (xs : List UInt32) : value xs < 2 ^ (32 * xs.length) := by
  induction xs with
  | nil => decide
  | cons x xs ih =>
    have hx := x.toNat_lt
    rw [value, length_cons, mul_succ, add_comm, pow_add]
    omega

theorem value_append (xs ys : List UInt32) :
    value (xs ++ ys) = value xs + 2 ^ (32 * xs.length) * value ys := by
  induction xs with
  | nil => rw [nil_append, length_nil, mul_zero, pow_zero, one_mul, value, zero_add]
  | cons x xs ih =>
    rw [cons_append, value, value, ih, length_cons, mul_succ, pow_add]
    ring

theorem value_concat (xs : List UInt32) (x : UInt32) :
    value (xs ++ [x]) = value xs + 2 ^ (32 * xs.length) * x.toNat := by
  rw [value_append, value, value, mul_zero, add_zero]

@[simp] theorem value_replicate_zero (n : ℕ) : value (replicate n 0) = 0 := by
  induction n with
  | zero => rfl
  | succ n ih => rw [replicate_succ, value, ih]; rfl

/-! ### Carries -/

theorem split_toNat (n : UInt64) :
    (n &&& 0xffffffff).toUInt32.toNat + 2 ^ 32 * (n >>> 32).toNat = n.toNat := by
  have hlow : (n &&& 0xffffffff).toUInt32.toNat = n.toNat % 2 ^ 32 := by
    rw [UInt64.toNat_toUInt32, UInt64.toNat_and]
    show (n.toNat &&& (2 ^ 32 - 1)) % 2 ^ 32 = _
    rw [and_two_pow_sub_one_eq_mod, mod_mod]
  have hhigh : (n >>> 32).toNat = n.toNat / 2 ^ 32 := by
    rw [UInt64.toNat_shiftRight, shiftRight_eq_div_pow]
    rfl
  rw [hlow, hhigh, mod_add_div]

theorem carry_lt (n : UInt64) : (n >>> 32).toNat < 2 ^ 32 := by
  have := split_toNat n
  have := n.toNat_lt
  omega

theorem add_mul_mod {low high rest modulus : ℕ} (hlow : low < 2 ^ 32) :
    low + 2 ^ 32 * ((high + rest) % modulus) =
      (low + 2 ^ 32 * high + 2 ^ 32 * rest) % (2 ^ 32 * modulus) := by
  have hsum : low + 2 ^ 32 * high + 2 ^ 32 * rest = low + 2 ^ 32 * (high + rest) := by ring
  rw [hsum, mod_mul, add_mul_mod_self_left, mod_eq_of_lt hlow,
    add_mul_div_left _ _ (by decide), div_eq_of_lt hlow, zero_add]

/-! ### Bits -/

theorem value_cons_eq_or (x : UInt32) (xs : List UInt32) :
    value (x :: xs) = x.toNat ||| value xs <<< 32 := by
  rw [value, Nat.or_comm, ← Nat.shiftLeft_add_eq_or_of_lt x.toNat_lt, Nat.shiftLeft_eq]
  ring

/-- `|=` at limb `i`. -/
theorem value_modify_or (x : UInt32) {xs : List UInt32} {i : ℕ} (hi : i < xs.length) :
    value (xs.modify i (· ||| x)) = value xs ||| x.toNat <<< (32 * i) := by
  induction xs generalizing i with
  | nil => exact absurd hi (not_lt_zero i)
  | cons y ys ih =>
    cases i with
    | zero =>
      rw [modify_zero_cons, value_cons_eq_or, value_cons_eq_or, UInt32.toNat_or,
        Nat.mul_zero, Nat.shiftLeft_zero, Nat.or_assoc, Nat.or_assoc, Nat.or_comm x.toNat]
    | succ i =>
      rw [modify_succ_cons, value_cons_eq_or, value_cons_eq_or, ih (lt_of_succ_lt_succ hi),
        shiftLeft_or_distrib, ← shiftLeft_add, Nat.or_assoc, Nat.mul_succ]

theorem value_take_succ {xs : List UInt32} {i : ℕ} (hi : i < xs.length) :
    value (xs.take (i + 1)) = value (xs.take i) ||| (xs[i]).toNat <<< (32 * i) := by
  have hlength : (xs.take i).length = i := length_take_of_le hi.le
  have hlt := value_lt (xs.take i)
  rw [hlength] at hlt
  rw [take_succ_eq_append_getElem hi, value_append, hlength, Nat.or_comm,
    ← shiftLeft_add_eq_or_of_lt hlt, shiftLeft_eq, value, value]
  ring

theorem shiftLeft_eq_or {x s : ℕ} (hs : s ≤ 32) :
    x <<< s = (x >>> (32 - s)) <<< 32 ||| x <<< s % 2 ^ 32 := by
  have hlow : x <<< s % 2 ^ 32 < 2 ^ 32 := mod_lt _ (by decide)
  have hhigh : x <<< s / 2 ^ 32 = x >>> (32 - s) := by
    rw [shiftLeft_eq, shiftRight_eq_div_pow,
      show 2 ^ 32 = 2 ^ (32 - s) * 2 ^ s by rw [← pow_add, Nat.sub_add_cancel hs],
      Nat.mul_div_mul_right _ _ (Nat.two_pow_pos s)]
  rw [← shiftLeft_add_eq_or_of_lt hlow, shiftLeft_eq _ 32, ← hhigh, mul_comm, div_add_mod]

theorem shiftLeft_mod {x : ℕ} (hx : x < 2 ^ 32) (i n : ℕ) :
    x <<< (32 * i) % 2 ^ (32 * n) = if i < n then x <<< (32 * i) else 0 := by
  rw [shiftLeft_eq]
  split_ifs with hi
  · refine mod_eq_of_lt ?_
    calc x * 2 ^ (32 * i) < 2 ^ 32 * 2 ^ (32 * i) :=
          Nat.mul_lt_mul_of_pos_right hx (Nat.two_pow_pos _)
      _ = 2 ^ (32 * (i + 1)) := by rw [← pow_add]; congr 1; omega
      _ ≤ 2 ^ (32 * n) := Nat.pow_le_pow_right (by decide) (by omega)
  · exact mod_eq_zero_of_dvd
      ((pow_dvd_pow 2 (show 32 * n ≤ 32 * i by omega)).trans (dvd_mul_left _ _))

theorem size_add_mul {low high k : ℕ} (hlow : low < 2 ^ k) (hhigh : high ≠ 0) :
    (low + 2 ^ k * high).size = k + high.size := by
  apply le_antisymm
  · rw [size_le, pow_add]
    calc low + 2 ^ k * high < 2 ^ k * (high + 1) := by rw [mul_succ]; omega
      _ ≤ 2 ^ k * 2 ^ high.size := mul_le_mul_left _ (lt_size_self high)
  · have hpos : 0 < high.size := size_pos.2 (pos_of_ne_zero hhigh)
    have hle : 2 ^ (high.size - 1) ≤ high := lt_size.1 (sub_lt hpos one_pos)
    have hmul := mul_le_mul_left (2 ^ k) hle
    rw [← pow_add] at hmul
    have := lt_size.2 (hmul.trans (le_add_left _ low))
    omega

end Limbs
end Komodo
