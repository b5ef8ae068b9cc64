/-
# Strings of bits

Bits in the order in which they are written, the highest first, and the number that they stand for.

A loop that moves bits between groups of one width and groups of another keeps the bits that it has
read and not yet written in an accumulator.  On strings of bits such a loop is concatenation and
taking `chunks`; what an accumulator of 32 bits holds are the bits of a string as long as there are
no more than 32 of them (`value_append`, `value_take`, `value_drop`).
-/

import Mathlib.Tactic
import Mathlib.Data.Nat.Bitwise

namespace Komodo
namespace BitStrings

open List Nat

/-- The `w` low bits of `n`, the highest first. -/
def bits : (w n : ℕ) → List Bool
  | 0, _ => []
  | w + 1, n => n.testBit w :: bits w n

/-- The number that the bits stand for. -/
def value : List Bool → ℕ
  | [] => 0
  | b :: bs => b.toNat * 2 ^ bs.length + value bs

@[simp] theorem length_bits (w n : ℕ) : (bits w n).length = w := by
  induction w with
  | zero => rfl
  | succ w ih => rw [bits, length_cons, ih]

theorem value_lt (bs : List Bool) : value bs < 2 ^ bs.length := by
  induction bs with
  | nil => decide
  | cons b bs ih =>
    rw [value, length_cons, pow_succ]
    cases b <;> simp <;> omega

theorem value_append (bs cs : List Bool) :
    value (bs ++ cs) = value bs * 2 ^ cs.length + value cs := by
  induction bs with
  | nil => rw [nil_append, value, zero_mul, zero_add]
  | cons b bs ih =>
    rw [cons_append, value, value, ih, length_append, pow_add]
    ring

theorem value_bits (w n : ℕ) : value (bits w n) = n % 2 ^ w := by
  induction w with
  | zero => rw [pow_zero, mod_one]; rfl
  | succ w ih =>
    rw [bits, value, ih, length_bits, mod_pow_succ, toNat_testBit, mul_comm, add_comm]

theorem testBit_value (b : Bool) (bs : List Bool) : (value (b :: bs)).testBit bs.length = b := by
  have hlt := value_lt bs
  rw [value, Nat.mul_comm, Nat.testBit_two_pow_mul_add _ hlt, if_neg (lt_irrefl _), Nat.sub_self]
  cases b <;> rfl

theorem bits_mod (w n m : ℕ) (h : w ≤ m) : bits w (n % 2 ^ m) = bits w n := by
  induction w with
  | zero => rfl
  | succ w ih =>
    rw [bits, bits, ih (by omega), testBit_mod_two_pow, decide_eq_true (by omega), Bool.true_and]

theorem bits_value (bs : List Bool) : bits bs.length (value bs) = bs := by
  induction bs with
  | nil => rfl
  | cons b bs ih =>
    rw [length_cons, bits, testBit_value, ← bits_mod _ _ _ le_rfl, value, mul_comm,
      mul_add_mod, bits_mod _ _ _ le_rfl, ih]

theorem value_take (bs : List Bool) (k : ℕ) :
    value (bs.take k) = value bs / 2 ^ (bs.length - k) := by
  have hlt := value_lt (bs.drop k)
  have happend := value_append (bs.take k) (bs.drop k)
  rw [take_append_drop] at happend
  rw [length_drop] at hlt happend
  rw [happend, Nat.mul_comm, Nat.mul_add_div (Nat.pow_pos (by decide)), Nat.div_eq_of_lt hlt,
    add_zero]

theorem value_drop (bs : List Bool) (k : ℕ) :
    value (bs.drop k) = value bs % 2 ^ (bs.length - k) := by
  have hlt := value_lt (bs.drop k)
  have happend := value_append (bs.take k) (bs.drop k)
  rw [take_append_drop] at happend
  rw [length_drop] at hlt happend
  rw [happend, mul_comm, mul_add_mod, mod_eq_of_lt hlt]

/-! ### Chunks -/

section
variable {α : Type}

/-- The first `n` chunks of `w`. -/
def chunks (w : ℕ) : (n : ℕ) → List α → List (List α)
  | 0, _ => []
  | n + 1, l => l.take w :: chunks w n (l.drop w)

@[simp] theorem length_chunks (w n : ℕ) (l : List α) : (chunks w n l).length = n := by
  induction n generalizing l with
  | zero => rfl
  | succ n ih => rw [chunks, length_cons, ih]

theorem flatten_chunks (w n : ℕ) (l : List α) : (chunks w n l).flatten = l.take (w * n) := by
  induction n generalizing l with
  | zero => rw [mul_zero, take_zero]; rfl
  | succ n ih =>
    rw [chunks, flatten_cons, ih, mul_succ, add_comm, take_add]

theorem length_of_mem_chunks {w n : ℕ} {l c : List α} (hl : w * n ≤ l.length)
    (hc : c ∈ chunks w n l) : c.length = w := by
  induction n generalizing l with
  | zero => cases hc
  | succ n ih =>
    rw [mul_succ] at hl
    rcases mem_cons.1 hc with rfl | hc
    · rw [length_take]
      omega
    · exact ih (by rw [length_drop]; omega) hc

theorem chunks_flatten {w : ℕ} {ls : List (List α)} (h : ∀ l ∈ ls, l.length = w) :
    chunks w ls.length ls.flatten = ls := by
  induction ls with
  | nil => rfl
  | cons l ls ih =>
    obtain ⟨hl, hls⟩ := forall_mem_cons.1 h
    rw [length_cons, chunks, flatten_cons, ← hl, take_left, drop_left, hl, ih hls]

theorem getElem?_chunks {w n i : ℕ} (hi : i < n) (l : List α) :
    (chunks w n l)[i]? = some ((l.drop (w * i)).take w) := by
  induction n generalizing i l with
  | zero => omega
  | succ n ih =>
    cases i with
    | zero => rw [chunks, getElem?_cons_zero, mul_zero, drop_zero]
    | succ i =>
      rw [chunks, getElem?_cons_succ, ih (by omega), drop_drop, mul_succ, add_comm]

theorem chunks_eq_map_range (w n : ℕ) (l : List α) :
    chunks w n l = (range n).map fun i => (l.drop (w * i)).take w := by
  refine ext_getElem? fun i => ?_
  rcases lt_or_ge i n with hi | hi
  · rw [getElem?_chunks hi, getElem?_map, getElem?_range hi, Option.map_some]
  · rw [getElem?_eq_none (by rwa [length_chunks]),
      getElem?_eq_none (by rwa [length_map, length_range])]

end

/-- The bits of a number, those above place `b` first. -/
theorem bits_add (a b n : ℕ) : bits (a + b) n = bits a (n / 2 ^ b) ++ bits b n := by
  induction a with
  | zero => rw [zero_add]; rfl
  | succ a ih => rw [succ_add, bits, bits, ih, testBit_div_two_pow, cons_append]

/-- Numbers that are written with `w` bits each are read again. -/
theorem value_chunks_bits {w : ℕ} {ns : List ℕ} (h : ∀ n ∈ ns, n < 2 ^ w) :
    (chunks w ns.length (ns.flatMap (bits w))).map value = ns := by
  have hwidth : ∀ l ∈ ns.map (bits w), l.length = w := by simp
  have hchunks := chunks_flatten hwidth
  rw [length_map] at hchunks
  rw [flatMap_def, hchunks, map_map]
  refine (map_congr_left fun n hn => ?_).trans (map_id _)
  rw [Function.comp_apply, value_bits, mod_eq_of_lt (h n hn), id]

/-- Bits that are read as numbers of `w` bits each are written again. -/
theorem bits_value_chunks {w n : ℕ} {bs : List Bool} (h : w * n ≤ bs.length) :
    ((chunks w n bs).map value).flatMap (bits w) = bs.take (w * n) := by
  rw [flatMap_def, map_map, ← flatten_chunks]
  congr 1
  refine (map_congr_left fun c hc => ?_).trans (map_id _)
  have hlen := length_of_mem_chunks h hc
  rw [Function.comp_apply, ← hlen, bits_value, id]

end BitStrings
end Komodo
