/-
# Big unsigned integers

`base_uint` of `src/src/arith_uint256.h` and `arith_uint256.cpp`, for any number of limbs.

A number is its limbs (`pn`), the lowest first, and a loop over them is a recursion along the list,
or a fold over the indices where it writes to other places than it reads.  Sums of two limbs are
64 bits wide in the source, and here.  Every operator gives what it is named after, modulo the
number's width (`value_add`, `value_mul`, `value_shl` and so on).  `operator/=` subtracts shifted
divisors, from the first that is aligned with the top bit down (`value_div`).

The operators with two operands copy the left one, so that `*=` never multiplies an object by
itself.
-/

import Komodo.Lib.Limbs

namespace Komodo

open Limbs List Nat

/-- `base_uint<BITS>`, by its `WIDTH`. -/
@[ext] structure BaseUint (WIDTH : ℕ) where
  pn : List UInt32
  length_pn : pn.length = WIDTH
deriving DecidableEq, Repr

namespace BaseUint

variable {WIDTH : ℕ}

/-- The number. -/
def value (a : BaseUint WIDTH) : ℕ := Limbs.value a.pn

theorem value_lt (a : BaseUint WIDTH) : a.value < 2 ^ (32 * WIDTH) := by
  have := Limbs.value_lt a.pn
  rwa [a.length_pn] at this

/-- `base_uint()`. -/
def zero (WIDTH : ℕ) : BaseUint WIDTH := ⟨List.replicate WIDTH 0, List.length_replicate⟩

@[simp] theorem value_zero : (zero WIDTH).value = 0 := value_replicate_zero WIDTH

/-! ### Sums -/

/-- The loop of `operator+=`. -/
def addLoop : (carry : UInt64) → List UInt32 → List UInt32 → List UInt32
  | carry, p :: pn, b :: bs =>
    let n := carry + p.toUInt64 + b.toUInt64
    (n &&& 0xffffffff).toUInt32 :: addLoop (n >>> 32) pn bs
  | _, _, _ => []

variable {pn bs : List UInt32}

theorem length_addLoop (carry : UInt64) (h : pn.length = bs.length) :
    (addLoop carry pn bs).length = pn.length := by
  induction pn generalizing carry bs with
  | nil => rfl
  | cons p pn ih =>
    cases bs with
    | nil => cases h
    | cons b bs => rw [addLoop, length_cons, ih _ (succ.inj h), length_cons]

variable {carry : UInt64}

theorem value_addLoop (hcarry : carry.toNat < 2 ^ 32)
    (h : pn.length = bs.length) :
    Limbs.value (addLoop carry pn bs) =
      (carry.toNat + Limbs.value pn + Limbs.value bs) % 2 ^ (32 * pn.length) := by
  induction pn generalizing carry bs with
  | nil => rw [length_nil, mul_zero, pow_zero, mod_one]; rfl
  | cons p pn ih =>
    cases bs with
    | nil => cases h
    | cons b bs =>
      have hp := p.toNat_lt
      have hb := b.toNat_lt
      have hn : (carry + p.toUInt64 + b.toUInt64).toNat = carry.toNat + p.toNat + b.toNat := by
        rw [UInt64.toNat_add, UInt64.toNat_add, UInt32.toNat_toUInt64, UInt32.toNat_toUInt64]
        omega
      have hsplit := split_toNat (carry + p.toUInt64 + b.toUInt64)
      rw [addLoop, Limbs.value, ih (carry_lt _) (succ.inj h), Nat.add_assoc,
        add_mul_mod (UInt32.toNat_lt _), hsplit, hn, length_cons, mul_succ, Limbs.value,
        Limbs.value, add_comm (32 * _), pow_add]
      congr 1
      ring

/-- `operator+=`, and `operator+`. -/
def add (a b : BaseUint WIDTH) : BaseUint WIDTH :=
  ⟨addLoop 0 a.pn b.pn, (length_addLoop 0 (a.length_pn.trans b.length_pn.symm)).trans a.length_pn⟩

theorem value_add (a b : BaseUint WIDTH) :
    (a.add b).value = (a.value + b.value) % 2 ^ (32 * WIDTH) := by
  have h := value_addLoop (show (0 : UInt64).toNat < 2 ^ 32 by decide)
    (a.length_pn.trans b.length_pn.symm)
  rw [UInt64.toNat_zero, zero_add, a.length_pn] at h
  exact h

/-! ### Complements -/

/-- `operator~`. -/
def complement (a : BaseUint WIDTH) : BaseUint WIDTH :=
  ⟨a.pn.map (~~~ ·), (List.length_map _).trans a.length_pn⟩

theorem value_map_complement (pn : List UInt32) :
    Limbs.value (pn.map (~~~ ·)) + Limbs.value pn + 1 = 2 ^ (32 * pn.length) := by
  induction pn with
  | nil => rfl
  | cons p pn ih =>
    have hp := p.toNat_lt
    rw [map_cons, Limbs.value, Limbs.value, UInt32.toNat_not, length_cons, mul_succ, pow_add, ← ih]
    show 2 ^ 32 - 1 - p.toNat + _ + _ + 1 = _
    omega

theorem value_complement (a : BaseUint WIDTH) :
    a.complement.value = 2 ^ (32 * WIDTH) - 1 - a.value := by
  have h := value_map_complement a.pn
  rw [a.length_pn] at h
  show Limbs.value (a.pn.map (~~~ ·)) = 2 ^ (32 * WIDTH) - 1 - Limbs.value a.pn
  omega

/-- The loop of `operator++`. -/
def incrementLoop : List UInt32 → List UInt32
  | [] => []
  | p :: pn => if p + 1 = 0 then (p + 1) :: incrementLoop pn else (p + 1) :: pn

theorem length_incrementLoop (pn : List UInt32) : (incrementLoop pn).length = pn.length := by
  induction pn with
  | nil => rfl
  | cons p pn ih =>
    rw [incrementLoop]
    split_ifs
    · rw [length_cons, ih, length_cons]
    · rfl

theorem value_incrementLoop (pn : List UInt32) :
    Limbs.value (incrementLoop pn) = (Limbs.value pn + 1) % 2 ^ (32 * pn.length) := by
  induction pn with
  | nil => rfl
  | cons p pn ih =>
    have hp := p.toNat_lt
    have hlt := Limbs.value_lt pn
    have hsucc : (p + 1).toNat = (p.toNat + 1) % 2 ^ 32 := UInt32.toNat_add p 1
    rw [incrementLoop, length_cons, mul_succ, pow_add, Limbs.value]
    split_ifs with hwrap
    · have hp1 : p.toNat + 1 = 2 ^ 32 := by
        rw [hwrap, UInt32.toNat_zero] at hsucc
        omega
      rw [Limbs.value, ih, hwrap, UInt32.toNat_zero, zero_add, ← mul_mod_mul_left,
        mul_comm (2 ^ (32 * _)) (2 ^ 32)]
      congr 1
      omega
    · have hp1 : p.toNat + 1 < 2 ^ 32 := by
        by_contra hge
        apply hwrap
        apply UInt32.toNat_inj.1
        rw [hsucc, show p.toNat + 1 = 2 ^ 32 by omega]
        rfl
      rw [Limbs.value, hsucc, mod_eq_of_lt hp1, mod_eq_of_lt]
      · omega
      · have : 2 ^ (32 * pn.length) * 2 ^ 32 = 2 ^ 32 * 2 ^ (32 * pn.length) := mul_comm _ _
        omega

/-- Prefix `operator++`. -/
def increment (a : BaseUint WIDTH) : BaseUint WIDTH :=
  ⟨incrementLoop a.pn, (length_incrementLoop a.pn).trans a.length_pn⟩

/-- Unary `operator-`. -/
def neg (a : BaseUint WIDTH) : BaseUint WIDTH := a.complement.increment

theorem value_neg (a : BaseUint WIDTH) :
    a.neg.value = (2 ^ (32 * WIDTH) - a.value) % 2 ^ (32 * WIDTH) := by
  have h := value_incrementLoop a.complement.pn
  have hlt := a.value_lt
  rw [a.complement.length_pn] at h
  refine h.trans ?_
  have hcomplement := a.value_complement
  rw [show Limbs.value a.complement.pn = _ from hcomplement]
  congr 1
  omega

/-- `operator-=`, and `operator-`. -/
def sub (a b : BaseUint WIDTH) : BaseUint WIDTH := a.add b.neg

variable {a b : BaseUint WIDTH}

theorem value_sub (h : b.value ≤ a.value) :
    (a.sub b).value = a.value - b.value := by
  have ha := a.value_lt
  rw [sub, value_add, value_neg, add_mod_mod,
    show a.value + (2 ^ (32 * WIDTH) - b.value) = a.value - b.value + 2 ^ (32 * WIDTH) by omega,
    add_mod_right, mod_eq_of_lt (by omega)]

/-! ### Products -/

/-- The loop of `operator*=(uint32_t)`. -/
def mulSmallLoop (b32 : UInt32) : (carry : UInt64) → List UInt32 → List UInt32
  | _, [] => []
  | carry, p :: pn =>
    let n := carry + b32.toUInt64 * p.toUInt64
    (n &&& 0xffffffff).toUInt32 :: mulSmallLoop b32 (n >>> 32) pn

theorem length_mulSmallLoop (b32 : UInt32) (carry : UInt64) (pn : List UInt32) :
    (mulSmallLoop b32 carry pn).length = pn.length := by
  induction pn generalizing carry with
  | nil => rfl
  | cons p pn ih => rw [mulSmallLoop, length_cons, ih, length_cons]

/-- `operator*=(uint32_t)`. -/
def mulSmall (a : BaseUint WIDTH) (b32 : UInt32) : BaseUint WIDTH :=
  ⟨mulSmallLoop b32 0 a.pn, (length_mulSmallLoop b32 0 a.pn).trans a.length_pn⟩

/-- The inner loop of `operator*=`, over the limbs from `j` on. -/
def mulRowLoop (a : UInt32) : (carry : UInt64) → List UInt32 → List UInt32 → List UInt32
  | carry, p :: pn, b :: bs =>
    let n := carry + p.toUInt64 + a.toUInt64 * b.toUInt64
    (n &&& 0xffffffff).toUInt32 :: mulRowLoop a (n >>> 32) pn bs
  | _, _, _ => []

/-- The outer loop of `operator*=`: behind every round the lowest limb is done. -/
def mulLoop : List UInt32 → List UInt32 → List UInt32 → List UInt32
  | a :: as, pn, bs =>
    match mulRowLoop a 0 pn bs with
    | p :: pn => p :: mulLoop as pn bs
    | [] => []
  | [], pn, _ => pn

theorem toNat_mul_add (hcarry : carry.toNat < 2 ^ 32) (p a b : UInt32) :
    (carry + p.toUInt64 + a.toUInt64 * b.toUInt64).toNat
      = carry.toNat + p.toNat + a.toNat * b.toNat := by
  have hp := p.toNat_lt
  have hab : a.toNat * b.toNat ≤ (2 ^ 32 - 1) * (2 ^ 32 - 1) :=
    Nat.mul_le_mul (Nat.le_pred_of_lt a.toNat_lt) (Nat.le_pred_of_lt b.toNat_lt)
  rw [UInt64.toNat_add, UInt64.toNat_add, UInt64.toNat_mul, UInt32.toNat_toUInt64,
    UInt32.toNat_toUInt64, UInt32.toNat_toUInt64]
  omega

theorem value_mulSmallLoop (b32 : UInt32) (hcarry : carry.toNat < 2 ^ 32)
    (pn : List UInt32) :
    Limbs.value (mulSmallLoop b32 carry pn) =
      (carry.toNat + b32.toNat * Limbs.value pn) % 2 ^ (32 * pn.length) := by
  induction pn generalizing carry with
  | nil => rw [length_nil, mul_zero, pow_zero, mod_one]; rfl
  | cons p pn ih =>
    have hn := toNat_mul_add hcarry 0 b32 p
    rw [show carry + (0 : UInt32).toUInt64 = carry from UInt64.add_zero carry, UInt32.toNat_zero,
      add_zero] at hn
    have hsplit := split_toNat (carry + b32.toUInt64 * p.toUInt64)
    rw [mulSmallLoop, Limbs.value, ih (carry_lt _), add_mul_mod (UInt32.toNat_lt _), hsplit, hn,
      length_cons, mul_succ, Limbs.value, add_comm (32 * _), pow_add]
    congr 1
    ring

theorem value_mulSmall (a : BaseUint WIDTH) (b32 : UInt32) :
    (a.mulSmall b32).value = a.value * b32.toNat % 2 ^ (32 * WIDTH) := by
  have h := value_mulSmallLoop b32 (show (0 : UInt64).toNat < 2 ^ 32 by decide) a.pn
  rw [UInt64.toNat_zero, zero_add, a.length_pn, mul_comm] at h
  exact h

theorem length_mulRowLoop (a : UInt32) (carry : UInt64)
    (h : pn.length ≤ bs.length) : (mulRowLoop a carry pn bs).length = pn.length := by
  induction pn generalizing carry bs with
  | nil => rfl
  | cons p pn ih =>
    cases bs with
    | nil => cases h
    | cons b bs =>
      rw [mulRowLoop, length_cons, ih _ (le_of_succ_le_succ h), length_cons]

/-- A round adds one limb's product, as far as it fits. -/
theorem value_mulRowLoop (a : UInt32) (hcarry : carry.toNat < 2 ^ 32)
    (h : pn.length ≤ bs.length) :
    Limbs.value (mulRowLoop a carry pn bs) =
      (carry.toNat + Limbs.value pn + a.toNat * Limbs.value bs) % 2 ^ (32 * pn.length) := by
  induction pn generalizing carry bs with
  | nil => rw [length_nil, mul_zero, pow_zero, mod_one]; rfl
  | cons p pn ih =>
    cases bs with
    | nil => cases h
    | cons b bs =>
      have hsplit := split_toNat (carry + p.toUInt64 + a.toUInt64 * b.toUInt64)
      rw [mulRowLoop, Limbs.value, ih (carry_lt _) (le_of_succ_le_succ h), Nat.add_assoc,
        add_mul_mod (UInt32.toNat_lt _), hsplit, toNat_mul_add hcarry, length_cons,
        mul_succ, Limbs.value, Limbs.value, add_comm (32 * _), pow_add]
      congr 1
      ring

theorem length_mulLoop {as pn bs : List UInt32} (hlength : as.length = pn.length)
    (hbs : pn.length ≤ bs.length) : (mulLoop as pn bs).length = pn.length := by
  induction as generalizing pn with
  | nil => rfl
  | cons a as ih =>
    have hrow := length_mulRowLoop a 0 hbs
    rw [mulLoop]
    rcases hpn : mulRowLoop a 0 pn bs with _ | ⟨p, pn'⟩
    · rw [hpn] at hrow
      exact hrow
    · rw [hpn, ← hlength] at hrow
      have hlength' : as.length = pn'.length := (succ.inj hrow).symm
      have hlonger : pn'.length ≤ bs.length := by
        rw [length_cons] at hlength
        omega
      dsimp only
      rw [length_cons, ih hlength' hlonger, ← hlength, ← hlength', length_cons]

theorem value_mulLoop {as pn bs : List UInt32} (hlength : as.length = pn.length)
    (hbs : pn.length ≤ bs.length) :
    Limbs.value (mulLoop as pn bs) =
      (Limbs.value pn + Limbs.value as * Limbs.value bs) % 2 ^ (32 * pn.length) := by
  induction as generalizing pn with
  | nil =>
    rw [mulLoop, Limbs.value, zero_mul, add_zero, mod_eq_of_lt (Limbs.value_lt pn)]
  | cons a as ih =>
    have hrow := length_mulRowLoop a 0 hbs
    have hvalue := value_mulRowLoop a (show (0 : UInt64).toNat < 2 ^ 32 by decide) hbs
    rw [UInt64.toNat_zero, zero_add] at hvalue
    rw [mulLoop]
    rcases hpn : mulRowLoop a 0 pn bs with _ | ⟨p, pn'⟩
    · rw [hpn, ← hlength] at hrow
      cases hrow
    · rw [hpn, ← hlength] at hrow
      have hlength' : as.length = pn'.length := (succ.inj hrow).symm
      have hlonger : pn'.length ≤ bs.length := by
        rw [length_cons] at hlength
        omega
      rw [hpn, ← hlength, length_cons, Limbs.value, mul_succ, add_comm (32 * _), pow_add] at hvalue
      dsimp only
      rw [Limbs.value, ih hlength' hlonger, add_mul_mod p.toNat_lt, hvalue, ← hlength', mod_add_mod,
        ← hlength, length_cons, mul_succ, add_comm (32 * _), pow_add, Limbs.value]
      congr 1
      ring

/-- `operator*=`, and `operator*`. -/
def mul (a b : BaseUint WIDTH) : BaseUint WIDTH :=
  ⟨mulLoop a.pn (zero WIDTH).pn b.pn, by
    rw [length_mulLoop, (zero WIDTH).length_pn]
    · rw [a.length_pn, (zero WIDTH).length_pn]
    · rw [b.length_pn, (zero WIDTH).length_pn]⟩

theorem value_mul (a b : BaseUint WIDTH) :
    (a.mul b).value = a.value * b.value % 2 ^ (32 * WIDTH) := by
  have hlength : a.pn.length = (zero WIDTH).pn.length := by
    rw [a.length_pn, (zero WIDTH).length_pn]
  have hbs : (zero WIDTH).pn.length ≤ b.pn.length := by rw [b.length_pn, (zero WIDTH).length_pn]
  have h := value_mulLoop hlength hbs
  rw [show Limbs.value (zero WIDTH).pn = 0 from value_zero, zero_add, (zero WIDTH).length_pn] at h
  exact h

/-! ### Shifts -/

/-- `pn[i] |= x`, where the source checks the index first. -/
def orAt (pn : List UInt32) (i : ℕ) (x : UInt32) : List UInt32 := pn.modify i (· ||| x)

/-- A round of `operator<<=`. -/
def shlStep (a : List UInt32) (k : ℕ) (shift : UInt32) (pn : List UInt32) (i : ℕ) : List UInt32 :=
  let x := a.getD i 0
  let pn :=
    if i + k + 1 < a.length ∧ shift ≠ 0 then orAt pn (i + k + 1) (x >>> (32 - shift)) else pn
  if i + k < a.length then orAt pn (i + k) (x <<< shift) else pn

/-- The loop of `operator<<=`. -/
def shlLoop (a : List UInt32) (shift : ℕ) : List UInt32 :=
  (List.range a.length).foldl (shlStep a (shift / 32) (UInt32.ofNat (shift % 32)))
    (List.replicate a.length 0)

/-- A round of `operator>>=`. -/
def shrStep (a : List UInt32) (k : ℕ) (shift : UInt32) (pn : List UInt32) (i : ℕ) : List UInt32 :=
  let x := a.getD i 0
  let pn := if k + 1 ≤ i ∧ shift ≠ 0 then orAt pn (i - k - 1) (x <<< (32 - shift)) else pn
  if k ≤ i then orAt pn (i - k) (x >>> shift) else pn

/-- The loop of `operator>>=`. -/
def shrLoop (a : List UInt32) (shift : ℕ) : List UInt32 :=
  (List.range a.length).foldl (shrStep a (shift / 32) (UInt32.ofNat (shift % 32)))
    (List.replicate a.length 0)

theorem length_orAt (pn : List UInt32) (i : ℕ) (x : UInt32) : (orAt pn i x).length = pn.length :=
  length_modify ..

theorem length_shlStep (a : List UInt32) (k : ℕ) (shift : UInt32) (pn : List UInt32) (i : ℕ) :
    (shlStep a k shift pn i).length = pn.length := by
  unfold shlStep
  dsimp only
  split_ifs <;> simp only [length_orAt]

theorem value_orAt (pn : List UInt32) (i : ℕ) (x : UInt32) :
    Limbs.value (if i < pn.length then orAt pn i x else pn) =
      Limbs.value pn ||| x.toNat <<< (32 * i) % 2 ^ (32 * pn.length) := by
  rw [shiftLeft_mod x.toNat_lt]
  split_ifs with hi
  · exact value_modify_or x hi
  · rw [or_zero]

theorem toNat_shift {s : ℕ} (hs : s < 32) (x : UInt32) :
    (x <<< UInt32.ofNat s).toNat = x.toNat <<< s % 2 ^ 32
      ∧ (x >>> UInt32.ofNat s).toNat = x.toNat >>> s := by
  have hofNat : (UInt32.ofNat s).toNat = s := by
    rw [UInt32.toNat_ofNat']
    exact mod_eq_of_lt (by omega)
  rw [UInt32.toNat_shiftLeft, UInt32.toNat_shiftRight, hofNat, mod_eq_of_lt hs]
  exact ⟨rfl, rfl⟩

theorem ofNat_ne_zero {s : ℕ} (hs : s < 32) : UInt32.ofNat s ≠ 0 ↔ s ≠ 0 := by
  rw [Ne, ← UInt32.toNat_inj, UInt32.toNat_ofNat', mod_eq_of_lt (by omega), UInt32.toNat_zero]

theorem sub_ofNat {s : ℕ} (hs : s < 32) : 32 - UInt32.ofNat s = UInt32.ofNat (32 - s) := by
  apply UInt32.toNat_inj.1
  rw [UInt32.toNat_sub, UInt32.toNat_ofNat', UInt32.toNat_ofNat']
  show (2 ^ 32 - s % 2 ^ 32 + 32) % 2 ^ 32 = (32 - s) % 2 ^ 32
  omega

/-- A round of `operator<<=` adds the bits of one limb, as far as they fit. -/
theorem value_shlStep {a pn : List UInt32} (hlength : pn.length = a.length) {shift i : ℕ}
    (hi : i < a.length) :
    Limbs.value (shlStep a (shift / 32) (UInt32.ofNat (shift % 32)) pn i) =
      Limbs.value pn ||| a[i].toNat <<< (32 * i + shift) % 2 ^ (32 * a.length) := by
  have hs : shift % 32 < 32 := mod_lt _ (by decide)
  obtain ⟨s, hsdef⟩ : ∃ s, shift % 32 = s := ⟨_, rfl⟩
  obtain ⟨k, hkdef⟩ : ∃ k, shift / 32 = k := ⟨_, rfl⟩
  have hx : a.getD i 0 = a[i] := by
    rw [getD_eq_getElem?_getD, getElem?_eq_getElem hi, Option.getD_some]
  rw [hsdef] at hs ⊢
  rw [hkdef, show 32 * i + shift = s + 32 * (i + k) by omega, shiftLeft_add,
    shiftLeft_eq_or hs.le, shiftLeft_or_distrib, ← shiftLeft_add, or_mod_two_pow,
    ← Nat.or_assoc, show 32 + 32 * (i + k) = 32 * (i + k + 1) by omega]
  unfold shlStep
  rw [hx]
  dsimp only
  obtain ⟨pn₁, hpn₁⟩ : ∃ pn₁, (if i + k + 1 < a.length ∧ UInt32.ofNat s ≠ 0 then
      orAt pn (i + k + 1) (a[i] >>> (32 - UInt32.ofNat s)) else pn) = pn₁ := ⟨_, rfl⟩
  have hhigh : Limbs.value pn₁ =
      Limbs.value pn ||| a[i].toNat >>> (32 - s) <<< (32 * (i + k + 1)) % 2 ^ (32 * a.length) := by
    rw [← hpn₁]
    by_cases hzero : s = 0
    · have hlost : a[i].toNat >>> (32 - s) = 0 := by
        rw [hzero, Nat.sub_zero, Nat.shiftRight_eq_div_pow, Nat.div_eq_of_lt a[i].toNat_lt]
      rw [if_neg (fun h => (ofNat_ne_zero hs).1 h.2 hzero), hlost, zero_shiftLeft, zero_mod,
        or_zero]
    · rw [sub_ofNat hs, ← (toNat_shift (show 32 - s < 32 by omega) a[i]).2, ← hlength, ← value_orAt]
      simp only [(ofNat_ne_zero hs).2 hzero, ne_eq, not_false_eq_true, and_true]
  have hlength₁ : pn₁.length = a.length := by
    rw [← hpn₁]
    split_ifs
    · rw [length_orAt, hlength]
    · exact hlength
  rw [hpn₁, ← hhigh, ← (toNat_shift hs a[i]).1, ← hlength₁, ← value_orAt]

theorem length_shrStep (a : List UInt32) (k : ℕ) (shift : UInt32) (pn : List UInt32) (i : ℕ) :
    (shrStep a k shift pn i).length = pn.length := by
  unfold shrStep
  dsimp only
  split_ifs <;> simp only [length_orAt]

theorem shiftLeft_shiftRight_eq_zero (x : UInt32) {i n : ℕ} (h : 32 * (i + 1) ≤ n) :
    x.toNat <<< (32 * i) >>> n = 0 := by
  have hlost : x.toNat <<< (32 * i) < 2 ^ n := by
    rw [shiftLeft_eq]
    calc x.toNat * 2 ^ (32 * i) < 2 ^ 32 * 2 ^ (32 * i) :=
          Nat.mul_lt_mul_of_pos_right x.toNat_lt (Nat.two_pow_pos _)
      _ = 2 ^ (32 * (i + 1)) := by rw [← pow_add]; congr 1; omega
      _ ≤ 2 ^ n := Nat.pow_le_pow_right (by decide) h
  rw [shiftRight_eq_div_pow, div_eq_of_lt hlost]

theorem shiftLeft_shiftRight_eq_or (x : UInt32) {s : ℕ} (hs : s < 32) (k d : ℕ) :
    x.toNat <<< (32 * (k + d + 1)) >>> (32 * k + s) =
      (x.toNat <<< (32 - s) % 2 ^ 32) <<< (32 * d) ||| x.toNat >>> s <<< (32 * (d + 1)) := by
  have hor := shiftLeft_eq_or (x := x.toNat) (sub_le 32 s)
  rw [Nat.sub_sub_self hs.le] at hor
  rw [show 32 * (k + d + 1) = 32 - s + 32 * d + s + 32 * k by omega, shiftLeft_add _ _ (32 * k),
    shiftRight_add, shiftLeft_shiftRight, shiftLeft_add _ _ s, shiftLeft_shiftRight, shiftLeft_add,
    show 32 * (d + 1) = 32 + 32 * d by omega, Nat.shiftLeft_add _ 32, Nat.or_comm,
    ← shiftLeft_or_distrib, ← hor]

/-- A round of `operator>>=` adds the bits of one limb that stay. -/
theorem value_shrStep {a pn : List UInt32} (hlength : pn.length = a.length) {shift i : ℕ}
    (hi : i < a.length) :
    Limbs.value (shrStep a (shift / 32) (UInt32.ofNat (shift % 32)) pn i) =
      Limbs.value pn ||| a[i].toNat <<< (32 * i) >>> shift := by
  have hs : shift % 32 < 32 := mod_lt _ (by decide)
  have hshift : shift = 32 * (shift / 32) + shift % 32 := (div_add_mod shift 32).symm
  obtain ⟨s, hsdef⟩ : ∃ s, shift % 32 = s := ⟨_, rfl⟩
  obtain ⟨k, hkdef⟩ : ∃ k, shift / 32 = k := ⟨_, rfl⟩
  have hx : a.getD i 0 = a[i] := by
    rw [getD_eq_getElem?_getD, getElem?_eq_getElem hi, Option.getD_some]
  rw [hsdef, hkdef] at hshift
  rw [hsdef] at hs ⊢
  rw [hkdef, hshift]
  unfold shrStep
  rw [hx]
  dsimp only
  rcases lt_trichotomy i k with hlt | rfl | hgt
  · rw [if_neg (show ¬ (k + 1 ≤ i ∧ UInt32.ofNat s ≠ 0) from fun h => absurd h.1 (by omega)),
      if_neg (by omega), shiftLeft_shiftRight_eq_zero _ (by omega), or_zero]
  · rw [if_neg (show ¬ (i + 1 ≤ i ∧ UInt32.ofNat s ≠ 0) from fun h => absurd h.1 (by omega)),
      if_pos (Nat.le_refl i), Nat.sub_self, orAt, value_modify_or _ (by omega),
      (toNat_shift hs a[i]).2, mul_zero, shiftLeft_zero, shiftRight_add, shiftLeft_shiftRight]
  · obtain ⟨d, rfl⟩ : ∃ d, i = k + d + 1 := ⟨i - k - 1, by omega⟩
    obtain ⟨x, hxdef⟩ : ∃ x, a[k + d + 1] = x := ⟨_, rfl⟩
    obtain ⟨pn₁, hpn₁⟩ : ∃ pn₁, (if k + 1 ≤ k + d + 1 ∧ UInt32.ofNat s ≠ 0 then
        orAt pn d (x <<< (32 - UInt32.ofNat s)) else pn) = pn₁ := ⟨_, rfl⟩
    have hlow : Limbs.value pn₁ =
        Limbs.value pn ||| (x.toNat <<< (32 - s) % 2 ^ 32) <<< (32 * d) := by
      rw [← hpn₁]
      by_cases hzero : s = 0
      · rw [if_neg (fun h => (ofNat_ne_zero hs).1 h.2 hzero), hzero, Nat.sub_zero,
          shiftLeft_eq _ 32, mul_mod_left, zero_shiftLeft, or_zero]
      · rw [if_pos ⟨by omega, (ofNat_ne_zero hs).2 hzero⟩, sub_ofNat hs, orAt,
          value_modify_or _ (by omega), (toNat_shift (show 32 - s < 32 by omega) x).1]
    have hlength₁ : pn₁.length = a.length := by
      rw [← hpn₁]
      split_ifs
      · rw [length_orAt, hlength]
      · exact hlength
    rw [hxdef, shiftLeft_shiftRight_eq_or x hs, show k + d + 1 - k - 1 = d by omega, show k + d + 1 - k = d + 1 by omega,
      if_pos (show k ≤ k + d + 1 by omega), hpn₁, orAt, value_modify_or _ (by omega),
      (toNat_shift hs _).2, hlow, Nat.or_assoc]

/-- `operator<<=` moves the limbs up. -/
theorem value_shlLoop (a : List UInt32) (shift : ℕ) :
    (shlLoop a shift).length = a.length ∧
      Limbs.value (shlLoop a shift) = Limbs.value a * 2 ^ shift % 2 ^ (32 * a.length) := by
  have hloop : ∀ n ≤ a.length, ∀ pn, pn = (range n).foldl
      (shlStep a (shift / 32) (UInt32.ofNat (shift % 32))) (replicate a.length 0) →
      pn.length = a.length ∧
        Limbs.value pn = Limbs.value (a.take n) <<< shift % 2 ^ (32 * a.length) := by
    intro n hn
    induction n with
    | zero =>
      rintro _ rfl
      refine ⟨length_replicate, ?_⟩
      rw [range_zero, foldl_nil, value_replicate_zero, take_zero, Limbs.value,
        zero_shiftLeft, zero_mod]
    | succ n ih =>
      rintro _ rfl
      obtain ⟨hlength, hvalue⟩ := ih (le_of_succ_le hn) _ rfl
      rw [range_succ, foldl_append, foldl_cons, foldl_nil]
      refine ⟨(length_shlStep ..).trans hlength, ?_⟩
      rw [value_shlStep hlength hn, hvalue, value_take_succ hn, shiftLeft_or_distrib,
        ← shiftLeft_add, or_mod_two_pow]
  obtain ⟨hlength, hvalue⟩ := hloop a.length (le_refl _) _ rfl
  refine ⟨hlength, hvalue.trans ?_⟩
  rw [take_length, shiftLeft_eq]

/-- `operator>>=` moves the limbs down. -/
theorem value_shrLoop (a : List UInt32) (shift : ℕ) :
    (shrLoop a shift).length = a.length ∧
      Limbs.value (shrLoop a shift) = Limbs.value a / 2 ^ shift := by
  have hloop : ∀ n ≤ a.length, ∀ pn, pn = (range n).foldl
      (shrStep a (shift / 32) (UInt32.ofNat (shift % 32))) (replicate a.length 0) →
      pn.length = a.length ∧ Limbs.value pn = Limbs.value (a.take n) >>> shift := by
    intro n hn
    induction n with
    | zero =>
      rintro _ rfl
      refine ⟨length_replicate, ?_⟩
      rw [range_zero, foldl_nil, value_replicate_zero, take_zero, Limbs.value, zero_shiftRight]
    | succ n ih =>
      rintro _ rfl
      obtain ⟨hlength, hvalue⟩ := ih (le_of_succ_le hn) _ rfl
      rw [range_succ, foldl_append, foldl_cons, foldl_nil]
      refine ⟨(length_shrStep ..).trans hlength, ?_⟩
      rw [value_shrStep hlength hn, hvalue, value_take_succ hn, shiftRight_or_distrib]
  obtain ⟨hlength, hvalue⟩ := hloop a.length (le_refl _) _ rfl
  refine ⟨hlength, hvalue.trans ?_⟩
  rw [take_length, shiftRight_eq_div_pow]

/-- `operator<<=`, and `operator<<`. -/
def shl (a : BaseUint WIDTH) (shift : ℕ) : BaseUint WIDTH :=
  ⟨shlLoop a.pn shift, (value_shlLoop a.pn shift).1.trans a.length_pn⟩

theorem value_shl (a : BaseUint WIDTH) (shift : ℕ) :
    (a.shl shift).value = a.value * 2 ^ shift % 2 ^ (32 * WIDTH) := by
  have h := (value_shlLoop a.pn shift).2
  rw [a.length_pn] at h
  exact h

/-- `operator>>=`, and `operator>>`. -/
def shr (a : BaseUint WIDTH) (shift : ℕ) : BaseUint WIDTH :=
  ⟨shrLoop a.pn shift, (value_shrLoop a.pn shift).1.trans a.length_pn⟩

theorem value_shr (a : BaseUint WIDTH) (shift : ℕ) : (a.shr shift).value = a.value / 2 ^ shift :=
  (value_shrLoop a.pn shift).2

/-! ### Comparisons -/

/-- The loop of `CompareTo`, from the highest limbs down. -/
def compareToLoop : List UInt32 → List UInt32 → ℤ
  | p :: pn, b :: bs => if p < b then -1 else if p > b then 1 else compareToLoop pn bs
  | _, _ => 0

def compareTo (a b : BaseUint WIDTH) : ℤ := compareToLoop a.pn.reverse b.pn.reverse

theorem compareToLoop_nonneg (h : pn.length = bs.length) :
    0 ≤ compareToLoop pn bs ↔ Limbs.value bs.reverse ≤ Limbs.value pn.reverse := by
  induction pn generalizing bs with
  | nil =>
    obtain rfl := length_eq_zero_iff.1 h.symm
    simp [compareToLoop]
  | cons p pn ih =>
    cases bs with
    | nil => cases h
    | cons b bs =>
      have hlength : pn.length = bs.length := succ.inj h
      have hpn := Limbs.value_lt pn.reverse
      have hbs := Limbs.value_lt bs.reverse
      rw [length_reverse] at hpn
      rw [length_reverse, ← hlength] at hbs
      rw [compareToLoop, reverse_cons, reverse_cons, value_concat, value_concat,
        length_reverse, length_reverse, ← hlength]
      split_ifs with hlt hgt
      · have hmul := mul_le_mul_left (2 ^ (32 * pn.length)) (UInt32.lt_iff_toNat_lt.1 hlt)
        rw [mul_succ] at hmul
        omega
      · have hmul := mul_le_mul_left (2 ^ (32 * pn.length)) (UInt32.lt_iff_toNat_lt.1 hgt)
        rw [mul_succ] at hmul
        omega
      · have heq : p.toNat = b.toNat := by
          rw [gt_iff_lt] at hgt
          rw [UInt32.lt_iff_toNat_lt] at hlt hgt
          omega
        rw [ih hlength, heq, add_le_add_iff_right]

/-- `operator>=`. -/
def ge (a b : BaseUint WIDTH) : Bool := 0 ≤ a.compareTo b

theorem ge_iff : a.ge b = true ↔ b.value ≤ a.value := by
  have hlength : a.pn.reverse.length = b.pn.reverse.length := by
    rw [length_reverse, length_reverse, a.length_pn, b.length_pn]
  rw [ge, decide_eq_true_iff, compareTo, compareToLoop_nonneg hlength, reverse_reverse,
    reverse_reverse]
  rfl

theorem compareToLoop_swap (pn bs : List UInt32) : compareToLoop pn bs = -compareToLoop bs pn := by
  induction pn generalizing bs with
  | nil => cases bs <;> rfl
  | cons p pn ih =>
    cases bs with
    | nil => rfl
    | cons b bs =>
      rw [compareToLoop, compareToLoop, ih bs]
      by_cases hlt : p < b
      · rw [if_pos hlt, if_neg (UInt32.lt_asymm hlt), if_pos hlt]
      · by_cases hgt : b < p
        · rw [if_neg hlt, if_pos hgt, if_pos hgt]
          rfl
        · rw [if_neg hlt, if_neg hgt, if_neg hgt, if_neg hlt]

/-- `operator>`. -/
def gt (a b : BaseUint WIDTH) : Bool := 0 < a.compareTo b

theorem gt_iff : a.gt b = true ↔ b.value < a.value := by
  have hswap : a.compareTo b = -b.compareTo a := compareToLoop_swap _ _
  have hge : 0 ≤ b.compareTo a ↔ a.value ≤ b.value := by
    rw [← ge_iff, ge, decide_eq_true_iff]
  rw [gt, decide_eq_true_iff, hswap]
  omega

/-- `operator<`. -/
def lt (a b : BaseUint WIDTH) : Bool := a.compareTo b < 0

theorem lt_iff : a.lt b = true ↔ a.value < b.value := by
  have hge : 0 ≤ a.compareTo b ↔ b.value ≤ a.value := by
    rw [← ge_iff, ge, decide_eq_true_iff]
  rw [lt, decide_eq_true_iff]
  omega

/-! ### Bits -/

/-- The inner loop of `bits`: the position above the highest bit of a limb that is not zero. -/
def limbBits (x : UInt32) : (bits : ℕ) → ℕ
  | 0 => 1
  | bits + 1 => if x &&& (1 <<< UInt32.ofNat (bits + 1)) ≠ 0 then bits + 2 else limbBits x bits

/-- The loop of `bits` over the limbs, from the highest down. -/
def bitsLoop : List UInt32 → ℕ
  | [] => 0
  | p :: pn => if p ≠ 0 then 32 * pn.length + limbBits p 31 else bitsLoop pn

def bits (a : BaseUint WIDTH) : ℕ := bitsLoop a.pn.reverse

theorem toNat_one_shiftLeft {k : ℕ} (hk : k < 32) :
    (1 <<< UInt32.ofNat k : UInt32).toNat = 2 ^ k := by
  have hpow : 2 ^ k < 2 ^ 32 := Nat.pow_lt_pow_right (by decide) hk
  rw [(toNat_shift hk 1).1, UInt32.toNat_one, one_shiftLeft, mod_eq_of_lt hpow]

theorem and_shiftLeft_ne_zero {x : UInt32} {k : ℕ} (hk : k < 32) (hlt : x.toNat < 2 ^ (k + 1)) :
    x &&& (1 <<< UInt32.ofNat k) ≠ 0 ↔ 2 ^ k ≤ x.toNat := by
  rw [Ne, ← UInt32.toNat_inj, UInt32.toNat_and, toNat_one_shiftLeft hk, and_two_pow,
    UInt32.toNat_zero, testBit_eq_decide_div_mod_eq]
  rw [pow_succ] at hlt
  by_cases hle : 2 ^ k ≤ x.toNat
  · have hdiv : x.toNat / 2 ^ k = 1 := Nat.div_eq_of_lt_le (by omega) (by omega)
    simp [hdiv, hle]
  · simp [div_eq_of_lt (not_le.1 hle), hle]

theorem limbBits_eq {x : UInt32} (hx : x ≠ 0) {bits : ℕ} (hbits : bits < 32)
    (hlt : x.toNat < 2 ^ (bits + 1)) : limbBits x bits = x.toNat.size := by
  induction bits with
  | zero =>
    have hne : x.toNat ≠ 0 := fun h => hx (UInt32.toNat_inj.1 h)
    rw [limbBits, show x.toNat = 1 by omega, size_one]
  | succ bits ih =>
    rw [limbBits]
    by_cases hle : 2 ^ (bits + 1) ≤ x.toNat
    · rw [if_pos ((and_shiftLeft_ne_zero hbits hlt).2 hle)]
      have := size_le.2 hlt
      have := lt_size.2 hle
      omega
    · rw [if_neg (fun h => hle ((and_shiftLeft_ne_zero hbits hlt).1 h)),
        ih (by omega) (not_le.1 hle)]

theorem bitsLoop_eq (pn : List UInt32) : bitsLoop pn = (Limbs.value pn.reverse).size := by
  induction pn with
  | nil => rfl
  | cons p pn ih =>
    rw [bitsLoop, reverse_cons, value_concat, length_reverse]
    split_ifs with hp
    · have hne : p.toNat ≠ 0 := fun h => hp (UInt32.toNat_inj.1 h)
      have hlt := Limbs.value_lt pn.reverse
      rw [length_reverse] at hlt
      rw [size_add_mul hlt hne, limbBits_eq hp (by decide) p.toNat_lt]
    · rw [not_not.1 hp, UInt32.toNat_zero, mul_zero, add_zero, ih]

/-- `bits` is the length of the number. -/
theorem bits_eq (a : BaseUint WIDTH) : a.bits = a.value.size := by
  rw [bits, bitsLoop_eq, reverse_reverse]
  rfl

/-! ### Quotients -/

/-- The loop of `operator/=`; `rounds` is `shift + 1`. -/
def divLoop : (rounds : ℕ) → (num div quotient : BaseUint WIDTH) → BaseUint WIDTH
  | 0, _, _, quotient => quotient
  | shift + 1, num, div, quotient =>
    if num.ge div then
      divLoop shift (num.sub div) (div.shr 1)
        ⟨orAt quotient.pn (shift / 32) (1 <<< UInt32.ofNat (shift % 32)),
          (length_orAt ..).trans quotient.length_pn⟩
    else divLoop shift num (div.shr 1) quotient

/-- `operator/=`, and `operator/`. -/
def div (a b : BaseUint WIDTH) : Except String (BaseUint WIDTH) :=
  let num_bits := a.bits
  let div_bits := b.bits
  if div_bits = 0 then .error "Division by zero"
  else if div_bits > num_bits then .ok (zero WIDTH)
  else
    let shift := num_bits - div_bits
    .ok (divLoop (shift + 1) a (b.shl shift) (zero WIDTH))

theorem value_setBit {pn : List UInt32} {shift : ℕ} (hshift : shift < 32 * pn.length)
    (hclear : 2 ^ (shift + 1) ∣ Limbs.value pn) :
    Limbs.value (orAt pn (shift / 32) (1 <<< UInt32.ofNat (shift % 32))) =
      Limbs.value pn + 2 ^ shift := by
  obtain ⟨c, hc⟩ := hclear
  have hlt : 2 ^ shift < 2 ^ (shift + 1) := Nat.pow_lt_pow_right (by decide) (Nat.lt_succ_self _)
  rw [orAt, value_modify_or _ (by omega), toNat_one_shiftLeft (mod_lt _ (by decide)),
    shiftLeft_eq, ← pow_add, mod_add_div, hc, two_pow_add_eq_or_of_lt hlt]

/-- What is left of the dividend is below two times the shifted divisor, and the bits of the
quotient that are to come are clear. -/
theorem value_divLoop {rounds d : ℕ} {num div quotient : BaseUint WIDTH}
    (hrounds : rounds ≤ 32 * WIDTH) (hd : 0 < d)
    (hdiv : 0 < rounds → 2 * div.value = d * 2 ^ rounds) (hnum : num.value < d * 2 ^ rounds)
    (hclear : 2 ^ rounds ∣ quotient.value) :
    (divLoop rounds num div quotient).value = quotient.value + num.value / d := by
  induction rounds generalizing num div quotient with
  | zero =>
    rw [pow_zero, mul_one] at hnum
    rw [divLoop, div_eq_of_lt hnum, add_zero]
  | succ shift ih =>
    have hvalue : div.value = d * 2 ^ shift := by
      have := hdiv (succ_pos _)
      rw [pow_succ, ← mul_assoc] at this
      omega
    have hnext : 0 < shift → 2 * (div.shr 1).value = d * 2 ^ shift := by
      intro hpos
      obtain ⟨t, rfl⟩ := exists_eq_succ_of_ne_zero hpos.ne'
      rw [value_shr, hvalue, pow_one, pow_succ, ← Nat.mul_assoc, Nat.mul_div_cancel _ Nat.two_pos,
        mul_comm]
    rw [pow_succ, ← mul_assoc] at hnum
    rw [divLoop]
    split_ifs with hge
    · have hle := ge_iff.1 hge
      have hfits : shift < 32 * quotient.pn.length := by
        rw [quotient.length_pn]
        omega
      have hbit := value_setBit hfits hclear
      have hsub := value_sub hle
      rw [ih (by omega) hnext (by omega)]
      · rw [show BaseUint.value ⟨orAt quotient.pn _ _, _⟩ = _ from hbit, hsub, add_assoc]
        congr 1
        have hsplit : num.value = num.value - div.value + d * 2 ^ shift := by omega
        conv_rhs => rw [hsplit, add_mul_div_left _ _ hd, add_comm]
      · rw [show BaseUint.value ⟨orAt quotient.pn _ _, _⟩ = _ from hbit]
        exact Nat.dvd_add ((pow_dvd_pow 2 (Nat.le_succ shift)).trans hclear) (dvd_refl _)
    · have hlt : num.value < div.value := not_le.1 (fun hle => hge (ge_iff.2 hle))
      exact ih (by omega) hnext (by omega) ((pow_dvd_pow 2 (le_succ shift)).trans hclear)

/-- `operator/=` throws where the divisor is zero, and is the quotient elsewhere. -/
theorem value_div (a b : BaseUint WIDTH) :
    (b.value = 0 → a.div b = .error "Division by zero") ∧
      (0 < b.value → ∃ q, a.div b = .ok q ∧ q.value = a.value / b.value) := by
  unfold div
  dsimp only
  rw [bits_eq, bits_eq]
  constructor
  · intro hzero
    rw [hzero, size_zero, if_pos rfl]
  · intro hpos
    have hsize : 0 < b.value.size := size_pos.2 hpos
    rw [if_neg hsize.ne']
    split_ifs with hlt
    · refine ⟨_, rfl, ?_⟩
      rw [value_zero, div_eq_of_lt]
      exact Nat.lt_of_not_le fun hle => absurd (Nat.size_le_size hle) (by omega)
    · obtain ⟨shift, hshift⟩ : ∃ shift, a.value.size - b.value.size = shift := ⟨_, rfl⟩
      have ha := size_le.2 a.value_lt
      have hb : 2 ^ (b.value.size - 1) ≤ b.value := lt_size.1 (by omega)
      have hfits : b.value * 2 ^ shift < 2 ^ (32 * WIDTH) := by
        calc b.value * 2 ^ shift < 2 ^ b.value.size * 2 ^ shift :=
              Nat.mul_lt_mul_of_pos_right (Nat.lt_size_self _) (Nat.two_pow_pos _)
          _ = 2 ^ (b.value.size + shift) := (pow_add ..).symm
          _ ≤ 2 ^ (32 * WIDTH) := Nat.pow_le_pow_right (by decide) (by omega)
      have haligned : 2 * (b.shl shift).value = b.value * 2 ^ (shift + 1) := by
        rw [value_shl, mod_eq_of_lt hfits, pow_succ]
        ring
      have hnum : a.value < b.value * 2 ^ (shift + 1) := by
        calc a.value < 2 ^ a.value.size := lt_size_self _
          _ = 2 ^ (b.value.size - 1) * 2 ^ (shift + 1) := by rw [← pow_add]; congr 1; omega
          _ ≤ b.value * 2 ^ (shift + 1) := mul_le_mul_right _ hb
      have hclear : 2 ^ (shift + 1) ∣ (zero WIDTH).value := by
        rw [value_zero]
        exact dvd_zero _
      rw [hshift]
      refine ⟨_, rfl, ?_⟩
      rw [value_divLoop (by omega) hpos (fun _ => haligned) hnum hclear, value_zero, zero_add]

end BaseUint
end Komodo
