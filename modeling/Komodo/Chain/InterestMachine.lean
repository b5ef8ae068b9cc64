/-
# Accrued interest in machine integers

`_komodo_interestnew`, `komodo_interestnew` and `komodo_interest` of
`src/src/komodo_interest.cpp` on the types of the source: an `int32_t` height, a
`uint64_t` value and `uint32_t` times.

A division by zero is `none`. What a product is, is a parameter: `wrapping` is
the arithmetic of the source, and with `checked` a product above 64 bits is
`none` too. On every input `komodo_interest` divides by no zero, and it is what
`Chain.Interest` computes over `ℕ` (`komodoInterest_wrapping`).

From height 1000000 on both entry points come down to `_komodo_interestnew`. Only
for a tip before the activation `komodo_interest` does not, and its products
overflow there (`BeforeActivation`).
-/

import Komodo.Chain.Interest

namespace Komodo
namespace Interest

open Option

/-- A product of two `uint64_t`, `none` where the computation is to stop. -/
abbrev Product := UInt64 → UInt64 → Option UInt64

/-- The product of the source, modulo `2 ^ 64`. -/
def wrapping : Product := fun a b => some (a * b)

/-- A product that has to fit in 64 bits. -/
def checked : Product := fun a b => if a.toNat * b.toNat < 2 ^ 64 then some (a * b) else none

/-- A quotient, `none` for a division by zero. -/
def div (a b : UInt64) : Option UInt64 := if b = 0 then none else some (a / b)

/-- Conversion of an `int32_t` to `uint64_t`. -/
def uint64 (n : Int32) : UInt64 := n.toInt64.toUInt64

def COIN : UInt64 := 100000000

def LOCKTIME_THRESHOLD : UInt32 := 500000000

def KOMODO_MAXMEMPOOLTIME : Int32 := 3600

def KOMODO_ENDOFERA : Int32 := 7777777

def KOMODO_INTEREST : UInt64 := 5000000

def nS7HardforkHeight : Int32 := 3484958

def KMD_DORMANCY_ACTIVATION_HEIGHT : Int32 := 4771595

/-- `activation`: the 5th of April 2017. -/
def activation : UInt32 := 1491350400

/-- `(tiptime - nLockTime) / 60`, as an `int32_t`. -/
def elapsedMinutes (nLockTime tiptime : UInt32) : Int32 := ((tiptime - nLockTime) / 60).toInt32

/-- The minutes, at most a year of them. -/
def interestMinutes (nLockTime tiptime : UInt32) : Int32 :=
  let minutes := elapsedMinutes nLockTime tiptime
  if 365 * 24 * 60 < minutes then 365 * 24 * 60 else minutes

section Source

variable (mul : Product) (txheight : Int32) (nValue : UInt64) (nLockTime tiptime : UInt32)

/-- `_komodo_interestnew`. -/
def komodoInterestnewRaw : Option UInt64 :=
  if LOCKTIME_THRESHOLD ≤ nLockTime ∧ nLockTime < tiptime ∧
      KOMODO_MAXMEMPOOLTIME / 60 ≤ elapsedMinutes nLockTime tiptime then do
    let minutes := interestMinutes nLockTime tiptime
    let minutes := if 1000000 ≤ txheight ∧ 31 * 24 * 60 < minutes then 31 * 24 * 60 else minutes
    let minutes := minutes - (KOMODO_MAXMEMPOOLTIME / 60 - 1)
    let res ← mul (nValue / 10512000) (uint64 minutes)
    if nS7HardforkHeight ≤ txheight ∧ txheight < KMD_DORMANCY_ACTIVATION_HEIGHT then
      return res / 500
    else return res
  else return 0

def komodoInterestnew : Option UInt64 :=
  if txheight < KOMODO_ENDOFERA ∧ LOCKTIME_THRESHOLD ≤ nLockTime ∧ tiptime ≠ 0 ∧
      nLockTime < tiptime ∧ 10 * COIN ≤ nValue then
    komodoInterestnewRaw mul txheight nValue nLockTime tiptime
  else return 0

/-- The outputs with the full interest although they hold more than 25000 coins. -/
def interestExceptions : List (Int32 × UInt64) :=
  [(116607, 2502721100000), (126891, 2879650000000), (129510, 3000000000000),
    (141549, 3500000000000), (154473, 3983399350000), (154736, 3983406748175),
    (155013, 3983414006565), (155492, 3983427592291), (155613, 9997409999999797),
    (157927, 9997410667451072), (155613, 2590000000000), (155949, 4000000000000)]

def komodoInterest (isKMD : Bool) : Option UInt64 :=
  if !isKMD then return 0
  else if KOMODO_ENDOFERA ≤ txheight then return 0
  else if LOCKTIME_THRESHOLD ≤ nLockTime ∧ tiptime ≠ 0 ∧ nLockTime < tiptime ∧
      10 * COIN ≤ nValue ∧ 60 ≤ elapsedMinutes nLockTime tiptime then do
    let minutes := interestMinutes nLockTime tiptime
    let minutes := if 250000 ≤ txheight then minutes - 59 else minutes
    let denominator ← div (365 * 24 * 60) (uint64 minutes)
    let denominator := if denominator = 0 then 1 else denominator
    if 25000 * COIN < nValue then
      if txheight ≤ 155949 ∧ (txheight, nValue) ∈ interestExceptions then
        if txheight < 1000000 then
          let numerator ← mul nValue KOMODO_INTEREST
          return (← div numerator denominator) / COIN
        else komodoInterestnewRaw mul txheight nValue nLockTime tiptime
      else
        let numerator := nValue / 20
        if txheight < 250000 then div numerator denominator
        else if txheight < 1000000 then return (← mul numerator (uint64 minutes)) / (365 * 24 * 60)
        else komodoInterestnewRaw mul txheight nValue nLockTime tiptime
    else
      let numerator ← mul nValue KOMODO_INTEREST
      if txheight < 250000 ∨ tiptime < activation then
        -- below height 250000 the product is not evaluated
        let small ← if txheight < 250000 then some true
          else (mul numerator (uint64 minutes)).map fun product => decide (product < 365 * 24 * 60)
        if small then return (← div numerator denominator) / COIN
        else return (← mul numerator (uint64 minutes)) / (365 * 24 * 60) / COIN
      else if txheight < 1000000 then
        return (← mul (nValue / 20) (uint64 minutes)) / (365 * 24 * 60)
      else komodoInterestnewRaw mul txheight nValue nLockTime tiptime
  else return 0

end Source

/-! ### Minutes -/

theorem toInt_toInt32 (n : UInt32) : n.toInt32.toInt = (n.toNat : ℤ).bmod (2 ^ 32) :=
  BitVec.toInt_eq_toNat_bmod n.toBitVec

theorem toNat_uint64 {n : Int32} (h : 0 ≤ n.toInt) : (uint64 n).toNat = n.toInt.toNat := by
  unfold uint64
  rw [Int64.toNat_toUInt64_of_le, Int64.toNatClampNeg, Int32.toInt_toInt64]
  rw [Int64.le_iff_toInt_le, Int32.toInt_toInt64]
  exact h

variable {nLockTime tiptime : UInt32}

theorem toInt_elapsedMinutes (h : nLockTime < tiptime) :
    (elapsedMinutes nLockTime tiptime).toInt = ((tiptime.toNat - nLockTime.toNat) / 60 : ℕ) := by
  have hsub : (tiptime - nLockTime).toNat = tiptime.toNat - nLockTime.toNat :=
    UInt32.toNat_sub_of_le _ _ (UInt32.le_of_lt h)
  have hbound := tiptime.toNat_lt
  rw [elapsedMinutes, toInt_toInt32, UInt32.toNat_div, hsub, show (60 : UInt32).toNat = 60 from rfl]
  exact Int.bmod_eq_of_le (by omega) (by omega)

theorem toInt_interestMinutes (h : nLockTime < tiptime) :
    (interestMinutes nLockTime tiptime).toInt =
      (Fees.interestMinutes nLockTime.toNat tiptime.toNat : ℕ) := by
  have helapsed := toInt_elapsedMinutes h
  have hyear : (365 * 24 * 60 : Int32).toInt = 525600 := by decide
  simp only [interestMinutes, Fees.interestMinutes, Int32.lt_iff_toInt_lt, hyear, helapsed]
  split
  · rw [hyear]
    omega
  · rw [helapsed]
    omega

/-- Minutes less a constant, as a `uint64_t`. -/
theorem toNat_uint64_sub {minutes c : Int32} (hc : 0 ≤ c.toInt) (h : c.toInt ≤ minutes.toInt) :
    (uint64 (minutes - c)).toNat = minutes.toInt.toNat - c.toInt.toNat := by
  have hsub : (minutes - c).toInt = minutes.toInt - c.toInt := by
    have := minutes.toInt_lt
    rw [Int32.toInt_sub]
    exact Int.bmod_eq_of_le (by omega) (by omega)
  rw [toNat_uint64 (by omega), hsub]
  omega

/-! ### The comparisons -/

theorem height_lt {h b : Int32} {n : ℕ} (hb : b.toInt = n) (hn : 0 < n) :
    h < b ↔ h.toInt.toNat < n := by
  rw [Int32.lt_iff_toInt_lt, hb]
  omega

theorem le_height {h b : Int32} {n : ℕ} (hb : b.toInt = n) (hn : 0 < n) :
    b ≤ h ↔ n ≤ h.toInt.toNat := by
  rw [Int32.le_iff_toInt_le, hb]
  omega

theorem height_le {h b : Int32} {n : ℕ} (hb : b.toInt = n) :
    h ≤ b ↔ h.toInt.toNat ≤ n := by
  rw [Int32.le_iff_toInt_le, hb]
  omega

theorem mem_interestExceptions (h : Int32) (v : UInt64) :
    (h, v) ∈ interestExceptions ↔ (h.toInt.toNat, v.toNat) ∈ Fees.interestExceptions := by
  have hinj : Function.Injective (fun p : Int32 × UInt64 => (p.1.toInt, p.2.toNat)) := by
    rintro ⟨a, b⟩ ⟨c, d⟩ h
    simp only [Prod.mk.injEq, Int32.toInt_inj, UInt64.toNat_inj] at h
    rw [h.1, h.2]
  have hmap : interestExceptions.map (fun p => (p.1.toInt, p.2.toNat)) =
      Fees.interestExceptions.map (fun p => ((p.1 : ℤ), p.2)) := by decide
  have hpos : ∀ p ∈ Fees.interestExceptions, 0 < p.1 := by decide
  rw [← List.mem_map_of_injective hinj, hmap]
  simp only [List.mem_map, Prod.mk.injEq, Prod.exists]
  constructor
  · rintro ⟨a, b, hab, h1, h2⟩
    rw [← h1, ← h2]
    exact hab
  · intro hmem
    have := hpos _ hmem
    exact ⟨_, _, hmem, by omega, rfl⟩

/-! ### The interest over `ℕ` -/

variable {txheight : Int32}

/-- The minutes that `_komodo_interestnew` pays for. -/
theorem toNat_paidMinutes {minutes : Int32} (h : 60 ≤ minutes.toInt) :
    (uint64 ((if 1000000 ≤ txheight ∧ 31 * 24 * 60 < minutes then 31 * 24 * 60 else minutes) -
        (KOMODO_MAXMEMPOOLTIME / 60 - 1))).toNat =
      (if 1000000 ≤ txheight.toInt.toNat then min minutes.toInt.toNat (31 * 24 * 60)
        else minutes.toInt.toNat) - (Fees.KOMODO_MAXMEMPOOLTIME / 60 - 1) := by
  have hmonth : (31 * 24 * 60 : Int32).toInt = 44640 := by decide
  have hpool : (KOMODO_MAXMEMPOOLTIME / 60 - 1).toInt = 59 := by decide
  have hheight : 1000000 ≤ txheight ↔ 1000000 ≤ txheight.toInt.toNat :=
    le_height (by decide) (by decide)
  simp only [hheight, Int32.lt_iff_toInt_lt, hmonth]
  rw [toNat_uint64_sub (by omega), hpool, show Fees.KOMODO_MAXMEMPOOLTIME / 60 - 1 = 59 from rfl]
  · split_ifs <;> omega
  · split <;> omega

theorem komodoInterestnewRaw_wrapping (txheight : Int32) (nValue : UInt64)
    (nLockTime tiptime : UInt32) :
    (komodoInterestnewRaw wrapping txheight nValue nLockTime tiptime).map UInt64.toNat =
      some (Fees.komodoInterestnew txheight.toInt.toNat nValue.toNat nLockTime.toNat
        tiptime.toNat) := by
  have hmempool : (KOMODO_MAXMEMPOOLTIME / 60).toInt = 60 := by decide
  by_cases heligible : LOCKTIME_THRESHOLD ≤ nLockTime ∧ nLockTime < tiptime ∧
      KOMODO_MAXMEMPOOLTIME / 60 ≤ elapsedMinutes nLockTime tiptime
  · obtain ⟨hlock, hlt, hhour⟩ := id heligible
    have hminutes := toInt_interestMinutes hlt
    rw [Int32.le_iff_toInt_le, hmempool, toInt_elapsedMinutes hlt] at hhour
    have hpaid := @toNat_paidMinutes txheight _
      (show 60 ≤ (interestMinutes nLockTime tiptime).toInt by
        rw [hminutes, Fees.interestMinutes]
        omega)
    have heligibleNat : Fees.LOCKTIME_THRESHOLD ≤ nLockTime.toNat ∧
        nLockTime.toNat < tiptime.toNat ∧
        Fees.KOMODO_MAXMEMPOOLTIME / 60 ≤ (tiptime.toNat - nLockTime.toNat) / 60 :=
      ⟨hlock, hlt, by exact_mod_cast hhour⟩
    rw [hminutes, Int.toNat_natCast] at hpaid
    unfold komodoInterestnewRaw Fees.komodoInterestnew
    rw [if_pos heligible, if_pos heligibleNat]
    have hS7 : nS7HardforkHeight ≤ txheight ↔ Fees.nS7HardforkHeight ≤ txheight.toInt.toNat :=
      le_height (by decide) (by decide)
    have hdormancy : txheight < KMD_DORMANCY_ACTIVATION_HEIGHT ↔
        txheight.toInt.toNat < Fees.KMD_DORMANCY_ACTIVATION_HEIGHT :=
      height_lt (by decide) (by decide)
    simp only [wrapping, bind_eq_bind, bind_some, hS7, hdormancy]
    split
    · simp only [pure, map_some, UInt64.toNat_div, UInt64.toNat_mul, hpaid, Fees.uint64]
      rfl
    · simp only [pure, map_some, UInt64.toNat_div, UInt64.toNat_mul, hpaid, Fees.uint64]
      rfl
  · have heligibleNat : ¬ (Fees.LOCKTIME_THRESHOLD ≤ nLockTime.toNat ∧
        nLockTime.toNat < tiptime.toNat ∧
        Fees.KOMODO_MAXMEMPOOLTIME / 60 ≤ (tiptime.toNat - nLockTime.toNat) / 60) := by
      rintro ⟨hlock, hlt, hhour⟩
      refine heligible ⟨hlock, hlt, ?_⟩
      rw [Int32.le_iff_toInt_le, hmempool, toInt_elapsedMinutes hlt]
      exact_mod_cast hhour
    unfold komodoInterestnewRaw Fees.komodoInterestnew
    rw [if_neg heligible, if_neg heligibleNat]
    rfl

theorem hour_le_elapsedMinutes (h : nLockTime < tiptime) :
    60 ≤ elapsedMinutes nLockTime tiptime ↔ 60 ≤ (tiptime.toNat - nLockTime.toNat) / 60 := by
  have hhour : (60 : Int32).toInt = 60 := by decide
  rw [Int32.le_iff_toInt_le, hhour, toInt_elapsedMinutes h]
  omega

theorem eligible_iff (nValue : UInt64) (nLockTime tiptime : UInt32) :
    (LOCKTIME_THRESHOLD ≤ nLockTime ∧ tiptime ≠ 0 ∧ nLockTime < tiptime ∧
        10 * COIN ≤ nValue ∧ 60 ≤ elapsedMinutes nLockTime tiptime) ↔
      Fees.LOCKTIME_THRESHOLD ≤ nLockTime.toNat ∧ tiptime.toNat ≠ 0 ∧
        nLockTime.toNat < tiptime.toNat ∧ 10 * Fees.COIN ≤ nValue.toNat ∧
        60 ≤ (tiptime.toNat - nLockTime.toNat) / 60 := by
  have hzero : tiptime ≠ 0 ↔ tiptime.toNat ≠ 0 := by
    rw [ne_eq, ne_eq, ← UInt32.toNat_inj]
    rfl
  constructor
  · rintro ⟨hlock, htip, hlt, hvalue, hhour⟩
    exact ⟨hlock, hzero.1 htip, hlt, hvalue, (hour_le_elapsedMinutes hlt).1 hhour⟩
  · rintro ⟨hlock, htip, hlt, hvalue, hhour⟩
    exact ⟨hlock, hzero.2 htip, hlt, hvalue, (hour_le_elapsedMinutes hlt).2 hhour⟩

/-- The minutes of `komodo_interest`, of which there is at least one. -/
theorem toNat_fullMinutes (txheight : Int32)
    (h : nLockTime < tiptime) (hhour : 60 ≤ (tiptime.toNat - nLockTime.toNat) / 60) :
    (uint64 (if 250000 ≤ txheight then interestMinutes nLockTime tiptime - 59
        else interestMinutes nLockTime tiptime)).toNat =
      (if 250000 ≤ txheight.toInt.toNat
        then Fees.interestMinutes nLockTime.toNat tiptime.toNat - 59
        else Fees.interestMinutes nLockTime.toNat tiptime.toNat) ∧
    0 < (uint64 (if 250000 ≤ txheight then interestMinutes nLockTime tiptime - 59
        else interestMinutes nLockTime tiptime)).toNat := by
  have hminutes := toInt_interestMinutes h
  have hlow : 60 ≤ Fees.interestMinutes nLockTime.toNat tiptime.toNat := by
    unfold Fees.interestMinutes
    omega
  have h59 : (59 : Int32).toInt = 59 := by decide
  have hheight : 250000 ≤ txheight ↔ 250000 ≤ txheight.toInt.toNat :=
    le_height (by decide) (by decide)
  simp only [hheight]
  split
  · rw [toNat_uint64_sub (by omega) (by omega), hminutes, h59]
    omega
  · rw [toNat_uint64 (by omega), hminutes]
    omega

/-- `denominator`, which is not zero. -/
theorem denominator_ne_zero (d : UInt64) : (if d = 0 then 1 else d) ≠ 0 := by
  split
  · decide
  · assumption

theorem toNat_denominator (d : UInt64) :
    (if d = 0 then 1 else d).toNat = if d.toNat = 0 then 1 else d.toNat := by
  have hzero : d = 0 ↔ d.toNat = 0 := UInt64.toNat_inj.symm
  simp only [hzero]
  split <;> rfl

section Shares

variable (nValue minutes d : UInt64)

theorem toNat_full : (nValue * KOMODO_INTEREST).toNat =
    Fees.uint64 (nValue.toNat * Fees.KOMODO_INTEREST) := UInt64.toNat_mul _ _

theorem toNat_fullShare : (nValue * KOMODO_INTEREST * minutes).toNat =
    Fees.uint64 (Fees.uint64 (nValue.toNat * Fees.KOMODO_INTEREST) * minutes.toNat) := by
  rw [UInt64.toNat_mul, toNat_full]
  rfl

theorem fullShare_lt_year : nValue * KOMODO_INTEREST * minutes < 365 * 24 * 60 ↔
    Fees.uint64 (Fees.uint64 (nValue.toNat * Fees.KOMODO_INTEREST) * minutes.toNat) <
      365 * 24 * 60 := by
  rw [UInt64.lt_iff_toNat_lt, toNat_fullShare]
  rfl

theorem toNat_fullYear : (nValue * KOMODO_INTEREST * minutes / (365 * 24 * 60) / COIN).toNat =
    Fees.uint64 (Fees.uint64 (nValue.toNat * Fees.KOMODO_INTEREST) * minutes.toNat) /
      (365 * 24 * 60) / Fees.COIN := by
  rw [UInt64.toNat_div, UInt64.toNat_div, toNat_fullShare]
  rfl

theorem toNat_fullPart : (nValue * KOMODO_INTEREST / d / COIN).toNat =
    Fees.uint64 (nValue.toNat * Fees.KOMODO_INTEREST) / d.toNat / Fees.COIN := by
  rw [UInt64.toNat_div, UInt64.toNat_div, toNat_full]
  rfl

theorem toNat_twentiethYear : (nValue / 20 * minutes / (365 * 24 * 60)).toNat =
    Fees.uint64 (nValue.toNat / 20 * minutes.toNat) / (365 * 24 * 60) := by
  rw [UInt64.toNat_div, UInt64.toNat_mul, UInt64.toNat_div]
  rfl

theorem toNat_twentiethPart : (nValue / 20 / d).toNat = nValue.toNat / 20 / d.toNat := by
  rw [UInt64.toNat_div, UInt64.toNat_div]
  rfl

end Shares

theorem komodoInterest_wrapping (isKMD : Bool) (txheight : Int32) (nValue : UInt64)
    (nLockTime tiptime : UInt32) :
    (komodoInterest wrapping txheight nValue nLockTime tiptime isKMD).map UInt64.toNat =
      some (Fees.komodoInterest isKMD txheight.toInt.toNat nValue.toNat nLockTime.toNat
        tiptime.toNat) := by
  have hnew := komodoInterestnewRaw_wrapping txheight nValue nLockTime tiptime
  have h250000 : txheight < 250000 ↔ txheight.toInt.toNat < 250000 :=
    height_lt (by decide) (by decide)
  have h1000000 : txheight < 1000000 ↔ txheight.toInt.toNat < 1000000 :=
    height_lt (by decide) (by decide)
  have h155949 : txheight ≤ 155949 ↔ txheight.toInt.toNat ≤ 155949 := height_le (by decide)
  have hEra : KOMODO_ENDOFERA ≤ txheight ↔ Fees.KOMODO_ENDOFERA ≤ txheight.toInt.toNat :=
    le_height (by decide) (by decide)
  unfold komodoInterest Fees.komodoInterest
  cases isKMD with
  | false => rfl
  | true =>
    simp only [hEra, Bool.not_true, Bool.false_eq_true, if_false]
    by_cases hend : Fees.KOMODO_ENDOFERA ≤ txheight.toInt.toNat
    · rw [if_pos hend, if_pos hend]
      rfl
    rw [if_neg hend, if_neg hend]
    by_cases heligible : LOCKTIME_THRESHOLD ≤ nLockTime ∧ tiptime ≠ 0 ∧ nLockTime < tiptime ∧
        10 * COIN ≤ nValue ∧ 60 ≤ elapsedMinutes nLockTime tiptime
    · have heligibleNat := (eligible_iff nValue nLockTime tiptime).1 heligible
      rw [if_pos heligible, if_pos heligibleNat]
      obtain ⟨hm, hpos⟩ := toNat_fullMinutes txheight heligible.2.2.1 heligibleNat.2.2.2.2
      generalize uint64 (if 250000 ≤ txheight then interestMinutes nLockTime tiptime - 59
        else interestMinutes nLockTime tiptime) = m64 at hm hpos ⊢
      have hm64 : m64 ≠ 0 := by
        rintro rfl
        exact absurd hpos (by decide)
      have hd := denominator_ne_zero (365 * 24 * 60 / m64)
      have hdNat := toNat_denominator (365 * 24 * 60 / m64)
      rw [UInt64.toNat_div, show (365 * 24 * 60 : UInt64).toNat = 365 * 24 * 60 from rfl] at hdNat
      rw [div, if_neg hm64, ← hm, bind_eq_bind, bind_some]
      generalize (if 365 * 24 * 60 / m64 = 0 then 1 else 365 * 24 * 60 / m64) = d at hd hdNat ⊢
      have hcoins : 25000 * COIN < nValue ↔ 25000 * Fees.COIN < nValue.toNat := Iff.rfl
      have hact : tiptime < activation ↔ tiptime.toNat < 1491350400 := Iff.rfl
      simp only [wrapping, div, if_neg hd, bind_eq_bind, bind_some, map_some,
        pure_def, decide_eq_true_eq, if_true, hcoins, h155949, mem_interestExceptions,
        h250000, h1000000, hact, fullShare_lt_year, ← hdNat]
      by_cases hlow : txheight.toInt.toNat < 250000
      · simp only [hlow, true_or, if_true]
        split_ifs
        all_goals simp only [map_some, toNat_fullPart, toNat_twentiethPart, hnew]
      · simp only [hlow, false_or, if_false]
        split_ifs
        all_goals simp only [map_some, toNat_fullPart, toNat_twentiethYear, toNat_fullYear, hnew]
    · have heligibleNat := fun h => heligible ((eligible_iff nValue nLockTime tiptime).2 h)
      rw [if_neg heligible, if_neg heligibleNat]
      rfl

/-- **The interest is at most a twentieth of the value, and no division is by zero**, for
every height, value and time. -/
theorem komodoInterest_defined_le (isKMD : Bool) (txheight : Int32) (nValue : UInt64)
    (nLockTime tiptime : UInt32) :
    ∃ interest, komodoInterest wrapping txheight nValue nLockTime tiptime isKMD = some interest ∧
      interest ≤ nValue / 20 := by
  obtain ⟨interest, heq, htoNat⟩ :=
    Option.map_eq_some_iff.1 (komodoInterest_wrapping isKMD txheight nValue nLockTime tiptime)
  refine ⟨interest, heq, UInt64.le_iff_toNat_le.2 ?_⟩
  rw [htoNat, UInt64.toNat_div]
  exact Fees.komodoInterest_le _ _ _ _ _

/-! ### From height 1000000 on -/

/-- What `komodo_interest` computes by its formula of before the activation: an
output of at most 25000 coins that earns interest, and a tip of before then. -/
def BeforeActivation (txheight : Int32) (nValue : UInt64) (nLockTime tiptime : UInt32) : Prop :=
  txheight < KOMODO_ENDOFERA ∧
    (LOCKTIME_THRESHOLD ≤ nLockTime ∧ tiptime ≠ 0 ∧ nLockTime < tiptime ∧ 10 * COIN ≤ nValue ∧
      60 ≤ elapsedMinutes nLockTime tiptime) ∧
    nValue ≤ 25000 * COIN ∧ tiptime < activation

theorem not_lt_of_height {txheight b c : Int32} (h : c ≤ txheight) (hb : b < c) : ¬ txheight < b :=
  fun hlt => absurd (Int32.lt_of_lt_of_le (Int32.lt_trans hlt hb) h) (Int32.lt_irrefl)

/-- From height 1000000 on the two entry points agree, except before the
activation. -/
theorem komodoInterest_eq_new {mul : Product} {nValue : UInt64}
    (hheight : 1000000 ≤ txheight)
    (hbefore : ¬ BeforeActivation txheight nValue nLockTime tiptime)
    (hmul : nValue ≤ 25000 * COIN → ∃ p, mul nValue KOMODO_INTEREST = some p) :
    komodoInterest mul txheight nValue nLockTime tiptime true =
      komodoInterestnew mul txheight nValue nLockTime tiptime := by
  have hlow : ¬ txheight < 250000 := not_lt_of_height hheight (by decide)
  have hlow' : ¬ txheight < 1000000 := fun h =>
    absurd (Int32.lt_of_lt_of_le h hheight) Int32.lt_irrefl
  have hexc : ¬ txheight ≤ 155949 := fun h =>
    absurd (Int32.le_trans hheight h) (by decide)
  unfold komodoInterest komodoInterestnew
  rw [if_neg (by decide)]
  by_cases hend : KOMODO_ENDOFERA ≤ txheight
  · rw [if_pos hend, if_neg fun h => absurd (Int32.lt_of_lt_of_le h.1 hend) Int32.lt_irrefl]
  rw [if_neg hend]
  have hend' : txheight < KOMODO_ENDOFERA := Int32.not_le.1 hend
  by_cases heligible : LOCKTIME_THRESHOLD ≤ nLockTime ∧ tiptime ≠ 0 ∧ nLockTime < tiptime ∧
      10 * COIN ≤ nValue ∧ 60 ≤ elapsedMinutes nLockTime tiptime
  · obtain ⟨hlock, htip, hlt, hvalue, hhour⟩ := id heligible
    rw [if_pos heligible, if_pos ⟨hend', hlock, htip, hlt, hvalue⟩]
    obtain ⟨-, hpos⟩ := toNat_fullMinutes txheight hlt ((hour_le_elapsedMinutes hlt).1 hhour)
    have hminutes : uint64 (if 250000 ≤ txheight then interestMinutes nLockTime tiptime - 59
        else interestMinutes nLockTime tiptime) ≠ 0 := by
      intro hzero
      rw [hzero] at hpos
      exact absurd hpos (by decide)
    simp only [div, if_neg hminutes, bind_eq_bind, bind_some, hexc, hlow, hlow',
      false_and, false_or, if_false]
    split
    · rfl
    · rename_i hcoins
      have hcoins := UInt64.not_lt.1 hcoins
      obtain ⟨p, hp⟩ := hmul hcoins
      have hact : ¬ tiptime < activation := fun h => hbefore ⟨hend', heligible, hcoins, h⟩
      rw [hp, bind_some, if_neg hact]
  · rw [if_neg heligible]
    split
    · rename_i h
      obtain ⟨-, hlock, htip, hlt, hvalue⟩ := h
      have hhour : ¬ KOMODO_MAXMEMPOOLTIME / 60 ≤ elapsedMinutes nLockTime tiptime :=
        fun h => heligible ⟨hlock, htip, hlt, hvalue, h⟩
      rw [komodoInterestnewRaw, if_neg fun h => hhour h.2.2]
    · rfl

theorem checked_of_lt {a b : UInt64} (h : a.toNat * b.toNat < 2 ^ 64) :
    checked a b = wrapping a b := if_pos h

/-- The one product of `_komodo_interestnew` fits in 64 bits. -/
theorem komodoInterestnewRaw_checked (txheight : Int32) (nValue : UInt64)
    (nLockTime tiptime : UInt32) :
    komodoInterestnewRaw checked txheight nValue nLockTime tiptime =
      komodoInterestnewRaw wrapping txheight nValue nLockTime tiptime := by
  unfold komodoInterestnewRaw
  split
  · rename_i heligible
    obtain ⟨-, hlt, hhour⟩ := heligible
    have hminutes := toInt_interestMinutes hlt
    have hlow := (hour_le_elapsedMinutes hlt).1 hhour
    have hyear := Fees.interestMinutes_le nLockTime.toNat tiptime.toNat
    have hpaid := @toNat_paidMinutes txheight _
      (show 60 ≤ (interestMinutes nLockTime tiptime).toInt by
        rw [hminutes, Fees.interestMinutes]
        omega)
    rw [hminutes, Int.toNat_natCast] at hpaid
    dsimp only
    rw [checked_of_lt]
    rw [hpaid, UInt64.toNat_div, show (10512000 : UInt64).toNat = 10512000 from rfl]
    refine (Fees.newShare_le ?_).trans_lt ((Nat.div_le_self _ _).trans_lt nValue.toNat_lt)
    split <;> omega
  · rfl

theorem komodoInterestnew_checked (txheight : Int32) (nValue : UInt64)
    (nLockTime tiptime : UInt32) :
    komodoInterestnew checked txheight nValue nLockTime tiptime =
      komodoInterestnew wrapping txheight nValue nLockTime tiptime := by
  unfold komodoInterestnew
  rw [komodoInterestnewRaw_checked]

/-- `komodo_interestnew` is defined everywhere. -/
theorem exists_komodoInterestnew (txheight : Int32) (nValue : UInt64)
    (nLockTime tiptime : UInt32) :
    ∃ interest, komodoInterestnew wrapping txheight nValue nLockTime tiptime = some interest := by
  obtain ⟨interest, hnew, -⟩ := map_eq_some_iff.1
    (komodoInterestnewRaw_wrapping txheight nValue nLockTime tiptime)
  unfold komodoInterestnew
  split
  · exact ⟨interest, hnew⟩
  · exact ⟨0, rfl⟩

/-- A later tip and a larger value do not earn less. -/
theorem komodoInterestnew_mono {nValue nValue' : UInt64}
    {nLockTime tiptime tiptime' : UInt32} {interest interest' : UInt64} (hvalue : nValue ≤ nValue')
    (htip : tiptime ≤ tiptime')
    (h : komodoInterestnew wrapping txheight nValue nLockTime tiptime = some interest)
    (h' : komodoInterestnew wrapping txheight nValue' nLockTime tiptime' = some interest') :
    interest ≤ interest' := by
  unfold komodoInterestnew at h h'
  split at h
  · rename_i heligible
    obtain ⟨hend, hlock, htip0, hlt, hcoins⟩ := heligible
    have hlt' : nLockTime < tiptime' := UInt32.lt_of_lt_of_le hlt htip
    have htip0' : tiptime' ≠ 0 := by
      rintro rfl
      exact absurd hlt' UInt32.not_lt_zero
    rw [if_pos ⟨hend, hlock, htip0', hlt', UInt64.le_trans hcoins hvalue⟩] at h'
    have hnat := komodoInterestnewRaw_wrapping txheight nValue nLockTime tiptime
    have hnat' := komodoInterestnewRaw_wrapping txheight nValue' nLockTime tiptime'
    rw [h, map_some, some_inj] at hnat
    rw [h', map_some, some_inj] at hnat'
    rw [UInt64.le_iff_toNat_le, hnat, hnat']
    exact Fees.komodoInterestnew_mono _ _ hvalue htip nValue'.toNat_lt
  · cases h
    exact UInt64.zero_le

/-- **From height 1000000 on, and not before the activation**, the two entry
points return the same value, without an overflow, and it does not fall with a
later tip or a larger value; that of `komodo_interestnew` never does. -/
theorem interest_agrees_mono (hheight : 1000000 ≤ txheight) :
    (∀ nValue nLockTime tiptime, ∃ interest,
      komodoInterestnew wrapping txheight nValue nLockTime tiptime = some interest ∧
      komodoInterestnew checked txheight nValue nLockTime tiptime = some interest ∧
      (¬ BeforeActivation txheight nValue nLockTime tiptime →
        komodoInterest wrapping txheight nValue nLockTime tiptime true = some interest ∧
        komodoInterest checked txheight nValue nLockTime tiptime true = some interest)) ∧
    ∀ nValue nValue' nLockTime tiptime tiptime' interest interest', nValue ≤ nValue' →
      tiptime ≤ tiptime' →
      (komodoInterestnew wrapping txheight nValue nLockTime tiptime = some interest →
        komodoInterestnew wrapping txheight nValue' nLockTime tiptime' = some interest' →
        interest ≤ interest') ∧
      (¬ BeforeActivation txheight nValue nLockTime tiptime →
        ¬ BeforeActivation txheight nValue' nLockTime tiptime' →
        komodoInterest wrapping txheight nValue nLockTime tiptime true = some interest →
        komodoInterest wrapping txheight nValue' nLockTime tiptime' true = some interest' →
        interest ≤ interest') := by
  have hwrapping : ∀ nValue nLockTime tiptime,
      ¬ BeforeActivation txheight nValue nLockTime tiptime →
      komodoInterest wrapping txheight nValue nLockTime tiptime true =
        komodoInterestnew wrapping txheight nValue nLockTime tiptime :=
    fun nValue nLockTime tiptime hbefore => komodoInterest_eq_new hheight hbefore fun _ => ⟨_, rfl⟩
  refine ⟨fun nValue nLockTime tiptime => ?_, ?_⟩
  · obtain ⟨interest, hnew⟩ := exists_komodoInterestnew txheight nValue nLockTime tiptime
    have hchecked := komodoInterestnew_checked txheight nValue nLockTime tiptime
    refine ⟨interest, hnew, hchecked.trans hnew, fun hbefore => ⟨?_, ?_⟩⟩
    · rw [hwrapping _ _ _ hbefore, hnew]
    · rw [komodoInterest_eq_new hheight hbefore fun hcoins => ?_, hchecked, hnew]
      have hle := UInt64.le_iff_toNat_le.1 hcoins
      refine ⟨_, checked_of_lt ?_⟩
      rw [show (25000 * COIN).toNat = 2500000000000 from rfl] at hle
      rw [show KOMODO_INTEREST.toNat = 5000000 from rfl]
      omega
  · intro nValue nValue' nLockTime tiptime tiptime' interest interest' hvalue htip
    refine ⟨komodoInterestnew_mono hvalue htip, fun hbefore hbefore' h h' => ?_⟩
    rw [hwrapping _ _ _ hbefore] at h
    rw [hwrapping _ _ _ hbefore'] at h'
    exact komodoInterestnew_mono hvalue htip h h'

/-- A height above 1000000. -/
theorem interest_agrees_mono_3000000 : (1000000 : Int32) ≤ 3000000 ∧
    ∃ interest, komodoInterest checked 3000000 500000000000 1600000000 1700000000 true =
        some interest ∧
      komodoInterestnew checked 3000000 500000000000 1600000000 1700000000 = some interest := by
  refine ⟨by decide, ?_⟩
  obtain ⟨interest, -, hnew, h⟩ :=
    (@interest_agrees_mono 3000000 (by decide)).1 500000000000 1600000000 1700000000
  exact ⟨interest, (h fun hbefore => absurd hbefore.2.2.2 (by decide)).2, hnew⟩

/-- Before the activation `komodo_interest` has another formula, whose product
overflows for 10 coins and 5 years. -/
theorem interest_before_activation :
    ¬ ∀ txheight : Int32, 1000000 ≤ txheight → ∀ nValue nLockTime tiptime,
      komodoInterest wrapping txheight nValue nLockTime tiptime true =
        komodoInterestnew wrapping txheight nValue nLockTime tiptime := by
  intro h
  exact absurd (h 1000000 (by decide) 1000000000 1400000000 1480000000) (by decide)

end Interest
end Komodo
