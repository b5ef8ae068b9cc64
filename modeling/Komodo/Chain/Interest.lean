/-
# Accrued interest

`_komodo_interestnew`, `komodo_interest`, `komodo_interest_args` and
`komodo_accrued_interest` of `src/src/komodo_interest.cpp`: the interest an
output of at least 10 coins has earned since the lock time of its transaction.

`komodo_accrued_interest` takes the height of a tip and looks up the time of
that block; `komodo_interest_args` then overwrites the time with that of
`chainActive.Tip()`. So the interest does not depend on the height
(`komodoAccruedInterest_congr`). It is at most a twentieth of the value
(`komodoInterest_le`): no conversion to `int64_t` changes it, and no sum of
values and interests in range leaves the type.
-/

import Komodo.Primitives.Transaction
import Mathlib.Algebra.Order.Floor.Div

namespace Komodo
namespace Fees

open Nat

def COIN : ℕ := 100000000

/-- `LOCKTIME_THRESHOLD`: lock times from here on are times. -/
def LOCKTIME_THRESHOLD : ℕ := 500000000

/-- `KOMODO_MAXMEMPOOLTIME`, in seconds. -/
def KOMODO_MAXMEMPOOLTIME : ℕ := 3600

def KOMODO_ENDOFERA : ℕ := 7777777

/-- `KOMODO_INTEREST`: 5% of a coin. -/
def KOMODO_INTEREST : ℕ := 5000000

def nS7HardforkHeight : ℕ := 3484958

def KMD_DORMANCY_ACTIVATION_HEIGHT : ℕ := 4771595

/-- The value of an expression of type `uint64_t`. -/
def uint64 (n : ℕ) : ℕ := n % 2 ^ 64

/-- Conversion of a `CAmount` to `uint64_t`. -/
def toUint64 (v : ℤ) : ℕ := (v % 2 ^ 64).toNat

theorem uint64_le (n : ℕ) : uint64 n ≤ n := Nat.mod_le _ _

theorem toUint64_lt (v : ℤ) : toUint64 v < 2 ^ 64 := by
  unfold toUint64
  omega

/-- Minutes from the lock time to the tip, at most a year. -/
def interestMinutes (nLockTime tiptime : ℕ) : ℕ := min ((tiptime - nLockTime) / 60) (365 * 24 * 60)

def komodoInterestnew (txheight nValue nLockTime tiptime : ℕ) : ℕ :=
  if LOCKTIME_THRESHOLD ≤ nLockTime ∧ nLockTime < tiptime ∧
      KOMODO_MAXMEMPOOLTIME / 60 ≤ (tiptime - nLockTime) / 60 then
    let minutes := interestMinutes nLockTime tiptime
    let minutes := if 1000000 ≤ txheight then min minutes (31 * 24 * 60) else minutes
    let res := uint64 (nValue / 10512000 * (minutes - (KOMODO_MAXMEMPOOLTIME / 60 - 1)))
    if nS7HardforkHeight ≤ txheight ∧ txheight < KMD_DORMANCY_ACTIVATION_HEIGHT then res / 500
    else res
  else 0

/-- The outputs with the full interest although they hold more than 25000 coins. -/
def interestExceptions : List (ℕ × ℕ) :=
  [(116607, 2502721100000), (126891, 2879650000000), (129510, 3000000000000),
    (141549, 3500000000000), (154473, 3983399350000), (154736, 3983406748175),
    (155013, 3983414006565), (155492, 3983427592291), (155613, 9997409999999797),
    (157927, 9997410667451072), (155613, 2590000000000), (155949, 4000000000000)]

def komodoInterest (isKMD : Bool) (txheight nValue nLockTime tiptime : ℕ) : ℕ :=
  if !isKMD then 0
  else if KOMODO_ENDOFERA ≤ txheight then 0
  else if LOCKTIME_THRESHOLD ≤ nLockTime ∧ tiptime ≠ 0 ∧ nLockTime < tiptime ∧
      10 * COIN ≤ nValue ∧ 60 ≤ (tiptime - nLockTime) / 60 then
    let minutes := interestMinutes nLockTime tiptime
    let minutes := if 250000 ≤ txheight then minutes - 59 else minutes
    let denominator := 365 * 24 * 60 / minutes
    let denominator := if denominator = 0 then 1 else denominator
    if 25000 * COIN < nValue then
      if txheight ≤ 155949 ∧ (txheight, nValue) ∈ interestExceptions then
        if txheight < 1000000 then uint64 (nValue * KOMODO_INTEREST) / denominator / COIN
        else komodoInterestnew txheight nValue nLockTime tiptime
      else
        let numerator := nValue / 20
        if txheight < 250000 then numerator / denominator
        else if txheight < 1000000 then uint64 (numerator * minutes) / (365 * 24 * 60)
        else komodoInterestnew txheight nValue nLockTime tiptime
    else
      let numerator := uint64 (nValue * KOMODO_INTEREST)
      -- the 5th of April 2017
      if txheight < 250000 ∨ tiptime < 1491350400 then
        if txheight < 250000 ∨ uint64 (numerator * minutes) < 365 * 24 * 60 then
          numerator / denominator / COIN
        else uint64 (numerator * minutes) / (365 * 24 * 60) / COIN
      else if txheight < 1000000 then uint64 (nValue / 20 * minutes) / (365 * 24 * 60)
      else komodoInterestnew txheight nValue nLockTime tiptime
  else 0

/-! ### The bound -/

theorem interestMinutes_le (nLockTime tiptime : ℕ) :
    interestMinutes nLockTime tiptime ≤ 365 * 24 * 60 := min_le_right _ _

/-- A share of `n` for at most a year of minutes is at most `n`. -/
theorem share_le {n minutes : ℕ} (h : minutes ≤ 365 * 24 * 60) :
    uint64 (n * minutes) / (365 * 24 * 60) ≤ n := by
  refine Nat.div_le_of_le_mul ((uint64_le _).trans ?_)
  rw [Nat.mul_comm]
  exact mul_le_mul_right n h

theorem newShare_le {nValue minutes : ℕ} (h : minutes ≤ 365 * 24 * 60) :
    nValue / 10512000 * minutes ≤ nValue / 20 := by
  have hmul : nValue / 10512000 * minutes ≤ nValue / 10512000 * 525600 := mul_le_mul_left _ h
  omega

theorem komodoInterestnew_le (txheight nValue nLockTime tiptime : ℕ) :
    komodoInterestnew txheight nValue nLockTime tiptime ≤ nValue / 20 := by
  have hyear := interestMinutes_le nLockTime tiptime
  have hnew : ∀ minutes ≤ 365 * 24 * 60, uint64 (nValue / 10512000 * minutes) ≤ nValue / 20 :=
    fun minutes h => (uint64_le _).trans (newShare_le h)
  unfold komodoInterestnew
  dsimp only
  split
  · have hminutes : ∀ m, m ≤ interestMinutes nLockTime tiptime →
        uint64 (nValue / 10512000 * (m - (KOMODO_MAXMEMPOOLTIME / 60 - 1))) ≤ nValue / 20 :=
      fun m hm => hnew _ ((sub_le _ _).trans (hm.trans hyear))
    have hboth := hminutes (if 1000000 ≤ txheight
      then min (interestMinutes nLockTime tiptime) (31 * 24 * 60)
      else interestMinutes nLockTime tiptime) (by split <;> omega)
    split
    · exact (div_le_self _ _).trans hboth
    · exact hboth
  · exact zero_le _

theorem uint64_newShare {nValue minutes : ℕ} (hvalue : nValue < 2 ^ 64)
    (h : minutes ≤ 365 * 24 * 60) :
    uint64 (nValue / 10512000 * minutes) = nValue / 10512000 * minutes :=
  mod_eq_of_lt ((newShare_le h).trans_lt ((div_le_self _ _).trans_lt hvalue))

theorem interestMinutes_mono (nLockTime : ℕ) {tiptime tiptime' : ℕ} (h : tiptime ≤ tiptime') :
    interestMinutes nLockTime tiptime ≤ interestMinutes nLockTime tiptime' := by
  unfold interestMinutes
  omega

/-- A later tip and a larger value do not earn less. -/
theorem komodoInterestnew_mono (txheight nLockTime : ℕ) {nValue nValue' tiptime tiptime' : ℕ}
    (hvalue : nValue ≤ nValue') (htip : tiptime ≤ tiptime') (h64 : nValue' < 2 ^ 64) :
    komodoInterestnew txheight nValue nLockTime tiptime ≤
      komodoInterestnew txheight nValue' nLockTime tiptime' := by
  have hminutes := interestMinutes_mono nLockTime htip
  have hyear := interestMinutes_le nLockTime tiptime'
  have hshare : ∀ m m', m ≤ m' → m' ≤ 365 * 24 * 60 →
      uint64 (nValue / 10512000 * m) ≤ uint64 (nValue' / 10512000 * m') := by
    intro m m' hm hm'
    rw [uint64_newShare (by omega) (by omega), uint64_newShare h64 hm']
    exact Nat.mul_le_mul (Nat.div_le_div_right hvalue) hm
  unfold komodoInterestnew
  by_cases heligible : LOCKTIME_THRESHOLD ≤ nLockTime ∧ nLockTime < tiptime ∧
      KOMODO_MAXMEMPOOLTIME / 60 ≤ (tiptime - nLockTime) / 60
  · have heligible' : LOCKTIME_THRESHOLD ≤ nLockTime ∧ nLockTime < tiptime' ∧
        KOMODO_MAXMEMPOOLTIME / 60 ≤ (tiptime' - nLockTime) / 60 := by
      obtain ⟨hlock, hlt, hhour⟩ := heligible
      exact ⟨hlock, by omega, hhour.trans (Nat.div_le_div_right (by omega))⟩
    rw [if_pos heligible, if_pos heligible']
    dsimp only
    have hpaid := hshare
      ((if 1000000 ≤ txheight then min (interestMinutes nLockTime tiptime) (31 * 24 * 60)
        else interestMinutes nLockTime tiptime) - (KOMODO_MAXMEMPOOLTIME / 60 - 1))
      ((if 1000000 ≤ txheight then min (interestMinutes nLockTime tiptime') (31 * 24 * 60)
        else interestMinutes nLockTime tiptime') - (KOMODO_MAXMEMPOOLTIME / 60 - 1))
      (by split <;> omega) (by split <;> omega)
    split
    · exact Nat.div_le_div_right hpaid
    · exact hpaid
  · rw [if_neg heligible]
    exact zero_le _

/-- **The interest is at most a twentieth of the value.** -/
theorem komodoInterest_le (isKMD : Bool) (txheight nValue nLockTime tiptime : ℕ) :
    komodoInterest isKMD txheight nValue nLockTime tiptime ≤ nValue / 20 := by
  have hyear := interestMinutes_le nLockTime tiptime
  have hnew := komodoInterestnew_le txheight nValue nLockTime tiptime
  have hfull : uint64 (nValue * KOMODO_INTEREST) / COIN ≤ nValue / 20 := by
    have := uint64_le (nValue * KOMODO_INTEREST)
    simp only [KOMODO_INTEREST, COIN] at *
    omega
  have hdiv : ∀ d, uint64 (nValue * KOMODO_INTEREST) / d / COIN ≤ nValue / 20 := fun d =>
    (Nat.div_le_div_right (Nat.div_le_self _ _)).trans hfull
  unfold komodoInterest
  dsimp only
  generalize hm : (if 250000 ≤ txheight then interestMinutes nLockTime tiptime - 59
    else interestMinutes nLockTime tiptime) = minutes
  have hminutes : minutes ≤ 365 * 24 * 60 := by
    subst hm
    split <;> omega
  split
  · exact zero_le _
  split
  · exact zero_le _
  split
  · split
    · split
      · split
        · exact hdiv _
        · exact hnew
      · split
        · exact div_le_self _ _
        · split
          · exact share_le hminutes
          · exact hnew
    · split
      · split
        · exact hdiv _
        · exact (Nat.div_le_div_right (share_le hminutes)).trans hfull
      · split
        · exact share_le hminutes
        · exact hnew
  · exact zero_le _

/-! ### What the node knows -/

/-- `CBlockIndex`: what is read of it. -/
structure CBlockIndex where
  nHeight : ℕ
  nTime : ℕ
deriving DecidableEq, Repr

/-- `CChain`: the blocks of a chain by height, up to that of the tip. -/
structure CChain where
  height : ℕ
  vChain : ℕ → CBlockIndex
  /-- `SetTip` puts every block at its height. -/
  nHeight_vChain : ∀ h ≤ height, (vChain h).nHeight = h

/-- `CChain::operator[]`. -/
def CChain.get? (c : CChain) (nHeight : ℕ) : Option CBlockIndex :=
  if nHeight ≤ c.height then some (c.vChain nHeight) else none

def CChain.tip (c : CChain) : CBlockIndex := c.vChain c.height

theorem CChain.nHeight_tip (c : CChain) : c.tip.nHeight = c.height :=
  c.nHeight_vChain _ le_rfl

/-- What the interest is computed from. -/
structure Node where
  /-- `chainName.isKMD()`. -/
  isKMD : Bool
  chainActive : CChain
  mapBlockIndex : Uint256 → Option CBlockIndex
  /-- `GetTransaction`: the transaction and the hash of its block, null when it
  is in the memory pool. -/
  getTransaction : Uint256 → Option (CTransaction × Uint256)

namespace Node

variable (node : Node)

/-- The variables that `komodo_accrued_interest` passes by address, and the
lock time. -/
structure InterestArgs where
  txheighttime : ℕ := 0
  txheight : ℕ := 0
  tiptime : ℕ := 0
  value : ℕ := 0
  locktime : ℕ := 0

/-- `komodo_interest_args` on variables with any values before. -/
def komodoInterestArgs (args : InterestArgs) (hash : Uint256) (n : ℕ) : InterestArgs :=
  let args := { args with txheighttime := 0, txheight := 0, tiptime := 0, value := 0, locktime := 0 }
  match node.getTransaction hash with
  | none => args
  | some (tx, hashBlock) =>
    match tx.vout[n]? with
    | none => args
    | some out =>
      match node.mapBlockIndex hashBlock with
      | none => args
      | some pindex =>
        { args with
          value := toUint64 out.nValue
          txheight := pindex.nHeight
          txheighttime := pindex.nTime
          tiptime := if args.tiptime = 0 then node.chainActive.tip.nTime else args.tiptime
          locktime := tx.nLockTime }

def komodoAccruedInterest (hash : Uint256) (n checkheight checkvalue tipheight : ℕ) : ℕ :=
  let tiptime := match node.chainActive.get? tipheight with
    | some pindex => pindex.nTime
    | none => 0
  let args := node.komodoInterestArgs { tiptime := tiptime } hash n
  if args.locktime ≠ 0 ∧ (checkvalue = 0 ∨ args.value = checkvalue) ∧
      (checkheight = 0 ∨ args.txheight = checkheight) then
    komodoInterest node.isKMD args.txheight args.value args.locktime args.tiptime
  else 0

/-- **The interest is the same for every height passed**: the time of the block
at `tipheight` is overwritten. -/
theorem komodoAccruedInterest_congr (hash : Uint256) (n checkheight checkvalue h₁ h₂ : ℕ) :
    node.komodoAccruedInterest hash n checkheight checkvalue h₁ =
      node.komodoAccruedInterest hash n checkheight checkvalue h₂ := rfl

theorem komodoInterestArgs_value_lt (args : InterestArgs) (hash : Uint256) (n : ℕ) :
    (node.komodoInterestArgs args hash n).value < 2 ^ 64 := by
  unfold komodoInterestArgs
  split
  · decide
  split
  · decide
  split
  · decide
  · exact toUint64_lt _

theorem komodoAccruedInterest_lt (hash : Uint256) (n checkheight checkvalue tipheight : ℕ) :
    node.komodoAccruedInterest hash n checkheight checkvalue tipheight < 2 ^ 63 := by
  have hlt := fun args => node.komodoInterestArgs_value_lt args hash n
  unfold komodoAccruedInterest
  dsimp only
  split_ifs
  · refine (komodoInterest_le _ _ _ _ _).trans_lt (Nat.div_lt_of_lt_mul ?_)
    exact (hlt _).trans (by norm_num)
  · norm_num

end Node
end Fees
end Komodo
