/-
# The bounds of a reward

`RewardsCalc` of `src/src/cc/rewards.cpp` for a duration that was measured.

The two formulas are meant to give the same share of the deposit, `amount * APR * duration` divided
by `COIN * 100 * 365*24*3600`.  Before the hard fork `amount * duration` is an `int64_t` and wraps
around; after it the quotient is cut to its low 64 bits.  `minseconds` and `maxseconds` are stored
as `uint64_t` and taken as `int64_t`: from `2 ^ 63` on, the first one makes no deposit early, and
the second one makes every duration negative, which is a large factor after the fork and before it a
negative reward, and that is the whole deposit.

`rewardsSound_iff` says for which plans, and for which `MAX_MONEY`, the bounds of a reward hold for
all deposits, rates and durations.
-/

import Komodo.CC.Rewards

namespace Komodo

open Nat

namespace RewardsEnv

/-! ### The reward of a measured duration -/

/-- `RewardsCalc` behind the call of `CCduration`. -/
def rewardOf (hardforkActive : Bool) (amount duration APR minseconds maxseconds : ℤ) : ℤ :=
  if duration < minseconds then 0
  else
    let duration := if maxseconds < duration then maxseconds else duration
    let reward :=
      if hardforkActive then
        toUint64 (toUint64 amount * toUint64 APR * toUint64 duration % 2 ^ 256
          / (COIN * 100 * 365 * 24 * 3600))
      else
        toUint64 ((toInt64 ((toInt64 (amount * duration)).tdiv (365 * 24 * 3600)
          * APR.tdiv 1000000)).tdiv 10000)
    if toUint64 amount < reward then toUint64 amount else reward

theorem rewardsCalc_eq (env : RewardsEnv) (amount : ℤ) (txid : Uint256)
    (APR minseconds maxseconds : ℤ) : env.rewardsCalc amount txid APR minseconds maxseconds
      = rewardOf env.hardforkActive amount (env.ccDuration txid).1 APR minseconds maxseconds :=
  rfl

/-- A duration is a difference of two `uint32_t`. -/
theorem ccDuration_bounds (env : ContractEnv) (txid : Uint256) (htip : env.tip.nTime < 2 ^ 32)
    (hblock : ∀ hash b, env.blockIndex hash = some b → 0 ≤ b.nTime) :
    0 ≤ (env.ccDuration txid).1 ∧ (env.ccDuration txid).1 < 2 ^ 32 := by
  unfold ContractEnv.ccDuration
  split
  · simp
  · split_ifs
    · simp
    · split
      · simp
      case h_2 b hb =>
        have hnonneg := hblock _ b hb
        split_ifs with hzero hlater
        · simp
        · simp
        · simp only [not_or, not_lt] at hlater
          constructor <;> dsimp only <;> omega

/-- The reward of a plan as its `'F'` opreturn holds it. -/
def planReward (hardforkActive : Bool) (minseconds maxseconds amount APR duration : ℕ) : ℤ :=
  rewardOf hardforkActive amount duration APR (toInt64 minseconds) (toInt64 maxseconds)

/-- The bounds of the rewards of a plan, for every deposit of at most `MAX_MONEY`. -/
structure RewardsSound (hardforkActive : Bool) (maxMoney minseconds maxseconds : ℕ) : Prop where
  le_amount : ∀ amount APR duration : ℕ, amount ≤ maxMoney → (APR : ℤ) ≤ REWARDSCC_MAXAPR →
    duration < 2 ^ 32 →
    planReward hardforkActive minseconds maxseconds amount APR duration ≤ amount
  early : ∀ amount APR duration : ℕ, amount ≤ maxMoney → (APR : ℤ) ≤ REWARDSCC_MAXAPR →
    duration < 2 ^ 32 → duration < minseconds →
    planReward hardforkActive minseconds maxseconds amount APR duration = 0
  bounded : ∀ amount APR duration : ℕ, amount ≤ maxMoney → (APR : ℤ) ≤ REWARDSCC_MAXAPR →
    duration < 2 ^ 32 → minseconds ≤ duration →
    0 ≤ planReward hardforkActive minseconds maxseconds amount APR duration ∧
      planReward hardforkActive minseconds maxseconds amount APR duration
        ≤ (amount * APR * min duration maxseconds : ℕ) / (COIN * 100 * 365 * 24 * 3600)
  mono_amount : ∀ amount amount' APR duration : ℕ, amount ≤ amount' → amount' ≤ maxMoney →
    (APR : ℤ) ≤ REWARDSCC_MAXAPR → duration < 2 ^ 32 →
    planReward hardforkActive minseconds maxseconds amount APR duration
      ≤ planReward hardforkActive minseconds maxseconds amount' APR duration
  mono_duration : ∀ amount APR duration duration' : ℕ, amount ≤ maxMoney →
    (APR : ℤ) ≤ REWARDSCC_MAXAPR → duration ≤ duration' → duration' < 2 ^ 32 →
    planReward hardforkActive minseconds maxseconds amount APR duration
      ≤ planReward hardforkActive minseconds maxseconds amount APR duration'

/-- The longest duration that a plan counts. -/
def longest (maxseconds : ℕ) : ℕ := min (2 ^ 32 - 1) maxseconds

/-- **The plans whose rewards are in bounds.** With both parameters below `2 ^ 63`, nothing wraps
around.  With one of them above, next to nothing is ever paid; or, where `maxseconds` is the one
before the fork, every rate at which something is paid, in hundredths of a percent, is one that
doubles the deposit in `minseconds`. -/
structure InRange (hardforkActive : Bool) (maxMoney minseconds maxseconds : ℕ) : Prop where
  positive : minseconds < 2 ^ 32 → maxseconds < 2 ^ 63 → maxMoney * longest maxseconds
    < if hardforkActive then 4 * (365 * 24 * 3600) * 2 ^ 64 else 2 ^ 63
  negativeMax : minseconds < 2 ^ 32 → 2 ^ 63 ≤ maxseconds →
    if hardforkActive then maxMoney = 0
    else ∀ rate ≤ 2500, 10000 ≤ maxMoney * (2 ^ 64 - maxseconds) / (365 * 24 * 3600) * rate →
      10000 * (365 * 24 * 3600) ≤ minseconds * rate
  negativeMin : 2 ^ 63 ≤ minseconds → maxseconds < 2 ^ 63 →
    maxMoney * longest maxseconds < 4 * (365 * 24 * 3600)
  negativeBoth : 2 ^ 63 ≤ minseconds → 2 ^ 63 ≤ maxseconds →
    if hardforkActive then maxMoney = 0
    else maxMoney * (2 ^ 64 - maxseconds) < 4 * (365 * 24 * 3600)

/-! ### Without the machine integers -/

theorem toInt64_of_ge {n : ℕ} (h : 2 ^ 63 ≤ n) (h' : n < 2 ^ 64) :
    toInt64 n = -(2 ^ 64 - n : ℕ) := by
  have hshift : toInt64 n = toInt64 ((n : ℤ) - (2 ^ 64 : ℕ)) := (Int.sub_bmod_right _ _).symm
  rw [hshift, toInt64_of_range (by push_cast; omega) (by push_cast; omega)]
  omega

variable {maxseconds APR amount : ℕ}

theorem maxAPR_iff : (APR : ℤ) ≤ REWARDSCC_MAXAPR ↔ APR ≤ 2500000000 := by
  unfold REWARDSCC_MAXAPR COIN
  omega

/-- The duration that counts, as an `int64_t`. -/
def counted (maxseconds duration : ℕ) : ℤ :=
  if toInt64 maxseconds < duration then toInt64 maxseconds else duration

theorem counted_of_lt {maxseconds : ℕ} (h : maxseconds < 2 ^ 63) (duration : ℕ) :
    counted maxseconds duration = (min duration maxseconds : ℕ) := by
  unfold counted
  rw [toInt64_of_lt h]
  split_ifs <;> omega

theorem counted_of_ge (h : 2 ^ 63 ≤ maxseconds) (h' : maxseconds < 2 ^ 64)
    (duration : ℕ) : counted maxseconds duration = -(2 ^ 64 - maxseconds : ℕ) := by
  unfold counted
  rw [toInt64_of_ge h h', if_pos (by omega)]

/-- What the formula before the fork makes of the product of the amount and the duration. -/
def beforeFork (product : ℤ) (APR : ℕ) : ℤ :=
  toUint64 ((toInt64 (product.tdiv (365 * 24 * 3600) * (APR : ℤ).tdiv 1000000)).tdiv 10000)

/-- What the formula after the fork makes of a duration. -/
def afterFork (amount APR : ℕ) (duration : ℤ) : ℤ :=
  toUint64 (toUint64 amount * toUint64 APR * toUint64 duration % 2 ^ 256
    / (COIN * 100 * 365 * 24 * 3600))

/-- Before its cap, the reward is one of the two formulas. -/
theorem planReward_eq {hardforkActive : Bool} {minseconds duration : ℕ}
    (hmin : minseconds < 2 ^ 64) (hamount : amount < 2 ^ 63) :
    planReward hardforkActive minseconds maxseconds amount APR duration =
      if minseconds < 2 ^ 63 ∧ duration < minseconds then 0
      else min (amount : ℤ) (if hardforkActive then
          afterFork amount APR (counted maxseconds duration)
        else beforeFork (toInt64 (amount * counted maxseconds duration)) APR) := by
  have hearly : (duration : ℤ) < toInt64 minseconds
      ↔ minseconds < 2 ^ 63 ∧ duration < minseconds := by
    by_cases h : minseconds < 2 ^ 63
    · rw [toInt64_of_lt h]
      omega
    · rw [toInt64_of_ge (by omega) hmin]
      omega
  have hcap : ∀ reward : ℤ, (if (amount : ℤ) < reward then (amount : ℤ) else reward)
      = min (amount : ℤ) reward := by
    intro reward
    rw [min_def]
    split_ifs <;> omega
  unfold planReward rewardOf afterFork beforeFork counted
  simp only [hearly, toUint64_of_lt (show amount < 2 ^ 64 by omega), hcap]

theorem share_divisor :
    COIN * 100 * 365 * 24 * 3600 = (2500000000 * (4 * (365 * 24 * 3600)) : ℕ) := by
  decide

theorem afterFork_of_lt {duration : ℕ} (hamount : amount < 2 ^ 63)
    (hAPR : APR ≤ 2500000000) (hduration : duration < 2 ^ 64) : afterFork amount APR duration
      = (amount * APR * duration / (2500000000 * (4 * (365 * 24 * 3600))) % 2 ^ 64 : ℕ) := by
  have hproduct : amount * APR * duration < 2 ^ 256 := by
    have h : amount * APR * duration ≤ 2 ^ 63 * 2500000000 * 2 ^ 64 := by gcongr
    exact lt_of_le_of_lt h (by norm_num)
  unfold afterFork
  rw [toUint64_of_lt (show amount < 2 ^ 64 by omega), toUint64_of_lt (show APR < 2 ^ 64 by omega),
    toUint64_of_lt hduration, share_divisor,
    Int.emod_eq_of_lt (by positivity) (by exact_mod_cast hproduct)]
  unfold toUint64
  push_cast
  rfl

theorem afterFork_neg {n : ℕ} (hn : 0 < n) (hn' : n ≤ 2 ^ 64) :
    afterFork amount APR (-(n : ℤ)) = afterFork amount APR (2 ^ 64 - n : ℕ) := by
  have hduration : toUint64 (-(n : ℤ)) = toUint64 (2 ^ 64 - n : ℕ) := by
    unfold toUint64
    omega
  unfold afterFork
  rw [hduration]

theorem beforeFork_of_nonneg {product : ℕ} (hproduct : product < 2 ^ 63)
    (hAPR : APR ≤ 2500000000) : beforeFork product APR
      = (product / (365 * 24 * 3600) * (APR / 1000000) / 10000 : ℕ) := by
  have hrate : APR / 1000000 ≤ 2500 := by omega
  have hyears : product / (365 * 24 * 3600) < 2 ^ 39 := by omega
  have hscaled : product / (365 * 24 * 3600) * (APR / 1000000) < 2 ^ 63 := by
    have h : product / (365 * 24 * 3600) * (APR / 1000000) ≤ 2 ^ 39 * 2500 :=
      Nat.mul_le_mul hyears.le hrate
    omega
  have hdiv : (product : ℤ).tdiv (365 * 24 * 3600) * (APR : ℤ).tdiv 1000000
      = (product / (365 * 24 * 3600) * (APR / 1000000) : ℕ) := by
    rw [Int.tdiv_eq_ediv_of_nonneg (by omega), Int.tdiv_eq_ediv_of_nonneg (by omega)]
    push_cast
    rfl
  unfold beforeFork
  rw [hdiv, toInt64_of_lt hscaled, Int.tdiv_eq_ediv_of_nonneg (by omega)]
  exact toUint64_of_lt (n := product / (365 * 24 * 3600) * (APR / 1000000) / 10000) (by omega)

/-- A negative reward is a large number, if it is not zero. -/
theorem beforeFork_neg {product : ℕ} (hproduct : product ≤ 2 ^ 63) (hAPR : APR ≤ 2500000000) :
    (product / (365 * 24 * 3600) * (APR / 1000000) < 10000 → beforeFork (-(product : ℤ)) APR = 0) ∧
      (10000 ≤ product / (365 * 24 * 3600) * (APR / 1000000) →
        2 ^ 63 ≤ beforeFork (-(product : ℤ)) APR) := by
  have hrate : APR / 1000000 ≤ 2500 := by omega
  have hyears : product / (365 * 24 * 3600) < 2 ^ 39 := by omega
  have hscaled : product / (365 * 24 * 3600) * (APR / 1000000) < 2 ^ 63 := by
    have h : product / (365 * 24 * 3600) * (APR / 1000000) ≤ 2 ^ 39 * 2500 :=
      Nat.mul_le_mul hyears.le hrate
    omega
  have hdiv : (-(product : ℤ)).tdiv (365 * 24 * 3600) * (APR : ℤ).tdiv 1000000
      = -(product / (365 * 24 * 3600) * (APR / 1000000) : ℕ) := by
    rw [Int.neg_tdiv, Int.tdiv_eq_ediv_of_nonneg (by omega), Int.tdiv_eq_ediv_of_nonneg (by omega),
      Int.neg_mul]
    push_cast
    rfl
  unfold beforeFork
  rw [hdiv]
  generalize product / (365 * 24 * 3600) * (APR / 1000000) = scaled at hscaled
  rw [toInt64_of_range (by omega) (by omega), Int.neg_tdiv, Int.tdiv_eq_ediv_of_nonneg (by omega)]
  unfold toUint64
  omega

/-! ### Plans in range -/

theorem afterFork_nonneg (amount APR : ℕ) (duration : ℤ) : 0 ≤ afterFork amount APR duration :=
  Int.emod_nonneg _ (by decide)

section
variable {hardforkActive : Bool} {maxMoney minseconds maxseconds : ℕ}

/-- A plan that pays a share of the deposit from `minseconds` on. -/
theorem sound_of_share (share : ℕ → ℕ → ℕ → ℕ)
    (heq : ∀ amount APR duration, amount ≤ maxMoney → APR ≤ 2500000000 → duration < 2 ^ 32 →
      planReward hardforkActive minseconds maxseconds amount APR duration
        = if duration < minseconds then 0 else (min amount (share amount APR duration) : ℕ))
    (hbound : ∀ amount APR duration, amount ≤ maxMoney → duration < 2 ^ 32 →
      minseconds ≤ duration → share amount APR duration
        ≤ amount * APR * min duration maxseconds / (2500000000 * (4 * (365 * 24 * 3600))))
    (hamount : ∀ amount amount' APR duration, amount ≤ amount' →
      min amount (share amount APR duration) ≤ min amount' (share amount' APR duration))
    (hduration : ∀ amount APR duration duration', duration ≤ duration' →
      share amount APR duration ≤ share amount APR duration') :
    RewardsSound hardforkActive maxMoney minseconds maxseconds where
  le_amount amount APR duration hmoney hAPR hlt := by
    rw [heq amount APR duration hmoney (maxAPR_iff.1 hAPR) hlt]
    split_ifs <;> omega
  early amount APR duration hmoney hAPR hlt hearly := by
    rw [heq amount APR duration hmoney (maxAPR_iff.1 hAPR) hlt, if_pos hearly, cast_zero]
  bounded amount APR duration hmoney hAPR hlt hlate := by
    rw [heq amount APR duration hmoney (maxAPR_iff.1 hAPR) hlt, if_neg (by omega), share_divisor]
    have hle := hbound amount APR duration hmoney hlt hlate
    have hmin := min_le_right amount (share amount APR duration)
    exact ⟨by omega, by exact_mod_cast hmin.trans hle⟩
  mono_amount amount amount' APR duration hle hmoney hAPR hlt := by
    rw [heq amount APR duration (hle.trans hmoney) (maxAPR_iff.1 hAPR) hlt,
      heq amount' APR duration hmoney (maxAPR_iff.1 hAPR) hlt]
    have hmono := hamount amount amount' APR duration hle
    split_ifs
    · exact le_rfl
    · exact_mod_cast hmono
  mono_duration amount APR duration duration' hmoney hAPR hle hlt := by
    rw [heq amount APR duration hmoney (maxAPR_iff.1 hAPR) (lt_of_le_of_lt hle hlt),
      heq amount APR duration' hmoney (maxAPR_iff.1 hAPR) hlt]
    have hmono := hduration amount APR duration duration' hle
    split_ifs <;> omega

theorem sound_of_zero (hzero : ∀ amount APR duration, amount ≤ maxMoney → APR ≤ 2500000000 →
    duration < 2 ^ 32 →
    planReward hardforkActive minseconds maxseconds amount APR duration = 0) :
    RewardsSound hardforkActive maxMoney minseconds maxseconds := by
  refine sound_of_share 0 (fun amount APR duration hmoney hAPR hlt => ?_)
    (fun amount APR duration _ _ _ => zero_le _) (fun _ _ _ _ _ => by simp)
    (fun _ _ _ _ _ => le_rfl)
  rw [hzero amount APR duration hmoney hAPR hlt]
  split_ifs <;> simp

theorem counted_le_longest {duration : ℕ} (h : duration < 2 ^ 32) :
    min duration maxseconds ≤ longest maxseconds := by
  unfold longest
  omega

theorem sound_afterFork (hmin : minseconds < 2 ^ 63) (hmax : maxseconds < 2 ^ 63)
    (hmoney : maxMoney < 2 ^ 63)
    (hfits : maxMoney * longest maxseconds < 4 * (365 * 24 * 3600) * 2 ^ 64) :
    RewardsSound true maxMoney minseconds maxseconds := by
  refine sound_of_share (fun amount APR duration =>
      amount * APR * min duration maxseconds / (2500000000 * (4 * (365 * 24 * 3600))))
    (fun amount APR duration hle hAPR hlt => ?_) (fun _ _ _ _ _ _ => le_rfl)
    (fun amount amount' APR duration hle => ?_) (fun amount APR duration duration' hle => ?_)
  · have hproduct : amount * APR * min duration maxseconds
        < 2500000000 * (4 * (365 * 24 * 3600)) * 2 ^ 64 := by
      calc amount * APR * min duration maxseconds
          ≤ maxMoney * 2500000000 * longest maxseconds := by
            gcongr
            exact counted_le_longest hlt
        _ = 2500000000 * (maxMoney * longest maxseconds) := by ring
        _ < 2500000000 * (4 * (365 * 24 * 3600) * 2 ^ 64) := by omega
        _ = 2500000000 * (4 * (365 * 24 * 3600)) * 2 ^ 64 := by norm_num
    rw [planReward_eq (by omega) (by omega), counted_of_lt hmax, if_pos rfl,
      afterFork_of_lt (by omega) hAPR (by omega), Nat.mod_eq_of_lt (Nat.div_lt_of_lt_mul hproduct)]
    simp only [hmin, true_and]
    split_ifs <;> simp
  · have hmono : amount * APR * min duration maxseconds ≤ amount' * APR * min duration maxseconds :=
      by gcongr
    exact min_le_min hle (Nat.div_le_div_right hmono)
  · have hmono : amount * APR * min duration maxseconds ≤ amount * APR * min duration' maxseconds :=
      by gcongr
    exact Nat.div_le_div_right hmono

/-- The three divisions of the formula before the fork lose more than one. -/
theorem beforeFork_le (amount APR duration : ℕ) :
    amount * duration / (365 * 24 * 3600) * (APR / 1000000) / 10000
      ≤ amount * APR * duration / (2500000000 * (4 * (365 * 24 * 3600))) := by
  rw [le_div_iff_mul_le (by norm_num)]
  have hyears := div_mul_le_self (amount * duration) (365 * 24 * 3600)
  have hrate := div_mul_le_self APR 1000000
  have hlast := div_mul_le_self (amount * duration / (365 * 24 * 3600) * (APR / 1000000)) 10000
  calc amount * duration / (365 * 24 * 3600) * (APR / 1000000) / 10000
        * (2500000000 * (4 * (365 * 24 * 3600)))
      = amount * duration / (365 * 24 * 3600) * (APR / 1000000) / 10000 * 10000
        * (1000000 * (365 * 24 * 3600)) := by ring
    _ ≤ amount * duration / (365 * 24 * 3600) * (APR / 1000000) * (1000000 * (365 * 24 * 3600)) :=
        mul_le_mul_right _ hlast
    _ = amount * duration / (365 * 24 * 3600) * (365 * 24 * 3600) * (APR / 1000000 * 1000000) := by
        ring
    _ ≤ amount * duration * APR := Nat.mul_le_mul hyears hrate
    _ = amount * APR * duration := by ring

theorem sound_beforeFork (hmin : minseconds < 2 ^ 63) (hmax : maxseconds < 2 ^ 63)
    (hmoney : maxMoney < 2 ^ 63) (hfits : maxMoney * longest maxseconds < 2 ^ 63) :
    RewardsSound false maxMoney minseconds maxseconds := by
  refine sound_of_share (fun amount APR duration =>
      amount * min duration maxseconds / (365 * 24 * 3600) * (APR / 1000000) / 10000)
    (fun amount APR duration hle hAPR hlt => ?_) (fun _ _ _ _ _ _ => beforeFork_le _ _ _)
    (fun amount amount' APR duration hle => ?_) (fun amount APR duration duration' hle => ?_)
  · have hproduct : amount * min duration maxseconds < 2 ^ 63 := by
      have hle' : amount * min duration maxseconds ≤ maxMoney * longest maxseconds :=
        Nat.mul_le_mul hle (counted_le_longest hlt)
      omega
    rw [planReward_eq (by omega) (by omega), counted_of_lt hmax, if_neg Bool.false_ne_true,
      ← cast_mul, toInt64_of_lt hproduct, beforeFork_of_nonneg hproduct hAPR]
    simp only [hmin, true_and]
    split_ifs <;> simp
  · have hmono : amount * min duration maxseconds ≤ amount' * min duration maxseconds := by gcongr
    exact min_le_min hle
      (Nat.div_le_div_right (Nat.mul_le_mul_right _ (Nat.div_le_div_right hmono)))
  · have hmono : amount * min duration maxseconds ≤ amount * min duration' maxseconds := by gcongr
    exact Nat.div_le_div_right (Nat.mul_le_mul_right _ (Nat.div_le_div_right hmono))

/-- A negative duration pays the whole deposit before the fork, or nothing. -/
theorem beforeFork_counted_neg {amount APR n : ℕ} (hproduct : amount * n ≤ 2 ^ 63)
    (hAPR : APR ≤ 2500000000) (hamount : amount < 2 ^ 63) :
    min (amount : ℤ) (beforeFork (toInt64 (amount * -(n : ℤ))) APR)
      = (min amount (if 10000 ≤ amount * n / (365 * 24 * 3600) * (APR / 1000000) then amount
        else 0) : ℕ) := by
  have hnegative : toInt64 (amount * -(n : ℤ)) = -(amount * n : ℕ) := by
    rw [mul_neg, ← cast_mul]
    exact toInt64_of_range (by omega) (by omega)
  obtain ⟨hzero, hlarge⟩ := beforeFork_neg hproduct hAPR
  rw [hnegative]
  split_ifs with hpaid
  · have := hlarge hpaid
    omega
  · rw [hzero (by omega)]
    simp

/-- A plan that pays the whole deposit for a negative duration. -/
theorem sound_negativeMax (hmin : minseconds < 2 ^ 32) (hmax : 2 ^ 63 ≤ maxseconds)
    (hmax' : maxseconds < 2 ^ 64) (hmoney : maxMoney < 2 ^ 63)
    (hrates : ∀ rate ≤ 2500,
      10000 ≤ maxMoney * (2 ^ 64 - maxseconds) / (365 * 24 * 3600) * rate →
      10000 * (365 * 24 * 3600) ≤ minseconds * rate) :
    RewardsSound false maxMoney minseconds maxseconds := by
  -- otherwise a rate of 73 would not double the deposit in `2 ^ 32` seconds
  have hfew : maxMoney * (2 ^ 64 - maxseconds) ≤ 2 ^ 63 := by
    by_contra hmany
    have hrate := hrates 73 (by norm_num) (by omega)
    omega
  have hfits : ∀ {amount}, amount ≤ maxMoney → amount * (2 ^ 64 - maxseconds) ≤ 2 ^ 63 :=
    fun hle => (mul_le_mul_right _ hle).trans hfew
  refine sound_of_share (fun amount APR _ =>
      if 10000 ≤ amount * (2 ^ 64 - maxseconds) / (365 * 24 * 3600) * (min APR 2500000000 / 1000000)
      then amount else 0)
    (fun amount APR duration hle hAPR hlt => ?_) (fun amount APR duration hle hlt hlate => ?_)
    (fun amount amount' APR duration hle => ?_) (fun amount APR duration duration' hle => le_rfl)
  · rw [planReward_eq (by omega) (by omega), counted_of_ge hmax hmax', if_neg Bool.false_ne_true,
      beforeFork_counted_neg (hfits hle) hAPR (by omega), min_eq_left hAPR]
    simp only [show minseconds < 2 ^ 63 by omega, true_and]
    split_ifs <;> simp
  · split_ifs with hpaid
    · have hpays : 10000 ≤ maxMoney * (2 ^ 64 - maxseconds) / (365 * 24 * 3600)
          * (min APR 2500000000 / 1000000) :=
        hpaid.trans (Nat.mul_le_mul_right _ (Nat.div_le_div_right (Nat.mul_le_mul_right _ hle)))
      have hdouble := hrates _ (by omega) hpays
      have hrate : min APR 2500000000 / 1000000 * 1000000 ≤ APR :=
        (div_mul_le_self _ _).trans (min_le_left _ _)
      rw [min_eq_left (show duration ≤ maxseconds by omega), le_div_iff_mul_le (by norm_num)]
      calc amount * (2500000000 * (4 * (365 * 24 * 3600)))
          = amount * 1000000 * (10000 * (365 * 24 * 3600)) := by ring
        _ ≤ amount * 1000000 * (minseconds * (min APR 2500000000 / 1000000)) :=
            mul_le_mul_left _ hdouble
        _ = amount * (min APR 2500000000 / 1000000 * 1000000) * minseconds := by ring
        _ ≤ amount * APR * duration := by gcongr
    · exact zero_le _
  · have hmono : amount * (2 ^ 64 - maxseconds) / (365 * 24 * 3600)
          * (min APR 2500000000 / 1000000)
        ≤ amount' * (2 ^ 64 - maxseconds) / (365 * 24 * 3600) * (min APR 2500000000 / 1000000) :=
      Nat.mul_le_mul_right _ (Nat.div_le_div_right (Nat.mul_le_mul_right _ hle))
    split_ifs <;> omega

/-- Where no deposit is early, nothing is paid. -/
theorem sound_negativeMin (hmin : 2 ^ 63 ≤ minseconds) (hmin' : minseconds < 2 ^ 64)
    (hmax' : maxseconds < 2 ^ 64) (hmoney : maxMoney < 2 ^ 63)
    (hrange : InRange hardforkActive maxMoney minseconds maxseconds) :
    RewardsSound hardforkActive maxMoney minseconds maxseconds := by
  refine sound_of_zero fun amount APR duration hle hAPR hlt => ?_
  rw [planReward_eq hmin' (by omega), if_neg (by omega)]
  by_cases hmax : maxseconds < 2 ^ 63
  · have hshort : amount * min duration maxseconds < 4 * (365 * 24 * 3600) :=
      lt_of_le_of_lt (Nat.mul_le_mul hle (counted_le_longest hlt)) (hrange.negativeMin hmin hmax)
    rw [counted_of_lt hmax]
    cases hardforkActive with
    | true =>
      have hnone : amount * APR * min duration maxseconds
          / (2500000000 * (4 * (365 * 24 * 3600))) = 0 := by
        refine div_eq_of_lt ?_
        calc amount * APR * min duration maxseconds
            = APR * (amount * min duration maxseconds) := by ring
          _ ≤ 2500000000 * (amount * min duration maxseconds) := by gcongr
          _ < 2500000000 * (4 * (365 * 24 * 3600)) := by omega
      rw [if_pos rfl, afterFork_of_lt (by omega) hAPR (by omega), hnone]
      simp
    | false =>
      have hyears : amount * min duration maxseconds / (365 * 24 * 3600) * (APR / 1000000)
          ≤ 3 * 2500 := Nat.mul_le_mul (by omega) (by omega)
      rw [if_neg Bool.false_ne_true, ← cast_mul, toInt64_of_lt (by omega),
        beforeFork_of_nonneg (by omega) hAPR, div_eq_of_lt (by omega)]
      simp
  · have hboth := hrange.negativeBoth hmin (by omega)
    rw [counted_of_ge (by omega) hmax']
    cases hardforkActive with
    | true =>
      have hnone : amount = 0 := by
        rw [if_pos rfl] at hboth
        omega
      have hnonneg := afterFork_nonneg amount APR (-(2 ^ 64 - maxseconds : ℕ))
      rw [if_pos rfl, hnone, cast_zero, ← hnone]
      exact min_eq_left hnonneg
    | false =>
      rw [if_neg Bool.false_ne_true] at hboth ⊢
      have hshort : amount * (2 ^ 64 - maxseconds) < 4 * (365 * 24 * 3600) :=
        lt_of_le_of_lt (mul_le_mul_right _ hle) hboth
      have hyears : amount * (2 ^ 64 - maxseconds) / (365 * 24 * 3600) * (APR / 1000000)
          ≤ 3 * 2500 := Nat.mul_le_mul (by omega) (by omega)
      rw [beforeFork_counted_neg (by omega) hAPR (by omega), if_neg (by omega)]
      simp

theorem sound_of_inRange (hmin' : minseconds < 2 ^ 64) (hmax' : maxseconds < 2 ^ 64)
    (hmoney : maxMoney < 2 ^ 63)
    (hrange : InRange hardforkActive maxMoney minseconds maxseconds) :
    RewardsSound hardforkActive maxMoney minseconds maxseconds := by
  by_cases hmin : 2 ^ 63 ≤ minseconds
  · exact sound_negativeMin hmin hmin' hmax' hmoney hrange
  by_cases hlate : 2 ^ 32 ≤ minseconds
  · -- every deposit is early
    refine sound_of_zero fun amount APR duration hle hAPR hlt => ?_
    rw [planReward_eq hmin' (by omega), if_pos (by omega)]
  by_cases hmax : maxseconds < 2 ^ 63
  · have hfits := hrange.positive (by omega) hmax
    cases hardforkActive with
    | true => exact sound_afterFork (by omega) hmax hmoney hfits
    | false => exact sound_beforeFork (by omega) hmax hmoney hfits
  · have hnegative := hrange.negativeMax (by omega) (by omega)
    cases hardforkActive with
    | true =>
      refine sound_of_zero fun amount APR duration hle hAPR hlt => ?_
      have hnone : amount = 0 := by
        rw [if_pos rfl] at hnegative
        omega
      rw [planReward_eq hmin' (by omega), if_pos rfl, hnone, cast_zero,
        min_eq_left (afterFork_nonneg 0 APR _), ite_self]
    | false => exact sound_negativeMax (by omega) (by omega) hmax' hmoney hnegative

/-! ### Plans out of range -/

/-- The first multiple of `T` that reaches a bound. -/
theorem exists_first {bound T : ℕ} (hbound : 0 < bound) (h : bound ≤ maxMoney * T) :
    ∃ m, m + 1 ≤ maxMoney ∧ m * T < bound ∧ bound ≤ (m + 1) * T := by
  have hT : 0 < T := pos_of_ne_zero fun hzero => by rw [hzero, mul_zero] at h; omega
  refine ⟨(bound - 1) / T, ?_, ?_, ?_⟩
  · by_contra hlarge
    have hle : maxMoney * T ≤ (bound - 1) / T * T := mul_le_mul_right _ (by omega)
    have hdiv := div_mul_le_self (bound - 1) T
    omega
  · have hdiv := div_mul_le_self (bound - 1) T
    omega
  · have hdiv := lt_div_mul_add (a := bound - 1) hT
    rw [add_mul, one_mul]
    omega

theorem longest_lt (maxseconds : ℕ) : longest maxseconds < 2 ^ 32 := by
  unfold longest
  omega

/-- With a quotient of more than 64 bits, one satoshi more of deposit pays next to nothing. -/
theorem not_sound_afterFork (hmin : minseconds < 2 ^ 32) (hmax : maxseconds < 2 ^ 63)
    (hmoney : maxMoney < 2 ^ 63)
    (hwraps : 4 * (365 * 24 * 3600) * 2 ^ 64 ≤ maxMoney * longest maxseconds) :
    ¬ RewardsSound true maxMoney minseconds maxseconds := by
  intro h
  obtain ⟨m, hm, hbelow, habove⟩ := exists_first (by norm_num) hwraps
  have hT := longest_lt maxseconds
  have hvalue : ∀ amount ≤ maxMoney,
      planReward true minseconds maxseconds amount 2500000000 (2 ^ 32 - 1)
        = min amount (amount * longest maxseconds / (4 * (365 * 24 * 3600)) % 2 ^ 64 : ℕ) := by
    intro amount hle
    have hshare : amount * 2500000000 * longest maxseconds
          / (2500000000 * (4 * (365 * 24 * 3600)))
        = amount * longest maxseconds / (4 * (365 * 24 * 3600)) := by
      rw [mul_right_comm, mul_comm _ 2500000000]
      exact Nat.mul_div_mul_left _ _ (by norm_num)
    rw [planReward_eq (by omega) (by omega), if_neg (by omega), if_pos rfl, counted_of_lt hmax,
      show min (2 ^ 32 - 1) maxseconds = longest maxseconds from rfl,
      afterFork_of_lt (by omega) le_rfl (by omega), hshare, cast_min]
  have hmono := h.mono_amount m (m + 1) 2500000000 (2 ^ 32 - 1) (by omega) hm
    (maxAPR_iff.2 le_rfl) (by norm_num)
  rw [hvalue m (by omega), hvalue (m + 1) hm] at hmono
  -- the counted duration is short against the divisor, so that the wrap is near zero
  have hstep : (m + 1) * longest maxseconds = m * longest maxseconds + longest maxseconds := by
    ring
  have hlarge : 4 * (365 * 24 * 3600) * 2 ^ 32 < m + 1 := by
    by_contra hsmall
    have hle : (m + 1) * longest maxseconds
        ≤ 4 * (365 * 24 * 3600) * 2 ^ 32 * longest maxseconds := mul_le_mul_right _ (by omega)
    omega
  generalize m * longest maxseconds = product at hbelow hstep hmono
  rw [hstep] at habove hmono
  omega

theorem afterFork_negative (hmax : 2 ^ 63 ≤ maxseconds) (hmax' : maxseconds < 2 ^ 64)
    (duration : ℕ) : min ((1 : ℕ) : ℤ) (afterFork 1 1000000 (counted maxseconds duration)) = 1 := by
  rw [counted_of_ge hmax hmax', afterFork_neg (by omega) (by omega),
    afterFork_of_lt (by norm_num) (by norm_num) (by omega)]
  omega

/-- An amount whose product with a negative duration fits, and that is paid out. -/
theorem exists_paid {n rate : ℕ} (hn : n ≤ 2 ^ 63)
    (hpaid : 10000 ≤ maxMoney * n / (365 * 24 * 3600) * rate) :
    ∃ amount, 0 < amount ∧ amount ≤ maxMoney ∧ amount * n ≤ 2 ^ 63
      ∧ 10000 ≤ amount * n / (365 * 24 * 3600) * rate := by
  have hrate : 0 < rate := pos_of_ne_zero fun hzero => by rw [hzero] at hpaid; omega
  have hproduct : 0 < maxMoney * n := pos_of_ne_zero fun hzero => by rw [hzero] at hpaid; omega
  by_cases hfits : maxMoney * n ≤ 2 ^ 63
  · exact ⟨maxMoney, Nat.pos_of_mul_pos_right hproduct, le_rfl, hfits, hpaid⟩
  · have hnpos : 0 < n := Nat.pos_of_mul_pos_left hproduct
    have hdiv := div_mul_le_self (2 ^ 63) n
    have hlt := lt_div_mul_add (a := 2 ^ 63) hnpos
    have hone : 1 ≤ 2 ^ 63 / n := (one_le_div_iff hnpos).2 hn
    have hself : n ≤ 2 ^ 63 / n * n := Nat.le_mul_of_pos_left n hone
    refine ⟨2 ^ 63 / n, hone, ?_, hdiv, ?_⟩
    · by_contra hlarge
      have hle : maxMoney * n ≤ 2 ^ 63 / n * n := mul_le_mul_right _ (by omega)
      omega
    · have hyears : 10000 ≤ 2 ^ 63 / n * n / (365 * 24 * 3600) := by omega
      calc 10000 ≤ 2 ^ 63 / n * n / (365 * 24 * 3600) * 1 := by omega
        _ ≤ 2 ^ 63 / n * n / (365 * 24 * 3600) * rate := mul_le_mul_left _ hrate

theorem not_sound_negativeMax (hmin : minseconds < 2 ^ 32) (hmax : 2 ^ 63 ≤ maxseconds)
    (hmax' : maxseconds < 2 ^ 64) (hmoney : maxMoney < 2 ^ 63) {rate : ℕ} (hrate : rate ≤ 2500)
    (hpaid : 10000 ≤ maxMoney * (2 ^ 64 - maxseconds) / (365 * 24 * 3600) * rate)
    (hslow : minseconds * rate < 10000 * (365 * 24 * 3600)) :
    ¬ RewardsSound false maxMoney minseconds maxseconds := by
  intro h
  obtain ⟨amount, hpos, hle, hfits, hpays⟩ := exists_paid (by omega) hpaid
  have hAPR : rate * 1000000 / 1000000 = rate := Nat.mul_div_cancel _ (by norm_num)
  obtain ⟨-, hbound⟩ := h.bounded amount (rate * 1000000) minseconds hle
    (maxAPR_iff.2 (by omega)) hmin le_rfl
  rw [planReward_eq (by omega) (by omega), if_neg (by omega), if_neg Bool.false_ne_true,
    counted_of_ge hmax hmax', beforeFork_counted_neg hfits (by omega) (by omega), hAPR,
    if_pos hpays, min_self, share_divisor, min_eq_left (show minseconds ≤ maxseconds by omega)]
    at hbound
  have hshare : amount * (rate * 1000000) * minseconds / (2500000000 * (4 * (365 * 24 * 3600)))
      < amount := by
    refine Nat.div_lt_of_lt_mul ?_
    calc amount * (rate * 1000000) * minseconds
        = amount * (1000000 * (minseconds * rate)) := by ring
      _ < amount * (1000000 * (10000 * (365 * 24 * 3600))) := by gcongr
      _ = 2500000000 * (4 * (365 * 24 * 3600)) * amount := by ring
  exact absurd (by exact_mod_cast hbound) (not_le.2 hshare)

/-- A product that wraps around to a negative one pays the whole deposit. -/
theorem not_sound_beforeFork (hmin : minseconds < 2 ^ 32) (hmax : maxseconds < 2 ^ 63)
    (hmoney : maxMoney < 2 ^ 63) (hwraps : 2 ^ 63 ≤ maxMoney * longest maxseconds) :
    ¬ RewardsSound false maxMoney minseconds maxseconds := by
  intro h
  obtain ⟨m, hm, hbelow, habove⟩ := exists_first (by norm_num) hwraps
  have hT := longest_lt maxseconds
  have hstep : (m + 1) * longest maxseconds = m * longest maxseconds + longest maxseconds := by
    ring
  obtain ⟨-, hbound⟩ := h.bounded (m + 1) 1000000 (2 ^ 32 - 1) hm (maxAPR_iff.2 (by norm_num))
    (by norm_num) (by omega)
  have hnegative : toInt64 ((m + 1 : ℕ) * (longest maxseconds : ℕ))
      = -(2 ^ 64 - (m + 1) * longest maxseconds : ℕ) := by
    rw [← cast_mul]
    exact toInt64_of_ge habove (by omega)
  have hreward : min ((m + 1 : ℕ) : ℤ) (beforeFork (-(2 ^ 64 - (m + 1) * longest maxseconds : ℕ))
      1000000) = (m + 1 : ℕ) := by
    have hlarge := (beforeFork_neg (show 2 ^ 64 - (m + 1) * longest maxseconds ≤ 2 ^ 63 by omega)
      (show 1000000 ≤ 2500000000 by norm_num)).2 (by omega)
    omega
  rw [planReward_eq (by omega) (by omega), if_neg (by omega), if_neg Bool.false_ne_true,
    counted_of_lt hmax, show min (2 ^ 32 - 1) maxseconds = longest maxseconds from rfl, hnegative,
    hreward, share_divisor] at hbound
  have hshare : (m + 1) * 1000000 * longest maxseconds / (2500000000 * (4 * (365 * 24 * 3600)))
      < m + 1 := by
    refine Nat.div_lt_of_lt_mul ?_
    calc (m + 1) * 1000000 * longest maxseconds
        = (m + 1) * (1000000 * longest maxseconds) := by ring
      _ < (m + 1) * (2500000000 * (4 * (365 * 24 * 3600))) :=
          mul_lt_mul_of_pos_left (by omega) (succ_pos m)
      _ = 2500000000 * (4 * (365 * 24 * 3600)) * (m + 1) := by ring
  exact absurd (by exact_mod_cast hbound) (not_le.2 hshare)

/-- With `minseconds` from `2 ^ 63` on, a reward is paid to every deposit, however early. -/
theorem not_sound_negativeMin (hmin : 2 ^ 63 ≤ minseconds) (hmin' : minseconds < 2 ^ 64)
    (hmax : maxseconds < 2 ^ 63) (hmoney : maxMoney < 2 ^ 63)
    (hpaid : 4 * (365 * 24 * 3600) ≤ maxMoney * longest maxseconds) :
    ¬ RewardsSound hardforkActive maxMoney minseconds maxseconds := by
  intro h
  obtain ⟨m, hm, hbelow, habove⟩ := exists_first (by norm_num) hpaid
  have hT := longest_lt maxseconds
  have hstep : (m + 1) * longest maxseconds = m * longest maxseconds + longest maxseconds := by
    ring
  have hearly := h.early (m + 1) 2500000000 (2 ^ 32 - 1) hm (maxAPR_iff.2 le_rfl) (by norm_num)
    (by omega)
  rw [planReward_eq hmin' (by omega), if_neg (by omega), counted_of_lt hmax,
    show min (2 ^ 32 - 1) maxseconds = longest maxseconds from rfl] at hearly
  cases hardforkActive with
  | true =>
    have hshare : (m + 1) * 2500000000 * longest maxseconds
          / (2500000000 * (4 * (365 * 24 * 3600)))
        = (m + 1) * longest maxseconds / (4 * (365 * 24 * 3600)) := by
      rw [mul_right_comm, mul_comm _ 2500000000]
      exact Nat.mul_div_mul_left _ _ (by norm_num)
    rw [if_pos rfl, afterFork_of_lt (by omega) le_rfl (by omega), hshare] at hearly
    omega
  | false =>
    rw [if_neg Bool.false_ne_true, ← cast_mul, toInt64_of_lt (by omega),
      beforeFork_of_nonneg (by omega) le_rfl] at hearly
    omega

theorem not_sound_negativeBoth (hmin : 2 ^ 63 ≤ minseconds) (hmin' : minseconds < 2 ^ 64)
    (hmax : 2 ^ 63 ≤ maxseconds) (hmax' : maxseconds < 2 ^ 64) (hmoney : maxMoney < 2 ^ 63)
    (hpaid : 4 * (365 * 24 * 3600) ≤ maxMoney * (2 ^ 64 - maxseconds)) :
    ¬ RewardsSound false maxMoney minseconds maxseconds := by
  intro h
  have hyears : 10000 ≤ maxMoney * (2 ^ 64 - maxseconds) / (365 * 24 * 3600) * 2500 := by omega
  obtain ⟨amount, hpos, hle, hfits, hpays⟩ := exists_paid (by omega) hyears
  have hearly := h.early amount 2500000000 0 hle (maxAPR_iff.2 le_rfl) (by norm_num) (by omega)
  rw [planReward_eq hmin' (by omega), if_neg (by omega), if_neg Bool.false_ne_true,
    counted_of_ge hmax hmax', beforeFork_counted_neg hfits le_rfl (by omega),
    if_pos hpays] at hearly
  omega

theorem inRange_of_sound (hmin' : minseconds < 2 ^ 64) (hmax' : maxseconds < 2 ^ 64)
    (hmoney : maxMoney < 2 ^ 63)
    (h : RewardsSound hardforkActive maxMoney minseconds maxseconds) :
    InRange hardforkActive maxMoney minseconds maxseconds where
  positive hmin hmax := by
    by_contra hwraps
    cases hardforkActive with
    | true => exact not_sound_afterFork hmin hmax hmoney (Nat.le_of_not_lt hwraps) h
    | false => exact not_sound_beforeFork hmin hmax hmoney (Nat.le_of_not_lt hwraps) h
  negativeMax hmin hmax := by
    cases hardforkActive with
    | true =>
      rw [if_pos rfl]
      by_contra hsome
      obtain ⟨-, hbound⟩ := h.bounded 1 1000000 minseconds (by omega) (maxAPR_iff.2 (by norm_num))
        hmin le_rfl
      rw [planReward_eq hmin' (by norm_num), if_neg (by omega), if_pos rfl,
        afterFork_negative hmax hmax', share_divisor] at hbound
      omega
    | false =>
      rw [if_neg Bool.false_ne_true]
      intro rate hrate hpaid
      by_contra hslow
      exact not_sound_negativeMax hmin hmax hmax' hmoney hrate hpaid (Nat.lt_of_not_le hslow) h
  negativeMin hmin hmax := by
    by_contra hpaid
    exact not_sound_negativeMin hmin hmin' hmax hmoney (Nat.le_of_not_lt hpaid) h
  negativeBoth hmin hmax := by
    cases hardforkActive with
    | true =>
      rw [if_pos rfl]
      by_contra hsome
      have hearly := h.early 1 1000000 0 (by omega) (maxAPR_iff.2 (by norm_num)) (by norm_num)
        (by omega)
      rw [planReward_eq hmin' (by norm_num), if_neg (by omega), if_pos rfl,
        afterFork_negative hmax hmax'] at hearly
      omega
    | false =>
      rw [if_neg Bool.false_ne_true]
      by_contra hpaid
      exact not_sound_negativeBoth hmin hmin' hmax hmax' hmoney (Nat.le_of_not_lt hpaid) h

end

/-- **The bounds of a reward hold exactly for the plans in range.** -/
theorem rewardsSound_iff (hardforkActive : Bool) {maxMoney minseconds : ℕ}
    (hmoney : maxMoney < 2 ^ 63) (hmin : minseconds < 2 ^ 64) (hmax : maxseconds < 2 ^ 64) :
    RewardsSound hardforkActive maxMoney minseconds maxseconds
      ↔ InRange hardforkActive maxMoney minseconds maxseconds :=
  ⟨inRange_of_sound hmin hmax hmoney, sound_of_inRange hmin hmax hmoney⟩

/-- After the fork, a plan of at least one day and at most a year is in range. -/
theorem rewardsSound_year : RewardsSound true 20000000000000000 86400 31536000 :=
  (rewardsSound_iff true (by norm_num) (by norm_num) (by norm_num)).2
    ⟨fun _ _ => by decide, fun _ hmax => by omega, fun hmin => by omega, fun hmin => by omega⟩

/-- **Before the fork, 1000 coins are paid twice.** A deposit of 1000 coins at ten percent a year
has earned 317 coins after `10 ^ 8` seconds, and the whole of it is the reward. -/
theorem deposit_doubled : ¬ ∀ (hardforkActive : Bool) (maxMoney minseconds maxseconds : ℕ),
    maxMoney < 2 ^ 63 → minseconds < 2 ^ 64 → maxseconds < 2 ^ 64 →
    RewardsSound hardforkActive maxMoney minseconds maxseconds := by
  intro hall
  have hbound := (hall false 20000000000000000 0 100000000 (by norm_num) (by norm_num)
    (by norm_num)).bounded 100000000000 1000000000 100000000 (by norm_num) (by decide) (by norm_num)
    (by norm_num)
  have hreward : planReward false 0 100000000 100000000000 1000000000 100000000 = 100000000000 := by
    decide
  rw [hreward] at hbound
  exact absurd hbound.2 (by decide)

end RewardsEnv

end Komodo
