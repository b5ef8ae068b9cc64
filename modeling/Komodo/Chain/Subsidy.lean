/-
# The subsidy and the supply of an asset chain

`komodo_ac_block_subsidy`, `komodo_current_supply` and `komodo_max_money` of
`src/src/komodo_utils.cpp`.

The heights are divided into eras.  In an era the reward is the same for every block, or it
changes after every `HALVING` blocks: it is halved, it is multiplied by a `DECAY` below one, or it
moves in equal steps to the reward of the next era.  The subsidy follows the rewards block by
block; the supply adds up what the eras pay until some height, and the most that can be in
circulation is set to the supply at ten million.

The subsidy keeps the last reward that it has multiplied out.  A call gives the same subsidy
whatever calls came before it (`subsidyAfter_eq`).

Signed arithmetic wraps, the build passes `-fwrapv`.
-/

import Komodo.CC.Checks
import Komodo.Staking.Stake

namespace Komodo

open Staking (toUint32 SATOSHIDEN)

def ASSETCHAINS_GENESISTXVAL : ℤ := 5000000000

def KOMODO_MAXNVALUE : ℤ := 2 ^ 63 - 1

/-- The parameters of an asset chain, as `komodo_args` leaves them. -/
structure AssetChain where
  /-- `ASSETCHAINS_LASTERA`. -/
  LASTERA : ℕ
  ENDSUBSIDY : ℕ → ℕ
  REWARD : ℕ → ℕ
  HALVING : ℕ → ℕ
  DECAY : ℕ → ℕ
  SUPPLY : ℕ
  MAGIC : ℕ
  COMMISSION : ℕ
  /-- `ASSETCHAINS_STAKED` is not zero. -/
  STAKED : Bool
  /-- `is_STAKED(chainName.symbol())`. -/
  isStaked : ℕ
  /-- What `>>` gives where it shifts all bits out, which the language leaves open. -/
  wideShift : ℤ → ℤ → ℤ
  end_lt : ∀ j, ENDSUBSIDY j < 2 ^ 64
  reward_lt : ∀ j, REWARD j < 2 ^ 64
  halving_lt : ∀ j, HALVING j < 2 ^ 64
  decay_le : ∀ j, DECAY j ≤ 100000000
  /-- A linear era has an end. -/
  linear_ends : ∀ j, DECAY j = 100000000 → ENDSUBSIDY j ≠ 0
  supply_le : SUPPLY ≤ 90 * 1000 * 1000000
  magic_lt : MAGIC < 2 ^ 32
  commission_lt : COMMISSION < 2 ^ 64

namespace AssetChain

variable (c : AssetChain)

/-! ### The subsidy of a block -/

/-- The static variables of `komodo_ac_block_subsidy`. -/
structure SubsidyCache where
  cached_subsidy : ℤ
  cached_numhalvings : ℤ
  cached_era : ℕ

def curEra (nHeight : ℤ) : ℕ :=
  if c.ENDSUBSIDY 0 ≠ 0 then
    ((List.range (c.LASTERA + 1)).find? fun j =>
      toUint64 nHeight < c.ENDSUBSIDY j ∨ c.ENDSUBSIDY j = 0).getD (c.LASTERA + 1)
  else 0

/-- The end of the era before. -/
def start (j : ℕ) : ℕ := if j = 0 then 0 else c.ENDSUBSIDY (j - 1)

def nStart (j : ℕ) : ℤ := toInt64 (c.start j)

/-- `numhalvings`, an `int32_t`. -/
def numhalvings (j : ℕ) (nHeight : ℤ) : ℤ :=
  (toUint64 (nHeight - c.nStart j) / c.HALVING j).bmod (2 ^ 32)

/-- `subsidy >>= numhalvings`. -/
def shifted (subsidy numhalvings : ℤ) : ℤ :=
  if numhalvings < 64 then subsidy / 2 ^ numhalvings.toNat else c.wideShift subsidy numhalvings

/-- The loop that multiplies the decay out. -/
def decayed (decay : ℕ) : (numhalvings : ℕ) → (subsidy : ℤ) → ℤ
  | 0, subsidy => subsidy
  | numhalvings + 1, subsidy =>
    if subsidy ≠ 0 then
      decayed decay numhalvings (toInt64 (toUint64 (subsidy * decay) / 100000000))
    else subsidy

/-- What the reward has to cover until the end of the era, with its sign. -/
def subsidyDifference (j : ℕ) (subsidy : ℤ) : ℤ × ℤ :=
  if j = c.LASTERA then (subsidy, 1)
  else
    let difference := toInt64 (subsidy - c.REWARD (j + 1))
    if difference < 0 then (toInt64 (difference * -1), -1) else (difference, 1)

/-- The subsidy in a linear era. -/
def linearSubsidy (j : ℕ) (nHeight subsidy : ℤ) : ℤ :=
  let (difference, sign) := c.subsidyDifference j subsidy
  let denominator := toInt64 (c.ENDSUBSIDY j - c.nStart j)
  let numerator := toInt64 (denominator
    - (toUint64 (c.ENDSUBSIDY j - nHeight) + toUint64 (nHeight - c.nStart j) % c.HALVING j))
  toInt64 (subsidy - sign * (toInt64 (difference * numerator)).tdiv denominator)

/-- The reward of the era, before what the first blocks pay besides. -/
def eraSubsidy (cache : SubsidyCache) (nHeight : ℤ) : ℤ × SubsidyCache :=
  if c.ENDSUBSIDY 0 = 0 ∧ c.REWARD 0 = 0 then (10000, cache)
  else
    let j := c.curEra nHeight
    if c.LASTERA < j then (0, cache)
    else
      let subsidy := toInt64 (c.REWARD j)
      if subsidy = 0 ∧ (j = c.LASTERA ∨ c.REWARD (j + 1) = 0) then (subsidy, cache)
      else if c.HALVING j = 0 then (subsidy, cache)
      else
        let numhalvings := c.numhalvings j nHeight
        if numhalvings ≤ 0 then (subsidy, cache)
        else if c.DECAY j = 0 then (c.shifted subsidy numhalvings, cache)
        else if c.DECAY j = 100000000 ∧ c.ENDSUBSIDY j ≠ 0 then
          (c.linearSubsidy j nHeight subsidy, cache)
        else if 0 < cache.cached_subsidy ∧ cache.cached_era = j
            ∧ cache.cached_numhalvings = numhalvings then
          (toInt64 cache.cached_subsidy, cache)
        else
          let subsidy := decayed (c.DECAY j) numhalvings.toNat subsidy
          (subsidy, { cached_subsidy := toUint64 subsidy, cached_numhalvings := numhalvings,
                      cached_era := j })

def magicExtra : ℕ := if c.STAKED then c.MAGIC else c.MAGIC % 2 ^ 24

/-- What a block pays besides the reward of its era, or in its place. -/
def withPremine (nHeight subsidy : ℤ) : ℤ :=
  if 10000000000 < c.SUPPLY then
    if toUint64 nHeight ≤ (c.SUPPLY / 1000000000 : ℕ) then
      let subsidy := subsidy + 1000000000 * COIN
      if nHeight = 1 then subsidy + (c.SUPPLY % 1000000000 : ℕ) * COIN + c.magicExtra
      else subsidy
    else subsidy
  else if nHeight = 1 then
    if c.LASTERA = 0 then c.SUPPLY * SATOSHIDEN + c.magicExtra
    else subsidy + c.SUPPLY * SATOSHIDEN + c.magicExtra
  else if c.isStaked = 2 then 0
  else subsidy

def komodoAcBlockSubsidy (cache : SubsidyCache) (nHeight : ℤ) : ℤ × SubsidyCache :=
  let (subsidy, cache) := c.eraSubsidy cache nHeight
  (toUint64 (c.withPremine nHeight subsidy), cache)

/-! ### The supply at a height -/

/-- The era and those behind it pay nothing more. -/
def noMoreRewards (nHeight : ℤ) (j : ℕ) : Prop :=
  j ≠ 0 ∧ (nHeight ≤ c.ENDSUBSIDY (j - 1)
    ∨ c.ENDSUBSIDY (j - 1) = 0 ∧ c.REWARD j = 0 ∧ (j = c.LASTERA ∨ c.DECAY j ≠ SATOSHIDEN))

instance (nHeight : ℤ) (j : ℕ) : Decidable (c.noMoreRewards nHeight j) :=
  inferInstanceAs (Decidable (_ ∧ _))

def curEnd (nHeight : ℤ) (j : ℕ) : ℤ :=
  if c.ENDSUBSIDY j = 0 then nHeight
  else if c.ENDSUBSIDY j < nHeight then c.ENDSUBSIDY j
  else nHeight

/-- The reward after another period, as the supply has it. -/
def nextReward (decay : ℕ) (reward : ℤ) : ℤ :=
  if decay ≠ 0 then toInt64 (toUint64 (reward * decay) / SATOSHIDEN) else reward / 2

/-- The loop over the periods of an era, whose counter is an `int`: the money and the reward behind
it, or nothing where the fuel is used up. -/
def periodLoop (decay : ℕ) (period curEnd : ℤ) :
    (fuel : ℕ) → (k reward cur_money : ℤ) → Option (ℤ × ℤ)
  | 0, _, _, _ => none
  | fuel + 1, k, reward, cur_money =>
    if toUint64 k < curEnd then
      periodLoop decay period curEnd fuel ((k + period).bmod (2 ^ 32)) (nextReward decay reward)
        (toUint64 (cur_money + period * reward))
    else some (cur_money, reward)

/-- What a linear era adds.  The `modulo` that it multiplies with is a variable of its own, which is
one. -/
def linearSupply (j : ℕ) (reward period nSteps blocks : ℤ) : ℤ :=
  let (difference, sign) := c.subsidyDifference j reward
  let denominator := if toInt64 (nSteps * period) = 0 then 1 else toInt64 (nSteps * period)
  let stepDifference := toInt64 (toUint64 (period * difference) / toUint64 denominator)
  let stepTriangle := toInt64 (toUint64 (period * stepDifference) / 2)
  if sign < 0 then
    stepTriangle * toUint32 (nSteps - 1)
      + stepTriangle * toUint32 (nSteps - 1) * toUint32 (nSteps - 1)
      + 1 * stepDifference * nSteps + reward * blocks
  else
    stepTriangle * nSteps + stepTriangle * nSteps * nSteps
      + (reward - stepDifference * nSteps) * blocks

/-- What an era adds to the money. -/
def eraSupply (fuel : ℕ) (nHeight : ℤ) (j : ℕ) (cur_money : ℤ) : Option ℤ :=
  let reward := toInt64 (c.REWARD j)
  if 0 < reward then
    let blocks := toUint64 (c.curEnd nHeight j - c.start j)
    let period : ℤ := if c.HALVING j = 0 then 210000 else c.HALVING j
    let nSteps := toUint32 (blocks / period)
    let modulo := toUint32 (blocks % period)
    if c.HALVING j = 0 then
      some (toUint64 (cur_money + reward * toUint32 (nHeight - 1)))
    else if c.DECAY j = SATOSHIDEN then
      some (toUint64 (cur_money + c.linearSupply j reward period nSteps blocks))
    else do
      let (cur_money, reward) ← periodLoop (c.DECAY j) period (c.curEnd nHeight j) fuel
        ((c.start j : ℤ).bmod (2 ^ 32)) reward cur_money
      some (toUint64 (cur_money + modulo * reward))
  else some cur_money

/-- The loop over the eras. -/
def erasSupply (fuel : ℕ) (nHeight : ℤ) : (eras : List ℕ) → (cur_money : ℤ) → Option ℤ
  | [], cur_money => some cur_money
  | j :: eras, cur_money =>
    if c.noMoreRewards nHeight j then some cur_money
    else do
      let cur_money ← c.eraSupply fuel nHeight j cur_money
      erasSupply fuel nHeight eras cur_money

/-- The money before the first reward. -/
def initialMoney : ℤ :=
  (c.SUPPLY + 1) * SATOSHIDEN + (c.MAGIC % 2 ^ 24 : ℕ) + ASSETCHAINS_GENESISTXVAL

/-- The commission on the money, and what stands for more than the type holds. -/
def withCommission (cur_money : ℤ) : ℤ :=
  if 2 ^ 63 ≤ cur_money then KOMODO_MAXNVALUE
  else if c.COMMISSION ≠ 0 then
    let newval := toUint64 (cur_money + cur_money / COIN * c.COMMISSION)
    if 2 ^ 63 ≤ newval then KOMODO_MAXNVALUE
    else if newval < cur_money then KOMODO_MAXNVALUE
    else newval
  else cur_money

/-- `komodo_current_supply`, with the fuel for the loops over the periods. -/
def komodoCurrentSupply (fuel : ℕ) (nHeight : ℤ) : Option ℤ :=
  let cur_money := toUint64 c.initialMoney
  if c.LASTERA = 0 ∧ c.REWARD 0 = 0 then
    some (c.withCommission (toUint64 (cur_money + toUint32 (nHeight * 10000))))
  else (c.erasSupply fuel nHeight (List.range (c.LASTERA + 1)) cur_money).map c.withCommission

def komodoMaxMoney (fuel : ℕ) : Option ℤ := c.komodoCurrentSupply fuel 10000000

/-! ### The cached reward -/

/-- The static variables before the first call. -/
def SubsidyCache.init : SubsidyCache :=
  { cached_subsidy := 0, cached_numhalvings := 0, cached_era := 0 }

/-- What is cached is the reward of its era after its halvings. -/
def Coherent (cache : SubsidyCache) : Prop :=
  0 < cache.cached_subsidy → toInt64 cache.cached_subsidy
    = decayed (c.DECAY cache.cached_era) cache.cached_numhalvings.toNat
        (toInt64 (c.REWARD cache.cached_era))

/-- The static variables after the calls for some heights. -/
def cacheAfter (calls : List ℤ) : SubsidyCache :=
  calls.foldl (fun cache nHeight => (c.komodoAcBlockSubsidy cache nHeight).2) .init

/-- The subsidy of a block, after the calls for some heights. -/
def subsidyAfter (calls : List ℤ) (nHeight : ℤ) : ℤ :=
  (c.komodoAcBlockSubsidy (c.cacheAfter calls) nHeight).1

variable {c}

theorem decayed_bounds {decay n : ℕ} {subsidy : ℤ}
    (h : -2 ^ 63 ≤ subsidy ∧ subsidy < 2 ^ 63) :
    -2 ^ 63 ≤ decayed decay n subsidy ∧ decayed decay n subsidy < 2 ^ 63 := by
  induction n generalizing subsidy with
  | zero => exact h
  | succ n ih =>
    unfold decayed
    split_ifs
    · exact ih (toInt64_bounds _)
    · exact h

theorem coherent_init : c.Coherent .init := fun h => absurd h (lt_irrefl 0)

/-- A coherent cache stays coherent, and gives the reward that would be computed without it. -/
theorem eraSubsidy_of_coherent {cache : SubsidyCache} (h : c.Coherent cache) (nHeight : ℤ) :
    (c.eraSubsidy cache nHeight).1 = (c.eraSubsidy .init nHeight).1
      ∧ c.Coherent (c.eraSubsidy cache nHeight).2 := by
  unfold eraSubsidy
  extract_lets j subsidy numhalvings reward
  have hstored : toInt64 (toUint64 reward) = reward := by
    have hbounds : -2 ^ 63 ≤ reward ∧ reward < 2 ^ 63 := decayed_bounds (toInt64_bounds _)
    rw [toInt64_toUint64, toInt64_of_range hbounds.1 hbounds.2]
  have hinit : ¬(0 < SubsidyCache.init.cached_subsidy ∧ SubsidyCache.init.cached_era = j
      ∧ SubsidyCache.init.cached_numhalvings = numhalvings) := fun hcached => lt_irrefl 0 hcached.1
  rw [if_neg hinit]
  split_ifs with _ _ _ _ _ _ _ hcached
  all_goals try exact ⟨rfl, h⟩
  · obtain ⟨hpos, hera, hnum⟩ := hcached
    refine ⟨?_, h⟩
    rw [h hpos, hera, hnum]
  · exact ⟨rfl, fun _ => hstored⟩

theorem coherent_cacheAfter (calls : List ℤ) : c.Coherent (c.cacheAfter calls) := by
  suffices hrun : ∀ cache, c.Coherent cache → c.Coherent
      (calls.foldl (fun cache nHeight => (c.komodoAcBlockSubsidy cache nHeight).2) cache) from
    hrun _ coherent_init
  induction calls with
  | nil => exact fun _ h => h
  | cons nHeight calls ih => exact fun cache h => ih _ (eraSubsidy_of_coherent h nHeight).2

/-- **The calls before do not matter.** -/
theorem subsidyAfter_eq (calls : List ℤ) (nHeight : ℤ) :
    c.subsidyAfter calls nHeight
      = toUint64 (c.withPremine nHeight (c.eraSubsidy .init nHeight).1) := by
  show toUint64 (c.withPremine nHeight (c.eraSubsidy (c.cacheAfter calls) nHeight).1) = _
  rw [(eraSubsidy_of_coherent (coherent_cacheAfter calls) nHeight).1]

end AssetChain
end Komodo
