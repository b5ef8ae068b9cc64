/-
# The work of the next block

`GetNextWorkRequired` and `CalculateNextWorkRequired` of `src/src/pow.cpp` and `GetMedianTimePast`
of `src/src/chain.h`, where `ASSETCHAINS_ADAPTIVEPOW` is not positive.

The target of a block is the mean of the targets of the last 17 blocks, divided by the time that
they should have taken and multiplied by a time between `MinActualTimespan` and `MaxActualTimespan`.
17 times the limit of the targets is the largest number of 256 bits, so that the sum still fits, and
the division that comes first leaves room for the product.  What it cuts off is lost, up to one
`MinActualTimespan` (`calculateNextWorkRequired_spec`).
-/

import Komodo.Staking.PoWTarget

namespace Komodo
namespace NextWork

open BaseUint ArithUint256 Staking List

/-- What is read of a block index. -/
structure BlockIndex where
  nBits : UInt32
  nTime : UInt32

/-- `Consensus::Params` of KMD. -/
structure PowParams where
  powLimit : ArithUint256 := ⟨List.replicate 8 0x0f0f0f0f, rfl⟩
  nPowAveragingWindow : ℕ := 17
  nPowMaxAdjustDown : ℤ := 32
  nPowMaxAdjustUp : ℤ := 16
  nPowTargetSpacing : ℤ := 60

namespace PowParams

def averagingWindowTimespan (params : PowParams) : ℤ :=
  params.nPowAveragingWindow * params.nPowTargetSpacing

def minActualTimespan (params : PowParams) : ℤ :=
  (params.averagingWindowTimespan * (100 - params.nPowMaxAdjustUp)).tdiv 100

def maxActualTimespan (params : PowParams) : ℤ :=
  (params.averagingWindowTimespan * (100 + params.nPowMaxAdjustDown)).tdiv 100

end PowParams

/-- `GetCompact()` of a number that is not negative. -/
def compact (a : ArithUint256) : UInt32 := (getCompact a false).getD 0

/-- The target that a compact number stands for. -/
def target (nBits : UInt32) : ArithUint256 := (setCompact nBits).1

/-- `GetMedianTimePast`: the middle one of the last eleven times. -/
def getMedianTimePast (chain : List BlockIndex) : ℤ :=
  let times := ((chain.take 11).map fun index => (index.nTime.toNat : ℤ)).mergeSort
  times.getD (times.length / 2) 0

/-- `CalculateNextWorkRequired`. The time span becomes a `uint32_t`. -/
def calculateNextWorkRequired (params : PowParams) (adaptivePow : ℤ) (bnAvg : ArithUint256)
    (nLastBlockTime nFirstBlockTime : ℤ) : Except String UInt32 := do
  let timespan := params.averagingWindowTimespan
  let nActualTimespan := timespan + (nLastBlockTime - nFirstBlockTime - timespan).tdiv 4
  let nActualTimespan :=
    if adaptivePow ≤ 0 then min (max nActualTimespan params.minActualTimespan)
      params.maxActualTimespan
    else nActualTimespan
  let bnNew ← bnAvg.div (arithUint256 timespan)
  let bnNew := bnNew.mulSmall (UInt32.ofNat (nActualTimespan % 2 ^ 32).toNat)
  return compact (if bnNew.gt params.powLimit then params.powLimit else bnNew)

/-- The sum of the targets of the window. -/
def bnTot (params : PowParams) (chain : List BlockIndex) : ArithUint256 :=
  (chain.take params.nPowAveragingWindow).foldl (fun tot index => tot.add (target index.nBits))
    (BaseUint.zero 8)

/-- `GetNextWorkRequired`, with the chain from `pindexLast` back to the first block. -/
def getNextWorkRequired (params : PowParams) (adaptivePow : ℤ) (chain : List BlockIndex) :
    Except String UInt32 :=
  match chain.drop params.nPowAveragingWindow with
  | [] => return compact params.powLimit
  | pindexFirst => do
    let bnAvg ← (bnTot params chain).div (arithUint256 params.nPowAveragingWindow)
    calculateNextWorkRequired params adaptivePow bnAvg (getMedianTimePast chain)
      (getMedianTimePast pindexFirst)

/-! ### The parameters of KMD -/

/-- 17 times the limit is the largest number of 256 bits. -/
theorem value_powLimit : 17 * ({} : PowParams).powLimit.value = 2 ^ 256 - 1 := by
  decide

theorem getCompact_eq (a : ArithUint256) : getCompact a false = some (compact a) := by
  obtain ⟨c, hc, -⟩ := getCompact_spec a false
  rw [compact, hc, Option.getD_some]

theorem target_compact_le (a : ArithUint256) : (target (compact a)).value ≤ a.value :=
  (setCompact_getCompact (getCompact_eq a)).1.1.1

theorem value_foldl_add {chain : List BlockIndex} {tot : ArithUint256}
    (h : tot.value + (chain.map fun index => (target index.nBits).value).sum < 2 ^ 256) :
    (chain.foldl (fun tot index => tot.add (target index.nBits)) tot).value =
      tot.value + (chain.map fun index => (target index.nBits).value).sum := by
  induction chain generalizing tot with
  | nil => rfl
  | cons index chain ih =>
    rw [map_cons, sum_cons] at h ⊢
    have hadd : (tot.add (target index.nBits)).value = tot.value + (target index.nBits).value := by
      rw [value_add, Nat.mod_eq_of_lt (by omega)]
    rw [foldl_cons, ih (by omega), hadd, Nat.add_assoc]

/-- **The mean is divided by the time span and multiplied by one within its bounds**, without an
overflow. -/
theorem calculateNextWorkRequired_spec {adaptivePow : ℤ} (hpow : adaptivePow ≤ 0)
    {bnAvg : ArithUint256} (havg : bnAvg.value ≤ ({} : PowParams).powLimit.value)
    (nLastBlockTime nFirstBlockTime : ℤ) :
    ∃ (bnNew : ArithUint256) (span : ℕ), (856 ≤ span ∧ span ≤ 1346)
      ∧ bnAvg.value / 1020 * span < 2 ^ 256
      ∧ bnNew.value = min (bnAvg.value / 1020 * span) ({} : PowParams).powLimit.value
      ∧ calculateNextWorkRequired {} adaptivePow bnAvg nLastBlockTime nFirstBlockTime
        = .ok (compact bnNew) := by
  have hlimit := value_powLimit
  obtain ⟨q, hq, hvalue⟩ := div_arithUint256 bnAvg (n := 1020) (by decide)
  unfold calculateNextWorkRequired
  rw [show ({} : PowParams).averagingWindowTimespan = 1020 from rfl,
    show ({} : PowParams).minActualTimespan = 856 from rfl,
    show ({} : PowParams).maxActualTimespan = 1346 from rfl]
  dsimp only
  rw [hq, if_pos hpow]
  generalize 1020 + (nLastBlockTime - nFirstBlockTime - 1020).tdiv 4 = n
  obtain ⟨span, hspan⟩ : ∃ span : ℕ, min (max n 856) 1346 = span :=
    ⟨_, (Int.toNat_of_nonneg (by omega)).symm⟩
  have hbounds : 856 ≤ span ∧ span ≤ 1346 := by omega
  have hword : (UInt32.ofNat (min (max n 856) 1346 % 2 ^ 32).toNat).toNat = span := by
    have hsize : UInt32.size = 2 ^ 32 := rfl
    rw [hspan, UInt32.toNat_ofNat_of_lt' (by omega)]
    omega
  have hquot : q.value * 1020 ≤ bnAvg.value := by
    rw [hvalue]
    exact Nat.div_mul_le_self _ _
  have hfits : q.value * span < 2 ^ 256 := by
    have := Nat.mul_le_mul_left q.value hbounds.2
    omega
  have hmul : (q.mulSmall (UInt32.ofNat (min (max n 856) 1346 % 2 ^ 32).toNat)).value
      = q.value * span := by
    rw [value_mulSmall, hword, Nat.mod_eq_of_lt hfits]
  have hdiv : bnAvg.value / 1020 = q.value := hvalue.symm
  refine ⟨_, span, hbounds, hdiv ▸ hfits, ?_, rfl⟩
  rw [hdiv]
  split_ifs with hgt
  · rw [gt_iff, hmul] at hgt
    exact (min_eq_right hgt.le).symm
  · rw [gt_iff, hmul, not_lt] at hgt
    rw [hmul, min_eq_left hgt]

/-- The work after a chain that is longer than the window. -/
theorem getNextWorkRequired_spec {adaptivePow : ℤ} (hpow : adaptivePow ≤ 0)
    {chain : List BlockIndex} (hlength : 17 < chain.length)
    (htarget : ∀ index ∈ chain.take 17,
      (target index.nBits).value ≤ ({} : PowParams).powLimit.value) :
    let sum := ((chain.take 17).map fun index => (target index.nBits).value).sum
    ∃ (bnNew : ArithUint256) (span : ℕ), (856 ≤ span ∧ span ≤ 1346)
      ∧ sum < 2 ^ 256 ∧ sum / 17 / 1020 * span < 2 ^ 256
      ∧ bnNew.value = min (sum / 17 / 1020 * span) ({} : PowParams).powLimit.value
      ∧ getNextWorkRequired {} adaptivePow chain = .ok (compact bnNew) := by
  intro sum
  have hlimit := value_powLimit
  have hsum : sum ≤ 17 * ({} : PowParams).powLimit.value := by
    have hcard := sum_le_card_nsmul
      ((chain.take 17).map fun index => (target index.nBits).value) _ fun v hv => by
        obtain ⟨index, hindex, rfl⟩ := mem_map.1 hv
        exact htarget index hindex
    rwa [length_map, length_take, min_eq_left hlength.le, smul_eq_mul] at hcard
  have htot : (bnTot {} chain).value = sum := by
    rw [bnTot, value_foldl_add, value_zero, Nat.zero_add]
    rw [value_zero, Nat.zero_add]
    exact lt_of_le_of_lt hsum (by omega)
  obtain ⟨q, hq, hvalue⟩ := div_arithUint256 (bnTot {} chain) (n := 17) (by decide)
  rw [htot] at hvalue
  have hmean : q.value = sum / 17 := hvalue
  have havg : q.value ≤ ({} : PowParams).powLimit.value := by omega
  obtain ⟨first, rest, hdrop⟩ : ∃ first rest, chain.drop 17 = first :: rest :=
    exists_cons_of_ne_nil fun h => by
      rw [drop_eq_nil_iff] at h
      omega
  obtain ⟨bnNew, span, hspan, hfits, hnew, hcalc⟩ := calculateNextWorkRequired_spec hpow havg
    (getMedianTimePast chain) (getMedianTimePast (first :: rest))
  rw [hmean] at hfits hnew
  refine ⟨bnNew, span, hspan, by omega, hfits, hnew, ?_⟩
  rw [← hcalc, getNextWorkRequired, show ({} : PowParams).nPowAveragingWindow = 17 from rfl, hdrop]
  show (bnTot {} chain).div (arithUint256 17) >>= _ = _
  rw [hq]
  rfl

/-- **The target of the next block lies between the scaled means**, up to what the division and the
compact form cut off, and no operation overflows.  Up to 17 blocks the limit is the target. -/
theorem nextWork_bounds (adaptivePow : ℤ) (hpow : adaptivePow ≤ 0) (chain : List BlockIndex)
    (htarget : ∀ index ∈ chain.take 17,
      (target index.nBits).value ≤ ({} : PowParams).powLimit.value) :
    let sum := ((chain.take 17).map fun index => (target index.nBits).value).sum
    ∃ bnNew : ArithUint256, getNextWorkRequired {} adaptivePow chain = .ok (compact bnNew)
      ∧ IsGreatest {x | x ≤ bnNew.value ∧ ∃ m e, m < 256 ^ mantissaBytes (compact bnNew)
        ∧ x = m * 256 ^ e} (target (compact bnNew)).value
      ∧ bnNew.value ≤ ({} : PowParams).powLimit.value
      ∧ (chain.length ≤ 17 → bnNew = ({} : PowParams).powLimit)
      ∧ (17 < chain.length → ∃ span, (856 ≤ span ∧ span ≤ 1346)
        ∧ sum < 2 ^ 256 ∧ sum / 17 / 1020 * span < 2 ^ 256
        ∧ bnNew.value = min (sum / 17 / 1020 * span) ({} : PowParams).powLimit.value
        ∧ sum * 856 < (bnNew.value + 856) * (17 * 1020)
        ∧ bnNew.value * (17 * 1020) ≤ sum * 1346) := by
  intro sum
  have hcompact : ∀ a : ArithUint256, IsGreatest {x | x ≤ a.value ∧ ∃ m e,
      m < 256 ^ mantissaBytes (compact a) ∧ x = m * 256 ^ e} (target (compact a)).value := fun a =>
    (setCompact_getCompact (getCompact_eq a)).1
  by_cases hlength : 17 < chain.length
  · obtain ⟨bnNew, span, hspan, hsum, hfits, hnew, hresult⟩ :=
      getNextWorkRequired_spec hpow hlength htarget
    refine ⟨bnNew, hresult, hcompact bnNew, by omega, fun h => by omega,
      fun _ => ⟨span, hspan, hsum, hfits, hnew, ?_, ?_⟩⟩
    · have hlimit := value_powLimit
      have hlow := Nat.mul_le_mul_left (sum / 17 / 1020) hspan.1
      change sum < 2 ^ 256 at hsum
      change bnNew.value = min (sum / 17 / 1020 * span) _ at hnew
      omega
    · have hhigh := Nat.mul_le_mul_left (sum / 17 / 1020) hspan.2
      change bnNew.value = min (sum / 17 / 1020 * span) _ at hnew
      omega
  · refine ⟨_, ?_, hcompact _, le_rfl, fun _ => rfl, fun h => absurd h hlength⟩
    have hdrop : chain.drop 17 = [] := List.drop_eq_nil_of_le (Nat.not_lt.1 hlength)
    rw [getNextWorkRequired, show ({} : PowParams).nPowAveragingWindow = 17 from rfl, hdrop]
    rfl

/-- 18 blocks whose target is 1019, one less than the time span of the window. -/
def smallTargets : List BlockIndex := List.replicate 18 ⟨0x0203fb00, 1000⟩

theorem smallTargets_le : ∀ index ∈ smallTargets.take 17,
    (target index.nBits).value ≤ ({} : PowParams).powLimit.value := by
  intro index hindex
  rw [eq_of_mem_replicate (mem_of_mem_take hindex)]
  decide

theorem nextWork_bounds_small : ∃ bnNew, getNextWorkRequired {} 0 smallTargets = .ok (compact bnNew)
    ∧ bnNew.value ≤ ({} : PowParams).powLimit.value ∧ ∃ span ≤ 1346,
      bnNew.value = min (1019 / 1020 * span) ({} : PowParams).powLimit.value := by
  obtain ⟨bnNew, hresult, -, hle, -, hlong⟩ := nextWork_bounds 0 le_rfl smallTargets smallTargets_le
  obtain ⟨span, hspan, -, -, hnew, -⟩ := hlong (by decide)
  exact ⟨bnNew, hresult, hle, span, hspan.2, hnew⟩

/-- **The division comes first**, so that a mean below the time span becomes 0. -/
theorem small_mean_lost : ¬ ∀ chain : List BlockIndex, (∀ index ∈ chain.take 17,
    (target index.nBits).value ≤ ({} : PowParams).powLimit.value) →
    let sum := ((chain.take 17).map fun index => (target index.nBits).value).sum
    ∃ c, getNextWorkRequired {} 0 chain = .ok c
      ∧ (target c).value ≤ ({} : PowParams).powLimit.value
      ∧ (∀ low : ArithUint256, low.value * ((chain.take 17).length * 1020) ≤ sum * 856 →
        (target (compact low)).value ≤ (target c).value)
      ∧ (target c).value * ((chain.take 17).length * 1020) ≤ sum * 1346 := by
  intro h
  obtain ⟨c, hresult, -, hlow, -⟩ := h smallTargets smallTargets_le
  obtain ⟨bnNew, span, -, -, -, hnew, hresult'⟩ :=
    getNextWorkRequired_spec le_rfl (by decide) smallTargets_le
  obtain rfl := Except.ok.inj (hresult.symm.trans hresult')
  have hzero : bnNew.value = 0 := by
    rw [hnew]
    change min (1019 / 1020 * span) _ = 0
    simp
  have hc := (hlow (ofUInt64 855) (by decide)).trans (target_compact_le bnNew)
  have hvalue : (target (compact (ofUInt64 855))).value = 855 := by decide
  omega

end NextWork
end Komodo
