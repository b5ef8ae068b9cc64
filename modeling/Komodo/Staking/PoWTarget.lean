/-
# The target of a block with proof of work

`komodo_PoWtarget` of `src/src/komodo_bitcoind.cpp`.  A chain with a goal for the share of its
blocks that are staked looks at the last hundred blocks.  The target of a block that is mined is the
mean of the hashes of those that were, made smaller where too few were staked, and larger where too
many were.

The arithmetic is that of `arith_uint256`, which wraps.  A product that has become too large is only
noticed by the comparison with the mean, and the blend that then takes its place may wrap as well.
The bounds hold in spite of that (`komodoPoWtarget_bounds`).
-/

import Komodo.Arith.Compact

namespace Komodo
namespace Staking

open BaseUint ArithUint256 Nat Int

/-- `arith_uint256(n)` for an `int32_t`. -/
def arithUint256 (n : ℤ) : ArithUint256 := ofUInt64 (UInt64.ofNat (n % 2 ^ 64).toNat)

def ASSETCHAINS_STAKED_MIN_POW_DIFF : UInt32 := 536900000

/-- The chain that `komodo_PoWtarget` looks at. -/
structure StakedChain where
  /-- `komodo_chainactive`: the hash of the block at a height, as `UintToArith256` gives it. -/
  chainactive : (height : ℤ) → Option ArithUint256
  /-- `komodo_segid`, which is below zero for a block with proof of work. -/
  segid : (height : ℤ) → ℤ
  assetchainsStaked : ℤ
  stakingMinDiff : UInt32

/-- What the loop over the last hundred blocks adds up. -/
structure Window where
  sum : ArithUint256 := BaseUint.zero 8
  n : ℤ := 0
  m : ℤ := 0
  percPoS : ℤ := 0

namespace StakedChain

variable (chain : StakedChain)

/-- The body of the loop, for the block at a height. -/
def step (window : Window) (ht : ℤ) : Window :=
  if ht ≤ 1 then window
  else match chain.chainactive ht with
    | none => window
    | some hash =>
      if 0 ≤ chain.segid ht then
        { window with n := window.n + 1, percPoS := window.percPoS + 1 }
      else { window with sum := window.sum.add hash, m := window.m + 1 }

/-- The heights of the last hundred blocks. -/
def heights (height : ℤ) : List ℤ := (List.range 100).map fun i : ℕ => height - 100 + i

end StakedChain

/-- A target that has been raised: at most `easydiff`, and not below the mean, where the product has
wrapped. -/
def raised (ave easydiff bnTarget : ArithUint256) (percPoS goalperc : ℤ) :
    Except String ArithUint256 :=
  if bnTarget.gt easydiff then return easydiff
  else if bnTarget.lt ave then do
    let blend ← ((ave.mul (arithUint256 goalperc)).add (easydiff.mul (arithUint256 percPoS))).div
      (arithUint256 (percPoS + goalperc))
    return if blend.lt ave then ave else blend
  else return bnTarget

/-- The target for a mean, a share of staked blocks and a goal; the division by zero of an
`arith_uint256` throws. -/
def adjust (ave easydiff : ArithUint256) (percPoS goalperc : ℤ) : Except String ArithUint256 :=
  if percPoS < goalperc then do
    let quotient ← ave.div (arithUint256 (goalperc * goalperc * goalperc * goalperc))
    return quotient.mul (arithUint256 (percPoS * percPoS))
  else if goalperc < percPoS then do
    let quotient ← ave.div (arithUint256 (goalperc * goalperc))
    raised ave easydiff (quotient.mul (arithUint256 (percPoS * percPoS * percPoS))) percPoS goalperc
  else return ave

/-- The share of staked blocks, in percent; at the start of a chain the goal stands for the blocks
that are not staked. -/
def Window.measured (window : Window) (goalperc : ℤ) : ℤ :=
  if window.m + window.n < 100 then
    (window.percPoS * window.n + goalperc * (100 - window.n)).tdiv 100
  else window.percPoS

/-- The mean of the hashes, and at most the target. -/
def Window.ave (window : Window) (target : ArithUint256) : Except String ArithUint256 :=
  if 0 < window.m then do
    let ave ← window.sum.div (arithUint256 window.m)
    return if ave.gt target then target else ave
  else return target

namespace StakedChain

def easydiff (chain : StakedChain) (newStakerActive : Bool) : ArithUint256 :=
  if newStakerActive then (setCompact ASSETCHAINS_STAKED_MIN_POW_DIFF).1
  else (setCompact chain.stakingMinDiff).1

/-- `komodo_PoWtarget`: the target, and the share of staked blocks. -/
def komodoPoWtarget (chain : StakedChain) (target : ArithUint256) (height goalperc : ℤ)
    (newStakerActive : Bool) : Except String (ArithUint256 × ℤ) :=
  let easydiff := chain.easydiff newStakerActive
  if newStakerActive = false ∧ height ≤ 10 ∨ chain.assetchainsStaked = 100 ∧ height ≤ 100 then
    return (target, 0)
  else if newStakerActive ∧ height ≤ 10 then return (easydiff, 0)
  else do
    let window := (heights height).foldl chain.step {}
    let measured := window.measured goalperc
    let ave ← window.ave target
    let percPoS := if measured = 0 then 1 else measured
    let bnTarget ← adjust ave easydiff percPoS goalperc
    return (if newStakerActive && bnTarget.gt easydiff then easydiff else bnTarget, measured)

end StakedChain

/-! ### The window -/

namespace StakedChain

variable (chain : StakedChain)

/-- The staked blocks at these heights. -/
def staked (hts : List ℤ) : List ℤ :=
  hts.filter fun ht => 1 < ht ∧ (chain.chainactive ht).isSome ∧ 0 ≤ chain.segid ht

/-- The hashes of the blocks with proof of work at these heights. -/
def mined (hts : List ℤ) : List ArithUint256 :=
  hts.filterMap fun ht => if 1 < ht ∧ chain.segid ht < 0 then chain.chainactive ht else none

/-- What the loop has added up over these heights. -/
structure Added (hts : List ℤ) (window : Window) : Prop where
  sum : window.sum.value = ((chain.mined hts).map value).sum % 2 ^ 256
  n : window.n = (chain.staked hts).length
  m : window.m = (chain.mined hts).length
  percPoS : window.percPoS = (chain.staked hts).length

variable {chain}

theorem Added.step {hts : List ℤ} {window : Window} (h : chain.Added hts window) (ht : ℤ) :
    chain.Added (hts ++ [ht]) (chain.step window ht) := by
  unfold StakedChain.step
  by_cases hlow : ht ≤ 1
  · rw [if_pos hlow]
    have hnot : ¬ 1 < ht := not_lt.2 hlow
    constructor <;> simp [staked, mined, hnot, h.sum, h.n, h.m, h.percPoS]
  · rw [if_neg hlow]
    have hht : 1 < ht := not_le.1 hlow
    cases hblock : chain.chainactive ht with
    | none => constructor <;> simp [staked, mined, hblock, h.sum, h.n, h.m, h.percPoS]
    | some hash =>
      by_cases hstaked : 0 ≤ chain.segid ht
      · have hnot : ¬ chain.segid ht < 0 := not_lt.2 hstaked
        simp only [if_pos hstaked]
        constructor <;> simp [staked, mined, hht, hblock, hstaked, hnot, h.sum, h.n, h.m, h.percPoS]
      · have hmined : chain.segid ht < 0 := not_le.1 hstaked
        simp only [if_neg hstaked]
        constructor <;> simp [staked, mined, hht, hblock, hstaked, hmined, h.sum, h.n, h.m,
          h.percPoS, value_add]

/-- **The loop counts the blocks of either kind**, and adds up the hashes of those with proof of
work. -/
theorem added_foldl (hts : List ℤ) : chain.Added hts (hts.foldl chain.step {}) := by
  induction hts using List.reverseRecOn with
  | nil => constructor <;> simp [staked, mined]
  | append_singleton hts ht ih =>
    rw [List.foldl_append]
    exact ih.step ht

variable (chain)

/-- The share of staked blocks among the last hundred, in percent. -/
def share (height goalperc : ℤ) : ℤ :=
  let n : ℤ := (chain.staked (heights height)).length
  if (chain.mined (heights height)).length + n < 100 then
    (n * n + goalperc * (100 - n)) / 100
  else n

/-- The mean of the hashes of the last hundred blocks that have proof of work, and at most the
target. -/
def meanHash (target : ArithUint256) (height : ℤ) : ℕ :=
  let hashes := (chain.mined (heights height)).map value
  if hashes = [] then target.value else min (hashes.sum % 2 ^ 256 / hashes.length) target.value

variable {chain}

theorem length_heights (height : ℤ) : (heights height).length = 100 := by
  simp [heights]

theorem length_staked_le (height : ℤ) : (chain.staked (heights height)).length ≤ 100 :=
  (List.length_filter_le _ _).trans_eq (length_heights height)

theorem length_mined_le (height : ℤ) : (chain.mined (heights height)).length ≤ 100 :=
  (List.length_filterMap_le _ _).trans_eq (length_heights height)

theorem share_bounds (height : ℤ) {goalperc : ℤ} (hgoal : 1 ≤ goalperc ∧ goalperc ≤ 99) :
    0 ≤ chain.share height goalperc ∧ chain.share height goalperc ≤ 100 := by
  have hn := chain.length_staked_le height
  unfold share
  dsimp only
  generalize (chain.staked (heights height)).length = n at hn ⊢
  have hsquare : (n : ℤ) * n ≤ 100 * n := mul_le_mul_of_nonneg_right (by omega) (by omega)
  have hnonneg : 0 ≤ (n : ℤ) * n := mul_nonneg (by omega) (by omega)
  have hrest : goalperc * (100 - n) ≤ 99 * (100 - n) :=
    mul_le_mul_of_nonneg_right hgoal.2 (by omega)
  have hrest' : 0 ≤ goalperc * (100 - n) := mul_nonneg (by omega) (by omega)
  split_ifs <;> omega

theorem Added.measured {height goalperc : ℤ} (hgoal : 1 ≤ goalperc ∧ goalperc ≤ 99)
    {window : Window} (h : chain.Added (heights height) window) :
    window.measured goalperc = chain.share height goalperc := by
  have hn := chain.length_staked_le height
  unfold Window.measured share
  rw [h.m, h.n, h.percPoS]
  dsimp only
  generalize (chain.staked (heights height)).length = n at hn ⊢
  have hsquare : 0 ≤ (n : ℤ) * n := mul_nonneg (by omega) (by omega)
  have hrest : 0 ≤ goalperc * (100 - n) := mul_nonneg (by omega) (by omega)
  have hnonneg : 0 ≤ n * n + goalperc * (100 - n) := by omega
  rw [tdiv_eq_ediv_of_nonneg hnonneg]

end StakedChain

/-! ### The adjustment -/

theorem value_arithUint256 {n : ℤ} (hn : 0 ≤ n ∧ n < 2 ^ 64) :
    (arithUint256 n).value = n.toNat := by
  have hlt : n.toNat < 2 ^ 64 := by omega
  unfold arithUint256
  rw [value_ofUInt64, emod_eq_of_lt hn.1 hn.2, UInt64.toNat_ofNat_of_lt' hlt]

theorem div_arithUint256 (a : ArithUint256) {n : ℤ} (hn : 0 < n ∧ n < 2 ^ 64) :
    ∃ q, a.div (arithUint256 n) = .ok q ∧ q.value = a.value / n.toNat := by
  have hvalue := value_arithUint256 ⟨hn.1.le, hn.2⟩
  have hdiv := (value_div a (arithUint256 n)).2 (by omega)
  rwa [hvalue] at hdiv

theorem StakedChain.Added.ave {chain : StakedChain} {height : ℤ} {window : Window}
    (h : chain.Added (heights height) window) (target : ArithUint256) :
    ∃ ave, window.ave target = .ok ave ∧ ave.value = chain.meanHash target height := by
  have hm := chain.length_mined_le height
  unfold Window.ave meanHash
  rw [h.m]
  dsimp only
  cases hmined : chain.mined (heights height) with
  | nil => exact ⟨target, rfl, rfl⟩
  | cons hash hashes =>
    rw [hmined] at hm
    have hpos : (0 : ℤ) < (hash :: hashes).length := by simp
    have hne : (hash :: hashes).map value ≠ [] := by simp
    obtain ⟨q, hq, hvalue⟩ := div_arithUint256 window.sum (n := (hash :: hashes).length)
      ⟨hpos, by omega⟩
    rw [h.sum, hmined, toNat_natCast] at hvalue
    rw [if_pos hpos, hq]
    refine ⟨if q.gt target then target else q, rfl, ?_⟩
    rw [if_neg hne, List.length_map, ← hvalue]
    split_ifs with hgt
    · exact (min_eq_right (gt_iff.1 hgt).le).symm
    · exact (min_eq_left (not_lt.1 fun hlt => hgt (gt_iff.2 hlt))).symm

section Adjust

variable (ave easydiff : ArithUint256) {percPoS goalperc : ℤ}

/-- **Too few staked blocks make the target smaller**: the quotient leaves room for the factor. -/
theorem adjust_below (hperc : 1 ≤ percPoS) (hgoal : goalperc ≤ 99) (hlt : percPoS < goalperc) :
    ∃ bnTarget, adjust ave easydiff percPoS goalperc = .ok bnTarget
      ∧ bnTarget.value ≤ ave.value := by
  have hpos : 0 < goalperc * goalperc := mul_pos (by omega) (by omega)
  have hle : goalperc * goalperc ≤ 99 * 99 :=
    mul_le_mul hgoal hgoal (by omega) (by omega)
  have hsquare : percPoS * percPoS ≤ goalperc * goalperc :=
    mul_le_mul hlt.le hlt.le (by omega) (by omega)
  have hnonneg : 0 ≤ percPoS * percPoS := mul_nonneg (by omega) (by omega)
  have hfourth : goalperc * goalperc ≤ goalperc * goalperc * goalperc * goalperc := by
    rw [mul_assoc (goalperc * goalperc)]
    exact le_mul_of_one_le_right hpos.le hpos
  have hsmall : goalperc * goalperc * goalperc * goalperc ≤ 99 * 99 * (99 * 99) := by
    rw [mul_assoc (goalperc * goalperc)]
    exact mul_le_mul hle hle (by omega) (by omega)
  unfold adjust
  generalize goalperc * goalperc * goalperc * goalperc = divisor at hfourth hsmall ⊢
  generalize percPoS * percPoS = factor at hsquare hnonneg ⊢
  obtain ⟨q, hq, hvalue⟩ := div_arithUint256 ave (n := divisor) ⟨by omega, by omega⟩
  rw [if_pos hlt, hq]
  refine ⟨_, rfl, ?_⟩
  rw [value_mul, hvalue, value_arithUint256 ⟨hnonneg, by omega⟩]
  calc _ ≤ ave.value / divisor.toNat * factor.toNat := mod_le _ _
    _ ≤ ave.value / divisor.toNat * divisor.toNat :=
        mul_le_mul_left _ (toNat_le_toNat (by omega))
    _ ≤ ave.value := div_mul_le_self _ _

/-- Whatever the product is, and whatever the blend is that takes its place. -/
theorem raised_spec (bnTarget : ArithUint256) (hperc : 0 < percPoS + goalperc)
    (hfits : percPoS + goalperc < 2 ^ 64) :
    ∃ b, raised ave easydiff bnTarget percPoS goalperc = .ok b
      ∧ min ave.value easydiff.value ≤ b.value := by
  unfold raised
  by_cases hgt : bnTarget.gt easydiff = true
  · rw [if_pos hgt]
    exact ⟨easydiff, rfl, min_le_right _ _⟩
  · rw [if_neg hgt]
    by_cases hlt : bnTarget.lt ave = true
    · obtain ⟨blend, hblend, -⟩ := div_arithUint256
        ((ave.mul (arithUint256 goalperc)).add (easydiff.mul (arithUint256 percPoS)))
        ⟨hperc, hfits⟩
      rw [if_pos hlt, hblend]
      refine ⟨if blend.lt ave then ave else blend, rfl, (min_le_left _ _).trans ?_⟩
      split_ifs with hwrapped
      · exact le_rfl
      · exact not_lt.1 fun h => hwrapped (lt_iff.2 h)
    · rw [if_neg hlt]
      refine ⟨bnTarget, rfl, (min_le_left _ _).trans ?_⟩
      exact not_lt.1 fun h => hlt (lt_iff.2 h)

/-- **Too many make it larger**, or leave it where it would be above `easydiff`. -/
theorem adjust_above (hgoal : 1 ≤ goalperc) (hperc : percPoS ≤ 100) (hlt : goalperc < percPoS) :
    ∃ bnTarget, adjust ave easydiff percPoS goalperc = .ok bnTarget
      ∧ min ave.value easydiff.value ≤ bnTarget.value := by
  have hpos : 0 < goalperc * goalperc := mul_pos (by omega) (by omega)
  have hsquare : goalperc * goalperc ≤ 100 * 100 :=
    mul_le_mul (by omega) (by omega) (by omega) (by omega)
  obtain ⟨q, hq, -⟩ := div_arithUint256 ave ⟨hpos, by omega⟩
  unfold adjust
  rw [if_neg (by omega), if_pos hlt, hq]
  exact raised_spec ave easydiff _ (by omega) (by omega)

theorem adjust_self (percPoS : ℤ) : adjust ave easydiff percPoS percPoS = .ok ave := by
  unfold adjust
  rw [if_neg (lt_irrefl _), if_neg (lt_irrefl _)]
  rfl

/-- A share of nothing counts as one percent. -/
theorem adjust_spec (hgoal : 1 ≤ goalperc ∧ goalperc ≤ 99) (hperc : 0 ≤ percPoS ∧ percPoS ≤ 100) :
    ∃ b, adjust ave easydiff (if percPoS = 0 then 1 else percPoS) goalperc = .ok b
      ∧ (percPoS < goalperc → b.value ≤ ave.value)
      ∧ (goalperc < percPoS → min ave.value easydiff.value ≤ b.value)
      ∧ (percPoS = goalperc → b = ave) := by
  by_cases hzero : percPoS = 0
  · rw [if_pos hzero]
    rcases hgoal.1.eq_or_lt with rfl | hlt
    · exact ⟨ave, adjust_self ave easydiff 1, fun _ => le_rfl, fun h => by omega, fun _ => rfl⟩
    · obtain ⟨b, hb, hle⟩ := adjust_below ave easydiff le_rfl hgoal.2 hlt
      exact ⟨b, hb, fun _ => hle, fun h => by omega, fun h => by omega⟩
  · rw [if_neg hzero]
    rcases lt_trichotomy percPoS goalperc with hlt | rfl | hgt
    · obtain ⟨b, hb, hle⟩ := adjust_below ave easydiff (by omega) hgoal.2 hlt
      exact ⟨b, hb, fun _ => hle, fun h => by omega, fun h => by omega⟩
    · exact ⟨ave, adjust_self ave easydiff percPoS, fun _ => le_rfl, fun h => by omega,
        fun _ => rfl⟩
    · obtain ⟨b, hb, hle⟩ := adjust_above ave easydiff hgoal.1 hperc.2 hgt
      exact ⟨b, hb, fun h => by omega, fun _ => hle, fun h => by omega⟩

end Adjust

/-! ### The target -/

namespace StakedChain

variable (chain : StakedChain) (target : ArithUint256) (height goalperc : ℤ)

/-- What holds of the target and the share of staked blocks. -/
structure Bounds (bnTarget : ArithUint256) (percPoS : ℤ) : Prop where
  measured : percPoS = chain.share height goalperc
  le_easydiff : bnTarget.value ≤ (chain.easydiff true).value
  below : percPoS < goalperc → bnTarget.value ≤ chain.meanHash target height
  above : goalperc < percPoS →
    min (chain.meanHash target height) (chain.easydiff true).value ≤ bnTarget.value
  equal : percPoS = goalperc →
    bnTarget.value = min (chain.meanHash target height) (chain.easydiff true).value

/-- **The target of a block with proof of work is within its bounds**, whatever wraps. -/
theorem komodoPoWtarget_bounds (hheight : 100 < height) (hgoal : 1 ≤ goalperc ∧ goalperc ≤ 99) :
    ∃ bnTarget percPoS,
      chain.komodoPoWtarget target height goalperc true = .ok (bnTarget, percPoS)
        ∧ chain.Bounds target height goalperc bnTarget percPoS := by
  have hwindow : chain.Added (heights height) ((heights height).foldl chain.step {}) :=
    added_foldl (heights height)
  obtain ⟨ave, hok, hmean⟩ := hwindow.ave target
  obtain ⟨b, hadjust, hbelow, habove, hequal⟩ :=
    adjust_spec ave (chain.easydiff true) hgoal (chain.share_bounds height hgoal)
  have hresult : chain.komodoPoWtarget target height goalperc true
      = .ok (if b.gt (chain.easydiff true) then chain.easydiff true else b,
          chain.share height goalperc) := by
    unfold komodoPoWtarget
    rw [if_neg (by omega), if_neg (by omega)]
    simp only [hwindow.measured hgoal, hok]
    change (adjust _ _ _ _ >>= _) = _
    rw [hadjust]
    rfl
  have hvalue : (if b.gt (chain.easydiff true) then chain.easydiff true else b).value
      = min b.value (chain.easydiff true).value := by
    split_ifs with hgt
    · exact (Nat.min_eq_right (gt_iff.1 hgt).le).symm
    · exact (Nat.min_eq_left (Nat.not_lt.1 fun hlt => hgt (gt_iff.2 hlt))).symm
  refine ⟨_, _, hresult, rfl, ?_, fun h => ?_, fun h => ?_, fun h => ?_⟩
  all_goals rw [hvalue]
  · exact Nat.min_le_right _ _
  · rw [← hmean]
    exact (Nat.min_le_left _ _).trans (hbelow h)
  · rw [← hmean]
    exact Nat.le_min.2 ⟨habove h, Nat.min_le_right _ _⟩
  · rw [hequal h, hmean]

/-- A chain whose blocks are staked and mined in turn. -/
def inTurn : StakedChain where
  chainactive height := some (arithUint256 height)
  segid height := if height % 2 = 0 then 5 else -1
  assetchainsStaked := 50
  stakingMinDiff := 0

theorem komodoPoWtarget_inTurn : ∃ bnTarget percPoS,
    inTurn.komodoPoWtarget (arithUint256 7) 201 60 true = .ok (bnTarget, percPoS)
      ∧ inTurn.Bounds (arithUint256 7) 201 60 bnTarget percPoS :=
  komodoPoWtarget_bounds inTurn (arithUint256 7) 201 60 (by decide) (by decide)

end StakedChain

end Staking
end Komodo
