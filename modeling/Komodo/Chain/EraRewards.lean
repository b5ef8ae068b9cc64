/-
# The rewards of the eras

What the blocks of an era are paid, in the arithmetic of the naturals: `rate` after some halvings,
`linearRate` where the reward moves to that of the next era.  Where the rewards fit the types that
`komodo_ac_block_subsidy` computes with, and nothing is shifted by more than the type holds, the
subsidy of a block is the reward of its era and a part of the premine (`subsidyAfter_eq_add`).
-/

import Komodo.Chain.Subsidy
import Komodo.Lib.Tranches

namespace Komodo
namespace AssetChain

open Nat

open Staking (toUint32 SATOSHIDEN)

variable (c : AssetChain)

/-! ### Rates -/

/-- The reward that a linear era moves to. -/
def next (j : ℕ) : ℕ := if j = c.LASTERA then 0 else c.REWARD (j + 1)

/-- The way that a linear era has to go. -/
def gap (j : ℕ) : ℕ := (c.REWARD j - c.next j) + (c.next j - c.REWARD j)

/-- The reward after another period. -/
def lowered (decay reward : ℕ) : ℕ := if decay = 0 then reward / 2 else reward * decay / 100000000

/-- The reward of an era after `k` periods. -/
def rate (j k : ℕ) : ℕ := (lowered (c.DECAY j))^[k] (c.REWARD j)

/-- The reward of a linear era after `k` periods. -/
def linearRate (j k : ℕ) : ℕ :=
  let share := c.gap j * (c.HALVING j * k) / (c.ENDSUBSIDY j - c.start j)
  if c.REWARD j < c.next j then c.REWARD j + share else c.REWARD j - share

/-- The reward of a block that `i` blocks of the era come before. -/
def pay (j i : ℕ) : ℕ :=
  if c.DECAY j = 100000000 then c.linearRate j (i / c.HALVING j) else c.rate j (i / c.HALVING j)

/-- The reward of a block. -/
def reward (h : ℕ) : ℕ :=
  if c.ENDSUBSIDY 0 = 0 ∧ c.REWARD 0 = 0 then 10000
  else if c.LASTERA < c.curEra h then 0
  else c.pay (c.curEra h) (h - c.start (c.curEra h))

/-- What a block is paid of the premine. -/
def premine (h : ℕ) : ℕ :=
  if 10000000000 < c.SUPPLY then
    (if h ≤ c.SUPPLY / 1000000000 then 100000000000000000 else 0)
      + (if h = 1 then c.SUPPLY % 1000000000 * 100000000 + c.magicExtra else 0)
  else if h = 1 then c.SUPPLY * 100000000 + c.magicExtra
  else 0

/-- The block is not paid the reward of its era. -/
def Unrewarded (h : ℕ) : Prop :=
  c.SUPPLY ≤ 10000000000 ∧ if h = 1 then c.LASTERA = 0 else c.isStaked = 2

instance (h : ℕ) : Decidable (c.Unrewarded h) := inferInstanceAs (Decidable (_ ∧ _))

/-- What a block is paid besides the premine. -/
def rewarded (h : ℕ) : ℕ := if c.Unrewarded h then 0 else c.reward h

/-- The rewards fit the types that the subsidy is computed with. -/
structure RewardsFit : Prop where
  reward : ∀ j ≤ c.LASTERA, c.REWARD j < 2 ^ 63
  product : ∀ j ≤ c.LASTERA, c.HALVING j ≠ 0 → c.DECAY j ≠ 100000000 →
    c.REWARD j * c.DECAY j < 2 ^ 64
  linear : ∀ j ≤ c.LASTERA, c.HALVING j ≠ 0 → c.DECAY j = 100000000 →
    c.ENDSUBSIDY j < 2 ^ 63 ∧ c.gap j * (c.ENDSUBSIDY j - c.start j) < 2 ^ 63

/-- The era of the block pays something at some time. -/
def Pays (j : ℕ) : Prop := c.REWARD j ≠ 0 ∨ c.next j ≠ 0

/-- The reward of the block is not shifted by more than the type holds. -/
def Shiftable (h : ℕ) : Prop :=
  c.curEra h ≤ c.LASTERA → c.Pays (c.curEra h) → c.DECAY (c.curEra h) = 0 →
    (h - c.start (c.curEra h)) / c.HALVING (c.curEra h) < 64

variable {c}

theorem lowered_le {decay reward : ℕ} (h : decay ≤ 100000000) : lowered decay reward ≤ reward := by
  unfold lowered
  split_ifs
  · exact div_le_self ..
  · exact Nat.div_le_of_le_mul (by rw [Nat.mul_comm]; exact Nat.mul_le_mul_right _ h)

theorem rate_succ (j k : ℕ) : c.rate j (k + 1) = lowered (c.DECAY j) (c.rate j k) :=
  Function.iterate_succ_apply' ..

theorem rate_antitone (j : ℕ) : Antitone (c.rate j) :=
  antitone_nat_of_succ_le fun k => by rw [rate_succ]; exact lowered_le (c.decay_le j)

theorem rate_le (j k : ℕ) : c.rate j k ≤ c.REWARD j := c.rate_antitone j (Nat.zero_le k)

/-! ### Eras -/

/-- The era of a block: it has begun, it is not over, and the eras before it are. -/
theorem curEra_spec {h : ℕ} (hh : h < 2 ^ 64) (hera : c.curEra h ≤ c.LASTERA) :
    (c.ENDSUBSIDY (c.curEra h) = 0 ∨ h < c.ENDSUBSIDY (c.curEra h))
      ∧ ∀ i < c.curEra h, c.ENDSUBSIDY i ≠ 0 ∧ c.ENDSUBSIDY i ≤ h := by
  unfold curEra at hera ⊢
  rw [toUint64_of_lt hh] at hera ⊢
  split_ifs at hera ⊢ with hend
  · generalize hfound : (List.range (c.LASTERA + 1)).find? _ = found at hera ⊢
    cases found with
    | none => exact absurd hera (by simp)
    | some j =>
      rw [List.find?_range_eq_some] at hfound
      obtain ⟨hj, -, hbefore⟩ := hfound
      rw [Option.getD_some]
      refine ⟨?_, fun i hi => ?_⟩
      · have hj := of_decide_eq_true hj
        omega
      · have hi := hbefore i hi
        rw [Bool.not_eq_true', decide_eq_false_iff_not] at hi
        omega
  · exact ⟨.inl (not_not.1 hend), fun i hi => absurd hi (not_lt_zero i)⟩

theorem start_le {h : ℕ} (hh : h < 2 ^ 64) (hera : c.curEra h ≤ c.LASTERA) :
    c.start (c.curEra h) ≤ h := by
  unfold start
  split_ifs with hzero
  · exact zero_le h
  · exact ((curEra_spec hh hera).2 _ (by omega)).2

/-! ### The subsidy follows the rewards -/

section machine

variable {h j : ℕ}

theorem nStart_eq (hh : h < 2 ^ 31) (hstart : c.start j ≤ h) : c.nStart j = c.start j :=
  toInt64_of_lt (by omega)

theorem numhalvings_eq (hh : h < 2 ^ 31) (hstart : c.start j ≤ h) :
    c.numhalvings j h = ((h - c.start j) / c.HALVING j : ℕ) := by
  have hsub : (h : ℤ) - c.start j = (h - c.start j : ℕ) := (cast_sub hstart).symm
  have hle := div_le_self (h - c.start j) (c.HALVING j)
  unfold numhalvings
  rw [nStart_eq hh hstart, hsub, toUint64_of_lt (by omega), ← Int.natCast_ediv]
  generalize (h - c.start j) / c.HALVING j = k at hle ⊢
  exact Int.bmod_eq_of_le (by omega) (by omega)

theorem rate_of_halving (hdecay : c.DECAY j = 0) (k : ℕ) : c.rate j k = c.REWARD j / 2 ^ k := by
  induction k with
  | zero => exact (Nat.div_one _).symm
  | succ k ih =>
    rw [rate_succ, ih, lowered, if_pos hdecay, Nat.div_div_eq_div_mul, pow_succ]

theorem shifted_eq (hdecay : c.DECAY j = 0) {k : ℕ} (hk : k < 64) :
    c.shifted (c.REWARD j) k = c.rate j k := by
  unfold shifted
  rw [if_pos (by omega), Int.toNat_natCast, rate_of_halving hdecay]
  push_cast
  rfl

theorem decayed_eq {decay : ℕ} (hzero : decay ≠ 0) (hle : decay ≤ 100000000) {n : ℕ} :
    ∀ {r : ℕ}, r < 2 ^ 63 → r * decay < 2 ^ 64 →
      decayed decay n r = ((lowered decay)^[n] r : ℕ) := by
  induction n with
  | zero => exact fun _ _ => rfl
  | succ n ih =>
    intro r hr hproduct
    have hlow : lowered decay r ≤ r := lowered_le hle
    have hstep : toInt64 (toUint64 (r * decay) / 100000000) = (lowered decay r : ℕ) := by
      rw [← cast_mul, toUint64_of_lt hproduct, lowered, if_neg hzero]
      exact toInt64_of_lt (lt_of_le_of_lt (Nat.div_le_of_le_mul
        (by rw [mul_comm]; exact mul_le_mul_right _ hle)) hr)
    rw [Function.iterate_succ_apply]
    unfold decayed
    split_ifs with hr0
    · rw [hstep]
      exact ih (lt_of_le_of_lt hlow hr) (lt_of_le_of_lt (mul_le_mul_right _ hlow) hproduct)
    · have hr0 : r = 0 := by simpa using hr0
      have hfixed : lowered decay 0 = 0 := le_zero.1 (lowered_le hle)
      rw [hr0, hfixed, Function.iterate_fixed hfixed]

theorem toInt64_sub (a b : ℤ) : toInt64 (toInt64 a - b) = toInt64 (a - b) :=
  Int.bmod_sub_bmod

/-- What there is between the reward and the next, with its sign. -/
theorem subsidyDifference_eq (hgap : c.gap j < 2 ^ 63) :
    c.subsidyDifference j (toInt64 (c.REWARD j))
      = ((c.gap j : ℤ), if c.REWARD j < c.next j then -1 else 1) := by
  unfold gap next at hgap
  unfold subsidyDifference gap next
  by_cases hlast : j = c.LASTERA
  · simp only [if_pos hlast] at hgap ⊢
    rw [toInt64_of_lt (by omega), if_neg (Nat.not_lt_zero _), Nat.sub_zero, Nat.zero_sub, add_zero]
  · simp only [if_neg hlast] at hgap ⊢
    have hdiff : toInt64 (toInt64 (c.REWARD j) - c.REWARD (j + 1))
        = c.REWARD j - c.REWARD (j + 1) := by
      rw [toInt64_sub, toInt64_of_range (by omega) (by omega)]
    simp only [hdiff]
    by_cases hlt : c.REWARD j < c.REWARD (j + 1)
    · rw [if_pos (by omega), if_pos hlt, toInt64_of_range (by omega) (by omega)]
      exact Prod.ext (by dsimp only; omega) rfl
    · rw [if_neg (by omega), if_neg hlt]
      exact Prod.ext (by dsimp only; omega) rfl

/-- What a linear era has moved from its reward after `k` periods. -/
def moved (c : AssetChain) (j k : ℕ) : ℤ :=
  let (difference, sign) := c.subsidyDifference j (toInt64 (c.REWARD j))
  sign * (toInt64 (difference * (c.HALVING j * k : ℕ))).tdiv (toInt64 (c.ENDSUBSIDY j - c.start j))

theorem linearSubsidy_eq_moved (hh : h < 2 ^ 31) (hstart : c.start j ≤ h)
    (hend : h < c.ENDSUBSIDY j) : c.linearSubsidy j h (toInt64 (c.REWARD j))
      = toInt64 (c.REWARD j - c.moved j ((h - c.start j) / c.HALVING j)) := by
  have hmachine := c.end_lt j
  have hsplit := div_add_mod (h - c.start j) (c.HALVING j)
  have hleft : toUint64 (c.ENDSUBSIDY j - (h : ℤ)) = (c.ENDSUBSIDY j - h : ℕ) := by
    rw [← cast_sub hend.le]
    exact toUint64_of_lt (by omega)
  have hpast : toUint64 ((h : ℤ) - c.start j) % (c.HALVING j : ℤ)
      = ((h - c.start j) % c.HALVING j : ℕ) := by
    rw [← cast_sub hstart, toUint64_of_lt (by omega)]
    rfl
  unfold linearSubsidy moved
  simp only [nStart_eq hh hstart, hleft, hpast, toInt64_sub]
  generalize c.HALVING j * ((h - c.start j) / c.HALVING j) = numerator at hsplit ⊢
  have hnum : toInt64 ((c.ENDSUBSIDY j : ℤ) - c.start j
      - (((c.ENDSUBSIDY j - h : ℕ) : ℤ) + ((h - c.start j) % c.HALVING j : ℕ))) = numerator := by
    rw [toInt64_of_range] <;> omega
  rw [hnum]

theorem next_lt (hfit : c.RewardsFit) (hj : j ≤ c.LASTERA) : c.next j < 2 ^ 63 := by
  unfold next
  split_ifs with hlast
  · decide
  · exact hfit.reward _ (by omega)

theorem share_le {p k L : ℕ} (g : ℕ) (h : p * k ≤ L) : g * (p * k) / L ≤ g :=
  Nat.div_le_of_le_mul (by rw [Nat.mul_comm L]; exact Nat.mul_le_mul_left g h)

theorem linearSubsidy_eq (hfit : c.RewardsFit) (hj : j ≤ c.LASTERA) (hh : h < 2 ^ 31)
    (hstart : c.start j ≤ h) (hend : h < c.ENDSUBSIDY j) (hhalving : c.HALVING j ≠ 0)
    (hdecay : c.DECAY j = 100000000) :
    c.linearSubsidy j h (toInt64 (c.REWARD j))
      = c.linearRate j ((h - c.start j) / c.HALVING j) := by
  obtain ⟨hend63, hproduct⟩ := hfit.linear j hj hhalving hdecay
  have hr := hfit.reward j hj
  have hnext := next_lt hfit hj
  have hgap : c.gap j = (c.REWARD j - c.next j) + (c.next j - c.REWARD j) := rfl
  have hcovered : c.HALVING j * ((h - c.start j) / c.HALVING j) ≤ c.ENDSUBSIDY j - c.start j :=
    (mul_div_le _ _).trans (by omega)
  have hden : toInt64 (c.ENDSUBSIDY j - c.start j) = (c.ENDSUBSIDY j - c.start j : ℕ) := by
    rw [← cast_sub (by omega)]
    exact toInt64_of_lt (by omega)
  have hshare := share_le (c.gap j) hcovered
  have hfits : c.gap j * (c.HALVING j * ((h - c.start j) / c.HALVING j)) < 2 ^ 63 :=
    lt_of_le_of_lt (mul_le_mul_left _ hcovered) hproduct
  rw [linearSubsidy_eq_moved hh hstart hend]
  unfold moved linearRate
  rw [subsidyDifference_eq (by omega), hden]
  simp only
  rw [← cast_mul, toInt64_of_lt hfits, Int.tdiv_eq_ediv_of_nonneg (by omega), ← Int.natCast_ediv]
  generalize c.gap j * _ / (c.ENDSUBSIDY j - c.start j) = share at hshare ⊢
  split_ifs with hrising
  · rw [toInt64_of_range] <;> omega
  · rw [toInt64_of_range] <;> omega

theorem pay_first {i : ℕ} (hi : i / c.HALVING j = 0) : c.pay j i = c.REWARD j := by
  unfold pay
  rw [hi]
  split_ifs
  · simp [linearRate]
  · rfl

theorem pay_of_not_pays (hpays : ¬c.Pays j) (i : ℕ) : c.pay j i = 0 := by
  obtain ⟨hreward, hnext⟩ : c.REWARD j = 0 ∧ c.next j = 0 := by
    unfold Pays at hpays
    omega
  unfold pay
  split_ifs
  · simp [linearRate, gap, hreward, hnext]
  · exact le_zero.1 (hreward ▸ rate_le j _)

theorem not_pays (hj : j ≤ c.LASTERA) (hreward : c.REWARD j = 0)
    (hnext : j = c.LASTERA ∨ c.REWARD (j + 1) = 0) : ¬c.Pays j := by
  unfold Pays next
  split_ifs <;> omega

/-- **The reward that the subsidy starts from.** -/
theorem eraSubsidy_eq (hfit : c.RewardsFit) (hh : h < 2 ^ 31) (hshift : c.Shiftable h) :
    (c.eraSubsidy .init h).1 = c.reward h := by
  unfold eraSubsidy reward
  by_cases hexplicit : c.ENDSUBSIDY 0 = 0 ∧ c.REWARD 0 = 0
  · rw [if_pos hexplicit, if_pos hexplicit]
    rfl
  rw [if_neg hexplicit, if_neg hexplicit]
  unfold Shiftable at hshift
  have hspec := c.curEra_spec (h := h) (by omega)
  have hstart := c.start_le (h := h) (by omega)
  generalize c.curEra h = j at hshift hspec hstart ⊢
  by_cases hera : c.LASTERA < j
  · rw [if_pos hera, if_pos hera]
    rfl
  have hj : j ≤ c.LASTERA := not_lt.1 hera
  have hr := hfit.reward j hj
  have hnum := numhalvings_eq hh (hstart hj)
  have hfirst : c.HALVING j = 0 ∨ c.numhalvings j h ≤ 0 →
      c.pay j (h - c.start j) = c.REWARD j := by
    rintro (hzero | hzero)
    · exact pay_first (by rw [hzero, Nat.div_zero])
    · rw [hnum] at hzero
      exact pay_first (le_zero.1 (by exact_mod_cast hzero))
  have hlinear : c.DECAY j ≠ 100000000 →
      c.pay j (h - c.start j) = c.rate j ((h - c.start j) / c.HALVING j) :=
    fun hdecay => if_neg hdecay
  rw [if_neg hera, if_neg hera]
  simp only [toInt64_of_lt hr]
  split_ifs with hnone hflat hzero hhalving hdecay hcached
  · have hreward : c.REWARD j = 0 := by exact_mod_cast hnone.1
    rw [pay_of_not_pays (not_pays hj hreward hnone.2), hreward]
  · rw [hfirst (.inl hflat)]
  · rw [hfirst (.inr hzero)]
  · have hpays : c.Pays j := by
      by_contra hpays
      unfold Pays next at hpays
      have hreward : (c.REWARD j : ℤ) = 0 := by omega
      refine hnone ⟨hreward, ?_⟩
      split_ifs at hpays <;> omega
    rw [hnum, shifted_eq hhalving (hshift hj hpays hhalving), hlinear (by omega)]
  · have hend : h < c.ENDSUBSIDY j := (hspec hj).1.resolve_left hdecay.2
    have hlinear := linearSubsidy_eq hfit hj hh (hstart hj) hend hflat hdecay.1
    rw [toInt64_of_lt hr] at hlinear
    rw [hlinear]
    unfold pay
    rw [if_pos hdecay.1]
  · exact absurd hcached.1 (lt_irrefl 0)
  · have hother : c.DECAY j ≠ 100000000 := fun heq => hdecay ⟨heq, c.linear_ends j heq⟩
    rw [hnum, Int.toNat_natCast, decayed_eq hhalving (c.decay_le j) hr
      (hfit.product j hj hflat hother), hlinear hother]
    rfl

end machine

/-! ### The premine -/

theorem magicExtra_lt : c.magicExtra < 2 ^ 32 := by
  have hmagic := c.magic_lt
  unfold magicExtra
  split_ifs <;> omega

theorem premine_lt (h : ℕ) : c.premine h < 2 ^ 63 := by
  have hmagic := c.magicExtra_lt
  unfold premine
  split_ifs <;> omega

theorem pay_lt (hfit : c.RewardsFit) {h : ℕ} (hh : h < 2 ^ 64) (hera : c.curEra h ≤ c.LASTERA) :
    c.pay (c.curEra h) (h - c.start (c.curEra h)) < 2 ^ 63 := by
  have hr := hfit.reward _ hera
  have hnext := next_lt hfit hera
  have hend := (c.curEra_spec hh hera).1
  generalize c.curEra h = j at hr hnext hend ⊢
  unfold pay
  split_ifs with hdecay
  · have hlin := c.linear_ends j hdecay
    have hcovered : c.HALVING j * ((h - c.start j) / c.HALVING j) ≤ c.ENDSUBSIDY j - c.start j := by
      have hle := mul_div_le (h - c.start j) (c.HALVING j)
      omega
    have hshare := share_le (c.gap j) hcovered
    have hgap : c.gap j = (c.REWARD j - c.next j) + (c.next j - c.REWARD j) := rfl
    unfold linearRate
    generalize c.gap j * _ / _ = share at hshare ⊢
    dsimp only
    split_ifs <;> omega
  · exact lt_of_le_of_lt (c.rate_le j _) hr

theorem reward_lt_two_pow (hfit : c.RewardsFit) {h : ℕ} (hh : h < 2 ^ 64) :
    c.reward h < 2 ^ 63 := by
  unfold reward
  split_ifs with hexplicit hera
  · decide
  · decide
  · exact pay_lt hfit hh (not_lt.1 hera)

theorem withPremine_eq (hfit : c.RewardsFit) {h : ℕ} (hh : h < 2 ^ 64) :
    toUint64 (c.withPremine h (c.reward h)) = (c.rewarded h + c.premine h : ℕ) := by
  have hreward := reward_lt_two_pow hfit hh
  have hpremine := c.premine_lt h
  have hsum : c.withPremine h (c.reward h) = (c.rewarded h + c.premine h : ℕ) := by
    unfold withPremine rewarded Unrewarded premine
    rw [toUint64_of_lt hh]
    unfold COIN SATOSHIDEN
    dsimp only
    split_ifs <;> omega
  rw [hsum]
  have hrewarded : c.rewarded h ≤ c.reward h := by
    unfold rewarded
    split_ifs <;> omega
  exact toUint64_of_lt (by omega)

/-- **The subsidy of a block**, whatever calls came before. -/
theorem subsidyAfter_eq_add (hfit : c.RewardsFit) {h : ℕ} (hh : h < 2 ^ 31) (hshift : c.Shiftable h)
    (calls : List ℤ) : c.subsidyAfter calls h = (c.rewarded h + c.premine h : ℕ) := by
  rw [subsidyAfter_eq, eraSubsidy_eq hfit hh hshift, withPremine_eq hfit (by omega)]

end AssetChain
end Komodo
