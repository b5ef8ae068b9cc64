/-
# The subsidies of one era

What `komodo_ac_block_subsidy` of `src/src/komodo_utils.cpp` pays two blocks of an era, for rewards
and periods of any size.

A halving is a shift, whose count the machine takes modulo 64: after 64 halvings the reward is the
first one again.  A reward that is multiplied by a decay goes down whatever wraps around.  A linear
era multiplies the way to the next reward by the blocks that have passed; what 64 bits keep of the
product may lead anywhere (`Arrives`).
-/

import Komodo.Chain.MaxMoney

namespace Komodo
namespace AssetChain

open Nat

section
variable (c : AssetChain)

/-! ### The property and the condition -/

/-- The count of a shift of 64 bits is taken modulo 64. -/
def ShiftsModulo : Prop :=
  ∀ subsidy n : ℤ, 64 ≤ n → c.wideShift subsidy n = subsidy / 2 ^ (n % 64).toNat

/-- How often the reward of its era has changed before a block. -/
def periods (h : ℕ) : ℕ := (h - c.start (c.curEra h)) / c.HALVING (c.curEra h)

/-- The amount lies between the reward of an era and the next one. -/
def Between (j : ℕ) (paid : ℤ) : Prop :=
  min (c.REWARD j : ℤ) (c.next j) ≤ paid ∧ paid ≤ max (c.REWARD j : ℤ) (c.next j)

/-- What `komodo_ac_block_subsidy` owes two blocks of an era, whatever calls came before. -/
structure RewardsKept (h h' : ℕ) : Prop where
  pure : ∀ (n : ℕ) calls calls', c.subsidyAfter calls n = c.subsidyAfter calls' n
  lowered : c.DECAY (c.curEra h) ≠ 100000000 → ∀ calls,
    c.subsidyAfter calls h' ≤ c.subsidyAfter calls h
  between : c.DECAY (c.curEra h) = 100000000 → ∀ calls,
    c.Between (c.curEra h) (c.subsidyAfter calls h)
      ∧ c.Between (c.curEra h) (c.subsidyAfter calls h')

/-- The chain pays no rewards. -/
def Unpaid : Prop := c.SUPPLY ≤ 10000000000 ∧ c.isStaked = 2

instance : Decidable c.Unpaid := inferInstanceAs (Decidable (_ ∧ _))

/-- A reward that is shifted by `b` is no more than when it is shifted by `a`.  From `2 ^ 63` on, it
is negative. -/
def ShiftsLower (reward a b : ℕ) : Prop :=
  if reward < 2 ^ 63 then a ≤ b ∨ reward < 2 ^ b else b ≤ a ∨ 2 ^ 64 - reward ≤ 2 ^ a

/-- After `k` periods, a linear era is on its way: the product of the way and the blocks that have
passed is a share of the way.  Where the way or the era is too long for an `int64_t`, so is the
share that comes out. -/
def Arrives (j k : ℕ) : Prop :=
  if c.gap j < 2 ^ 63 ∧ c.ENDSUBSIDY j - c.start j < 2 ^ 63 then
    -(c.ENDSUBSIDY j - c.start j : ℕ) < toInt64 (c.gap j * (c.HALVING j * k) : ℕ)
      ∧ toInt64 (c.gap j * (c.HALVING j * k) : ℕ)
        < ((c.gap j + 1) * (c.ENDSUBSIDY j - c.start j) : ℕ)
  else
    toUint64 (if c.REWARD j < c.next j then -c.moved j k else c.moved j k) ≤ c.gap j

end

variable {c : AssetChain} {h h' j k : ℕ}

/-! ### Halving -/

theorem shift_le_iff (x a b : ℕ) : x / 2 ^ b ≤ x / 2 ^ a ↔ a ≤ b ∨ x < 2 ^ b := by
  rcases lt_or_ge b a with hlt | hle
  · have hshift : x / 2 ^ a = x / 2 ^ b / 2 ^ (a - b) := by
      rw [Nat.div_div_eq_div_mul, ← pow_add, Nat.add_sub_cancel' hlt.le]
    rw [hshift, or_iff_right (not_le.2 hlt)]
    constructor
    · intro hstays
      by_contra hlarge
      have hpos : 0 < x / 2 ^ b := div_pos (not_lt.1 hlarge) (by positivity)
      exact absurd (Nat.div_lt_self hpos (Nat.one_lt_two_pow (by omega))) (Nat.not_lt.2 hstays)
    · intro hsmall
      rw [div_eq_of_lt hsmall]
      exact zero_le _
  · exact iff_of_true (Nat.div_le_div_left (Nat.pow_le_pow_right Nat.two_pos hle) (by positivity))
      (.inl hle)

theorem toUint64_shift_of_lt {reward : ℕ} (hlt : reward < 2 ^ 63) (a : ℕ) :
    toUint64 (toInt64 reward / 2 ^ a) = (reward / 2 ^ a : ℕ) := by
  have hle := div_le_self reward (2 ^ a)
  rw [toInt64_of_lt hlt, ← toUint64_of_lt (show reward / 2 ^ a < 2 ^ 64 by omega)]
  push_cast
  rfl

theorem toUint64_shift_of_ge {reward : ℕ} (hge : 2 ^ 63 ≤ reward) (hlt : reward < 2 ^ 64) (a : ℕ) :
    toUint64 (toInt64 reward / 2 ^ a) = (2 ^ 64 - 1 - (2 ^ 64 - 1 - reward) / 2 ^ a : ℕ) := by
  have hnegative : toInt64 reward = Int.negSucc (2 ^ 64 - 1 - reward) := by
    unfold toInt64
    rw [Int.negSucc_eq, ← Int.sub_bmod_right, Int.bmod_eq_of_le] <;> omega
  have hle := div_le_self (2 ^ 64 - 1 - reward) (2 ^ a)
  have hpow : (2 : ℤ) ^ a = ((2 ^ a : ℕ) : ℤ) := by push_cast; rfl
  rw [hnegative, hpow, Int.negSucc_ediv _ (by positivity)]
  show toUint64 (-(((2 ^ 64 - 1 - reward : ℕ) : ℤ) / ((2 ^ a : ℕ) : ℤ) + 1)) = _
  rw [← Int.natCast_ediv]
  generalize (2 ^ 64 - 1 - reward) / 2 ^ a = m at hle ⊢
  unfold toUint64
  omega

theorem toUint64_shift_le_iff {reward : ℕ} (hreward : reward < 2 ^ 64) (a b : ℕ) :
    toUint64 (toInt64 reward / 2 ^ b) ≤ toUint64 (toInt64 reward / 2 ^ a)
      ↔ ShiftsLower reward a b := by
  unfold ShiftsLower
  split_ifs with hlt
  · rw [toUint64_shift_of_lt hlt, toUint64_shift_of_lt hlt, cast_le, shift_le_iff]
  · have hge : 2 ^ 63 ≤ reward := not_lt.1 hlt
    have hself := div_le_self (2 ^ 64 - 1 - reward)
    have hsmall : 2 ^ 64 - reward ≤ 2 ^ a ↔ 2 ^ 64 - 1 - reward < 2 ^ a := by omega
    rw [toUint64_shift_of_ge hge hreward, toUint64_shift_of_ge hge hreward, hsmall,
      ← shift_le_iff, cast_le]
    have ha := hself (2 ^ a)
    have hb := hself (2 ^ b)
    omega

/-! ### Decay -/

/-- A product that wraps around leaves less than its factor, divided. -/
theorem toUint64_lowered_le {decay : ℕ} (hle : decay ≤ 100000000) (r : ℤ) :
    toUint64 (toInt64 (toUint64 (r * decay) / 100000000)) ≤ toUint64 r := by
  obtain ⟨u, hu⟩ := Int.eq_ofNat_of_zero_le (Int.emod_nonneg r (show (2 : ℤ) ^ 64 ≠ 0 by norm_num))
  have hu64 := Int.emod_lt_of_pos r (show (0 : ℤ) < 2 ^ 64 by norm_num)
  have hproduct : toUint64 (r * decay) = (u * decay % 2 ^ 64 : ℕ) := by
    have hmod := ((Int.mod_modEq r (2 ^ 64)).mul_right decay).symm
    rw [hu] at hmod
    push_cast
    exact hmod
  have hscaled : u * decay ≤ u * 100000000 := mul_le_mul_left u hle
  have hr : toUint64 r = u := hu
  rw [hproduct, hr]
  generalize u * decay = product at hscaled ⊢
  have hlower : product % 2 ^ 64 / 100000000 ≤ u := by
    rcases lt_or_ge product (2 ^ 64) with hlt | hwraps
    · rw [mod_eq_of_lt hlt]
      omega
    · have hmod := mod_lt product (show 2 ^ 64 > 0 by norm_num)
      omega
  rw [toInt64_of_range (by omega) (by omega)]
  unfold toUint64
  omega

theorem decayed_succ (decay n : ℕ) (r : ℤ) :
    decayed decay (n + 1) r
      = toInt64 (toUint64 (decayed decay n r * decay) / 100000000) := by
  induction n generalizing r with
  | zero =>
    unfold decayed decayed
    split_ifs with hzero
    · rfl
    · rw [not_not.1 hzero, zero_mul]
      rfl
  | succ n ih =>
    rw [decayed]
    split_ifs with hzero
    · rw [ih, decayed, if_pos hzero]
    · rw [decayed, if_neg hzero, not_not.1 hzero, zero_mul]
      rfl

theorem toUint64_decayed_antitone {decay : ℕ} (hle : decay ≤ 100000000) (r : ℤ) :
    Antitone fun n => toUint64 (decayed decay n r) :=
  antitone_nat_of_succ_le fun n => by
    rw [decayed_succ]
    exact toUint64_lowered_le hle _

/-! ### Linear eras -/

/-- A way around the circle of the `uint64_t` ends between two points if it is no longer than the
way from one to the other. -/
theorem between_iff {a b : ℕ} (ha : a < 2 ^ 64) (hb : b < 2 ^ 64) (z : ℤ) :
    (min a b : ℕ) ≤ toUint64 (a - z) ∧ toUint64 (a - z) ≤ (max a b : ℕ)
      ↔ toUint64 (if a < b then -z else z) ≤ ((a - b) + (b - a) : ℕ) := by
  unfold toUint64
  split_ifs <;> omega

theorem share_le_iff {product : ℤ} {way length : ℕ}
    (hproduct : -2 ^ 63 ≤ product ∧ product < 2 ^ 63) (hway : way < 2 ^ 63) (hlength : 0 < length) :
    toUint64 (product.tdiv length) ≤ way
      ↔ -(length : ℤ) < product ∧ product < ((way + 1) * length : ℕ) := by
  obtain ⟨n, rfl | rfl⟩ := Int.eq_nat_or_neg product
  · have hle := div_le_self n length
    rw [Int.tdiv_eq_ediv_of_nonneg (by omega), ← Int.natCast_ediv, toUint64_of_lt (by omega),
      Nat.cast_le, Nat.cast_lt, ← Nat.div_lt_iff_lt_mul hlength, Nat.lt_succ_iff]
    exact (and_iff_right (by omega)).symm
  · have hle := div_le_self n length
    have hzero : n / length = 0 ↔ n < length := div_eq_zero_iff_lt hlength
    rw [Int.neg_tdiv, Int.tdiv_eq_ediv_of_nonneg (by omega), ← Int.natCast_ediv]
    have hpos : 0 < (way + 1) * length := by positivity
    generalize (way + 1) * length = bound at hpos ⊢
    generalize n / length = share at hle hzero ⊢
    unfold toUint64
    omega

theorem arrives_iff (hstart : c.start j < c.ENDSUBSIDY j) : c.Arrives j k ↔
    toUint64 (if c.REWARD j < c.next j then -c.moved j k else c.moved j k) ≤ c.gap j := by
  unfold Arrives
  split_ifs with hfits hrising hrising
  all_goals try exact Iff.rfl
  all_goals
    have hlength : toInt64 (c.ENDSUBSIDY j - c.start j) = (c.ENDSUBSIDY j - c.start j : ℕ) := by
      rw [← cast_sub hstart.le]
      exact toInt64_of_lt hfits.2
    rw [← share_le_iff (toInt64_bounds _) hfits.1 (by omega), moved, subsidyDifference_eq hfits.1,
      hlength]
    simp [hrising]

/-! ### The subsidy of an era -/

/-- The reward of an era after `k` periods, in machine integers. -/
def machineRate (c : AssetChain) (j k : ℕ) : ℤ :=
  if c.DECAY j = 0 then toInt64 (c.REWARD j) / 2 ^ (k % 64)
  else if c.DECAY j = 100000000 then toInt64 (c.REWARD j - c.moved j k)
  else decayed (c.DECAY j) k (toInt64 (c.REWARD j))

theorem machineRate_zero (j : ℕ) : c.machineRate j 0 = toInt64 (c.REWARD j) := by
  unfold machineRate moved
  split_ifs
  · simp
  · simp [toInt64]
  · rfl

theorem machineRate_of_none (hreward : toInt64 (c.REWARD j) = 0)
    (hnext : j = c.LASTERA ∨ c.REWARD (j + 1) = 0) (k : ℕ) : c.machineRate j k = 0 := by
  have hmoved : c.moved j k = 0 := by
    unfold moved subsidyDifference
    rw [hreward]
    rcases hnext with hnext | hnext <;> simp [hnext, toInt64]
  unfold machineRate
  rw [hreward, hmoved, sub_zero, hreward]
  split_ifs
  · simp
  · rfl
  · cases k <;> simp [decayed]

theorem eraSubsidy_eq_machineRate (hshift : c.ShiftsModulo) (hh : h < 2 ^ 31)
    (hera : c.curEra h ≤ c.LASTERA) (hexplicit : ¬(c.ENDSUBSIDY 0 = 0 ∧ c.REWARD 0 = 0)) :
    (c.eraSubsidy .init h).1 = c.machineRate (c.curEra h) (c.periods h) := by
  have hspec := c.curEra_spec (h := h) (by omega) hera
  have hstart := c.start_le (h := h) (by omega) hera
  unfold eraSubsidy periods
  rw [if_neg hexplicit]
  generalize c.curEra h = j at hera hspec hstart ⊢
  have hnum := numhalvings_eq hh hstart
  simp only [if_neg (not_lt.2 hera)]
  split_ifs with hnone hflat hzero hhalving hdecay hcached
  · rw [machineRate_of_none hnone.1 hnone.2, hnone.1]
  · rw [hflat, Nat.div_zero, machineRate_zero]
  · have hfirst : (h - c.start j) / c.HALVING j = 0 := by
      rw [hnum] at hzero
      exact le_zero.1 (by exact_mod_cast hzero)
    rw [hfirst, machineRate_zero]
  · rw [hnum, machineRate, if_pos hhalving]
    generalize (h - c.start j) / c.HALVING j = k
    unfold shifted
    split_ifs with hsmall
    · rw [mod_eq_of_lt (by omega), Int.toNat_natCast]
    · rw [hshift _ _ (by omega)]
      rfl
  · have hend : h < c.ENDSUBSIDY j := hspec.1.resolve_left hdecay.2
    rw [linearSubsidy_eq_moved hh hstart hend, machineRate, if_neg hhalving, if_pos hdecay.1]
  · exact absurd hcached.1 (lt_irrefl 0)
  · have hother : c.DECAY j ≠ 100000000 := fun heq => hdecay ⟨heq, c.linear_ends j heq⟩
    rw [hnum, machineRate, if_neg hhalving, if_neg hother]
    rfl

theorem subsidyAfter_eq_era (hone : 1 < h) (hpremine : c.SUPPLY / 1000000000 < h) (hh : h < 2 ^ 31)
    (calls : List ℤ) : c.subsidyAfter calls h
      = if c.Unpaid then 0 else toUint64 (c.eraSubsidy .init h).1 := by
  rw [subsidyAfter_eq]
  unfold withPremine
  rw [toUint64_of_lt (by omega)]
  by_cases hunpaid : c.Unpaid
  · rw [if_pos hunpaid, if_neg (not_lt.2 hunpaid.1), if_neg (by omega), if_pos hunpaid.2]
    rfl
  · rw [if_neg hunpaid]
    unfold Unpaid at hunpaid
    split_ifs <;> first | rfl | omega

theorem next_lt_two_pow (j : ℕ) : c.next j < 2 ^ 64 := by
  unfold next
  split_ifs
  · norm_num
  · exact c.reward_lt _

theorem between_machineRate_iff (hdecay : c.DECAY j = 100000000)
    (hstart : c.start j < c.ENDSUBSIDY j) :
    c.Between j (toUint64 (c.machineRate j k)) ↔ c.Arrives j k := by
  have hmod : toUint64 (c.machineRate j k) = toUint64 (c.REWARD j - c.moved j k) := by
    rw [machineRate, if_neg (by omega), if_pos hdecay]
    exact Int.bmod_emod
  rw [Between, hmod, arrives_iff hstart, ← cast_min, ← cast_max]
  exact between_iff (c.reward_lt j) (next_lt_two_pow j) _

/-- What two blocks of an era are paid when the chain pays rewards. -/
theorem machineRate_kept_iff (hle : c.periods h ≤ k) (hdecay : c.DECAY j ≠ 100000000) :
    toUint64 (c.machineRate j k) ≤ toUint64 (c.machineRate j (c.periods h))
      ↔ (c.DECAY j = 0 → ShiftsLower (c.REWARD j) (c.periods h % 64) (k % 64)) := by
  unfold machineRate
  simp only [if_neg hdecay]
  split_ifs with hhalving
  · rw [toUint64_shift_le_iff (c.reward_lt j)]
    exact ⟨fun hlower _ => hlower, fun hlower => hlower hhalving⟩
  · exact iff_of_true (toUint64_decayed_antitone (c.decay_le j) _ hle)
      fun hzero => absurd hzero hhalving

theorem rewardsKept_of_value {paid paid' : ℤ} (hpaid : ∀ calls, c.subsidyAfter calls h = paid)
    (hpaid' : ∀ calls, c.subsidyAfter calls h' = paid') : c.RewardsKept h h' ↔
      (c.DECAY (c.curEra h) ≠ 100000000 → paid' ≤ paid)
      ∧ (c.DECAY (c.curEra h) = 100000000 →
        c.Between (c.curEra h) paid ∧ c.Between (c.curEra h) paid') := by
  have hpure : ∀ (n : ℕ) calls calls', c.subsidyAfter calls n = c.subsidyAfter calls' n :=
    fun n calls calls' => by rw [subsidyAfter_eq, subsidyAfter_eq]
  constructor
  · rintro ⟨-, hlowered, hbetween⟩
    simp only [hpaid, hpaid'] at hlowered hbetween
    exact ⟨fun hdecay => hlowered hdecay [], fun hdecay => hbetween hdecay []⟩
  · rintro ⟨hlowered, hbetween⟩
    refine ⟨hpure, ?_, ?_⟩ <;> simp only [hpaid, hpaid']
    · exact fun hdecay _ => hlowered hdecay
    · exact fun hdecay _ => hbetween hdecay

/-- **What the blocks of an era are paid.**  Decays hold always; halvings hold while the counts of
the shifts grow modulo 64, and linear eras where the product of the way stays a share of it. -/
theorem rewardsKept_iff (hshift : c.ShiftsModulo) (hone : 1 < h)
    (hpremine : c.SUPPLY / 1000000000 < h) (hle : h ≤ h') (hh : h' < 2 ^ 31)
    (hsame : c.curEra h' = c.curEra h) (hera : c.curEra h ≤ c.LASTERA) :
    c.RewardsKept h h' ↔
      (c.DECAY (c.curEra h) = 0 → c.Unpaid
        ∨ ShiftsLower (c.REWARD (c.curEra h)) (c.periods h % 64) (c.periods h' % 64))
      ∧ (c.DECAY (c.curEra h) = 100000000 →
        if c.Unpaid then c.REWARD (c.curEra h) = 0 ∨ c.next (c.curEra h) = 0
        else c.Arrives (c.curEra h) (c.periods h) ∧ c.Arrives (c.curEra h) (c.periods h')) := by
  rw [rewardsKept_of_value (fun calls => subsidyAfter_eq_era hone hpremine (by omega) calls)
    (fun calls => subsidyAfter_eq_era (by omega) (by omega) hh calls)]
  by_cases hunpaid : c.Unpaid
  · simp only [hunpaid, if_true, le_refl, true_or, implies_true, true_and, Between]
    refine forall_congr' fun _ => ?_
    omega
  simp only [hunpaid, if_false, false_or]
  by_cases hexplicit : c.ENDSUBSIDY 0 = 0 ∧ c.REWARD 0 = 0
  · have hfirst : c.curEra h = 0 := if_neg (not_not.2 hexplicit.1)
    have hlinear : c.DECAY 0 ≠ 100000000 := fun heq => c.linear_ends 0 heq hexplicit.1
    have hsmall : ∀ n : ℤ, (c.eraSubsidy .init n).1 = 10000 := fun n => by
      rw [eraSubsidy, if_pos hexplicit]
    simp [hsmall, hfirst, hlinear, ShiftsLower, hexplicit.2]
  · have hlater := eraSubsidy_eq_machineRate hshift hh (hsame.le.trans hera) hexplicit
    rw [hsame] at hlater
    rw [eraSubsidy_eq_machineRate hshift (by omega) hera hexplicit, hlater]
    have hperiods : c.periods h ≤ c.periods h' := by
      unfold periods
      rw [hsame]
      exact Nat.div_le_div_right (by omega)
    refine and_congr ?_ (forall_congr' fun hdecay => ?_)
    · constructor
      · intro hlower hzero
        exact (machineRate_kept_iff hperiods (by omega)).1 (hlower (by omega)) hzero
      · exact fun hlower hdecay => (machineRate_kept_iff hperiods hdecay).2 hlower
    · have hstart : c.start (c.curEra h) < c.ENDSUBSIDY (c.curEra h) :=
        lt_of_le_of_lt (c.start_le (h := h) (by omega) hera)
          ((c.curEra_spec (h := h) (by omega) hera).1.resolve_left (c.linear_ends _ hdecay))
      rw [between_machineRate_iff hdecay hstart, between_machineRate_iff hdecay hstart]

/-- Between two halvings nothing changes. -/
theorem rewardsKept_halvingChain : halvingChain.RewardsKept 1001 2000 :=
  (rewardsKept_iff (fun _ _ _ => rfl) (by decide) (by decide) (by decide) (by decide) (by decide)
    (by decide)).2 ⟨fun _ => .inr (by rw [ShiftsLower, if_pos (by decide)]; exact .inl (by decide)),
      fun hdecay => absurd hdecay (by decide)⟩

/-- **After 64 halvings the first reward is paid again.** -/
theorem reward_returns : ¬ ∀ (c : AssetChain) (h h' : ℕ), c.ShiftsModulo → 1 < h →
    c.SUPPLY / 1000000000 < h → h ≤ h' → h' < 2 ^ 31 → c.curEra h' = c.curEra h →
    c.curEra h ≤ c.LASTERA → c.RewardsKept h h' := by
  intro hall
  have hkept := hall halvingChain 63001000 64001000 (fun _ _ _ => rfl) (by decide) (by decide)
    (by decide) (by decide) (by decide) (by decide)
  exact absurd (hkept.lowered (by decide) []) (by decide)

end AssetChain
end Komodo
