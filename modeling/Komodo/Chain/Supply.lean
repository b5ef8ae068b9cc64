/-
# The money of the eras

What `komodo_current_supply` adds up for each era, in the arithmetic of the naturals (`eraMoney`):
the blocks of a flat era, the periods of a decaying one that are begun, and the steps of a linear
one.  An era without a reward of its own adds nothing, and what comes behind the last era that is
reached is not looked at (`counted`).

Where each of these eras is sound the call returns, and what it returns is at least the sum
(`supply_ge`).  The loop over the periods of an era has an `int` for its counter, and a linear era
takes half of a step for a triangle: these have to fit (`EraSound`).
-/

import Komodo.Chain.EraRewards

namespace Komodo
namespace AssetChain

open Staking (toUint32 SATOSHIDEN)
open Tranches Finset Nat

variable (c : AssetChain)

/-! ### The money of an era -/

/-- Where the blocks of an era end that the supply at `N` counts. -/
def endAt (N j : ℕ) : ℕ := if c.ENDSUBSIDY j = 0 then N else min (c.ENDSUBSIDY j) N

/-- The blocks of an era that the supply counts. -/
def blocks (N j : ℕ) : ℕ := c.endAt N j - c.start j

/-- A step of a linear era, rounded down. -/
def step (N j : ℕ) : ℕ := c.gap j / (c.blocks N j / c.HALVING j)

/-- What an era adds to the supply. -/
def eraMoney (N j : ℕ) : ℕ :=
  let p := c.HALVING j
  let n := c.blocks N j / p
  if c.REWARD j = 0 then 0
  else if p = 0 then c.REWARD j * (N - 1)
  else if c.DECAY j = 100000000 then
    if c.REWARD j < c.next j then
      p * ∑ k ∈ range n, (c.REWARD j + k * c.step N j) + c.step N j * n
    else
      p * ∑ k ∈ range n, (c.REWARD j - k * c.step N j)
        + c.blocks N j % p * (c.REWARD j - n * c.step N j)
  else
    p * ∑ k ∈ range (begun p (c.blocks N j)), c.rate j k
      + c.blocks N j % p * c.rate j (begun p (c.blocks N j))

/-- The steps of a linear era are exact where the supply rounds them. -/
def StepsFit (N j : ℕ) : Prop :=
  c.ENDSUBSIDY j ≤ N ∧
    if c.REWARD j = 0 then c.blocks N j ≤ c.HALVING j
    else c.blocks N j < c.HALVING j ∧ c.next j ≤ c.REWARD j
      ∨ c.HALVING j ∣ c.blocks N j ∧ 2 ∣ c.HALVING j * c.step N j
        ∧ (c.REWARD j < c.next j → c.blocks N j / c.HALVING j ∣ c.gap j)

/-- The supply counts the era without loss. -/
structure EraSound (N j : ℕ) : Prop where
  ordered : c.HALVING j ≠ 0 → c.REWARD j ≠ 0 → c.start j ≤ c.endAt N j
  /-- The counter of the periods stays in its type. -/
  counter : c.HALVING j ≠ 0 → c.DECAY j ≠ 100000000 → c.REWARD j ≠ 0 →
    c.start j + c.HALVING j < 2 ^ 32
  steps : c.HALVING j ≠ 0 → c.DECAY j = 100000000 → c.Pays j → c.StepsFit N j

variable {c} {N j : ℕ}

theorem begun_zero {p : ℕ} (hp : 0 < p) : begun p 0 = 0 :=
  div_eq_of_lt (by omega)

theorem nextReward_eq {decay r : ℕ} (hle : decay ≤ 100000000) (hr : r < 2 ^ 63)
    (hproduct : r * decay < 2 ^ 64) : nextReward decay r = (lowered decay r : ℕ) := by
  have hlow : lowered decay r < 2 ^ 63 := lt_of_le_of_lt (lowered_le hle) hr
  unfold nextReward
  by_cases hzero : decay = 0
  · rw [if_neg (not_not.2 hzero), lowered, if_pos hzero]
    rfl
  · rw [if_pos hzero, ← cast_mul, toUint64_of_lt hproduct]
    rw [lowered, if_neg hzero] at hlow ⊢
    exact toInt64_of_lt hlow

theorem periodLoop_stop {decay fuel E k : ℕ} {period r cur : ℤ} (hE : E < 2 ^ 31) (hk : E ≤ k)
    (hk32 : k < 2 ^ 32) (hfuel : 0 < fuel) :
    periodLoop decay period E fuel ((k : ℤ).bmod (2 ^ 32)) r cur = some (cur, r) := by
  obtain ⟨fuel, rfl⟩ := Nat.exists_eq_add_of_lt hfuel
  have hstop : ¬toUint64 ((k : ℤ).bmod (2 ^ 32)) < E := by
    unfold toUint64
    rw [Int.bmod_def]
    split_ifs <;> omega
  rw [zero_add]
  unfold periodLoop
  rw [if_neg hstop]

/-- **The loop over the periods**: every period that is begun, at its reward. -/
theorem periodLoop_eq {decay p E : ℕ} (hle : decay ≤ 100000000) (hE : E < 2 ^ 31) (hp : 0 < p)
    {fuel : ℕ} : ∀ {k r : ℕ} {x : ℤ}, E - k < fuel → k < 2 ^ 31 → k + p < 2 ^ 32 → r < 2 ^ 63 →
      r * decay < 2 ^ 64 →
      periodLoop decay p E fuel ((k : ℤ).bmod (2 ^ 32)) r (toUint64 x)
        = some (toUint64 (x + (p * ∑ i ∈ range (begun p (E - k)), (lowered decay)^[i] r : ℕ)),
            (((lowered decay)^[begun p (E - k)] r : ℕ) : ℤ)) := by
  induction fuel with
  | zero => exact fun h => absurd h (not_lt_zero _)
  | succ fuel ih =>
    intro k r x hfuel hk hkp hr hproduct
    rcases lt_or_ge k E with hlt | hge
    · have hlow : lowered decay r ≤ r := lowered_le hle
      have hgo : toUint64 ((k : ℤ).bmod (2 ^ 32)) < E := by
        rw [Int.bmod_eq_of_le (by omega) (by omega), toUint64_of_lt (by omega)]
        exact_mod_cast hlt
      have hcounter : ((k : ℤ).bmod (2 ^ 32) + p).bmod (2 ^ 32)
          = ((k + p : ℕ) : ℤ).bmod (2 ^ 32) := by
        rw [Int.bmod_add_bmod]
        rfl
      unfold periodLoop
      rw [if_pos hgo, hcounter, nextReward_eq hle hr hproduct, toUint64_add_toUint64,
        begun_succ hp (by omega), sum_range_succ', Function.iterate_succ_apply, Nat.sub_sub]
      rcases lt_or_ge (k + p) E with hmore | hover
      · rw [ih (by omega) (by omega) (by omega) (lt_of_le_of_lt hlow hr)
          (lt_of_le_of_lt (mul_le_mul_right _ hlow) hproduct)]
        have hmoney : x + p * r + ((p * ∑ i ∈ range (begun p (E - (k + p))),
              (lowered decay)^[i] (lowered decay r) : ℕ) : ℤ)
            = x + ((p * (∑ i ∈ range (begun p (E - (k + p))), (lowered decay)^[i + 1] r
                + (lowered decay)^[0] r) : ℕ) : ℤ) := by
          simp only [Function.iterate_succ_apply, Function.iterate_zero, id, mul_add]
          push_cast
          ring
        rw [hmoney]
      · rw [periodLoop_stop hE hover hkp (by omega), Nat.sub_eq_zero_of_le hover, begun_zero hp]
        simp
    · rw [periodLoop_stop hE hge (by omega) (by omega), Nat.sub_eq_zero_of_le hge, begun_zero hp]
      simp

theorem curEnd_eq (N j : ℕ) : c.curEnd N j = c.endAt N j := by
  unfold curEnd endAt
  split_ifs <;> omega

theorem step_mul_le (N j : ℕ) {k : ℕ} (hk : k ≤ c.blocks N j / c.HALVING j) :
    k * c.step N j ≤ c.gap j :=
  (mul_le_mul_right _ hk).trans (mul_div_le ..)

theorem toUint32_of_lt {n : ℕ} (h : n < 2 ^ 32) : toUint32 n = n := by
  unfold toUint32
  omega

/-- What a linear era of `n` whole periods adds, `T` being a step triangle. -/
theorem linearSupply_of_steps {r g n p T : ℕ} {rising : Prop} [Decidable rising]
    (hdifference : c.subsidyDifference j r = ((g : ℤ), if rising then -1 else 1)) (hn : 0 < n)
    (hp : 0 < p) (hblocks : n * p < 2 ^ 31) (hproduct : g * (n * p) < 2 ^ 63)
    (hT : p * (g / n) = 2 * T) :
    c.linearSupply j r p n (n * p : ℕ)
      = if rising then
          (T : ℤ) * (n - 1) + T * (n - 1) * (n - 1) + (g / n : ℕ) * n + r * (n * p : ℕ)
        else T * n + T * n * n + (r - (g / n : ℕ) * n) * (n * p : ℕ) := by
  have hpL : p ≤ n * p := Nat.le_mul_of_pos_left p hn
  have hnL : n ≤ n * p := Nat.le_mul_of_pos_right n hp
  have hpg : p * g < 2 ^ 63 := lt_of_le_of_lt
    (by rw [mul_comm]; exact mul_le_mul_left g hpL) hproduct
  have hg : g ≤ p * g := Nat.le_mul_of_pos_left g hp
  have hdg : g / n ≤ g := div_le_self ..
  have hpd : p * (g / n) < 2 ^ 63 := lt_of_le_of_lt (mul_le_mul_left p hdg) hpg
  have hden : toInt64 ((n : ℤ) * p) = (n * p : ℕ) := by
    rw [← cast_mul]
    exact toInt64_of_lt (by omega)
  have hnonzero : ((n * p : ℕ) : ℤ) ≠ 0 := by omega
  have hstep : toInt64 (toUint64 ((p : ℤ) * g) / toUint64 ((n * p : ℕ) : ℤ)) = (g / n : ℕ) := by
    rw [← cast_mul, toUint64_of_lt (by omega), toUint64_of_lt (by omega), ← Int.natCast_ediv,
      Nat.mul_comm p g, Nat.mul_div_mul_right _ _ hp]
    exact toInt64_of_lt (by omega)
  have htriangle : toInt64 (toUint64 ((p : ℤ) * (g / n : ℕ)) / 2) = T := by
    rw [← cast_mul, toUint64_of_lt (by omega), hT, cast_mul, cast_ofNat,
      Int.mul_ediv_cancel_left _ (by decide)]
    exact toInt64_of_lt (by omega)
  have hpred : toUint32 ((n : ℤ) - 1) = (n : ℤ) - 1 := by
    rw [← cast_pred hn]
    exact toUint32_of_lt (by omega)
  unfold linearSupply
  simp only [hdifference, hden, if_neg hnonzero, hstep, htriangle, hpred, one_mul]
  by_cases hrising : rising
  · rw [if_pos hrising, if_pos hrising, if_pos (by decide)]
  · rw [if_neg hrising, if_neg hrising, if_neg (by decide)]

/-- **A linear era adds its steps**, where they fit. -/
theorem linearSupply_eq (hfit : c.RewardsFit) (hj : j ≤ c.LASTERA) (hN : N < 2 ^ 31)
    (hhalving : c.HALVING j ≠ 0) (hdecay : c.DECAY j = 100000000) (hreward : c.REWARD j ≠ 0)
    (hsteps : c.StepsFit N j) :
    c.linearSupply j (c.REWARD j) (c.HALVING j) (c.blocks N j / c.HALVING j : ℕ) (c.blocks N j)
      = c.eraMoney N j := by
  obtain ⟨hend, hsteps⟩ := hsteps
  rw [if_neg hreward] at hsteps
  have hblocks : c.blocks N j = c.ENDSUBSIDY j - c.start j := by
    unfold blocks endAt
    rw [if_neg (c.linear_ends j hdecay), min_eq_left hend]
  have hproduct := (hfit.linear j hj hhalving hdecay).2
  rw [← hblocks] at hproduct
  have hgap : c.gap j = (c.REWARD j - c.next j) + (c.next j - c.REWARD j) := rfl
  have hr := hfit.reward j hj
  have hnext := next_lt hfit hj
  have hdifference := subsidyDifference_eq (show c.gap j < 2 ^ 63 by omega)
  rw [toInt64_of_lt hr] at hdifference
  have hstep : c.step N j = c.gap j / (c.blocks N j / c.HALVING j) := rfl
  have hp : 0 < c.HALVING j := pos_of_ne_zero hhalving
  unfold eraMoney
  rw [if_neg hreward, if_neg hhalving, if_pos hdecay]
  rcases Nat.eq_zero_or_pos (c.blocks N j / c.HALVING j) with hn | hn
  · -- the era is over before its first step
    have hfalling : ¬c.REWARD j < c.next j := by
      rcases hsteps with ⟨-, hle⟩ | ⟨-, -, hdvd⟩
      · exact not_lt.2 hle
      · intro hrising
        rw [hn] at hdvd
        have hzero := eq_zero_of_zero_dvd (hdvd hrising)
        omega
    have hlast : c.blocks N j % c.HALVING j = c.blocks N j :=
      mod_eq_of_lt ((div_eq_zero_iff_lt hp).1 hn)
    unfold linearSupply
    rw [hdifference, if_neg hfalling, if_neg hfalling, hn, hlast]
    simp [mul_comm]
  · obtain ⟨hdvd, ⟨T, hT⟩, -⟩ := hsteps.resolve_left fun h => absurd hn
      (by rw [div_eq_of_lt h.1]; exact lt_irrefl 0)
    have hL : c.blocks N j = c.blocks N j / c.HALVING j * c.HALVING j :=
      (Nat.div_mul_cancel hdvd).symm
    have hlast : c.blocks N j % c.HALVING j = 0 := mod_eq_zero_of_dvd hdvd
    have hle := fun {k} => c.step_mul_le N j (k := k)
    generalize c.blocks N j / c.HALVING j = n at *
    rw [hlast, hL, linearSupply_of_steps hdifference hn hp (by omega) (hL ▸ hproduct) (hstep ▸ hT),
      ← hstep]
    have hT : 2 * (T : ℤ) = c.HALVING j * c.step N j := by exact_mod_cast hT.symm
    by_cases hrising : c.REWARD j < c.next j
    · rw [if_pos hrising, if_pos hrising]
      have hsum := rising_eq hT (c.REWARD j : ℤ) n
      push_cast
      linear_combination hsum
    · rw [if_neg hrising, if_neg hrising]
      have hsum := falling_eq hT (c.REWARD j : ℤ) n
      have hcast : ((∑ k ∈ range n, (c.REWARD j - k * c.step N j) : ℕ) : ℤ)
          = ∑ k ∈ range n, ((c.REWARD j : ℤ) - k * c.step N j) := by
        rw [cast_sum]
        refine sum_congr rfl fun k hk => ?_
        have hle := hle (mem_range.1 hk).le
        rw [cast_sub (by omega), cast_mul]
      rw [zero_mul, add_zero, cast_mul (c.HALVING j), hcast]
      push_cast
      linear_combination hsum

theorem blocks_le (N j : ℕ) : c.blocks N j ≤ N := by
  unfold blocks endAt
  split_ifs <;> omega

/-- **What an era adds to the supply**: its money, with a turn of the loop for every block. -/
theorem eraSupply_eq (hfit : c.RewardsFit) (hj : j ≤ c.LASTERA) (hpos : 0 < N) (hN : N < 2 ^ 31)
    (hsound : c.EraSound N j) (x : ℤ) :
    c.eraSupply (N + 1) N j (toUint64 x) = some (toUint64 (x + c.eraMoney N j)) := by
  have hr := hfit.reward j hj
  unfold eraSupply
  rw [toInt64_of_lt hr]
  by_cases hreward : c.REWARD j = 0
  · simp [hreward, eraMoney]
  rw [if_pos (by omega)]
  by_cases hhalving : c.HALVING j = 0
  · have hpred : toUint32 ((N : ℤ) - 1) = (N - 1 : ℕ) := by
      rw [← cast_pred hpos]
      exact toUint32_of_lt (by omega)
    unfold eraMoney
    rw [if_pos hhalving, if_neg hreward, if_pos hhalving, hpred, toUint64_add_toUint64, cast_mul]
  have hp : 0 < c.HALVING j := pos_of_ne_zero hhalving
  have hordered := hsound.ordered hhalving hreward
  have hblocks := c.blocks_le N j
  have hL : toUint64 (c.curEnd N j - c.start j) = c.blocks N j := by
    rw [curEnd_eq, ← cast_sub hordered]
    exact toUint64_of_lt (by unfold blocks at hblocks; omega)
  have hsteps : toUint32 ((c.blocks N j : ℤ) / c.HALVING j) = (c.blocks N j / c.HALVING j : ℕ) := by
    rw [← Int.natCast_ediv]
    exact toUint32_of_lt (lt_of_le_of_lt (div_le_self ..) (by omega))
  have hmodulo : toUint32 ((c.blocks N j : ℤ) % c.HALVING j)
      = (c.blocks N j % c.HALVING j : ℕ) := by
    rw [← Int.natCast_emod]
    exact toUint32_of_lt (lt_of_le_of_lt (mod_le ..) (by omega))
  simp only [if_neg hhalving, hL, hsteps, hmodulo]
  by_cases hdecay : c.DECAY j = 100000000
  · have hlinear : (c.DECAY j : ℤ) = SATOSHIDEN := by rw [hdecay]; rfl
    rw [if_pos hlinear, linearSupply_eq hfit hj hN hhalving hdecay hreward
      (hsound.steps hhalving hdecay (.inl hreward)), toUint64_add_toUint64]
  · have hother : ¬(c.DECAY j : ℤ) = SATOSHIDEN := fun h =>
      hdecay (cast_injective (R := ℤ) h)
    have hcounter := hsound.counter hhalving hdecay hreward
    have hend : c.endAt N j ≤ N := by
      unfold endAt
      split_ifs <;> omega
    rw [if_neg hother, curEnd_eq, periodLoop_eq (c.decay_le j) (by omega) hp (by omega) (by omega)
      hcounter hr (hfit.product j hj hhalving hdecay)]
    unfold eraMoney
    rw [if_neg hreward, if_neg hhalving, if_neg hdecay]
    simp only [Option.bind_eq_bind, Option.bind_some, toUint64_add_toUint64]
    rw [cast_add, ← add_assoc, cast_mul (c.blocks N j % c.HALVING j)]
    rfl

/-! ### The supply -/

/-- The loop over the eras comes to the era. -/
def Reached (c : AssetChain) (N j : ℕ) : Prop := ∀ i ≤ j, ¬c.noMoreRewards N i

instance (N j : ℕ) : Decidable (c.Reached N j) := inferInstanceAs (Decidable (∀ i ≤ j, _))

/-- The eras that the supply counts. -/
def counted (c : AssetChain) (N : ℕ) : Finset ℕ := (range (c.LASTERA + 1)).filter (c.Reached N)

/-- The money before the first reward. -/
def initial (c : AssetChain) : ℕ := (c.SUPPLY + 1) * 100000000 + c.MAGIC % 2 ^ 24 + 5000000000

/-- The supply before the commission. -/
def total (c : AssetChain) (N : ℕ) : ℕ := c.initial + ∑ j ∈ c.counted N, c.eraMoney N j

theorem initialMoney_eq : c.initialMoney = c.initial := by
  unfold initialMoney initial SATOSHIDEN ASSETCHAINS_GENESISTXVAL
  push_cast
  ring

theorem withCommission_ge {cur : ℕ} (h : cur < 2 ^ 63) : (cur : ℤ) ≤ c.withCommission cur := by
  unfold withCommission KOMODO_MAXNVALUE
  rw [if_neg (by omega)]
  dsimp only
  split_ifs <;> omega

/-- **The loop over the eras**: what is left of them from the `s`th. -/
theorem erasSupply_eq (hfit : c.RewardsFit) (hpos : 0 < N) (hN : N < 2 ^ 31)
    (hsound : ∀ j ∈ c.counted N, c.EraSound N j) {n : ℕ} : ∀ {s : ℕ}, s + n = c.LASTERA + 1 →
      (∀ i < s, ¬c.noMoreRewards N i) → ∀ x, c.erasSupply (N + 1) N (List.range' s n) (toUint64 x)
        = some (toUint64
            (x + ((∑ j ∈ Ico s (s + n) with c.Reached N j, c.eraMoney N j : ℕ) : ℤ))) := by
  induction n with
  | zero => simp [erasSupply]
  | succ n ih =>
    intro s hs hbefore x
    rw [List.range'_succ]
    unfold erasSupply
    by_cases hmore : c.noMoreRewards N s
    · have hnone : ∀ j ∈ Ico s (s + (n + 1)), ¬c.Reached N j := fun j hj hreached =>
        hreached s (mem_Ico.1 hj).1 hmore
      rw [if_pos hmore, filter_false_of_mem hnone]
      simp
    · have hall : ∀ i < s + 1, ¬c.noMoreRewards N i := fun i hi =>
        (Nat.lt_succ_iff_lt_or_eq.1 hi).elim (hbefore i) fun h => h ▸ hmore
      have hreached : c.Reached N s := fun i hi => hall i (by omega)
      have hera := hsound s (mem_filter.2 ⟨mem_range.2 (by omega), hreached⟩)
      rw [if_neg hmore, eraSupply_eq hfit (by omega) hpos hN hera, Option.bind_eq_bind,
        Option.bind_some, ih (by omega) hall, sum_filter, sum_filter,
        sum_eq_sum_Ico_succ_bot (by omega : s < s + (n + 1)), if_pos hreached,
        show s + 1 + n = s + (n + 1) by omega, cast_add, add_assoc]

theorem counted_eq (c : AssetChain) (N : ℕ) :
    c.counted N = (Ico 0 (0 + (c.LASTERA + 1))).filter (c.Reached N) := by
  rw [zero_add, ← range_eq_Ico]
  rfl

/-- **The supply is at least the money that is counted**, and the call returns. -/
theorem supply_ge (hfit : c.RewardsFit) (hpos : 0 < N) (hN : N < 2 ^ 31)
    (hsound : ∀ j ∈ c.counted N, c.EraSound N j) (htotal : c.total N < 2 ^ 63) :
    ∃ supply, c.komodoCurrentSupply (N + 1) N = some supply ∧ (c.total N : ℤ) ≤ supply := by
  unfold komodoCurrentSupply
  rw [initialMoney_eq]
  dsimp only
  split_ifs with hnone
  · have hzero : ∀ j ∈ c.counted N, c.eraMoney N j = 0 := fun j hj => by
      have hj : j = 0 := by
        have hlt := mem_range.1 (mem_filter.1 hj).1
        omega
      unfold eraMoney
      rw [hj, if_pos hnone.2]
    have hsmall : c.initial + ((N * 10000) % 2 ^ 32) < 2 ^ 63 := by
      have hsupply := c.supply_le
      unfold initial
      omega
    have htail : toUint32 ((N : ℤ) * 10000) = (N * 10000 % 2 ^ 32 : ℕ) := by
      unfold toUint32
      push_cast
      rfl
    refine ⟨_, rfl, ?_⟩
    unfold total
    rw [sum_eq_zero hzero, htail, toUint64_add_toUint64, ← cast_add, toUint64_of_lt (by omega)]
    exact le_trans (by omega) (withCommission_ge hsmall)
  · rw [List.range_eq_range', erasSupply_eq hfit hpos hN hsound (zero_add _)
      (fun i hi => absurd hi (not_lt_zero i)), ← counted_eq, ← cast_add,
      toUint64_of_lt (by unfold total at htotal; omega)]
    exact ⟨_, rfl, withCommission_ge htotal⟩

end AssetChain
end Komodo
