/-
# The most money of an asset chain

`komodo_max_money` is the supply at ten million blocks, and is to be no less than what
`komodo_ac_block_subsidy` pays until then.  `maxMoneyCovers_of_accounted` says when it is: no era
may lose anything in the supply, and the block at the height of the supply has to be counted, or
to be paid out of what the supply holds above the premine (`Accounted`).

Eras do lose something.  A linear era that rises from nothing is not counted, one that is not over
is counted as though it ended at that height, and half of a step is lost where a triangle is odd.
And a chain without explicit rewards pays 10000 for a block, which the supply multiplies out in
32 bits: it covers the subsidies of such a chain only where its blocks pay nothing
(`maxMoneyCovers`).
-/

import Komodo.Chain.Supply

namespace Komodo
namespace AssetChain

open Staking (toUint32)
open Tranches Finset Nat

variable {c : AssetChain} {N j : ℕ}

/-! ### What the blocks of an era are paid -/

theorem counted_le (hj : j ∈ c.counted N) : j ≤ c.LASTERA :=
  Nat.lt_succ_iff.1 (mem_range.1 (mem_filter.1 hj).1)

/-- The blocks that the supply counts of a linear era are paid no more than its money. -/
theorem sum_linear_le (hhalving : c.HALVING j ≠ 0) (hdecay : c.DECAY j = 100000000)
    (hreward : c.REWARD j ≠ 0) (hsteps : c.StepsFit N j) :
    ∑ i ∈ range (c.blocks N j), c.pay j i ≤ c.eraMoney N j := by
  obtain ⟨hend, hsteps⟩ := hsteps
  rw [if_neg hreward] at hsteps
  have hp : 0 < c.HALVING j := pos_of_ne_zero hhalving
  have hblocks : c.ENDSUBSIDY j - c.start j = c.blocks N j := by
    unfold blocks endAt
    rw [if_neg (c.linear_ends j hdecay), min_eq_left hend]
  have hsplit : c.blocks N j = c.blocks N j / c.HALVING j * c.HALVING j
      + c.blocks N j % c.HALVING j := (div_add_mod' ..).symm
  have hsum : ∑ i ∈ range (c.blocks N j), c.pay j i
      = c.HALVING j * ∑ k ∈ range (c.blocks N j / c.HALVING j), c.linearRate j k
        + c.blocks N j % c.HALVING j * c.linearRate j (c.blocks N j / c.HALVING j) := by
    have htranches := sum_tranches (c.linearRate j) (mod_lt (c.blocks N j) hp).le
      (c.blocks N j / c.HALVING j)
    rw [← hsplit] at htranches
    rw [← smul_eq_mul, ← smul_eq_mul, ← htranches]
    exact sum_congr rfl fun i _ => if_pos hdecay
  rw [hsum]
  unfold eraMoney
  rw [if_neg hreward, if_neg hhalving, if_pos hdecay]
  rcases hsteps with ⟨hshort, hfalling⟩ | ⟨hdvd, -, hexact⟩
  · rw [div_eq_of_lt hshort, if_neg (not_lt.2 hfalling)]
    simp [linearRate]
  · have hlast : c.blocks N j % c.HALVING j = 0 := mod_eq_zero_of_dvd hdvd
    rw [hlast, add_zero] at hsplit
    rw [hlast]
    unfold linearRate step
    rw [hblocks, hsplit, Nat.mul_div_cancel _ hp]
    rw [hsplit, Nat.mul_div_cancel _ hp] at hexact
    dsimp only
    split_ifs with hrising
    · rw [zero_mul, add_zero]
      refine le_trans (Nat.mul_le_mul_left _ (sum_le_sum fun k _ => ?_)) (Nat.le_add_right ..)
      rw [share_of_dvd hp (hexact hrising)]
    · rw [zero_mul, zero_mul, add_zero, add_zero]
      refine mul_le_mul_left _ (sum_le_sum fun k _ => ?_)
      exact Nat.sub_le_sub_left (steps_le_share hp ..) _

theorem sum_decaying_le (hhalving : c.HALVING j ≠ 0) (hdecay : c.DECAY j ≠ 100000000)
    (hreward : c.REWARD j ≠ 0) {n : ℕ}
    (hn : begun (c.HALVING j) n = begun (c.HALVING j) (c.blocks N j)) :
    ∑ i ∈ range n, c.pay j i ≤ c.eraMoney N j := by
  have hsum : ∑ i ∈ range n, c.pay j i = ∑ i ∈ range n, c.rate j (i / c.HALVING j) :=
    sum_congr rfl fun i _ => if_neg hdecay
  have hle := sum_le_begun (f := c.rate j) (n := n) (pos_of_ne_zero hhalving)
    (fun k => zero_le _)
  rw [hn, smul_eq_mul] at hle
  unfold eraMoney
  rw [hsum, if_neg hreward, if_neg hhalving, if_neg hdecay]
  exact hle.trans (Nat.le_add_right ..)

theorem pay_antitone (hdecay : c.DECAY j ≠ 100000000) : Antitone (c.pay j) := by
  intro i i' hle
  unfold pay
  rw [if_neg hdecay, if_neg hdecay]
  exact c.rate_antitone j (Nat.div_le_div_right hle)

/-- The supply counts the block at its own height too.  Elsewhere its loops end before it. -/
def LastCounted (c : AssetChain) (N : ℕ) : Prop :=
  c.curEra N ∈ c.counted N ∧
    if c.HALVING (c.curEra N) = 0 then 2 ≤ c.start (c.curEra N) ∨ c.Unrewarded 1
    else c.DECAY (c.curEra N) ≠ 100000000
      ∧ (c.start (c.curEra N) = 0 ∨ ¬c.HALVING (c.curEra N) ∣ N - c.start (c.curEra N))

instance (N : ℕ) : Decidable (c.LastCounted N) := inferInstanceAs (Decidable (_ ∧ _))

/-- The blocks that the supply counts. -/
def countedBlocks (c : AssetChain) (N : ℕ) : Finset ℕ :=
  (Ico 1 (N + 1)).filter fun h => h = N → c.LastCounted N

/-- Those of them that belong to an era. -/
def countedOf (c : AssetChain) (N j : ℕ) : Finset ℕ :=
  (c.countedBlocks N).filter fun h : ℕ => c.curEra h = j

section covered

variable {h : ℕ}

theorem mem_countedOf : h ∈ c.countedOf N j
    ↔ (1 ≤ h ∧ h < N + 1) ∧ (h = N → c.LastCounted N) ∧ c.curEra h = j := by
  unfold countedOf countedBlocks
  rw [mem_filter, mem_filter, mem_Ico, and_assoc]

theorem countedOf_spec (hexplicit : ¬(c.ENDSUBSIDY 0 = 0 ∧ c.REWARD 0 = 0)) (hN : N < 2 ^ 31)
    (hj : j ≤ c.LASTERA) (hh : h ∈ c.countedOf N j) :
    c.start j ≤ h ∧ (c.ENDSUBSIDY j = 0 ∨ h < c.ENDSUBSIDY j)
      ∧ c.rewarded h ≤ c.pay j (h - c.start j) := by
  obtain ⟨⟨-, hlt⟩, -, rfl⟩ := mem_countedOf.1 hh
  refine ⟨start_le (by omega) hj, (curEra_spec (by omega) hj).1, ?_⟩
  unfold rewarded reward
  rw [if_neg hexplicit, if_neg (not_lt.2 hj)]
  split_ifs
  · exact zero_le _
  · exact le_rfl

theorem countedOf_le (hexplicit : ¬(c.ENDSUBSIDY 0 = 0 ∧ c.REWARD 0 = 0)) (hN : N < 2 ^ 31)
    (hj : j ≤ c.LASTERA) {B : ℕ} (hB : ∀ h ∈ c.countedOf N j, h < B) :
    ∑ h ∈ c.countedOf N j, c.rewarded h ≤ ∑ i ∈ range (B - c.start j), c.pay j i := by
  have hsub : c.countedOf N j ⊆ Ico (c.start j) B := fun h hh =>
    mem_Ico.2 ⟨(countedOf_spec hexplicit hN hj hh).1, hB h hh⟩
  calc ∑ h ∈ c.countedOf N j, c.rewarded h
      ≤ ∑ h ∈ c.countedOf N j, c.pay j (h - c.start j) :=
        sum_le_sum fun h hh => (countedOf_spec hexplicit hN hj hh).2.2
    _ ≤ ∑ h ∈ Ico (c.start j) B, c.pay j (h - c.start j) := sum_le_sum_of_subset hsub
    _ = ∑ i ∈ range (B - c.start j), c.pay j i := by
        rw [sum_Ico_eq_sum_range]
        exact sum_congr rfl fun i _ => by rw [Nat.add_sub_cancel_left]

/-- An era without a reward of its own pays nothing, where its steps fit. -/
theorem unpaid_covered (hexplicit : ¬(c.ENDSUBSIDY 0 = 0 ∧ c.REWARD 0 = 0)) (hN : N < 2 ^ 31)
    (hj : j ≤ c.LASTERA) (hsound : c.EraSound N j) (hreward : c.REWARD j = 0) :
    ∑ h ∈ c.countedOf N j, c.rewarded h = 0 := by
  refine sum_eq_zero fun h hh => ?_
  obtain ⟨hstart, hend, hle⟩ := countedOf_spec hexplicit hN hj hh
  suffices hpay : c.pay j (h - c.start j) = 0 from le_zero.1 (hpay ▸ hle)
  by_cases hpays : c.Pays j
  · by_cases hdecay : c.DECAY j = 100000000
    · rw [← hreward]
      refine pay_first ?_
      by_cases hhalving : c.HALVING j = 0
      · rw [hhalving, Nat.div_zero]
      · obtain ⟨hendN, hshort⟩ := hsound.steps hhalving hdecay hpays
        have hnonzero := c.linear_ends j hdecay
        unfold blocks endAt at hshort
        rw [if_pos hreward, if_neg hnonzero] at hshort
        exact div_eq_of_lt (by omega)
    · unfold pay
      rw [if_neg hdecay]
      exact le_zero.1 (hreward ▸ rate_le j _)
  · exact pay_of_not_pays hpays _

/-- An era that pays the same for every block. -/
theorem flat_covered (hexplicit : ¬(c.ENDSUBSIDY 0 = 0 ∧ c.REWARD 0 = 0)) (hN : N < 2 ^ 31)
    (hj : j ≤ c.LASTERA) (hhalving : c.HALVING j = 0) :
    ∑ h ∈ c.countedOf N j, c.rewarded h ≤ c.REWARD j * (N - 1) := by
  have hpay : ∀ h ∈ c.countedOf N j, c.rewarded h ≤ c.REWARD j := fun h hh => by
    refine (countedOf_spec hexplicit hN hj hh).2.2.trans_eq (pay_first ?_)
    rw [hhalving, Nat.div_zero]
  have hcard : ((c.countedOf N j).filter (c.rewarded · ≠ 0)).card ≤ N - 1 := by
    by_cases hlast : N ∈ c.countedOf N j
    · obtain ⟨-, hcounted, rfl⟩ := mem_countedOf.1 hlast
      obtain ⟨-, hlast⟩ := hcounted rfl
      rw [if_pos hhalving] at hlast
      have hsub : (c.countedOf N (c.curEra N)).filter (c.rewarded · ≠ 0) ⊆ Ico 2 (N + 1) := by
        intro h hh
        obtain ⟨hh, hnonzero⟩ := mem_filter.1 hh
        have hstart := (countedOf_spec hexplicit hN hj hh).1
        have hrange := (mem_countedOf.1 hh).1
        have hone : h = 1 → ¬c.Unrewarded 1 := fun hone hun => hnonzero (by
          rw [hone]
          exact if_pos hun)
        rw [mem_Ico]
        rcases hlast with hlast | hlast
        · omega
        · exact ⟨by by_contra hlt; exact hone (by omega) hlast, hrange.2⟩
      exact (card_le_card hsub).trans_eq (by rw [card_Ico]; omega)
    · have hsub : (c.countedOf N j).filter (c.rewarded · ≠ 0) ⊆ Ico 1 N := by
        intro h hh
        have hh := (mem_filter.1 hh).1
        have hrange := (mem_countedOf.1 hh).1
        have hne : h ≠ N := fun heq => hlast (heq ▸ hh)
        exact mem_Ico.2 ⟨hrange.1, by omega⟩
      exact (card_le_card hsub).trans_eq (card_Ico ..)
  rw [← sum_filter_ne_zero]
  refine (sum_le_card_nsmul _ _ _ fun h hh => hpay h (mem_filter.1 hh).1).trans ?_
  rw [smul_eq_mul, mul_comm]
  exact mul_le_mul_left _ hcard

/-- **The supply covers the blocks that it counts of an era.** -/
theorem era_covered (hexplicit : ¬(c.ENDSUBSIDY 0 = 0 ∧ c.REWARD 0 = 0)) (hN : N < 2 ^ 31)
    (hj : j ≤ c.LASTERA) (hsound : c.EraSound N j) :
    ∑ h ∈ c.countedOf N j, c.rewarded h ≤ c.eraMoney N j := by
  by_cases hreward : c.REWARD j = 0
  · rw [unpaid_covered hexplicit hN hj hsound hreward]
    exact zero_le _
  by_cases hhalving : c.HALVING j = 0
  · unfold eraMoney
    rw [if_neg hreward, if_pos hhalving]
    exact flat_covered hexplicit hN hj hhalving
  have hordered := hsound.ordered hhalving hreward
  have hbefore : ∀ {B : ℕ}, (∀ h ∈ c.countedOf N j, h < B) → B = c.endAt N j →
      ∑ h ∈ c.countedOf N j, c.rewarded h ≤ ∑ i ∈ range (c.blocks N j), c.pay j i := by
    rintro _ hB rfl
    exact countedOf_le hexplicit hN hj hB
  by_cases hdecay : c.DECAY j = 100000000
  · -- a linear era is over by then
    have hsteps := hsound.steps hhalving hdecay (.inl hreward)
    have hend : c.endAt N j = c.ENDSUBSIDY j := by
      unfold endAt
      rw [if_neg (c.linear_ends j hdecay), min_eq_left hsteps.1]
    refine (hbefore (fun h hh => ?_) hend.symm).trans (sum_linear_le hhalving hdecay hreward hsteps)
    exact (countedOf_spec hexplicit hN hj hh).2.1.resolve_left (c.linear_ends j hdecay)
  have hclosed : ∑ i ∈ range (c.blocks N j), c.pay j i ≤ c.eraMoney N j :=
    sum_decaying_le hhalving hdecay hreward rfl
  by_cases hover : c.ENDSUBSIDY j ≠ 0 ∧ c.ENDSUBSIDY j ≤ N
  · have hend : c.endAt N j = c.ENDSUBSIDY j := by
      unfold endAt
      rw [if_neg hover.1, min_eq_left hover.2]
    refine (hbefore (fun h hh => ?_) hend.symm).trans hclosed
    exact (countedOf_spec hexplicit hN hj hh).2.1.resolve_left hover.1
  have hend : c.endAt N j = N := by
    unfold endAt
    split_ifs <;> omega
  by_cases hlast : N ∈ c.countedOf N j
  · obtain ⟨-, hcounted, rfl⟩ := mem_countedOf.1 hlast
    obtain ⟨-, hlast⟩ := hcounted rfl
    rw [if_neg hhalving] at hlast
    have hblocks : c.blocks N (c.curEra N) = N - c.start (c.curEra N) := by
      unfold blocks
      rw [hend]
    rcases hlast.2 with hzero | hdvd
    · -- the block at height 0 is counted and not paid
      have hsub : c.countedOf N (c.curEra N) ⊆ Ico 1 (N + 1) := fun h hh =>
        mem_Ico.2 (mem_countedOf.1 hh).1
      calc ∑ h ∈ c.countedOf N (c.curEra N), c.rewarded h
          ≤ ∑ h ∈ c.countedOf N (c.curEra N), c.pay (c.curEra N) h := sum_le_sum fun h hh => by
            have hle := (countedOf_spec hexplicit hN hj hh).2.2
            rwa [hzero] at hle
        _ ≤ ∑ h ∈ Ico 1 (N + 1), c.pay (c.curEra N) h := sum_le_sum_of_subset hsub
        _ = ∑ i ∈ range N, c.pay (c.curEra N) (1 + i) := sum_Ico_eq_sum_range ..
        _ ≤ ∑ i ∈ range N, c.pay (c.curEra N) i :=
            sum_le_sum fun i _ => pay_antitone hdecay (Nat.le_add_left ..)
        _ ≤ c.eraMoney N (c.curEra N) := by rwa [hblocks, hzero] at hclosed
    · have hall : ∀ h ∈ c.countedOf N (c.curEra N), h < N + 1 := fun h hh =>
        (mem_countedOf.1 hh).1.2
      refine (countedOf_le hexplicit hN hj hall).trans ?_
      refine sum_decaying_le hhalving hdecay hreward ?_
      rw [hblocks, Nat.sub_add_comm (hordered.trans_eq hend),
        begun_add_one (pos_of_ne_zero hhalving) hdvd]
  · refine (hbefore (fun h hh => ?_) hend.symm).trans hclosed
    have hne : h ≠ N := fun heq => hlast (heq ▸ hh)
    have hrange := (mem_countedOf.1 hh).1
    omega

end covered

/-! ### The whole chain -/

/-- What the money before the first reward has above the premine. -/
def margin (c : AssetChain) : ℕ := c.initial - (c.SUPPLY * 100000000 + c.magicExtra)

/-- A chain whose blocks pay nothing but the premine. -/
def Fungible (c : AssetChain) : Prop := c.isStaked = 2 ∧ c.SUPPLY ≤ 10000000000 ∧ c.LASTERA = 0

/-- Nothing that the blocks up to `N` are paid is lost in the supply at `N`. -/
structure Accounted (c : AssetChain) (N : ℕ) : Prop where
  /-- The rewards are explicit. -/
  explicit : ¬(c.ENDSUBSIDY 0 = 0 ∧ c.REWARD 0 = 0) ∨ c.Fungible
  shiftable : ∀ h, 1 ≤ h → h ≤ N → c.Shiftable h
  eras : ∀ j ∈ c.counted N, c.EraSound N j
  /-- The block at the height of the supply is counted, or paid no more than is left over. -/
  last : c.LastCounted N ∨ (c.curEra N ≤ c.LASTERA →
    c.pay (c.curEra N) (N - c.start (c.curEra N)) ≤ c.margin)
  total_lt : c.total N < 2 ^ 63

theorem initial_eq (c : AssetChain) :
    c.SUPPLY * 100000000 + c.magicExtra + c.margin = c.initial := by
  have hmagic := c.magicExtra_lt
  unfold margin initial
  omega

theorem sum_premine (hN : 90 ≤ N) :
    ∑ h ∈ Ico 1 (N + 1), c.premine h = c.SUPPLY * 100000000 + c.magicExtra := by
  have hone : ∀ x, ∑ h ∈ Ico 1 (N + 1), (if h = 1 then x else 0) = x := fun x => by
    rw [sum_ite_eq', if_pos (mem_Ico.2 ⟨le_rfl, by omega⟩)]
  have hsupply := c.supply_le
  by_cases hlarge : 10000000000 < c.SUPPLY
  · have hfilter : (Ico 1 (N + 1)).filter (· ≤ c.SUPPLY / 1000000000)
        = Ico 1 (c.SUPPLY / 1000000000 + 1) := by
      ext h
      rw [mem_filter, mem_Ico, mem_Ico]
      omega
    simp only [premine, if_pos hlarge]
    rw [sum_add_distrib, hone, ← sum_filter, hfilter, sum_const, card_Ico, smul_eq_mul]
    omega
  · simp only [premine, if_neg hlarge]
    exact hone _

theorem unrewarded_of_fungible (h : c.Fungible) (n : ℕ) : c.Unrewarded n := by
  obtain ⟨hstaked, hsupply, hera⟩ := h
  refine ⟨hsupply, ?_⟩
  split_ifs
  · exact hera
  · exact hstaked

theorem reached_of_lt {h : ℕ} (hN : N < 2 ^ 31) (hh : h < N) (hera : c.curEra h ≤ c.LASTERA) :
    c.Reached N (c.curEra h) := by
  rintro i hi ⟨hzero, hover⟩
  obtain ⟨hend, hle⟩ := (curEra_spec (by omega) hera).2 (i - 1) (by omega)
  rcases hover with hover | ⟨hnone, -⟩
  · omega
  · exact hend hnone

/-- **The money covers the rewards of the blocks that are counted.** -/
theorem sum_counted_le (hN : N < 2 ^ 31) (h : c.Accounted N) :
    ∑ h ∈ c.countedBlocks N, c.rewarded h ≤ ∑ j ∈ c.counted N, c.eraMoney N j := by
  rcases h.explicit with hexplicit | hfungible
  · refine sum_le_of_classes (fun h : ℕ => c.curEra h) (fun n hn hpaid => ?_) fun j hj =>
      era_covered hexplicit hN (counted_le hj) (h.eras j hj)
    obtain ⟨hrange, hlast⟩ := mem_filter.1 hn
    have hrange := mem_Ico.1 hrange
    by_cases heq : n = N
    · rw [heq]
      exact (hlast heq).1
    · have hera : c.curEra n ≤ c.LASTERA := by
        by_contra hbehind
        refine hpaid ?_
        unfold rewarded reward
        rw [if_neg hexplicit, if_pos (not_le.1 hbehind), ite_self]
      exact mem_filter.2 ⟨mem_range.2 (lt_succ_of_le hera), reached_of_lt hN (by omega) hera⟩
  · have hzero : ∀ n ∈ c.countedBlocks N, c.rewarded n = 0 := fun n _ =>
      if_pos (unrewarded_of_fungible hfungible n)
    rw [sum_eq_zero hzero]
    exact zero_le _

theorem rewarded_last_le (h : c.Accounted N) (hlast : ¬c.LastCounted N) :
    c.rewarded N ≤ c.margin := by
  have hle := h.last.resolve_left hlast
  unfold rewarded reward
  split_ifs with hun hnone hera
  · exact zero_le _
  · rcases h.explicit with hexplicit | hfungible
    · exact absurd hnone hexplicit
    · exact absurd (unrewarded_of_fungible hfungible N) hun
  · exact zero_le _
  · exact hle (not_lt.1 hera)

theorem sum_rewarded_le (hN : N < 2 ^ 31) (h : c.Accounted N) :
    ∑ h ∈ Ico 1 (N + 1), c.rewarded h ≤ ∑ j ∈ c.counted N, c.eraMoney N j + c.margin := by
  have hcounted := sum_counted_le hN h
  rw [← sum_filter_add_sum_filter_not (Ico 1 (N + 1)) (fun n => n = N → c.LastCounted N)]
  refine Nat.add_le_add hcounted ?_
  have hsub : (Ico 1 (N + 1)).filter (fun n => ¬(n = N → c.LastCounted N)) ⊆ {N} := fun n hn => by
    rw [mem_singleton]
    exact (Classical.not_imp.1 (mem_filter.1 hn).2).1
  by_cases hlast : c.LastCounted N
  · rw [filter_false_of_mem fun n _ hnot => hnot fun _ => hlast, sum_empty]
    exact zero_le _
  · exact (sum_le_sum_of_subset hsub).trans (by
      rw [sum_singleton]
      exact rewarded_last_le h hlast)

/-- **What the blocks are paid** until a height, whatever calls came before each of them. -/
theorem sum_subsidy_le (hfit : c.RewardsFit) (hlong : 90 ≤ N) (hN : N < 2 ^ 31) (h : c.Accounted N)
    (calls : ℕ → List ℤ) {H : ℕ} (hH : H ≤ N) :
    ∑ h ∈ Icc 1 H, c.subsidyAfter (calls h) h ≤ c.total N := by
  have hsub : Icc 1 H ⊆ Ico 1 (N + 1) := fun n hn => by
    have hn := mem_Icc.1 hn
    exact mem_Ico.2 ⟨hn.1, by omega⟩
  have hsubsidy : ∀ n ∈ Icc 1 H, c.subsidyAfter (calls n) n = (c.rewarded n + c.premine n : ℕ) := by
    intro n hn
    have hn := mem_Icc.1 hn
    exact subsidyAfter_eq_add hfit (by omega) (h.shiftable n hn.1 (by omega)) _
  rw [sum_congr rfl hsubsidy, ← cast_sum, cast_le]
  calc ∑ n ∈ Icc 1 H, (c.rewarded n + c.premine n)
      ≤ ∑ n ∈ Ico 1 (N + 1), (c.rewarded n + c.premine n) := sum_le_sum_of_subset hsub
    _ = ∑ n ∈ Ico 1 (N + 1), c.rewarded n + ∑ n ∈ Ico 1 (N + 1), c.premine n := sum_add_distrib
    _ ≤ (∑ j ∈ c.counted N, c.eraMoney N j + c.margin)
          + (c.SUPPLY * 100000000 + c.magicExtra) :=
        Nat.add_le_add (sum_rewarded_le hN h) (sum_premine hlong).le
    _ = c.total N := by
        have hinitial := c.initial_eq
        unfold total
        omega

/-- The most that can be in circulation is no less than what any number of blocks have paid. -/
def MaxMoneyCovers (c : AssetChain) : Prop :=
  ∃ fuel max, c.komodoMaxMoney fuel = some max ∧ ∀ (calls : ℕ → List ℤ) (H : ℕ), H ≤ 10000000 →
    ∑ h ∈ Icc 1 H, c.subsidyAfter (calls h) h ≤ max

theorem maxMoneyCovers_of_accounted (hfit : c.RewardsFit) (h : c.Accounted 10000000) :
    c.MaxMoneyCovers := by
  obtain ⟨max, hmax, hle⟩ := supply_ge hfit (by omega) (by omega) h.eras h.total_lt
  exact ⟨_, max, hmax, fun calls H hH =>
    (sum_subsidy_le hfit (by omega) (by omega) h calls hH).trans hle⟩

/-! ### Chains without explicit rewards -/

/-- The chain has one era, without a reward or an end, and takes no commission. -/
structure Implicit (c : AssetChain) : Prop where
  lastEra : c.LASTERA = 0
  reward : c.REWARD 0 = 0
  endSubsidy : c.ENDSUBSIDY 0 = 0
  commission : c.COMMISSION = 0

namespace Implicit

variable (himplicit : c.Implicit)

include himplicit

theorem curEra (h : ℤ) : c.curEra h = 0 := if_neg (not_not.2 himplicit.endSubsidy)

theorem not_pays : ¬c.Pays 0 :=
  AssetChain.not_pays (zero_le _) himplicit.reward (.inl himplicit.lastEra.symm)

theorem rewardsFit : c.RewardsFit := by
  have hzero : ∀ j ≤ c.LASTERA, j = 0 := fun j hj => by
    have hlast := himplicit.lastEra
    omega
  refine ⟨fun j hj => ?_, fun j hj _ _ => ?_, fun j hj _ hdecay => ?_⟩
  · rw [hzero j hj, himplicit.reward]
    decide
  · rw [hzero j hj, himplicit.reward, zero_mul]
    decide
  · rw [hzero j hj] at hdecay
    exact absurd himplicit.endSubsidy (c.linear_ends 0 hdecay)

theorem shiftable (h : ℕ) : c.Shiftable h := by
  unfold Shiftable
  rw [himplicit.curEra]
  exact fun _ hpays => absurd hpays himplicit.not_pays

theorem accounted (hfungible : c.Fungible) (N : ℕ) : c.Accounted N := by
  have hzero : ∀ j ∈ c.counted N, j = 0 := fun j hj => by
    have hle := counted_le hj
    have hlast := himplicit.lastEra
    omega
  refine ⟨.inr hfungible, fun h _ _ => himplicit.shiftable h, fun j hj => ?_, .inr fun _ => ?_, ?_⟩
  · rw [hzero j hj]
    exact ⟨fun _ hreward => absurd himplicit.reward hreward,
      fun _ _ hreward => absurd himplicit.reward hreward,
      fun _ _ hpays => absurd hpays himplicit.not_pays⟩
  · rw [himplicit.curEra, pay_of_not_pays himplicit.not_pays]
    exact zero_le _
  · have hmoney : ∀ j ∈ c.counted N, c.eraMoney N j = 0 := fun j hj => by
      rw [hzero j hj]
      exact if_pos himplicit.reward
    have hsupply := c.supply_le
    unfold total initial
    rw [sum_eq_zero hmoney]
    omega

theorem maxMoney (fuel : ℕ) : c.komodoMaxMoney fuel = some ((c.initial + 1215752192 : ℕ) : ℤ) := by
  have hsupply := c.supply_le
  have hsmall : c.initial + 1215752192 < 2 ^ 63 := by
    unfold initial
    omega
  have htail : toUint32 (10000000 * 10000) = (1215752192 : ℕ) := rfl
  unfold komodoMaxMoney komodoCurrentSupply
  rw [if_pos ⟨himplicit.lastEra, himplicit.reward⟩, initialMoney_eq, htail, toUint64_add_toUint64,
    ← cast_add, toUint64_of_lt (by omega), withCommission, if_neg (by omega),
    if_neg (not_not.2 himplicit.commission)]

theorem rewarded (hfungible : ¬c.Fungible) {h : ℕ} (hh : h ≠ 1) : c.rewarded h = 10000 := by
  have hpaid : ¬c.Unrewarded h := fun hun => hfungible ⟨by
    have hstaked := hun.2
    rwa [if_neg hh] at hstaked, hun.1, himplicit.lastEra⟩
  unfold AssetChain.rewarded AssetChain.reward
  rw [if_neg hpaid, if_pos ⟨himplicit.endSubsidy, himplicit.reward⟩]

/-- **Ten thousand for each block are too much.** -/
theorem not_covers (hfungible : ¬c.Fungible) : ¬c.MaxMoneyCovers := by
  rintro ⟨fuel, max, hmax, hcovers⟩
  rw [himplicit.maxMoney, Option.some_inj] at hmax
  have hle := hcovers (fun _ => []) 1000000 (by decide)
  have hsubsidy : ∀ h : ℕ, h ∈ Icc 1 1000000 →
      c.subsidyAfter [] h = (c.rewarded h + c.premine h : ℕ) := fun h hh =>
    subsidyAfter_eq_add himplicit.rewardsFit (lt_of_le_of_lt (mem_Icc.1 hh).2 (by decide))
      (himplicit.shiftable h) _
  rw [sum_congr rfl hsubsidy, ← cast_sum, ← hmax, cast_le, sum_add_distrib] at hle
  have hpremine := c.sum_premine (N := 1000000) (by decide)
  have hrewarded : 999999 * 10000 ≤ ∑ h ∈ Icc 1 1000000, c.rewarded h := by
    have hconst : ∑ h ∈ Icc 2 1000000, c.rewarded h = 999999 * 10000 := by
      rw [sum_congr rfl fun h hh => himplicit.rewarded hfungible (by
        have hlow := (mem_Icc.1 hh).1
        omega), sum_const, card_Icc, smul_eq_mul]
    rw [← hconst]
    exact sum_le_sum_of_subset (Icc_subset_Icc_left (by decide))
  have hinitial : c.initial = c.SUPPLY * 100000000 + 100000000 + c.MAGIC % 2 ^ 24 + 5000000000 := by
    unfold initial
    omega
  have hmagic : c.MAGIC % 2 ^ 24 ≤ c.magicExtra := by
    unfold magicExtra
    split_ifs
    · exact mod_le ..
    · exact le_rfl
  have hsame : ∑ h ∈ Icc 1 1000000, c.premine h = ∑ h ∈ Ico 1 (1000000 + 1), c.premine h := rfl
  omega

end Implicit

/-- A chain that begins with 100 coins a block, goes down to 50 in ten steps, and halves them after
every million of blocks. -/
def halvingChain : AssetChain where
  LASTERA := 1
  ENDSUBSIDY | 0 => 1000 | _ => 0
  REWARD | 0 => 10000000000 | 1 => 5000000000 | _ => 0
  HALVING | 0 => 100 | 1 => 1000000 | _ => 0
  DECAY | 0 => 100000000 | _ => 0
  SUPPLY := 10
  MAGIC := 0x5a2b91c7
  COMMISSION := 0
  STAKED := false
  isStaked := 0
  wideShift subsidy numhalvings := subsidy / 2 ^ (numhalvings % 64).toNat
  end_lt j := by split <;> decide
  reward_lt j := by split <;> decide
  halving_lt j := by split <;> decide
  decay_le j := by split <;> decide
  linear_ends := by rintro (_ | j) <;> simp
  supply_le := by decide
  magic_lt := by decide
  commission_lt := by decide

theorem halvingChain_rewardsFit : halvingChain.RewardsFit := by
  refine ⟨?_, ?_, ?_⟩ <;> intro j hj <;> have hj : j ≤ 1 := hj <;> interval_cases j <;> decide

theorem halvingChain_accounted : halvingChain.Accounted 10000000 where
  explicit := .inl (by decide)
  shiftable h _ hle := by
    intro hera _ hdecay
    have hera : halvingChain.curEra h ≤ 1 := hera
    generalize halvingChain.curEra h = j at hera hdecay ⊢
    interval_cases j
    · exact absurd hdecay (by decide)
    · show (h - 1000) / 1000000 < 64
      omega
  eras j hj := by
    have hj : j ≤ 1 := counted_le hj
    interval_cases j
    · exact ⟨by decide, by decide, fun _ _ _ => by unfold StepsFit; decide⟩
    · exact ⟨by decide, by decide, fun _ hdecay => absurd hdecay (by decide)⟩
  last := .inl (by decide)
  total_lt := by decide

/-- A chain with nothing but a name. -/
def plainChain : AssetChain where
  LASTERA := 0
  ENDSUBSIDY _ := 0
  REWARD _ := 0
  HALVING _ := 0
  DECAY _ := 0
  SUPPLY := 10
  MAGIC := 0x5a2b91c7
  COMMISSION := 0
  STAKED := false
  isStaked := 0
  wideShift subsidy numhalvings := subsidy / 2 ^ (numhalvings % 64).toNat
  end_lt _ := by decide
  reward_lt _ := by decide
  halving_lt _ := by decide
  decay_le _ := by decide
  linear_ends _ := by decide
  supply_le := by decide
  magic_lt := by decide
  commission_lt := by decide

end AssetChain
end Komodo
