/-
# Chains of headers

What `ContextualCheckBlockHeader` of `src/src/main.cpp` asks of a block keeps the next work in its
bounds, where it is not adaptive: no target is above the limit, and no window takes negative time.
-/

import Komodo.Chain.NextWork

namespace Komodo
namespace NextWork

open Staking List

/-- The target is not above the limit. -/
def WithinLimit (nBits : UInt32) : Prop := (target nBits).value ≤ ({} : PowParams).powLimit.value

/-- Chains, the last block first, that `ContextualCheckBlockHeader` accepts.  It does not look at
the work of the blocks 235300 to 236000 of KMD, which are left out. -/
inductive HeaderChain (adaptivePow : ℤ) : List BlockIndex → Prop
  | genesis {block : BlockIndex} (hlimit : WithinLimit block.nBits) :
    HeaderChain adaptivePow [block]
  | accept {block : BlockIndex} {chain : List BlockIndex} (hchain : HeaderChain adaptivePow chain)
    (hwork : getNextWorkRequired {} adaptivePow chain = .ok block.nBits)
    (htime : getMedianTimePast chain < block.nTime.toNat) :
    HeaderChain adaptivePow (block :: chain)

variable {adaptivePow : ℤ} {chain : List BlockIndex}

/-- The work after a chain within the limit is within the limit. -/
theorem getNextWorkRequired_le (hpow : adaptivePow ≤ 0)
    (htarget : ∀ index ∈ chain, WithinLimit index.nBits) :
    ∃ c, getNextWorkRequired {} adaptivePow chain = .ok c ∧ WithinLimit c := by
  by_cases hlength : 17 < chain.length
  · obtain ⟨bnNew, span, -, -, -, hnew, hresult⟩ := getNextWorkRequired_spec hpow hlength
      fun index hindex => htarget index (mem_of_mem_take hindex)
    refine ⟨_, hresult, (target_compact_le bnNew).trans ?_⟩
    rw [hnew]
    exact min_le_right _ _
  · have hdrop : chain.drop ({} : PowParams).nPowAveragingWindow = [] :=
      drop_eq_nil_of_le (Nat.not_lt.1 hlength)
    refine ⟨_, ?_, target_compact_le _⟩
    rw [getNextWorkRequired, hdrop]
    rfl

/-- A sorted list is at least `m` at a position where enough of its elements are. -/
theorem le_getD_mergeSort_iff {α : Type*} [LinearOrder α] {l : List α} {k : ℕ} (hk : k < l.length)
    (m d : α) : m ≤ l.mergeSort.getD k d ↔ l.length - k ≤ l.countP (m ≤ ·) := by
  have hsorted := sortedLE_mergeSort (l := l)
  have hlen : l.mergeSort.length = l.length := l.length_mergeSort
  rw [← (l.mergeSort_perm (· ≤ ·)).countP_eq]
  generalize l.mergeSort = s at *
  rw [← hlen] at hk ⊢
  rw [getD_eq_getElem _ _ hk]
  constructor
  · intro hm
    have hall : (s.drop k).countP (m ≤ ·) = (s.drop k).length := by
      rw [countP_eq_length]
      intro a ha
      obtain ⟨i, hi, rfl⟩ := mem_drop_iff_getElem.1 ha
      exact decide_eq_true (hm.trans (hsorted.getElem_le_getElem_of_le (Nat.le_add_right k i)))
    rw [← length_drop, ← hall]
    exact (drop_sublist k s).countP_le
  · intro hcount
    by_contra hm
    -- none of the elements up to the position is
    have hnone : (s.take (k + 1)).countP (m ≤ ·) = 0 := by
      rw [countP_eq_zero]
      intro a ha
      obtain ⟨i, hi, rfl⟩ := mem_take_iff_getElem.1 ha
      have hik : i ≤ k := by omega
      rw [decide_eq_true_iff]
      exact fun h => hm (h.trans (hsorted.getElem_le_getElem_of_le hik))
    have hsplit : s.countP (m ≤ ·) = 0 + (s.drop (k + 1)).countP (m ≤ ·) := by
      rw [← hnone, ← countP_append, take_append_drop]
    have hrest := countP_le_length (p := (m ≤ ·)) (l := s.drop (k + 1))
    rw [length_drop] at hrest
    omega

/-- A block that is later than the median does not take the median back. -/
theorem getMedianTimePast_cons {block : BlockIndex} (hne : chain ≠ [])
    (htime : getMedianTimePast chain < block.nTime.toNat) :
    getMedianTimePast chain ≤ getMedianTimePast (block :: chain) := by
  have hpos := length_pos_iff.2 hne
  generalize hm : getMedianTimePast chain = m at *
  unfold getMedianTimePast at hm ⊢
  dsimp only at hm ⊢
  rw [length_mergeSort] at hm ⊢
  have hold := (le_getD_mergeSort_iff (by simp; omega) m 0).1 hm.ge
  rw [le_getD_mergeSort_iff (by simp; omega)]
  -- the new time takes the place of the one that leaves the window
  have hwindow : chain.take 11 = chain.take 10 ++ (chain.drop 10).take 1 :=
    take_add (i := 10) (j := 1)
  rw [hwindow, map_append, countP_append] at hold
  have hleft := countP_le_length (p := (m ≤ ·))
    (l := ((chain.drop 10).take 1).map fun index => (index.nTime.toNat : ℤ))
  simp only [take_succ_cons, map_cons, countP_cons, length_cons, length_append, length_map,
    length_take, length_drop, htime.le, decide_true, if_true] at hold hleft ⊢
  omega

/-- **A chain of headers stays in the bounds of the next work.**  No target is above the limit, nor
is that of the next block, and the median of the times never goes back. -/
theorem HeaderChain.inBounds (h : HeaderChain adaptivePow chain) (hpow : adaptivePow ≤ 0) :
    (∀ index ∈ chain, WithinLimit index.nBits)
      ∧ (∃ c, getNextWorkRequired {} adaptivePow chain = .ok c ∧ WithinLimit c)
      ∧ ∀ n < chain.length, getMedianTimePast (chain.drop n) ≤ getMedianTimePast chain := by
  have hlimit : ∀ index ∈ chain, WithinLimit index.nBits := by
    induction h with
    | genesis hlimit => exact forall_mem_singleton.2 hlimit
    | accept _ hwork _ ih =>
      obtain ⟨c, hc, hle⟩ := getNextWorkRequired_le hpow ih
      cases hc.symm.trans hwork
      exact forall_mem_cons.2 ⟨hle, ih⟩
  refine ⟨hlimit, getNextWorkRequired_le hpow hlimit, fun n hn => ?_⟩
  clear hlimit
  induction h generalizing n with
  | genesis _ =>
    obtain rfl : n = 0 := Nat.lt_one_iff.1 hn
    exact le_rfl
  | accept _ _ htime ih =>
    cases n with
    | zero => exact le_rfl
    | succ n =>
      have hn := Nat.lt_of_succ_lt_succ hn
      exact (ih n hn).trans (getMedianTimePast_cons (ne_nil_of_length_pos (by omega)) htime)

/-- A block a minute after the first one, with the work of the limit. -/
theorem HeaderChain.inBounds_two :
    let chain : List BlockIndex := [⟨compact ({} : PowParams).powLimit, 1060⟩, ⟨0x0203fb00, 1000⟩]
    (∃ c, getNextWorkRequired {} 0 chain = .ok c) ∧
      getMedianTimePast (chain.drop 1) ≤ getMedianTimePast chain := by
  intro chain
  have h : HeaderChain 0 chain :=
    .accept (.genesis (by unfold WithinLimit; decide)) rfl (by simp [getMedianTimePast])
  obtain ⟨-, ⟨c, hc, -⟩, hmedian⟩ := h.inBounds le_rfl
  exact ⟨⟨c, hc⟩, hmedian 1 (by decide)⟩

end NextWork
end Komodo
