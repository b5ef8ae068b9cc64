/-
# The priority list of the notaries

`isSecondBlockAllowed` and the priority list of `CheckProofOfWork`, `src/src/pow.cpp`.

When no block has come for some time, the notaries may mine although they have mined one of the last
65 blocks, one more of them each `delta` seconds.  The list starts with the numbers 0..63, and the
miners of the blocks, from the oldest on, are moved to its end (`moveToEnd`).  A miner that is moved
again ends behind the ones that were moved since, so that the moved ones are in the order of their
last blocks (`pairwise_moved`).
-/

import Mathlib.Tactic

namespace Komodo
namespace NotaryPriority

open List Int

section
variable {α : Type} [DecidableEq α] {l : List α} {a b : α}

/-- `std::find`, and `std::rotate` by one from there, unless it is the last one. -/
def moveToEnd (a : α) (l : List α) : List α :=
  let it := l.idxOf a
  if it ≠ l.length ∧ it + 1 ≠ l.length then l.take it ++ (l.drop it).rotate 1 else l

theorem moveToEnd_of_notMem (h : a ∉ l) : moveToEnd a l = l := by
  simp [moveToEnd, idxOf_eq_length h]

theorem moveToEnd_of_mem (hl : l.Nodup) (h : a ∈ l) : moveToEnd a l = l.filter (· ≠ a) ++ [a] := by
  obtain ⟨s, t, rfl⟩ := append_of_mem h
  have hnodup := nodup_middle.1 hl
  rw [nodup_cons, mem_append, not_or] at hnodup
  have hs : s.filter (· ≠ a) = s :=
    filter_eq_self.2 fun x hx => decide_eq_true fun h => hnodup.1.1 (h ▸ hx)
  have ht : t.filter (· ≠ a) = t :=
    filter_eq_self.2 fun x hx => decide_eq_true fun h => hnodup.1.2 (h ▸ hx)
  have hidx : (s ++ a :: t).idxOf a = s.length := by
    rw [idxOf_append_of_notMem hnodup.1.1, idxOf_cons_self, Nat.add_zero]
  rw [filter_append, filter_cons_of_neg (by simp), hs, ht, moveToEnd, hidx]
  simp only [take_left, drop_left, rotate_cons_succ, rotate_zero]
  split_ifs with hlast
  · rw [append_assoc]
  · -- nothing stands behind it
    obtain rfl : t = [] := by
      rw [length_append, length_cons] at hlast
      exact length_eq_zero_iff.1 (by omega)
    simp

/-- The list after the moves for `recent`, its last entry moved first. -/
def afterMoves (recent l : List α) : List α := recent.foldr moveToEnd l

/-- The entries of `l` that are moved, in the order in which they end. -/
def moved (l : List α) : (recent : List α) → List α
  | [] => []
  | a :: recent => if a ∈ l then (moved l recent).filter (· ≠ a) ++ [a] else moved l recent

theorem mem_moved {recent : List α} : a ∈ moved l recent ↔ a ∈ recent ∧ a ∈ l := by
  induction recent with
  | nil => simp [moved]
  | cons b recent ih =>
    rw [moved]
    split_ifs with hb
    · rcases eq_or_ne a b with rfl | hne
      · simp [hb]
      · simp [ih, hne]
    · rw [ih, mem_cons, or_and_right, eq_comm]
      exact ⟨.inr, Or.rec (fun h => absurd (h.1 ▸ h.2) hb) id⟩

/-- Of two moved entries the one with the older last entry in `recent` stands first. -/
theorem pairwise_moved (l recent : List α) :
    (moved l recent).Pairwise fun a b => recent.idxOf b < recent.idxOf a := by
  induction recent with
  | nil => exact List.Pairwise.nil
  | cons a recent ih =>
    have hne : ∀ b : α, b ≠ a → (a :: recent).idxOf b = recent.idxOf b + 1 := fun b hb =>
      idxOf_cons_ne _ hb.symm
    rw [moved]
    split_ifs with ha
    · rw [pairwise_append]
      refine ⟨?_, pairwise_singleton _ _, ?_⟩
      · refine (ih.filter _).imp_of_mem fun {b c} hb hc h => ?_
        rw [hne b (by simpa using of_mem_filter hb), hne c (by simpa using of_mem_filter hc)]
        exact Nat.succ_lt_succ h
      · intro b hb c hc
        rw [mem_singleton.1 hc, idxOf_cons_self, hne b (by simpa using of_mem_filter hb)]
        exact Nat.succ_pos _
    · refine ih.imp_of_mem fun {b c} hb hc h => ?_
      rw [hne b fun hba => ha (hba ▸ (mem_moved.1 hb).2),
        hne c fun hca => ha (hca ▸ (mem_moved.1 hc).2)]
      exact Nat.succ_lt_succ h

theorem perm_afterMoves (hl : l.Nodup) (recent : List α) : (afterMoves recent l).Perm l := by
  induction recent with
  | nil => exact List.Perm.refl l
  | cons a recent ih =>
    refine List.Perm.trans ?_ ih
    by_cases ha : a ∈ afterMoves recent l
    · rw [afterMoves, foldr_cons, ← afterMoves, moveToEnd_of_mem (ih.nodup_iff.2 hl) ha]
      refine perm_append_comm.trans ?_
      have herase : (afterMoves recent l).filter (· ≠ a) = (afterMoves recent l).erase a := by
        rw [(ih.nodup_iff.2 hl).erase_eq_filter]
        exact filter_congr fun b _ => Bool.eq_iff_iff.2 (by simp)
      rw [herase]
      exact (perm_cons_erase ha).symm
    · rw [afterMoves, foldr_cons, ← afterMoves, moveToEnd_of_notMem ha]

/-- **What is not moved stays in order, and the moved entries follow.** -/
theorem afterMoves_eq (hl : l.Nodup) (recent : List α) :
    afterMoves recent l = l.filter (· ∉ recent) ++ moved l recent := by
  induction recent with
  | nil => simp [afterMoves, moved]
  | cons a recent ih =>
    have hperm := perm_afterMoves hl recent
    rw [afterMoves, foldr_cons, ← afterMoves, moved]
    split_ifs with ha
    · rw [moveToEnd_of_mem (hperm.nodup_iff.2 hl) (hperm.mem_iff.2 ha), ih, filter_append,
        filter_filter, append_assoc]
      simp [not_or]
    · rw [moveToEnd_of_notMem fun h => ha (hperm.mem_iff.1 h), ih]
      congr 1
      refine filter_congr fun b hb => ?_
      simp [show b ≠ a from fun h => ha (h ▸ hb)]

/-- As many entries of a list are among its first `n` as there are. -/
theorem countP_take {l' : List α} (hperm : l'.Perm l) (hl : l.Nodup) (n : ℕ) :
    l.countP (· ∈ l'.take n) = min n l.length := by
  have hl' := hperm.nodup_iff.2 hl
  rw [← hperm.countP_eq, ← hperm.length_eq, ← length_take]
  conv_lhs => rw [← take_append_drop n l', countP_append]
  have hdrop : (l'.drop n).countP (· ∈ l'.take n) = 0 := by
    rw [countP_eq_zero]
    intro b hb
    rw [← take_append_drop n l'] at hl'
    simpa using fun h => disjoint_of_nodup_append hl' h hb
  rw [take_append_drop, hdrop, Nat.add_zero, countP_eq_length]
  exact fun b hb => decide_eq_true hb

end

/-! ### The notaries -/

/-- The numbers of the notaries, `std::generate` from 0 on. -/
def notaryIds : List ℤ := (List.range 64).map Int.ofNat

theorem nodup_notaryIds : notaryIds.Nodup := nodup_range.map fun _ _ => Int.ofNat.inj

theorem nonneg_of_mem {id : ℤ} (h : id ∈ notaryIds) : 0 ≤ id := by
  obtain ⟨n, -, rfl⟩ := mem_map.1 h
  exact natCast_nonneg n

/-- The priority list of `CheckProofOfWork`: the loop goes from `mids[65]` down to `mids[1]`. -/
def vPriorityList (mids : List ℤ) : List ℤ :=
  mids.tail.foldr (fun id list => if id ≠ -1 then moveToEnd id list else list) notaryIds

def isSecondBlockAllowed (notaryid : ℤ) (blocktime threshold delta : UInt32)
    (vPriorityList : List ℤ) : Bool :=
  if threshold ≤ blocktime ∧ 0 < delta ∧ vPriorityList.length = 64 ∧ 0 ≤ notaryid then
    let nPos := ((blocktime - threshold) / delta).toNat
    if nPos < vPriorityList.length then
      0 < (vPriorityList.take (nPos + 1)).count notaryid
    else true
  else false

/-- An entry of -1 is not a notary, so that skipping it makes no difference. -/
theorem vPriorityList_eq (mids : List ℤ) :
    vPriorityList mids = notaryIds.filter (· ∉ mids.tail) ++ moved notaryIds mids.tail := by
  rw [← afterMoves_eq nodup_notaryIds, vPriorityList, afterMoves]
  induction mids.tail with
  | nil => rfl
  | cons id recent ih =>
    rw [foldr_cons, foldr_cons, ih]
    split_ifs with hid
    · rfl
    · refine (moveToEnd_of_notMem fun hmem => ?_).symm
      rw [← afterMoves, (perm_afterMoves nodup_notaryIds recent).mem_iff] at hmem
      have hnonneg := nonneg_of_mem hmem
      omega

theorem perm_vPriorityList (mids : List ℤ) : (vPriorityList mids).Perm notaryIds := by
  rw [vPriorityList_eq, ← afterMoves_eq nodup_notaryIds]
  exact perm_afterMoves nodup_notaryIds _

variable {blocktime threshold delta : UInt32}

theorem isSecondBlockAllowed_iff {list : List ℤ} {notaryid : ℤ}
    :
    isSecondBlockAllowed notaryid blocktime threshold delta list = true ↔
      (threshold ≤ blocktime ∧ 0 < delta ∧ list.length = 64 ∧ 0 ≤ notaryid) ∧
        (64 ≤ ((blocktime - threshold) / delta).toNat
          ∨ notaryid ∈ list.take (((blocktime - threshold) / delta).toNat + 1)) := by
  unfold isSecondBlockAllowed
  split_ifs with hcond
  · simp only [hcond, and_self, true_and]
    split_ifs with hpos
    · rw [decide_eq_true_iff, count_pos_iff]
      exact ⟨.inr, Or.rec (fun h => by omega) id⟩
    · exact iff_of_true rfl (.inl (by omega))
  · simp [hcond]

/-- The number of notaries, before it is held between 0 and 64. -/
def allowedNumber (blocktime threshold delta : UInt32) : ℤ :=
  ((blocktime.toNat : ℤ) - threshold.toNat) / delta.toNat + 1

theorem allowedNumber_mono {blocktime blocktime' threshold delta : UInt32}
    (hdelta : 0 < delta) (hle : blocktime ≤ blocktime') :
    allowedNumber blocktime threshold delta ≤ allowedNumber blocktime' threshold delta := by
  have h := UInt32.le_iff_toNat_le.1 hle
  have hpos : (0 : ℤ) < delta.toNat := natCast_pos.2 (UInt32.lt_iff_toNat_lt.1 hdelta)
  exact Int.add_le_add_right (Int.ediv_le_ediv hpos (by omega)) 1

theorem toNat_nPos (h : threshold ≤ blocktime) :
    (((blocktime - threshold) / delta).toNat : ℤ) + 1
      = allowedNumber blocktime threshold delta := by
  rw [UInt32.toNat_div, UInt32.toNat_sub_of_le _ _ h, natCast_ediv,
    ofNat_sub (UInt32.le_iff_toNat_le.1 h), allowedNumber]

/-- **Who is allowed depends on the number alone**: it is in the front of the list, or all are. -/
theorem allowed_iff {list : List ℤ} {notaryid : ℤ} :
    isSecondBlockAllowed notaryid blocktime threshold delta list = true ↔
      (0 < delta ∧ list.length = 64 ∧ 0 ≤ notaryid) ∧
        (64 < allowedNumber blocktime threshold delta
          ∨ notaryid ∈ list.take (allowedNumber blocktime threshold delta).toNat) := by
  rw [isSecondBlockAllowed_iff]
  by_cases htime : threshold ≤ blocktime
  · rw [← toNat_nPos htime]
    simp only [htime, true_and]
    refine and_congr_right fun _ => or_congr (by omega) ?_
    rw [show (((blocktime - threshold) / delta).toNat + 1 : ℤ).toNat
      = ((blocktime - threshold) / delta).toNat + 1 by omega]
  · have hlt : blocktime.toNat < threshold.toNat := by
      rwa [UInt32.le_iff_toNat_le, not_le] at htime
    simp only [htime, false_and, false_iff, not_and]
    rintro ⟨hdelta, -⟩
    have hneg : allowedNumber blocktime threshold delta ≤ 0 :=
      add_one_le_iff.2 (ediv_neg_of_neg_of_pos (by omega)
        (natCast_pos.2 (UInt32.lt_iff_toNat_lt.1 hdelta)))
    rw [toNat_of_nonpos hneg, take_zero]
    exact Or.rec (fun h => by omega) fun h => not_mem_nil h

/-- **The priority list and the notaries it allows.** -/
theorem notary_priority (mids : List ℤ) :
    ((vPriorityList mids).Perm notaryIds
      ∧ ∃ miners, vPriorityList mids = notaryIds.filter (· ∉ mids.tail) ++ miners
        ∧ (∀ id, id ∈ miners ↔ id ∈ mids.tail ∧ id ∈ notaryIds)
        ∧ miners.Pairwise fun id id' => mids.tail.idxOf id' < mids.tail.idxOf id)
    ∧ ∀ threshold delta : UInt32,
      (∀ (notaryid : ℤ) (blocktime blocktime' : UInt32), blocktime ≤ blocktime' →
        isSecondBlockAllowed notaryid blocktime threshold delta (vPriorityList mids) = true →
        isSecondBlockAllowed notaryid blocktime' threshold delta (vPriorityList mids) = true)
      ∧ (0 < delta → ∀ blocktime : UInt32,
        let allowed := fun id =>
          isSecondBlockAllowed id blocktime threshold delta (vPriorityList mids)
        let number := ((blocktime.toNat : ℤ) - threshold.toNat) / delta.toNat + 1
        (number ≤ 64 → (notaryIds.countP allowed : ℤ) = max 0 number)
          ∧ (64 < number → ∀ id ∈ notaryIds, allowed id = true)) := by
  have hperm := perm_vPriorityList mids
  have hlength : (vPriorityList mids).length = 64 := hperm.length_eq
  refine ⟨⟨hperm, _, vPriorityList_eq mids, fun _ => mem_moved, pairwise_moved _ _⟩,
    fun threshold delta => ⟨fun notaryid blocktime blocktime' hle h => ?_,
      fun hdelta blocktime => ⟨fun hnumber => ?_, fun hnumber id hid => ?_⟩⟩⟩
  · rw [allowed_iff] at h ⊢
    have hmono : allowedNumber blocktime threshold delta
        ≤ allowedNumber blocktime' threshold delta := allowedNumber_mono h.1.1 hle
    refine h.imp_right (Or.imp (fun h => h.trans_le hmono) fun h => ?_)
    exact take_subset_take_left _ (Int.toNat_le_toNat hmono) h
  · have hallowed : ∀ id ∈ notaryIds,
        (isSecondBlockAllowed id blocktime threshold delta (vPriorityList mids) = true ↔
          decide (id ∈ (vPriorityList mids).take (allowedNumber blocktime threshold delta).toNat)
            = true) := by
      intro id hid
      have hnumber' : allowedNumber blocktime threshold delta ≤ 64 := hnumber
      rw [allowed_iff, decide_eq_true_iff]
      simp only [hdelta, hlength, nonneg_of_mem hid, and_self, true_and, hnumber'.not_gt, false_or]
    rw [countP_congr hallowed, countP_take hperm nodup_notaryIds]
    change ((min (allowedNumber blocktime threshold delta).toNat 64 : ℕ) : ℤ)
      = max 0 (allowedNumber blocktime threshold delta)
    have hnumber' : allowedNumber blocktime threshold delta ≤ 64 := hnumber
    omega
  · exact allowed_iff.2 ⟨⟨hdelta, hlength, nonneg_of_mem hid⟩, .inl hnumber⟩

/-- Notary 7 has mined the last block and the third last one, and notary 3 the one between. -/
def sampleMids : List ℤ := [-1, 7, 3, 7] ++ List.replicate 62 (-1)

theorem notary_priority_sample :
    isSecondBlockAllowed 0 606 600 5 (vPriorityList sampleMids) = true
      ∧ (notaryIds.countP fun id =>
        isSecondBlockAllowed id 605 600 5 (vPriorityList sampleMids) : ℤ) = 2
      ∧ ∀ id ∈ notaryIds, isSecondBlockAllowed id 1000 600 5 (vPriorityList sampleMids) = true := by
  obtain ⟨hmono, hcount⟩ := (notary_priority sampleMids).2 600 5
  refine ⟨hmono 0 600 606 (by decide) (by decide +kernel), ?_, ?_⟩
  · exact ((hcount (by decide) 605).1 (by decide)).trans (by decide)
  · exact (hcount (by decide) 1000).2 (by decide)

end NotaryPriority
end Komodo
