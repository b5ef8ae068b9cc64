/-
# What is extracted from a partial merkle tree

`TraverseAndExtract` takes the walk of `TraverseAndBuild` and uses up what it has written: it
returns the node, and the matched txids below it (`traverseAndExtract_build`).  And whatever the
bits and the hashes are, where it returns a node of a tree without complaint, what it has matched
below it are leaves of that tree (`matches_of_traverseAndExtract`): the hash of a pair tells the
pair, so that each step down is a step in the tree.
-/

import Komodo.CrossChain.PartialMerkleTree
import Komodo.Lib.HashTreeRoots

namespace Komodo

open HashTree Streams List Nat

namespace CPartialMerkleTree

variable {hash2 : Uint256 → Uint256 → Uint256} {t : CPartialMerkleTree} {vTxid : List Uint256}
  {vMatch : List Bool} {height pos nTransactions : ℕ}

/-! ### The tree -/

theorem pos_lt_iff : pos < (nTransactions + 2 ^ height - 1) / 2 ^ height ↔
    pos * 2 ^ height < nTransactions := by
  have hpos : 0 < 2 ^ height := Nat.two_pow_pos height
  rw [← succ_le_iff, le_div_iff_mul_le hpos, succ_mul]
  omega

theorem calcTreeWidth_eq (hn : nTransactions ≤ 2 ^ 30) (hheight : height ≤ 30) :
    calcTreeWidth nTransactions height = (nTransactions + 2 ^ height - 1) / 2 ^ height := by
  have hle : 2 ^ height ≤ 2 ^ 30 := Nat.pow_le_pow_right (by decide) hheight
  have hpos : 0 < 2 ^ height := Nat.two_pow_pos height
  have hmod : (nTransactions + 2 ^ height + (2 ^ 32 - 1)) % 2 ^ 32 = nTransactions + 2 ^ height - 1 := by
    omega
  rw [calcTreeWidth, hmod]

theorem lt_calcTreeWidth_iff (hn : nTransactions ≤ 2 ^ 30) (hheight : height ≤ 30) :
    pos < calcTreeWidth nTransactions height ↔ pos * 2 ^ height < nTransactions := by
  rw [calcTreeWidth_eq hn hheight, pos_lt_iff]

theorem nHeightLoop_spec (nTransactions fuel nHeight : ℕ) :
    nHeight ≤ nHeightLoop nTransactions fuel nHeight ∧
      nHeightLoop nTransactions fuel nHeight ≤ nHeight + fuel ∧
      (∀ h, nHeight ≤ h → h < nHeightLoop nTransactions fuel nHeight →
        1 < calcTreeWidth nTransactions h) ∧
      (nHeightLoop nTransactions fuel nHeight < nHeight + fuel →
        calcTreeWidth nTransactions (nHeightLoop nTransactions fuel nHeight) ≤ 1) := by
  induction fuel generalizing nHeight with
  | zero => exact ⟨le_rfl, le_rfl, fun h hle hlt => absurd hle (not_le.2 hlt), fun h => absurd h (lt_irrefl _)⟩
  | succ fuel ih =>
    rw [nHeightLoop]
    split
    · next hmany =>
      obtain ⟨hle, hfuel, hall, hend⟩ := ih (nHeight + 1)
      refine ⟨by omega, by omega, fun h hh hlt => ?_, fun hlt => hend (by omega)⟩
      rcases eq_or_lt_of_le hh with rfl | hmore
      · exact hmany
      · exact hall h hmore hlt
    · next hone => exact ⟨le_rfl, le_add_right _ _, fun h hle hlt => absurd hle (not_le.2 hlt),
        fun _ => not_lt.1 hone⟩

theorem treeHeight_spec (hn : nTransactions ≤ 2 ^ 30) :
    treeHeight nTransactions ≤ 30 ∧ calcTreeWidth nTransactions (treeHeight nTransactions) ≤ 1 ∧
      ∀ h < treeHeight nTransactions, 1 < calcTreeWidth nTransactions h := by
  obtain ⟨-, hle, hall, hend⟩ := nHeightLoop_spec nTransactions 32 0
  have hheight : treeHeight nTransactions ≤ 30 := by
    by_contra hhigh
    have hmany := hall 30 (zero_le _) (not_le.1 hhigh)
    rw [lt_calcTreeWidth_iff hn le_rfl] at hmany
    omega
  unfold treeHeight at hheight ⊢
  exact ⟨hheight, hend (by omega), fun h => hall h (zero_le _)⟩

section
variable (hn : vTxid.length ≤ 2 ^ 30)
include hn

/-- `CalcHash` is the node of the level. -/
theorem calcHash_eq (hheight : height ≤ 30) (hpos : pos * 2 ^ height < vTxid.length) :
    calcHash hash2 vTxid height pos = ((nextLevel hash2)^[height] vTxid).getD pos 0 := by
  induction height generalizing pos with
  | zero => rfl
  | succ height ih =>
    have hlen := length_iterate_nextLevel hash2 vTxid height
    have hpow : 2 ^ (height + 1) = 2 * 2 ^ height := pow_succ'
    have hchild : pos * 2 * 2 ^ height = pos * 2 ^ (height + 1) := by rw [hpow, mul_assoc]
    have hleft : pos * 2 < ((nextLevel hash2)^[height] vTxid).length := by
      rw [hlen, pos_lt_iff, hchild]
      exact hpos
    rw [calcHash, Function.iterate_succ_apply']
    have hhalf : pos < (((nextLevel hash2)^[height] vTxid).length + 1) / 2 := by omega
    refine Eq.trans ?_ (getD_nextLevel hhalf).symm
    rw [ih (by omega) (hchild ▸ hpos)]
    split
    · next hright =>
      rw [lt_calcTreeWidth_iff hn (by omega)] at hright
      have hin : pos * 2 + 1 < ((nextLevel hash2)^[height] vTxid).length := by
        rw [hlen, pos_lt_iff]
        exact hright
      have hmin : min (2 * pos + 1) (((nextLevel hash2)^[height] vTxid).length - 1) = pos * 2 + 1 := by
        omega
      rw [ih (by omega) hright, hmin, mul_comm 2 pos]
      rfl
    · next hright =>
      rw [lt_calcTreeWidth_iff hn (by omega), ← pos_lt_iff, ← hlen] at hright
      have hmin : min (2 * pos + 1) (((nextLevel hash2)^[height] vTxid).length - 1) = pos * 2 := by
        omega
      rw [hmin, mul_comm 2 pos]
      rfl

theorem calcHash_treeHeight (hne : vTxid ≠ []) :
    calcHash hash2 vTxid (treeHeight vTxid.length) 0 = computeMerkleRoot hash2 vTxid := by
  obtain ⟨hheight, htop, hmany⟩ := treeHeight_spec hn
  have hlen : ∀ h ≤ 30, ((nextLevel hash2)^[h] vTxid).length = calcTreeWidth vTxid.length h := by
    intro h hh
    rw [length_iterate_nextLevel, calcTreeWidth_eq hn hh]
  rw [calcHash_eq hn hheight (by rw [zero_mul]; exact length_pos_iff.2 hne), computeMerkleRoot_eq]
  have hroot : root hash2 ((nextLevel hash2)^[treeHeight vTxid.length] vTxid) = root hash2 vTxid :=
    root_iterate fun h hh => by
      rw [hlen h (by omega)]
      exact hmany h hh
  rw [← hroot, root_of_one (by rw [hlen _ hheight]; exact htop)]
  rfl

end

/-- Two nodes of one level are different, as the leaves are. -/
theorem calcHash_injective (hinj : Function.Injective2 hash2) (hnodup : vTxid.Nodup)
    (hheight : height ≤ 30) {pos' : ℕ} (hpos : pos * 2 ^ height < vTxid.length)
    (hpos' : pos' * 2 ^ height < vTxid.length)
    (h : calcHash hash2 vTxid height pos = calcHash hash2 vTxid height pos') : pos = pos' := by
  induction height generalizing pos pos' with
  | zero =>
    rw [pow_zero, mul_one] at hpos hpos'
    rw [calcHash, calcHash, getD_eq_getElem _ _ hpos, getD_eq_getElem _ _ hpos'] at h
    exact (hnodup.getElem_inj_iff).1 h
  | succ height ih =>
    have hchild : ∀ p, p * 2 * 2 ^ height = p * 2 ^ (height + 1) := fun p => by
      rw [pow_succ', mul_assoc]
    rw [calcHash, calcHash] at h
    have heq := ih (by omega) (by rw [hchild]; exact hpos) (by rw [hchild]; exact hpos') (hinj h).1
    omega

/-! ### The leaves below a node -/

theorem leaves_zero (hpos : pos < nTransactions) : leaves nTransactions 0 pos = [pos] := by
  have hone : min ((pos + 1) * 2 ^ 0) nTransactions - pos * 2 ^ 0 = 1 := by omega
  rw [leaves, hone, pow_zero, mul_one]
  rfl

/-- The leaves below a node are those below its children. -/
theorem leaves_succ : leaves nTransactions (height + 1) pos =
    leaves nTransactions height (pos * 2) ++
      if (pos * 2 + 1) * 2 ^ height < nTransactions
        then leaves nTransactions height (pos * 2 + 1) else [] := by
  have hpow : 2 ^ (height + 1) = 2 * 2 ^ height := pow_succ'
  have hpos : 0 < 2 ^ height := Nat.two_pow_pos height
  have hstart : pos * 2 ^ (height + 1) = pos * 2 * 2 ^ height := by rw [hpow, mul_assoc]
  have hmiddle : (pos * 2 + 1) * 2 ^ height = pos * 2 * 2 ^ height + 2 ^ height := succ_mul ..
  have hstop : (pos + 1) * 2 ^ (height + 1) = pos * 2 * 2 ^ height + 2 ^ height + 2 ^ height := by
    rw [succ_mul, hstart, hpow]
    omega
  have hstop' : (pos * 2 + 1 + 1) * 2 ^ height = pos * 2 * 2 ^ height + 2 ^ height + 2 ^ height := by
    rw [succ_mul, hmiddle]
  simp only [leaves, hstart, hstop, hmiddle, hstop']
  generalize pos * 2 * 2 ^ height = start
  generalize 2 ^ height = width at hpos
  split
  · next hright =>
    have hleft : min (start + width) nTransactions - start = width := by omega
    have hall : min (start + width + width) nTransactions - start =
        width + (min (start + width + width) nTransactions - (start + width)) := by omega
    rw [hleft, hall, ← range'_append, one_mul]
  · next hright =>
    have hsame : min (start + width + width) nTransactions = min (start + width) nTransactions := by
      omega
    rw [hsame, append_nil]

/-- The matched txids below a node. -/
def matched (vTxid : List Uint256) (vMatch : List Bool) (height pos : ℕ) : List Uint256 :=
  ((leaves vTxid.length height pos).filter fun p => vMatch.getD p false).map fun p => vTxid.getD p 0

theorem matched_succ : matched vTxid vMatch (height + 1) pos =
    matched vTxid vMatch height (pos * 2) ++
      if (pos * 2 + 1) * 2 ^ height < vTxid.length
        then matched vTxid vMatch height (pos * 2 + 1) else [] := by
  rw [matched, leaves_succ, filter_append, map_append]
  split
  · rfl
  · rfl

theorem matched_eq_nil (h : parentOfMatch vMatch vTxid.length height pos = false) :
    matched vTxid vMatch height pos = [] := by
  have hnone : (leaves vTxid.length height pos).filter (fun p => vMatch.getD p false) = [] := by
    rw [filter_eq_nil_iff]
    intro p hp
    exact (any_eq_false.1 h p hp)
  rw [matched, hnone, map_nil]

theorem leaves_treeHeight (hn : nTransactions ≤ 2 ^ 30) :
    leaves nTransactions (treeHeight nTransactions) 0 = range nTransactions := by
  obtain ⟨hheight, htop, -⟩ := treeHeight_spec hn
  have hnot : ¬ 1 < calcTreeWidth nTransactions (treeHeight nTransactions) := not_lt.2 htop
  rw [lt_calcTreeWidth_iff hn hheight, one_mul, not_lt] at hnot
  rw [leaves, Nat.zero_mul, Nat.zero_add, Nat.one_mul, min_eq_right hnot, Nat.sub_zero,
    range_eq_range']

/-- The matched txids in order. -/
theorem matched_treeHeight (hn : vTxid.length ≤ 2 ^ 30) (hlen : vMatch.length = vTxid.length) :
    matched vTxid vMatch (treeHeight vTxid.length) 0 =
      (vTxid.zip vMatch).filterMap fun p => if p.2 then some p.1 else none := by
  rw [matched, leaves_treeHeight hn]
  have hzip : vTxid.zip vMatch =
      (range vTxid.length).map fun p => (vTxid.getD p 0, vMatch.getD p false) := by
    refine ext_getElem (by simp [hlen]) fun p hp hp' => ?_
    rw [length_zip, hlen, min_self] at hp
    rw [getElem_zip, getElem_map, getElem_range, getD_eq_getElem _ _ hp,
      getD_eq_getElem _ _ (hlen ▸ hp)]
  rw [hzip, filterMap_map]
  induction range vTxid.length with
  | nil => rfl
  | cons p l ih =>
    rw [filter_cons, filterMap_cons, Function.comp_apply]
    split
    · rw [map_cons, ih]
    · exact ih

/-! ### What is built -/

/-- The sizes of what `TraverseAndBuild` appends. -/
theorem traverseAndBuild_length (hash2 : Uint256 → Uint256 → Uint256) (vMatch : List Bool)
    (hn : vTxid.length ≤ 2 ^ 30) (hheight : height ≤ 30)
    (hpos : pos * 2 ^ height < vTxid.length) :
    (traverseAndBuild hash2 vTxid vMatch height pos).2.length
        ≤ (traverseAndBuild hash2 vTxid vMatch height pos).1.length ∧
      (traverseAndBuild hash2 vTxid vMatch height pos).1.length < 2 ^ (height + 1) ∧
      (traverseAndBuild hash2 vTxid vMatch height pos).2.length
        ≤ (leaves vTxid.length height pos).length := by
  induction height generalizing pos with
  | zero =>
    rw [pow_zero, mul_one] at hpos
    rw [leaves_zero hpos]
    exact ⟨le_rfl, Nat.one_lt_two_pow (by decide), le_rfl⟩
  | succ height ih =>
    have hchild : pos * 2 * 2 ^ height = pos * 2 ^ (height + 1) := by
      rw [Nat.pow_succ', Nat.mul_assoc]
    have hpow : 2 ^ (height + 1 + 1) = 2 * 2 ^ (height + 1) := pow_succ'
    have hpow' : 1 < 2 ^ (height + 1) := Nat.one_lt_two_pow (Nat.succ_ne_zero _)
    have hleftpos : pos * 2 * 2 ^ height < vTxid.length := hchild ▸ hpos
    have hheight' : height ≤ 30 := by omega
    obtain ⟨hle, hlt, hleaves⟩ := ih hheight' hleftpos
    rw [leaves_succ, length_append, traverseAndBuild]
    cases parentOfMatch vMatch vTxid.length (height + 1) pos with
    | true =>
      by_cases hright : (pos * 2 + 1) * 2 ^ height < vTxid.length
      · obtain ⟨hle', hlt', hleaves'⟩ := ih hheight' hright
        simp only [if_true, lt_calcTreeWidth_iff hn hheight', hright, length_cons, length_append]
        omega
      · simp only [if_true, lt_calcTreeWidth_iff hn hheight', hright, if_false, length_cons,
          length_nil]
        omega
    | false =>
      have hin : 0 < (leaves vTxid.length height (pos * 2)).length := by
        have hsucc : (pos * 2 + 1) * 2 ^ height = pos * 2 * 2 ^ height + 2 ^ height := succ_mul ..
        have hpos' : 0 < 2 ^ height := Nat.two_pow_pos _
        rw [leaves, length_range']
        omega
      simp only [Bool.false_eq_true, if_false, length_singleton]
      omega

/-! ### What is built is extracted -/

theorem drop_eq_cons {β : Type} {l r : List β} {k : ℕ} {a : β} (d : β) (h : l.drop k = a :: r) :
    ¬ k ≥ l.length ∧ l.getD k d = a ∧ l.drop (k + 1) = r := by
  have hlt : k < l.length := by
    by_contra hge
    rw [drop_eq_nil_of_le (not_lt.1 hge)] at h
    cases h
  rw [drop_eq_getElem_cons hlt, cons.injEq] at h
  exact ⟨not_le.2 hlt, by rw [getD_eq_getElem _ _ hlt, h.1], h.2⟩

theorem takeHash_eq (isMatch : Bool) (st : Traversal) {hash : Uint256} {rest : List Uint256}
    (h : t.vHash.drop st.nHashUsed = hash :: rest) :
    t.takeHash isMatch st = (hash, { st with
      nHashUsed := st.nHashUsed + 1
      vMatch := if isMatch then st.vMatch ++ [hash] else st.vMatch }) := by
  obtain ⟨hlt, hread, -⟩ := drop_eq_cons 0 h
  rw [takeHash, if_neg hlt, hread]

/-- **The walk of `TraverseAndExtract` over what `TraverseAndBuild` has appended.** -/
theorem traverseAndExtract_build (hn : vTxid.length ≤ 2 ^ 30) (hinj : Function.Injective2 hash2)
    (hnodup : vTxid.Nodup) (hsize : t.nTransactions = vTxid.length) (hheight : height ≤ 30)
    (hpos : pos * 2 ^ height < vTxid.length) (st : Traversal) {bits : List Bool}
    {hashes : List Uint256}
    (hbits : t.vBits.drop st.nBitsUsed =
      (traverseAndBuild hash2 vTxid vMatch height pos).1 ++ bits)
    (hhashes : t.vHash.drop st.nHashUsed =
      (traverseAndBuild hash2 vTxid vMatch height pos).2 ++ hashes) :
    t.traverseAndExtract hash2 height pos st = (calcHash hash2 vTxid height pos,
      { nBitsUsed := st.nBitsUsed + (traverseAndBuild hash2 vTxid vMatch height pos).1.length
        nHashUsed := st.nHashUsed + (traverseAndBuild hash2 vTxid vMatch height pos).2.length
        vMatch := st.vMatch ++ matched vTxid vMatch height pos
        fBad := st.fBad }) := by
  induction height generalizing pos st bits hashes with
  | zero =>
    rw [pow_zero, mul_one] at hpos
    obtain ⟨hlt, hread, -⟩ := drop_eq_cons false hbits
    rw [traverseAndExtract, if_neg hlt, hread,
      takeHash_eq _ { st with nBitsUsed := st.nBitsUsed + 1 } hhashes]
    have hmatched : matched vTxid vMatch 0 pos =
        if parentOfMatch vMatch vTxid.length 0 pos then [calcHash hash2 vTxid 0 pos] else [] := by
      rw [matched, parentOfMatch, leaves_zero hpos, any_cons, any_nil, Bool.or_false, filter_cons]
      split
      · rfl
      · rfl
    rw [hmatched, traverseAndBuild]
    split
    · rfl
    · rw [append_nil]
      rfl
  | succ height ih =>
    have hchild : pos * 2 * 2 ^ height = pos * 2 ^ (height + 1) := by
      rw [pow_succ', mul_assoc]
    have hleftpos : pos * 2 * 2 ^ height < vTxid.length := hchild ▸ hpos
    have hheight' : height ≤ 30 := by omega
    have hwidth : ∀ p, p < calcTreeWidth vTxid.length height ↔ p * 2 ^ height < vTxid.length :=
      fun p => lt_calcTreeWidth_iff hn hheight'
    rw [traverseAndBuild] at hbits hhashes ⊢
    cases hparent : parentOfMatch vMatch vTxid.length (height + 1) pos with
    | false =>
      simp only [hparent, Bool.false_eq_true, if_false] at hbits hhashes ⊢
      obtain ⟨hlt, hread, -⟩ := drop_eq_cons false hbits
      rw [traverseAndExtract, if_neg hlt, hread]
      simp only [Bool.false_eq_true, if_false]
      rw [takeHash_eq _ { st with nBitsUsed := st.nBitsUsed + 1 } hhashes, matched_eq_nil hparent,
        append_nil]
      rfl
    | true =>
      by_cases hright : (pos * 2 + 1) * 2 ^ height < vTxid.length
      · simp only [hparent, hwidth, hright, if_true, cons_append, append_assoc]
          at hbits hhashes ⊢
        obtain ⟨hlt, hread, hbits⟩ := drop_eq_cons false hbits
        have hleft := ih hheight' hleftpos { st with nBitsUsed := st.nBitsUsed + 1 } hbits hhashes
        -- what the left child has used up is gone
        have hbits' := congrArg (drop (traverseAndBuild hash2 vTxid vMatch height (pos * 2)).1.length) hbits
        have hhashes' := congrArg (drop (traverseAndBuild hash2 vTxid vMatch height (pos * 2)).2.length) hhashes
        rw [drop_drop, drop_left] at hbits' hhashes'
        have hrest := ih hheight' hright
          { nBitsUsed := st.nBitsUsed + 1 + (traverseAndBuild hash2 vTxid vMatch height (pos * 2)).1.length
            nHashUsed := st.nHashUsed + (traverseAndBuild hash2 vTxid vMatch height (pos * 2)).2.length
            vMatch := st.vMatch ++ matched vTxid vMatch height (pos * 2)
            fBad := st.fBad } hbits' hhashes'
        have hne : calcHash hash2 vTxid height (pos * 2 + 1) ≠ calcHash hash2 vTxid height (pos * 2) :=
          fun heq => absurd (calcHash_injective hinj hnodup hheight' hright hleftpos heq) (by omega)
        rw [traverseAndExtract, if_neg hlt, hread]
        simp only [if_true, hleft, hsize, hwidth, hright, hrest, hne, if_false, matched_succ,
          length_cons, length_append, calcHash, append_assoc, Prod.mk.injEq,
          Traversal.mk.injEq, true_and, and_true]
        omega
      · simp only [hparent, hwidth, hright, if_true, if_false, cons_append]
          at hbits hhashes ⊢
        obtain ⟨hlt, hread, hbits⟩ := drop_eq_cons false hbits
        have hleft := ih hheight' hleftpos { st with nBitsUsed := st.nBitsUsed + 1 } hbits hhashes
        rw [traverseAndExtract, if_neg hlt, hread]
        simp only [if_true, hleft, hsize, hwidth, hright, if_false, matched_succ, length_cons,
          calcHash, append_nil, Prod.mk.injEq, Traversal.mk.injEq, true_and, and_true]
        omega

/-! ### What is extracted is in the tree -/

theorem takeHash_spec (isMatch : Bool) (st : Traversal) (h : (t.takeHash isMatch st).2.fBad = false) :
    st.fBad = false ∧ ∀ a ∈ (t.takeHash isMatch st).2.vMatch, a ∈ st.vMatch ∨
      isMatch = true ∧ a = (t.takeHash isMatch st).1 := by
  unfold takeHash at h ⊢
  split at h
  · cases h
  · next hlt =>
    rw [if_neg hlt]
    refine ⟨h, fun a ha => ?_⟩
    dsimp only at ha
    split at ha
    · next hmatch =>
      exact (mem_append.1 ha).imp_right fun hlast => ⟨hmatch, mem_singleton.1 hlast⟩
    · exact Or.inl ha

/-- **Where the walk returns a node of the tree and nothing is bad, it has matched leaves of the
tree.** -/
theorem matches_of_traverseAndExtract (hn : vTxid.length ≤ 2 ^ 30) (hinj : Function.Injective2 hash2)
    (hsize : t.nTransactions = vTxid.length) (hheight : height ≤ 30)
    (hpos : pos * 2 ^ height < vTxid.length) (st : Traversal)
    (hbad : (t.traverseAndExtract hash2 height pos st).2.fBad = false) :
    st.fBad = false ∧
      ((t.traverseAndExtract hash2 height pos st).1 = calcHash hash2 vTxid height pos →
        ∀ a ∈ (t.traverseAndExtract hash2 height pos st).2.vMatch, a ∈ st.vMatch ∨ a ∈ vTxid) := by
  induction height generalizing pos st with
  | zero =>
    rw [pow_zero, mul_one] at hpos
    rw [traverseAndExtract] at hbad ⊢
    split at hbad
    · cases hbad
    · next hlt =>
      rw [if_neg hlt]
      obtain ⟨hfine, hmatch⟩ := takeHash_spec _ _ hbad
      refine ⟨hfine, fun hhash a ha => (hmatch a ha).imp_right fun hlast => ?_⟩
      rw [hlast.2, hhash, calcHash]
      exact getD_mem hpos
  | succ height ih =>
    have hchild : pos * 2 * 2 ^ height = pos * 2 ^ (height + 1) := by
      rw [pow_succ', mul_assoc]
    have hleftpos : pos * 2 * 2 ^ height < vTxid.length := hchild ▸ hpos
    have hheight' : height ≤ 30 := by omega
    rw [traverseAndExtract] at hbad ⊢
    split at hbad
    · cases hbad
    · next hlt =>
      rw [if_neg hlt]
      dsimp only at hbad ⊢
      set st₁ : Traversal := { st with nBitsUsed := st.nBitsUsed + 1 }
      split at hbad
      · next hparent =>
        rw [if_pos hparent]
        obtain hleft := ih hheight' hleftpos st₁
        rcases hl : t.traverseAndExtract hash2 height (pos * 2) st₁ with ⟨left, st₂⟩
        rw [hl] at hbad hleft
        simp only [hsize, lt_calcTreeWidth_iff hn hheight'] at hbad ⊢
        split at hbad
        · next hright =>
          rw [if_pos hright]
          have hrest := ih hheight' hright st₂
          rcases hr : t.traverseAndExtract hash2 height (pos * 2 + 1) st₂ with ⟨right, st₃⟩
          rw [hr] at hbad hrest
          dsimp only at hbad hrest ⊢
          split at hbad
          · cases hbad
          · next hne =>
            rw [if_neg hne]
            obtain ⟨hfine₂, hmatch₂⟩ := hrest hbad
            obtain ⟨hfine₁, hmatch₁⟩ := hleft hfine₂
            refine ⟨hfine₁, fun hhash a ha => ?_⟩
            rw [calcHash] at hhash
            simp only [lt_calcTreeWidth_iff hn hheight', hright, if_true] at hhash
            obtain ⟨hlefthash, hrighthash⟩ := hinj hhash
            exact (hmatch₂ hrighthash a ha).elim (hmatch₁ hlefthash a) Or.inr
        · next hright =>
          rw [if_neg hright]
          obtain ⟨hfine₁, hmatch₁⟩ := hleft hbad
          refine ⟨hfine₁, fun hhash a ha => hmatch₁ ?_ a ha⟩
          rw [calcHash] at hhash
          exact (hinj hhash).1
      · next hparent =>
        rw [if_neg hparent]
        obtain ⟨hfine, hmatch⟩ := takeHash_spec _ _ hbad
        exact ⟨hfine, fun _ a ha => (hmatch a ha).imp_right fun hlast => absurd hlast.1 nofun⟩

/-! ### Trees that are sent -/

theorem length_packBits (vBits : List Bool) : (packBits vBits).length = (vBits.length + 7) / 8 := by
  simp [packBits]

/-- A tree is read back with its bits filled up to whole bytes. -/
theorem reads_serialize (htransactions : t.nTransactions < 2 ^ 32)
    (hhashes : t.vHash.length ≤ Unserialize.maxSize) (hhash : ∀ a ∈ t.vHash, a < 2 ^ 256)
    (hbits : (t.vBits.length + 7) / 8 ≤ Unserialize.maxSize) :
    ∃ t', Reads unserialize t.serialize t' ∧ t'.nTransactions = t.nTransactions ∧
      t'.vBits = t.vBits ++ replicate ((t.vBits.length + 7) / 8 * 8 - t.vBits.length) false ∧
      t'.vHash = t.vHash ∧ t'.fBad = false := by
  have hlist : Reads (Unserialize.vectorOf Unserialize.uint256) (listBytes uint256Bytes t.vHash) t.vHash :=
    Unserialize.reads_vectorOf hhashes fun a ha => Unserialize.reads_uint256 (hhash a ha)
  have hbytes := Unserialize.reads_vector (length_packBits t.vBits ▸ hbits)
  let read vBytes : CPartialMerkleTree :=
    { nTransactions := t.nTransactions, vBits := unpackBits vBytes, vHash := t.vHash, fBad := false }
  have hend := hbytes.bind (f := fun vBytes => pure (read vBytes)) (reads_pure _)
  rw [append_nil] at hend
  refine ⟨read (packBits t.vBits), ?_, rfl, unpackBits_packBits t.vBits, rfl, rfl⟩
  unfold unserialize serialize
  exact (Unserialize.reads_uint htransactions).bind (hlist.bind hend)

theorem maxBlockSize_le (saplinght height : ℤ) : MAX_BLOCK_SIZE saplinght height ≤ 4194304 := by
  unfold MAX_BLOCK_SIZE
  split
  · exact le_rfl
  · omega

theorem checkTraversal_eq {root : Uint256} {st : Traversal} (hfine : st.fBad = false)
    (hbits : (st.nBitsUsed + 7) / 8 = (t.vBits.length + 7) / 8)
    (hhashes : st.nHashUsed = t.vHash.length) : t.checkTraversal root st = (root, st.vMatch) := by
  simp [checkTraversal, hfine, hbits, hhashes]

/-- `ExtractMatches` where nothing is refused. -/
theorem extractMatches_eq {saplinght : ℤ} {root : Uint256} {st : Traversal}
    (hpos : t.nTransactions ≠ 0)
    (hmax : ¬ t.nTransactions > MAX_BLOCK_SIZE saplinght 10000000 / 60)
    (hfew : ¬ t.vHash.length > t.nTransactions) (hle : ¬ t.vBits.length < t.vHash.length)
    (hwalk : t.traverseAndExtract hash2 (treeHeight t.nTransactions) 0
      { nBitsUsed := 0, nHashUsed := 0, vMatch := [], fBad := t.fBad } = (root, st))
    (hcheck : t.checkTraversal root st = (root, st.vMatch)) :
    t.extractMatches hash2 saplinght = (root, st.vMatch) := by
  unfold extractMatches
  rw [if_neg hpos]
  rw [if_neg hmax]
  rw [if_neg hfew, if_neg hle, hwalk]
  exact hcheck

-- Through a variable for what is written: the kernel would walk the tree instead.
theorem vBits_written (nTransactions : ℕ) (written : List Bool × List Uint256) :
    (CPartialMerkleTree.mk nTransactions written.1 written.2 false).vBits = written.1 := rfl

theorem vHash_written (nTransactions : ℕ) (written : List Bool × List Uint256) :
    (CPartialMerkleTree.mk nTransactions written.1 written.2 false).vHash = written.2 := rfl

theorem nTransactions_written (nTransactions : ℕ) (written : List Bool × List Uint256) :
    (CPartialMerkleTree.mk nTransactions written.1 written.2 false).nTransactions = nTransactions :=
  rfl

theorem build_vBits : (build hash2 vTxid vMatch).vBits =
    (traverseAndBuild hash2 vTxid vMatch (treeHeight vTxid.length) 0).1 :=
  vBits_written vTxid.length _

theorem build_vHash : (build hash2 vTxid vMatch).vHash =
    (traverseAndBuild hash2 vTxid vMatch (treeHeight vTxid.length) 0).2 :=
  vHash_written vTxid.length _

/-- **A tree that is built, with its bits filled up to whole bytes, gives the root and the matched
txids.** -/
theorem extractMatches_build (hinj : Function.Injective2 hash2) {saplinght : ℤ} (hne : vTxid ≠ [])
    (hnodup : vTxid.Nodup) (hsize : vTxid.length ≤ MAX_BLOCK_SIZE saplinght 10000000 / 60)
    (hlen : vMatch.length = vTxid.length) (htransactions : t.nTransactions = vTxid.length)
    (hbits : t.vBits = (build hash2 vTxid vMatch).vBits ++
      replicate (((build hash2 vTxid vMatch).vBits.length + 7) / 8 * 8 -
        (build hash2 vTxid vMatch).vBits.length) false)
    (hhashes : t.vHash = (build hash2 vTxid vMatch).vHash) (hfine : t.fBad = false) :
    t.extractMatches hash2 saplinght = (computeMerkleRoot hash2 vTxid,
      (vTxid.zip vMatch).filterMap fun p => if p.2 then some p.1 else none) := by
  have hmax := maxBlockSize_le saplinght 10000000
  have hn : vTxid.length ≤ 2 ^ 30 := by omega
  have hpos := length_pos_iff.2 hne
  obtain ⟨hheight, -, -⟩ := treeHeight_spec hn
  have htop : 0 * 2 ^ treeHeight vTxid.length < vTxid.length := by omega
  obtain ⟨hle, -, hfew⟩ := traverseAndBuild_length hash2 vMatch hn hheight htop
  rw [build_vBits] at hbits
  rw [build_vHash] at hhashes
  rw [leaves_treeHeight hn, length_range, ← hhashes, ← htransactions] at hfew
  rw [← hhashes] at hle
  have hwalk := traverseAndExtract_build hn hinj hnodup htransactions hheight htop
    { nBitsUsed := 0, nHashUsed := 0, vMatch := [], fBad := t.fBad } hbits
    (hhashes.trans (append_nil _).symm)
  rw [hfine, calcHash_treeHeight hn hne, matched_treeHeight hn hlen, nil_append, ← hhashes,
    zero_add, zero_add, ← htransactions] at hwalk
  have hlength := congrArg length hbits
  rw [length_append, length_replicate] at hlength
  rw [← hfine] at hwalk
  have hallowed : ¬ t.nTransactions > MAX_BLOCK_SIZE saplinght 10000000 / 60 := by
    rw [htransactions]
    exact hsize.not_gt
  refine extractMatches_eq (by omega) hallowed (by omega) (by omega) hwalk
    (checkTraversal_eq hfine ?_ rfl)
  dsimp only
  rw [htransactions]
  omega

theorem treeHeight_le {saplinght : ℤ}
    (hsize : nTransactions ≤ MAX_BLOCK_SIZE saplinght 10000000 / 60) :
    nTransactions ≤ 2 ^ 30 ∧ treeHeight nTransactions ≤ 17 := by
  have hmax := maxBlockSize_le saplinght 10000000
  have hn : nTransactions ≤ 2 ^ 30 := by omega
  refine ⟨hn, ?_⟩
  obtain ⟨-, -, hmany⟩ := treeHeight_spec hn
  by_contra hhigh
  have hwide := hmany 17 (not_le.1 hhigh)
  rw [lt_calcTreeWidth_iff hn (by omega)] at hwide
  omega

/-- A tree that is built is read back, up to the padding. -/
theorem reads_build {saplinght : ℤ} (hne : vTxid ≠ [])
    (hsize : vTxid.length ≤ MAX_BLOCK_SIZE saplinght 10000000 / 60)
    (hhash : ∀ a ∈ (build hash2 vTxid vMatch).vHash, a < 2 ^ 256) :
    ∃ t, Reads unserialize (build hash2 vTxid vMatch).serialize t ∧
      t.nTransactions = vTxid.length ∧
      t.vBits = (build hash2 vTxid vMatch).vBits ++
        replicate (((build hash2 vTxid vMatch).vBits.length + 7) / 8 * 8 -
          (build hash2 vTxid vMatch).vBits.length) false ∧
      t.vHash = (build hash2 vTxid vMatch).vHash ∧ t.fBad = false := by
  have hmax := maxBlockSize_le saplinght 10000000
  have hmaxSize : Unserialize.maxSize = 0x02000000 := rfl
  obtain ⟨hn, hheight⟩ := treeHeight_le hsize
  have hpos := length_pos_iff.2 hne
  have htop : 0 * 2 ^ treeHeight vTxid.length < vTxid.length := by omega
  obtain ⟨-, hbits, hhashes⟩ := traverseAndBuild_length hash2 vMatch hn (by omega) htop
  rw [← build_vHash, leaves_treeHeight hn, length_range] at hhashes
  rw [← build_vBits] at hbits
  have hpow : 2 ^ (treeHeight vTxid.length + 1) ≤ 2 ^ 18 :=
    Nat.pow_le_pow_right Nat.two_pos (Nat.succ_le_succ hheight)
  have htransactions : (build hash2 vTxid vMatch).nTransactions = vTxid.length :=
    nTransactions_written _ _
  rw [← htransactions]
  exact reads_serialize (by omega) (by omega) hhash (by omega)

theorem checkTraversal_of_ne {root : Uint256} {st : Traversal}
    (h : (t.checkTraversal root st).1 ≠ 0) :
    st.fBad = false ∧ t.checkTraversal root st = (root, st.vMatch) := by
  unfold checkTraversal at h ⊢
  split_ifs at h ⊢ with hbad hbits hhashes
  · exact absurd rfl h
  · exact absurd rfl h
  · exact absurd rfl h
  · exact ⟨Bool.eq_false_iff.2 hbad, rfl⟩

theorem extractMatches_of_ne {saplinght : ℤ} (h : (t.extractMatches hash2 saplinght).1 ≠ 0) :
    ∃ walk, t.traverseAndExtract hash2 (treeHeight t.nTransactions) 0
        { nBitsUsed := 0, nHashUsed := 0, vMatch := [], fBad := t.fBad } = walk ∧
      t.extractMatches hash2 saplinght = t.checkTraversal walk.1 walk.2 := by
  unfold extractMatches at h ⊢
  split_ifs at h ⊢
  · exact absurd rfl h
  · exact absurd rfl h
  · exact absurd rfl h
  · exact absurd rfl h
  · exact ⟨_, rfl, rfl⟩

/-- **A tree that is read tells of txids of the list.** -/
theorem mem_of_extractMatches {saplinght : ℤ} (hinj : Function.Injective2 hash2) (hne : vTxid ≠ [])
    (hsize : vTxid.length ≤ MAX_BLOCK_SIZE saplinght 10000000 / 60)
    (htransactions : t.nTransactions = vTxid.length)
    (hroot : (t.extractMatches hash2 saplinght).1 = computeMerkleRoot hash2 vTxid)
    (hnull : computeMerkleRoot hash2 vTxid ≠ 0) :
    ∀ a ∈ (t.extractMatches hash2 saplinght).2, a ∈ vTxid := by
  obtain ⟨hn, hheight⟩ := treeHeight_le hsize
  have hpos := length_pos_iff.2 hne
  have htop : 0 * 2 ^ treeHeight vTxid.length < vTxid.length := by omega
  have hmatch := matches_of_traverseAndExtract hn hinj htransactions (hheight.trans (by omega)) htop
    { nBitsUsed := 0, nHashUsed := 0, vMatch := [], fBad := t.fBad }
  rw [calcHash_treeHeight hn hne, ← htransactions] at hmatch
  rw [← hroot] at hnull
  obtain ⟨walk, hwalk, heq⟩ := extractMatches_of_ne hnull
  rw [heq] at hnull hroot ⊢
  rw [hwalk] at hmatch
  obtain ⟨hfine, hcheck⟩ := checkTraversal_of_ne hnull
  rw [hcheck] at hroot ⊢
  intro a ha
  exact ((hmatch hfine).2 hroot a ha).resolve_left not_mem_nil

/-- **A partial merkle tree gives back the root and the matched txids, and one that gives the root
of a list has matches of that list only.** -/
theorem extracts_matches {hash2 : Uint256 → Uint256 → Uint256} (hinj : Function.Injective2 hash2)
    {saplinght : ℤ} {vTxid : List Uint256} (hne : vTxid ≠ []) (hnodup : vTxid.Nodup)
    (hsize : vTxid.length ≤ MAX_BLOCK_SIZE saplinght 10000000 / 60) :
    (∀ vMatch : List Bool, vMatch.length = vTxid.length →
      (∀ a ∈ (build hash2 vTxid vMatch).vHash, a < 2 ^ 256) → ∀ rest,
        ∃ t, unserialize ((build hash2 vTxid vMatch).serialize ++ rest) = some (t, rest) ∧
          t.extractMatches hash2 saplinght = (computeMerkleRoot hash2 vTxid,
            (vTxid.zip vMatch).filterMap fun p => if p.2 then some p.1 else none)) ∧
    ∀ t : CPartialMerkleTree, t.nTransactions = vTxid.length →
      (t.extractMatches hash2 saplinght).1 = computeMerkleRoot hash2 vTxid →
      computeMerkleRoot hash2 vTxid ≠ 0 → ∀ a ∈ (t.extractMatches hash2 saplinght).2, a ∈ vTxid := by
  refine ⟨fun vMatch hlen hhash rest => ?_, fun t htransactions hroot hnull =>
    mem_of_extractMatches hinj hne hsize htransactions hroot hnull⟩
  obtain ⟨t, hreads, htransactions, hbits, hhashes, hfine⟩ := reads_build hne hsize hhash
  exact ⟨t, hreads rest,
    extractMatches_build hinj hne hnodup hsize hlen htransactions hbits hhashes hfine⟩

theorem extracts_matches_three :
    (∃ t, unserialize ((build pairHash [1, 2, 3] [false, true, false]).serialize ++ []) =
        some (t, []) ∧
      t.extractMatches pairHash 0 = (computeMerkleRoot pairHash [1, 2, 3],
        ([1, 2, 3].zip [false, true, false]).filterMap fun p => if p.2 then some p.1 else none)) ∧
    ∀ t : CPartialMerkleTree, t.nTransactions = 3 →
      (t.extractMatches pairHash 0).1 = computeMerkleRoot pairHash [1, 2, 3] →
      ∀ a ∈ (t.extractMatches pairHash 0).2, a ∈ [1, 2, 3] := by
  have hroot : computeMerkleRoot pairHash [1, 2, 3] ≠ 0 := by
    rw [computeMerkleRoot_eq]
    simp [root, nextLevel, pairHash]
  obtain ⟨hbuild, hmatch⟩ := @extracts_matches pairHash pairHash_injective 0 [1, 2, 3] (by decide)
    (by decide) (by decide)
  exact ⟨hbuild [false, true, false] rfl (by decide) [], fun t hsize hext => hmatch t hsize hext hroot⟩

/-- The root of the list of a null hash is what a failure returns. -/
theorem not_extracts_matches : ¬ ∀ t : CPartialMerkleTree, t.nTransactions = [0].length →
    (t.extractMatches pairHash 0).1 = computeMerkleRoot pairHash [0] →
      ∀ a ∈ (t.extractMatches pairHash 0).2, a ∈ [0] := by
  intro h
  have hmem := h { nTransactions := 1, vBits := replicate 16 true, vHash := [1], fBad := false }
    rfl (by rw [computeMerkleRoot_eq, root]; decide) 1 (by decide)
  exact absurd hmem (by decide)

end CPartialMerkleTree
end Komodo
