/-
# The merkle trees of the source agree

`BuildMerkleTree`, `GetMerkleBranch` and `CBlock::CheckMerkleBranch` of
`src/src/primitives/block.cpp`, `ComputeMerkleRoot` of `src/src/consensus/merkle.cpp`, and
`SafeCheckMerkleBranch` and `MerkleBranch` of `src/src/cc/eval.cpp` and `src/src/cc/eval.h`.

The root of one program is the last node of the other's vector, and a branch of the vector leads
there with either check.  One branch on another is followed like the two after each other
(`append_exec`), unless the first one is refused: then the second would be followed from the null
hash, but the whole is refused.
-/

import Komodo.CrossChain.MerkleTree

namespace Komodo

open HashTree

variable {hash2 : Uint256 → Uint256 → Uint256}

/-- `BuildMerkleTree`, the value that is returned. -/
def buildMerkleTreeRoot (hash2 : Uint256 → Uint256 → Uint256) (leaves : List Uint256) : Uint256 :=
  (buildMerkleTree hash2 leaves).getLastD 0

variable {leaves : List Uint256}

theorem buildMerkleTreeRoot_eq (hne : leaves ≠ []) :
    buildMerkleTreeRoot hash2 leaves = computeMerkleRoot hash2 leaves := by
  rw [buildMerkleTreeRoot, buildMerkleTree_eq, computeMerkleRoot_eq, List.getLastD_eq_getLast?,
    getLast?_nodes hne, Option.getD_some]

theorem checkMerkleBranch_getMerkleBranch {i : ℕ}
    (hi : i < leaves.length) :
    checkMerkleBranch hash2 (leaves.getD i 0)
      (getMerkleBranch i leaves.length (buildMerkleTree hash2 leaves)) i
        = computeMerkleRoot hash2 leaves := by
  rw [getMerkleBranch_eq, checkMerkleBranch_eq, computeMerkleRoot_eq]
  exact climb_path hi

variable {i j : ℕ}

theorem first_of_nodup (h : leaves.Nodup) (hi : i < leaves.length) :
    First leaves i := by
  intro p hp heq
  rw [List.getD_eq_getElem _ _ hi, List.getD_eq_getElem _ _ (by omega), h.getElem_inj_iff] at heq
  omega

theorem safeCheckMerkleBranch_getMerkleBranch (hleaves : leaves.Nodup)
    (hfree : CollisionFree hash2 (buildMerkleTree hash2 leaves)) (hi : i < leaves.length) :
    safeCheckMerkleBranch hash2 (leaves.getD i 0)
      (getMerkleBranch i leaves.length (buildMerkleTree hash2 leaves)) i
        = computeMerkleRoot hash2 leaves :=
  (leads_getMerkleBranch hi (first_of_nodup hleaves hi) hfree).exec

/-! ### One branch on another -/

theorem safeCheckMerkleBranch_append {p q : List Uint256} (hi : i < 2 ^ p.length)
    {a : Uint256} (h : Canonical hash2 a p i) :
    safeCheckMerkleBranch hash2 a (p ++ q) (i + j * 2 ^ p.length : ℕ)
      = safeCheckMerkleBranch hash2 (safeCheckMerkleBranch hash2 a p i) q j := by
  rw [safeCheckMerkleBranch_eq h]
  by_cases hnext : Canonical hash2 (climb hash2 a p i) q j
  · rw [safeCheckMerkleBranch_eq hnext,
      safeCheckMerkleBranch_eq ((canonical_append hi).2 ⟨h, hnext⟩), climb_append hi]
  · rw [safeCheckMerkleBranch_of_not hnext, safeCheckMerkleBranch_of_not]
    exact fun hall => hnext ((canonical_append hi).1 hall).2

theorem safeCheckMerkleBranch_append_of_not {p q : List Uint256} (hi : i < 2 ^ p.length)
    {a : Uint256} (h : ¬Canonical hash2 a p i) :
    safeCheckMerkleBranch hash2 a (p ++ q) (i + j * 2 ^ p.length : ℕ) = 0 :=
  safeCheckMerkleBranch_of_not fun hall => h ((canonical_append hi).1 hall).1

/-- `operator<<`, where the index is an `int`. -/
theorem append_eq {b c : MerkleBranch} (hb : b.nIndex = i) (hc : c.nIndex = j)
    (hlen : b.branch.length < 32) (hfits : i + j * 2 ^ b.branch.length < 2 ^ 31) :
    b.append c = .ok ⟨(i + j * 2 ^ b.branch.length : ℕ), b.branch ++ c.branch⟩ := by
  have hcast : (j : ℤ) * 2 ^ b.branch.length = (j * 2 ^ b.branch.length : ℕ) := by
    push_cast
    rfl
  rw [MerkleBranch.append, shiftLeft, if_pos hlen, hb, hc, hcast,
    toInt_of_range (by omega) (by omega)]
  show Except.ok _ = _
  rw [toInt_of_range (by omega) (by omega), ← Int.natCast_add]

/-- **The trees, their branches and the checks agree.** -/
theorem merkle_agree (hash2 : Uint256 → Uint256 → Uint256) :
    (∀ leaves : List Uint256, ∀ i < leaves.length,
      buildMerkleTreeRoot hash2 leaves = computeMerkleRoot hash2 leaves
      ∧ checkMerkleBranch hash2 (leaves.getD i 0)
        (getMerkleBranch i leaves.length (buildMerkleTree hash2 leaves)) i
          = computeMerkleRoot hash2 leaves
      ∧ (leaves.Nodup → CollisionFree hash2 (buildMerkleTree hash2 leaves) →
        safeCheckMerkleBranch hash2 (leaves.getD i 0)
          (getMerkleBranch i leaves.length (buildMerkleTree hash2 leaves)) i
            = computeMerkleRoot hash2 leaves))
    ∧ ∀ (b c : MerkleBranch) (a : Uint256), 0 ≤ b.nIndex → b.nIndex < 2 ^ b.branch.length →
      0 ≤ c.nIndex → b.nIndex + c.nIndex * 2 ^ b.branch.length < 2 ^ 31 → b.branch.length < 32 →
      ∃ b', b.append c = .ok b'
        ∧ (Canonical hash2 a b.branch b.nIndex.toNat →
          b'.exec hash2 a = c.exec hash2 (b.exec hash2 a))
        ∧ (¬Canonical hash2 a b.branch b.nIndex.toNat →
          b.exec hash2 a = 0 ∧ b'.exec hash2 a = 0) := by
  refine ⟨fun leaves i hi => ⟨?_, checkMerkleBranch_getMerkleBranch hi, fun hleaves hfree =>
    safeCheckMerkleBranch_getMerkleBranch hleaves hfree hi⟩, ?_⟩
  · exact buildMerkleTreeRoot_eq (List.length_pos_iff.1 (by omega))
  · intro b c a hnonneg hlt hnonneg' hfits hlen
    obtain ⟨i, hi⟩ := Int.eq_ofNat_of_zero_le hnonneg
    obtain ⟨j, hj⟩ := Int.eq_ofNat_of_zero_le hnonneg'
    rw [hi] at hlt
    have hlt : i < 2 ^ b.branch.length := by exact_mod_cast hlt
    have hfits : i + j * 2 ^ b.branch.length < 2 ^ 31 := by
      rw [hi, hj] at hfits
      exact_mod_cast hfits
    refine ⟨_, append_eq hi hj hlen hfits, fun hcanonical => ?_, fun hnot => ?_⟩
    · rw [hi, Int.toNat_natCast] at hcanonical
      unfold MerkleBranch.exec
      rw [hi, hj]
      exact safeCheckMerkleBranch_append hlt hcanonical
    · rw [hi, Int.toNat_natCast] at hnot
      unfold MerkleBranch.exec
      rw [hi]
      exact ⟨safeCheckMerkleBranch_of_not hnot, safeCheckMerkleBranch_append_of_not hlt hnot⟩

/-- The hypotheses of `merkle_agree` are satisfiable: by a tree of three leaves and its last branch,
and by a branch to the left of which another node stands. -/
theorem merkle_agree_three :
    safeCheckMerkleBranch Nat.pair 6 (getMerkleBranch 2 3 (buildMerkleTree Nat.pair [4, 5, 6])) 2
        = computeMerkleRoot Nat.pair [4, 5, 6]
      ∧ ∃ b', MerkleBranch.append ⟨1, [4]⟩ ⟨0, [7]⟩ = .ok b'
        ∧ b'.exec Nat.pair 5 = MerkleBranch.exec Nat.pair ⟨0, [7]⟩
          (MerkleBranch.exec Nat.pair ⟨1, [4]⟩ 5) := by
  have hfree : CollisionFree Nat.pair (buildMerkleTree Nat.pair [4, 5, 6]) :=
    fun _ _ _ _ _ _ _ _ heq => Nat.pair_eq_pair.1 heq
  obtain ⟨htrees, hbranches⟩ := merkle_agree Nat.pair
  obtain ⟨-, -, hsafe⟩ := htrees [4, 5, 6] 2 (by decide)
  obtain ⟨b', happend, hexec, -⟩ := hbranches ⟨1, [4]⟩ ⟨0, [7]⟩ 5 (by decide) (by decide)
    (by decide) (by decide) (by decide)
  exact ⟨hsafe (by decide) hfree, b', happend, hexec ⟨by decide, trivial⟩⟩

/-- **A refused branch is led on from the null hash, but not in one piece; and a branch of 32 hashes
cannot be led on.** -/
theorem refused_branch_composed :
    (¬ ∀ (hash2 : Uint256 → Uint256 → Uint256) (b c : MerkleBranch) (a : Uint256), 0 ≤ b.nIndex →
      b.nIndex < 2 ^ b.branch.length → b.nIndex + c.nIndex * 2 ^ b.branch.length < 2 ^ 31 →
      0 ≤ b.nIndex + c.nIndex * 2 ^ b.branch.length →
      ∃ b', b.append c = .ok b' ∧ b'.exec hash2 a = c.exec hash2 (b.exec hash2 a))
    ∧ MerkleBranch.append ⟨0, List.replicate 32 7⟩ ⟨0, []⟩ = .error .undefined := by
  refine ⟨fun hall => ?_, rfl⟩
  obtain ⟨b', happend, hexec⟩ := hall (fun _ _ => 1) ⟨1, [5]⟩ ⟨0, [7]⟩ 5 (by decide) (by decide)
    (by decide) (by decide)
  obtain rfl : (⟨1, [5, 7]⟩ : MerkleBranch) = b' := Except.ok.inj happend
  exact absurd hexec (by decide)

end Komodo
