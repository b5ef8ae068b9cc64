/-
# The merkle root of a block and its mutations

`ComputeMerkleRoot` of `src/src/consensus/merkle.cpp` with its `mutated` flag, and the part of
`CheckBlock` of `src/src/main.cpp` that compares the root of a header with the transactions.

A last node without a partner is hashed with itself, so that a list whose tail is repeated may
keep its root (CVE-2012-2459).  The flag reports a list with twins on any level.  By
`Lib.HashTreeRoots` a list that is not reported is the shortest with its root, and the only one
of its length (`eq_of_not_mutated`).  The empty list has the null hash for its root, which is
also the root of a list with a null hash as its only leaf.
-/

import Komodo.CrossChain.MerkleTree
import Komodo.Lib.HashTreeRoots

namespace Komodo

open HashTree

variable (hash2 : Uint256 → Uint256 → Uint256)

/-- The loop over the pairs of one level. -/
def pairMutation : List Uint256 → Bool
  | a :: b :: hashes => a = b || pairMutation hashes
  | _ => false

/-- The loop of `ComputeMerkleRoot` over the levels, where the flag is asked for. -/
def computeMerkleRootLoop (hashes : List Uint256) (mutation : Bool) : Uint256 × Bool :=
  if 1 < hashes.length then
    computeMerkleRootLoop (sha256D64 hash2 (evenHashes hashes) ((evenHashes hashes).length / 2))
      (pairMutation hashes || mutation)
  else (hashes.getD 0 0, mutation)
termination_by hashes.length
decreasing_by rw [length_sha256D64, length_evenHashes]; omega

/-- `ComputeMerkleRoot(hashes, &mutated)`: the root and the flag. -/
def computeMerkleRootMutated (hashes : List Uint256) : Uint256 × Bool :=
  computeMerkleRootLoop hash2 hashes false

variable {hash2}

theorem pairMutation_eq_false {hashes : List Uint256} :
    pairMutation hashes = false ↔ NoTwins hashes := by
  induction hashes using pairMutation.induct with
  | case1 a b hashes ih => rw [pairMutation, NoTwins, ← ih, Bool.or_eq_false_iff, decide_eq_false_iff_not]
  | case2 hashes hshort =>
    match hashes, hshort with
    | [], _ => exact iff_of_true rfl trivial
    | [a], _ => exact iff_of_true rfl trivial
    | a :: b :: hashes, hshort => exact absurd rfl (hshort a b hashes)

theorem computeMerkleRootLoop_eq (hashes : List Uint256) (mutation : Bool) :
    (computeMerkleRootLoop hash2 hashes mutation).1 = root hash2 hashes ∧
      ((computeMerkleRootLoop hash2 hashes mutation).2 = false ↔
        mutation = false ∧ Plain hash2 hashes) := by
  induction hn : hashes.length using Nat.strong_induction_on generalizing hashes mutation
  rename_i n ih
  have hlen := length_nextLevel hash2 hashes
  rw [computeMerkleRootLoop, sha256D64_eq, Plain]
  split_ifs with hmany
  · obtain ⟨hroot, hflag⟩ := ih _ (by omega) (nextLevel hash2 hashes) (pairMutation hashes || mutation) rfl
    rw [hroot, root_of_many hmany, hflag, Bool.or_eq_false_iff, pairMutation_eq_false]
    tauto
  · refine ⟨(root_of_one (not_lt.1 hmany)).symm, ?_⟩
    have htwins : NoTwins hashes := by
      rcases hashes with _ | ⟨a, _ | ⟨b, hashes⟩⟩
      · trivial
      · trivial
      · exact absurd (by simp) hmany
    exact ⟨fun h => ⟨h, htwins, fun h => absurd h hmany⟩, And.left⟩

theorem computeMerkleRootMutated_fst (hashes : List Uint256) :
    (computeMerkleRootMutated hash2 hashes).1 = computeMerkleRoot hash2 hashes := by
  rw [computeMerkleRootMutated, (computeMerkleRootLoop_eq hashes false).1, computeMerkleRoot_eq]

theorem computeMerkleRootMutated_snd {hashes : List Uint256} :
    (computeMerkleRootMutated hash2 hashes).2 = false ↔ Plain hash2 hashes := by
  rw [computeMerkleRootMutated, (computeMerkleRootLoop_eq hashes false).2, and_iff_right rfl]

variable {hashes hashes' : List Uint256}

theorem length_le_of_not_mutated (hinj : Function.Injective2 hash2)
    (hleaf : ∀ a b, hash2 a b ∉ hashes) (hleaf' : ∀ a b, hash2 a b ∉ hashes') (hne : hashes ≠ [])
    (hmutated : (computeMerkleRootMutated hash2 hashes').2 = false)
    (h : computeMerkleRoot hash2 hashes' = computeMerkleRoot hash2 hashes) :
    hashes'.length ≤ hashes.length := by
  rw [computeMerkleRoot_eq, computeMerkleRoot_eq] at h
  exact length_le_of_root_eq (fun a => a ∈ hashes ∨ a ∈ hashes') 0 hinj
    (fun a b => not_or.2 ⟨hleaf a b, hleaf' a b⟩) hne (fun _ => Or.inl) (fun _ => Or.inr)
    (computeMerkleRootMutated_snd.1 hmutated) h

/-- **Two lists with one root that are not reported are equal.** -/
theorem eq_of_not_mutated (hinj : Function.Injective2 hash2)
    (hleaf : ∀ a b, hash2 a b ∉ hashes) (hleaf' : ∀ a b, hash2 a b ∉ hashes') (hne : hashes ≠ [])
    (hne' : hashes' ≠ []) (hmutated : (computeMerkleRootMutated hash2 hashes).2 = false)
    (hmutated' : (computeMerkleRootMutated hash2 hashes').2 = false)
    (h : computeMerkleRoot hash2 hashes = computeMerkleRoot hash2 hashes') : hashes = hashes' := by
  have hle := length_le_of_not_mutated hinj hleaf' hleaf hne' hmutated h
  have hle' := length_le_of_not_mutated hinj hleaf hleaf' hne hmutated' h.symm
  rw [computeMerkleRoot_eq, computeMerkleRoot_eq] at h
  exact eq_of_root_eq hinj (Nat.le_antisymm hle hle') h

/-- **Mutations of a merkle tree.** Two lists with one root that are both not reported are equal, or
one is empty and the root is the null hash; and a list to which a tail is added once more without
changing the root is reported. -/
theorem merkle_mutations (hinj : Function.Injective2 hash2) :
    (∀ hashes hashes' : List Uint256, (∀ a b, hash2 a b ∉ hashes) → (∀ a b, hash2 a b ∉ hashes') →
      (computeMerkleRootMutated hash2 hashes).1 = (computeMerkleRootMutated hash2 hashes').1 →
      (computeMerkleRootMutated hash2 hashes).2 = false →
      (computeMerkleRootMutated hash2 hashes').2 = false →
        hashes = hashes' ∨ (hashes = [] ∨ hashes' = []) ∧
          (computeMerkleRootMutated hash2 hashes).1 = 0) ∧
    ∀ hashes tail : List Uint256, (∀ a b, hash2 a b ∉ hashes) → tail ≠ [] → tail <:+ hashes →
      (computeMerkleRootMutated hash2 (hashes ++ tail)).1 = (computeMerkleRootMutated hash2 hashes).1 →
        (computeMerkleRootMutated hash2 (hashes ++ tail)).2 = true := by
  refine ⟨fun hashes hashes' hleaf hleaf' hroot hmutated hmutated' => ?_,
    fun hashes tail hleaf hne htail hroot => ?_⟩
  · have hnull : (computeMerkleRootMutated hash2 []).1 = 0 := by
      rw [computeMerkleRootMutated, computeMerkleRootLoop]
      rfl
    rcases eq_or_ne hashes [] with rfl | hne
    · exact Or.inr ⟨Or.inl rfl, hnull⟩
    rcases eq_or_ne hashes' [] with rfl | hne'
    · exact Or.inr ⟨Or.inr rfl, hroot.trans hnull⟩
    · rw [computeMerkleRootMutated_fst, computeMerkleRootMutated_fst] at hroot
      exact Or.inl (eq_of_not_mutated hinj hleaf hleaf' hne hne' hmutated hmutated' hroot)
  · by_contra hmutated
    have hleaf' : ∀ a b, hash2 a b ∉ hashes ++ tail := fun a b hmem =>
      hleaf a b ((List.mem_append.1 hmem).elim id fun h => htail.subset h)
    have hlist : hashes ≠ [] := by
      rintro rfl
      exact hne (List.suffix_nil.1 htail)
    rw [computeMerkleRootMutated_fst, computeMerkleRootMutated_fst] at hroot
    have hle := length_le_of_not_mutated hinj hleaf hleaf' hlist (by simpa using hmutated) hroot
    have hpos := List.length_pos_iff.2 hne
    rw [List.length_append] at hle
    omega

/-- Three leaves, and the same with the last one twice. -/
theorem merkle_mutations_three :
    (computeMerkleRootMutated pairHash [1, 2, 3]).2 = false ∧
      (computeMerkleRootMutated pairHash ([1, 2, 3] ++ [3])).2 = true :=
  ⟨by
      rw [computeMerkleRootMutated_snd, Plain]
      refine ⟨⟨by decide, trivial⟩, fun _ => ?_⟩
      rw [Plain]
      refine ⟨⟨by decide, trivial⟩, fun _ => ?_⟩
      rw [Plain]
      exact ⟨trivial, fun h => absurd h (by decide)⟩,
    (merkle_mutations pairHash_injective).2 [1, 2, 3] [3] (pairHash_not_mem (by decide))
      (by decide) (by decide) (by
        rw [computeMerkleRootMutated_fst, computeMerkleRootMutated_fst, computeMerkleRoot_eq,
          computeMerkleRoot_eq]
        simp [root, nextLevel])⟩

/-- The empty list and the list of a null hash have the null hash as their root, and neither is
reported. -/
theorem not_merkle_mutations : ¬ ∀ hashes hashes' : List Uint256,
    (∀ a b, pairHash a b ∉ hashes) → (∀ a b, pairHash a b ∉ hashes') →
      (computeMerkleRootMutated pairHash hashes).1 = (computeMerkleRootMutated pairHash hashes').1 →
      (computeMerkleRootMutated pairHash hashes).2 = false →
      (computeMerkleRootMutated pairHash hashes').2 = false → hashes = hashes' := by
  intro h
  have heq := h [] [0] (pairHash_not_mem (by decide)) (pairHash_not_mem (by decide))
    (by simp [computeMerkleRootMutated, computeMerkleRootLoop])
    (by simp [computeMerkleRootMutated, computeMerkleRootLoop])
    (by simp [computeMerkleRootMutated, computeMerkleRootLoop])
  cases heq

end Komodo
