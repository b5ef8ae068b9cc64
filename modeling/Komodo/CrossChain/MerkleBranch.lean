/-
# Merkle branches

`SafeCheckMerkleBranch` of `src/src/cc/eval.cpp` and `MerkleBranch` of `src/src/cc/eval.h`.

A branch is an index and the hashes beside the path from a leaf to the root, the lowest
first. The bits of the index, the lowest first, say on which side each of them stands.
-/

import Komodo.Primitives.Transaction

namespace Komodo

/-- The loop of `SafeCheckMerkleBranch`. `hash2 a b` is the hash of the two nodes one behind
the other. A node equal to the one on its right is refused: the tree doubles its last node,
so that the same root could stand for two lists of leaves. -/
def merkleBranchLoop (hash2 : Uint256 → Uint256 → Uint256) :
    (hash : Uint256) → (vMerkleBranch : List Uint256) → (nIndex : ℤ) → Uint256
  | hash, [], _ => hash
  | hash, node :: vMerkleBranch, nIndex =>
    if nIndex % 2 = 1 then
      if node = hash then 0 else merkleBranchLoop hash2 (hash2 node hash) vMerkleBranch (nIndex / 2)
    else merkleBranchLoop hash2 (hash2 hash node) vMerkleBranch (nIndex / 2)

def safeCheckMerkleBranch (hash2 : Uint256 → Uint256 → Uint256) (hash : Uint256)
    (vMerkleBranch : List Uint256) (nIndex : ℤ) : Uint256 :=
  if nIndex = -1 then 0 else merkleBranchLoop hash2 hash vMerkleBranch nIndex

structure MerkleBranch where
  nIndex : ℤ
  branch : List Uint256
deriving DecidableEq, Repr

def MerkleBranch.exec (hash2 : Uint256 → Uint256 → Uint256) (b : MerkleBranch) (hash : Uint256) :
    Uint256 :=
  safeCheckMerkleBranch hash2 hash b.branch b.nIndex

/-- `TxProof`: the transaction of a notarisation, and a branch. -/
abbrev TxProof := Uint256 × MerkleBranch

end Komodo
