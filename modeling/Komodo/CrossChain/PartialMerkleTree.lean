/-
# Partial merkle trees

`CPartialMerkleTree` of `src/src/merkleblock.h` and `merkleblock.cpp`.

`TraverseAndBuild` walks the tree of the txids depth first and writes a bit for each node, and a
hash where it does not go further down; `TraverseAndExtract` takes the same walk and reads them.
The vectors it appends to are what it returns here, one after the other.

A node is given by its height and its position on the level.  `calcTreeWidth` is in the arithmetic
of `unsigned int`; for as many transactions as fit into a block it is the length of a level of
`Lib.HashTree`, and `calcHash` is the node of that level (`calcTreeWidth_eq`, `calcHash_eq`).
-/

import Komodo.CrossChain.MerkleTree
import Komodo.Script.Serialize

namespace Komodo

open HashTree Streams List

/-- `MAX_BLOCK_SIZE`, by the height at which Sapling is active. -/
def MAX_BLOCK_SIZE (saplinght height : ℤ) : ℕ :=
  if height ≤ 0 ∨ saplinght > 0 ∧ height ≥ saplinght then 4096 * 1024 else 2000000

structure CPartialMerkleTree where
  nTransactions : ℕ
  vBits : List Bool
  vHash : List Uint256
  fBad : Bool
deriving DecidableEq, Repr

namespace CPartialMerkleTree

/-! ### Building -/

section
variable (hash2 : Uint256 → Uint256 → Uint256) (vTxid : List Uint256) (vMatch : List Bool)

def calcTreeWidth (nTransactions height : ℕ) : ℕ :=
  (nTransactions + 2 ^ height + (2 ^ 32 - 1)) % 2 ^ 32 / 2 ^ height

/-- The loop that calculates the height of the tree; a shift by 32 bits has no meaning. -/
def nHeightLoop (nTransactions : ℕ) : (fuel : ℕ) → (nHeight : ℕ) → ℕ
  | 0, nHeight => nHeight
  | fuel + 1, nHeight =>
    if 1 < calcTreeWidth nTransactions nHeight then nHeightLoop nTransactions fuel (nHeight + 1)
    else nHeight

/-- The height of the tree. -/
def treeHeight (nTransactions : ℕ) : ℕ := nHeightLoop nTransactions 32 0

def calcHash : (height pos : ℕ) → Uint256
  | 0, pos => vTxid.getD pos 0
  | height + 1, pos =>
    let left := calcHash height (pos * 2)
    let right := if pos * 2 + 1 < calcTreeWidth vTxid.length height
      then calcHash height (pos * 2 + 1) else left
    hash2 left right

/-- The positions of the leaves below a node: the loop of `TraverseAndBuild`. -/
def leaves (nTransactions height pos : ℕ) : List ℕ :=
  List.range' (pos * 2 ^ height) (min ((pos + 1) * 2 ^ height) nTransactions - pos * 2 ^ height)

/-- Whether a node is the parent of a matched txid. -/
def parentOfMatch (nTransactions height pos : ℕ) : Bool :=
  (leaves nTransactions height pos).any fun p => vMatch.getD p false

/-- `TraverseAndBuild`: the bits and the hashes that it appends. -/
def traverseAndBuild : (height pos : ℕ) → List Bool × List Uint256
  | 0, pos => ([parentOfMatch vMatch vTxid.length 0 pos], [calcHash hash2 vTxid 0 pos])
  | height + 1, pos =>
    if parentOfMatch vMatch vTxid.length (height + 1) pos then
      let (bits, hashes) := traverseAndBuild height (pos * 2)
      if pos * 2 + 1 < calcTreeWidth vTxid.length height then
        let (bits', hashes') := traverseAndBuild height (pos * 2 + 1)
        (true :: (bits ++ bits'), hashes ++ hashes')
      else (true :: bits, hashes)
    else ([false], [calcHash hash2 vTxid (height + 1) pos])

/-- The constructor. -/
def build : CPartialMerkleTree :=
  let written := traverseAndBuild hash2 vTxid vMatch (treeHeight vTxid.length) 0
  { nTransactions := vTxid.length, vBits := written.1, vHash := written.2, fBad := false }

end

/-! ### Extracting -/

/-- What `TraverseAndExtract` changes. -/
structure Traversal where
  nBitsUsed : ℕ
  nHashUsed : ℕ
  vMatch : List Uint256
  fBad : Bool

variable (hash2 : Uint256 → Uint256 → Uint256) (t : CPartialMerkleTree)

/-- A stored hash is used; `isMatch` says that it is a matched txid. -/
def takeHash (isMatch : Bool) (st : Traversal) : Uint256 × Traversal :=
  if st.nHashUsed ≥ t.vHash.length then (0, { st with fBad := true })
  else
    let hash := t.vHash.getD st.nHashUsed 0
    (hash, { st with
      nHashUsed := st.nHashUsed + 1
      vMatch := if isMatch then st.vMatch ++ [hash] else st.vMatch })

def traverseAndExtract : (height pos : ℕ) → Traversal → Uint256 × Traversal
  | 0, _, st =>
    if st.nBitsUsed ≥ t.vBits.length then (0, { st with fBad := true })
    else
      t.takeHash (t.vBits.getD st.nBitsUsed false) { st with nBitsUsed := st.nBitsUsed + 1 }
  | height + 1, pos, st =>
    if st.nBitsUsed ≥ t.vBits.length then (0, { st with fBad := true })
    else
      let fParentOfMatch := t.vBits.getD st.nBitsUsed false
      let st := { st with nBitsUsed := st.nBitsUsed + 1 }
      if fParentOfMatch then
        let (left, st) := traverseAndExtract height (pos * 2) st
        if pos * 2 + 1 < calcTreeWidth t.nTransactions height then
          let (right, st) := traverseAndExtract height (pos * 2 + 1) st
          (hash2 left right, if right = left then { st with fBad := true } else st)
        else (hash2 left left, st)
      else t.takeHash false st

/-- The end of `ExtractMatches`: nothing was bad, all bits are used but for the padding, and all
hashes. -/
def checkTraversal (hashMerkleRoot : Uint256) (st : Traversal) : Uint256 × List Uint256 :=
  if st.fBad then (0, st.vMatch)
  else if (st.nBitsUsed + 7) / 8 ≠ (t.vBits.length + 7) / 8 then (0, st.vMatch)
  else if st.nHashUsed ≠ t.vHash.length then (0, st.vMatch)
  else (hashMerkleRoot, st.vMatch)

/-- `ExtractMatches`: the root, or `0`, and the matches; `saplinght` is where Sapling is active. -/
def extractMatches (saplinght : ℤ) : Uint256 × List Uint256 :=
  if t.nTransactions = 0 then (0, [])
  else if t.nTransactions > MAX_BLOCK_SIZE saplinght 10000000 / 60 then (0, [])
  else if t.vHash.length > t.nTransactions then (0, [])
  else if t.vBits.length < t.vHash.length then (0, [])
  else
    let walk := t.traverseAndExtract hash2 (treeHeight t.nTransactions) 0
      { nBitsUsed := 0, nHashUsed := 0, vMatch := [], fBad := t.fBad }
    t.checkTraversal walk.1 walk.2

/-! ### Serialization -/

/-- The byte with eight of the bits. -/
def packByte (vBits : List Bool) (i : ℕ) : UInt8 :=
  (List.range 8).foldl (fun b j => b ||| if vBits.getD (8 * i + j) false then 1 <<< UInt8.ofNat j else 0) 0

def packBits (vBits : List Bool) : Bytes :=
  (List.range ((vBits.length + 7) / 8)).map (packByte vBits)

def unpackBits (vBytes : Bytes) : List Bool :=
  (List.range (vBytes.length * 8)).map fun p =>
    vBytes.getD (p / 8) 0 &&& (1 <<< UInt8.ofNat (p % 8)) ≠ 0

/-- `SerializationOp` for writing. -/
def serialize : Bytes :=
  leBytes 4 t.nTransactions ++ (listBytes uint256Bytes t.vHash ++ vectorBytes (packBits t.vBits))

/-- `SerializationOp` for reading. -/
def unserialize : Unserialize CPartialMerkleTree := do
  let nTransactions ← Unserialize.uint 4
  let vHash ← Unserialize.vectorOf Unserialize.uint256
  let vBytes ← Unserialize.vector
  pure { nTransactions, vBits := unpackBits vBytes, vHash, fBad := false }

variable {hash2} {t}

theorem packByte_and : ∀ b₀ b₁ b₂ b₃ b₄ b₅ b₆ b₇ : Bool, ∀ j : Fin 8,
    (packByte [b₀, b₁, b₂, b₃, b₄, b₅, b₆, b₇] 0 &&& (1 <<< UInt8.ofNat j) ≠ 0) ↔
      [b₀, b₁, b₂, b₃, b₄, b₅, b₆, b₇].getD j false = true := by
  decide +kernel

theorem packByte_bit (vBits : List Bool) (i : ℕ) {j : ℕ} (hj : j < 8) :
    (packByte vBits i &&& (1 <<< UInt8.ofNat j) ≠ 0) ↔ vBits.getD (8 * i + j) false = true := by
  have hbyte : packByte vBits i = packByte ((range 8).map fun j => vBits.getD (8 * i + j) false) 0 :=
    rfl
  have hbits := packByte_and (vBits.getD (8 * i) false) (vBits.getD (8 * i + 1) false)
    (vBits.getD (8 * i + 2) false) (vBits.getD (8 * i + 3) false) (vBits.getD (8 * i + 4) false)
    (vBits.getD (8 * i + 5) false) (vBits.getD (8 * i + 6) false) (vBits.getD (8 * i + 7) false)
    ⟨j, hj⟩
  rw [hbyte]
  refine hbits.trans ?_
  interval_cases j <;> rfl

/-- The bits come back, filled up to whole bytes. -/
theorem unpackBits_packBits (vBits : List Bool) :
    unpackBits (packBits vBits) =
      vBits ++ replicate ((vBits.length + 7) / 8 * 8 - vBits.length) false := by
  have hlen : (packBits vBits).length = (vBits.length + 7) / 8 := by simp [packBits]
  refine ext_getElem ?_ fun p hp hp' => ?_
  · rw [unpackBits, length_map, length_range, hlen, length_append, length_replicate]
    omega
  · rw [← getD_eq_getElem _ false hp]
    rw [unpackBits, length_map, length_range, hlen] at hp
    have hbyte : (packBits vBits).getD (p / 8) 0 = packByte vBits (p / 8) := by
      rw [getD_eq_getElem _ _ (by omega)]
      simp [packBits]
    have hbit := packByte_bit vBits (p / 8) (Nat.mod_lt p (by decide : 0 < 8))
    rw [Nat.div_add_mod] at hbit
    have hread : (unpackBits (packBits vBits)).getD p false = vBits.getD p false := by
      rw [Bool.eq_iff_iff, ← hbit, ← hbyte, getD_eq_getElem _ _ (by simp [unpackBits, hlen, hp])]
      simp [unpackBits]
    rw [hread]
    rcases Nat.lt_or_ge p vBits.length with hin | hout
    · rw [getElem_append_left hin, getD_eq_getElem _ _ hin]
    · rw [getElem_append_right hout, getElem_replicate, getD_eq_default _ _ hout]

end CPartialMerkleTree
end Komodo
