/-
# Authentication paths

`IncrementalMerkleTree::path` and `IncrementalWitness::path` of
`src/src/zcash/IncrementalMerkleTree.cpp`, and `convertBytesVectorToVector` of
`src/src/zcash/util.cpp`.

`path` goes through the same slots as `root` and asks the filler for the same hashes in the same
order.  Hashing the last leaf up along the siblings that it collects is therefore the loop of `root`
(`climb_pathLoop`), whatever the tree and the filler are (`climb_siblings`).  A `MerklePath` has
the siblings from the root down and as bits: `MerklePath.fromLeaf` reads them back.

With `WitnessOf.root` the path of a witness leads from its leaf to the root of the tree after all
leaves (`witnessed_leaf`).
-/

import Komodo.Primitives.WireFormat
import Komodo.Zcash.IncrementalWitness

namespace Komodo
namespace Zcash

open PaddedTree List

/-! ### Siblings -/

section

variable {H : Type} (M : NodeHash H)

/-- The loop of `path` over the parents and that above them, for `d` up to `d + rounds`. -/
def IncrementalMerkleTree.pathLoop :
    (rounds d : ℕ) → List (Option H) → (filler : List H) → List (Bool × H)
  | 0, _, _, _ => []
  | rounds + 1, d, some parent :: parents, filler =>
    (true, parent) :: pathLoop rounds (d + 1) parents filler
  | rounds + 1, d, none :: parents, filler =>
    let (h, filler) := nextFiller M filler d
    (false, h) :: pathLoop rounds (d + 1) parents filler
  | rounds + 1, d, [], filler =>
    let (h, filler) := nextFiller M filler d
    (false, h) :: pathLoop rounds (d + 1) [] filler

/-- `path` before its result is turned around: index bit and sibling for each height, from the leaf
on.  `none` is the exception for a tree without leaves. -/
def IncrementalMerkleTree.siblings (t : IncrementalMerkleTree H) (Depth : ℕ) (filler : List H) :
    Option (List (Bool × H)) :=
  t.left.map fun left =>
    let rounds := max (Depth - 1) t.parents.length
    match t.right with
    | some _ => (true, left) :: pathLoop M rounds 1 t.parents filler
    | none =>
      let (h, filler) := nextFiller M filler 0
      (false, h) :: pathLoop M rounds 1 t.parents filler

/-- A node is hashed up along siblings, from height `d` on.  The bit is set where it is the right
child. -/
def climb : (d : ℕ) → (node : H) → List (Bool × H) → H
  | _, node, [] => node
  | d, node, (true, sibling) :: path => climb (d + 1) (M.combine sibling node d) path
  | d, node, (false, sibling) :: path => climb (d + 1) (M.combine node sibling d) path

variable {M}

open IncrementalMerkleTree

/-- The loop of `path` collects what the loop of `root` hashes. -/
theorem climb_pathLoop (rounds d : ℕ) (parents : List (Option H)) (node : H) (filler : List H) :
    climb M d node (pathLoop M rounds d parents filler) = rootLoop M rounds d parents node filler := by
  induction rounds generalizing d parents node filler with
  | zero => rfl
  | succ rounds ih =>
    match parents with
    | [] => exact ih _ _ _ _
    | none :: parents => exact ih _ _ _ _
    | some parent :: parents => exact ih _ _ _ _

/-- **From the last leaf up along `path` is `root`.** -/
theorem climb_siblings (M : NodeHash H) (D : ℕ) (filler : List H) {t : IncrementalMerkleTree H}
    {leaf : H} (hlast : t.last = some leaf) (hleft : t.left.isSome) :
    ∃ path, t.siblings M D filler = some path ∧ climb M 0 leaf path = t.root M D filler := by
  obtain ⟨left, right, parents⟩ := t
  obtain ⟨left, rfl⟩ := Option.isSome_iff_exists.1 hleft
  cases right with
  | none =>
    obtain rfl : left = leaf := Option.some.inj hlast
    exact ⟨_, rfl, climb_pathLoop _ _ _ _ _⟩
  | some right =>
    obtain rfl : right = leaf := Option.some.inj hlast
    exact ⟨_, rfl, climb_pathLoop _ _ _ _ _⟩

theorem TreeOf.left_isSome {t : IncrementalMerkleTree H} {leaves : List H} (h : TreeOf M t leaves)
    (hne : leaves ≠ []) : t.left.isSome := by
  cases h with
  | empty => contradiction
  | one a hcollapsed hlast => rfl
  | two a b hcollapsed hlast => rfl

theorem WitnessOf.left_isSome {w : IncrementalWitness H} {leaves after : List H}
    (h : WitnessOf M w leaves after) : w.tree.left.isSome := by
  cases h with
  | filled depth htree hne hfilled => exact htree.left_isSome hne
  | cursor htree hne hfilled hcursor hrest hlt => exact htree.left_isSome hne

/-- `append` of one leaf after the other. -/
def IncrementalWitness.appendAll (M : NodeHash H) (Depth : ℕ) (w : IncrementalWitness H)
    (leaves : List H) : Option (IncrementalWitness H) :=
  leaves.foldlM (IncrementalWitness.append M Depth) w

theorem WitnessOf.appendAll {D : ℕ} {w : IncrementalWitness H} {leaves after : List H}
    (h : WitnessOf M w leaves after) (hD : 1 ≤ D) (more : List H)
    (hlen : (leaves ++ after ++ more).length ≤ 2 ^ D) :
    ∃ w', w.appendAll M D more = some w' ∧ WitnessOf M w' leaves (after ++ more) := by
  induction more generalizing w after with
  | nil => exact ⟨w, rfl, by rwa [append_nil]⟩
  | cons obj more ih =>
    have hlt : (leaves ++ after).length < 2 ^ D := by
      rw [length_append, length_cons] at hlen
      omega
    obtain ⟨w', happend, hof⟩ := h.append hD hlt obj
    obtain ⟨w'', hall, hof'⟩ := ih hof (by simpa using hlen)
    refine ⟨w'', ?_, by rwa [append_cons]⟩
    rw [IncrementalWitness.appendAll, foldlM_cons, happend]
    exact hall

end

/-! ### Bits -/

/-- `convertBytesVectorToVector`: the bits of each byte, the highest first. -/
def convertBytesVectorToVector (bytes : Bytes) : List Bool :=
  bytes.flatMap fun c => (List.range 8).map fun j => c.toNat.testBit (7 - j)

/-- The byte of eight bits. -/
def byteOfBits (bits : List Bool) : UInt8 :=
  UInt8.ofNat (bits.foldl (fun n b => 2 * n + b.toNat) 0)

/-- The bytes of a vector of bits. -/
def bytesOfBits : (count : ℕ) → List Bool → Bytes
  | 0, _ => []
  | count + 1, bits => byteOfBits (bits.take 8) :: bytesOfBits count (bits.drop 8)

theorem byteOfBits_bits (c : UInt8) :
    byteOfBits ((range 8).map fun j => c.toNat.testBit (7 - j)) = c := by
  have hall : ∀ n : Fin 256, byteOfBits ((range 8).map fun j => n.val.testBit (7 - j))
      = UInt8.ofNat n.val := by decide +kernel
  have hbyte := hall ⟨c.toNat, c.toNat_lt⟩
  rwa [UInt8.ofNat_toNat] at hbyte

theorem bytesOfBits_convert (bytes : Bytes) :
    bytesOfBits bytes.length (convertBytesVectorToVector bytes) = bytes := by
  induction bytes with
  | nil => rfl
  | cons c bytes ih =>
    have hbits : ((range 8).map fun j => c.toNat.testBit (7 - j)).length = 8 := by simp
    rw [convertBytesVectorToVector, flatMap_cons, length_cons, bytesOfBits,
      take_left' hbits, drop_left' hbits, byteOfBits_bits]
    exact congrArg _ ih

theorem length_bytesOfBits (count : ℕ) (bits : List Bool) :
    (bytesOfBits count bits).length = count := by
  induction count generalizing bits with
  | zero => rfl
  | succ count ih => rw [bytesOfBits, length_cons, ih]

/-- A hash of 32 bytes from its bits. -/
def hashOfBits (bits : List Bool) : ByteArr 32 := ⟨bytesOfBits 32 bits, length_bytesOfBits 32 bits⟩

theorem hashOfBits_convert (h : ByteArr 32) : hashOfBits (convertBytesVectorToVector h.1) = h := by
  apply Subtype.ext
  have hbytes := bytesOfBits_convert h.1
  rwa [h.2] at hbytes

structure MerklePath where
  authenticationPath : List (List Bool)
  index : List Bool
deriving DecidableEq, Repr

/-- Index bits and siblings from the leaf upwards. -/
def MerklePath.fromLeaf (p : MerklePath) : List (Bool × ByteArr 32) :=
  p.index.reverse.zip (p.authenticationPath.reverse.map hashOfBits)

/-- `MerklePath` of what `path` has collected. -/
def merklePath (siblings : List (Bool × ByteArr 32)) : MerklePath where
  authenticationPath := (siblings.map fun s => convertBytesVectorToVector s.2.1).reverse
  index := (siblings.map Prod.fst).reverse

theorem fromLeaf_merklePath (siblings : List (Bool × ByteArr 32)) :
    (merklePath siblings).fromLeaf = siblings := by
  show zip _ (map hashOfBits _) = siblings
  rw [merklePath, reverse_reverse, reverse_reverse, map_map]
  induction siblings with
  | nil => rfl
  | cons s siblings ih =>
    rw [map_cons, map_cons, zip_cons_cons, ih]
    show ((s.1, hashOfBits (convertBytesVectorToVector s.2.1)) : Bool × ByteArr 32) :: siblings = _
    rw [hashOfBits_convert]

section

variable (M : NodeHash (ByteArr 32))

def IncrementalMerkleTree.path (Depth : ℕ) (t : IncrementalMerkleTree (ByteArr 32))
    (filler : List (ByteArr 32)) : Option MerklePath :=
  (t.siblings M Depth filler).map merklePath

def IncrementalWitness.path (Depth : ℕ) (w : IncrementalWitness (ByteArr 32)) : Option MerklePath :=
  w.tree.path M Depth (w.partialPath M)

/-- **A witness follows its tree.**  The leaves `after` are appended to the tree over `leaves` and to
the witness taken of it.  Then the roots are the same, `element` is the last of `leaves`, and it is
hashed up along `path` to that root. -/
theorem witnessed_leaf {D : ℕ} (hD : 1 ≤ D) {leaves after : List (ByteArr 32)} (hne : leaves ≠ [])
    (hlen : leaves.length + after.length ≤ 2 ^ D) :
    ∃ t t' w p, IncrementalMerkleTree.appendAll M D {} leaves = some t
      ∧ t.appendAll M D after = some t'
      ∧ t.witness.appendAll M D after = some w
      ∧ w.root M D = t'.root M D
      ∧ w.element = some (leaves.getLast hne)
      ∧ w.path M D = some p
      ∧ climb M 0 (leaves.getLast hne) p.fromLeaf = t'.root M D := by
  rw [← length_append] at hlen
  have hlen' : leaves.length ≤ 2 ^ D := by
    rw [length_append] at hlen
    omega
  obtain ⟨t, ht, hof⟩ := (TreeOf.empty (M := M)).appendAll hD leaves hlen'
  rw [nil_append] at hof
  obtain ⟨t', ht', hof'⟩ := hof.appendAll hD after hlen
  obtain ⟨w, hw, hwof⟩ := (hof.witness hne).appendAll hD after (by rwa [append_nil])
  rw [nil_append] at hwof
  have helement : w.element = some (leaves.getLast hne) := by
    rw [hwof.element, getLast?_eq_some_getLast hne]
  have hroot : w.root M D = t'.root M D := by rw [hwof.root hD hlen, hof'.root hD hlen]
  obtain ⟨siblings, hsiblings, hclimb⟩ :=
    climb_siblings M D (w.partialPath M) helement hwof.left_isSome
  refine ⟨t, t', w, merklePath siblings, ht, ht', hw, hroot, helement, ?_, ?_⟩
  · rw [IncrementalWitness.path, IncrementalMerkleTree.path, hsiblings]
    rfl
  · rw [fromLeaf_merklePath, hclimb]
    exact hroot

end

/-- The hash that adds up the first bytes of its children. -/
def sumHash : NodeHash (ByteArr 32) where
  combine left right depth :=
    ⟨(left.1.headD 0 + 2 * right.1.headD 0 + UInt8.ofNat depth) :: List.replicate 31 0, by simp⟩
  uncommitted := ⟨List.replicate 32 0, by simp⟩

/-- A leaf that is told by its first byte. -/
def smallLeaf (b : UInt8) : ByteArr 32 := ⟨b :: List.replicate 31 0, by simp⟩

theorem witnessed_leaf_second :
    1 ≤ 2 ∧ [smallLeaf 1, smallLeaf 2].length + [smallLeaf 3].length ≤ 2 ^ 2 ∧
    ∃ t t' w p, IncrementalMerkleTree.appendAll sumHash 2 {} [smallLeaf 1, smallLeaf 2] = some t
      ∧ t.appendAll sumHash 2 [smallLeaf 3] = some t'
      ∧ t.witness.appendAll sumHash 2 [smallLeaf 3] = some w
      ∧ w.root sumHash 2 = t'.root sumHash 2
      ∧ w.element = some (smallLeaf 2)
      ∧ w.path sumHash 2 = some p
      ∧ climb sumHash 0 (smallLeaf 2) p.fromLeaf = t'.root sumHash 2 :=
  ⟨by omega, by decide,
    witnessed_leaf sumHash (by omega) (cons_ne_nil (smallLeaf 1) [smallLeaf 2])
      (show [smallLeaf 1, smallLeaf 2].length + [smallLeaf 3].length ≤ 2 ^ 2 by decide)⟩

end Zcash
end Komodo
