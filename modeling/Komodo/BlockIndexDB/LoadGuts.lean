/-
# The block index on disk

`CBlockIndex` and `CDiskBlockIndex` of `src/src/chain.h`, `InsertBlockIndex` of `src/src/main.cpp` and
`CBlockTreeDB::LoadBlockIndexGuts` of `src/src/txdb.cpp`.

An entry of `mapBlockIndex` is never freed or moved, so a pointer to it is the hash under which it is
filed.  A null pointer that is written through is the end of the program: `insertRecord` has no result
for a record whose hash is null.
-/

import Komodo.Lib.WorkQueue
import Komodo.Primitives.Transaction
import Mathlib.Data.Finmap

namespace Komodo
namespace BlockIndexDB

structure CBlockHeader where
  nVersion : ℤ := 4
  hashPrevBlock : Uint256 := 0
  hashMerkleRoot : Uint256 := 0
  hashFinalSaplingRoot : Uint256 := 0
  nTime : ℕ := 0
  nBits : ℕ := 0
  nNonce : Uint256 := 0
  nSolution : List ℕ := []
deriving DecidableEq, Repr

/-- `CBlockIndex`, with the defaults of `SetNull`. -/
structure CBlockIndex where
  pprev : Option Uint256 := none
  nHeight : ℤ := 0
  nNotaryPay : ℤ := 0
  segid : ℤ := -2
  nFile : ℤ := 0
  nDataPos : ℕ := 0
  nUndoPos : ℕ := 0
  nChainWork : ℕ := 0
  nTx : ℕ := 0
  nChainTx : ℕ := 0
  nStatus : ℕ := 0
  nCachedBranchId : Option ℕ := none
  hashSproutAnchor : Uint256 := 0
  hashFinalSproutRoot : Uint256 := 0
  nChainSupplyDelta : Option ℤ := none
  nChainTotalSupply : Option ℤ := none
  nTransparentValue : Option ℤ := none
  nChainTransparentValue : Option ℤ := none
  nBurnedAmountDelta : Option ℤ := none
  nChainTotalBurned : Option ℤ := none
  nSproutValue : Option ℤ := none
  nChainSproutValue : Option ℤ := none
  nSaplingValue : ℤ := 0
  nChainSaplingValue : Option ℤ := none
  nVersion : ℤ := 0
  hashMerkleRoot : Uint256 := 0
  hashFinalSaplingRoot : Uint256 := 0
  nTime : ℕ := 0
  nBits : ℕ := 0
  nNonce : Uint256 := 0
deriving DecidableEq, Repr

/-- `CDiskBlockIndex`: an entry with the hash of its parent and the Equihash solution. -/
structure CDiskBlockIndex extends CBlockIndex where
  hashPrev : Uint256 := 0
  nSolution : List ℕ := []
deriving DecidableEq, Repr

def CDiskBlockIndex.getBlockHeader (d : CDiskBlockIndex) : CBlockHeader where
  nVersion := d.nVersion
  hashPrevBlock := d.hashPrev
  hashMerkleRoot := d.hashMerkleRoot
  hashFinalSaplingRoot := d.hashFinalSaplingRoot
  nTime := d.nTime
  nBits := d.nBits
  nNonce := d.nNonce
  nSolution := d.nSolution

/-- `mapBlockIndex`. -/
abbrev BlockMap := Finmap fun _ : Uint256 => CBlockIndex

/-- The assignments to `pindexNew`; `pprev` is what `InsertBlockIndex(diskindex.hashPrev)` gives. -/
def CDiskBlockIndex.assignTo (diskindex : CDiskBlockIndex) (pindexNew : CBlockIndex) : CBlockIndex :=
  { pindexNew with
    pprev := if diskindex.hashPrev = 0 then none else some diskindex.hashPrev
    nHeight := diskindex.nHeight
    nFile := diskindex.nFile
    nDataPos := diskindex.nDataPos
    nUndoPos := diskindex.nUndoPos
    hashSproutAnchor := diskindex.hashSproutAnchor
    nVersion := diskindex.nVersion
    hashMerkleRoot := diskindex.hashMerkleRoot
    hashFinalSaplingRoot := diskindex.hashFinalSaplingRoot
    nTime := diskindex.nTime
    nBits := diskindex.nBits
    nNonce := diskindex.nNonce
    nStatus := diskindex.nStatus
    nCachedBranchId := diskindex.nCachedBranchId
    nTx := diskindex.nTx
    nChainSupplyDelta := diskindex.nChainSupplyDelta
    nTransparentValue := diskindex.nTransparentValue
    nBurnedAmountDelta := diskindex.nBurnedAmountDelta
    nSproutValue := diskindex.nSproutValue
    nSaplingValue := diskindex.nSaplingValue
    segid := diskindex.segid
    nNotaryPay := diskindex.nNotaryPay }

/-- `InsertBlockIndex`: the map with an entry for the hash, if that is not null. -/
def insertBlockIndex (hash : Uint256) (m : BlockMap) : BlockMap :=
  if hash = 0 ∨ hash ∈ m then m else m.insert hash {}

section
variable (getHash : CBlockHeader → Uint256)

/-- `CDiskBlockIndex::GetBlockHash`; `getHash` is `CBlockHeader::GetHash`. -/
def CDiskBlockIndex.getBlockHash (d : CDiskBlockIndex) : Uint256 := getHash d.getBlockHeader

/-- What both loaders do with a record. -/
def insertRecord (diskindex : CDiskBlockIndex) (m : BlockMap) : Option BlockMap :=
  let hash := diskindex.getBlockHash getHash
  if hash = 0 then none
  else
    let m := insertBlockIndex diskindex.hashPrev (insertBlockIndex hash m)
    some (m.insert hash (diskindex.assignTo ((m.lookup hash).getD {})))

def DB_BLOCK_INDEX : Char := 'b'

/-- Where a database cursor stands: the key and the value, when they can be read. -/
structure CursorEntry where
  key : Option (Char × Uint256)
  value : Option CDiskBlockIndex

/-- The record under the cursor, or what the loop over the records returns there. -/
def CursorEntry.record (e : CursorEntry) : Except Bool CDiskBlockIndex :=
  match e.key with
  | some (c, _) =>
    if c = DB_BLOCK_INDEX then
      match e.value with
      | some diskindex => .ok diskindex
      | none => .error false
    else .error true
  | none => .error true

/-- `CBlockTreeDB::LoadBlockIndexGuts` from the turn `count`; `shutdownRequested` says whether that is
so in a turn. -/
def loadBlockIndexGuts (shutdownRequested : ℕ → Bool) :
    (count : ℕ) → List CursorEntry → BlockMap → Option (Bool × BlockMap)
  | _, [], m => some (true, m)
  | count, e :: pcursor, m =>
    if shutdownRequested count then some (false, m)
    else
      match e.record with
      | .error r => some (r, m)
      | .ok diskindex =>
        (insertRecord getHash diskindex m).bind
          (loadBlockIndexGuts shutdownRequested (count + 1) pcursor)

/-! ### What the records leave in the map -/

open WorkQueue (doAll doAll_append)

variable {getHash}

theorem mem_insertBlockIndex {hash h : Uint256} {m : BlockMap} :
    h ∈ insertBlockIndex hash m ↔ h ∈ m ∨ h = hash ∧ hash ≠ 0 := by
  unfold insertBlockIndex
  split_ifs with hskip
  · constructor
    · exact Or.inl
    · rintro (h' | ⟨rfl, hne⟩)
      · exact h'
      · exact hskip.resolve_left hne
  · rw [Finmap.mem_insert, or_comm]
    exact or_congr_right ⟨fun h' => ⟨h', fun h0 => hskip (Or.inl h0)⟩, And.left⟩

theorem lookup_insertBlockIndex {hash h : Uint256} {m : BlockMap} :
    (insertBlockIndex hash m).lookup h =
      if h ∉ m ∧ h = hash ∧ hash ≠ 0 then some {} else m.lookup h := by
  unfold insertBlockIndex
  split_ifs with hskip hnew hnew
  · obtain ⟨hmem, rfl, hne⟩ := hnew
    exact absurd (hskip.resolve_left hne) hmem
  · rfl
  · obtain ⟨-, rfl, -⟩ := hnew
    exact Finmap.lookup_insert m
  · have hne : h ≠ hash := by
      rintro rfl
      exact hnew ⟨fun hmem => hskip (Or.inr hmem), rfl, fun h0 => hskip (Or.inl h0)⟩
    exact Finmap.lookup_insert_of_ne m hne

/-- The last record with the hash. -/
def lastRecord (getHash : CBlockHeader → Uint256) (ds : List CDiskBlockIndex) (h : Uint256) :
    Option CDiskBlockIndex :=
  ds.reverse.find? fun d => d.getBlockHash getHash = h

/-- What the records leave at a hash: the fields of the last record with it, an empty entry for a
parent that has no record, or nothing. -/
def entryOf (getHash : CBlockHeader → Uint256) (ds : List CDiskBlockIndex) (h : Uint256) :
    Option CBlockIndex :=
  match lastRecord getHash ds h with
  | some d => some (d.assignTo {})
  | none => if h ≠ 0 ∧ ∃ d ∈ ds, d.hashPrev = h then some {} else none

theorem lastRecord_append (ds : List CDiskBlockIndex) (d : CDiskBlockIndex) (h : Uint256) :
    lastRecord getHash (ds ++ [d]) h =
      if d.getBlockHash getHash = h then some d else lastRecord getHash ds h := by
  rw [lastRecord, List.reverse_append, List.reverse_singleton, List.singleton_append,
    List.find?_cons]
  by_cases hd : d.getBlockHash getHash = h <;> simp [hd, lastRecord]

/-- The step lemma: one record more. -/
theorem lookup_insertRecord {ds : List CDiskBlockIndex} {d : CDiskBlockIndex} {m m' : BlockMap}
    (hm : ∀ h, m.lookup h = entryOf getHash ds h) (hd : insertRecord getHash d m = some m')
    (h : Uint256) : m'.lookup h = entryOf getHash (ds ++ [d]) h := by
  unfold insertRecord at hd
  dsimp only at hd
  split_ifs at hd with hnull
  cases hd
  by_cases heq : h = d.getBlockHash getHash
  · -- the entry was empty or had the fields of another record, all of which are overwritten
    subst heq
    have hold : ∀ e, m.lookup (d.getBlockHash getHash) = some e → d.assignTo e = d.assignTo {} := by
      intro e he
      rw [hm, entryOf] at he
      split at he
      · cases he
        rfl
      · split_ifs at he
        cases he
        rfl
    rw [Finmap.lookup_insert, entryOf, lastRecord_append, if_pos rfl]
    have hentry : d.assignTo (((insertBlockIndex d.hashPrev
        (insertBlockIndex (d.getBlockHash getHash) m)).lookup (d.getBlockHash getHash)).getD {}) =
          d.assignTo {} := by
      rw [lookup_insertBlockIndex, lookup_insertBlockIndex]
      split_ifs
      · rfl
      · rfl
      · cases hlook : m.lookup (d.getBlockHash getHash) with
        | none => rfl
        | some e => exact hold e hlook
    rw [hentry]
  · -- another entry: it may be the one of the parent
    have hbefore : h ∈ insertBlockIndex (d.getBlockHash getHash) m ↔ h ∈ m := by
      rw [mem_insertBlockIndex]
      exact or_iff_left fun hc => heq hc.1
    have hlook : (insertBlockIndex (d.getBlockHash getHash) m).lookup h = entryOf getHash ds h := by
      rw [lookup_insertBlockIndex, if_neg fun hc => heq hc.2.1, hm]
    have hmem : h ∈ m ↔ (entryOf getHash ds h).isSome := by rw [← hm, Finmap.lookup_isSome]
    rw [Finmap.lookup_insert_of_ne _ heq, lookup_insertBlockIndex, hlook]
    simp only [hbefore, hmem]
    rw [entryOf, entryOf, lastRecord_append, if_neg (Ne.symm heq)]
    cases hlast : lastRecord getHash ds h with
    | some d' => exact if_neg fun hc => hc.1 rfl
    | none =>
      simp only [List.mem_append, List.mem_singleton, or_and_right, exists_or, exists_eq_left]
      by_cases h0 : h = 0
      · subst h0
        simp [eq_comm]
      · by_cases hold : ∃ d' ∈ ds, d'.hashPrev = h
        · simp [h0, hold]
        · by_cases hprev : h = d.hashPrev
          · subst hprev
            simp [h0, hold]
          · simp [h0, hold, hprev, Ne.symm hprev]

theorem lookup_doAll {ds : List CDiskBlockIndex} {m : BlockMap}
    (h : doAll (insertRecord getHash) ds ∅ = some m) (hash : Uint256) :
    m.lookup hash = entryOf getHash ds hash := by
  induction ds using List.reverseRecOn generalizing m hash with
  | nil =>
    cases h
    simp [entryOf, lastRecord]
  | append_singleton ds d ih =>
    rw [doAll_append] at h
    obtain ⟨m', hm', hd⟩ := Option.bind_eq_some_iff.mp h
    have hone : insertRecord getHash d m' = some m := by simpa [doAll] using hd
    exact lookup_insertRecord (fun hash => ih hm' hash) hone hash

theorem doAll_isSome (ds : List CDiskBlockIndex) (m : BlockMap) :
    (doAll (insertRecord getHash) ds m).isSome ↔ ∀ d ∈ ds, d.getBlockHash getHash ≠ 0 := by
  induction ds generalizing m with
  | nil => simp [doAll]
  | cons d ds ih =>
    have hcons : doAll (insertRecord getHash) (d :: ds) m =
        (insertRecord getHash d m).bind (doAll (insertRecord getHash) ds) := rfl
    rw [hcons, List.forall_mem_cons]
    by_cases hd : d.getBlockHash getHash = 0
    · simp [insertRecord, hd]
    · rw [insertRecord]
      dsimp only
      rw [if_neg hd, Option.bind_some, ih]
      exact (and_iff_right hd).symm

end

end BlockIndexDB
end Komodo
