/-
# Changing the active chain

`src/src/main.cpp` (`DisconnectTip`, `ConnectTip`, `ActivateBestChainStep`,
`ActivateBestChain`, `InvalidateBlock`, `ReconsiderBlock`), the part of
`komodo_voutupdate` of `src/src/komodo.cpp` that records a notarisation, and
`komodo_state::NotarizedHeight` of `src/src/komodo_structs.cpp`.

What `ConnectBlock` finds in a block and whether the files can be read is given with each call
(`Disk`). `ConnectBlock` calls `komodo_voutupdate` when the block has passed, for each output with
a notarisation signed by enough notaries; the notarisations of a block are given with it. A call
of `ActivateBestChain` is one or more turns `activateBestChain` of its loop, between which the
lock is released.
-/

import Komodo.BlockTree.BlockIndex

namespace Komodo
namespace BlockTree

/-- What `ConnectTip` meets: the block passes, with these notarisations in it; it violates a rule
(`CorruptionPossible` or not); or something fails after the block has passed, or before. -/
inductive ConnectResult
  | connected (notarisations : List Notarized)
  | invalid (corruptionPossible : Bool)
  | error (notarisations : List Notarized)
deriving DecidableEq, Repr

/-- What a call meets outside of the block index. -/
structure Disk where
  /-- `ReadBlockFromDisk`, `DisconnectBlock` and what follows in `DisconnectTip`. -/
  disconnects : BlockPtr → Bool := fun _ => true
  connects : BlockPtr → ConnectResult := fun _ => .connected []
  isInitialBlockDownload : Bool := false

/-- How a call ends; `pastNotarized` is the rejection with `past-notarized-height`. -/
inductive Outcome
  | ok
  | pastNotarized
  | failed
deriving DecidableEq, Repr

namespace ChainState

variable (params : Params) (disk : Disk) (s : ChainState)

/-! ### Notarisations -/

/-- `komodo_state::NotarizedHeight`: it forgets a notarisation whose block is not in the index. -/
def notarizedHeight : Option Notarized × ChainState :=
  match s.last with
  | none => (none, s)
  | some n => if (s.find n.notarized_hash).isNone then (none, { s with last := none }) else (some n, s)

/-- `komodo_validate_chain`. -/
def validateChain (n : Notarized) : Bool :=
  disk.isInitialBlockDownload ||
    (s.find n.notarized_hash).elim false fun p => p.nHeight = n.notarized_height

/-- The end of `komodo_voutupdate`, for a notarisation in a block of the given height. -/
def voutUpdate (height : ℤ) (s : ChainState) (n : Notarized) : ChainState :=
  if s.validateChain disk n = true ∧
      n.notarized_height > s.last.elim 0 Notarized.notarized_height ∧ n.notarized_height < height then
    { s with last := some n, recorded := s.recorded ++ [(n, s.chainActive)] }
  else s

/-! ### One block -/

def disconnectTip : Outcome × ChainState :=
  let (n, s) := s.notarizedHeight
  if n.isSome ∧ s.chainActive.head? = n.map Notarized.notarized_hash then (.pastNotarized, s)
  else if disk.disconnects s.chainActive then (.ok, { s with chainActive := s.chainActive.pprev })
  else (.failed, s)

/-- `ConnectTip` for a child of the tip. -/
def connectTip (p : BlockPtr) : ConnectResult × ChainState :=
  match disk.connects p with
  | .connected notarisations =>
    (.connected notarisations,
      { notarisations.foldl (voutUpdate disk p.nHeight) s with chainActive := p })
  | .invalid corruptionPossible =>
    (.invalid corruptionPossible, if corruptionPossible then s else s.invalidBlockFound p)
  | .error notarisations =>
    (.error notarisations, notarisations.foldl (voutUpdate disk p.nHeight) s)

/-! ### By hand -/

/-- The loop of `InvalidateBlock` that leaves the chain with the block; it ends with the block off
the chain, or with a failure. -/
def invalidateLoop (p : BlockPtr) : (fuel : ℕ) → ChainState → Outcome × ChainState
  | 0, s => (.ok, s)
  | fuel + 1, s =>
    if s.contains p then
      let s := (s.modify s.chainActive fun e => { e with failedChild := true }).erase s.chainActive
      match s.disconnectTip disk with
      | (.ok, s) => invalidateLoop p fuel s
      | r => r
    else (.ok, s)

/-- The loop of `InvalidateBlock` over `mapBlockIndex`. -/
def insertValid : ChainState :=
  (s.mapBlockIndex.filter fun p => (s.entry p).isValid BLOCK_VALID_TRANSACTIONS &&
    (s.entry p).nChainTx ≠ 0 && !s.valueComp params p s.chainActive).foldl insert s

def invalidateBlock (p : BlockPtr) : Outcome × ChainState :=
  let s := (s.modify p fun e => { e with failedValid := true }).erase p
  match invalidateLoop disk p s.chainActive.length s with
  | (.ok, s) => (.ok, s.insertValid params)
  | r => r

/-- One turn of the loop of `ReconsiderBlock` over `mapBlockIndex`. -/
def reconsider (p : BlockPtr) (s : ChainState) (q : BlockPtr) : ChainState :=
  if (s.entry q).isValid BLOCK_VALID_TRANSACTIONS = false ∧ p.isSuffixOf q then
    let s := s.modify q CBlockIndex.clearFailed
    if (s.entry q).isValid BLOCK_VALID_TRANSACTIONS ∧ (s.entry q).nChainTx ≠ 0 ∧
        s.valueComp params s.chainActive q then s.insert q
    else s
  else s

/-- The second loop of `ReconsiderBlock`, from the block down to genesis. -/
def clearAncestors : BlockPtr → ChainState → ChainState
  | [], s => s
  | hash :: prev, s => clearAncestors prev (s.modify (hash :: prev) CBlockIndex.clearFailed)

def reconsiderBlock (p : BlockPtr) : ChainState :=
  clearAncestors p (s.mapBlockIndex.foldl (reconsider params p) s)

/-! ### A step towards the best chain -/

def findFork : BlockPtr → BlockPtr
  | [] => []
  | hash :: prev => if s.contains (hash :: prev) then hash :: prev else findFork prev

/-- The loop of `ActivateBestChainStep` that disconnects down to the fork. -/
def disconnectTo (fork : BlockPtr) : (fuel : ℕ) → ChainState → Outcome × ChainState
  | 0, s => (.ok, s)
  | fuel + 1, s =>
    if s.chainActive ≠ [] ∧ s.chainActive ≠ fork then
      match s.disconnectTip disk with
      | (.ok, s) => disconnectTo fork fuel s
      | r => r
    else (.ok, s)

/-- The loop of `ActivateBestChainStep` that connects, lowest block first. -/
def connectPath (oldTip : BlockPtr) : List BlockPtr → ChainState → Outcome × ChainState
  | [], s => (.ok, s)
  | p :: path, s =>
    match s.connectTip disk p with
    | (.connected _, s) =>
      let s := s.pruneBlockIndexCandidates params
      if oldTip = [] ∨ params.nChainWork s.chainActive > params.nChainWork oldTip then (.ok, s)
      else connectPath oldTip path s
    | (.invalid _, s) => (.ok, s)
    | (.error _, s) => (.failed, s)

def activateBestChainStep (fSkipdpow : Bool) (mostWork : BlockPtr) : Outcome × ChainState :=
  let oldTip := s.chainActive
  let fork := s.findFork mostWork
  let (n, s) := s.notarizedHeight
  let notarizedht := n.elim 0 Notarized.notarized_height
  -- "stop trying to reorg if the reorged chain is before last notarized height"
  if !fSkipdpow ∧ fork ≠ [] ∧ oldTip.nHeight > notarizedht ∧ fork.nHeight < notarizedht then
    (.pastNotarized, (s.invalidateBlock params disk mostWork).2)
  else if oldTip ≠ [] ∧ oldTip.nHeight - fork.nHeight > params.MAX_REORG_LENGTH then (.failed, s)
  else
    match disconnectTo disk fork oldTip.length s with
    | (.ok, s) => connectPath params disk oldTip (above fork mostWork).reverse s
    | r => r

/-- `FindMostWorkChain` with as many turns as it can need. -/
def mostWork : BlockPtr × ChainState :=
  (findMostWorkChain params (s.setBlockIndexCandidates.length + 1) s).getD ([], s)

/-- A turn of `ActivateBestChain`. -/
def activateBestChain (fSkipdpow : Bool) : Outcome × ChainState :=
  let (pindexMostWork, s) := s.mostWork params
  if pindexMostWork = [] ∨ pindexMostWork = s.chainActive then (.ok, s)
  else s.activateBestChainStep params disk fSkipdpow pindexMostWork

end ChainState

/-! ### Runs -/

/-- What happens to the node. -/
inductive Op
  | acceptBlockHeader (hash hashPrevBlock : Uint256) (checks : Bool)
  | acceptBlock (p : BlockPtr) (verdict : ChainState.BlockVerdict)
  | activateBestChain (fSkipdpow : Bool) (disk : Disk)
  | invalidateBlock (p : BlockPtr) (disk : Disk)
  | reconsiderBlock (p : BlockPtr)

/-- One step; `invalidateblock` and `reconsiderblock` look their block up in `mapBlockIndex`. -/
def ChainState.step (params : Params) (s : ChainState) : Op → ChainState
  | .acceptBlockHeader hash hashPrevBlock checks =>
    (s.acceptBlockHeader params hash hashPrevBlock checks).2
  | .acceptBlock p verdict => s.acceptBlock params p verdict
  | .activateBestChain fSkipdpow disk => (s.activateBestChain params disk fSkipdpow).2
  | .invalidateBlock p disk =>
    if p ∈ s.mapBlockIndex then (s.invalidateBlock params disk p).2 else s
  | .reconsiderBlock p => if p ∈ s.mapBlockIndex then s.reconsiderBlock params p else s

/-- A run from the start. -/
def run (params : Params) (ops : List Op) : ChainState :=
  ops.foldl (ChainState.step params) {}

end BlockTree
end Komodo
