/-
# The tree of block headers and the candidates for the best chain

`src/src/main.cpp` (`CBlockIndexWorkComparator`, `AddToBlockIndex`,
`AcceptBlockHeader`, `AcceptBlock`, `ReceivedBlockTransactions`,
`FindMostWorkChain`, `PruneBlockIndexCandidates`, `InvalidBlockFound`) and
`src/src/chain.h` (`CBlockIndex::IsValid`, `RaiseValidity`, `CChain`).

A header commits to its parent by hash, so the entry of a block is named by the
hashes from its own down to the genesis block's, and `pprev` is the tail of that
list. The null pointer is the empty list, an ancestor is a suffix, and a walk
along `pprev` is a recursion on the list. What changes during a run, the counters
and the status of an entry, is in a map beside it.
-/

import Komodo.Primitives.Transaction

namespace Komodo
namespace BlockTree

/-- `CBlockIndex*`: the hashes of the block and of its ancestors; `[]` is the null pointer. -/
abbrev BlockPtr := List Uint256

instance : LawfulBEq BlockPtr := inferInstance

def BlockPtr.pprev (p : BlockPtr) : BlockPtr := List.tail p

/-- `nHeight`; `-1` for the null pointer, as `CChain::Height` has it for the empty chain. -/
def BlockPtr.nHeight (p : BlockPtr) : ℤ := p.length - 1

def BLOCK_VALID_TREE : ℕ := 2

def BLOCK_VALID_TRANSACTIONS : ℕ := 3

/-- `BLOCK_VALID_CONTEXT`: its bits are within `BLOCK_VALID_MASK`. -/
def BLOCK_VALID_CONTEXT : ℕ := 6

/-- What of a `CBlockIndex` changes; `validity` is `nStatus & BLOCK_VALID_MASK`, the flags are bits
of `nStatus`. -/
structure CBlockIndex where
  nTx : ℕ := 0
  nChainTx : ℕ := 0
  nSequenceId : ℕ := 0
  validity : ℕ := 0
  haveData : Bool := false
  failedValid : Bool := false
  failedChild : Bool := false
deriving DecidableEq, Repr

namespace CBlockIndex

/-- `nStatus & BLOCK_FAILED_MASK`. -/
def failed (e : CBlockIndex) : Bool := e.failedValid || e.failedChild

/-- `nStatus &= ~BLOCK_FAILED_MASK`. -/
def clearFailed (e : CBlockIndex) : CBlockIndex :=
  { e with failedValid := false, failedChild := false }

def isValid (e : CBlockIndex) (nUpTo : ℕ) : Bool := !e.failed && nUpTo ≤ e.validity

def raiseValidity (e : CBlockIndex) (nUpTo : ℕ) : CBlockIndex :=
  if e.failed then e else if e.validity < nUpTo then { e with validity := nUpTo } else e

end CBlockIndex

/-- What does not change during a run. -/
structure Params where
  hashGenesisBlock : Uint256
  /-- `GetBlockProof` of the header with the hash. -/
  getBlockProof : Uint256 → ℕ
  /-- No header with a target that gives no proof passes `ContextualCheckBlockHeader`. -/
  getBlockProof_pos : ∀ hash, 0 < getBlockProof hash
  /-- Where the entry lies in memory. -/
  address : BlockPtr → ℕ
  address_injective : Function.Injective address
  ASSETCHAINS_CC : ℕ
  MAX_REORG_LENGTH : ℤ

/-- The last notarisation: the hash and the height it names. -/
structure Notarized where
  notarized_hash : Uint256
  notarized_height : ℤ
deriving DecidableEq, Repr

/-- The globals of `main.cpp`. `recorded` is not one of them: it lists what was ever recorded as
notarised, each with the tip of that moment. -/
structure ChainState where
  mapBlockIndex : List BlockPtr := []
  entry : BlockPtr → CBlockIndex := fun _ => {}
  setBlockIndexCandidates : List BlockPtr := []
  mapBlocksUnlinked : List (BlockPtr × BlockPtr) := []
  /-- The tip of `chainActive`. -/
  chainActive : BlockPtr := []
  nBlockSequenceId : ℕ := 1
  last : Option Notarized := none
  recorded : List (Notarized × BlockPtr) := []

def Params.nChainWork (params : Params) (p : BlockPtr) : ℕ := (p.map params.getBlockProof).sum

namespace ChainState

variable (params : Params) (s : ChainState)

/-- Change one entry. -/
def modify (p : BlockPtr) (f : CBlockIndex → CBlockIndex) : ChainState :=
  { s with entry := Function.update s.entry p (f (s.entry p)) }

/-- `setBlockIndexCandidates.erase`. -/
def erase (p : BlockPtr) : ChainState :=
  { s with setBlockIndexCandidates := s.setBlockIndexCandidates.filter (· ≠ p) }

/-- `setBlockIndexCandidates.insert`. -/
def insert (p : BlockPtr) : ChainState :=
  { s with setBlockIndexCandidates := p :: s.setBlockIndexCandidates.filter (· ≠ p) }

/-- `CBlockIndexWorkComparator`: whether `pa` is worse than `pb`. -/
def valueComp (pa pb : BlockPtr) : Bool :=
  if params.nChainWork pa > params.nChainWork pb then false
  else if params.nChainWork pa < params.nChainWork pb then true
  else if (s.entry pa).nSequenceId < (s.entry pb).nSequenceId then false
  else if (s.entry pa).nSequenceId > (s.entry pb).nSequenceId then true
  else if params.address pa < params.address pb then false
  else if params.address pa > params.address pb then true
  else false

def contains (p : BlockPtr) : Bool := p.isSuffixOf s.chainActive

/-- `mapBlockIndex.find`. -/
def find (hash : Uint256) : Option BlockPtr := s.mapBlockIndex.find? fun p => p.head? = some hash

/-! ### Headers and blocks arrive -/

/-- `AddToBlockIndex` for a hash that is not in the map. -/
def addToBlockIndex (hash : Uint256) (prev : BlockPtr) : ChainState :=
  let p : BlockPtr := hash :: prev
  { s with
    mapBlockIndex := p :: s.mapBlockIndex
    entry := Function.update s.entry p (({} : CBlockIndex).raiseValidity BLOCK_VALID_TREE) }

/-- `AcceptBlockHeader`; `checks` says what `CheckBlockHeader` and `ContextualCheckBlockHeader`
say. -/
def acceptBlockHeader (hash hashPrevBlock : Uint256) (checks : Bool) : Bool × ChainState :=
  match s.find hash with
  | some p =>
    if (s.entry p).failed then
      if params.ASSETCHAINS_CC = 0 then (false, s)
      else (true, s.modify p CBlockIndex.clearFailed)
    else (true, s)
  | none =>
    if hash = params.hashGenesisBlock then
      if checks then (true, s.addToBlockIndex hash []) else (false, s)
    else
      match s.find hashPrevBlock with
      | none => (false, s)
      | some prev =>
        if (s.entry prev).failed then (false, s)
        else if checks then (true, s.addToBlockIndex hash prev) else (false, s)

/-- What the loop of `ReceivedBlockTransactions` does with one block. -/
def link (p : BlockPtr) : ChainState :=
  let nChainTx := (if p.pprev = [] then 0 else (s.entry p.pprev).nChainTx) + (s.entry p).nTx
  let s₁ := s.modify p fun e => { e with nChainTx, nSequenceId := s.nBlockSequenceId }
  let s₂ := { s₁ with nBlockSequenceId := s.nBlockSequenceId + 1 }
  if s₂.chainActive = [] ∨ s₂.valueComp params p s₂.chainActive = false then s₂.insert p else s₂

/-- The loop of `ReceivedBlockTransactions` over the blocks that can be connected now. -/
def processQueue : (fuel : ℕ) → List BlockPtr → ChainState → ChainState
  | 0, _, s => s
  | _ + 1, [], s => s
  | fuel + 1, p :: queue, s =>
    let s := s.link params p
    let (range, rest) := s.mapBlocksUnlinked.partition fun (a, _) => a = p
    processQueue fuel (queue ++ range.map Prod.snd) { s with mapBlocksUnlinked := rest }

def receivedBlockTransactions (p : BlockPtr) (nTx : ℕ) : ChainState :=
  let s₁ := s.modify p fun e =>
    { e with nTx, nChainTx := 0, haveData := true }.raiseValidity BLOCK_VALID_TRANSACTIONS
  if p.pprev = [] ∨ (s₁.entry p.pprev).nChainTx ≠ 0 then
    -- each turn but the first takes a block from `mapBlocksUnlinked`
    processQueue params (s₁.mapBlocksUnlinked.length + 1) [p] s₁
  else if (s₁.entry p.pprev).isValid BLOCK_VALID_TREE then
    { s₁ with mapBlocksUnlinked := s₁.mapBlocksUnlinked ++ [(p.pprev, p)] }
  else s₁

/-- What the checks in `AcceptBlock` say of a block: it has that many transactions, and whether
`ContextualCheckBlock` passed; or it is invalid; or something else failed. -/
inductive BlockVerdict
  | ok (nTx : ℕ) (contextual : Bool)
  | invalid
  | error
deriving DecidableEq, Repr

def BlockVerdict.isOk : BlockVerdict → Bool
  | .ok .. => true
  | _ => false

/-- `AcceptBlock` once the header is known, for a block that is not there yet. -/
def acceptBlock (p : BlockPtr) (verdict : BlockVerdict) : ChainState :=
  if p ∈ s.mapBlockIndex ∧ (s.entry p).haveData = false then
    match verdict with
    | .ok nTx contextual =>
      -- `CheckBlock` refuses a block without transactions
      if nTx = 0 then s
      else
        let s := if contextual then
          s.modify p fun e => { e with validity := e.validity ||| BLOCK_VALID_CONTEXT } else s
        s.receivedBlockTransactions params p nTx
    | .invalid => s.modify p fun e => { e with failedValid := true }
    | .error => s
  else s

/-! ### The best candidate -/

/-- `*setBlockIndexCandidates.rbegin()`. -/
def rbegin : BlockPtr :=
  s.setBlockIndexCandidates.foldl (fun b p => if s.valueComp params b p then p else b) []

/-- The first block on the way to the active chain that is invalid or without data. -/
def pindexTest : BlockPtr → Option BlockPtr
  | [] => none
  | hash :: prev =>
    if s.contains (hash :: prev) then none
    else if (s.entry (hash :: prev)).failed || !(s.entry (hash :: prev)).haveData then
      some (hash :: prev)
    else pindexTest prev

/-- The blocks from `p` down to, and without, the ancestor `stop`. -/
def above (stop : BlockPtr) : BlockPtr → List BlockPtr
  | [] => []
  | hash :: prev => if hash :: prev = stop then [] else (hash :: prev) :: above stop prev

/-- What `FindMostWorkChain` does with one block on top of a bad one. -/
def removeFailed (fFailedChain : Bool) (s : ChainState) (p : BlockPtr) : ChainState :=
  let s := if fFailedChain then s.modify p fun e => { e with failedChild := true }
    else { s with mapBlocksUnlinked := s.mapBlocksUnlinked ++ [(p.pprev, p)] }
  s.erase p

/-- `FindMostWorkChain`: the result and the state; `none` when the turns do not suffice. -/
def findMostWorkChain : (turns : ℕ) → ChainState → Option (BlockPtr × ChainState)
  | 0, _ => none
  | turns + 1, s =>
    let pindexNew := s.rbegin params
    match s.pindexTest pindexNew with
    | none => some (pindexNew, s)
    | some bad =>
      let s := (above bad pindexNew).foldl (removeFailed (s.entry bad).failed) s
      findMostWorkChain turns (s.erase bad)

/-- `PruneBlockIndexCandidates`: the set is in the order of the comparator, so what is worse than
the tip comes first. -/
def pruneBlockIndexCandidates : ChainState :=
  { s with setBlockIndexCandidates :=
      s.setBlockIndexCandidates.filter fun p => !s.valueComp params p s.chainActive }

/-- `InvalidBlockFound` where the block cannot be a corrupted one. -/
def invalidBlockFound (p : BlockPtr) : ChainState :=
  (s.modify p fun e => { e with failedValid := true }).erase p

end ChainState

end BlockTree
end Komodo
