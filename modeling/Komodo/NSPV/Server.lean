/-
# The server of the nSPV protocol

The handlers of `src/src/komodo_nSPV_fullnode.h` that read the active chain, the notarizations and
single transactions, with `ScanNotarisationsDB` of `src/src/notarisationdb.cpp`,
`NSPV_opretextract` and `NSPV_notarizationextract` of `src/src/komodo_nSPV.h`, and the writing half
of `CMerkleBlock`.

Where the code reads an array or follows a pointer, so does the model: there is no value where
there is nothing to read, and a write outside a buffer ends the run (`BadAccess`).  A null pointer
that is tested is an `Option`.

The indexes, the disk and the mempool are parameters.
-/

import Komodo.CrossChain.NotarisationDB
import Komodo.NSPV.Client

namespace Komodo
namespace NSPV

open Streams
open Wire hiding CTransaction
open BlockIndexDB hiding CBlockIndex

/-- What is read or written where there is nothing. -/
inductive BadAccess
  /-- A byte of the request. -/
  | request
  /-- `coinaddr` or `funcids`. -/
  | buffer
  /-- An entry of the active chain. -/
  | blockIndex
  /-- An output of a transaction. -/
  | output
  /-- A byte of an opreturn. -/
  | opret
deriving DecidableEq

/-- `n` bytes from position `i`. -/
def slice (fault : BadAccess) (bs : Bytes) (i n : ℕ) : Except BadAccess Bytes :=
  if i + n ≤ bs.length then pure ((bs.drop i).take n) else throw fault

/-- The byte at position `i`. -/
def byteAt (fault : BadAccess) (bs : Bytes) (i : ℕ) : Except BadAccess UInt8 :=
  match bs[i]? with
  | some b => pure b
  | none => throw fault

/-- `vout[i]`. -/
def outputAt (vout : List CTxOut) (i : ℤ) : Except BadAccess CTxOut :=
  match at? vout i with
  | some out => pure out
  | none => throw .output

def NSPV_PROTOCOL_VERSION : ℕ := 4

/-! ### Responses -/

/-- `NSPV_ntz`. -/
structure Ntz where
  blockhash : Uint256 := 0
  txid : Uint256 := 0
  othertxid : Uint256 := 0
  height : ℤ := 0
  txidheight : ℤ := 0
  timestamp : ℕ := 0

namespace Server

/-- `NSPV_ntzsresp`. -/
structure NtzsResp where
  prevntz : Ntz := {}
  nextntz : Ntz := {}
  reqheight : ℤ := 0

/-- `NSPV_inforesp`. -/
structure InfoResp where
  notarization : Ntz
  blockhash : Uint256
  height : ℤ
  hdrheight : ℤ
  H : EquiHdr
  version : ℕ

/-- `NSPV_txproof`. -/
structure TxProof where
  txid : Uint256 := 0
  unspentvalue : ℤ := 0
  height : ℤ := 0
  vout : ℤ := 0
  tx : Bytes := []
  txproof : Bytes := []
  hashblock : Uint256 := 0

/-- `NSPV_ntzsproofresp`. -/
structure NtzsProofResp where
  hdrs : List EquiHdr
  prevht : ℤ
  nextht : ℤ
  prevtxid : Uint256
  nexttxid : Uint256
  prevtxidht : ℤ
  nexttxidht : ℤ
  prevntz : Bytes
  nextntz : Bytes

/-- `NSPV_spentinfo`. -/
structure SpentInfo where
  spent : TxProof := {}
  txid : Uint256
  vout : ℤ
  spentvini : ℤ := -1

/-- `NSPV_broadcastresp`. -/
structure BroadcastResp where
  txid : Uint256 := 0
  retcode : ℤ

end Server

/-! ### The state of the node -/

/-- `CBlockIndex`: an entry of the active chain.  `nSolution` is what lies where the solution that
`GetBlockHeader` gives begins. -/
structure ChainEntry where
  blockHash : Uint256
  nVersion : ℤ
  hashMerkleRoot : Uint256
  hashFinalSaplingRoot : Uint256
  nTime : ℕ
  nBits : ℕ
  nNonce : Uint256
  nSolution : ByteArr 1344

/-- A row of the index of unspent outputs. -/
structure Unspent where
  txhash : Uint256
  index : ℤ
  satoshis : ℤ
  blockHeight : ℤ

/-- A row of the address index. -/
structure AddressTx where
  txhash : Uint256
  index : ℤ
  satoshis : ℤ
  blockHeight : ℤ

/-- What a search for a transaction leaves: whether it succeeds, `txOut` and `hashBlock`. -/
structure TxSearch where
  found : Bool
  tx : Wire.CTransaction
  hashBlock : Uint256

/-- A node that serves. -/
structure Server extends Client where
  /-- `chainActive`, the genesis block first. -/
  chain : List ChainEntry
  /-- `chainName`, as notarizations name the chain. -/
  chainName : Bytes
  getBlockNotarisations : Uint256 → Option (List Notarisation)
  /-- `GetTransaction` without the slow search, and `myGetTransaction`.  A failure may leave the
  transaction that was in `txOut`, or another one. -/
  getTransaction : Uint256 → Wire.CTransaction → TxSearch
  /-- `komodo_blockheight`. -/
  blockheight : Uint256 → ℤ
  /-- `komodo_blockload`. -/
  blockload : ChainEntry → Option (CBlockHeader × List Wire.CTransaction)
  /-- `CCgettxout` with the mempool. -/
  gettxout : Uint256 → ℤ → ℤ
  /-- `CCgetspenttxid`: the transaction, the input and the height. -/
  getspenttxid : Uint256 → ℤ → Option (Uint256 × ℤ × ℤ)
  /-- `myAddtomempool`. -/
  addtomempool : Wire.CTransaction → Bool
  /-- `SetCCunspents`. -/
  ccUnspents : Bytes → Bool → List Unspent
  /-- `SetCCtxids`. -/
  ccTxids : Bytes → Bool → List AddressTx
  /-- `myIsutxo_spentinmempool`. -/
  isutxoSpentinmempool : Uint256 → ℤ → Bool
  /-- `komodo_accrued_interest`, of transaction, output, height, value and height of the tip. -/
  accruedInterest : Uint256 → ℤ → ℤ → ℤ → ℤ → ℤ
  /-- `Getscriptaddress`: what it leaves in its buffer. -/
  getscriptaddress : CScript → Bytes
  /-- `mempool.mapTx`. -/
  mempool : List Wire.CTransaction
  /-- `NSPV_remoterpc`: the bytes of its response. -/
  remoterpc : Bytes → Bytes
  /-- What the variable `tipheight` holds that is read before it is set. -/
  staleHeight : ℤ
  /-- What `filter` holds when the request has none. -/
  staleFilter : ℕ

namespace Server

variable (S : Server)

/-- `chainActive[height]` where the pointer is followed. -/
def chainActive (height : ℤ) : Except BadAccess ChainEntry :=
  match at? S.chain height with
  | some pindex => pure pindex
  | none => throw .blockIndex

/-- `chainActive.Tip()->nHeight`. -/
def tipHeight : Except BadAccess ℤ :=
  match S.chain with
  | [] => throw .blockIndex
  | _ => pure (S.chain.length - 1)

def komodoChainactive (height : ℤ) : Option ChainEntry :=
  match S.chain with
  | [] => none
  | _ => if height ≤ S.chain.length - 1 then at? S.chain height else none

/-! ### Notarizations -/

/-- The loop of `ScanNotarisationsDB`, downwards from `height`. -/
def scanNotarisationsLoop : (limit : ℕ) → (height : ℤ) → Except BadAccess (Option (ℤ × Notarisation))
  | 0, _ => pure none
  | limit + 1, height => do
    if height < 0 then return none
    let pindex ← S.chainActive height
    match ((S.getBlockNotarisations pindex.blockHash).getD []).find?
        (fun nota => nota.2.symbol = S.chainName) with
    | some nota => return some (height, nota)
    | none => scanNotarisationsLoop limit (height - 1)

/-- `ScanNotarisationsDB`; a notarization at the height 0 is not told from none. -/
def scanNotarisationsDB (height : ℤ) (scanLimitBlocks : ℕ) :
    Except BadAccess (Option (ℤ × Notarisation)) := do
  if height < 0 ∨ S.chain.length - 1 < height then return none
  return (← S.scanNotarisationsLoop scanLimitBlocks height).filter (·.1 ≠ 0)

/-- `NSPV_ntzargs`. -/
structure NtzArgs where
  txid : Uint256 := 0
  desttxid : Uint256 := 0
  blockhash : Uint256 := 0
  txidht : ℤ := 0
  ntzheight : ℤ := 0

/-- `NSPV_opretextract`: height, hash of the block and of the other transaction. -/
def opretextract (opret : Bytes) : Except BadAccess (ℤ × Uint256 × Uint256) := do
  let height ← slice .opret opret 32 4
  let blockhash ← slice .opret opret 0 32
  let desttxid ← slice .opret opret 36 32
  pure (int32 (fromLE height), fromLE blockhash, fromLE desttxid)

/-- `NSPV_notarization_find`: the code and `args`. -/
def notarizationFind (height : ℤ) (dir : ℤ) : Except BadAccess (ℤ × NtzArgs) := do
  let height := if 0 < dir then height + 10 else height
  match ← S.scanNotarisationsDB height 1440 with
  | none => return (-1, {})
  | some (txidht, nota) =>
    let args : NtzArgs := { txid := nota.1, txidht }
    let search := S.getTransaction nota.1 {}
    if !search.found ∨ search.tx.vout.length < 2 then return (-2, args)
    let opret := getOpReturnData (← outputAt search.tx.vout 1).scriptPubKey
    if 32 * 2 + 4 ≤ opret.length then
      let (ntzheight, blockhash, desttxid) ← opretextract opret
      return (ntzheight, { args with ntzheight, blockhash, desttxid })
    return (0, args)

/-- The loop of `NSPV_notarized_bracket`: `next`, which is empty when the loop is left.  It is
left in the round in which `i` is 11 at the latest. -/
def bracketLoop (height : ℤ) : (rounds : ℕ) → (i : ℕ) → (txidht : ℤ) → Except BadAccess NtzArgs
  | 0, _, _ => pure {}
  | rounds + 1, i, txidht => do
    let (ntzht, next) ← S.notarizationFind txidht 1
    if ntzht < height then
      if ntzht ≤ 0 ∨ 10 < i then return {}
      bracketLoop height rounds (i + 1) (next.txidht + 10 * i)
    else return next

/-- `NSPV_notarized_bracket`: `prev` and `next`, or the code -1. -/
def notarizedBracket (height : ℤ) : Except BadAccess (Option (NtzArgs × NtzArgs)) := do
  let (ntzht, prev) ← S.notarizationFind height (-1)
  if ntzht < 0 ∨ height < ntzht ∨ ntzht = 0 then return none
  let next ← S.bracketLoop height 12 0 (height + 1)
  return some (prev, next)

/-- `NSPV_ntzextract`. -/
def ntzextract (args : NtzArgs) : Except BadAccess Ntz := do
  let pindex ← S.chainActive args.ntzheight
  return {
    blockhash := pindex.blockHash
    height := args.ntzheight
    txidheight := args.txidht
    othertxid := args.desttxid
    txid := args.txid
    timestamp := ((S.komodoChainactive args.txidht).map ChainEntry.nTime).getD 0 }

/-- `NSPV_getntzsresp`. -/
def getntzsresp (origreqheight : ℤ) : Except BadAccess NtzsResp := do
  let tip ← S.tipHeight
  let reqheight := if origreqheight < tip then origreqheight + 1 else origreqheight
  match ← S.notarizedBracket reqheight with
  | none => return {}
  | some (prev, next) =>
    let prevntz ← if prev.ntzheight ≠ 0 then S.ntzextract prev else pure {}
    let nextntz ← if next.ntzheight ≠ 0 then S.ntzextract next else pure {}
    return { prevntz, nextntz, reqheight := if prev.ntzheight ≠ 0 then origreqheight else 0 }

/-! ### Headers -/

/-- `NSPV_setequihdr`; the entry at the height 0 has no `pprev`. -/
def setequihdr (height : ℤ) : Option EquiHdr := do
  let pindex ← S.komodoChainactive height
  let pprev ← at? S.chain (height - 1)
  pure {
    nVersion := pindex.nVersion
    hashPrevBlock := pprev.blockHash
    hashMerkleRoot := pindex.hashMerkleRoot
    hashFinalSaplingRoot := pindex.hashFinalSaplingRoot
    nTime := pindex.nTime
    nBits := pindex.nBits
    nNonce := pindex.nNonce
    nSolution := pindex.nSolution }

/-- `NSPV_getinfo`, where the result is not negative. -/
def getinfo (reqheight : ℤ) : Except BadAccess (Option InfoResp) := do
  match S.chain.getLast? with
  | none => return none
  | some pindex =>
    let height : ℤ := S.chain.length - 1
    let pair ← S.getntzsresp (height - 1)
    let notarization :=
      if (S.komodoChainactive pair.prevntz.txidheight).isSome then
        { pair.prevntz with timestamp := pindex.nTime }
      else pair.prevntz
    let hdrheight := if reqheight = 0 then height else reqheight
    return (S.setequihdr hdrheight).map fun H =>
      { notarization, blockhash := pindex.blockHash, height, hdrheight, H
        version := NSPV_PROTOCOL_VERSION }

/-! ### Transactions -/

/-- `NSPV_getrawtx` with `tx`: the bytes, and what `tx` and `hashBlock` hold then.  What was read
can be written. -/
def getrawtx (tx : Wire.CTransaction) (txid : Uint256) : Bytes × Wire.CTransaction × Uint256 :=
  let search := S.getTransaction txid tx
  (if search.found then search.tx.serialize.getD [] else [], search.tx, search.hashBlock)

/-- `CBlockHeader::SerializationOp` for writing. -/
def headerBytes (header : CBlockHeader) : Bytes :=
  intBytes 4 header.nVersion ++ uint256Bytes header.hashPrevBlock
    ++ uint256Bytes header.hashMerkleRoot ++ uint256Bytes header.hashFinalSaplingRoot
    ++ leBytes 4 header.nTime ++ leBytes 4 header.nBits ++ uint256Bytes header.nNonce
    ++ vectorBytes (header.nSolution.map UInt8.ofNat)

/-- The proof of a transaction in a block: `CMerkleBlock` as it is written. -/
def merkleBlock (header : CBlockHeader) (vtx : List Wire.CTransaction) (txid : Uint256) : Bytes :=
  let vTxid := vtx.map Wire.CTransaction.hash
  headerBytes header
    ++ (CPartialMerkleTree.build S.hash2 vTxid (vTxid.map fun hash => hash = txid)).serialize

/-- The proof that `NSPV_gettxproof` writes for a height that is given; it is empty when there is
none. -/
def txproofAt (txid : Uint256) (height : ℤ) : Bytes :=
  match (S.komodoChainactive height).bind S.blockload with
  | some (header, vtx) =>
    if vtx.any fun tx => tx.hash = txid then S.merkleBlock header vtx txid else []
  | none => []

/-- `NSPV_gettxproof`. -/
def gettxproof (vout : ℤ) (txid : Uint256) (height : ℤ) : TxProof :=
  let (rawtx, _, hashBlock) := S.getrawtx {} txid
  if rawtx = [] then { height := -1 }
  else {
    txid, vout
    tx := rawtx
    hashblock := hashBlock
    height := if height = 0 then S.blockheight hashBlock else height
    txproof := if height = 0 then [] else S.txproofAt txid height
    unspentvalue := S.gettxout txid vout }

/-- `NSPV_getspentinfo`. -/
def getspentinfo (txid : Uint256) (vout : ℤ) : SpentInfo :=
  match S.getspenttxid txid vout with
  | some (spenttxid, vini, height) =>
    { txid, vout, spentvini := vini, spent := S.gettxproof 0 spenttxid height }
  | none => { txid, vout }

/-- `NSPV_sendrawtransaction`, for a length in range. -/
def sendrawtransaction (data : Bytes) : BroadcastResp :=
  match S.decodeHexTx {} data with
  | some tx => { txid := tx.hash, retcode := if S.addtomempool tx then 1 else -3 }
  | none => { retcode := -1 }

/-- `NSPV_notarizationextract` without the check of the signatures. -/
def notarizationextract (tx : Wire.CTransaction) :
    Except BadAccess (Option (ℤ × Uint256 × Uint256)) := do
  if tx.vout.length < 2 then return none
  let opret := getOpReturnData (← outputAt tx.vout 1).scriptPubKey
  if 32 * 2 + 4 ≤ opret.length then return some (← opretextract opret)
  return none

/-- `NSPV_getntzsproofresp`, where the result is not negative. -/
def getntzsproofresp (prevntztxid nextntztxid : Uint256) :
    Except BadAccess (Option NtzsProofResp) := do
  let (prevntz, tx, hashBlock) := S.getrawtx {} prevntztxid
  let prevtxidht := S.blockheight hashBlock
  match ← notarizationextract tx with
  | none => return none
  | some (prevht, bhash0, _) =>
    if S.blockheight bhash0 ≠ prevht then return none
    let (nextntz, tx, hashBlock) := S.getrawtx tx nextntztxid
    let nexttxidht := S.blockheight hashBlock
    match ← notarizationextract tx with
    | none => return none
    | some (nextht, bhash1, _) =>
      if S.blockheight bhash1 ≠ nextht then return none
      if nextht < prevht ∨ 1440 < int32 (nextht - prevht) then return none
      let numhdrs := ((int32 (nextht - prevht) + 1) % 2 ^ 16).toNat
      return ((List.range numhdrs).mapM fun i => S.setequihdr (prevht + i)).map fun hdrs =>
        { hdrs, prevht, nextht, prevtxid := prevntztxid, nexttxid := nextntztxid, prevtxidht
          nexttxidht, prevntz, nextntz }

end Server

end NSPV
end Komodo
