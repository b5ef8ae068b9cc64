/-
# Addresses and the mempool, as the server answers for them

`NSPV_getaddressutxos`, `NSPV_getaddresstxids`, `NSPV_getccmoduleutxos` with `DefaultCCChecker`,
`NSPV_mempoolfuncs` and `NSPV_mempooltxids` of `src/src/komodo_nSPV_fullnode.h`, and `CC_vinselect`
of `src/src/cc/CCtx.cpp`.

The counts of a response are of 16 bits.  An array of a response is as long as the code allocates
it, and a write behind its end is lost.
-/

import Komodo.CC.Channels
import Komodo.NSPV.Server

namespace Komodo
namespace NSPV
namespace Server

open Streams
open Wire hiding CTransaction
open BlockIndexDB hiding CBlockIndex

/-- `NSPV_utxoresp`. -/
structure UtxoResp where
  txid : Uint256 := 0
  satoshis : ℤ := 0
  extradata : ℤ := 0
  vout : ℤ := 0
  height : ℤ := 0

/-- `NSPV_utxosresp`. -/
structure UtxosResp where
  utxos : List UtxoResp := []
  coinaddr : Bytes
  total : ℤ := 0
  interest : ℤ := 0
  nodeheight : ℤ := 0
  skipcount : ℤ := 0
  filter : ℕ := 0
  CCflag : ℕ := 0

/-- `NSPV_txidresp`. -/
structure TxidResp where
  txid : Uint256 := 0
  satoshis : ℤ := 0
  vout : ℤ := 0
  height : ℤ := 0

/-- `NSPV_txidsresp`. -/
structure TxidsResp where
  txids : List TxidResp
  coinaddr : Bytes
  nodeheight : ℤ
  skipcount : ℤ
  filter : ℕ
  CCflag : ℕ

/-- `NSPV_mempoolresp`. -/
structure MempoolResp where
  txids : List Uint256
  coinaddr : Bytes
  txid : Uint256
  nodeheight : ℤ
  vout : ℤ
  vindex : ℤ
  CCflag : UInt8
  funcid : UInt8

variable (S : Server)

/-- How many structures of a size fit into a response. -/
def maxlen (height : ℤ) (size : ℕ) : ℕ := (MAX_BLOCK_SIZE S.saplinght height - 512) / size

/-- The skip count for a number of entries: behind the last entry it is that of the last one. -/
def clampSkip (skipcount : ℤ) (count : ℕ) : ℤ :=
  let skipcount := max skipcount 0
  if count ≤ skipcount then count - 1 else skipcount

/-! ### Unspent outputs of an address -/

/-- What the loop of `NSPV_getaddressutxos` has found. -/
structure UtxoScan where
  utxos : List UtxoResp
  total : ℤ := 0
  interest : ℤ := 0
  ind : ℕ := 0
  n : ℕ := 0

/-- One round.  The interest is written to position `n` and read from position `ind`. -/
def utxoStep (skipcount tipheight : ℤ) (st : UtxoScan) (it : Unspent) : UtxoScan :=
  if skipcount ≤ st.n ∧ !S.isutxoSpentinmempool it.txhash it.index then
    let utxos := st.utxos.modify st.ind fun u =>
      { u with txid := it.txhash, vout := it.index, satoshis := it.satoshis, height := it.blockHeight }
    if S.isKMD ∧ 10 * Fees.COIN ≤ it.satoshis then
      let extradata := S.accruedInterest it.txhash it.index it.blockHeight it.satoshis tipheight
      let utxos := utxos.modify st.n fun u => { u with extradata }
      let interest := st.interest + ((utxos[st.ind]?).map UtxoResp.extradata).getD 0
      { utxos, interest, total := st.total + it.satoshis, ind := st.ind + 1, n := st.n + 1 }
    else { st with utxos, total := st.total + it.satoshis, ind := st.ind + 1, n := st.n + 1 }
  else { st with n := st.n + 1 }

/-- `NSPV_getaddressutxos`, where the result is positive. -/
def getaddressutxos (coinaddr : Bytes) (isCC : Bool) (skipcount : ℤ) (filter : ℕ) :
    Except BadAccess (Option UtxosResp) := do
  let unspentOutputs := S.ccUnspents coinaddr isCC
  let numutxos := unspentOutputs.length % 2 ^ 16
  if numutxos < S.maxlen S.staleHeight 56 then
    let tipheight ← S.tipHeight
    let skipcount := clampSkip skipcount numutxos
    let scan := unspentOutputs.foldl (S.utxoStep skipcount tipheight)
      { utxos := List.replicate (numutxos - skipcount).toNat {} }
    return some {
      utxos := scan.utxos.take (scan.ind % 2 ^ 16)
      coinaddr, filter, skipcount
      total := scan.total
      interest := scan.interest
      nodeheight := tipheight
      CCflag := isCC.toNat }
  return none

/-! ### Transactions of an address -/

/-- `NSPV_getaddresstxids`, where the result is positive. -/
def getaddresstxids (coinaddr : Bytes) (isCC : Bool) (skipcount : ℤ) (filter : ℕ) :
    Except BadAccess (Option TxidsResp) := do
  let txids := S.ccTxids coinaddr isCC
  let nodeheight ← S.tipHeight
  if txids.length < 2 ^ 16 ∧ txids.length < S.maxlen nodeheight 48 then
    let skipcount := clampSkip skipcount txids.length
    return some {
      txids := (txids.drop skipcount.toNat).map fun it =>
        { txid := it.txhash, vout := it.index, satoshis := it.satoshis, height := it.blockHeight }
      coinaddr, nodeheight, skipcount, filter
      CCflag := isCC.toNat }
  return none

/-! ### Unspent outputs of a contract -/

/-- The reads of `DefaultCCChecker`: evaluation code, function id, whether that is the one of a
creation, and otherwise the transaction id. -/
def readChecked (funcids : Bytes) : Unserialize (UInt8 × UInt8 × Bool × Uint256) := do
  let opretEvalcode ← Unserialize.uint8
  let opretFuncid ← Unserialize.uint8
  if funcids.head? = some opretFuncid then pure (opretEvalcode, opretFuncid, true, 0)
  else pure (opretEvalcode, opretFuncid, false, revuint256 (← Unserialize.uint256))

/-- The opreturn that is checked: the data of the output, or the last output when there are
none. -/
def checkedOpret (vouts : List CTxOut) (vParams : List Bytes) : Except BadAccess Bytes :=
  let vopret := ((vParams.head?.map COptCCParams.ofBytes).bind (·.vData.head?)).getD []
  if vopret = [] then
    (fun out => getOpReturnData out.scriptPubKey) <$> outputAt vouts (vouts.length - 1)
  else pure vopret

/-- Whether an opreturn is one that is looked for.  More data than was read is as good as none. -/
def acceptsOpret (txid : Uint256) (evalcode : UInt8) (funcids : Bytes) (filtertxid : Uint256)
    (vopret : Bytes) : Bool :=
  if vopret.length ≤ 2 then false
  else
    match readChecked funcids vopret with
    | some ((opretEvalcode, opretFuncid, isCreateTx, opretTxid), _) =>
      evalcode = opretEvalcode ∧ opretFuncid ∈ funcids
        ∧ filtertxid = if isCreateTx then txid else opretTxid
    | none => false

def checkCC (txid : Uint256) (vouts : List CTxOut) (nvout : ℤ) (evalcode : UInt8) (funcids : Bytes)
    (filtertxid : Uint256) : Except BadAccess Bool := do
  if 0 ≤ nvout ∧ nvout < vouts.length then
    match payToCryptoCondition (← outputAt vouts nvout).scriptPubKey with
    | some vParams =>
      return acceptsOpret txid evalcode funcids filtertxid (← checkedOpret vouts vParams)
    | none => return false
  else return false

structure CCUtxo where
  txid : Uint256
  nValue : ℤ
  vout : ℤ

/-- The rows that `NSPV_getccmoduleutxos` selects. -/
def selectUtxos (evalcode : UInt8) (funcids : Bytes) (filtertxid : Uint256) :
    List Unspent → Except BadAccess (List CCUtxo)
  | [] => pure []
  | it :: rest => do
    if S.isutxoSpentinmempool it.txhash it.index then
      selectUtxos evalcode funcids filtertxid rest
    else
      let search := S.getTransaction it.txhash {}
      if ¬ search.found then selectUtxos evalcode funcids filtertxid rest
      else if ← checkCC it.txhash search.tx.vout it.index evalcode funcids filtertxid then
        let _ ← outputAt search.tx.vout it.index
        return { txid := it.txhash, vout := it.index, nValue := it.satoshis }
          :: (← selectUtxos evalcode funcids filtertxid rest)
      else selectUtxos evalcode funcids filtertxid rest

/-- What the loop of `CC_vinselect` keeps: gap and position above and below. -/
structure Nearest where
  above : ℤ := 0
  abovei : Option ℕ := none
  below : ℤ := 0
  belowi : Option ℕ := none

/-- The loop of `CC_vinselect`, which ends at a value that is the one that is looked for. -/
def vinselectLoop (value : ℤ) : (i : ℕ) → Nearest → List CCUtxo → Nearest
  | _, st, [] => st
  | i, st, utxo :: utxos =>
    if utxo.nValue ≤ 0 then vinselectLoop value (i + 1) st utxos
    else if utxo.nValue = value then { above := 0, abovei := i, below := 0, belowi := i }
    else if value < utxo.nValue then
      let gap := utxo.nValue - value
      let st := if st.above = 0 ∨ gap < st.above then { st with above := gap, abovei := i } else st
      vinselectLoop value (i + 1) st utxos
    else
      let gap := value - utxo.nValue
      let st := if st.below = 0 ∨ gap < st.below then { st with below := gap, belowi := i } else st
      vinselectLoop value (i + 1) st utxos

/-- The position that `NSPV_getccmoduleutxos` takes from `CC_vinselect`; there is none when all
values are too small to be looked at. -/
def vinselect (utxos : List CCUtxo) (value : ℤ) : Option ℕ :=
  let st := vinselectLoop value 0 {} utxos
  st.abovei.or st.belowi

def CC_MAXVINS : ℕ := 1024

/-- The loop that picks outputs for the amount; every round takes one away.  `total` begins with the
sum of all that were selected. -/
def pickUtxos (amount : ℤ) : (fuel : ℕ) → (total remains : ℤ) → (utxoSelected utxoAdded : List CCUtxo) →
    Option (ℤ × List CCUtxo)
  | 0, total, _, _, utxoAdded => some (total, utxoAdded)
  | fuel + 1, total, remains, utxoSelected, utxoAdded =>
    if utxoSelected = [] then some (total, utxoAdded)
    else
      match vinselect utxoSelected remains with
      | none => none
      | some ind =>
        match utxoSelected[ind]?, utxoSelected.getLast? with
        | some utxo, some last =>
          let total := total + utxo.nValue
          let utxoAdded := utxoAdded ++ [utxo]
          if amount ≤ total ∨ CC_MAXVINS ≤ utxoAdded.length then some (total, utxoAdded)
          else pickUtxos amount fuel total (remains - utxo.nValue) (utxoSelected.set ind last).dropLast
            utxoAdded
        | _, _ => none

/-- `NSPV_getccmoduleutxos`, where the result is positive. -/
def getccmoduleutxos (coinaddr : Bytes) (amount : ℤ) (evalcode : UInt8) (funcids : Bytes)
    (filtertxid : Uint256) : Except BadAccess (Option UtxosResp) := do
  let unspentOutputs := S.ccUnspents coinaddr true
  let nodeheight ← S.tipHeight
  let utxoSelected ← S.selectUtxos evalcode funcids filtertxid unspentOutputs
  let total := (utxoSelected.map CCUtxo.nValue).sum
  if amount = 0 then return some { coinaddr, total, nodeheight, CCflag := 1 }
  match pickUtxos amount utxoSelected.length total amount utxoSelected [] with
  | none => return none
  | some (total, utxoAdded) =>
    let numutxos := utxoAdded.length % 2 ^ 16
    if 96 + 56 * numutxos < MAX_BLOCK_SIZE S.saplinght 0 - 512 then
      return some {
        utxos := (utxoAdded.take numutxos).map fun u =>
          { satoshis := u.nValue, txid := u.txid, vout := u.vout }
        coinaddr, total, nodeheight
        CCflag := 1 }
    else return none

/-! ### The mempool -/

def NSPV_MEMPOOL_ALL : UInt8 := 0
def NSPV_MEMPOOL_ADDRESS : UInt8 := 1
def NSPV_MEMPOOL_ISSPENT : UInt8 := 2
def NSPV_MEMPOOL_INMEMPOOL : UInt8 := 3
def NSPV_MEMPOOL_CCEVALCODE : UInt8 := 4
def NSPV_CC_TXIDS : UInt8 := 16

/-- What `NSPV_mempoolfuncs` gives back. -/
structure MempoolFound where
  num : ℤ := 0
  vindex : ℤ := -1
  txids : List Uint256 := []
  satoshis : List ℤ := []

/-- The byte of `vout` above the low `8 * k` bits. -/
def voutByte (vout : ℤ) (k : ℕ) : UInt8 := UInt8.ofNat (vout / 256 ^ k % 256).toNat

/-- Whether an opreturn passes the filter for `NSPV_CC_TXIDS`.  The switch has two cases: the other
names behind them are labels. -/
def passesFilter (eval func : UInt8) (vopret : Bytes) : Except BadAccess Bool := do
  if vopret.length ≤ 2 then return true
  if (← byteAt .opret vopret 0) ≠ eval then return true
  if eval = EVAL_CHANNELS ∨ eval = EVAL_TOKENS then
    return func = 0 ∨ (← byteAt .opret vopret 1) = func
  else return true

/-- The loop for `NSPV_CC_TXIDS`: the number of entries and the ids.  The variable `tx` is the same
in all rounds. -/
def ccTxidsLoop (filtered : Bool) (eval func : UInt8) (skipcount : ℤ) :
    (tx : Wire.CTransaction) → (n : ℤ) → (txids : List Uint256) → List AddressTx →
    Except BadAccess (ℤ × List Uint256)
  | _, n, txids, [] => pure (n, txids)
  | tx, n, txids, it :: rest => do
    let pushed := if skipcount ≤ n then txids ++ [it.txhash] else txids
    if filtered then
      let tx := (S.getTransaction it.txhash tx).tx
      let out ← outputAt tx.vout (tx.vout.length - 1)
      if ← passesFilter eval func (channelsData out.scriptPubKey).2 then
        ccTxidsLoop filtered eval func skipcount tx (n + 1) pushed rest
      else ccTxidsLoop filtered eval func skipcount tx n txids rest
    else ccTxidsLoop filtered eval func skipcount tx (n + 1) pushed rest

/-- `NSPV_mempoolfuncs` for `NSPV_CC_TXIDS`. -/
def ccTxidsFuncs (coinaddr : Bytes) (isCC : Bool) (txid : Uint256) (vout : ℤ) :
    Except BadAccess MempoolFound := do
  let eval := voutByte vout 1
  let func := voutByte vout 0
  let rows := S.ccTxids coinaddr isCC
  let skipcount := clampSkip (vout / 2 ^ 16) rows.length
  let (n, txids) ← S.ccTxidsLoop (txid ≠ 0 ∨ func ≠ 0) eval func skipcount {} 0 [] rows
  return { num := n - skipcount, txids }

/-- What `GetOpReturnData` returns. -/
def opReturnPushed (s : CScript) : Bool :=
  match getOp s with
  | some (opcode, _, pc) =>
    if opcode = OP_RETURN then
      match getOp pc with
      | some (opcode, _, _) => OP_0 < opcode ∧ opcode ≤ OP_PUSHDATA4
      | none => false
    else false
  | none => false

/-- Whether a transaction of the mempool has an opreturn with the two bytes. -/
def hasEvalcode (evalcode func : UInt8) (tx : Wire.CTransaction) : Except BadAccess Bool := do
  if tx.vout.length ≤ 1 then return false
  let scriptPubKey := (← outputAt tx.vout (tx.vout.length - 1)).scriptPubKey
  if ¬ opReturnPushed scriptPubKey then return false
  let vopret := getOpReturnData scriptPubKey
  if (← byteAt .opret vopret 0) = evalcode then return (← byteAt .opret vopret 1) = func
  else return false

/-- The loop for `NSPV_MEMPOOL_CCEVALCODE`. -/
def ccEvalcodeLoop (evalcode func : UInt8) : List Wire.CTransaction → Except BadAccess (List Uint256)
  | [] => pure []
  | tx :: rest => do
    if ← hasEvalcode evalcode func tx then
      return tx.hash :: (← ccEvalcodeLoop evalcode func rest)
    else ccEvalcodeLoop evalcode func rest

/-- Inputs or outputs of all transactions, each with the id of its transaction. -/
def inAll {α : Type} (items : Wire.CTransaction → List α) : List (Uint256 × α) :=
  S.mempool.flatMap fun tx => (items tx).map fun item => (tx.hash, item)

/-- The outputs to an address with their positions, which go on from one transaction to the
next. -/
def toAddress (coinaddr : Bytes) (isCC : Bool) : List ((Uint256 × CTxOut) × ℕ) :=
  (S.inAll (·.vout)).zipIdx.filter fun o => isPayToCryptoCondition o.1.2.scriptPubKey = isCC
    ∧ S.getscriptaddress o.1.2.scriptPubKey = coinaddr

/-- `NSPV_mempoolfuncs`.  The positions of inputs go on from one transaction to the next as
well. -/
def mempoolfuncs (coinaddr : Bytes) (isCC : Bool) (funcid : UInt8) (txid : Uint256) (vout : ℤ) :
    Except BadAccess MempoolFound := do
  if funcid = NSPV_CC_TXIDS then S.ccTxidsFuncs coinaddr isCC txid vout
  else if S.mempool = [] then return {}
  else if funcid = NSPV_MEMPOOL_ALL then
    return { num := S.mempool.length, txids := S.mempool.map (·.hash) }
  else if funcid = NSPV_MEMPOOL_INMEMPOOL then
    return if S.mempool.any (·.hash = txid) then { num := 1, txids := [txid] } else {}
  else if funcid = NSPV_MEMPOOL_CCEVALCODE then
    let txids ← ccEvalcodeLoop (voutByte vout 0) (voutByte vout 1) S.mempool
    return { num := txids.length, txids }
  else if funcid = NSPV_MEMPOOL_ISSPENT then
    match (S.inAll (·.vin)).zipIdx.find? fun i =>
      (i.1.2.prevout.n : ℤ) = vout % 2 ^ 32 ∧ i.1.2.prevout.hash = txid with
    | some ((hash, _), vini) => return { num := 1, vindex := vini, txids := [hash] }
    | none => return {}
  else if funcid = NSPV_MEMPOOL_ADDRESS then
    let outs := S.toAddress coinaddr isCC
    return {
      num := outs.length
      vindex := (outs.getLast?.map fun o => (o.2 : ℤ)).getD (-1)
      txids := outs.map fun o => o.1.1
      satoshis := (outs.take 4).map fun o => o.1.2.nValue }
  else return {}

/-- The amounts in the place of an id. -/
def satoshisId (satoshis : List ℤ) : Uint256 := fromLE (satoshis.flatMap (intBytes 8))

/-- `NSPV_mempooltxids`, where the result is positive. -/
def mempooltxids (coinaddr : Bytes) (isCC funcid : UInt8) (txid : Uint256) (vout : ℤ) :
    Except BadAccess (Option MempoolResp) := do
  let nodeheight ← S.tipHeight
  let found ← S.mempoolfuncs coinaddr (isCC ≠ 0) funcid txid vout
  if found.num < 0 then return none
  return some {
    txids := found.txids.take (found.txids.length % 2 ^ 16)
    txid := if funcid = NSPV_MEMPOOL_ADDRESS then satoshisId found.satoshis else txid
    coinaddr, nodeheight, vout, funcid
    vindex := found.vindex
    CCflag := isCC }

end Server
end NSPV
end Komodo
