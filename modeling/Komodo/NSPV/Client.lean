/-
# The client of the nSPV protocol

`NSPV_gettransaction` and `NSPV_validatehdrs` of `src/src/komodo_nSPV_wallet.h` with what they use
of `src/src/komodo_nSPV.h` (`NSPV_hdrhash`, `NSPV_txextract`, `NSPV_fastnotariescount`,
`NSPV_opretextract`, `NSPV_notarizationextract`) and `BitcoinGetProofMerkleRoot` of
`src/src/cc/CCutils.cpp`.

What the peers have sent is given as it stands in the `NSPV_*result` variables when it is read.
Hashes, `CPubKey::Verify`, the elected notaries and the time of a block are parameters.  A read
outside an array and an exception end the run.
-/

import Komodo.BlockIndexDB.LoadGuts
import Komodo.Chain.Interest
import Komodo.CrossChain.PartialMerkleTree
import Komodo.Script.CCParams
import Komodo.Script.SignatureHash

namespace Komodo

namespace NSPV

open Wire hiding CTransaction
open BlockIndexDB hiding CBlockIndex

def MAX_TX_SIZE_AFTER_SAPLING : ℤ := 2 * 100000

def KOMODO_SAPLING_ACTIVATION : ℕ := 1544832000

def NSPV_BRANCHID : ℕ := 0x76b809bb

/-- `int32_t`. -/
def int32 (n : ℤ) : ℤ := n.bmod (2 ^ 32)

/-- An element of an array; a negative index is outside. -/
def at? {α : Type} (as : List α) (i : ℤ) : Option α := if i < 0 then none else as[i.toNat]?

def komodoInterestnew (txheight nValue nLockTime tiptime : ℕ) : ℕ :=
  if txheight < Fees.KOMODO_ENDOFERA ∧ Fees.LOCKTIME_THRESHOLD ≤ nLockTime ∧ tiptime ≠ 0 ∧
      nLockTime < tiptime ∧ 10 * Fees.COIN ≤ nValue then
    Fees.komodoInterestnew txheight nValue nLockTime tiptime
  else 0

/-! ### What the peers send -/

/-- A length and the bytes behind it: `iguana_rwuint8vec` reads bytes for a length in range only. -/
structure RawBytes where
  len : ℤ
  data : Bytes
  length_data : 0 < len → len < MAX_TX_SIZE_AFTER_SAPLING → data.length = len.toNat

/-- `NSPV_equihdr`. -/
structure EquiHdr where
  nVersion : ℤ
  hashPrevBlock : Uint256
  hashMerkleRoot : Uint256
  hashFinalSaplingRoot : Uint256
  nTime : ℕ
  nBits : ℕ
  nNonce : Uint256
  nSolution : ByteArr 1344

/-- `NSPV_txproof`. -/
structure TxProof where
  txid : Uint256
  unspentvalue : ℤ
  height : ℤ
  tx : RawBytes
  txproof : RawBytes
  hashblock : Uint256

/-- `NSPV_ntzsresp`: the heights of the two notarizations. -/
structure NtzsResp where
  prevHeight : ℤ
  nextHeight : ℤ

/-- `NSPV_ntzsproofresp`; `numhdrs` is a `uint16_t`. -/
structure NtzsProofResp where
  hdrs : List EquiHdr
  numhdrs_lt : hdrs.length < 2 ^ 16
  prevht : ℤ
  nextht : ℤ
  prevtxid : Uint256
  nexttxid : Uint256
  prevntz : RawBytes
  nextntz : RawBytes

/-- `NSPV_inforesp`: the height and that of the notarization. -/
structure InfoResp where
  height : ℤ
  notarizationHeight : ℤ

/-- The results as they stand when they are read. -/
structure Received where
  /-- `NSPV_txproof_find`. -/
  cached : Option TxProof
  /-- `NSPV_txproofresult` after the request for the transaction. -/
  txproofresult : TxProof
  inforesult : InfoResp
  /-- `NSPV_ntzsresult` after `NSPV_notarizations(height)`. -/
  ntzsresult : NtzsResp
  /-- The same after the three further requests of the manual bracket. -/
  ntzsbracket : NtzsResp
  /-- `NSPV_ntzsproofresult` after `NSPV_txidhdrsproof`. -/
  ntzsproofresult : NtzsProofResp

/-! ### What the client has besides -/

/-- The keys that `komodo_notaries` leaves in `elected`, as `CPubKey`s; those from `count` on are
what the memory held. -/
structure Elected where
  count : ℕ
  pubkeys : Fin 64 → Bytes

structure Client where
  sha256d : Bytes → Uint256
  getHash : CBlockHeader → Uint256
  hash2 : Uint256 → Uint256 → Uint256
  hasher : Hasher
  /-- The height at which Sapling is active. -/
  saplinght : ℤ
  isKMD : Bool
  verify : Bytes → Uint256 → Bytes → Bool
  /-- `NSPV_blocktime`. -/
  blocktime : ℤ → ℕ
  /-- `komodo_notaries`. -/
  notaries : ℤ → ℕ → Elected
  /-- `NSPV_logintime` is set and has not run out when the input is looked at for the notary. -/
  loggedIn : Wire.CTransaction → ℕ → Fin 64 → Bool
  /-- What `SIG_TXHASH` holds from before. -/
  staleHash : Wire.CTransaction → ℕ → Fin 64 → Uint256
  /-- The transaction that an exception leaves when it is read into `tx`. -/
  partlyRead : Wire.CTransaction → Bytes → Wire.CTransaction

/-- How a run ends without a value. -/
inductive Fault
  | outOfRange
  | exception
deriving DecidableEq

variable (C : Client)

namespace Client

/-- `NSPV_hdrhash`. -/
def hdrhash (hdr : EquiHdr) : Uint256 := C.getHash {
  nVersion := hdr.nVersion
  hashPrevBlock := hdr.hashPrevBlock
  hashMerkleRoot := hdr.hashMerkleRoot
  hashFinalSaplingRoot := hdr.hashFinalSaplingRoot
  nTime := hdr.nTime
  nBits := hdr.nBits
  nNonce := hdr.nNonce
  nSolution := hdr.nSolution.1.map UInt8.toNat }

/-- `DecodeHexTx` of the bytes in hex; what follows the transaction is not looked at. -/
def decodeHexTx (tx : Wire.CTransaction) (data : Bytes) : Option Wire.CTransaction :=
  if data = [] then none
  else (Wire.CTransaction.unserialize C.sha256d tx data).map Prod.fst

/-- `NSPV_txextract` into `tx`: the transaction and the code.  A negative length throws.  The hash
of a transaction that is read in part is the old one. -/
def txextract (tx : Wire.CTransaction) (raw : RawBytes) : Except Fault (Wire.CTransaction × ℤ) :=
  if raw.len < MAX_TX_SIZE_AFTER_SAPLING then
    if raw.len < 0 then throw .exception
    else if raw.len = 0 then pure (tx, -1)
    else
      match C.decodeHexTx tx raw.data with
      | some tx => pure (tx, 0)
      | none => pure ({ C.partlyRead tx raw.data with hash := tx.hash }, -1)
  else pure (tx, -1)

/-! ### Notarizations -/

/-- The signature hash of an input for a notary: `SignatureHash` as `CreateSig` calls it. -/
def notaryHash (tx : Wire.CTransaction) (nTime vini : ℕ) (pubkey : Bytes) :
    Except SignatureHashError Uint256 :=
  SignatureHashCall.signatureHash C.hasher HashType.SIGHASH_ALL
    (if nTime ≠ 0 ∧ nTime < KOMODO_SAPLING_ACTIVATION then 0 else NSPV_BRANCHID)
    { scriptCode := pushData pubkey ++ [OP_CHECKSIG], txTo := tx, nIn := vini, amount := 10000 }

/-- `SIG_TXHASH` after `NSPV_SignTx`, which leaves it as it is when the client is not logged in.
The signature that it writes into its copy of the transaction is not part of the hash. -/
def sigTxHash (tx : Wire.CTransaction) (elected : Elected) (nTime vini : ℕ) (j : Fin 64) : Uint256 :=
  if C.loggedIn tx vini j then
    match C.notaryHash tx nTime vini (elected.pubkeys j) with
    | .ok hash => hash
    | .error _ => C.staleHash tx vini j
  else C.staleHash tx vini j

/-- The signature in an input: the first pushed data without the hash type. -/
def inputSignature (tx : Wire.CTransaction) (vini : ℕ) : Option Bytes := do
  let i ← tx.vin[vini]?
  let vData ← getPushedData i.scriptSig
  let first ← vData.head?
  pure first.dropLast

/-- One input: the first notary without a mark whose key verifies gets one. -/
def markNotary (tx : Wire.CTransaction) (elected : Elected) (nTime : ℕ) (mask : Finset (Fin 64))
    (vini : ℕ) : Finset (Fin 64) :=
  match inputSignature tx vini with
  | some sig =>
    match (List.finRange 64).find? fun j => j ∉ mask ∧
      C.verify (elected.pubkeys j) (C.sigTxHash tx elected nTime vini j) sig with
    | some j => insert j mask
    | none => mask
  | none => mask

/-- `NSPV_fastnotariescount`. -/
def fastnotariescount (tx : Wire.CTransaction) (elected : Elected) (nTime : ℕ) : ℕ :=
  ((List.range tx.vin.length).foldl (C.markNotary tx elected nTime) ∅).card

/-- `NSPV_opretextract`: height, hash of the block and of the other transaction. -/
def opretextract (opret : Bytes) : ℤ × Uint256 × Uint256 :=
  let ht := fromLE ((opret.drop 32).take 4)
  (if ht < 2 ^ 31 then ht else ht - 2 ^ 32, fromLE (opret.take 32),
    fromLE ((opret.drop 36).take 32))

/-- `NSPV_notarizationextract`: the code, or what it puts out. -/
def notarizationextract (verifyntz : Bool) (tx : Wire.CTransaction) :
    Except ℤ (ℤ × Uint256 × Uint256) :=
  match tx.vout[1]? with
  | none => throw (-1)
  | some out =>
    let opret := getOpReturnData out.scriptPubKey
    if 32 * 2 + 4 ≤ opret.length then
      let (ntzheight, blockhash, desttxid) := opretextract opret
      let nTime := C.blocktime ntzheight
      let elected := C.notaries ntzheight nTime
      if verifyntz ∧ C.fastnotariescount tx elected nTime < 12 then throw (-3)
      else pure (ntzheight, blockhash, desttxid)
    else throw (-2)

/-! ### Headers -/

/-- The loop over the headers from the last: the first place where the hash of a header is not the
`hashPrevBlock` of the next. -/
def brokenLink (hdrs : List EquiHdr) : ℕ → Option ℕ
  | 0 => none
  | i + 1 =>
    if (hdrs[i]?).map C.hdrhash = (hdrs[i + 1]?).map EquiHdr.hashPrevBlock then brokenLink hdrs i
    else some (i + 1)

/-- `NSPV_validatehdrs`. -/
def validatehdrs (ptr : NtzsProofResp) : Except Fault ℤ := do
  if int32 (ptr.nextht - ptr.prevht + 1) ≠ ptr.hdrs.length then return -2
  let (tx, code) ← C.txextract {} ptr.nextntz
  if code < 0 then return -3
  if tx.hash ≠ ptr.nexttxid then return -4
  match C.notarizationextract true tx with
  | .error _ => return -5
  | .ok (height, blockhash, _) =>
    if height ≠ ptr.nextht then return -6
    match at? ptr.hdrs (ptr.hdrs.length - 1) with
    | none => throw .outOfRange
    | some last =>
      if C.hdrhash last ≠ blockhash then return -7
      match C.brokenLink ptr.hdrs (ptr.hdrs.length - 1) with
      | some i => return -i - 13
      | none =>
        let (tx, code) ← C.txextract tx ptr.prevntz
        if code < 0 then return -8
        if tx.hash ≠ ptr.prevtxid then return -9
        match C.notarizationextract true tx with
        | .error _ => return -10
        | .ok (height, blockhash, _) =>
          if height ≠ ptr.prevht then return -11
          match at? ptr.hdrs 0 with
          | none => throw .outOfRange
          | some first => if C.hdrhash first ≠ blockhash then return -12 else return 0

/-! ### The transaction -/

/-- `CBlockHeader::SerializationOp` for reading. -/
def unserializeHeader : Unserialize CBlockHeader := do
  let nVersion ← Unserialize.int 4
  let hashPrevBlock ← Unserialize.uint256
  let hashMerkleRoot ← Unserialize.uint256
  let hashFinalSaplingRoot ← Unserialize.uint256
  let nTime ← Unserialize.uint 4
  let nBits ← Unserialize.uint 4
  let nNonce ← Unserialize.uint256
  let nSolution ← Unserialize.vector
  pure { nVersion, hashPrevBlock, hashMerkleRoot, hashFinalSaplingRoot, nTime, nBits, nNonce
         nSolution := nSolution.map UInt8.toNat }

/-- `CMerkleBlock::SerializationOp` for reading. -/
def unserializeMerkleBlock : Unserialize (CBlockHeader × CPartialMerkleTree) := do
  let header ← unserializeHeader
  let txn ← CPartialMerkleTree.unserialize
  pure (header, txn)

/-- `BitcoinGetProofMerkleRoot`: the root and the matches. -/
def bitcoinGetProofMerkleRoot (proofData : Bytes) : Uint256 × List Uint256 :=
  match Unserialize.unmarshal proofData unserializeMerkleBlock with
  | some (_, txn) => txn.extractMatches C.hash2 C.saplinght
  | none => (0, [])

/-- The arguments of `NSPV_gettransaction` besides `skipvalidation`, with `tx` and `rewardsum` as
they come in. -/
structure Args where
  vout : ℤ
  txid : Uint256
  height : ℤ
  tx : Wire.CTransaction
  extradata : ℤ := 0
  tiptime : ℕ
  rewardsum : ℤ := 0

/-- What `NSPV_gettransaction` gives back. -/
structure Result where
  retval : ℤ
  tx : Wire.CTransaction
  hashblock : Uint256
  txheight : ℤ
  currentheight : ℤ
  rewardsum : ℤ
deriving DecidableEq

/-- The proof of the transaction: from the cache, or as it was received. -/
def txproof (R : Received) : TxProof := R.cached.getD R.txproofresult

/-- The first part of `NSPV_gettransaction`: the transaction, the code and the rewards. -/
def checkTx (skipvalidation : Bool) (R : Received) (args : Args) :
    Except Fault (Wire.CTransaction × ℤ × ℤ) := do
  let ptr := txproof R
  let (tx, code) ← C.txextract args.tx ptr.tx
  if code < 0 ∨ ptr.tx.len ≤ 0 then return (tx, -2000, args.rewardsum)
  else if tx.hash ≠ args.txid then return (tx, -2001, args.rewardsum)
  else if !skipvalidation ∧ ptr.unspentvalue ≤ 0 then return (tx, -2002, args.rewardsum)
  else
    let retval := if skipvalidation then 0 else -1
    if C.isKMD ∧ args.tiptime ≠ 0 then
      match at? tx.vout args.vout with
      | none => throw .outOfRange
      | some out =>
        let rewards := komodoInterestnew args.height.toNat (Fees.toUint64 out.nValue) tx.nLockTime
          args.tiptime
        return (tx, retval, args.rewardsum + rewards)
    else return (tx, retval, args.rewardsum)

/-- The bytes of the proof; those of a length out of range are not there. -/
def proofBytes (ptr : TxProof) : Except Fault Bytes :=
  if 0 < ptr.txproof.len then
    if ptr.txproof.len < MAX_TX_SIZE_AFTER_SAPLING then pure ptr.txproof.data
    else throw .exception
  else pure []

/-- The notarizations around the height, after the manual bracket if that is issued. -/
def bracket (R : Received) (height : ℤ) : NtzsResp :=
  if height ≤ R.inforesult.notarizationHeight ∧ (R.ntzsresult.prevHeight = 0 ∨
      R.ntzsresult.nextHeight ≤ R.ntzsresult.prevHeight) then R.ntzsbracket
  else R.ntzsresult

/-- The second part of `NSPV_gettransaction`: the code that takes the place of the first one.
`txids[0]` is read to compare it or to log it. -/
def checkProof (R : Received) (args : Args) : Except Fault ℤ := do
  let proof ← proofBytes (txproof R)
  let ntzs := bracket R args.height
  if ntzs.prevHeight ≠ 0 ∧ ntzs.prevHeight ≤ ntzs.nextHeight then
    let offset := int32 (args.height - ntzs.prevHeight)
    if 0 ≤ offset ∧ args.height ≤ ntzs.nextHeight then
      let retval ← C.validatehdrs R.ntzsproofresult
      if retval = 0 then
        let (proofroot, txids) := C.bitcoinGetProofMerkleRoot proof
        match at? R.ntzsproofresult.hdrs offset, at? txids 0 with
        | some hdr, some first =>
          if proofroot ≠ hdr.hashMerkleRoot ∨ first ≠ args.txid then return -2003 else return 0
        | _, _ => throw .outOfRange
      else return retval
    else return -2005
  else return -2004

/-- `NSPV_gettransaction`. -/
def gettransaction (skipvalidation : Bool) (R : Received) (args : Args) : Except Fault Result := do
  let ptr := txproof R
  let answer (tx : Wire.CTransaction) (retval rewardsum : ℤ) : Result :=
    { retval, tx, hashblock := ptr.hashblock, txheight := ptr.height
      currentheight := R.inforesult.height, rewardsum }
  if ptr.txid ≠ args.txid then return answer args.tx (-1) args.rewardsum
  let (tx, retval, rewardsum) ← C.checkTx skipvalidation R args
  if skipvalidation then return answer tx retval rewardsum
  let retval ← C.checkProof R args
  return answer tx retval rewardsum

end Client

end NSPV
end Komodo
