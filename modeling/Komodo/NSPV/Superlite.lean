/-
# The responses that a superlite client receives

`komodo_nSPVresp` and the caches of `src/src/komodo_nSPV_superlite.h`, with the functions
`NSPV_..._copy` of `src/src/komodo_nSPV.h`.

A response fills the result of its kind after that has been purged, and the notarizations and the
proofs are copied to a cache.  There is no value where a byte behind the end of the response is read
or more is copied than is held.
-/

import Komodo.NSPV.ResponseSizes

namespace Komodo
namespace NSPV

open Streams Unserialize

namespace Msg

/-- All fields zero. -/
def EquiHdr.zero : EquiHdr where
  nVersion := 0
  hashPrevBlock := 0
  hashMerkleRoot := 0
  hashFinalSaplingRoot := 0
  nTime := 0
  nBits := 0
  nNonce := 0
  nSolution := ByteArr.zero 1344

/-! ### Copies -/

/-- `malloc` and `memcpy` of as many elements as the count says, when there is an array. -/
def copyHeld {α : Type} (v : Counted α) : Option (Counted α) :=
  if v.held = [] then some v
  else if 0 ≤ v.num ∧ v.num ≤ v.held.length then some { v with held := v.held.take v.num.toNat }
  else none

/-- `NSPV_txproof_copy`.  A transaction whose length is out of range stays where it is. -/
def TxProof.copy (ptr : TxProof) : Option TxProof := do
  let tx ← if ptr.tx.num < MAX_TX_SIZE_AFTER_SAPLING then copyHeld ptr.tx else some ptr.tx
  let txproof ← copyHeld ptr.txproof
  some { ptr with tx, txproof }

/-- `NSPV_ntzsproofresp_copy`. -/
def NtzsProofResp.copy (ptr : NtzsProofResp) : Option NtzsProofResp := do
  let hdrs ← copyHeld ptr.common.hdrs
  let prevntz ← copyHeld ptr.prevntz
  let nextntz ← copyHeld ptr.nextntz
  some { ptr with common := { ptr.common with hdrs }, prevntz, nextntz }

def NSPV_MAXVINS : ℕ := 64

/-! ### The client -/

/-- The results and the caches. -/
structure Superlite where
  inforesult : InfoResp := { H := EquiHdr.zero }
  utxosresult : UtxosResp := {}
  txidsresult : TxidsResp := {}
  mempoolresult : MempoolResp := {}
  spentresult : SpentInfo := {}
  ntzsresult : NtzsResp := {}
  ntzsproofresult : NtzsProofResp := {}
  txproofresult : TxProof := {}
  broadcastresult : BroadcastResp := {}
  ntzsrespCache : List NtzsResp := List.replicate NSPV_MAXVINS {}
  ntzsproofrespCache : List NtzsProofResp := List.replicate (NSPV_MAXVINS * 2) {}
  txproofCache : List TxProof := List.replicate (NSPV_MAXVINS * 4) {}
  lastinfo : ℕ := 0
  tiptime : ℕ := 0

/-- A response, with the time, the length of a block and the random number that are used for it. -/
structure Reception where
  response : Bytes
  timestamp : ℕ := 0
  blocktime : ℕ := 60
  rand : ℕ := 0

namespace Superlite

variable (S : Superlite)

/-- The entry of a cache that is written to: the first one that is free, or any. -/
def cacheIndex {α : Type} (cache : List α) (free : α → Bool) (rand : ℕ) : ℕ :=
  (cache.findIdx? free).getD (rand % cache.length)

/-- `NSPV_ntzsresp_find`. -/
def ntzsrespFind (reqheight : ℤ) : Option NtzsResp :=
  S.ntzsrespCache.find? fun entry => entry.reqheight = reqheight

/-- `NSPV_ntzsresp_add`. -/
def ntzsrespAdd (rand : ℕ) (ptr : NtzsResp) : Superlite :=
  let i := cacheIndex S.ntzsrespCache (fun entry => entry.reqheight = 0) rand
  { S with ntzsrespCache := S.ntzsrespCache.set i ptr }

/-- `NSPV_txproof_find`: an entry without a proof is the last resort. -/
def txproofFind (txid : Uint256) : Option TxProof :=
  let entries := S.txproofCache.filter fun entry => entry.txid = txid
  (entries.find? fun entry => entry.txproof.num ≠ 0).or entries.getLast?

/-- `NSPV_txproof_add`.  The first entry of the transaction decides. -/
def txproofAdd (rand : ℕ) (ptr : TxProof) : Option Superlite :=
  let put (i : ℕ) : Option Superlite :=
    ptr.copy.map fun copy => { S with txproofCache := S.txproofCache.set i copy }
  match S.txproofCache.findIdx? fun entry => entry.txid = ptr.txid with
  | some i =>
    if (S.txproofCache[i]?.map fun entry => entry.txproof.num) = some 0 ∧ ptr.txproof.num ≠ 0 then
      put i
    else some S
  | none => put (cacheIndex S.txproofCache (fun entry => entry.tx.num = 0) rand)

/-- `NSPV_ntzsproof_find`. -/
def ntzsproofFind (prevtxid nexttxid : Uint256) : Option NtzsProofResp :=
  S.ntzsproofrespCache.find? fun entry => entry.prevtxid = prevtxid ∧ entry.nexttxid = nexttxid

/-- `NSPV_ntzsproof_add`; an entry that has no headers is free. -/
def ntzsproofAdd (rand : ℕ) (ptr : NtzsProofResp) : Option Superlite :=
  let i := cacheIndex S.ntzsproofrespCache (fun entry => entry.common.hdrs.held.isEmpty) rand
  ptr.copy.map fun copy => { S with ntzsproofrespCache := S.ntzsproofrespCache.set i copy }

/-- `NSPV_INFORESP`: an older result than the last one is dropped. -/
def infoResp (timestamp blocktime : ℕ) (I : InfoResp) : Superlite :=
  if I.height < S.inforesult.height then S
  else if S.inforesult.height < I.height then
    { S with
      inforesult := I
      lastinfo := (((timestamp : ℤ) - blocktime / 4) % 2 ^ 32).toNat
      tiptime := if I.height = I.hdrheight then I.H.nTime else S.tiptime }
  else { S with inforesult := I }

/-- `NSPV_NTZSRESP`. -/
def ntzsResp (rand : ℕ) (N : NtzsResp) : Superlite :=
  let S := { S with ntzsresult := N }
  if (S.ntzsrespFind N.reqheight).isNone then S.ntzsrespAdd rand N else S

/-- `NSPV_NTZSPROOFRESP`. -/
def ntzsproofResp (rand : ℕ) (P : NtzsProofResp) : Option Superlite :=
  let S := { S with ntzsproofresult := P }
  if (S.ntzsproofFind P.prevtxid P.nexttxid).isNone then S.ntzsproofAdd rand P else some S

/-- `NSPV_TXPROOFRESP`. -/
def txproofResp (rand : ℕ) (P : TxProof) : Option Superlite :=
  let S := { S with txproofresult := P }
  if (S.txproofFind P.txid).isNone then S.txproofAdd rand P else some S

/-- The part of `komodo_nSPVresp` that is the same for all kinds: what is read, and what is done
with it. -/
def take {α : Type} (one : Unserialize α) (s : Bytes) (f : α → Option Superlite) :
    Option Superlite :=
  (one s).bind fun p => f p.1

def komodoNSPVresp (r : Reception) : Option Superlite :=
  if int32 r.response.length ≤ 0 then some S
  else
    match r.response with
    | [] => some S
    | kind :: s =>
      if kind = NSPV_INFORESP then
        take InfoResp.unserialize s fun I => some (S.infoResp r.timestamp r.blocktime I)
      else if kind = NSPV_UTXOSRESP then
        take UtxosResp.unserialize s fun U => some { S with utxosresult := U }
      else if kind = NSPV_TXIDSRESP then
        take TxidsResp.unserialize s fun T => some { S with txidsresult := T }
      else if kind = NSPV_MEMPOOLRESP then
        take MempoolResp.unserialize s fun M => some { S with mempoolresult := M }
      else if kind = NSPV_NTZSRESP then
        take NtzsResp.unserialize s fun N => some (S.ntzsResp r.rand N)
      else if kind = NSPV_NTZSPROOFRESP then
        take NtzsProofResp.unserialize s (S.ntzsproofResp r.rand)
      else if kind = NSPV_TXPROOFRESP then take TxProof.unserialize s (S.txproofResp r.rand)
      else if kind = NSPV_SPENTINFORESP then
        take SpentInfo.unserialize s fun I => some { S with spentresult := I }
      else if kind = NSPV_BROADCASTRESP then
        take BroadcastResp.unserialize s fun B => some { S with broadcastresult := B }
      else if kind = NSPV_CCMODULEUTXOSRESP then
        take UtxosResp.unserialize s fun U => some { S with utxosresult := U }
      else some S

/-! ### What every response should leave -/

/-- Every count is that of what is held. -/
structure Consistent : Prop where
  utxos : S.utxosresult.utxos.Consistent
  txids : S.txidsresult.txids.Consistent
  mempool : S.mempoolresult.txids.Consistent
  spent : S.spentresult.spent.tx.Consistent ∧ S.spentresult.spent.txproof.Consistent
  ntzsproof : S.ntzsproofresult.common.hdrs.Consistent ∧ S.ntzsproofresult.prevntz.Consistent
    ∧ S.ntzsproofresult.nextntz.Consistent
  txproof : S.txproofresult.tx.Consistent ∧ S.txproofresult.txproof.Consistent
  ntzsproofCache : ∀ entry ∈ S.ntzsproofrespCache, entry.common.hdrs.Consistent
    ∧ entry.prevntz.Consistent ∧ entry.nextntz.Consistent
  txproofCache : ∀ entry ∈ S.txproofCache, entry.tx.Consistent ∧ entry.txproof.Consistent

/-- No response of a run is read behind its end, and each one leaves the client consistent. -/
def Sound : Superlite → List Reception → Prop
  | _, [] => True
  | S, r :: rs => ∃ S', S.komodoNSPVresp r = some S' ∧ S'.Consistent ∧ Sound S' rs

end Superlite

end Msg

end NSPV
end Komodo
