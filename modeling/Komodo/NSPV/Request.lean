/-
# Requests of the nSPV protocol

`komodo_nSPVreq` of `src/src/komodo_nSPV_fullnode.h`, with `iguana_rwnum` and `iguana_rwbignum` of
`src/src/komodo_utils.cpp` for reading.

Each kind of request takes its lengths and offsets from the bytes by hand.  A response whose length
is positive is sent; how it is written is left out.
-/

import Komodo.NSPV.AddressQueries

namespace Komodo
namespace NSPV

open Streams
open Wire hiding CTransaction
open BlockIndexDB hiding CBlockIndex

def NSPV_INFO : UInt8 := 0x00
def NSPV_UTXOS : UInt8 := 0x02
def NSPV_NTZS : UInt8 := 0x04
def NSPV_NTZSPROOF : UInt8 := 0x06
def NSPV_TXPROOF : UInt8 := 0x08
def NSPV_SPENTINFO : UInt8 := 0x0a
def NSPV_BROADCAST : UInt8 := 0x0c
def NSPV_TXIDS : UInt8 := 0x0e
def NSPV_MEMPOOL : UInt8 := 0x10
def NSPV_CCMODULEUTXOS : UInt8 := 0x12
def NSPV_REMOTERPC : UInt8 := 0x14

namespace Server

inductive Response
  | info (I : InfoResp)
  | utxos (U : UtxosResp)
  | txids (T : TxidsResp)
  | mempool (M : MempoolResp)
  | ntzs (N : NtzsResp)
  | ntzsproof (P : NtzsProofResp)
  | txproof (P : TxProof)
  | spentinfo (S : SpentInfo)
  | broadcast (B : BroadcastResp)
  | remoterpc (json : Bytes)
  | ccmoduleutxos (U : UtxosResp)

/-! ### Reading -/

/-- `iguana_rwnum` of `len` bytes of the request, and `iguana_rwbignum` of 32. -/
def rwnum (request : Bytes) (i len : ℕ) : Except BadAccess ℕ :=
  fromLE <$> slice .request request i len

/-- `iguana_rwnum` into an `int32_t`. -/
def rwint (request : Bytes) (i : ℕ) : Except BadAccess ℤ := do
  return int32 (← rwnum request i 4)

/-- `len` bytes of the request copied into a buffer of `size` characters, with a zero behind them:
the string that it holds then. -/
def copyString (request : Bytes) (i len size : ℕ) : Except BadAccess Bytes := do
  let bytes ← slice .request request i len
  if size ≤ len then throw .buffer
  return bytes.takeWhile (· ≠ 0)

variable (S : Server)

/-! ### The kinds of requests -/

/-- `NSPV_INFO`. -/
def infoReq (request : Bytes) : Except BadAccess (Option Response) := do
  let reqheight ← if request.length = 5 then rwint request 1 else pure 0
  return (← S.getinfo reqheight).map .info

/-- What a request for an address asks for. -/
structure AddressReq where
  coinaddr : Bytes
  isCC : Bool
  skipcount : ℤ
  filter : ℕ

/-- The part that `NSPV_UTXOS` and `NSPV_TXIDS` share but for the size of `filter`. -/
def addressReq (filterSize : ℕ) (request : Bytes) : Except BadAccess (Option AddressReq) := do
  let len := request.length
  if ¬ len < 64 + 5 then return none
  let addrlen := (← byteAt .request request 1).toNat
  if addrlen + 3 = len ∨ addrlen + 7 = len ∨ addrlen + 11 = len then
    let coinaddr ← copyString request 2 addrlen 64
    if addrlen + 3 = len then
      let isCC ← byteAt .request request (len - 1)
      return some { coinaddr, isCC := isCC ≠ 0, skipcount := 0, filter := S.staleFilter }
    else if addrlen + 7 = len then
      let isCC ← byteAt .request request (len - 5)
      let skipcount ← rwint request (len - 4)
      return some { coinaddr, isCC := isCC ≠ 0, skipcount, filter := S.staleFilter }
    else
      let isCC ← byteAt .request request (len - 9)
      let skipcount ← rwint request (len - 8)
      let filter ← rwnum request (len - 4) filterSize
      return some { coinaddr, isCC := isCC ≠ 0, skipcount, filter }
  else return none

/-- `NSPV_UTXOS`; `filter` is a `uint8_t`. -/
def utxosReq (request : Bytes) : Except BadAccess (Option Response) := do
  match ← S.addressReq 1 request with
  | some q => return (← S.getaddressutxos q.coinaddr q.isCC q.skipcount q.filter).map .utxos
  | none => return none

/-- `NSPV_TXIDS`.  A request of the wrong length is logged with its second byte. -/
def txidsReq (request : Bytes) : Except BadAccess (Option Response) := do
  match ← S.addressReq 4 request with
  | some q => return (← S.getaddresstxids q.coinaddr q.isCC q.skipcount q.filter).map .txids
  | none =>
    let _ ← byteAt .request request 1
    return none

/-- `NSPV_MEMPOOL`; 120 is the size of `NSPV_mempoolresp`.  A request that is too long is logged
with its second byte. -/
def mempoolReq (request : Bytes) : Except BadAccess (Option Response) := do
  if request.length < 120 + 64 then
    let isCC ← byteAt .request request 1
    let funcid ← byteAt .request request 2
    let vout ← rwint request 3
    let txid ← rwnum request 7 32
    let slen := (← byteAt .request request 39).toNat
    if slen < 63 then
      let coinaddr ← copyString request 40 slen 64
      return (← S.mempooltxids coinaddr isCC funcid txid vout).map .mempool
    return none
  else
    let _ ← byteAt .request request 1
    return none

/-- `NSPV_NTZS`. -/
def ntzsReq (request : Bytes) : Except BadAccess (Option Response) := do
  if request.length = 5 then
    let height ← rwint request 1
    return some (.ntzs (← S.getntzsresp height))
  return none

/-- `NSPV_NTZSPROOF`. -/
def ntzsproofReq (request : Bytes) : Except BadAccess (Option Response) := do
  if request.length = 1 + 32 + 32 then
    let prevntz ← rwnum request 1 32
    let nextntz ← rwnum request 33 32
    return (← S.getntzsproofresp prevntz nextntz).map .ntzsproof
  return none

/-- `NSPV_TXPROOF`. -/
def txproofReq (request : Bytes) : Except BadAccess (Option Response) := do
  if request.length = 1 + 32 + 4 + 4 then
    let height ← rwint request 1
    let vout ← rwint request 5
    let txid ← rwnum request 9 32
    return some (.txproof (S.gettxproof vout txid height))
  return none

/-- `NSPV_SPENTINFO`. -/
def spentinfoReq (request : Bytes) : Except BadAccess (Option Response) := do
  if request.length = 1 + 32 + 4 then
    let vout ← rwint request 1
    let txid ← rwnum request 5 32
    return some (.spentinfo (S.getspentinfo txid vout))
  return none

/-- `NSPV_BROADCAST`. -/
def broadcastReq (request : Bytes) : Except BadAccess (Option Response) := do
  if 1 + 32 + 4 < request.length then
    let _ ← rwnum request 1 32
    let n ← rwnum request 33 4
    if n < MAX_TX_SIZE_AFTER_SAPLING ∧ request.length = 37 + n then
      let data ← slice .request request 37 n
      return some (.broadcast (S.sendrawtransaction data))
  return none

/-- `NSPV_REMOTERPC`. -/
def remoterpcReq (request : Bytes) : Except BadAccess (Option Response) := do
  let slen ← rwint request 1
  if (request.length : ℤ) = 5 + slen then
    let json ← slice .request request 5 slen.toNat
    return some (.remoterpc (S.remoterpc json))
  return none

/-- `NSPV_CCMODULEUTXOS`. -/
def ccmoduleutxosReq (request : Bytes) : Except BadAccess (Option Response) := do
  let minreqlen := 1 + 1 + 20 + 8 + 1 + 1 + 32
  let maxreqlen := 1 + 1 + (64 - 1) + 8 + 1 + 1 + (27 - 1) + 32
  if minreqlen ≤ request.length ∧ request.length ≤ maxreqlen then
    let addrlen := (← byteAt .request request 1).toNat
    if addrlen < 64 then
      let coinaddr ← copyString request 2 addrlen 64
      let amount := (← rwnum request (2 + addrlen) 8 : ℤ).bmod (2 ^ 64)
      let evalcode ← byteAt .request request (10 + addrlen)
      let funcidslen := (← byteAt .request request (11 + addrlen)).toNat
      if funcidslen < 27 then
        let funcids ← copyString request (12 + addrlen) funcidslen 27
        let filtertxid ← rwnum request (12 + addrlen + funcidslen) 32
        return (← S.getccmoduleutxos coinaddr amount evalcode funcids filtertxid).map .ccmoduleutxos
  return none

/-! ### The requests of a peer -/

/-- `CNode`: when the requests of a kind were served last. -/
structure Peer where
  prevtimes : Fin 16 → ℕ

/-- The place in `prevtimes` for a kind of request. -/
def timeIndex (kind : UInt8) : Fin 16 := ⟨min (kind.toNat / 2) 15, by omega⟩

/-- The answer to a request of a kind. -/
def answer (kind : UInt8) (request : Bytes) : Except BadAccess (Option Response) :=
  if kind = NSPV_INFO then S.infoReq request
  else if kind = NSPV_UTXOS then S.utxosReq request
  else if kind = NSPV_TXIDS then S.txidsReq request
  else if kind = NSPV_MEMPOOL then S.mempoolReq request
  else if kind = NSPV_NTZS then S.ntzsReq request
  else if kind = NSPV_NTZSPROOF then S.ntzsproofReq request
  else if kind = NSPV_TXPROOF then S.txproofReq request
  else if kind = NSPV_SPENTINFO then S.spentinfoReq request
  else if kind = NSPV_BROADCAST then S.broadcastReq request
  else if kind = NSPV_REMOTERPC then S.remoterpcReq request
  else if kind = NSPV_CCMODULEUTXOS then S.ccmoduleutxosReq request
  else pure none

/-- `komodo_nSPVreq`: the peer afterwards, and what is sent to it. -/
def komodoNSPVreq (pfrom : Peer) (timestamp : ℕ) (request : Bytes) :
    Except BadAccess (Peer × Option Response) := do
  match request.head? with
  | none => return (pfrom, none)
  | some kind =>
    let ind := timeIndex kind
    let prevtime := if timestamp < pfrom.prevtimes ind then 0 else pfrom.prevtimes ind
    let times (t : ℕ) : Peer := { prevtimes := Function.update pfrom.prevtimes ind t }
    if prevtime < timestamp then
      match ← S.answer kind request with
      | some response => return (times timestamp, some response)
      | none => return (times prevtime, none)
    else return (times prevtime, none)

end Server
end NSPV
end Komodo
