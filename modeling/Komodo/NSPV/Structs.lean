/-
# The structures of nSPV responses and their bytes

The structures of `src/src/komodo_nSPV_defs.h` and the functions `NSPV_rw...` of
`src/src/komodo_nSPV.h`, with `iguana_rwnum` and `iguana_rwbignum` of `src/src/komodo_utils.cpp`.

A pointer with its count is a `Counted`: the count as it is stored, and the elements that are held
behind the pointer, none behind a null pointer.  Each function is taken apart into its writing and
its reading half.  A reader takes bytes off the front of what is left of the response, and has no
value where it would read behind the end; it fills a structure that has been cleared.

`Codec` matches the two halves: a reader finds exactly what has been written, in the bytes that are
written for it and in no others.  Of a vector of bytes whose length is out of range only the length
is written, and read.
-/

import Komodo.NSPV.Server

namespace Komodo
namespace NSPV

open Streams Unserialize

/-- An array behind a pointer: its count and what is held. -/
structure Counted (α : Type) where
  num : ℤ := 0
  held : List α := []

/-- The count is that of the elements that are held, or says that there are none. -/
def Counted.Consistent {α : Type} (v : Counted α) : Prop := v.num ≤ 0 ∨ v.num = v.held.length

namespace Msg

/-! ### Vectors -/

/-- An array with a `uint16_t` in front, when it is written. -/
def vecBytes {α : Type} (write : α → Bytes) (v : Counted α) : Bytes :=
  leBytes 2 v.num.toNat ++ ((v.held.take v.num.toNat).map write).flatten

/-- An array with a `uint16_t` in front, when it is read. -/
def rwvec {α : Type} (one : Unserialize α) : Unserialize (Counted α) := do
  let num ← uint 2
  let held ← many one num
  pure { num, held }

/-- `iguana_rwuint8vec` in writing. -/
def uint8vecBytes (v : Counted UInt8) : Bytes :=
  intBytes 4 v.num
    ++ if 0 < v.num ∧ v.num < MAX_TX_SIZE_AFTER_SAPLING then v.held.take v.num.toNat else []

/-- `iguana_rwuint8vec` in reading.  The length is kept also when it is out of range. -/
def rwuint8vec : Unserialize (Counted UInt8) := do
  let num ← int 4
  let held ← if 0 < num ∧ num < MAX_TX_SIZE_AFTER_SAPLING then bytes num.toNat else pure []
  pure { num, held }

def VecFits {α : Type} (Ok : α → Prop) (v : Counted α) : Prop :=
  v.num = v.held.length ∧ v.held.length < 256 ^ 2 ∧ ∀ a ∈ v.held, Ok a

def Uint8vecFits (v : Counted UInt8) : Prop :=
  IntRange 4 v.num ∧
    if 0 < v.num ∧ v.num < MAX_TX_SIZE_AFTER_SAPLING then v.num = v.held.length else v.held = []

theorem codec_vec {α : Type} {one : Unserialize α} {write : α → Bytes} {Ok : α → Prop}
    (h : Codec one write Ok) : Codec (rwvec one) (vecBytes write) (VecFits Ok) := by
  refine Codec.of_eq_some fun s s' v => ?_
  simp only [rwvec, (codec_uint _).bind_eq_some, (codec_many h _).bind_eq_some, pure_apply,
    Option.some.injEq, Prod.mk.injEq, vecBytes, VecFits, List.append_assoc]
  constructor
  · rintro ⟨n, hn, _, rfl, held, ⟨rfl, hall⟩, _, rfl, rfl, rfl⟩
    refine ⟨⟨rfl, hn, hall⟩, ?_⟩
    rw [Int.toNat_natCast, List.take_length]
  · rintro ⟨⟨hnum, hlen, hall⟩, rfl⟩
    obtain ⟨num, held⟩ := v
    simp only at hnum hlen hall
    subst hnum
    refine ⟨held.length, hlen, _, ?_, held, ⟨rfl, hall⟩, _, rfl, rfl, rfl⟩
    rw [Int.toNat_natCast, List.take_length]

theorem codec_uint8vec : Codec rwuint8vec uint8vecBytes Uint8vecFits := by
  refine Codec.of_eq_some fun s s' v => ?_
  simp only [rwuint8vec, (codec_int (show 0 < 4 by omega)).bind_eq_some, uint8vecBytes,
    Uint8vecFits, List.append_assoc]
  constructor
  · rintro ⟨n, hn, t, rfl, hrest⟩
    by_cases hin : 0 < n ∧ n < MAX_TX_SIZE_AFTER_SAPLING
    · rw [if_pos hin, bind_apply, Option.bind_eq_some_iff] at hrest
      obtain ⟨⟨held, t'⟩, hbytes, hpure⟩ := hrest
      obtain ⟨rfl, hlen⟩ := splitBytes_eq_some.1 hbytes
      cases hpure
      have hnum : n = held.length := by omega
      refine ⟨⟨hn, by rwa [if_pos hin]⟩, ?_⟩
      rw [if_pos hin, ← hlen, List.take_length]
    · rw [if_neg hin] at hrest
      cases hrest
      refine ⟨⟨hn, by rw [if_neg hin]⟩, by rw [if_neg hin, List.nil_append]⟩
  · rintro ⟨⟨hn, hheld⟩, rfl⟩
    obtain ⟨num, held⟩ := v
    simp only at hn hheld
    refine ⟨num, hn, _, rfl, ?_⟩
    by_cases hin : 0 < num ∧ num < MAX_TX_SIZE_AFTER_SAPLING
    · rw [if_pos hin] at hheld ⊢
      have hlen : held.length = num.toNat := by omega
      rw [if_pos hin, bind_apply, ← hlen, List.take_length]
      show (splitBytes held.length (held ++ s')).bind _ = _
      rw [splitBytes_append]
      rfl
    · rw [if_neg hin] at hheld ⊢
      rw [if_neg hin, hheld]
      rfl

/-! ### Headers and notarizations -/

/-- `NSPV_rwequihdr` in writing. -/
def equihdrBytes (h : EquiHdr) : Bytes :=
  intBytes 4 h.nVersion ++ uint256Bytes h.hashPrevBlock ++ uint256Bytes h.hashMerkleRoot
    ++ uint256Bytes h.hashFinalSaplingRoot ++ leBytes 4 h.nTime ++ leBytes 4 h.nBits
    ++ uint256Bytes h.nNonce ++ h.nSolution.1

/-- `NSPV_rwequihdr` in reading. -/
def rwequihdr : Unserialize EquiHdr := do
  let nVersion ← int 4
  let hashPrevBlock ← uint256
  let hashMerkleRoot ← uint256
  let hashFinalSaplingRoot ← uint256
  let nTime ← uint 4
  let nBits ← uint 4
  let nNonce ← uint256
  let nSolution ← array 1344
  pure { nVersion, hashPrevBlock, hashMerkleRoot, hashFinalSaplingRoot, nTime, nBits, nNonce
         nSolution }

def EquihdrFits (h : EquiHdr) : Prop :=
  IntRange 4 h.nVersion ∧ h.hashPrevBlock < 2 ^ 256 ∧ h.hashMerkleRoot < 2 ^ 256
    ∧ h.hashFinalSaplingRoot < 2 ^ 256 ∧ h.nTime < 256 ^ 4 ∧ h.nBits < 256 ^ 4 ∧ h.nNonce < 2 ^ 256

theorem codec_equihdr : Codec rwequihdr equihdrBytes EquihdrFits :=
  ReadsRest.codec
    (.field EquiHdr.nVersion (codec_int (by omega)) fun _ =>
      .field EquiHdr.hashPrevBlock codec_uint256 fun _ =>
      .field EquiHdr.hashMerkleRoot codec_uint256 fun _ =>
      .field EquiHdr.hashFinalSaplingRoot codec_uint256 fun _ =>
      .field EquiHdr.nTime (codec_uint _) fun _ => .field EquiHdr.nBits (codec_uint _) fun _ =>
      .field EquiHdr.nNonce codec_uint256 fun _ =>
      .field EquiHdr.nSolution (codec_array _) fun _ => .done)
    (by simp [equihdrBytes]) (by simp [EquihdrFits])

/-- `NSPV_rwntz` in writing. -/
def ntzBytes (n : Ntz) : Bytes :=
  uint256Bytes n.blockhash ++ uint256Bytes n.txid ++ uint256Bytes n.othertxid ++ intBytes 4 n.height
    ++ intBytes 4 n.txidheight ++ leBytes 4 n.timestamp

/-- `NSPV_rwntz` in reading. -/
def rwntz : Unserialize Ntz := do
  let blockhash ← uint256
  let txid ← uint256
  let othertxid ← uint256
  let height ← int 4
  let txidheight ← int 4
  let timestamp ← uint 4
  pure { blockhash, txid, othertxid, height, txidheight, timestamp }

def NtzFits (n : Ntz) : Prop :=
  n.blockhash < 2 ^ 256 ∧ n.txid < 2 ^ 256 ∧ n.othertxid < 2 ^ 256 ∧ IntRange 4 n.height
    ∧ IntRange 4 n.txidheight ∧ n.timestamp < 256 ^ 4

theorem codec_ntz : Codec rwntz ntzBytes NtzFits :=
  ReadsRest.codec
    (.field Ntz.blockhash codec_uint256 fun _ => .field Ntz.txid codec_uint256 fun _ =>
      .field Ntz.othertxid codec_uint256 fun _ =>
      .field Ntz.height (codec_int (by omega)) fun _ =>
      .field Ntz.txidheight (codec_int (by omega)) fun _ =>
      .field Ntz.timestamp (codec_uint _) fun _ => .done)
    (by simp [ntzBytes]) (by simp [NtzFits])

/-- `NSPV_ntzsresp`. -/
structure NtzsResp where
  prevntz : Ntz := {}
  nextntz : Ntz := {}
  reqheight : ℤ := 0

namespace NtzsResp

/-- `NSPV_rwntzsresp` in writing. -/
def serialize (r : NtzsResp) : Bytes :=
  ntzBytes r.prevntz ++ ntzBytes r.nextntz ++ intBytes 4 r.reqheight

/-- `NSPV_rwntzsresp` in reading. -/
def unserialize : Unserialize NtzsResp := do
  let prevntz ← rwntz
  let nextntz ← rwntz
  let reqheight ← int 4
  pure { prevntz, nextntz, reqheight }

def Fits (r : NtzsResp) : Prop := NtzFits r.prevntz ∧ NtzFits r.nextntz ∧ IntRange 4 r.reqheight

theorem codec : Codec unserialize serialize Fits :=
  ReadsRest.codec
    (.field prevntz codec_ntz fun _ => .field nextntz codec_ntz fun _ =>
      .field reqheight (codec_int (by omega)) fun _ => .done)
    (by simp [serialize]) (by simp [Fits])

end NtzsResp

/-- `NSPV_inforesp`. -/
structure InfoResp where
  notarization : Ntz := {}
  blockhash : Uint256 := 0
  height : ℤ := 0
  hdrheight : ℤ := 0
  H : EquiHdr
  version : ℕ := 0

namespace InfoResp

/-- `NSPV_rwinforesp` in writing. -/
def serialize (r : InfoResp) : Bytes :=
  ntzBytes r.notarization ++ uint256Bytes r.blockhash ++ intBytes 4 r.height
    ++ intBytes 4 r.hdrheight ++ equihdrBytes r.H ++ leBytes 4 r.version

/-- `NSPV_rwinforesp` in reading. -/
def unserialize : Unserialize InfoResp := do
  let notarization ← rwntz
  let blockhash ← uint256
  let height ← int 4
  let hdrheight ← int 4
  let H ← rwequihdr
  let version ← uint 4
  pure { notarization, blockhash, height, hdrheight, H, version }

def Fits (r : InfoResp) : Prop :=
  NtzFits r.notarization ∧ r.blockhash < 2 ^ 256 ∧ IntRange 4 r.height ∧ IntRange 4 r.hdrheight
    ∧ EquihdrFits r.H ∧ r.version < 256 ^ 4

theorem codec : Codec unserialize serialize Fits :=
  ReadsRest.codec
    (.field notarization codec_ntz fun _ => .field blockhash codec_uint256 fun _ =>
      .field height (codec_int (by omega)) fun _ =>
      .field hdrheight (codec_int (by omega)) fun _ => .field H codec_equihdr fun _ =>
      .field version (codec_uint _) fun _ => .done)
    (by simp [serialize]) (by simp [Fits])

end InfoResp

/-! ### Addresses and the mempool -/

/-- `NSPV_utxoresp`. -/
structure UtxoResp where
  txid : Uint256
  satoshis : ℤ
  extradata : ℤ
  vout : ℤ
  height : ℤ

namespace UtxoResp

/-- `NSPV_rwutxoresp` in writing. -/
def serialize (r : UtxoResp) : Bytes :=
  uint256Bytes r.txid ++ intBytes 8 r.satoshis ++ intBytes 8 r.extradata ++ intBytes 4 r.vout
    ++ intBytes 4 r.height

/-- `NSPV_rwutxoresp` in reading. -/
def unserialize : Unserialize UtxoResp := do
  let txid ← uint256
  let satoshis ← int 8
  let extradata ← int 8
  let vout ← int 4
  let height ← int 4
  pure { txid, satoshis, extradata, vout, height }

def Fits (r : UtxoResp) : Prop :=
  r.txid < 2 ^ 256 ∧ IntRange 8 r.satoshis ∧ IntRange 8 r.extradata ∧ IntRange 4 r.vout
    ∧ IntRange 4 r.height

theorem codec : Codec unserialize serialize Fits :=
  ReadsRest.codec
    (.field txid codec_uint256 fun _ => .field satoshis (codec_int (by omega)) fun _ =>
      .field extradata (codec_int (by omega)) fun _ =>
      .field vout (codec_int (by omega)) fun _ => .field height (codec_int (by omega)) fun _ =>
      .done)
    (by simp [serialize]) (by simp [Fits])

end UtxoResp

/-- `NSPV_utxosresp`. -/
structure UtxosResp where
  utxos : Counted UtxoResp := {}
  total : ℤ := 0
  interest : ℤ := 0
  nodeheight : ℤ := 0
  filter : ℤ := 0
  CCflag : ℕ := 0
  skipcount : ℤ := 0
  coinaddr : ByteArr 64 := ByteArr.zero 64

namespace UtxosResp

/-- `NSPV_rwutxosresp` in writing. -/
def serialize (r : UtxosResp) : Bytes :=
  vecBytes UtxoResp.serialize r.utxos ++ intBytes 8 r.total ++ intBytes 8 r.interest
    ++ intBytes 4 r.nodeheight ++ intBytes 4 r.filter ++ leBytes 2 r.CCflag
    ++ intBytes 4 r.skipcount ++ r.coinaddr.1

/-- `NSPV_rwutxosresp` in reading. -/
def unserialize : Unserialize UtxosResp := do
  let utxos ← rwvec UtxoResp.unserialize
  let total ← int 8
  let interest ← int 8
  let nodeheight ← int 4
  let filter ← int 4
  let CCflag ← uint 2
  let skipcount ← int 4
  let coinaddr ← array 64
  pure { utxos, total, interest, nodeheight, filter, CCflag, skipcount, coinaddr }

def Fits (r : UtxosResp) : Prop :=
  VecFits UtxoResp.Fits r.utxos ∧ IntRange 8 r.total ∧ IntRange 8 r.interest
    ∧ IntRange 4 r.nodeheight ∧ IntRange 4 r.filter ∧ r.CCflag < 256 ^ 2 ∧ IntRange 4 r.skipcount

theorem codec : Codec unserialize serialize Fits :=
  ReadsRest.codec
    (.field utxos (codec_vec UtxoResp.codec) fun _ =>
      .field total (codec_int (by omega)) fun _ =>
      .field interest (codec_int (by omega)) fun _ =>
      .field nodeheight (codec_int (by omega)) fun _ =>
      .field filter (codec_int (by omega)) fun _ => .field CCflag (codec_uint _) fun _ =>
      .field skipcount (codec_int (by omega)) fun _ => .field coinaddr (codec_array _) fun _ =>
      .done)
    (by simp [serialize]) (by simp [Fits])

end UtxosResp

/-- `NSPV_txidresp`. -/
structure TxidResp where
  txid : Uint256
  satoshis : ℤ
  vout : ℤ
  height : ℤ

namespace TxidResp

/-- `NSPV_rwtxidresp` in writing. -/
def serialize (r : TxidResp) : Bytes :=
  uint256Bytes r.txid ++ intBytes 8 r.satoshis ++ intBytes 4 r.vout ++ intBytes 4 r.height

/-- `NSPV_rwtxidresp` in reading. -/
def unserialize : Unserialize TxidResp := do
  let txid ← uint256
  let satoshis ← int 8
  let vout ← int 4
  let height ← int 4
  pure { txid, satoshis, vout, height }

def Fits (r : TxidResp) : Prop :=
  r.txid < 2 ^ 256 ∧ IntRange 8 r.satoshis ∧ IntRange 4 r.vout ∧ IntRange 4 r.height

theorem codec : Codec unserialize serialize Fits :=
  ReadsRest.codec
    (.field txid codec_uint256 fun _ => .field satoshis (codec_int (by omega)) fun _ =>
      .field vout (codec_int (by omega)) fun _ => .field height (codec_int (by omega)) fun _ =>
      .done)
    (by simp [serialize]) (by simp [Fits])

end TxidResp

/-- `NSPV_txidsresp`. -/
structure TxidsResp where
  txids : Counted TxidResp := {}
  nodeheight : ℤ := 0
  filter : ℤ := 0
  CCflag : ℕ := 0
  skipcount : ℤ := 0
  coinaddr : ByteArr 64 := ByteArr.zero 64

namespace TxidsResp

/-- `NSPV_rwtxidsresp` in writing. -/
def serialize (r : TxidsResp) : Bytes :=
  vecBytes TxidResp.serialize r.txids ++ intBytes 4 r.nodeheight ++ intBytes 4 r.filter
    ++ leBytes 2 r.CCflag ++ intBytes 4 r.skipcount ++ r.coinaddr.1

/-- `NSPV_rwtxidsresp` in reading. -/
def unserialize : Unserialize TxidsResp := do
  let txids ← rwvec TxidResp.unserialize
  let nodeheight ← int 4
  let filter ← int 4
  let CCflag ← uint 2
  let skipcount ← int 4
  let coinaddr ← array 64
  pure { txids, nodeheight, filter, CCflag, skipcount, coinaddr }

def Fits (r : TxidsResp) : Prop :=
  VecFits TxidResp.Fits r.txids ∧ IntRange 4 r.nodeheight ∧ IntRange 4 r.filter
    ∧ r.CCflag < 256 ^ 2 ∧ IntRange 4 r.skipcount

theorem codec : Codec unserialize serialize Fits :=
  ReadsRest.codec
    (.field txids (codec_vec TxidResp.codec) fun _ =>
      .field nodeheight (codec_int (by omega)) fun _ =>
      .field filter (codec_int (by omega)) fun _ => .field CCflag (codec_uint _) fun _ =>
      .field skipcount (codec_int (by omega)) fun _ => .field coinaddr (codec_array _) fun _ =>
      .done)
    (by simp [serialize]) (by simp [Fits])

end TxidsResp

/-- `NSPV_mempoolresp`. -/
structure MempoolResp where
  txids : Counted Uint256 := {}
  txid : Uint256 := 0
  nodeheight : ℤ := 0
  vout : ℤ := 0
  vindex : ℤ := 0
  CCflag : UInt8 := 0
  funcid : UInt8 := 0
  coinaddr : ByteArr 64 := ByteArr.zero 64

namespace MempoolResp

/-- `NSPV_rwmempoolresp` in writing. -/
def serialize (r : MempoolResp) : Bytes :=
  vecBytes uint256Bytes r.txids ++ uint256Bytes r.txid ++ intBytes 4 r.nodeheight
    ++ intBytes 4 r.vout ++ intBytes 4 r.vindex ++ [r.CCflag] ++ [r.funcid] ++ r.coinaddr.1

/-- `NSPV_rwmempoolresp` in reading. -/
def unserialize : Unserialize MempoolResp := do
  let txids ← rwvec uint256
  let txid ← uint256
  let nodeheight ← int 4
  let vout ← int 4
  let vindex ← int 4
  let CCflag ← uint8
  let funcid ← uint8
  let coinaddr ← array 64
  pure { txids, txid, nodeheight, vout, vindex, CCflag, funcid, coinaddr }

def Fits (r : MempoolResp) : Prop :=
  VecFits (· < 2 ^ 256) r.txids ∧ r.txid < 2 ^ 256 ∧ IntRange 4 r.nodeheight ∧ IntRange 4 r.vout
    ∧ IntRange 4 r.vindex

theorem codec : Codec unserialize serialize Fits :=
  ReadsRest.codec
    (.field txids (codec_vec codec_uint256) fun _ => .field txid codec_uint256 fun _ =>
      .field nodeheight (codec_int (by omega)) fun _ =>
      .field vout (codec_int (by omega)) fun _ => .field vindex (codec_int (by omega)) fun _ =>
      .field CCflag codec_uint8 fun _ => .field funcid codec_uint8 fun _ =>
      .field coinaddr (codec_array _) fun _ => .done)
    (by simp [serialize]) (by simp [Fits])

end MempoolResp

/-! ### Proofs -/

/-- `NSPV_txproof`. -/
structure TxProof where
  txid : Uint256 := 0
  unspentvalue : ℤ := 0
  height : ℤ := 0
  vout : ℤ := 0
  tx : Counted UInt8 := {}
  txproof : Counted UInt8 := {}
  hashblock : Uint256 := 0

namespace TxProof

/-- `NSPV_rwtxproof` in writing. -/
def serialize (r : TxProof) : Bytes :=
  uint256Bytes r.txid ++ intBytes 8 r.unspentvalue ++ intBytes 4 r.height ++ intBytes 4 r.vout
    ++ uint8vecBytes r.tx ++ uint8vecBytes r.txproof ++ uint256Bytes r.hashblock

/-- `NSPV_rwtxproof` in reading. -/
def unserialize : Unserialize TxProof := do
  let txid ← uint256
  let unspentvalue ← int 8
  let height ← int 4
  let vout ← int 4
  let tx ← rwuint8vec
  let txproof ← rwuint8vec
  let hashblock ← uint256
  pure { txid, unspentvalue, height, vout, tx, txproof, hashblock }

def Fits (r : TxProof) : Prop :=
  r.txid < 2 ^ 256 ∧ IntRange 8 r.unspentvalue ∧ IntRange 4 r.height ∧ IntRange 4 r.vout
    ∧ Uint8vecFits r.tx ∧ Uint8vecFits r.txproof ∧ r.hashblock < 2 ^ 256

theorem codec : Codec unserialize serialize Fits :=
  ReadsRest.codec
    (.field txid codec_uint256 fun _ => .field unspentvalue (codec_int (by omega)) fun _ =>
      .field height (codec_int (by omega)) fun _ => .field vout (codec_int (by omega)) fun _ =>
      .field tx codec_uint8vec fun _ => .field txproof codec_uint8vec fun _ =>
      .field hashblock codec_uint256 fun _ => .done)
    (by simp [serialize]) (by simp [Fits])

end TxProof

/-- `NSPV_ntzproofshared`. -/
structure NtzProofShared where
  hdrs : Counted EquiHdr := {}
  prevht : ℤ := 0
  nextht : ℤ := 0
  pad32 : ℤ := 0
  pad16 : ℕ := 0

namespace NtzProofShared

/-- `NSPV_rwntzproofshared` in writing. -/
def serialize (r : NtzProofShared) : Bytes :=
  vecBytes equihdrBytes r.hdrs ++ intBytes 4 r.prevht ++ intBytes 4 r.nextht ++ intBytes 4 r.pad32
    ++ leBytes 2 r.pad16

/-- `NSPV_rwntzproofshared` in reading. -/
def unserialize : Unserialize NtzProofShared := do
  let hdrs ← rwvec rwequihdr
  let prevht ← int 4
  let nextht ← int 4
  let pad32 ← int 4
  let pad16 ← uint 2
  pure { hdrs, prevht, nextht, pad32, pad16 }

def Fits (r : NtzProofShared) : Prop :=
  VecFits EquihdrFits r.hdrs ∧ IntRange 4 r.prevht ∧ IntRange 4 r.nextht ∧ IntRange 4 r.pad32
    ∧ r.pad16 < 256 ^ 2

theorem codec : Codec unserialize serialize Fits :=
  ReadsRest.codec
    (.field hdrs (codec_vec codec_equihdr) fun _ => .field prevht (codec_int (by omega)) fun _ =>
      .field nextht (codec_int (by omega)) fun _ => .field pad32 (codec_int (by omega)) fun _ =>
      .field pad16 (codec_uint _) fun _ => .done)
    (by simp [serialize]) (by simp [Fits])

end NtzProofShared

/-- `NSPV_ntzsproofresp`. -/
structure NtzsProofResp where
  common : NtzProofShared := {}
  prevtxid : Uint256 := 0
  nexttxid : Uint256 := 0
  prevtxidht : ℤ := 0
  nexttxidht : ℤ := 0
  prevntz : Counted UInt8 := {}
  nextntz : Counted UInt8 := {}

namespace NtzsProofResp

/-- `NSPV_rwntzsproofresp` in writing. -/
def serialize (r : NtzsProofResp) : Bytes :=
  r.common.serialize ++ uint256Bytes r.prevtxid ++ uint256Bytes r.nexttxid ++ intBytes 4 r.prevtxidht
    ++ intBytes 4 r.nexttxidht ++ uint8vecBytes r.prevntz ++ uint8vecBytes r.nextntz

/-- `NSPV_rwntzsproofresp` in reading. -/
def unserialize : Unserialize NtzsProofResp := do
  let common ← NtzProofShared.unserialize
  let prevtxid ← uint256
  let nexttxid ← uint256
  let prevtxidht ← int 4
  let nexttxidht ← int 4
  let prevntz ← rwuint8vec
  let nextntz ← rwuint8vec
  pure { common, prevtxid, nexttxid, prevtxidht, nexttxidht, prevntz, nextntz }

def Fits (r : NtzsProofResp) : Prop :=
  r.common.Fits ∧ r.prevtxid < 2 ^ 256 ∧ r.nexttxid < 2 ^ 256 ∧ IntRange 4 r.prevtxidht
    ∧ IntRange 4 r.nexttxidht ∧ Uint8vecFits r.prevntz ∧ Uint8vecFits r.nextntz

theorem codec : Codec unserialize serialize Fits :=
  ReadsRest.codec
    (.field common NtzProofShared.codec fun _ => .field prevtxid codec_uint256 fun _ =>
      .field nexttxid codec_uint256 fun _ => .field prevtxidht (codec_int (by omega)) fun _ =>
      .field nexttxidht (codec_int (by omega)) fun _ => .field prevntz codec_uint8vec fun _ =>
      .field nextntz codec_uint8vec fun _ => .done)
    (by simp [serialize]) (by simp [Fits])

end NtzsProofResp

/-- `NSPV_spentinfo`. -/
structure SpentInfo where
  spent : TxProof := {}
  txid : Uint256 := 0
  vout : ℤ := 0
  spentvini : ℤ := 0

namespace SpentInfo

/-- `NSPV_rwspentinfo` in writing. -/
def serialize (r : SpentInfo) : Bytes :=
  r.spent.serialize ++ uint256Bytes r.txid ++ intBytes 4 r.vout ++ intBytes 4 r.spentvini

/-- `NSPV_rwspentinfo` in reading. -/
def unserialize : Unserialize SpentInfo := do
  let spent ← TxProof.unserialize
  let txid ← uint256
  let vout ← int 4
  let spentvini ← int 4
  pure { spent, txid, vout, spentvini }

def Fits (r : SpentInfo) : Prop :=
  r.spent.Fits ∧ r.txid < 2 ^ 256 ∧ IntRange 4 r.vout ∧ IntRange 4 r.spentvini

theorem codec : Codec unserialize serialize Fits :=
  ReadsRest.codec
    (.field spent TxProof.codec fun _ => .field txid codec_uint256 fun _ =>
      .field vout (codec_int (by omega)) fun _ =>
      .field spentvini (codec_int (by omega)) fun _ => .done)
    (by simp [serialize]) (by simp [Fits])

end SpentInfo

/-- `NSPV_broadcastresp`. -/
structure BroadcastResp where
  txid : Uint256 := 0
  retcode : ℤ := 0

namespace BroadcastResp

/-- `NSPV_rwbroadcastresp` in writing. -/
def serialize (r : BroadcastResp) : Bytes := uint256Bytes r.txid ++ intBytes 4 r.retcode

/-- `NSPV_rwbroadcastresp` in reading. -/
def unserialize : Unserialize BroadcastResp := do
  let txid ← uint256
  let retcode ← int 4
  pure { txid, retcode }

def Fits (r : BroadcastResp) : Prop := r.txid < 2 ^ 256 ∧ IntRange 4 r.retcode

theorem codec : Codec unserialize serialize Fits :=
  ReadsRest.codec
    (.field txid codec_uint256 fun _ => .field retcode (codec_int (by omega)) fun _ => .done)
    (by simp [serialize]) (by simp [Fits])

end BroadcastResp

end Msg

end NSPV
end Komodo
