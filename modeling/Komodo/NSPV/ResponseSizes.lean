/-
# The sizes of nSPV responses

The lengths that the functions `NSPV_get...` of `src/src/komodo_nSPV_fullnode.h` return, and how
`komodo_nSPVreq` sends a response: it is written behind its kind, and sent when as many bytes were
written as the length says.

The lengths are computed from the sizes of the structures of `src/src/komodo_nSPV_defs.h` on a
machine of 64 bits.  No structure has padding, which is why its size without its pointers is the
number of bytes of its fields.
-/

import Komodo.NSPV.Request
import Komodo.NSPV.Structs

namespace Komodo
namespace NSPV

open Streams Unserialize List

namespace Msg

/-! ### The layout of structures -/

/-- What a type takes in memory. -/
structure CType where
  size : ℕ
  align : ℕ
deriving DecidableEq

namespace CType

/-- The first multiple of the alignment at or behind an offset. -/
def alignUp (t : CType) (offset : ℕ) : ℕ := (offset + t.align - 1) / t.align * t.align

def array (n : ℕ) (t : CType) : CType := ⟨n * t.size, t.align⟩

/-- The offset behind the last of the fields. -/
def endOf (fields : List CType) : ℕ :=
  fields.foldl (fun offset t => t.alignUp offset + t.size) 0

/-- A structure: each field behind the one before it, and the size a multiple of the largest
alignment. -/
def struct (fields : List CType) : CType :=
  let align := (fields.map CType.align).foldl max 1
  ⟨alignUp ⟨0, align⟩ (endOf fields), align⟩

def uint8 : CType := ⟨1, 1⟩
def uint16 : CType := ⟨2, 2⟩
def int32 : CType := ⟨4, 4⟩
def uint32 : CType := ⟨4, 4⟩
def int64 : CType := ⟨8, 8⟩
def pointer : CType := ⟨8, 8⟩

/-- `uint256`, whose bytes are aligned as those of a `uint32_t`. -/
def uint256 : CType := ⟨32, 4⟩

end CType

def NSPV_equihdr : CType :=
  .struct [.int32, .uint256, .uint256, .uint256, .uint32, .uint32, .uint256, .array 1344 .uint8]

def NSPV_utxoresp : CType := .struct [.uint256, .int64, .int64, .int32, .int32]

def NSPV_utxosresp : CType :=
  .struct [.pointer, .array 64 .uint8, .int64, .int64, .int32, .int32, .int32, .uint16, .uint16]

def NSPV_txidresp : CType := .struct [.uint256, .int64, .int32, .int32]

def NSPV_txidsresp : CType :=
  .struct [.pointer, .array 64 .uint8, .int32, .int32, .int32, .uint16, .uint16]

def NSPV_mempoolresp : CType :=
  .struct [.pointer, .array 64 .uint8, .uint256, .int32, .int32, .int32, .uint16, .uint8, .uint8]

def NSPV_ntz : CType := .struct [.uint256, .uint256, .uint256, .int32, .int32, .uint32]

def NSPV_ntzsresp : CType := .struct [NSPV_ntz, NSPV_ntz, .int32]

def NSPV_inforesp : CType := .struct [NSPV_ntz, .uint256, .int32, .int32, NSPV_equihdr, .uint32]

def NSPV_txproof : CType :=
  .struct [.uint256, .int64, .int32, .int32, .int32, .int32, .pointer, .pointer, .uint256]

def NSPV_ntzproofshared : CType := .struct [.pointer, .int32, .int32, .int32, .uint16, .uint16]

def NSPV_ntzsproofresp : CType :=
  .struct [NSPV_ntzproofshared, .uint256, .uint256, .int32, .int32, .int32, .int32, .pointer, .pointer]

def NSPV_spentinfo : CType := .struct [NSPV_txproof, .uint256, .int32, .int32]

def NSPV_broadcastresp : CType := .struct [.uint256, .int32]

/-! ### Responses -/

/-- A response of one of the kinds whose length is checked before it is sent. -/
inductive Response
  | info (I : InfoResp)
  | utxos (U : UtxosResp)
  | txids (T : TxidsResp)
  | mempool (M : MempoolResp)
  | ntzs (N : NtzsResp)
  | ntzsproof (P : NtzsProofResp)
  | txproof (P : TxProof)
  | spentinfo (S : SpentInfo)
  | broadcast (B : BroadcastResp)
  | ccmoduleutxos (U : UtxosResp)

def NSPV_INFORESP : UInt8 := 0x01
def NSPV_UTXOSRESP : UInt8 := 0x03
def NSPV_NTZSRESP : UInt8 := 0x05
def NSPV_NTZSPROOFRESP : UInt8 := 0x07
def NSPV_TXPROOFRESP : UInt8 := 0x09
def NSPV_SPENTINFORESP : UInt8 := 0x0b
def NSPV_BROADCASTRESP : UInt8 := 0x0d
def NSPV_TXIDSRESP : UInt8 := 0x0f
def NSPV_MEMPOOLRESP : UInt8 := 0x11
def NSPV_CCMODULEUTXOSRESP : UInt8 := 0x13

namespace Response

/-- The first byte. -/
def kind : Response → UInt8
  | info _ => NSPV_INFORESP
  | utxos _ => NSPV_UTXOSRESP
  | txids _ => NSPV_TXIDSRESP
  | mempool _ => NSPV_MEMPOOLRESP
  | ntzs _ => NSPV_NTZSRESP
  | ntzsproof _ => NSPV_NTZSPROOFRESP
  | txproof _ => NSPV_TXPROOFRESP
  | spentinfo _ => NSPV_SPENTINFORESP
  | broadcast _ => NSPV_BROADCASTRESP
  | ccmoduleutxos _ => NSPV_CCMODULEUTXOSRESP

/-- The bytes behind the kind. -/
def serialize : Response → Bytes
  | info I => I.serialize
  | utxos U => U.serialize
  | txids T => T.serialize
  | mempool M => M.serialize
  | ntzs N => N.serialize
  | ntzsproof P => P.serialize
  | txproof P => P.serialize
  | spentinfo S => S.serialize
  | broadcast B => B.serialize
  | ccmoduleutxos U => U.serialize

/-- The response of a kind, read from the bytes behind it. -/
def unserialize (kind : UInt8) : Unserialize Response :=
  if kind = NSPV_INFORESP then info <$> InfoResp.unserialize
  else if kind = NSPV_UTXOSRESP then utxos <$> UtxosResp.unserialize
  else if kind = NSPV_TXIDSRESP then txids <$> TxidsResp.unserialize
  else if kind = NSPV_MEMPOOLRESP then mempool <$> MempoolResp.unserialize
  else if kind = NSPV_NTZSRESP then ntzs <$> NtzsResp.unserialize
  else if kind = NSPV_NTZSPROOFRESP then ntzsproof <$> NtzsProofResp.unserialize
  else if kind = NSPV_TXPROOFRESP then txproof <$> TxProof.unserialize
  else if kind = NSPV_SPENTINFORESP then spentinfo <$> SpentInfo.unserialize
  else if kind = NSPV_BROADCASTRESP then broadcast <$> BroadcastResp.unserialize
  else if kind = NSPV_CCMODULEUTXOSRESP then ccmoduleutxos <$> UtxosResp.unserialize
  else fun _ => none

/-- The length of `NSPV_getaddressutxos` and `NSPV_getccmoduleutxos`. -/
def utxosLen (U : UtxosResp) : ℤ :=
  NSPV_utxosresp.size + NSPV_utxoresp.size * U.utxos.num - CType.pointer.size

/-- The length of `NSPV_getaddresstxids`. -/
def txidsLen (T : TxidsResp) : ℤ :=
  NSPV_txidsresp.size + NSPV_txidresp.size * T.txids.num - CType.pointer.size

/-- The length of `NSPV_mempooltxids`. -/
def mempoolLen (M : MempoolResp) : ℤ :=
  NSPV_mempoolresp.size + CType.uint256.size * M.txids.num - CType.pointer.size

/-- The length of `NSPV_getntzsproofresp`. -/
def ntzsproofLen (P : NtzsProofResp) : ℤ :=
  NSPV_ntzsproofresp.size + NSPV_equihdr.size * P.common.hdrs.num - CType.pointer.size
    - CType.pointer.size - CType.pointer.size + P.prevntz.num + P.nextntz.num

/-- The length of `NSPV_gettxproof`. -/
def txproofLen (P : TxProof) : ℤ :=
  NSPV_txproof.size - CType.pointer.size - CType.pointer.size + P.tx.num + P.txproof.num

/-- The length of `NSPV_getspentinfo`, with whether `CCgetspenttxid` has found the spending
transaction. -/
def spentinfoLen (found : Bool) (S : SpentInfo) : ℤ :=
  let len : ℤ := NSPV_spentinfo.size - CType.pointer.size - CType.pointer.size
  if found then len + (S.spent.tx.num + S.spent.txproof.num) else len

/-- `slen`, as the function that has filled the structure returns it. -/
def slen (found : Bool) : Response → ℤ
  | info _ => int32 NSPV_inforesp.size
  | utxos U => int32 (utxosLen U)
  | txids T => int32 (txidsLen T)
  | mempool M => int32 (mempoolLen M)
  | ntzs _ => int32 NSPV_ntzsresp.size
  | ntzsproof P => int32 (ntzsproofLen P)
  | txproof P => int32 (txproofLen P)
  | spentinfo S => int32 (spentinfoLen found S)
  | broadcast _ => int32 NSPV_broadcastresp.size
  | ccmoduleutxos U => int32 (utxosLen U)

/-- What `komodo_nSPVreq` sends: the kind and the structure, when the length that it takes is the
one that is expected. -/
def push (found : Bool) (R : Response) : Option Bytes :=
  if 0 < R.slen found ∧ (R.serialize.length : ℤ) = R.slen found then some (R.kind :: R.serialize)
  else none

end Response

/-! ### What a full node builds -/

/-- A transaction or a proof as it is held: none, or shorter than is allowed. -/
def Uint8vecBuilt (v : Counted UInt8) : Prop :=
  v.num = v.held.length ∧ v.num < MAX_TX_SIZE_AFTER_SAPLING

namespace Response

/-- The fields are in the ranges of their types, the counts are those of what is held, and
transactions and proofs are short enough.  A spending transaction that was not found is empty. -/
def Built (found : Bool) : Response → Prop
  | info I => I.Fits
  | utxos U => U.Fits
  | txids T => T.Fits
  | mempool M => M.Fits
  | ntzs N => N.Fits
  | ntzsproof P => P.Fits ∧ Uint8vecBuilt P.prevntz ∧ Uint8vecBuilt P.nextntz
  | txproof P => P.Fits ∧ Uint8vecBuilt P.tx ∧ Uint8vecBuilt P.txproof
  | spentinfo S => S.Fits ∧ Uint8vecBuilt S.spent.tx ∧ Uint8vecBuilt S.spent.txproof
      ∧ (found = false → S.spent = {})
  | broadcast B => B.Fits
  | ccmoduleutxos U => U.Fits

end Response

/-! ### The number of bytes that are written -/

theorem length_vecBytes {α : Type} {write : α → Bytes} {Ok : α → Prop} {k : ℕ}
    (hwrite : ∀ a, (write a).length = k) {v : Counted α} (h : VecFits Ok v) :
    ((vecBytes write v).length : ℤ) = 2 + k * v.num := by
  obtain ⟨hnum, -, -⟩ := h
  have hmap : v.held.map (length ∘ write) = replicate v.held.length k :=
    eq_replicate_iff.2 ⟨length_map _, by simp [hwrite]⟩
  rw [vecBytes, hnum, Int.toNat_natCast, take_length, length_append, length_leBytes,
    length_flatten, map_map, hmap, sum_replicate, smul_eq_mul]
  push_cast
  ring

theorem length_uint8vecBytes {v : Counted UInt8} (h : Uint8vecBuilt v) :
    ((uint8vecBytes v).length : ℤ) = 4 + v.num := by
  obtain ⟨hnum, hmax⟩ := h
  rw [uint8vecBytes, length_append, intBytes, length_leBytes]
  split_ifs with hin
  · rw [hnum, Int.toNat_natCast, take_length]
    push_cast
    ring
  · have hzero : v.num = 0 := by omega
    simp [hzero]

theorem length_equihdrBytes (h : EquiHdr) : (equihdrBytes h).length = 1484 := by
  simp only [equihdrBytes, intBytes, length_append, length_leBytes, length_uint256Bytes,
    h.nSolution.2]

theorem length_ntzBytes (n : Ntz) : (ntzBytes n).length = 108 := by
  simp only [ntzBytes, intBytes, length_append, length_leBytes, length_uint256Bytes]

theorem length_utxoresp (r : UtxoResp) : r.serialize.length = 56 := by
  simp only [UtxoResp.serialize, intBytes, length_append, length_leBytes, length_uint256Bytes]

theorem length_txidresp (r : TxidResp) : r.serialize.length = 48 := by
  simp only [TxidResp.serialize, intBytes, length_append, length_leBytes, length_uint256Bytes]

theorem InfoResp.length_serialize (r : InfoResp) : r.serialize.length = 1636 := by
  simp only [InfoResp.serialize, intBytes, length_append, length_leBytes, length_uint256Bytes,
    length_ntzBytes, length_equihdrBytes]

theorem NtzsResp.length_serialize (r : NtzsResp) : r.serialize.length = 220 := by
  simp only [NtzsResp.serialize, intBytes, length_append, length_leBytes, length_ntzBytes]

theorem BroadcastResp.length_serialize (r : BroadcastResp) : r.serialize.length = 36 := by
  simp only [BroadcastResp.serialize, intBytes, length_append, length_leBytes, length_uint256Bytes]

theorem UtxosResp.length_serialize {r : UtxosResp} (h : r.Fits) :
    (r.serialize.length : ℤ) = 96 + 56 * r.utxos.num := by
  have hvec := length_vecBytes length_utxoresp h.1
  simp only [UtxosResp.serialize, intBytes, length_append, length_leBytes, r.coinaddr.2]
  push_cast
  omega

theorem TxidsResp.length_serialize {r : TxidsResp} (h : r.Fits) :
    (r.serialize.length : ℤ) = 80 + 48 * r.txids.num := by
  have hvec := length_vecBytes length_txidresp h.1
  simp only [TxidsResp.serialize, intBytes, length_append, length_leBytes, r.coinaddr.2]
  push_cast
  omega

theorem MempoolResp.length_serialize {r : MempoolResp} (h : r.Fits) :
    (r.serialize.length : ℤ) = 112 + 32 * r.txids.num := by
  have hvec := length_vecBytes length_uint256Bytes h.1
  simp only [MempoolResp.serialize, intBytes, length_append, length_leBytes, length_uint256Bytes,
    length_cons, length_nil, r.coinaddr.2]
  push_cast
  omega

theorem TxProof.length_serialize {r : TxProof} (htx : Uint8vecBuilt r.tx)
    (hproof : Uint8vecBuilt r.txproof) :
    (r.serialize.length : ℤ) = 88 + r.tx.num + r.txproof.num := by
  have htxlen := length_uint8vecBytes htx
  have hprooflen := length_uint8vecBytes hproof
  simp only [TxProof.serialize, intBytes, length_append, length_leBytes, length_uint256Bytes]
  push_cast
  omega

theorem SpentInfo.length_serialize {r : SpentInfo} (htx : Uint8vecBuilt r.spent.tx)
    (hproof : Uint8vecBuilt r.spent.txproof) :
    (r.serialize.length : ℤ) = 128 + r.spent.tx.num + r.spent.txproof.num := by
  have hspent := TxProof.length_serialize htx hproof
  simp only [SpentInfo.serialize, intBytes, length_append, length_leBytes, length_uint256Bytes]
  push_cast
  omega

theorem NtzsProofResp.length_serialize {r : NtzsProofResp} (h : r.Fits)
    (hprev : Uint8vecBuilt r.prevntz) (hnext : Uint8vecBuilt r.nextntz) :
    (r.serialize.length : ℤ)
      = 96 + 1484 * r.common.hdrs.num + r.prevntz.num + r.nextntz.num := by
  have hvec := length_vecBytes length_equihdrBytes h.1.1
  have hprevlen := length_uint8vecBytes hprev
  have hnextlen := length_uint8vecBytes hnext
  simp only [NtzsProofResp.serialize, NtzProofShared.serialize, intBytes, length_append,
    length_leBytes, length_uint256Bytes]
  push_cast
  omega

/-! ### Expected and written lengths -/

theorem int32_of_lt {n : ℤ} (hpos : 0 ≤ n) (hlt : n < 2 ^ 31) : int32 n = n :=
  Int.bmod_eq_of_le (by omega) (by omega)

theorem VecFits.num_lt {α : Type} {Ok : α → Prop} {v : Counted α} (h : VecFits Ok v) :
    0 ≤ v.num ∧ v.num < 65536 := by
  obtain ⟨hnum, hlt, -⟩ := h
  omega

theorem Uint8vecBuilt.num_lt {v : Counted UInt8} (h : Uint8vecBuilt v) :
    0 ≤ v.num ∧ v.num < 200000 := by
  obtain ⟨hnum, hmax⟩ := h
  exact ⟨by omega, hmax⟩

namespace Response

theorem utxosLen_eq (U : UtxosResp) : utxosLen U = 96 + 56 * U.utxos.num := by
  show ((104 : ℕ) : ℤ) + (56 : ℕ) * U.utxos.num - (8 : ℕ) = _
  omega

theorem txidsLen_eq (T : TxidsResp) : txidsLen T = 80 + 48 * T.txids.num := by
  show ((88 : ℕ) : ℤ) + (48 : ℕ) * T.txids.num - (8 : ℕ) = _
  omega

theorem mempoolLen_eq (M : MempoolResp) : mempoolLen M = 112 + 32 * M.txids.num := by
  show ((120 : ℕ) : ℤ) + (32 : ℕ) * M.txids.num - (8 : ℕ) = _
  omega

theorem ntzsproofLen_eq (P : NtzsProofResp) :
    ntzsproofLen P = 96 + 1484 * P.common.hdrs.num + P.prevntz.num + P.nextntz.num := by
  show ((120 : ℕ) : ℤ) + (1484 : ℕ) * P.common.hdrs.num - (8 : ℕ) - (8 : ℕ) - (8 : ℕ)
    + P.prevntz.num + P.nextntz.num = _
  omega

theorem txproofLen_eq (P : TxProof) : txproofLen P = 88 + P.tx.num + P.txproof.num := by
  show ((104 : ℕ) : ℤ) - (8 : ℕ) - (8 : ℕ) + P.tx.num + P.txproof.num = _
  omega

theorem spentinfoLen_eq {found : Bool} {S : SpentInfo} (h : found = false → S.spent = {}) :
    spentinfoLen found S = 128 + S.spent.tx.num + S.spent.txproof.num := by
  have hsize : (NSPV_spentinfo.size : ℤ) - CType.pointer.size - CType.pointer.size = 128 := rfl
  cases found with
  | true =>
    simp only [spentinfoLen, hsize, if_true]
    omega
  | false =>
    rw [h rfl]
    simp only [spentinfoLen, hsize, Bool.false_eq_true, if_false]
    rfl

/-- The length that is expected is the one that is written. -/
theorem slen_eq {found : Bool} {R : Response} (h : R.Built found) :
    R.slen found = R.serialize.length := by
  cases R with
  | info I =>
    show int32 (1636 : ℕ) = I.serialize.length
    rw [I.length_serialize, int32_of_lt (by omega) (by omega)]
  | utxos U | ccmoduleutxos U =>
    have hnum := h.1.num_lt
    show int32 (utxosLen U) = U.serialize.length
    rw [U.length_serialize h, utxosLen_eq, int32_of_lt (by omega) (by omega)]
  | txids T =>
    have hnum := h.1.num_lt
    show int32 (txidsLen T) = T.serialize.length
    rw [T.length_serialize h, txidsLen_eq, int32_of_lt (by omega) (by omega)]
  | mempool M =>
    have hnum := h.1.num_lt
    show int32 (mempoolLen M) = M.serialize.length
    rw [M.length_serialize h, mempoolLen_eq, int32_of_lt (by omega) (by omega)]
  | ntzs N =>
    show int32 (220 : ℕ) = N.serialize.length
    rw [N.length_serialize, int32_of_lt (by omega) (by omega)]
  | ntzsproof P =>
    obtain ⟨hfits, hprev, hnext⟩ := h
    have hnum := hfits.1.1.num_lt
    have hprevlt := hprev.num_lt
    have hnextlt := hnext.num_lt
    show int32 (ntzsproofLen P) = P.serialize.length
    rw [P.length_serialize hfits hprev hnext, ntzsproofLen_eq, int32_of_lt (by omega) (by omega)]
  | txproof P =>
    obtain ⟨-, htx, hproof⟩ := h
    have htxlt := htx.num_lt
    have hprooflt := hproof.num_lt
    show int32 (txproofLen P) = P.serialize.length
    rw [P.length_serialize htx hproof, txproofLen_eq, int32_of_lt (by omega) (by omega)]
  | spentinfo S =>
    obtain ⟨-, htx, hproof, hfound⟩ := h
    have htxlt := htx.num_lt
    have hprooflt := hproof.num_lt
    show int32 (spentinfoLen found S) = S.serialize.length
    rw [S.length_serialize htx hproof, spentinfoLen_eq hfound, int32_of_lt (by omega) (by omega)]
  | broadcast B =>
    show int32 (36 : ℕ) = B.serialize.length
    rw [B.length_serialize, int32_of_lt (by omega) (by omega)]

theorem serialize_pos (R : Response) : 0 < R.serialize.length := by
  cases R <;>
    simp only [serialize, InfoResp.serialize, UtxosResp.serialize, TxidsResp.serialize,
      MempoolResp.serialize, NtzsResp.serialize, NtzsProofResp.serialize, NtzProofShared.serialize,
      TxProof.serialize, SpentInfo.serialize, BroadcastResp.serialize, vecBytes, intBytes,
      length_append, length_leBytes, length_ntzBytes] <;>
    omega

theorem reads {found : Bool} {R : Response} (h : R.Built found) :
    Reads (unserialize R.kind) R.serialize R := by
  cases R with
  | info I => exact (InfoResp.codec.reads h).map info
  | utxos U => exact (UtxosResp.codec.reads h).map utxos
  | txids T => exact (TxidsResp.codec.reads h).map txids
  | mempool M => exact (MempoolResp.codec.reads h).map mempool
  | ntzs N => exact (NtzsResp.codec.reads h).map ntzs
  | ntzsproof P => exact (NtzsProofResp.codec.reads h.1).map ntzsproof
  | txproof P => exact (TxProof.codec.reads h.1).map txproof
  | spentinfo S => exact (SpentInfo.codec.reads h.1).map spentinfo
  | broadcast B => exact (BroadcastResp.codec.reads h).map broadcast
  | ccmoduleutxos U => exact (UtxosResp.codec.reads h).map ccmoduleutxos

/-- **A response that is built is sent, and read as it was built.**  The length that is expected is
that of the bytes that are written; they are sent behind the kind, and a reader of this kind takes
exactly these bytes and finds every field and every element. -/
theorem push_read {found : Bool} {R : Response} (h : R.Built found) :
    R.slen found = R.serialize.length ∧ R.push found = some (R.kind :: R.serialize)
      ∧ ∀ rest, unserialize R.kind (R.serialize ++ rest) = some (R, rest) := by
  have hlen := slen_eq h
  have hpos := R.serialize_pos
  refine ⟨hlen, ?_, reads h⟩
  rw [push, if_pos ⟨by omega, hlen.symm⟩]

/-- A transaction without a proof, as a request without a height gets it. -/
theorem push_read_txproof :
    (txproof { vout := 1, tx := ⟨3, [7, 8, 9]⟩ }).slen false = 91
      ∧ unserialize NSPV_TXPROOFRESP (txproof { vout := 1, tx := ⟨3, [7, 8, 9]⟩ }).serialize
        = some (txproof { vout := 1, tx := ⟨3, [7, 8, 9]⟩ }, []) := by
  have hbuilt : (txproof { vout := 1, tx := ⟨3, [7, 8, 9]⟩ }).Built false := by
    have hrange : ∀ {k : ℕ} {v : ℤ}, 0 < k → 0 ≤ v → v < 2 ^ 7 → IntRange k v := by
      intro k v hk hpos hlt
      have hpow : (2 : ℤ) ^ 7 ≤ 2 ^ (8 * k - 1) := pow_le_pow_right₀ (by omega) (by omega)
      constructor <;> omega
    refine ⟨⟨by decide, ?_, ?_, ?_, ⟨?_, by decide⟩, ⟨?_, by decide⟩, by decide⟩, ⟨rfl, by decide⟩,
      ⟨rfl, by decide⟩⟩ <;> exact hrange (by decide) (by decide) (by decide)
  obtain ⟨hlen, -, hread⟩ := push_read hbuilt
  refine ⟨hlen, ?_⟩
  have := hread []
  rwa [append_nil] at this

end Response

end Msg

end NSPV
end Komodo
