/-
# What a request can make the server read

`komodo_nSPVreq` is meant to answer the bytes that a peer sends without reading or writing where
there is nothing.  `komodoNSPVreq_completes` says for which requests and states of the node it does.

Most kinds of requests are looked at only when their length is the one that they have.  Those that
are not: a request for an address may be one byte long, and its address may be longer than
`coinaddr`; a request for the mempool, and one for a remote call, has no least length; one for the
outputs of a contract is tested as a whole, but the length of its address can place the fields that
follow behind its end.  What the handlers need is in `HandlerBounds` and `QueryBounds`.
-/

import Komodo.NSPV.QueryBounds

namespace Komodo
namespace NSPV
namespace Server

open Runs
open Wire hiding CTransaction
open BlockIndexDB hiding CBlockIndex

variable {S : Server} {r : Bytes}

/-! ### Fields -/

/-- The byte at a position, as a number. -/
def lenAt (r : Bytes) (i : ℕ) : ℕ := (r.getD i 0).toNat

theorem toNat_getD (r : Bytes) (i : ℕ) : (r.getD i 0).toNat = lenAt r i := rfl

def numAt (r : Bytes) (i n : ℕ) : ℕ := fromLE ((r.drop i).take n)

def intAt (r : Bytes) (i : ℕ) : ℤ := int32 (numAt r i 4)

/-- The string in a buffer to which `n` bytes have been copied. -/
def stringAt (r : Bytes) (i n : ℕ) : Bytes := ((r.drop i).take n).takeWhile (· ≠ 0)

variable {i size n : ℕ}

theorem byteAt_eq_getD {fault : BadAccess} (h : i < r.length) :
    byteAt fault r i = .ok (r.getD i 0) := by
  rw [byteAt_eq h, List.getD_eq_getElem _ _ h]

theorem rwnum_eq (h : i + n ≤ r.length) : rwnum r i n = .ok (numAt r i n) := by
  rw [rwnum, slice_eq h]
  rfl

theorem completes_rwnum : Completes (rwnum r i n) ↔ i + n ≤ r.length := by
  rw [rwnum, completes_map, completes_slice]

theorem rwint_eq (h : i + 4 ≤ r.length) : rwint r i = .ok (intAt r i) := by
  rw [rwint, rwnum_eq h]
  rfl

theorem completes_rwint : Completes (rwint r i) ↔ i + 4 ≤ r.length := by
  rw [rwint, completes_bind, completes_rwnum]
  exact ⟨And.left, fun h => ⟨h, fun _ _ => completes_pure _⟩⟩

theorem copyString_eq (h : i + n ≤ r.length) (hsize : n < size) :
    copyString r i n size = .ok (stringAt r i n) := by
  rw [copyString, bind_of_eq_ok (slice_eq h), if_neg (by omega)]
  rfl

theorem completes_copyString :
    Completes (copyString r i n size) ↔ i + n ≤ r.length ∧ n < size := by
  rw [copyString, completes_bind, completes_slice]
  refine and_congr_right fun h => ?_
  rw [slice_eq h]
  simp only [Except.ok.injEq, forall_eq', completes_ite]
  exact ⟨fun hrun => by_contra fun hn => not_completes_throw _ (hrun.1 (by omega)),
    fun hsize => ⟨fun hn => absurd hn (by omega), fun _ => completes_pure _⟩⟩

variable {α : Type}

theorem completes_byteAt_bind {fault : BadAccess} {f : UInt8 → Except BadAccess α} :
    Completes (byteAt fault r i >>= f) ↔ i < r.length ∧ Completes (f (r.getD i 0)) := by
  rw [completes_bind_of fun h => byteAt_eq_getD (completes_byteAt.1 h), completes_byteAt]

theorem completes_rwnum_bind {f : ℕ → Except BadAccess α} :
    Completes (rwnum r i n >>= f) ↔ i + n ≤ r.length ∧ Completes (f (numAt r i n)) := by
  rw [completes_bind_of fun h => rwnum_eq (completes_rwnum.1 h), completes_rwnum]

theorem completes_rwint_bind {f : ℤ → Except BadAccess α} :
    Completes (rwint r i >>= f) ↔ i + 4 ≤ r.length ∧ Completes (f (intAt r i)) := by
  rw [completes_bind_of fun h => rwint_eq (completes_rwint.1 h), completes_rwint]

theorem completes_copyString_bind {f : Bytes → Except BadAccess α} :
    Completes (copyString r i n size >>= f) ↔
      (i + n ≤ r.length ∧ n < size) ∧ Completes (f (stringAt r i n)) := by
  rw [completes_bind_of fun h => copyString_eq (completes_copyString.1 h).1 (completes_copyString.1 h).2,
    completes_copyString]

/-! ### Addresses -/

/-- A request for an address is longer than a byte, and an address up to its end is shorter than the
buffer. -/
def AddressInBounds (r : Bytes) : Prop :=
  r.length < 69 → 2 ≤ r.length ∧ (lenAt r 1 + 3 = r.length → lenAt r 1 < 64)

/-- A request that is answered for an address. -/
structure NamesAddress (r : Bytes) (coinaddr : Bytes) (isCC : Bool) : Prop where
  short : r.length < 69
  shape : lenAt r 1 + 3 = r.length ∨ lenAt r 1 + 7 = r.length ∨ lenAt r 1 + 11 = r.length
  coinaddr_eq : coinaddr = stringAt r 2 (lenAt r 1)
  isCC_eq : isCC = decide (r.getD (lenAt r 1 + 2) 0 ≠ 0)

theorem addressInBounds_of_completes {filterSize : ℕ}
    (h : Completes (S.addressReq filterSize r)) : AddressInBounds r := by
  intro hshort
  rw [addressReq] at h
  dsimp only at h
  rw [if_neg (not_not.2 hshort), completes_byteAt_bind, toNat_getD] at h
  obtain ⟨hlen, h⟩ := h
  refine ⟨hlen, fun hshape => ?_⟩
  rw [if_pos (Or.inl hshape), completes_copyString_bind] at h
  exact h.1.2

/-- What a request for an address is read as. -/
theorem addressReq_spec (filterSize : ℕ) (hfilter : filterSize ≤ 4) (h : AddressInBounds r) :
    ∃ q, S.addressReq filterSize r = .ok q ∧ ∀ coinaddr isCC,
      NamesAddress r coinaddr isCC ↔ ∃ a, q = some a ∧ a.coinaddr = coinaddr ∧ a.isCC = isCC := by
  rw [addressReq]
  dsimp only
  by_cases hshort : r.length < 69
  · obtain ⟨hlen, hfits⟩ := h hshort
    rw [if_neg (not_not.2 hshort), bind_of_eq_ok (byteAt_eq_getD hlen), toNat_getD]
    by_cases hshape : lenAt r 1 + 3 = r.length ∨ lenAt r 1 + 7 = r.length ∨ lenAt r 1 + 11 = r.length
    · have hnames : ∀ a : AddressReq, a.coinaddr = stringAt r 2 (lenAt r 1) →
          a.isCC = decide (r.getD (lenAt r 1 + 2) 0 ≠ 0) → ∀ coinaddr isCC,
          NamesAddress r coinaddr isCC ↔
            ∃ b, some a = some b ∧ b.coinaddr = coinaddr ∧ b.isCC = isCC := by
        intro a haddr hcc coinaddr isCC
        constructor
        · exact fun hn => ⟨a, rfl, haddr.trans hn.coinaddr_eq.symm, hcc.trans hn.isCC_eq.symm⟩
        · rintro ⟨b, hb, rfl, rfl⟩
          cases hb
          exact ⟨hshort, hshape, haddr, hcc⟩
      rw [if_pos hshape, bind_of_eq_ok (copyString_eq (by omega) (by omega))]
      rcases hshape with h3 | h7 | h11
      · rw [if_pos h3, show r.length - 1 = lenAt r 1 + 2 by omega,
          bind_of_eq_ok (byteAt_eq_getD (by omega))]
        exact ⟨_, rfl, hnames _ rfl rfl⟩
      · rw [if_neg (by omega), if_pos h7, show r.length - 5 = lenAt r 1 + 2 by omega,
          bind_of_eq_ok (byteAt_eq_getD (by omega)), bind_of_eq_ok (rwint_eq (by omega))]
        exact ⟨_, rfl, hnames _ rfl rfl⟩
      · rw [if_neg (by omega), if_neg (by omega), show r.length - 9 = lenAt r 1 + 2 by omega,
          bind_of_eq_ok (byteAt_eq_getD (by omega)), bind_of_eq_ok (rwint_eq (by omega)),
          bind_of_eq_ok (rwnum_eq (by omega))]
        exact ⟨_, rfl, hnames _ rfl rfl⟩
    · rw [if_neg hshape]
      exact ⟨none, rfl, fun _ _ => ⟨fun hn => absurd hn.shape hshape, nofun⟩⟩
  · rw [if_pos hshort]
    exact ⟨none, rfl, fun _ _ => ⟨fun hn => absurd hn.short hshort, nofun⟩⟩

/-- The number of unspent outputs of an address is one for which they are listed. -/
def ListsUtxos (S : Server) (coinaddr : Bytes) (isCC : Bool) : Prop :=
  (S.ccUnspents coinaddr isCC).length % 2 ^ 16 < S.maxlen S.staleHeight 56

theorem completes_utxosReq : Completes (S.utxosReq r) ↔ AddressInBounds r ∧
    ∀ coinaddr isCC, NamesAddress r coinaddr isCC → ListsUtxos S coinaddr isCC → S.chain ≠ [] := by
  rw [utxosReq, completes_bind]
  constructor
  · rintro ⟨haddr, h⟩
    have hbounds := addressInBounds_of_completes haddr
    refine ⟨hbounds, fun coinaddr isCC hnames => ?_⟩
    obtain ⟨q, hq, hspec⟩ := addressReq_spec (S := S) 1 (by omega) hbounds
    obtain ⟨a, rfl, rfl, rfl⟩ := (hspec _ _).1 hnames
    have hrun := h _ hq
    rw [completes_bind, completes_getaddressutxos] at hrun
    exact hrun.1
  · rintro ⟨hbounds, h⟩
    obtain ⟨q, hq, hspec⟩ := addressReq_spec (S := S) 1 (by omega) hbounds
    rw [hq]
    refine ⟨completes_ok _, fun q' hq' => ?_⟩
    cases hq'
    cases q with
    | none => exact completes_pure _
    | some a =>
      rw [completes_bind, completes_getaddressutxos]
      exact ⟨h _ _ ((hspec _ _).2 ⟨a, rfl, rfl, rfl⟩), fun _ _ => completes_pure _⟩

theorem completes_txidsReq : Completes (S.txidsReq r) ↔ AddressInBounds r ∧
    ∀ coinaddr isCC, NamesAddress r coinaddr isCC → S.chain ≠ [] := by
  rw [txidsReq, completes_bind]
  constructor
  · rintro ⟨haddr, h⟩
    have hbounds := addressInBounds_of_completes haddr
    refine ⟨hbounds, fun coinaddr isCC hnames => ?_⟩
    obtain ⟨q, hq, hspec⟩ := addressReq_spec (S := S) 4 le_rfl hbounds
    obtain ⟨a, rfl, rfl, rfl⟩ := (hspec _ _).1 hnames
    have hrun := h _ hq
    rw [completes_bind, completes_getaddresstxids] at hrun
    exact hrun.1
  · rintro ⟨hbounds, h⟩
    obtain ⟨q, hq, hspec⟩ := addressReq_spec (S := S) 4 le_rfl hbounds
    rw [hq]
    refine ⟨completes_ok _, fun q' hq' => ?_⟩
    cases hq'
    cases q with
    | none =>
      -- the second byte is there, as the request is not that of an address that is too short
      have hlen : 2 ≤ r.length := by
        by_contra hn
        exact hn (hbounds (by omega)).1
      rw [completes_bind, completes_byteAt]
      exact ⟨hlen, fun _ _ => completes_pure _⟩
    | some a =>
      rw [completes_bind, completes_getaddresstxids]
      exact ⟨h _ _ ((hspec _ _).2 ⟨a, rfl, rfl, rfl⟩), fun _ _ => completes_pure _⟩

/-! ### The other kinds -/

theorem completes_infoReq :
    Completes (S.infoReq r) ↔ (S.chain ≠ [] → S.FollowedInChain (S.chain.length - 2)) := by
  have hrun : ∀ reqheight, Completes (do
      return (← S.getinfo reqheight).map Response.info : Except BadAccess (Option Response)) ↔
        (S.chain ≠ [] → S.FollowedInChain (S.chain.length - 2)) := by
    intro reqheight
    rw [completes_bind, completes_getinfo]
    exact ⟨And.left, fun h => ⟨h, fun _ _ => completes_pure _⟩⟩
  unfold infoReq
  dsimp only
  rw [completes_ite, completes_rwint_bind, hrun]
  constructor
  · intro h
    by_cases hlen : r.length = 5
    · exact (h.1 hlen).2
    · exact (hrun 0).1 (h.2 hlen)
  · exact fun h => ⟨fun hlen => ⟨by omega, h⟩, fun _ => (hrun 0).2 h⟩

/-- A request for the mempool has all its fields, and what it asks for can be read. -/
structure MempoolInBounds (S : Server) (r : Bytes) : Prop where
  head : 40 ≤ r.length
  coinaddr : lenAt r 39 < 63 → 40 + lenAt r 39 ≤ r.length
  served : lenAt r 39 < 63 → S.chain ≠ [] ∧ MempoolReadable S (stringAt r 40 (lenAt r 39))
    (r.getD 1 0 ≠ 0) (r.getD 2 0) (numAt r 7 32) (intAt r 3)

theorem completes_mempoolReq :
    Completes (S.mempoolReq r) ↔ (r.length < 184 → MempoolInBounds S r) := by
  rw [mempoolReq, completes_ite]
  have hlong : ¬ r.length < 184 → Completes (do
      let _ ← byteAt .request r 1
      return none : Except BadAccess (Option Response)) := by
    intro h
    rw [completes_byteAt_bind]
    exact ⟨by omega, completes_pure _⟩
  rw [and_iff_left hlong]
  refine forall_congr' fun hshort => ?_
  rw [completes_byteAt_bind, completes_byteAt_bind, completes_rwint_bind, completes_rwnum_bind,
    completes_byteAt_bind]
  dsimp only
  rw [toNat_getD, completes_ite]
  constructor
  · rintro ⟨-, -, -, -, hlen, hserved, -⟩
    refine ⟨hlen, fun hslen => ?_, fun hslen => ?_⟩
    · exact (completes_copyString_bind.1 (hserved hslen)).1.1
    · have hrun := (completes_copyString_bind.1 (hserved hslen)).2
      exact completes_mempooltxids.1 (completes_bind.1 hrun).1
  · intro h
    have hhead := h.head
    refine ⟨by omega, by omega, by omega, by omega, by omega, fun hslen => ?_,
      fun _ => completes_pure _⟩
    rw [completes_copyString_bind, completes_bind]
    exact ⟨⟨h.coinaddr hslen, by omega⟩, completes_mempooltxids.2 (h.served hslen),
      fun _ _ => completes_pure _⟩

theorem completes_ntzsReq : Completes (S.ntzsReq r) ↔
    (r.length = 5 → S.chain ≠ [] ∧ S.FollowedInChain (intAt r 1)) := by
  rw [ntzsReq, completes_ite, completes_rwint_bind, completes_bind, completes_getntzsresp]
  exact ⟨fun h hlen => (h.1 hlen).2.1,
    fun h => ⟨fun hlen => ⟨by omega, h hlen, fun _ _ => completes_pure _⟩, fun _ => completes_pure _⟩⟩

theorem completes_ntzsproofReq : Completes (S.ntzsproofReq r) := by
  rw [ntzsproofReq, completes_ite]
  refine ⟨fun hlen => ?_, fun _ => completes_pure _⟩
  rw [completes_rwnum_bind, completes_rwnum_bind, completes_bind]
  exact ⟨by omega, by omega, completes_getntzsproofresp _ _, fun _ _ => completes_pure _⟩

theorem completes_txproofReq : Completes (S.txproofReq r) := by
  rw [txproofReq, completes_ite]
  refine ⟨fun hlen => ?_, fun _ => completes_pure _⟩
  rw [completes_rwint_bind, completes_rwint_bind, completes_rwnum_bind]
  exact ⟨by omega, by omega, by omega, completes_pure _⟩

theorem completes_spentinfoReq : Completes (S.spentinfoReq r) := by
  rw [spentinfoReq, completes_ite]
  refine ⟨fun hlen => ?_, fun _ => completes_pure _⟩
  rw [completes_rwint_bind, completes_rwnum_bind]
  exact ⟨by omega, by omega, completes_pure _⟩

theorem completes_broadcastReq : Completes (S.broadcastReq r) := by
  rw [broadcastReq, completes_ite]
  refine ⟨fun hlen => ?_, fun _ => completes_pure _⟩
  rw [completes_rwnum_bind, completes_rwnum_bind, completes_ite, completes_bind, completes_slice]
  exact ⟨by omega, by omega, fun hn => ⟨by omega, fun _ _ => completes_pure _⟩,
    fun _ => completes_pure _⟩

theorem completes_remoterpcReq : Completes (S.remoterpcReq r) ↔ 5 ≤ r.length := by
  rw [remoterpcReq, completes_rwint_bind, completes_ite, completes_bind, completes_slice]
  refine ⟨And.left, fun h => ⟨h, fun hlen => ⟨by omega, fun _ _ => completes_pure _⟩,
    fun _ => completes_pure _⟩⟩

/-- The fields of a request for the outputs of a contract are in it. -/
structure ContractInBounds (S : Server) (r : Bytes) : Prop where
  head : 12 + lenAt r 1 ≤ r.length
  tail : lenAt r (11 + lenAt r 1) < 27 → 44 + lenAt r 1 + lenAt r (11 + lenAt r 1) ≤ r.length
  served : lenAt r (11 + lenAt r 1) < 27 → S.chain ≠ []

theorem completes_ccmoduleutxosReq : Completes (S.ccmoduleutxosReq r) ↔
    (64 ≤ r.length ∧ r.length ≤ 133 → lenAt r 1 < 64 → ContractInBounds S r) := by
  rw [ccmoduleutxosReq]
  dsimp only
  rw [completes_ite, and_iff_left fun _ => completes_pure _]
  refine forall_congr' fun hlen => ?_
  rw [completes_byteAt_bind, toNat_getD, completes_ite, and_iff_left fun _ => completes_pure _,
    and_iff_right (by omega)]
  refine forall_congr' fun haddr => ?_
  rw [completes_copyString_bind, completes_rwnum_bind, completes_byteAt_bind, completes_byteAt_bind,
    toNat_getD, completes_ite, and_iff_left fun _ => completes_pure _, completes_copyString_bind,
    completes_rwnum_bind, completes_bind, completes_getccmoduleutxos]
  constructor
  · rintro ⟨-, -, -, hhead, h⟩
    exact ⟨by omega, fun hfuncids => by have := (h hfuncids).2.1; omega,
      fun hfuncids => (h hfuncids).2.2.1⟩
  · intro h
    have hhead := h.head
    refine ⟨⟨by omega, haddr⟩, by omega, by omega, by omega, fun hfuncids => ?_⟩
    have htail := h.tail hfuncids
    exact ⟨⟨by omega, hfuncids⟩, by omega, h.served hfuncids, fun _ _ => completes_pure _⟩

/-! ### All requests -/

/-- What a request of a kind and the state of the node have to be like. -/
def InBounds (S : Server) (kind : UInt8) (r : Bytes) : Prop :=
  if kind = NSPV_INFO then S.chain ≠ [] → S.FollowedInChain (S.chain.length - 2)
  else if kind = NSPV_UTXOS then AddressInBounds r ∧ ∀ coinaddr isCC,
    NamesAddress r coinaddr isCC → ListsUtxos S coinaddr isCC → S.chain ≠ []
  else if kind = NSPV_TXIDS then AddressInBounds r ∧ ∀ coinaddr isCC,
    NamesAddress r coinaddr isCC → S.chain ≠ []
  else if kind = NSPV_MEMPOOL then r.length < 184 → MempoolInBounds S r
  else if kind = NSPV_NTZS then r.length = 5 → S.chain ≠ [] ∧ S.FollowedInChain (intAt r 1)
  else if kind = NSPV_REMOTERPC then 5 ≤ r.length
  else if kind = NSPV_CCMODULEUTXOS then
    64 ≤ r.length ∧ r.length ≤ 133 → lenAt r 1 < 64 → ContractInBounds S r
  else True

theorem completes_answer {kind : UInt8} : Completes (S.answer kind r) ↔ InBounds S kind r := by
  unfold answer InBounds
  by_cases hinfo : kind = NSPV_INFO
  · rw [if_pos hinfo, if_pos hinfo, completes_infoReq]
  rw [if_neg hinfo, if_neg hinfo]
  by_cases hutxos : kind = NSPV_UTXOS
  · rw [if_pos hutxos, if_pos hutxos, completes_utxosReq]
  rw [if_neg hutxos, if_neg hutxos]
  by_cases htxids : kind = NSPV_TXIDS
  · rw [if_pos htxids, if_pos htxids, completes_txidsReq]
  rw [if_neg htxids, if_neg htxids]
  by_cases hmempool : kind = NSPV_MEMPOOL
  · rw [if_pos hmempool, if_pos hmempool, completes_mempoolReq]
  rw [if_neg hmempool, if_neg hmempool]
  by_cases hntzs : kind = NSPV_NTZS
  · rw [if_pos hntzs, if_pos hntzs, completes_ntzsReq]
  rw [if_neg hntzs, if_neg hntzs]
  -- the four kinds that are always read within their bounds
  by_cases hproof : kind = NSPV_NTZSPROOF
  · rw [if_pos hproof, hproof]
    exact iff_of_true completes_ntzsproofReq trivial
  by_cases htxproof : kind = NSPV_TXPROOF
  · rw [if_neg hproof, if_pos htxproof, htxproof]
    exact iff_of_true completes_txproofReq trivial
  by_cases hspent : kind = NSPV_SPENTINFO
  · rw [if_neg hproof, if_neg htxproof, if_pos hspent, hspent]
    exact iff_of_true completes_spentinfoReq trivial
  by_cases hbroadcast : kind = NSPV_BROADCAST
  · rw [if_neg hproof, if_neg htxproof, if_neg hspent, if_pos hbroadcast, hbroadcast]
    exact iff_of_true completes_broadcastReq trivial
  rw [if_neg hproof, if_neg htxproof, if_neg hspent, if_neg hbroadcast]
  by_cases hrpc : kind = NSPV_REMOTERPC
  · rw [if_pos hrpc, if_pos hrpc, completes_remoterpcReq]
  rw [if_neg hrpc, if_neg hrpc]
  by_cases hcc : kind = NSPV_CCMODULEUTXOS
  · rw [if_pos hcc, if_pos hcc, completes_ccmoduleutxosReq]
  rw [if_neg hcc, if_neg hcc]
  exact iff_of_true (completes_pure _) trivial

/-- The peer has not asked for this kind of request in the same second or later. -/
def Due (pfrom : Peer) (timestamp : ℕ) (kind : UInt8) : Prop :=
  (if timestamp < pfrom.prevtimes (timeIndex kind) then 0 else pfrom.prevtimes (timeIndex kind))
    < timestamp

namespace GenesisOnly

def genesis : ChainEntry where
  blockHash := 1
  nVersion := 1
  hashMerkleRoot := 0
  hashFinalSaplingRoot := 0
  nTime := 1231006505
  nBits := 0
  nNonce := 0
  nSolution := ByteArr.zero 1344

theorem zero_lt : ∀ _ : HashInput, (0 : Uint256) < 2 ^ 256 := by
  intro _
  norm_num

/-- A node that has the genesis block only. -/
def node : Server where
  sha256d _ := 0
  getHash _ := 0
  hash2 _ _ := 0
  hasher := ⟨fun _ => 0, zero_lt⟩
  saplinght := 1140409
  isKMD := true
  verify _ _ _ := false
  blocktime _ := 0
  notaries _ _ := ⟨64, fun _ => []⟩
  loggedIn _ _ _ := false
  staleHash _ _ _ := 0
  partlyRead tx _ := tx
  chain := [genesis]
  chainName := [75, 77, 68]
  getBlockNotarisations _ := none
  getTransaction _ tx := ⟨false, tx, 0⟩
  blockheight _ := 0
  blockload _ := none
  gettxout _ _ := -1
  getspenttxid _ _ := none
  addtomempool _ := false
  ccUnspents _ _ := []
  ccTxids _ _ := []
  isutxoSpentinmempool _ _ := false
  accruedInterest _ _ _ _ _ := 0
  getscriptaddress _ := []
  mempool := []
  remoterpc _ := []
  staleHeight := 0
  staleFilter := 0

/-- A peer that has not asked for anything. -/
def peer : Peer := ⟨fun _ => 0⟩

/-- A request for the unspent outputs of an address of 64 characters. -/
def longAddress : Bytes := NSPV_UTXOS :: 64 :: (List.replicate 64 0x52 ++ [0])

end GenesisOnly

end Server
end NSPV
end Komodo
