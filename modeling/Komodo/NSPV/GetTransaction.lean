/-
# What the client may rely on

`NSPV_gettransaction` with validation puts its answer together from responses of several peers.  A
zero is meant to say that the transaction is the one that was asked for, is not spent, and is in a
block between two notarized ones (`Trusted`).

`validatehdrs_eq_zero` says what the headers have been checked for, `fastnotariescount_le` that the
count of signatures is a count of notaries.  The code of the second part takes the place of the
first one, so that a transaction that could not be decoded or is spent is answered with a zero when
the proof is right; the position of the header comes from one response and the headers from
another; and empty lists are read.  `gettransaction_iff` is the condition that rules this out.
-/

import Komodo.NSPV.Client

namespace Komodo
namespace NSPV
namespace Client

open Wire hiding CTransaction
open BlockIndexDB hiding CBlockIndex
open Runs (bind_eq_ok)

variable {C : Client}

/-! ### Runs -/

theorem bind_eq_error {ε α β : Type} {x : Except ε α} {f : α → Except ε β} {e : ε} :
    x >>= f = .error e ↔ x = .error e ∨ ∃ a, x = .ok a ∧ f a = .error e := by
  cases x <;> simp [bind, Except.bind]

theorem ite_pure_eq_zero {p : Prop} [Decidable p] {code : ℤ} {x : Except Fault ℤ}
    (hcode : code ≠ 0) : (if p then pure code else x) = .ok 0 ↔ ¬ p ∧ x = .ok 0 := by
  split_ifs with hp
  · exact ⟨fun h => absurd (Except.ok.inj h) hcode, fun h => absurd hp h.1⟩
  · exact ⟨fun h => ⟨hp, h⟩, And.right⟩

theorem ite_pure_eq_error {p : Prop} [Decidable p] {code : ℤ} {x : Except Fault ℤ} {e : Fault} :
    (if p then pure code else x) = .error e ↔ ¬ p ∧ x = .error e := by
  split_ifs with hp
  · exact ⟨nofun, fun h => absurd hp h.1⟩
  · exact ⟨fun h => ⟨hp, h⟩, And.right⟩

/-! ### Extraction -/

theorem txextract_code {tx tx' : Wire.CTransaction} {raw : RawBytes} {code : ℤ}
    (h : C.txextract tx raw = .ok (tx', code)) : code = 0 ∨ code = -1 := by
  unfold txextract at h
  split_ifs at h
  · exact Or.inr (congrArg Prod.snd (Except.ok.inj h)).symm
  · split at h
    · exact Or.inl (congrArg Prod.snd (Except.ok.inj h)).symm
    · exact Or.inr (congrArg Prod.snd (Except.ok.inj h)).symm
  · exact Or.inr (congrArg Prod.snd (Except.ok.inj h)).symm

theorem txextract_len {tx tx' : Wire.CTransaction} {raw : RawBytes}
    (h : C.txextract tx raw = .ok (tx', 0)) : 0 < raw.len := by
  unfold txextract at h
  split_ifs at h with hmax hneg hzero
  · exact absurd (congrArg Prod.snd (Except.ok.inj h)) (by decide : (-1 : ℤ) ≠ 0)
  · omega
  · exact absurd (congrArg Prod.snd (Except.ok.inj h)) (by decide : (-1 : ℤ) ≠ 0)

variable {tx : Wire.CTransaction}

theorem txextract_ne_outOfRange {raw : RawBytes} :
    C.txextract tx raw ≠ .error .outOfRange := by
  unfold txextract
  split_ifs
  · nofun
  · nofun
  · split <;> nofun
  · nofun

/-! ### Headers -/

theorem brokenLink_eq_none {hdrs : List EquiHdr} {n : ℕ} :
    C.brokenLink hdrs n = none ↔
      ∀ i < n, (hdrs[i]?).map C.hdrhash = (hdrs[i + 1]?).map EquiHdr.hashPrevBlock := by
  induction n with
  | zero => simp [brokenLink]
  | succ n ih =>
    rw [brokenLink]
    split_ifs with h
    · rw [ih]
      constructor
      · intro hall i hi
        rcases Nat.lt_succ_iff_lt_or_eq.1 hi with hlt | rfl
        exacts [hall i hlt, h]
      · exact fun hall i hi => hall i (Nat.lt_succ_of_lt hi)
    · exact ⟨nofun, fun hall => absurd (hall n (Nat.lt_succ_self n)) h⟩

/-- The later of the two notarizations: it is decoded with the hash that was sent, and its height
is that of the last header. -/
structure NextNotarised (C : Client) (ptr : NtzsProofResp) (tx : Wire.CTransaction)
    (blockhash : Uint256) : Prop where
  count : int32 (ptr.nextht - ptr.prevht + 1) = ptr.hdrs.length
  extract : C.txextract {} ptr.nextntz = .ok (tx, 0)
  hash : tx.hash = ptr.nexttxid
  notarization : ∃ desttxid, C.notarizationextract true tx = .ok (ptr.nextht, blockhash, desttxid)

/-- The earlier one, which is read into the object of the later. -/
structure PrevNotarised (C : Client) (ptr : NtzsProofResp) (next tx : Wire.CTransaction)
    (blockhash : Uint256) : Prop where
  extract : C.txextract next ptr.prevntz = .ok (tx, 0)
  hash : tx.hash = ptr.prevtxid
  notarization : ∃ desttxid, C.notarizationextract true tx = .ok (ptr.prevht, blockhash, desttxid)

/-- The headers are linked from one notarized block to the other. -/
structure HdrsValid (C : Client) (ptr : NtzsProofResp) (next prev : Wire.CTransaction) : Prop where
  last : ∃ hdr, ptr.hdrs.getLast? = some hdr ∧ NextNotarised C ptr next (C.hdrhash hdr)
  linked : ∀ i < ptr.hdrs.length - 1,
    (ptr.hdrs[i]?).map C.hdrhash = (ptr.hdrs[i + 1]?).map EquiHdr.hashPrevBlock
  first : ∃ hdr, ptr.hdrs.head? = some hdr ∧ PrevNotarised C ptr next prev (C.hdrhash hdr)

theorem at?_zero {α : Type} (as : List α) : at? as 0 = as.head? := by
  simp [at?, List.head?_eq_getElem?]

theorem at?_last {α : Type} (as : List α) : at? as (as.length - 1) = as.getLast? := by
  cases as with
  | nil => rfl
  | cons a as =>
    rw [at?, if_neg (by simp), List.getLast?_eq_getElem?]
    congr 1
    simp

variable {ptr : NtzsProofResp}

theorem next_iff {blockhash : Uint256} :
    NextNotarised C ptr tx blockhash ↔ ¬ int32 (ptr.nextht - ptr.prevht + 1) ≠ ptr.hdrs.length
      ∧ C.txextract {} ptr.nextntz = .ok (tx, 0) ∧ ¬ tx.hash ≠ ptr.nexttxid
      ∧ ∃ desttxid, C.notarizationextract true tx = .ok (ptr.nextht, blockhash, desttxid) := by
  simp only [not_not]
  exact ⟨fun h => ⟨h.count, h.extract, h.hash, h.notarization⟩,
    fun ⟨hcount, hextract, hhash, hntz⟩ => ⟨hcount, hextract, hhash, hntz⟩⟩

/-- **What the headers have been checked for.** -/
theorem validatehdrs_eq_zero :
    C.validatehdrs ptr = .ok 0 ↔ ∃ next prev, HdrsValid C ptr next prev := by
  unfold validatehdrs
  rw [ite_pure_eq_zero (by decide), bind_eq_ok]
  constructor
  · rintro ⟨hcount, ⟨next, code⟩, hextract, h⟩
    dsimp only at h
    rw [ite_pure_eq_zero (by decide), ite_pure_eq_zero (by decide)] at h
    obtain ⟨hcode, hhash, h⟩ := h
    obtain rfl : code = 0 := (txextract_code hextract).resolve_right (by omega)
    split at h
    · cases h
    · rename_i height blockhash desttxid hntz
      rw [ite_pure_eq_zero (by decide), at?_last] at h
      obtain ⟨hheight, h⟩ := h
      split at h
      · cases h
      · rename_i last hlast
        rw [ite_pure_eq_zero (by decide)] at h
        obtain ⟨hblock, h⟩ := h
        split at h
        · exact absurd (Except.ok.inj h) (by omega)
        · rename_i hlinked
          obtain ⟨⟨prev, code⟩, hextract', h⟩ := bind_eq_ok.1 h
          dsimp only at h
          rw [ite_pure_eq_zero (by decide), ite_pure_eq_zero (by decide)] at h
          obtain ⟨hcode', hhash', h⟩ := h
          obtain rfl : code = 0 := (txextract_code hextract').resolve_right (by omega)
          split at h
          · cases h
          · rename_i height' blockhash' desttxid' hntz'
            rw [ite_pure_eq_zero (by decide), at?_zero] at h
            obtain ⟨hheight', h⟩ := h
            split at h
            · cases h
            · rename_i first hfirst
              obtain ⟨hblock', -⟩ := (ite_pure_eq_zero (by decide)).1 h
              obtain rfl := not_not.1 hheight
              obtain rfl := not_not.1 hblock
              obtain rfl := not_not.1 hheight'
              obtain rfl := not_not.1 hblock'
              exact ⟨next, prev, ⟨last, hlast, next_iff.2 ⟨hcount, hextract, hhash, _, hntz⟩⟩,
                brokenLink_eq_none.1 hlinked, first, hfirst, hextract', not_not.1 hhash', _, hntz'⟩
  · rintro ⟨next, prev, ⟨last, hlast, hnext⟩, hlinked, first, hfirst, hextract', hhash', _, hntz'⟩
    obtain ⟨hcount, hextract, hhash, _, hntz⟩ := next_iff.1 hnext
    refine ⟨hcount, (next, 0), hextract, ?_⟩
    simp only [hntz, at?_last, hlast, brokenLink_eq_none.2 hlinked, hextract', hhash', hntz',
      at?_zero, hfirst, if_neg hhash, lt_irrefl, if_false, ne_eq, not_true, bind, Except.bind]
    rfl

/-- A header outside the array is read when there is none and the later notarization is right. -/
theorem validatehdrs_eq_outOfRange :
    C.validatehdrs ptr = .error .outOfRange ↔
      ptr.hdrs = [] ∧ ∃ next blockhash, NextNotarised C ptr next blockhash := by
  unfold validatehdrs
  rw [ite_pure_eq_error, bind_eq_error]
  constructor
  · rintro ⟨hcount, hextract | ⟨⟨next, code⟩, hextract, h⟩⟩
    · exact absurd hextract txextract_ne_outOfRange
    dsimp only at h
    rw [ite_pure_eq_error, ite_pure_eq_error] at h
    obtain ⟨hcode, hhash, h⟩ := h
    obtain rfl : code = 0 := (txextract_code hextract).resolve_right (by omega)
    split at h
    · cases h
    · rename_i height blockhash desttxid hntz
      rw [ite_pure_eq_error, at?_last] at h
      obtain ⟨hheight, h⟩ := h
      obtain rfl := not_not.1 hheight
      split at h
      · rename_i hlast
        exact ⟨List.getLast?_eq_none_iff.1 hlast, next, blockhash,
          next_iff.2 ⟨hcount, hextract, hhash, _, hntz⟩⟩
      · rename_i last hlast
        rw [ite_pure_eq_error] at h
        obtain ⟨hblock, h⟩ := h
        split at h
        · cases h
        · obtain hextract' | ⟨⟨prev, code⟩, hextract', h⟩ := bind_eq_error.1 h
          · exact absurd hextract' txextract_ne_outOfRange
          dsimp only at h
          rw [ite_pure_eq_error, ite_pure_eq_error] at h
          obtain ⟨-, -, h⟩ := h
          split at h
          · cases h
          · rw [ite_pure_eq_error, at?_zero] at h
            obtain ⟨-, h⟩ := h
            split at h
            · rename_i hfirst
              rw [List.head?_eq_none_iff.1 hfirst] at hlast
              cases hlast
            · split_ifs at h <;> cases h
  · rintro ⟨hnil, next, blockhash, hnext⟩
    obtain ⟨hcount, hextract, hhash, _, hntz⟩ := next_iff.1 hnext
    refine ⟨hcount, Or.inr ⟨(next, 0), hextract, ?_⟩⟩
    simp only [hntz, hnil, if_neg hhash, lt_irrefl, if_false, ne_eq, not_true]
    rfl

/-! ### Notaries -/

/-- The notary has signed an input of the transaction. -/
def HasSigned (C : Client) (tx : Wire.CTransaction) (nTime : ℕ) (pubkey : Bytes) : Prop :=
  ∃ vini sig hash, inputSignature tx vini = some sig ∧ C.notaryHash tx nTime vini pubkey = .ok hash
    ∧ C.verify pubkey hash sig

open Classical in
/-- The elected notaries that have signed. -/
noncomputable def signers (C : Client) (tx : Wire.CTransaction) (height : ℤ) : Finset (Fin 64) :=
  let elected := C.notaries height (C.blocktime height)
  Finset.univ.filter fun j => (j : ℕ) < elected.count ∧
    HasSigned C tx (C.blocktime height) (elected.pubkeys j)

/-- The output that names the notarized block. -/
def Names (tx : Wire.CTransaction) (height : ℤ) (blockhash : Uint256) : Prop :=
  ∃ out, tx.vout[1]? = some out ∧ 32 * 2 + 4 ≤ (getOpReturnData out.scriptPubKey).length ∧
    (opretextract (getOpReturnData out.scriptPubKey)).1 = height ∧
    (opretextract (getOpReturnData out.scriptPubKey)).2.1 = blockhash

theorem notarizationextract_eq_ok {height : ℤ}
    {blockhash desttxid : Uint256}
    (h : C.notarizationextract true tx = .ok (height, blockhash, desttxid)) :
    Names tx height blockhash ∧
      12 ≤ C.fastnotariescount tx (C.notaries height (C.blocktime height)) (C.blocktime height) := by
  unfold notarizationextract at h
  split at h
  · cases h
  · rename_i out hout
    dsimp only at h
    split_ifs at h with hlen hsigs
    obtain ⟨rfl, hrest⟩ := Prod.mk.inj (Except.ok.inj h)
    obtain ⟨rfl, -⟩ := Prod.mk.inj hrest
    refine ⟨⟨out, hout, hlen, rfl, rfl⟩, ?_⟩
    simpa using hsigs

/-- The mark of a notary comes from an input with its signature. -/
theorem mem_markNotary {elected : Elected} {nTime vini : ℕ}
    {mask : Finset (Fin 64)} {j : Fin 64} (h : j ∈ C.markNotary tx elected nTime mask vini) :
    j ∈ mask ∨ ∃ sig, inputSignature tx vini = some sig ∧
      C.verify (elected.pubkeys j) (C.sigTxHash tx elected nTime vini j) sig := by
  unfold markNotary at h
  split at h
  · rename_i sig hsig
    split at h
    · rename_i k hk
      rcases Finset.mem_insert.1 h with rfl | hmem
      · have hfound := List.find?_some hk
        rw [decide_eq_true_eq] at hfound
        exact Or.inr ⟨sig, hsig, hfound.2⟩
      · exact Or.inl hmem
    · exact Or.inl h
  · exact Or.inl h

theorem mem_marks {elected : Elected} {nTime : ℕ} {vinis : List ℕ}
    {mask : Finset (Fin 64)} {j : Fin 64}
    (h : j ∈ vinis.foldl (C.markNotary tx elected nTime) mask) :
    j ∈ mask ∨ ∃ vini sig, inputSignature tx vini = some sig ∧
      C.verify (elected.pubkeys j) (C.sigTxHash tx elected nTime vini j) sig := by
  induction vinis generalizing mask with
  | nil => exact Or.inl h
  | cons vini vinis ih =>
    rcases ih h with hmark | hlater
    · rcases mem_markNotary hmark with hmem | ⟨sig, hsig, hverify⟩
      exacts [Or.inl hmem, Or.inr ⟨vini, sig, hsig, hverify⟩]
    · exact Or.inr hlater

/-- The signatures are checked against the hashes of their inputs, for elected notaries only: the
client is logged in, the hashes can be computed, and all places of `elected` are filled. -/
structure Genuine (C : Client) (tx : Wire.CTransaction) (height : ℤ) : Prop where
  loggedIn : ∀ vini j, C.loggedIn tx vini j
  hashed : ∀ vini j, (inputSignature tx vini).isSome → ∃ hash, C.notaryHash tx (C.blocktime height)
    vini ((C.notaries height (C.blocktime height)).pubkeys j) = .ok hash
  elected : 64 ≤ (C.notaries height (C.blocktime height)).count

/-- **The count is a count of notaries that have signed.** -/
theorem fastnotariescount_le {height : ℤ} (h : Genuine C tx height) :
    C.fastnotariescount tx (C.notaries height (C.blocktime height)) (C.blocktime height)
      ≤ (signers C tx height).card := by
  classical
  refine Finset.card_le_card fun j hj => ?_
  rcases mem_marks hj with hmem | ⟨vini, sig, hsig, hverify⟩
  · exact absurd hmem (Finset.notMem_empty j)
  · obtain ⟨hash, hhash⟩ := h.hashed vini j (by rw [hsig]; rfl)
    rw [sigTxHash, if_pos (h.loggedIn vini j), hhash] at hverify
    exact Finset.mem_filter.2 ⟨Finset.mem_univ j, j.isLt.trans_le h.elected, vini, sig, hash, hsig,
      hhash, hverify⟩

/-! ### What a zero promises -/

/-- Linked headers between two blocks that notarizations with twelve signatures name. -/
structure TrustedHeaders (C : Client) (ptr : NtzsProofResp) (next prev : Wire.CTransaction) :
    Prop where
  linked : ∀ i < ptr.hdrs.length - 1,
    (ptr.hdrs[i]?).map C.hdrhash = (ptr.hdrs[i + 1]?).map EquiHdr.hashPrevBlock
  next_read : C.txextract {} ptr.nextntz = .ok (next, 0) ∧ next.hash = ptr.nexttxid
  last : ∃ hdr, ptr.hdrs.getLast? = some hdr ∧ Names next ptr.nextht (C.hdrhash hdr)
  next_signed : 12 ≤ (signers C next ptr.nextht).card
  prev_read : C.txextract next ptr.prevntz = .ok (prev, 0) ∧ prev.hash = ptr.prevtxid
  first : ∃ hdr, ptr.hdrs.head? = some hdr ∧ Names prev ptr.prevht (C.hdrhash hdr)
  prev_signed : 12 ≤ (signers C prev ptr.prevht).card

/-- The bytes of the proof; without a length there are none. -/
def proofData (R : Received) : Bytes :=
  if 0 < (txproof R).txproof.len then (txproof R).txproof.data else []

/-- The root of the proof is that of the header at the position. -/
def ProvesAt (C : Client) (R : Received) (position : ℤ) : Prop :=
  ∃ hdr, at? R.ntzsproofresult.hdrs position = some hdr ∧
    (C.bitcoinGetProofMerkleRoot (proofData R)).1 = hdr.hashMerkleRoot

/-- What a zero is relied on for. -/
structure Trusted (C : Client) (R : Received) (args : Args) (tx : Wire.CTransaction) : Prop where
  hash : tx.hash = args.txid
  unspent : 0 < (txproof R).unspentvalue
  headers : ∃ next prev, TrustedHeaders C R.ntzsproofresult next prev
  proof : ProvesAt C R (args.height - R.ntzsproofresult.prevht)
  first_match : (C.bitcoinGetProofMerkleRoot (proofData R)).2.head? = some args.txid
  between : R.ntzsproofresult.prevht ≤ args.height ∧ args.height ≤ R.ntzsproofresult.nextht

/-- With validation: nothing outside an array is read, and a zero can be relied on. -/
def Sound (C : Client) (R : Received) (args : Args) : Prop :=
  C.gettransaction false R args ≠ .error .outOfRange ∧
    ∀ res, C.gettransaction false R args = .ok res → res.retval = 0 → Trusted C R args res.tx

/-! ### When it keeps the promise -/

/-- The position of the header, from the notarizations that were asked for. -/
def offset (R : Received) (args : Args) : ℤ :=
  int32 (args.height - (bracket R args.height).prevHeight)

/-- The headers are looked at: a proof of the transaction was found, the lengths do not end the
run, and the notarizations that were asked for are around the height. -/
structure Reached (R : Received) (args : Args) : Prop where
  txid : (txproof R).txid = args.txid
  txlen : 0 ≤ (txproof R).tx.len
  txprooflen : (txproof R).txproof.len < MAX_TX_SIZE_AFTER_SAPLING
  notarized : (bracket R args.height).prevHeight ≠ 0
    ∧ (bracket R args.height).prevHeight ≤ (bracket R args.height).nextHeight
  around : 0 ≤ offset R args ∧ args.height ≤ (bracket R args.height).nextHeight

/-- What the zero needs besides the proof and the headers. -/
structure Kept (C : Client) (R : Received) (args : Args) (next prev : Wire.CTransaction) : Prop where
  /-- The transaction was extracted, and it is the one that was asked for. -/
  hash : ∀ tx code, C.txextract args.tx (txproof R).tx = .ok (tx, code) → tx.hash = args.txid
  unspent : 0 < (txproof R).unspentvalue
  /-- The headers start where the notarizations that were asked for do. -/
  position : ProvesAt C R (args.height - R.ntzsproofresult.prevht)
  between : R.ntzsproofresult.prevht ≤ args.height ∧ args.height ≤ R.ntzsproofresult.nextht
  next_signed : ¬ Genuine C next R.ntzsproofresult.nextht →
    12 ≤ (signers C next R.ntzsproofresult.nextht).card
  prev_signed : ¬ Genuine C prev R.ntzsproofresult.prevht →
    12 ≤ (signers C prev R.ntzsproofresult.prevht).card

/-- The condition under which `NSPV_gettransaction` does what it is relied on for. -/
structure Guarded (C : Client) (R : Received) (args : Args) : Prop where
  /-- The interest is computed for an output that the transaction has. -/
  output : (txproof R).txid = args.txid → 0 < (txproof R).unspentvalue → C.isKMD →
    args.tiptime ≠ 0 → ∀ tx, C.txextract args.tx (txproof R).tx = .ok (tx, 0) →
    tx.hash = args.txid → (at? tx.vout args.vout).isSome
  /-- A later notarization that is right comes with headers. -/
  headers : Reached R args → R.ntzsproofresult.hdrs = [] →
    ∀ next blockhash, ¬ NextNotarised C R.ntzsproofresult next blockhash
  /-- There is a header at the position. -/
  header : Reached R args → ∀ next prev, HdrsValid C R.ntzsproofresult next prev →
    (at? R.ntzsproofresult.hdrs (offset R args)).isSome
  /-- The proof has a match. -/
  match_ : Reached R args → ∀ next prev, HdrsValid C R.ntzsproofresult next prev →
    (C.bitcoinGetProofMerkleRoot (proofData R)).2 ≠ []
  /-- A proof that is accepted does not hide what was found wrong before. -/
  accepted : Reached R args → ∀ next prev, HdrsValid C R.ntzsproofresult next prev →
    ProvesAt C R (offset R args) →
    (C.bitcoinGetProofMerkleRoot (proofData R)).2.head? = some args.txid → Kept C R args next prev

section
variable {R : Received} {args : Args}

theorem proofBytes_eq (h : (txproof R).txproof.len < MAX_TX_SIZE_AFTER_SAPLING) :
    proofBytes (txproof R) = .ok (proofData R) := by
  unfold proofBytes proofData
  split_ifs <;> rfl

/-- The part that looks at the headers, once it is reached. -/
theorem checkProof_eq (h : Reached R args) : C.checkProof R args = (do
    let retval ← C.validatehdrs R.ntzsproofresult
    if retval = 0 then
      match at? R.ntzsproofresult.hdrs (offset R args),
          at? (C.bitcoinGetProofMerkleRoot (proofData R)).2 0 with
      | some hdr, some first =>
        if (C.bitcoinGetProofMerkleRoot (proofData R)).1 ≠ hdr.hashMerkleRoot ∨ first ≠ args.txid
        then return -2003 else return 0
      | _, _ => throw .outOfRange
    else return retval) := by
  unfold checkProof
  rw [proofBytes_eq h.txprooflen]
  simp only [bind, Except.bind]
  rw [if_pos h.notarized]
  exact if_pos h.around

theorem checkProof_eq_zero (h : Reached R args) : C.checkProof R args = .ok 0 ↔
    (∃ next prev, HdrsValid C R.ntzsproofresult next prev) ∧ ProvesAt C R (offset R args) ∧
      (C.bitcoinGetProofMerkleRoot (proofData R)).2.head? = some args.txid := by
  rw [checkProof_eq h, bind_eq_ok]
  constructor
  · rintro ⟨retval, hvalid, hcheck⟩
    split_ifs at hcheck with hzero
    · rw [hzero, validatehdrs_eq_zero] at hvalid
      split at hcheck
      · rename_i hdr first hhdr hfirst
        obtain ⟨hsame, -⟩ := (ite_pure_eq_zero (by decide)).1 hcheck
        obtain ⟨hroot, htxid⟩ := not_or.1 hsame
        rw [at?_zero, not_not.1 htxid] at hfirst
        exact ⟨hvalid, ⟨hdr, hhdr, not_not.1 hroot⟩, hfirst⟩
      · cases hcheck
    · exact absurd (Except.ok.inj hcheck) hzero
  · rintro ⟨hvalid, ⟨hdr, hhdr, hroot⟩, hfirst⟩
    refine ⟨0, validatehdrs_eq_zero.2 hvalid, ?_⟩
    rw [if_pos rfl, at?_zero, hhdr, hfirst]
    exact if_neg (by rw [not_or, not_not, not_not]; exact ⟨hroot, rfl⟩)

theorem checkProof_eq_outOfRange (h : Reached R args) : C.checkProof R args = .error .outOfRange ↔
    (R.ntzsproofresult.hdrs = [] ∧
      ∃ next blockhash, NextNotarised C R.ntzsproofresult next blockhash) ∨
    (∃ next prev, HdrsValid C R.ntzsproofresult next prev) ∧
      (at? R.ntzsproofresult.hdrs (offset R args) = none ∨
        (C.bitcoinGetProofMerkleRoot (proofData R)).2 = []) := by
  rw [checkProof_eq h, bind_eq_error, validatehdrs_eq_outOfRange]
  refine or_congr_right ?_
  constructor
  · rintro ⟨retval, hvalid, hcheck⟩
    split_ifs at hcheck with hzero
    swap
    · cases hcheck
    rw [hzero, validatehdrs_eq_zero] at hvalid
    refine ⟨hvalid, ?_⟩
    split at hcheck
    · split_ifs at hcheck <;> cases hcheck
    · rename_i hnone
      cases hhdr : at? R.ntzsproofresult.hdrs (offset R args) with
      | none => exact Or.inl rfl
      | some hdr =>
        refine Or.inr (List.head?_eq_none_iff.1 ?_)
        cases hfirst : (C.bitcoinGetProofMerkleRoot (proofData R)).2.head? with
        | none => rfl
        | some first => exact absurd (hnone hdr first hhdr (by rw [at?_zero, hfirst])) id
  · rintro ⟨hvalid, hnone⟩
    refine ⟨0, validatehdrs_eq_zero.2 hvalid, ?_⟩
    rw [if_pos rfl]
    rcases hnone with hhdr | hfirst
    · rw [hhdr]
      rfl
    · rw [hfirst]
      cases at? R.ntzsproofresult.hdrs (offset R args) <;> rfl

/-- Otherwise the headers are not looked at. -/
theorem checkProof_of_not_reached (h : ¬ Reached R args) (htxid : (txproof R).txid = args.txid)
    (htxlen : 0 ≤ (txproof R).tx.len) :
    C.checkProof R args ≠ .error .outOfRange ∧ C.checkProof R args ≠ .ok 0 := by
  unfold checkProof
  by_cases hlen : (txproof R).txproof.len < MAX_TX_SIZE_AFTER_SAPLING
  · rw [proofBytes_eq hlen]
    simp only [bind, Except.bind]
    split_ifs with hntz haround
    · exact absurd ⟨htxid, htxlen, hlen, hntz, haround⟩ h
    · exact ⟨nofun, nofun⟩
    · exact ⟨nofun, nofun⟩
  · have hthrow : proofBytes (txproof R) = .error .exception := by
      unfold proofBytes
      rw [if_pos ((by decide : (0 : ℤ) < MAX_TX_SIZE_AFTER_SAPLING).trans_le (not_lt.1 hlen)),
        if_neg hlen]
      rfl
    rw [hthrow]
    exact ⟨nofun, nofun⟩

/-- The first part gives the transaction that was extracted. -/
theorem checkTx_eq_ok {tx : Wire.CTransaction} {retval rewardsum : ℤ}
    (h : C.checkTx false R args = .ok (tx, retval, rewardsum)) :
    0 ≤ (txproof R).tx.len ∧ ∃ code, C.txextract args.tx (txproof R).tx = .ok (tx, code) := by
  unfold checkTx at h
  obtain ⟨⟨tx', code⟩, hextract, h⟩ := bind_eq_ok.1 h
  have hlen : 0 ≤ (txproof R).tx.len := by
    by_contra hneg
    unfold txextract at hextract
    have hsmall : (txproof R).tx.len < MAX_TX_SIZE_AFTER_SAPLING :=
      (not_le.1 hneg).trans (by decide)
    rw [if_pos hsmall, if_pos (not_le.1 hneg)] at hextract
    cases hextract
  have htx : tx' = tx := by
    simp only [Bool.false_eq_true, if_false] at h
    split_ifs at h
    · exact congrArg Prod.fst (Except.ok.inj h)
    · exact congrArg Prod.fst (Except.ok.inj h)
    · exact congrArg Prod.fst (Except.ok.inj h)
    · split at h
      · cases h
      · exact congrArg Prod.fst (Except.ok.inj h)
    · exact congrArg Prod.fst (Except.ok.inj h)
  exact ⟨hlen, code, htx ▸ hextract⟩

/-- The only element that the first part reads is the output. -/
theorem checkTx_eq_outOfRange :
    C.checkTx false R args = .error .outOfRange ↔ 0 < (txproof R).unspentvalue ∧ C.isKMD ∧
      args.tiptime ≠ 0 ∧ ∃ tx, C.txextract args.tx (txproof R).tx = .ok (tx, 0) ∧
        tx.hash = args.txid ∧ at? tx.vout args.vout = none := by
  unfold checkTx
  rw [bind_eq_error]
  constructor
  · rintro (hextract | ⟨⟨tx, code⟩, hextract, h⟩)
    · exact absurd hextract txextract_ne_outOfRange
    simp only [Bool.false_eq_true, if_false] at h
    split_ifs at h with hcode hhash hunspent hkmd
    · cases h
    · cases h
    · cases h
    · split at h
      · rename_i hout
        obtain ⟨hcode, -⟩ := not_or.1 hcode
        obtain rfl : code = 0 := (txextract_code hextract).resolve_right (by omega)
        refine ⟨?_, hkmd.1, hkmd.2, tx, hextract, not_not.1 hhash, hout⟩
        simpa using hunspent
      · cases h
    · cases h
  · rintro ⟨hunspent, hkmd, htip, tx, hextract, hhash, hout⟩
    refine Or.inr ⟨(tx, 0), hextract, ?_⟩
    have hlen := txextract_len hextract
    dsimp only
    rw [if_neg (by omega), if_neg (not_not.2 hhash), if_neg (by rintro ⟨-, hle⟩; omega),
      if_pos ⟨hkmd, htip⟩, hout]
    rfl

theorem checkTx_eq_exception (h : C.checkTx false R args = .error .exception) :
    (txproof R).tx.len < 0 := by
  unfold checkTx at h
  rcases bind_eq_error.1 h with hextract | ⟨⟨tx, code⟩, hextract, h⟩
  · unfold txextract at hextract
    split_ifs at hextract with hmax hneg
    · exact hneg
    · cases hextract
    · split at hextract <;> cases hextract
    · cases hextract
  · simp only [Bool.false_eq_true, if_false] at h
    split_ifs at h
    · cases h
    · cases h
    · cases h
    · split at h <;> cases h
    · cases h

/-- The two parts one after the other. -/
theorem sound_iff_parts : Sound C R args ↔ ((txproof R).txid = args.txid →
    C.checkTx false R args ≠ .error .outOfRange ∧
      ∀ tx retval rewardsum, C.checkTx false R args = .ok (tx, retval, rewardsum) →
        C.checkProof R args ≠ .error .outOfRange ∧
          (C.checkProof R args = .ok 0 → Trusted C R args tx)) := by
  unfold Sound gettransaction
  by_cases htxid : (txproof R).txid = args.txid
  · simp only [htxid, ne_eq, not_true, if_false, Bool.false_eq_true, bind_eq_ok, bind_eq_error,
      forall_const, not_or, not_exists, not_and]
    constructor
    · rintro ⟨⟨hrange, hrest⟩, hzero⟩
      refine ⟨hrange, fun tx retval rewardsum htx => ⟨?_, fun hproof => ?_⟩⟩
      · exact (hrest (tx, retval, rewardsum) htx).1
      · exact hzero _ ⟨(tx, retval, rewardsum), htx, 0, hproof, rfl⟩ rfl
    · rintro ⟨hrange, hrest⟩
      refine ⟨⟨hrange, fun out htx => ⟨(hrest out.1 out.2.1 out.2.2 htx).1, fun _ _ => nofun⟩⟩, ?_⟩
      rintro res ⟨out, htx, retval, hproof, hres⟩ hzero
      cases hres
      obtain rfl : retval = 0 := hzero
      exact (hrest out.1 out.2.1 out.2.2 htx).2 hproof
  · simp only [ne_eq, htxid, not_false_iff, if_true, false_imp_iff, iff_true]
    refine ⟨nofun, fun res hres hzero => ?_⟩
    cases hres
    exact absurd hzero (by decide : (-1 : ℤ) ≠ 0)

/-- Headers that have been checked, whose notarizations are signed. -/
theorem HdrsValid.trusted {ptr : NtzsProofResp} {next prev : Wire.CTransaction}
    (h : HdrsValid C ptr next prev)
    (hnext : ¬ Genuine C next ptr.nextht → 12 ≤ (signers C next ptr.nextht).card)
    (hprev : ¬ Genuine C prev ptr.prevht → 12 ≤ (signers C prev ptr.prevht).card) :
    TrustedHeaders C ptr next prev := by
  have hsigned : ∀ {tx : Wire.CTransaction} {height : ℤ},
      (¬ Genuine C tx height → 12 ≤ (signers C tx height).card) →
      12 ≤ C.fastnotariescount tx (C.notaries height (C.blocktime height)) (C.blocktime height) →
      12 ≤ (signers C tx height).card := by
    intro tx height hkept hcount
    by_cases hgenuine : Genuine C tx height
    · exact hcount.trans (fastnotariescount_le hgenuine)
    · exact hkept hgenuine
  obtain ⟨⟨last, hlast, -, hextract, hhash, _, hntz⟩, hlinked,
    first, hfirst, hextract', hhash', _, hntz'⟩ := h
  obtain ⟨hnames, hcount⟩ := notarizationextract_eq_ok hntz
  obtain ⟨hnames', hcount'⟩ := notarizationextract_eq_ok hntz'
  exact {
    linked := hlinked
    next_read := ⟨hextract, hhash⟩
    last := ⟨last, hlast, hnames⟩
    next_signed := hsigned hnext hcount
    prev_read := ⟨hextract', hhash'⟩
    first := ⟨first, hfirst, hnames'⟩
    prev_signed := hsigned hprev hcount' }

theorem HdrsValid.signed {ptr : NtzsProofResp} {next prev next' prev' : Wire.CTransaction}
    (h : HdrsValid C ptr next prev) (h' : TrustedHeaders C ptr next' prev') :
    12 ≤ (signers C next ptr.nextht).card ∧ 12 ≤ (signers C prev ptr.prevht).card := by
  obtain ⟨last, -, hnext⟩ := h.last
  obtain ⟨first, -, hprev⟩ := h.first
  have hsame := Except.ok.inj (hnext.extract.symm.trans h'.next_read.1)
  obtain rfl := congrArg Prod.fst hsame
  have hsame' := Except.ok.inj (hprev.extract.symm.trans h'.prev_read.1)
  obtain rfl := congrArg Prod.fst hsame'
  exact ⟨h'.next_signed, h'.prev_signed⟩

end

/-- **When the client may rely on the answer.** -/
theorem gettransaction_iff (C : Client) (R : Received) (args : Args) :
    Sound C R args ↔ Guarded C R args := by
  rw [sound_iff_parts]
  constructor
  · intro h
    have hrun : Reached R args → ∃ tx retval rewardsum,
        C.checkTx false R args = .ok (tx, retval, rewardsum) := by
      intro hr
      cases hcheck : C.checkTx false R args with
      | ok out => exact ⟨out.1, out.2.1, out.2.2, rfl⟩
      | error e =>
        cases e with
        | outOfRange => exact absurd hcheck (h hr.txid).1
        | exception => exact absurd (checkTx_eq_exception hcheck) (not_lt.2 hr.txlen)
    have hproof : ∀ hr : Reached R args, C.checkProof R args ≠ .error .outOfRange := by
      intro hr
      obtain ⟨tx, retval, rewardsum, htx⟩ := hrun hr
      exact ((h hr.txid).2 tx retval rewardsum htx).1
    refine ⟨?_, ?_, ?_, ?_, ?_⟩
    · intro htxid hunspent hkmd htip tx hextract hhash
      by_contra hout
      rw [Option.not_isSome_iff_eq_none] at hout
      exact (h htxid).1 (checkTx_eq_outOfRange.2 ⟨hunspent, hkmd, htip, tx, hextract, hhash, hout⟩)
    · intro hr hnil next blockhash hnext
      exact hproof hr ((checkProof_eq_outOfRange hr).2 (Or.inl ⟨hnil, next, blockhash, hnext⟩))
    · intro hr next prev hvalid
      by_contra hnone
      rw [Option.not_isSome_iff_eq_none] at hnone
      exact hproof hr ((checkProof_eq_outOfRange hr).2 (Or.inr ⟨⟨next, prev, hvalid⟩, Or.inl hnone⟩))
    · intro hr next prev hvalid hnil
      exact hproof hr ((checkProof_eq_outOfRange hr).2 (Or.inr ⟨⟨next, prev, hvalid⟩, Or.inr hnil⟩))
    · intro hr next prev hvalid hproves hmatch
      obtain ⟨tx, retval, rewardsum, htx⟩ := hrun hr
      have htrusted := ((h hr.txid).2 tx retval rewardsum htx).2
        ((checkProof_eq_zero hr).2 ⟨⟨next, prev, hvalid⟩, hproves, hmatch⟩)
      obtain ⟨next', prev', hheaders⟩ := htrusted.headers
      obtain ⟨hnext, hprev⟩ := hvalid.signed hheaders
      refine ⟨fun tx' code hextract => ?_, htrusted.unspent, htrusted.proof, htrusted.between,
        fun _ => hnext, fun _ => hprev⟩
      obtain ⟨-, code', hextract'⟩ := checkTx_eq_ok htx
      obtain rfl := congrArg Prod.fst (Except.ok.inj (hextract.symm.trans hextract'))
      exact htrusted.hash
  · intro h htxid
    refine ⟨fun hrange => ?_, fun tx retval rewardsum htx => ?_⟩
    · obtain ⟨hunspent, hkmd, htip, tx, hextract, hhash, hout⟩ := checkTx_eq_outOfRange.1 hrange
      have hsome := h.output htxid hunspent hkmd htip tx hextract hhash
      rw [hout] at hsome
      cases hsome
    · obtain ⟨htxlen, code, hextract⟩ := checkTx_eq_ok htx
      by_cases hr : Reached R args
      · refine ⟨fun hrange => ?_, fun hzero => ?_⟩
        · rcases (checkProof_eq_outOfRange hr).1 hrange with
            ⟨hnil, next, blockhash, hnext⟩ | ⟨⟨next, prev, hvalid⟩, hnone | hnil⟩
          · exact h.headers hr hnil next blockhash hnext
          · have hsome := h.header hr next prev hvalid
            rw [hnone] at hsome
            cases hsome
          · exact h.match_ hr next prev hvalid hnil
        · obtain ⟨⟨next, prev, hvalid⟩, hproves, hmatch⟩ := (checkProof_eq_zero hr).1 hzero
          have hkept := h.accepted hr next prev hvalid hproves hmatch
          exact ⟨hkept.hash tx code hextract, hkept.unspent,
            ⟨next, prev, hvalid.trusted hkept.next_signed hkept.prev_signed⟩, hkept.position, hmatch,
            hkept.between⟩
      · obtain ⟨hrange, hzero⟩ := checkProof_of_not_reached hr htxid htxlen
        exact ⟨hrange, fun h => absurd h hzero⟩

/-! ### An output that is not there -/

namespace OneOutput

/-- A transaction with one output. -/
def sentTx : CMutableTransaction where
  vin := [{ prevout := ⟨1, 0⟩ }]
  vout := [⟨1500000000, [0x51]⟩]

/-- Its SHA-256 hash, taken twice. -/
def txid : Uint256 := 0xe1e337fe8e30d8e463ce3661f8c452c432e031a026760120662fdadc87b417a0

/-- A client of the main chain. -/
def client : Client where
  sha256d bytes := if sentTx.serialize = some bytes then txid else 0
  getHash _ := 0
  hash2 _ _ := 0
  hasher := ⟨fun _ => 0, fun _ => by norm_num⟩
  saplinght := 1140409
  isKMD := true
  verify _ _ _ := false
  blocktime _ := 0
  notaries _ _ := ⟨64, fun _ => []⟩
  loggedIn _ _ _ := true
  staleHash _ _ _ := 0
  partlyRead tx _ := tx

def noBytes : RawBytes := ⟨0, [], nofun⟩

/-- The transaction without a proof; the other responses are empty. -/
def received : Received where
  cached := none
  txproofresult := {
    txid := txid
    unspentvalue := 1500000000
    height := 2000000
    tx := ⟨sentTx.written.length, sentTx.written, fun _ _ => rfl⟩
    txproof := noBytes
    hashblock := 0 }
  inforesult := ⟨2000100, 2000000⟩
  ntzsresult := ⟨0, 0⟩
  ntzsbracket := ⟨0, 0⟩
  ntzsproofresult := {
    hdrs := []
    numhdrs_lt := by decide
    prevht := 0
    nextht := 0
    prevtxid := 0
    nexttxid := 0
    prevntz := noBytes
    nextntz := noBytes }

/-- The second output, with the time of the tip for the interest. -/
def args : Args where
  vout := 1
  txid := txid
  height := 2000000
  tx := {}
  tiptime := 1600000000

/-- **An output outside the transaction is read.** -/
theorem not_sound : ¬ Sound client received args := by
  have hrun : client.gettransaction false received args = .error .outOfRange := by decide
  exact fun h => h.1 hrun

end OneOutput

end Client
end NSPV
end Komodo
