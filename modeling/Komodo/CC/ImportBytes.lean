/-
# The bytes of an import

`WriteVarInt` and `ReadVarInt` of `src/src/serialize.h` for an `int`, the `SerializationOp`s of
`MerkleBranch` (`src/src/cc/eval.h`) and of `ImportProof` (`src/src/importcoin.h`), and the import
data of `src/src/importcoin.cpp`: a proof and a burn transaction, one behind the other.

`WriteVarInt` goes on while what is left exceeds `0x7F`.  A negative number does not, so that one
byte is written for it, which is read as a number below 128 (`varInt_varIntBytes`).  Everything else
in the import data is read back exactly when it fits (`unmarshalImportData_take`).
-/

import Komodo.CC.ImportCoin
import Komodo.Primitives.TransactionReaders

namespace Komodo

open Streams Unserialize List Nat

/-! ### Numbers of variable length -/

/-- The loop of `WriteVarInt`, whose `tmp` is written from its end. `room` is the number of places
left in `tmp`, `len` tells whether some are taken. -/
def writeVarIntLoop : (room : ℕ) → (len : Bool) → (n : ℤ) → Bytes
  | 0, _, _ => []
  | room + 1, len, n =>
    let b := UInt8.ofNat (n % 128).toNat ||| (if len then 0x80 else 0x00)
    if n ≤ 0x7F then [b] else writeVarIntLoop room true (n / 128 - 1) ++ [b]

/-- `WriteVarInt` for an `int`: `tmp` has `(sizeof(n)*8+6)/7` places. -/
def varIntBytes (n : ℤ) : Bytes := writeVarIntLoop 5 false n

/-- `ReadVarInt` for an `int`. -/
def Unserialize.varInt : Unserialize ℤ := toInt32 <$> varInt32

theorem toNat_or_high {m : ℕ} (h : m < 128) : (UInt8.ofNat m ||| 0x80).toNat = m + 128 := by
  have hhigh : UInt8.toNat 0x80 = 2 ^ 7 * 1 := rfl
  rw [UInt8.toNat_or, UInt8.toNat_ofNat', Nat.mod_eq_of_lt (by omega), hhigh, Nat.or_comm,
    ← two_pow_add_eq_or_of_lt h]
  omega

theorem readVarIntLoop_more {w n m : ℕ} (hm : m < 128) (hw : n * 128 + m + 1 < 2 ^ w) (s : Bytes) :
    readVarIntLoop w n ((UInt8.ofNat m ||| 0x80) :: s) = readVarIntLoop w (n * 128 + m + 1) s := by
  have hdigit : (m + 128) % 128 = m := by omega
  rw [readVarIntLoop, toNat_or_high hm, hdigit]
  rw [if_pos (by omega), mod_eq_of_lt (by omega : n * 128 + m < 2 ^ w), mod_eq_of_lt hw]

theorem readVarIntLoop_last {w n m : ℕ} (hm : m < 128) (hw : n * 128 + m < 2 ^ w) (s : Bytes) :
    readVarIntLoop w n (UInt8.ofNat m :: s) = some (n * 128 + m, s) := by
  have hbyte : (UInt8.ofNat m).toNat = m := by
    rw [UInt8.toNat_ofNat']
    omega
  rw [readVarIntLoop, hbyte, mod_eq_of_lt hm, mod_eq_of_lt hw]
  exact if_neg (by omega)

/-- The bytes before the last lead to the number that they stand for, plus one. -/
theorem readVarIntLoop_high {w room m : ℕ} (hm : m < 128 ^ (room + 1)) (hw : m + 1 < 2 ^ w)
    (s : Bytes) : readVarIntLoop w 0 (writeVarIntLoop (room + 1) true m ++ s) =
      readVarIntLoop w (m + 1) s := by
  induction room generalizing m s with
  | zero =>
    have hsmall : (m : ℤ) ≤ 0x7F := by omega
    have hdigit : ((m : ℤ) % 128).toNat = m := by omega
    rw [writeVarIntLoop]
    simp only [if_true, if_pos hsmall, hdigit]
    have hread := readVarIntLoop_more (w := w) (n := 0) (by omega : m < 128) (by omega) s
    rwa [zero_mul, zero_add] at hread
  | succ room ih =>
    have hdigit : ((m : ℤ) % 128).toNat = m % 128 := by omega
    rw [writeVarIntLoop]
    simp only [if_true, hdigit]
    split_ifs with hsmall
    · have hread := readVarIntLoop_more (w := w) (n := 0) (by omega : m % 128 < 128) (by omega) s
      rw [zero_mul, zero_add, mod_eq_of_lt (by omega : m < 128)] at hread
      rwa [mod_eq_of_lt (by omega : m < 128)]
    · have hrest : (m : ℤ) / 128 - 1 = ((m / 128 - 1 : ℕ) : ℤ) := by omega
      have hlt : m / 128 < 128 ^ (room + 1) := by
        rw [div_lt_iff_lt_mul (by decide), ← pow_succ]
        exact hm
      have hsucc : m / 128 - 1 + 1 = m / 128 := by omega
      rw [hrest, append_assoc, ih (by omega) (by omega), singleton_append, hsucc,
        readVarIntLoop_more (by omega) (by omega)]
      congr 1
      omega

/-- **A number of variable length is read back unless it is negative.** -/
theorem varInt_varIntBytes {n : ℤ} (hn : n < 2 ^ 31) (s : Bytes) :
    varInt (varIntBytes n ++ s) = some (if 0 ≤ n then n else n % 128, s) := by
  rw [varInt, map_apply, varInt32, varIntBytes, writeVarIntLoop]
  simp only [Bool.false_eq_true, if_false, UInt8.or_zero]
  by_cases hsmall : n ≤ 0x7F
  · -- one byte, also for a negative number
    have hread := readVarIntLoop_last (w := 32) (n := 0) (m := (n % 128).toNat) (by omega)
      (by omega) s
    rw [if_pos hsmall, singleton_append, hread, Option.map_some, zero_mul, zero_add,
      toInt32, if_pos (by omega)]
    split_ifs
    · rw [show ((n % 128).toNat : ℤ) = n by omega]
    · rw [show ((n % 128).toNat : ℤ) = n % 128 by omega]
  · obtain ⟨m, rfl⟩ := Int.eq_ofNat_of_zero_le (by omega : 0 ≤ n)
    have hrest : (m : ℤ) / 128 - 1 = ((m / 128 - 1 : ℕ) : ℤ) := by omega
    have hdigit : ((m : ℤ) % 128).toNat = m % 128 := by omega
    have hsucc : m / 128 - 1 + 1 = m / 128 := by omega
    rw [if_neg hsmall, if_pos (by omega), hrest, hdigit, append_assoc,
      readVarIntLoop_high (by omega) (by omega), hsucc, singleton_append,
      readVarIntLoop_last (by omega) (by omega), Option.map_some, toInt32, if_pos (by omega)]
    congr 3
    omega

theorem extensible_readVarIntLoop (w n : ℕ) : Extensible (readVarIntLoop w n : Unserialize ℕ) := by
  intro s
  induction s generalizing n with
  | nil =>
    intro a s' h
    cases h
  | cons chData s ih =>
    intro a s' h t
    rw [cons_append, readVarIntLoop]
    rw [readVarIntLoop] at h
    split_ifs at h ⊢ with hmore
    · exact ih _ a s' h t
    · cases h
      rfl

theorem extensible_varInt : Extensible varInt :=
  (extensible_readVarIntLoop 32 0).map toInt32

theorem varInt_lt {s s' : Bytes} {n : ℤ} (h : varInt s = some (n, s')) :
    n < 2 ^ 31 := by
  have hbits : ∀ (s : Bytes) (m k : ℕ) (s' : Bytes), readVarIntLoop 32 m s = some (k, s') →
      k < 2 ^ 32 := by
    intro s
    induction s with
    | nil =>
      intro m k s' h
      cases h
    | cons chData s ih =>
      intro m k s' h
      rw [readVarIntLoop] at h
      split_ifs at h with hmore
      · exact ih _ k s' h
      · cases h
        exact mod_lt _ (by decide)
  rw [varInt, map_apply] at h
  obtain ⟨⟨k, t⟩, hk, heq⟩ := Option.map_eq_some_iff.1 h
  obtain ⟨rfl, -⟩ := Prod.mk.inj heq
  have hlt := hbits _ _ _ _ hk
  rw [toInt32]
  split_ifs <;> omega

theorem roundTrips_varInt :
    RoundTrips varInt varIntBytes fun n => 0 ≤ n ∧ n < 2 ^ 31 := by
  intro n s s'
  constructor
  · intro h
    have hlt := varInt_lt h
    rw [varInt_varIntBytes hlt] at h
    obtain ⟨hn, rfl⟩ := Prod.mk.inj (Option.some.inj h)
    refine ⟨⟨?_, hlt⟩, rfl⟩
    split_ifs at hn with hpos <;> omega
  · rintro ⟨⟨hpos, hlt⟩, rfl⟩
    rw [varInt_varIntBytes hlt, if_pos hpos]

/-! ### Proofs -/

namespace MerkleBranch

def serialize (b : MerkleBranch) : Bytes :=
  varIntBytes b.nIndex ++ listBytes uint256Bytes b.branch

def unserialize : Unserialize MerkleBranch := do
  let nIndex ← varInt
  let branch ← vectorOf uint256
  pure ⟨nIndex, branch⟩

/-- A vector of hashes that is read back. -/
def HashesFit (hs : List Uint256) : Prop :=
  hs.length ≤ maxSize ∧ ∀ h ∈ hs, h < 2 ^ 256

/-- A branch that is read back. -/
def Fits (b : MerkleBranch) : Prop := (0 ≤ b.nIndex ∧ b.nIndex < 2 ^ 31) ∧ HashesFit b.branch

theorem codec_hashes :
    Codec (vectorOf uint256) (listBytes uint256Bytes) HashesFit :=
  codec_vectorOf codec_uint256

theorem roundTrips : RoundTrips unserialize serialize Fits := by
  intro b s s'
  rw [unserialize, serialize, append_assoc, roundTrips_varInt.bind_eq_some nIndex]
  · rw [codec_hashes.roundTrips.bind_eq_some branch]
    · simp only [pure_apply, Option.some.injEq, Prod.mk.injEq, true_and, Fits, and_assoc, eq_comm]
    · intro a t b s' h
      rw [pure_apply] at h
      exact congrArg branch (Prod.mk.inj (Option.some.inj h)).1.symm
  · intro a t b s' h
    rw [bind_apply] at h
    obtain ⟨p, -, hp⟩ := Option.bind_eq_some_iff.1 h
    exact congrArg nIndex (Prod.mk.inj (Option.some.inj hp)).1.symm

theorem extensible_unserialize : Extensible unserialize :=
  extensible_varInt.bind fun _ => codec_hashes.extensible.bind fun _ => extensible_pure _

end MerkleBranch

namespace TxProof

def serialize (p : TxProof) : Bytes := uint256Bytes p.1 ++ p.2.serialize

def unserialize : Unserialize TxProof := do
  let hash ← uint256
  let branch ← MerkleBranch.unserialize
  pure (hash, branch)

/-- A proof by a branch that is read back. -/
def Fits (p : TxProof) : Prop := p.1 < 2 ^ 256 ∧ p.2.Fits

theorem roundTrips : RoundTrips unserialize serialize Fits := by
  intro p s s'
  rw [unserialize, serialize, append_assoc, codec_uint256.roundTrips.bind_eq_some Prod.fst]
  · rw [MerkleBranch.roundTrips.bind_eq_some Prod.snd]
    · simp only [pure_apply, Option.some.injEq, Prod.mk.injEq, true_and, Fits, and_assoc, eq_comm]
    · intro a t p s' h
      rw [pure_apply] at h
      exact congrArg Prod.snd (Prod.mk.inj (Option.some.inj h)).1.symm
  · intro a t p s' h
    rw [bind_apply] at h
    obtain ⟨q, -, hq⟩ := Option.bind_eq_some_iff.1 h
    exact congrArg Prod.fst (Prod.mk.inj (Option.some.inj hq)).1.symm

theorem extensible_unserialize : Extensible unserialize :=
  codec_uint256.extensible.bind fun _ =>
    MerkleBranch.extensible_unserialize.bind fun _ => extensible_pure _

end TxProof

def PROOF_NONE : UInt8 := 0x00
def PROOF_MERKLEBRANCH : UInt8 := 0x11
def PROOF_NOTARYTXIDS : UInt8 := 0x12
def PROOF_MERKLEBLOCK : UInt8 := 0x13

namespace ImportProof

def serialize : ImportProof → Bytes
  | none => [PROOF_NONE]
  | merkleBranch proofBranch => PROOF_MERKLEBRANCH :: TxProof.serialize proofBranch
  | notaryTxids txids => PROOF_NOTARYTXIDS :: listBytes uint256Bytes txids
  | merkleBlock proofBlock => PROOF_MERKLEBLOCK :: vectorBytes proofBlock

/-- A kind that is not known is none. -/
def unserialize : Unserialize ImportProof := do
  let proofKind ← uint8
  if proofKind = PROOF_MERKLEBRANCH then merkleBranch <$> TxProof.unserialize
  else if proofKind = PROOF_NOTARYTXIDS then
    notaryTxids <$> vectorOf uint256
  else if proofKind = PROOF_MERKLEBLOCK then merkleBlock <$> vector
  else pure none

/-- A proof that is read back: the index of a branch is not negative, and no vector is too long. -/
def Fits : ImportProof → Prop
  | none => True
  | merkleBranch proofBranch => TxProof.Fits proofBranch
  | notaryTxids txids => MerkleBranch.HashesFit txids
  | merkleBlock proofBlock => proofBlock.length ≤ maxSize

theorem unserialize_cons (proofKind : UInt8) (s : Bytes) : unserialize (proofKind :: s) =
    if proofKind = PROOF_MERKLEBRANCH then (merkleBranch <$> TxProof.unserialize) s
    else if proofKind = PROOF_NOTARYTXIDS then
      (notaryTxids <$> vectorOf uint256) s
    else if proofKind = PROOF_MERKLEBLOCK then (merkleBlock <$> vector) s
    else some (none, s) := by
  rw [unserialize, bind_apply, uint8_cons]
  simp only [Option.bind_some]
  split_ifs <;> rfl

theorem map_eq_some {α : Type} {r : Unserialize α} {write : α → Bytes} {Ok : α → Prop}
    (h : RoundTrips r write Ok) {kind : α → ImportProof} (hkind : Function.Injective kind) {a : α}
    {s s' : Bytes} : (kind <$> r) (write a ++ s) = some (kind a, s') ↔ Ok a ∧ s' = s := by
  rw [map_apply, ← h a s s', Option.map_eq_some_iff]
  constructor
  · rintro ⟨⟨b, t⟩, hr, heq⟩
    obtain ⟨hb, rfl⟩ := Prod.mk.inj heq
    obtain rfl := hkind hb
    exact hr
  · intro hr
    exact ⟨(a, s'), hr, rfl⟩

theorem roundTrips : RoundTrips unserialize serialize Fits := by
  intro proof s s'
  cases proof with
  | none =>
    rw [serialize, singleton_append, unserialize_cons]
    simp only [show PROOF_NONE ≠ PROOF_MERKLEBRANCH by decide,
      show PROOF_NONE ≠ PROOF_NOTARYTXIDS by decide, show PROOF_NONE ≠ PROOF_MERKLEBLOCK by decide,
      if_false, Option.some.injEq, Prod.mk.injEq, true_and, Fits, eq_comm]
  | merkleBranch proofBranch =>
    rw [serialize, cons_append, unserialize_cons, if_pos rfl]
    exact map_eq_some TxProof.roundTrips fun _ _ h => ImportProof.merkleBranch.inj h
  | notaryTxids txids =>
    rw [serialize, cons_append, unserialize_cons, if_neg (by decide), if_pos rfl]
    exact map_eq_some MerkleBranch.codec_hashes.roundTrips fun _ _ h =>
      ImportProof.notaryTxids.inj h
  | merkleBlock proofBlock =>
    rw [serialize, cons_append, unserialize_cons, if_neg (by decide), if_neg (by decide),
      if_pos rfl]
    exact map_eq_some codec_vector.roundTrips fun _ _ h => ImportProof.merkleBlock.inj h

theorem extensible_unserialize : Extensible unserialize := by
  refine extensible_uint8.bind fun proofKind => ?_
  split_ifs
  · exact TxProof.extensible_unserialize.map _
  · exact MerkleBranch.codec_hashes.extensible.map _
  · exact codec_vector.extensible.map _
  · exact extensible_pure _

end ImportProof

/-! ### The import data -/

namespace Wire

variable (sha256d : Bytes → Uint256)

/-- What is written for a `CTransaction` is read into another one, with the hash of the bytes. -/
theorem CTransaction.codec (into : CTransaction) :
    Codec (CTransaction.unserialize sha256d into) (fun tx => tx.written) (fun tx =>
      into.Fits tx.toCMutableTransaction ∧ tx.hash = sha256d tx.written) := by
  refine Codec.of_eq_some fun s s' tx => ?_
  rw [CTransaction.unserialize, (CMutableTransaction.codec _).bind_eq_some]
  constructor
  · rintro ⟨m, hm, t, rfl, hlift⟩
    rw [CTransaction.updateHash_eq hm] at hlift
    cases hlift
    exact ⟨⟨hm, rfl⟩, rfl⟩
  · rintro ⟨⟨hm, hhash⟩, rfl⟩
    refine ⟨tx.toCMutableTransaction, hm, s', rfl, ?_⟩
    rw [CTransaction.updateHash_eq hm]
    show some (CTransaction.hashed sha256d tx.toCMutableTransaction, s') = some (tx, s')
    rw [CTransaction.hashed, ← hhash]

/-- `E_MARSHAL(ss << EVAL_IMPORTCOIN; ss << proof; ss << burnTx)`, unless the transaction cannot be
written. -/
def marshalImportData (proof : ImportProof) (burnTx : CTransaction) : Option Bytes := do
  let bytes ← burnTx.serialize
  pure (EVAL_IMPORTCOIN :: (proof.serialize ++ bytes))

/-- `ss >> evalCode; ss >> proof; ss >> burnTx`. -/
def importDataReader (burnTx : CTransaction) : Unserialize (ImportProof × CTransaction) := do
  let _ ← uint8
  let proof ← ImportProof.unserialize
  let burnTx ← CTransaction.unserialize sha256d burnTx
  pure (proof, burnTx)

/-- `E_UNMARSHAL(vImportData, ss >> evalCode; ss >> proof; ss >> burnTx)`, into `burnTx`. -/
def unmarshalImportData (burnTx : CTransaction) (vImportData : Bytes) :
    Option (ImportProof × CTransaction) :=
  unmarshal vImportData (importDataReader sha256d burnTx)

/-- The import data of a transaction that can be written. -/
def importBytes (proof : ImportProof) (burnTx : CTransaction) : Bytes :=
  EVAL_IMPORTCOIN :: (proof.serialize ++ burnTx.written)

/-- A proof and a burn transaction that are read back: the transaction fits its format and has the
hash of its bytes. -/
def ImportFits (into : CTransaction) (proof : ImportProof) (burnTx : CTransaction) : Prop :=
  proof.Fits ∧ into.Fits burnTx.toCMutableTransaction ∧ burnTx.hash = sha256d burnTx.written

variable {sha256d} {into : CTransaction} {proof : ImportProof} {burnTx : CTransaction}

theorem ImportFits.marshal (h : ImportFits sha256d into proof burnTx) :
    marshalImportData proof burnTx = some (importBytes proof burnTx) := by
  rw [marshalImportData, CMutableTransaction.serialize_eq h.2.1]
  rfl

theorem extensible_importDataReader : Extensible (importDataReader sha256d into) :=
  extensible_uint8.bind fun _ => ImportProof.extensible_unserialize.bind fun _ =>
    (CTransaction.codec sha256d into).extensible.bind fun _ => extensible_pure _

/-- What the reader takes of the bytes that were written. -/
theorem importDataReader_eq_some {data t : Bytes}
    (hdata : marshalImportData proof burnTx = some data) :
    importDataReader sha256d into data = some ((proof, burnTx), t) ↔
      ImportFits sha256d into proof burnTx ∧ t = [] := by
  obtain ⟨bytes, hbytes, heq⟩ := Option.bind_eq_some_iff.1 hdata
  cases heq
  have hproof : ∀ (a : ImportProof) (t : Bytes) (b : ImportProof × CTransaction) (s' : Bytes),
      (CTransaction.unserialize sha256d into >>= fun burnTx => pure (a, burnTx) :
        Unserialize (ImportProof × CTransaction)) t = some (b, s') → b.1 = a := by
    intro a t b s' h
    rw [bind_apply] at h
    obtain ⟨p, -, hp⟩ := Option.bind_eq_some_iff.1 h
    exact congrArg Prod.fst (Prod.mk.inj (Option.some.inj hp)).1.symm
  rw [importDataReader, bind_apply, uint8_cons]
  simp only [Option.bind_some]
  refine (ImportProof.roundTrips.bind_eq_some (b := (proof, burnTx)) Prod.fst hproof).trans ?_
  rw [(CTransaction.codec sha256d into).bind_eq_some]
  simp only [pure_apply, Option.some.injEq, Prod.mk.injEq, true_and]
  constructor
  · rintro ⟨hp, tx, ⟨hfits, hhash⟩, rest, rfl, rfl, rfl⟩
    rw [CMutableTransaction.serialize_eq hfits] at hbytes
    have hnil := Option.some.inj hbytes
    rw [self_eq_append_right] at hnil
    exact ⟨⟨hp, hfits, hhash⟩, hnil⟩
  · rintro ⟨⟨hp, hfits, hhash⟩, rfl⟩
    rw [CMutableTransaction.serialize_eq hfits] at hbytes
    cases hbytes
    exact ⟨hp, burnTx, ⟨hfits, hhash⟩, [], (append_nil _).symm, rfl, rfl⟩

/-- **A proof and a burn transaction are read back from the first `k` bytes that were written for
them exactly when they fit and no byte is missing.** -/
theorem unmarshalImportData_take {data : Bytes} (hdata : marshalImportData proof burnTx = some data)
    (k : ℕ) : unmarshalImportData sha256d into (data.take k) = some (proof, burnTx) ↔
      ImportFits sha256d into proof burnTx ∧ data.length ≤ k := by
  rw [unmarshalImportData, unmarshal_eq_some]
  constructor
  · intro h
    have hwhole := extensible_importDataReader _ _ _ h (data.drop k)
    rw [take_append_drop, nil_append, importDataReader_eq_some hdata] at hwhole
    exact ⟨hwhole.1, drop_eq_nil_iff.1 hwhole.2⟩
  · rintro ⟨hfits, hlen⟩
    rw [take_of_length_le hlen]
    exact (importDataReader_eq_some hdata).2 ⟨hfits, rfl⟩

end Wire

end Komodo
