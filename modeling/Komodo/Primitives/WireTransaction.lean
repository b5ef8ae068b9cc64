/-
# Reading a transaction

`CMutableTransaction` and `CTransaction` of `src/src/primitives/transaction.h` and
`transaction.cpp`: their `SerializationOp`s, which list the same fields, and the constructors.

`SerializationOp` reads into an object.  A field that the format of the transaction does not have
keeps the value that it had there, so the reader takes the object that it reads into.  Where
`CMutableTransaction(deserialize, s)` leaves a number without a value, the number is what the
memory held.
-/

import Komodo.Primitives.WireFormat

namespace Komodo
namespace Wire

open Streams Unserialize

@[ext]
structure CMutableTransaction where
  fOverwintered : Bool := false
  nVersion : ℤ := 1
  nVersionGroupId : ℕ := 0
  vin : List CTxIn := []
  vout : List CTxOut := []
  nLockTime : ℕ := 0
  nExpiryHeight : ℕ := 0
  valueBalance : ℤ := 0
  vShieldedSpend : List SpendDescription := []
  vShieldedOutput : List OutputDescription := []
  vjoinsplit : List JSDescription := []
  joinSplitPubKey : Uint256 := 0
  joinSplitSig : ByteArr 64 := ByteArr.zero 64
  bindingSig : ByteArr 64 := ByteArr.zero 64
deriving DecidableEq

/-- `CTransaction`: the same members and the cached hash. -/
@[ext]
structure CTransaction extends CMutableTransaction where
  hash : Uint256 := 0
deriving DecidableEq

def OVERWINTER_VERSION_GROUP_ID : ℕ := 0x03C48270
def SAPLING_VERSION_GROUP_ID : ℕ := 0x892F2085

def isOverwinterV3 (fOverwintered : Bool) (nVersionGroupId : ℕ) (nVersion : ℤ) : Bool :=
  fOverwintered && nVersionGroupId == OVERWINTER_VERSION_GROUP_ID && nVersion == 3

def isSaplingV4 (fOverwintered : Bool) (nVersionGroupId : ℕ) (nVersion : ℤ) : Bool :=
  fOverwintered && nVersionGroupId == SAPLING_VERSION_GROUP_ID && nVersion == 4

/-- A format that `SerializationOp` throws at. -/
def unknownFormat (fOverwintered : Bool) (nVersionGroupId : ℕ) (nVersion : ℤ) : Bool :=
  fOverwintered && !(isOverwinterV3 fOverwintered nVersionGroupId nVersion
    || isSaplingV4 fOverwintered nVersionGroupId nVersion)

def getHeader (fOverwintered : Bool) (nVersion : ℤ) : ℕ :=
  let header := (nVersion % 2 ^ 32).toNat
  if fOverwintered then header ||| 1 <<< 31 else header

namespace CMutableTransaction

variable (tx : CMutableTransaction)

def v3 : Bool := isOverwinterV3 tx.fOverwintered tx.nVersionGroupId tx.nVersion
def v4 : Bool := isSaplingV4 tx.fOverwintered tx.nVersionGroupId tx.nVersion

/-- The header that is written for the transaction. -/
def header : ℕ := getHeader tx.fOverwintered tx.nVersion

/-- The format has a list of JoinSplits and the list is not empty. -/
def hasJoinSplits : Bool := 2 ≤ tx.nVersion && tx.vjoinsplit ≠ []

/-- The format has shielded spends and outputs and there are some. -/
def hasShielded : Bool := tx.v4 && !(tx.vShieldedSpend.isEmpty && tx.vShieldedOutput.isEmpty)

/-- A field that is written under a condition. -/
def writeIf (c : Bool) (bytes : Bytes) : Bytes := if c then bytes else []

/-- The JoinSplits, one by one, where the format has them. -/
def joinSplitBytes : Option (List Bytes) :=
  if 2 ≤ tx.nVersion then tx.vjoinsplit.mapM (JSDescription.serialize tx.header) else some []

/-- `SerializationOp` for writing. -/
def serialize : Option Bytes := do
  guard (¬ unknownFormat tx.fOverwintered tx.nVersionGroupId tx.nVersion)
  let joinsplits ← tx.joinSplitBytes
  pure (leBytes 4 tx.header ++ writeIf tx.fOverwintered (leBytes 4 tx.nVersionGroupId)
    ++ listBytes CTxIn.serialize tx.vin ++ listBytes CTxOut.serialize tx.vout ++ leBytes 4 tx.nLockTime
    ++ writeIf (tx.v3 || tx.v4) (leBytes 4 tx.nExpiryHeight)
    ++ writeIf tx.v4 (intBytes 8 tx.valueBalance)
    ++ writeIf tx.v4 (listBytes SpendDescription.serialize tx.vShieldedSpend)
    ++ writeIf tx.v4 (listBytes OutputDescription.serialize tx.vShieldedOutput)
    ++ writeIf (2 ≤ tx.nVersion) (compactSizeBytes tx.vjoinsplit.length ++ joinsplits.flatten)
    ++ writeIf tx.hasJoinSplits (uint256Bytes tx.joinSplitPubKey)
    ++ writeIf tx.hasJoinSplits tx.joinSplitSig.1
    ++ writeIf tx.hasShielded tx.bindingSig.1)

/-- `SerializationOp` for reading into `tx`. -/
def unserialize : Unserialize CMutableTransaction := do
  let header ← uint 4
  let fOverwintered : Bool := 2 ^ 31 ≤ header
  let nVersion : ℤ := (header % 2 ^ 31 : ℕ)
  let nVersionGroupId ← readIf fOverwintered (uint 4) tx.nVersionGroupId
  let v3 := isOverwinterV3 fOverwintered nVersionGroupId nVersion
  let v4 := isSaplingV4 fOverwintered nVersionGroupId nVersion
  guard (¬ unknownFormat fOverwintered nVersionGroupId nVersion)
  let vin ← vectorOf CTxIn.unserialize
  let vout ← vectorOf CTxOut.unserialize
  let nLockTime ← uint 4
  let nExpiryHeight ← readIf (v3 || v4) (uint 4) tx.nExpiryHeight
  let valueBalance ← readIf v4 (int 8) tx.valueBalance
  let vShieldedSpend ← readIf v4 (vectorOf SpendDescription.unserialize) tx.vShieldedSpend
  let vShieldedOutput ← readIf v4 (vectorOf OutputDescription.unserialize) tx.vShieldedOutput
  let vjoinsplit ← readIf (2 ≤ nVersion) (vectorOf (JSDescription.unserialize header)) tx.vjoinsplit
  let joinSplitPubKey ← readIf (2 ≤ nVersion && vjoinsplit ≠ []) uint256 tx.joinSplitPubKey
  let joinSplitSig ← readIf (2 ≤ nVersion && vjoinsplit ≠ []) (array 64) tx.joinSplitSig
  let bindingSig ← readIf (v4 && !(vShieldedSpend.isEmpty && vShieldedOutput.isEmpty)) (array 64)
    tx.bindingSig
  pure { fOverwintered, nVersion, nVersionGroupId, vin, vout, nLockTime, nExpiryHeight, valueBalance
         vShieldedSpend, vShieldedOutput, vjoinsplit, joinSplitPubKey, joinSplitSig, bindingSig }

/-- What `CMutableTransaction(deserialize, s)` reads into: `memory` holds the numbers that get no
value, the other members are empty. -/
def uninitialized (memory : CMutableTransaction) : CMutableTransaction where
  fOverwintered := memory.fOverwintered
  nVersion := memory.nVersion
  nVersionGroupId := memory.nVersionGroupId
  nLockTime := memory.nLockTime
  nExpiryHeight := memory.nExpiryHeight
  valueBalance := memory.valueBalance

/-- `CMutableTransaction(deserialize, s)`. -/
def deserialize (memory : CMutableTransaction) : Unserialize CMutableTransaction :=
  (uninitialized memory).unserialize

end CMutableTransaction

namespace CTransaction

variable (sha256d : Bytes → Uint256)

def updateHash (tx : CTransaction) : Option CTransaction := do
  let bytes ← tx.serialize
  pure { tx with hash := sha256d bytes }

/-- `CTransaction(const CMutableTransaction &)`. -/
def ofMutable (tx : CMutableTransaction) : Option CTransaction :=
  updateHash sha256d {
    nVersion := tx.nVersion
    fOverwintered := tx.fOverwintered
    nVersionGroupId := tx.nVersionGroupId
    nExpiryHeight := tx.nExpiryHeight
    vin := tx.vin
    vout := tx.vout
    nLockTime := tx.nLockTime
    valueBalance := tx.valueBalance
    vShieldedSpend := tx.vShieldedSpend
    vShieldedOutput := tx.vShieldedOutput
    vjoinsplit := tx.vjoinsplit
    joinSplitPubKey := tx.joinSplitPubKey
    joinSplitSig := tx.joinSplitSig
    bindingSig := tx.bindingSig }

/-- `CTransaction(CMutableTransaction &&)`, which does not list `bindingSig`. -/
def ofMutableMoved (tx : CMutableTransaction) : Option CTransaction :=
  updateHash sha256d {
    nVersion := tx.nVersion
    fOverwintered := tx.fOverwintered
    nVersionGroupId := tx.nVersionGroupId
    vin := tx.vin
    vout := tx.vout
    nLockTime := tx.nLockTime
    nExpiryHeight := tx.nExpiryHeight
    valueBalance := tx.valueBalance
    vShieldedSpend := tx.vShieldedSpend
    vShieldedOutput := tx.vShieldedOutput
    vjoinsplit := tx.vjoinsplit
    joinSplitPubKey := tx.joinSplitPubKey
    joinSplitSig := tx.joinSplitSig }

/-- `SerializationOp` for reading into `tx`. -/
def unserialize (tx : CTransaction) : Unserialize CTransaction := do
  let read ← tx.toCMutableTransaction.unserialize
  StateT.lift (updateHash sha256d { read with hash := tx.hash })

/-- A `CMutableTransaction` is read into `mtx` and copied. -/
def unserializeCopied (mtx : CMutableTransaction) : Unserialize CTransaction := do
  StateT.lift (ofMutable sha256d (← mtx.unserialize))

/-- A `CMutableTransaction` is read into `mtx` and moved. -/
def unserializeMoved (mtx : CMutableTransaction) : Unserialize CTransaction := do
  StateT.lift (ofMutableMoved sha256d (← mtx.unserialize))

/-- `CTransaction(deserialize, s)`: the temporary is moved. -/
def deserialize (memory : CMutableTransaction) : Unserialize CTransaction := do
  StateT.lift (ofMutableMoved sha256d (← CMutableTransaction.deserialize memory))

end CTransaction

/-! ### What the reader takes -/

namespace CMutableTransaction

/-- The fields that the format has fit their widths, the others are those of `old`. -/
structure Fits (old m : CMutableTransaction) : Prop where
  nVersion : 0 ≤ m.nVersion ∧ m.nVersion < 2 ^ 31
  nVersionGroupId : if m.fOverwintered then m.nVersionGroupId < 256 ^ 4
    else m.nVersionGroupId = old.nVersionGroupId
  format : ¬ unknownFormat m.fOverwintered m.nVersionGroupId m.nVersion
  vin : m.vin.length ≤ maxSize ∧ ∀ i ∈ m.vin, i.Fits
  vout : m.vout.length ≤ maxSize ∧ ∀ o ∈ m.vout, o.Fits
  nLockTime : m.nLockTime < 256 ^ 4
  nExpiryHeight : if m.v3 || m.v4 then m.nExpiryHeight < 256 ^ 4
    else m.nExpiryHeight = old.nExpiryHeight
  valueBalance : if m.v4 then IntRange 8 m.valueBalance else m.valueBalance = old.valueBalance
  vShieldedSpend : if m.v4 then m.vShieldedSpend.length ≤ maxSize ∧ ∀ d ∈ m.vShieldedSpend, d.Fits
    else m.vShieldedSpend = old.vShieldedSpend
  vShieldedOutput : if m.v4 then m.vShieldedOutput.length ≤ maxSize ∧ ∀ d ∈ m.vShieldedOutput, d.Fits
    else m.vShieldedOutput = old.vShieldedOutput
  vjoinsplit : if decide (2 ≤ m.nVersion) then
      m.vjoinsplit.length ≤ maxSize ∧ ∀ d ∈ m.vjoinsplit, d.Fits m.header
    else m.vjoinsplit = old.vjoinsplit
  joinSplitPubKey : if m.hasJoinSplits then m.joinSplitPubKey < 2 ^ 256
    else m.joinSplitPubKey = old.joinSplitPubKey
  joinSplitSig : if m.hasJoinSplits then True else m.joinSplitSig = old.joinSplitSig
  bindingSig : if m.hasShielded then True else m.bindingSig = old.bindingSig

/-- The bytes of a transaction whose proofs are of the right kind. -/
def written (m : CMutableTransaction) : Bytes :=
  leBytes 4 m.header ++ (writeIf m.fOverwintered (leBytes 4 m.nVersionGroupId)
    ++ (listBytes CTxIn.serialize m.vin ++ (listBytes CTxOut.serialize m.vout
    ++ (leBytes 4 m.nLockTime ++ (writeIf (m.v3 || m.v4) (leBytes 4 m.nExpiryHeight)
    ++ (writeIf m.v4 (intBytes 8 m.valueBalance)
    ++ (writeIf m.v4 (listBytes SpendDescription.serialize m.vShieldedSpend)
    ++ (writeIf m.v4 (listBytes OutputDescription.serialize m.vShieldedOutput)
    ++ (writeIf (2 ≤ m.nVersion)
      (listBytes (fun d => (JSDescription.serialize m.header d).getD []) m.vjoinsplit)
    ++ (writeIf m.hasJoinSplits (uint256Bytes m.joinSplitPubKey)
    ++ (writeIf m.hasJoinSplits m.joinSplitSig.1
    ++ writeIf m.hasShielded m.bindingSig.1)))))))))))

/-- The header tells whether the transaction is overwintered, and its version. -/
theorem getHeader_iff {header : ℕ} {fOverwintered : Bool} {nVersion : ℤ} :
    header < 256 ^ 4 ∧ decide (2 ^ 31 ≤ header) = fOverwintered ∧
        ((header % 2 ^ 31 : ℕ) : ℤ) = nVersion ↔
      (0 ≤ nVersion ∧ nVersion < 2 ^ 31) ∧ header = getHeader fOverwintered nVersion := by
  have hor : ∀ v < 2 ^ 31, v ||| 1 <<< 31 = v + 2 ^ 31 := by
    intro v hv
    rw [Nat.or_comm, ← Nat.shiftLeft_add_eq_or_of_lt hv, Nat.one_shiftLeft, Nat.add_comm]
  unfold getHeader
  dsimp only
  constructor
  · rintro ⟨hlt, rfl, rfl⟩
    have hmod : (((header % 2 ^ 31 : ℕ) : ℤ) % 2 ^ 32).toNat = header % 2 ^ 31 := by omega
    rw [hmod]
    refine ⟨by omega, ?_⟩
    rcases Nat.lt_or_ge header (2 ^ 31) with hsmall | hlarge
    · rw [decide_eq_false (Nat.not_le.2 hsmall)]
      exact (Nat.mod_eq_of_lt hsmall).symm
    · rw [decide_eq_true hlarge, if_pos rfl, hor _ (Nat.mod_lt _ (by omega))]
      omega
  · rintro ⟨⟨hnonneg, hlt⟩, rfl⟩
    have hmod : (nVersion % 2 ^ 32).toNat = nVersion.toNat := by omega
    rw [hmod]
    cases fOverwintered with
    | false =>
      simp only [Bool.false_eq_true, if_false, decide_eq_false_iff_not]
      omega
    | true =>
      simp only [if_true, hor nVersion.toNat (by omega), decide_eq_true_eq]
      omega

/-- **A transaction is read from the bytes that are written for it and from no others.** -/
theorem codec (old : CMutableTransaction) : Codec old.unserialize written (Fits old) := by
  refine Codec.of_eq_some fun s s' m => ?_
  simp only [unserialize, (codec_uint _).bind_eq_some, (codec_readIf (codec_uint _) _ _).bind_eq_some,
    guard_bind_eq_some, (codec_vectorOf CTxIn.codec).bind_eq_some,
    (codec_vectorOf CTxOut.codec).bind_eq_some,
    (codec_readIf (codec_int (show 0 < 8 by omega)) _ _).bind_eq_some,
    (codec_readIf (codec_vectorOf SpendDescription.codec) _ _).bind_eq_some,
    (codec_readIf (codec_vectorOf OutputDescription.codec) _ _).bind_eq_some,
    (codec_readIf (codec_vectorOf (JSDescription.codec _)) _ _).bind_eq_some,
    (codec_readIf codec_uint256 _ _).bind_eq_some, (codec_readIf (codec_array _) _ _).bind_eq_some,
    pure_apply, Option.some.injEq, Prod.mk.injEq]
  constructor
  · -- the equations of the tails are left standing until all fields are there
    rintro ⟨header, hheader, _, h₁, gid, hgid, _, h₂, hformat, vin, hvin, _, h₃, vout, hvout, _, h₄,
      lock, hlock, _, h₅, expiry, hexpiry, _, h₆, balance, hbalance, _, h₇, spends, hspends, _, h₈,
      outputs, houtputs, _, h₉, joinsplits, hjoinsplits, _, h₁₀, key, hkey, _, h₁₁, sig, hsig, _, h₁₂,
      binding, hbinding, _, h₁₃, hm, hs⟩
    subst h₁ h₂ h₃ h₄ h₅ h₆ h₇ h₈ h₉ h₁₀ h₁₁ h₁₂ h₁₃ hm hs
    obtain ⟨hversion, heq⟩ := getHeader_iff.1 ⟨hheader, rfl, rfl⟩
    refine ⟨⟨hversion, hgid, hformat, hvin, hvout, hlock, hexpiry, hbalance, hspends, houtputs, ?_,
      hkey, hsig, hbinding⟩, ?_⟩
    · rw [CMutableTransaction.header, ← heq]
      exact hjoinsplits
    · simp only [written, CMutableTransaction.header, ← heq, List.append_assoc]
      rfl
  · rintro ⟨hm, rfl⟩
    obtain ⟨hlt, hoverwintered, hversion⟩ := getHeader_iff.2 ⟨hm.nVersion, rfl⟩
    refine ⟨m.header, hlt, _, by rw [written, List.append_assoc], ?_⟩
    rw [← CMutableTransaction.header] at hoverwintered hversion
    simp only [hoverwintered, hversion]
    simp only [List.append_assoc]
    exact ⟨_, hm.nVersionGroupId, _, rfl, hm.format, _, hm.vin, _, rfl, _, hm.vout, _, rfl, _,
      hm.nLockTime, _, rfl, _, hm.nExpiryHeight, _, rfl, _, hm.valueBalance, _, rfl, _,
      hm.vShieldedSpend, _, rfl, _, hm.vShieldedOutput, _, rfl, _, hm.vjoinsplit, _, rfl, _,
      hm.joinSplitPubKey, _, rfl, _, hm.joinSplitSig, _, rfl, _, hm.bindingSig, _, rfl, rfl, rfl⟩

end CMutableTransaction

end Wire
end Komodo
