/-
# Checking a fulfillment against a condition

`IsSupportedCryptoCondition`, `IsSignedCryptoCondition`, `CCPubKey`, `CCSig` and
`CCPrune` (`src/src/script/cc.cpp`), `cc_readFulfillmentBinaryExt` and
`cc_verify` (`src/src/cryptoconditions/src/cryptoconditions.c`) with its three
walks over the tree, and `TransactionSignatureChecker::CheckCryptoCondition`
(`src/src/script/interpreter.cpp`).

`checkCryptoCondition_eq_one` takes an accepted fulfillment apart.
-/

import Komodo.CryptoConditions.Condition

namespace Komodo

open Der

/-! ### Structure -/

def CCEnabledTypes : UInt32 :=
  CCTypeId.secp256k1.bit ||| CCTypeId.threshold.bit ||| CCTypeId.eval.bit |||
    CCTypeId.preimage.bit ||| CCTypeId.ed25519.bit

def CCSigningNodes : UInt32 := CCTypeId.ed25519.bit ||| CCTypeId.secp256k1.bit

def isSupportedCryptoCondition (cond : CC) : Bool :=
  cond.typeMask &&& ~~~CCEnabledTypes = 0 ∧ cond.typeMask &&& CCSigningNodes ≠ 0

namespace CC

mutual

/-- `IsSignedCryptoCondition`. -/
def isSigned : CC → Bool
  | threshold t size subs =>
    isFulfilled (threshold t size subs) && ((areSigned subs).take size.toNat).any id
  | cond => isFulfilled cond && cond.typeId.bit &&& CCSigningNodes ≠ 0

/-- `IsSignedCryptoCondition` of each subcondition. -/
def areSigned : List CC → List Bool
  | [] => []
  | sub :: subs => isSigned sub :: areSigned subs

end

@[simp] theorem areSigned_eq_map (subs : List CC) : areSigned subs = subs.map isSigned := by
  induction subs with
  | nil => rfl
  | cons sub subs ih => rw [areSigned, ih, List.map_cons]

/-! ### Walks -/

section visitAll
variable (visitor : Bytes → CC → Bool)

mutual

/-- `cc_visit` with a visitor that looks at the message: true when the visitor
accepts every node that is reached. A prefix is put before the message. -/
def visitAll : Bytes → CC → Bool
  | msg, threshold t size subs =>
    visitor msg (threshold t size subs) && ((visitAlls msg subs).take size.toNat).all id
  | msg, prefixed pre len sub => visitor msg (prefixed pre len sub) && visitAll (pre ++ msg) sub
  | msg, cond => visitor msg cond

/-- `cc_visit` of each subcondition. -/
def visitAlls : Bytes → List CC → List Bool
  | _, [] => []
  | msg, sub :: subs => visitAll msg sub :: visitAlls msg subs

end

@[simp] theorem visitAlls_eq_map (msg : Bytes) (subs : List CC) :
    visitAlls visitor msg subs = subs.map (visitAll visitor msg) := by
  induction subs with
  | nil => rfl
  | cons sub subs ih => rw [visitAlls, ih, List.map_cons]

end visitAll

end CC

namespace CryptoEnv

variable (env : CryptoEnv)

/-- The visitor `ed25519Verify`. -/
def ed25519Visit (msg : Bytes) : CC → Bool
  | .ed25519 pk (some sig) => env.ed25519Verify sig msg pk
  | .ed25519 _ none => false
  | _ => true

/-- The visitor `secp256k1Verify`, for a message of 32 bytes that no prefix
reaches. -/
def secp256k1Visit (msg32 : Bytes) (_ : Bytes) : CC → Bool
  | .secp256k1 pk (some sig) => env.pubkeyParse pk && env.ecdsaVerify sig msg32 pk
  | .secp256k1 _ none => false
  | _ => true

/-- The visitor `evalVisit`. -/
def evalVisit (_ : Bytes) : CC → Bool
  | .eval code => env.checkEvalCondition code
  | _ => true

/-- `cc_secp256k1VerifyTreeMsg32`. -/
def secp256k1VerifyTreeMsg32 (cond : CC) (msg32 : Bytes) : Bool :=
  !(cond.typeMask &&& CCTypeId.prefixed.bit ≠ 0 ∧ cond.typeMask &&& CCTypeId.secp256k1.bit ≠ 0) &&
    cond.visitAll (env.secp256k1Visit msg32) []

/-- `cc_verify` with the message taken as its own hash. The comparison takes its
length from the encoding of `cond`. -/
def ccVerify (cond : CC) (msg : Bytes) (condBin : Bytes) : Bool :=
  let targetBinary := env.conditionBinary cond
  env.memcpy condBin targetBinary.length = targetBinary &&
    cond.visitAll env.ed25519Visit msg && env.secp256k1VerifyTreeMsg32 cond msg &&
      cond.visitAll env.evalVisit []

/-! ### Reading and checking -/

/-- `cc_readFulfillmentBinaryExt`, and `cc_readFulfillmentBinary`: the tree that
the bytes reveal, `none` on an error. Bytes that the encoder would not write are
refused. -/
def readFulfillmentBinary (ffillBin : Bytes) : Option CC :=
  match env.berDecode ffillBin with
  | some ffill => if ffill.der = ffillBin then env.fulfillmentToCC ffill else none
  | none => none

def ccPubKey (cond : CC) : CScript :=
  pushData (env.conditionBinary cond) ++ [OP_CHECKCRYPTOCONDITION]

def checkCryptoCondition (condBin ffillBin : Bytes) : ℤ :=
  -- the hash type is one byte tacked on to the end of the fulfillment
  match ffillBin.getLast? with
  | none => 0
  | some nHashType =>
    match env.readFulfillmentBinary ffillBin.dropLast with
    | none => -1
    | some cond =>
      if !isSupportedCryptoCondition cond then 0
      else if !cond.isSigned then 0
      else
        match env.signatureHash (env.ccPubKey cond) nHashType with
        | none => 0
        | some sighash => if env.ccVerify cond sighash condBin then 1 else 0

/-- `CCSigVec`, the push of `CCSig`: the fulfillment with `SIGHASH_ALL` after it.
`none` when there is no fulfillment to encode or it exceeds the 10000 bytes. -/
def ccSigVec (cond : CC) : Option Bytes :=
  match env.toFulfillment cond with
  | some ffill => if ffill.der.length ≤ 10000 then some (ffill.der ++ [1]) else none
  | none => none

def ccPrune (cond : CC) : Option CC :=
  match env.ccSigVec cond with
  | some ffillBin => env.readFulfillmentBinary ffillBin.dropLast
  | none => none

/-- What an accepted fulfillment has passed. -/
structure Accepts (cond : CC) (nHashType : UInt8) (sighash condBin : Bytes) : Prop where
  supported : isSupportedCryptoCondition cond
  signed : cond.isSigned
  sighash_eq : env.signatureHash (env.ccPubKey cond) nHashType = some sighash
  verified : env.ccVerify cond sighash condBin

/-- **`CheckCryptoCondition` returns 1 exactly when the bytes before the hash type
are read as a tree that passes every check.** -/
theorem checkCryptoCondition_eq_one {condBin ffillBin : Bytes} :
    env.checkCryptoCondition condBin ffillBin = 1 ↔
      ∃ nHashType cond sighash, ffillBin.getLast? = some nHashType ∧
        env.readFulfillmentBinary ffillBin.dropLast = some cond ∧
        env.Accepts cond nHashType sighash condBin := by
  unfold checkCryptoCondition
  constructor
  · intro h
    split at h
    · simp at h
    rename_i nHashType hlast
    split at h
    · simp at h
    rename_i cond hread
    split_ifs at h with hsupp hsigned
    · simp at h
    · simp at h
    split at h
    · simp at h
    rename_i sighash hhash
    split_ifs at h with hverify
    · exact ⟨nHashType, cond, sighash, hlast, hread,
        ⟨by simpa using hsupp, by simpa using hsigned, hhash, hverify⟩⟩
    · simp at h
  · rintro ⟨nHashType, cond, sighash, hlast, hread, hacc⟩
    simp [hlast, hread, hacc.supported, hacc.signed, hacc.sighash_eq, hacc.verified]

end CryptoEnv

end Komodo
