/-
# The hash that a signature signs

`SignatureHash` of `src/src/script/interpreter.cpp` with `CTransactionSignatureSerializer`,
`GetPrevoutHash` to `GetShieldedOutputsHash`, `PrecomputedTransactionData` and
`SignatureHashVersion`.

BLAKE2b with a personalization and SHA-256 applied twice are a parameter.  The messages that are
hashed have definitions of their own, so that `signatureHash` is the hash of `signatureMessage`.
-/

import Komodo.Primitives.WireTransaction

namespace Komodo
namespace Wire

/-- A message and how it is hashed: `CBLAKE2bWriter` with its personalization, or `CHashWriter`. -/
inductive HashInput
  | blake2b (personal message : Bytes)
  | sha256d (message : Bytes)
deriving DecidableEq

/-- The hash functions: 256 bits for each input. -/
structure Hasher where
  hash : HashInput → Uint256
  hash_lt : ∀ m, hash m < 2 ^ 256

/-- `int nHashType`. -/
abbrev HashType := BitVec 32

namespace HashType

def SIGHASH_ALL : HashType := 1
def SIGHASH_NONE : HashType := 2
def SIGHASH_SINGLE : HashType := 3
def SIGHASH_ANYONECANPAY : HashType := 0x80

variable (nHashType : HashType)

def anyoneCanPay : Bool := nHashType &&& SIGHASH_ANYONECANPAY != 0
def hashSingle : Bool := nHashType &&& 0x1f == SIGHASH_SINGLE
def hashNone : Bool := nHashType &&& 0x1f == SIGHASH_NONE

end HashType

/-- `UINT_MAX`. -/
def NOT_AN_INPUT : ℕ := 0xffffffff

/-- How `SignatureHash` fails: the two `logic_error`s, a joinsplit whose proof is not of the kind
that is written, and a read of an input that is not there. -/
inductive SignatureHashError
  | inputOutOfRange
  | noMatchingOutput
  | serialization
  | undefined
deriving DecidableEq

inductive SigVersion
  | sprout
  | overwinter
  | sapling
deriving DecidableEq

def signatureHashVersion (txTo : CTransaction) : SigVersion :=
  if txTo.fOverwintered then
    if txTo.nVersionGroupId = SAPLING_VERSION_GROUP_ID then .sapling else .overwinter
  else .sprout

/-! ### The pieces that are hashed by themselves -/

/-- The bytes of an array of `char`. -/
def charBytes (s : List Char) : Bytes := s.map fun c => UInt8.ofNat c.toNat

def ZCASH_PREVOUTS_HASH_PERSONALIZATION : Bytes :=
  charBytes ['Z', 'c', 'a', 's', 'h', 'P', 'r', 'e', 'v', 'o', 'u', 't', 'H', 'a', 's', 'h']
def ZCASH_SEQUENCE_HASH_PERSONALIZATION : Bytes :=
  charBytes ['Z', 'c', 'a', 's', 'h', 'S', 'e', 'q', 'u', 'e', 'n', 'c', 'H', 'a', 's', 'h']
def ZCASH_OUTPUTS_HASH_PERSONALIZATION : Bytes :=
  charBytes ['Z', 'c', 'a', 's', 'h', 'O', 'u', 't', 'p', 'u', 't', 's', 'H', 'a', 's', 'h']
def ZCASH_JOINSPLITS_HASH_PERSONALIZATION : Bytes :=
  charBytes ['Z', 'c', 'a', 's', 'h', 'J', 'S', 'p', 'l', 'i', 't', 's', 'H', 'a', 's', 'h']
def ZCASH_SHIELDED_SPENDS_HASH_PERSONALIZATION : Bytes :=
  charBytes ['Z', 'c', 'a', 's', 'h', 'S', 'S', 'p', 'e', 'n', 'd', 's', 'H', 'a', 's', 'h']
def ZCASH_SHIELDED_OUTPUTS_HASH_PERSONALIZATION : Bytes :=
  charBytes ['Z', 'c', 'a', 's', 'h', 'S', 'O', 'u', 't', 'p', 'u', 't', 'H', 'a', 's', 'h']

def outPointBytes (o : COutPoint) : Bytes := uint256Bytes o.hash ++ leBytes 4 o.n

/-- A spend without `spendAuthSig`. -/
def SpendDescription.signedBytes (d : SpendDescription) : Bytes :=
  uint256Bytes d.cv ++ uint256Bytes d.anchor ++ uint256Bytes d.nullifier ++ uint256Bytes d.rk
    ++ d.zkproof.1

section
variable (txTo : CTransaction)

def prevoutMessage : HashInput :=
  .blake2b ZCASH_PREVOUTS_HASH_PERSONALIZATION (txTo.vin.flatMap fun i => outPointBytes i.prevout)

def sequenceMessage : HashInput :=
  .blake2b ZCASH_SEQUENCE_HASH_PERSONALIZATION (txTo.vin.flatMap fun i => leBytes 4 i.nSequence)

def outputsMessage (vout : List CTxOut) : HashInput :=
  .blake2b ZCASH_OUTPUTS_HASH_PERSONALIZATION (vout.flatMap CTxOut.serialize)

/-- The version of the writer is the header. -/
def joinSplitsMessage : Except SignatureHashError HashInput :=
  match txTo.vjoinsplit.mapM (JSDescription.serialize txTo.header) with
  | some joinsplits => pure (.blake2b ZCASH_JOINSPLITS_HASH_PERSONALIZATION
      (joinsplits.flatten ++ uint256Bytes txTo.joinSplitPubKey))
  | none => throw .serialization

def shieldedSpendsMessage : HashInput :=
  .blake2b ZCASH_SHIELDED_SPENDS_HASH_PERSONALIZATION
    (txTo.vShieldedSpend.flatMap SpendDescription.signedBytes)

def shieldedOutputsMessage : HashInput :=
  .blake2b ZCASH_SHIELDED_OUTPUTS_HASH_PERSONALIZATION
    (txTo.vShieldedOutput.flatMap OutputDescription.serialize)

end

structure PrecomputedTransactionData where
  hashPrevouts : Uint256
  hashSequence : Uint256
  hashOutputs : Uint256
  hashJoinSplits : Uint256
  hashShieldedSpends : Uint256
  hashShieldedOutputs : Uint256
deriving DecidableEq

section
variable (H : Hasher)

def getPrevoutHash (txTo : CTransaction) : Uint256 := H.hash (prevoutMessage txTo)
def getSequenceHash (txTo : CTransaction) : Uint256 := H.hash (sequenceMessage txTo)
def getOutputsHash (txTo : CTransaction) : Uint256 := H.hash (outputsMessage txTo.vout)

def getJoinSplitsHash (txTo : CTransaction) : Except SignatureHashError Uint256 :=
  H.hash <$> joinSplitsMessage txTo

def getShieldedSpendsHash (txTo : CTransaction) : Uint256 := H.hash (shieldedSpendsMessage txTo)
def getShieldedOutputsHash (txTo : CTransaction) : Uint256 := H.hash (shieldedOutputsMessage txTo)

/-- `PrecomputedTransactionData(const CTransaction &)`. -/
def PrecomputedTransactionData.ofTx (txTo : CTransaction) :
    Except SignatureHashError PrecomputedTransactionData := do
  let hashJoinSplits ← getJoinSplitsHash H txTo
  pure {
    hashPrevouts := getPrevoutHash H txTo
    hashSequence := getSequenceHash H txTo
    hashOutputs := getOutputsHash H txTo
    hashJoinSplits := hashJoinSplits
    hashShieldedSpends := getShieldedSpendsHash H txTo
    hashShieldedOutputs := getShieldedOutputsHash H txTo }

end

/-! ### The message of an overwintered transaction -/

/-- The arguments of `SignatureHash` for one transaction. -/
structure SignatureHashCall where
  scriptCode : CScript
  txTo : CTransaction
  nIn : ℕ
  amount : ℤ
  cache : Option PrecomputedTransactionData := none
deriving DecidableEq

namespace SignatureHashCall

variable (H : Hasher) (nHashType : HashType) (consensusBranchId : ℕ) (c : SignatureHashCall)

/-- The hash that the cache holds, or else the one that is computed now. -/
def cached (field : PrecomputedTransactionData → Uint256) (now : Uint256) : Uint256 :=
  match c.cache with
  | some cache => field cache
  | none => now

def hashPrevouts : Uint256 :=
  if nHashType.anyoneCanPay then 0
  else c.cached PrecomputedTransactionData.hashPrevouts (getPrevoutHash H c.txTo)

def hashSequence : Uint256 :=
  if nHashType.anyoneCanPay || nHashType.hashSingle || nHashType.hashNone then 0
  else c.cached PrecomputedTransactionData.hashSequence (getSequenceHash H c.txTo)

def hashOutputs : Uint256 :=
  if !nHashType.hashSingle && !nHashType.hashNone then
    c.cached PrecomputedTransactionData.hashOutputs (getOutputsHash H c.txTo)
  else if nHashType.hashSingle then
    match c.txTo.vout[c.nIn]? with
    | some out => H.hash (outputsMessage [out])
    | none => 0
  else 0

def hashJoinSplits : Except SignatureHashError Uint256 :=
  if c.txTo.vjoinsplit.isEmpty then pure 0
  else
    match c.cache with
    | some cache => pure cache.hashJoinSplits
    | none => getJoinSplitsHash H c.txTo

def hashShieldedSpends : Uint256 :=
  if c.txTo.vShieldedSpend.isEmpty then 0
  else c.cached PrecomputedTransactionData.hashShieldedSpends (getShieldedSpendsHash H c.txTo)

def hashShieldedOutputs : Uint256 :=
  if c.txTo.vShieldedOutput.isEmpty then 0
  else c.cached PrecomputedTransactionData.hashShieldedOutputs (getShieldedOutputsHash H c.txTo)

/-- "ZcashSigHash" and the branch id. -/
def personalization : Bytes :=
  charBytes ['Z', 'c', 'a', 's', 'h', 'S', 'i', 'g', 'H', 'a', 's', 'h'] ++ leBytes 4 consensusBranchId

/-- What is written of the input that is signed. -/
def inputBytes : Except SignatureHashError Bytes :=
  if c.nIn = NOT_AN_INPUT then pure []
  else
    match c.txTo.vin[c.nIn]? with
    | some i => pure (outPointBytes i.prevout ++ (vectorBytes c.scriptCode
        ++ (intBytes 8 c.amount ++ leBytes 4 i.nSequence)))
    | none => throw .undefined

def overwinterBytes (sapling : Bool) (joinSplits : Uint256) (input : Bytes) : Bytes :=
  leBytes 4 c.txTo.header ++ (leBytes 4 c.txTo.nVersionGroupId
    ++ (uint256Bytes (c.hashPrevouts H nHashType) ++ (uint256Bytes (c.hashSequence H nHashType)
    ++ (uint256Bytes (c.hashOutputs H nHashType) ++ (uint256Bytes joinSplits
    ++ ((if sapling then uint256Bytes (c.hashShieldedSpends H) else [])
    ++ ((if sapling then uint256Bytes (c.hashShieldedOutputs H) else [])
    ++ (leBytes 4 c.txTo.nLockTime ++ (leBytes 4 c.txTo.nExpiryHeight
    ++ ((if sapling then intBytes 8 c.txTo.valueBalance else [])
    ++ (leBytes 4 nHashType.toNat ++ input)))))))))))

def overwinterMessage (sapling : Bool) : Except SignatureHashError HashInput := do
  let joinSplits ← c.hashJoinSplits H
  let input ← c.inputBytes
  pure (.blake2b (personalization consensusBranchId)
    (c.overwinterBytes H nHashType sapling joinSplits input))

/-! ### The message of a transaction that is not overwintered -/

/-- `SerializeInput`: the input `nInput` as it is written, the other inputs blanked. -/
def serializedInput (nInput : ℕ) : Option CTxIn :=
  let nInput := if nHashType.anyoneCanPay then c.nIn else nInput
  (c.txTo.vin[nInput]?).map fun i => {
    prevout := i.prevout
    scriptSig := if nInput ≠ c.nIn then [] else c.scriptCode
    nSequence :=
      if nInput ≠ c.nIn ∧ (nHashType.hashSingle || nHashType.hashNone) then 0 else i.nSequence }

/-- `SerializeOutput`. -/
def serializedOutput (nOutput : ℕ) : Option CTxOut :=
  if nHashType.hashSingle ∧ nOutput ≠ c.nIn then some CTxOut.null else c.txTo.vout[nOutput]?

def nInputs : ℕ := if nHashType.anyoneCanPay then 1 else c.txTo.vin.length % 2 ^ 32

def nOutputs : ℕ :=
  if nHashType.hashNone then 0
  else if nHashType.hashSingle then (c.nIn + 1) % 2 ^ 32
  else c.txTo.vout.length % 2 ^ 32

/-- The JoinSplits, in a writer of version 0, with their key and a null signature. -/
def joinSplitBytes : Except SignatureHashError Bytes :=
  if 2 ≤ c.txTo.nVersion then
    match c.txTo.vjoinsplit.mapM (JSDescription.serialize 0) with
    | some joinsplits => pure (compactSizeBytes c.txTo.vjoinsplit.length ++ (joinsplits.flatten
        ++ if c.txTo.vjoinsplit.isEmpty then []
          else uint256Bytes c.txTo.joinSplitPubKey ++ (ByteArr.zero 64).1))
    | none => throw .serialization
  else pure []

def sproutBytes (inputs : List CTxIn) (outputs : List CTxOut) (joinSplits : Bytes) : Bytes :=
  intBytes 4 c.txTo.nVersion ++ (listBytes CTxIn.serialize inputs
    ++ (listBytes CTxOut.serialize outputs ++ (leBytes 4 c.txTo.nLockTime ++ (joinSplits
    ++ leBytes 4 nHashType.toNat))))

/-- `CTransactionSignatureSerializer` and the hash type. -/
def sproutMessage : Except SignatureHashError HashInput :=
  if nHashType.hashSingle ∧ c.txTo.vout.length ≤ c.nIn then throw .noMatchingOutput
  else
    match (List.range (c.nInputs nHashType)).mapM (c.serializedInput nHashType),
      (List.range (c.nOutputs nHashType)).mapM (c.serializedOutput nHashType) with
    | some inputs, some outputs => do
      let joinSplits ← c.joinSplitBytes
      pure (.sha256d (c.sproutBytes nHashType inputs outputs joinSplits))
    | _, _ => throw .undefined

/-- The message that `SignatureHash` hashes. -/
def signatureMessage : Except SignatureHashError HashInput :=
  if c.txTo.vin.length ≤ c.nIn ∧ c.nIn ≠ NOT_AN_INPUT then throw .inputOutOfRange
  else
    match signatureHashVersion c.txTo with
    | .overwinter => c.overwinterMessage H nHashType consensusBranchId false
    | .sapling => c.overwinterMessage H nHashType consensusBranchId true
    | .sprout => c.sproutMessage nHashType

def signatureHash : Except SignatureHashError Uint256 :=
  H.hash <$> c.signatureMessage H nHashType consensusBranchId

end SignatureHashCall

end Wire
end Komodo
