/-
# The checks of a transaction by itself

`CheckTransactionWithoutProofVerification` of `src/src/main.cpp`, which looks at a transaction by
itself, and `CTransaction::GetValueOut` and `GetShieldedValueIn` of
`src/src/primitives/transaction.cpp`, which throw where a sum is out of range.

All three add up the amounts of a transaction in `int64_t`.  The check looks at an amount before it
adds or negates it, so its sums stay below `2 * MAX_MONEY`.  The two others add first and look at
the amount afterwards, and negate a value balance without a look.  What follows from the difference
is in `Komodo.Chain.TransactionSums`.

`Failure.overflow` is the end of a run in which an addition or a negation overflows.
-/

import Komodo.Lib.Overflow
import Komodo.Primitives.WireTransaction

namespace Komodo
namespace Wire
namespace CheckTransaction

open Overflow

/-- How a computation ends without a result. -/
inductive Failure
  /-- `CValidationState::DoS`, with the text that is logged. -/
  | dos (nDoS : ℕ) (error : String) (chRejectCode : ℕ) (strRejectReason : String)
  /-- A `std::runtime_error`. -/
  | exception (what : String)
  /-- The `std::ios_base::failure` of a transaction that cannot be serialized. -/
  | serialization
  /-- Signed overflow. -/
  | overflow
deriving DecidableEq

def REJECT_INVALID : ℕ := 0x10

/-- `return state.DoS(..)` where the test is true. -/
def dosIf (test : Prop) [Decidable test] (nDoS : ℕ) (error reason : String) : Except Failure Unit :=
  if test then .error (.dos nDoS error REJECT_INVALID reason) else .ok ()

/-- An addition in `int64_t`. -/
def add (a b : ℤ) : Except Failure ℤ := (int64 (a + b)).elim (.error .overflow) .ok

/-- A negation in `int64_t`. -/
def neg (a : ℤ) : Except Failure ℤ := (int64 (-a)).elim (.error .overflow) .ok

/-! ### Scripts -/

def OP_IF : UInt8 := 0x63
def OP_ELSE : UInt8 := 0x67
def OP_ENDIF : UInt8 := 0x68
def OP_SIZE : UInt8 := 0x82
def OP_EQUAL : UInt8 := 0x87
def OP_EQUALVERIFY : UInt8 := 0x88
def OP_SHA256 : UInt8 := 0xa8
def OP_HASH160 : UInt8 := 0xa9
def OP_HASH256 : UInt8 := 0xaa
def OP_CHECKSIG : UInt8 := 0xac
def OP_NOP2 : UInt8 := 0xb1

def isPayToScriptHash (script : CScript) : Bool :=
  script.length = 23 ∧ script[0]? = some OP_HASH160 ∧ script[1]? = some 0x14
    ∧ script[22]? = some OP_EQUAL

/-- The size of a script and the bytes that may stand at some of its positions. -/
structure Template where
  size : ℕ
  bytes : List (ℕ × List UInt8)

def Template.matches (t : Template) (script : CScript) : Bool :=
  script.length = t.size ∧ ∀ b ∈ t.bytes, ∃ op ∈ b.2, script[b.1]? = some op

/-- The scripts that `IsRedeemScriptReveal` knows. -/
def revealTemplates : List Template := [
  { size := 110
    bytes := [(0, [OP_RETURN]), (3, [OP_IF]), (9, [OP_NOP2]), (10, [OP_DROP]), (45, [OP_CHECKSIG]),
      (46, [OP_ELSE]), (47, [OP_SIZE]), (48, [0x01]), (49, [0x20]), (50, [OP_EQUALVERIFY]),
      (51, [OP_HASH160]), (73, [OP_EQUALVERIFY]), (108, [OP_CHECKSIG]), (109, [OP_ENDIF])] },
  { size := 122
    bytes := [(0, [OP_RETURN]), (3, [OP_IF]), (9, [OP_NOP2]), (10, [OP_DROP]), (45, [OP_CHECKSIG]),
      (46, [OP_ELSE]), (47, [OP_SIZE]), (48, [0x01]), (49, [0x20]), (50, [OP_EQUALVERIFY]),
      (51, [OP_SHA256, OP_HASH256]), (85, [OP_EQUALVERIFY]), (120, [OP_CHECKSIG]),
      (121, [OP_ENDIF])] },
  { size := 101
    bytes := [(0, [OP_RETURN]), (1, [0x4c]), (2, [0x62]), (20, [OP_DROP]), (21, [OP_IF]),
      (22, [0x04]), (27, [OP_NOP2]), (28, [OP_DROP]), (63, [OP_CHECKSIG]), (64, [OP_ELSE]),
      (99, [OP_CHECKSIG]), (100, [OP_ENDIF])] }]

/-- `CScript::IsRedeemScriptReveal`: the script pays to the hash of the one that is revealed. -/
def isRedeemScriptReveal (hash160 : Bytes → Bytes) (script scriptpubkey : CScript) : Bool :=
  (revealTemplates.any fun t => t.matches scriptpubkey)
    && OP_HASH160 :: pushData (hash160 (scriptpubkey.drop 3)) ++ [OP_EQUAL] == script

/-! ### The check -/

/-- The settings of a chain and what the check asks for. -/
structure Env where
  maxMoney : ℤ
  assetchainsPrivate : ℕ
  assetchainsTxpow : ℕ
  /-- `komodo_acpublic`. -/
  acpublic : (tiptime : ℕ) → Bool
  getacseason : (tiptime : ℕ) → ℤ
  /-- `komodo_isnotaryvout`. -/
  isnotaryvout : (coinaddr : Bytes) → (tiptime : ℕ) → Bool
  /-- `Getscriptaddress`: what it leaves in its buffer. -/
  getscriptaddress : CScript → Bytes
  hash160 : Bytes → Bytes

def SPROUT_MIN_TX_VERSION : ℤ := 1
def OVERWINTER_MIN_TX_VERSION : ℤ := 3
def TX_EXPIRY_HEIGHT_THRESHOLD : ℕ := 500000000
def MAX_TX_SIZE_BEFORE_SAPLING : ℕ := 100000
def MAX_TX_SIZE_AFTER_SAPLING : ℕ := 2 * MAX_TX_SIZE_BEFORE_SAPLING
def IGUANA_MAXSCRIPTSIZE : ℕ := 10001
def KOMODO_SAPLING_DEADLINE : ℕ := 1550188800

/-- The coinbase that a chain with proofs of work for transactions inherits. -/
def genesistxid : Uint256 := 0x4a5e1e4baab89f3a32518a88c31bc87f618f76673e2cc77ab2127b7afdeda33b

def isCoinBase (tx : CTransaction) : Bool :=
  match tx.vin with
  | [i] => i.prevout.isNull
  | _ => false

def isCoinImport (tx : CTransaction) : Bool :=
  match tx.vin with
  | [i] => i.prevout.n = 1000000000
  | _ => false

def isMint (tx : CTransaction) : Bool := isCoinImport tx || isCoinBase tx

/-- The version, the group and the expiry height. -/
def checkVersion (tx : CTransaction) : Except Failure Unit :=
  if tx.fOverwintered then do
    dosIf (tx.nVersion < OVERWINTER_MIN_TX_VERSION) 100
      "CheckTransaction(): overwinter version too low" "bad-tx-overwinter-version-too-low"
    dosIf (tx.nVersionGroupId ≠ OVERWINTER_VERSION_GROUP_ID
        ∧ tx.nVersionGroupId ≠ SAPLING_VERSION_GROUP_ID) 100
      "CheckTransaction(): unknown tx version group id" "bad-tx-version-group-id"
    dosIf (TX_EXPIRY_HEIGHT_THRESHOLD ≤ tx.nExpiryHeight) 100
      "CheckTransaction(): expiry height is too high" "bad-tx-expiry-height-too-high"
  else
    dosIf (tx.nVersion < SPROUT_MIN_TX_VERSION) 100
      "CheckTransaction(): version too low" "bad-txns-version-too-low"

/-- The inputs and outputs that a transaction has to have, and its size. -/
def checkSize (tx : CTransaction) : Except Failure Unit := do
  dosIf (tx.vin = [] ∧ tx.vjoinsplit = [] ∧ tx.vShieldedSpend = []) 10
    "CheckTransaction(): vin empty" "bad-txns-vin-empty"
  dosIf (tx.vout = [] ∧ tx.vjoinsplit = [] ∧ tx.vShieldedOutput = []) 10
    "CheckTransaction(): vout empty" "bad-txns-vout-empty"
  match tx.serialize with
  | none => .error .serialization
  | some bytes =>
    dosIf (MAX_TX_SIZE_AFTER_SAPLING < bytes.length) 100
      "CheckTransaction(): size limits failed" "bad-txns-oversize"

namespace Env

variable (env : Env) (tiptime : ℕ) (tx : CTransaction)

abbrev MoneyRange (nValue : ℤ) : Prop := Within env.maxMoney nValue

/-- An output: `nValueOut` and `invalid_private_taddr` with it. -/
def checkOutput (state : ℤ × Bool) (txout : CTxOut) : Except Failure (ℤ × Bool) := do
  dosIf (txout.nValue < 0) 100
    "CheckTransaction(): txout.nValue negative" "bad-txns-vout-negative"
  dosIf (env.maxMoney < txout.nValue) 100
    "CheckTransaction(): txout.nValue too high" "bad-txns-vout-toolarge"
  let taddr : Bool := env.assetchainsPrivate ≠ 0 ∧ isCoinBase tx = false ∧ 0 < txout.nValue
    ∧ env.isnotaryvout (env.getscriptaddress txout.scriptPubKey) tiptime = false
  dosIf (IGUANA_MAXSCRIPTSIZE < txout.scriptPubKey.length) 100
    "CheckTransaction(): txout.scriptPubKey.size() too big" "bad-txns-opret-too-big"
  let nValueOut ← add state.1 txout.nValue
  dosIf (¬ env.MoneyRange nValueOut) 100
    "CheckTransaction(): txout total out of range" "bad-txns-txouttotal-toolarge"
  return (nValueOut, state.2 || taddr)

/-- A transaction that spends shielded coins to the hash of the script that it reveals. -/
def revealsScript : Bool :=
  5 < env.getacseason tiptime && tx.vin.length = 0 &&
    match tx.vout with
    | [out, revealed] => isPayToScriptHash out.scriptPubKey
        && isRedeemScriptReveal env.hash160 out.scriptPubKey revealed.scriptPubKey
    | _ => false

/-- The shielded spends and outputs: `invalid_private_taddr` after them. -/
def checkSapling (invalidPrivateTaddr : Bool) : Except Failure Bool := do
  dosIf (tx.vShieldedSpend = [] ∧ tx.vShieldedOutput = [] ∧ tx.valueBalance ≠ 0) 100
    "CheckTransaction(): tx.valueBalance has no sources or sinks" "bad-txns-valuebalance-nonzero"
  dosIf (env.acpublic tiptime ∧ (tx.vShieldedSpend ≠ [] ∨ tx.vShieldedOutput ≠ [])) 100
    "CheckTransaction(): this is a public chain, no sapling allowed" "bad-txns-acpublic-chain"
  if env.assetchainsPrivate ≠ 0 ∧ invalidPrivateTaddr ∧ tx.vShieldedSpend ≠ [] then do
    dosIf (env.revealsScript tiptime tx = false) 100
      "CheckTransaction(): this is a private chain, no sapling -> taddr" "bad-txns-acprivate-chain"
    return false
  else return invalidPrivateTaddr

/-- The value balance: `nValueOut` with what it takes out of the transparent pool. -/
def checkValueBalance (nValueOut : ℤ) : Except Failure ℤ := do
  let lowest ← neg env.maxMoney
  dosIf (env.maxMoney < tx.valueBalance ∨ tx.valueBalance < lowest) 100
    "CheckTransaction(): abs(tx.valueBalance) too large" "bad-txns-valuebalance-toolarge"
  if tx.valueBalance ≤ 0 then do
    let taken ← neg tx.valueBalance
    let nValueOut ← add nValueOut taken
    dosIf (¬ env.MoneyRange nValueOut) 100
      "CheckTransaction(): txout total out of range" "bad-txns-txouttotal-toolarge"
    return nValueOut
  else return nValueOut

/-- What the loop over the JoinSplits counts. -/
structure Flows where
  nValueOut : ℤ
  z_z : ℕ := 0
  t_z : ℕ := 0
  z_t : ℕ := 0

def checkJoinsplit (flows : Flows) (joinsplit : JSDescription) : Except Failure Flows := do
  dosIf (env.acpublic tiptime) 100
    "CheckTransaction(): this is a public chain, no privacy allowed" "bad-txns-acpublic-chain"
  dosIf (KOMODO_SAPLING_DEADLINE ≤ tiptime) 100
    "CheckTransaction(): no more sprout after deadline" "bad-txns-sprout-expired"
  dosIf (joinsplit.vpub_old < 0) 100
    "CheckTransaction(): joinsplit.vpub_old negative" "bad-txns-vpub_old-negative"
  dosIf (joinsplit.vpub_new < 0) 100
    "CheckTransaction(): joinsplit.vpub_new negative" "bad-txns-vpub_new-negative"
  dosIf (env.maxMoney < joinsplit.vpub_old) 100
    "CheckTransaction(): joinsplit.vpub_old too high" "bad-txns-vpub_old-toolarge"
  dosIf (env.maxMoney < joinsplit.vpub_new) 100
    "CheckTransaction(): joinsplit.vpub_new too high" "bad-txns-vpub_new-toolarge"
  dosIf (joinsplit.vpub_new ≠ 0 ∧ joinsplit.vpub_old ≠ 0) 100
    "CheckTransaction(): joinsplit.vpub_new and joinsplit.vpub_old both nonzero"
    "bad-txns-vpubs-both-nonzero"
  let nValueOut ← add flows.nValueOut joinsplit.vpub_old
  dosIf (¬ env.MoneyRange nValueOut) 100
    "CheckTransaction(): txout total out of range" "bad-txns-txouttotal-toolarge"
  if joinsplit.vpub_new = 0 ∧ joinsplit.vpub_old = 0 then
    return { flows with nValueOut, z_z := flows.z_z + 1 }
  else if joinsplit.vpub_new = 0 ∧ joinsplit.vpub_old ≠ 0 then
    return { flows with nValueOut, t_z := flows.t_z + 1 }
  else if joinsplit.vpub_new ≠ 0 ∧ joinsplit.vpub_old = 0 then
    return { flows with nValueOut, z_t := flows.z_t + 1 }
  else return { flows with nValueOut }

/-- Transparent addresses on a private chain, and the proof of work of a transaction. -/
def checkChain (invalidPrivateTaddr : Bool) (flows : Flows) : Except Failure Unit := do
  dosIf (env.assetchainsPrivate ≠ 0 ∧ invalidPrivateTaddr
      ∧ (flows.z_t = 0 ∨ flows.z_z ≠ 0 ∨ flows.t_z ≠ 0 ∨ tx.vin.length ≠ 0)) 100
    "CheckTransaction(): this is a private chain, only sprout -> taddr allowed until deadline"
    "bad-txns-acprivacy-chain"
  dosIf (env.assetchainsTxpow ≠ 0
      ∧ (env.assetchainsTxpow &&& 2 ≠ 0 ∧ isCoinBase tx
        ∨ env.assetchainsTxpow &&& 1 ≠ 0 ∧ ¬ isCoinBase tx)
      ∧ (tx.hash % 256 ≠ 0 ∨ tx.hash / 2 ^ 248 % 256 ≠ 0) ∧ tx.hash ≠ genesistxid) 100
    "CheckTransaction(): this is a txpow chain, must have 0x00 ends" "bad-txns-actxpow-chain"

/-- `nValueIn` with a JoinSplit. -/
def checkVpubNew (nValueIn : ℤ) (joinsplit : JSDescription) : Except Failure ℤ := do
  let nValueIn ← add nValueIn joinsplit.vpub_new
  dosIf (¬ env.MoneyRange joinsplit.vpub_new ∨ ¬ env.MoneyRange nValueIn) 100
    "CheckTransaction(): txin total out of range" "bad-txns-txintotal-toolarge"
  return nValueIn

/-- What the JoinSplits and the value balance add to the pool. -/
def checkValueIn : Except Failure Unit := do
  let nValueIn ← tx.vjoinsplit.foldlM env.checkVpubNew 0
  if 0 ≤ tx.valueBalance then do
    let nValueIn ← add nValueIn tx.valueBalance
    dosIf (¬ env.MoneyRange nValueIn) 100
      "CheckTransaction(): txin total out of range" "bad-txns-txintotal-toolarge"

end Env

/-- Inputs and nullifiers that occur twice. -/
def checkDuplicates (tx : CTransaction) : Except Failure Unit := do
  dosIf (¬ (tx.vin.map CTxIn.prevout).Nodup) 100
    "CheckTransaction(): duplicate inputs" "bad-txns-inputs-duplicate"
  dosIf (¬ (tx.vjoinsplit.flatMap fun d => [d.nullifiers.1, d.nullifiers.2]).Nodup) 100
    "CheckTransaction(): duplicate nullifiers" "bad-joinsplits-nullifiers-duplicate"
  dosIf (¬ (tx.vShieldedSpend.map SpendDescription.nullifier).Nodup) 100
    "CheckTransaction(): duplicate nullifiers" "bad-spend-description-nullifiers-duplicate"

/-- What a coinbase may not have, and the null outputs that only it may spend. -/
def checkMint (tx : CTransaction) : Except Failure Unit :=
  if isMint tx then do
    dosIf (tx.vjoinsplit ≠ []) 100
      "CheckTransaction(): coinbase has joinsplits" "bad-cb-has-joinsplits"
    dosIf (tx.vShieldedSpend ≠ []) 100
      "CheckTransaction(): coinbase has spend descriptions" "bad-cb-has-spend-description"
    dosIf (tx.vShieldedOutput ≠ []) 100
      "CheckTransaction(): coinbase has output descriptions" "bad-cb-has-output-description"
    dosIf (∃ i ∈ tx.vin.head?, i.scriptSig.length < 2 ∨ 100 < i.scriptSig.length) 100
      "CheckTransaction(): coinbase script size" "bad-cb-length"
  else
    dosIf (∃ i ∈ tx.vin, i.prevout.isNull) 10
      "CheckTransaction(): prevout is null" "bad-txns-prevout-null"

def Env.checkTransactionWithoutProofVerification (env : Env) (tiptime : ℕ) (tx : CTransaction) :
    Except Failure Unit := do
  checkVersion tx
  checkSize tx
  let (nValueOut, invalidPrivateTaddr) ← tx.vout.foldlM (env.checkOutput tiptime tx) (0, false)
  let invalidPrivateTaddr ← env.checkSapling tiptime tx invalidPrivateTaddr
  let nValueOut ← env.checkValueBalance tx nValueOut
  let flows ← tx.vjoinsplit.foldlM (env.checkJoinsplit tiptime) { nValueOut }
  env.checkChain tx invalidPrivateTaddr flows
  env.checkValueIn tx
  checkDuplicates tx
  checkMint tx

/-! ### The sums -/

namespace Env

variable (env : Env) (tx : CTransaction)

def getValueOut : Except Failure ℤ := do
  let add := addFirst .overflow (.exception "CTransaction::GetValueOut(): value out of range")
    env.maxMoney
  let nValueOut ← (tx.vout.map CTxOut.nValue).foldlM add 0
  let nValueOut ← if tx.valueBalance ≤ 0 then do
      let taken ← neg tx.valueBalance
      add nValueOut taken
    else .ok nValueOut
  (tx.vjoinsplit.map JSDescription.vpub_old).foldlM add nValueOut

def getShieldedValueIn : Except Failure ℤ := do
  let add := addFirst .overflow
    (.exception "CTransaction::GetShieldedValueIn(): value out of range") env.maxMoney
  let nValue ← if 0 ≤ tx.valueBalance then add 0 tx.valueBalance else .ok 0
  (tx.vjoinsplit.map JSDescription.vpub_new).foldlM add nValue

end Env

end CheckTransaction
end Wire
end Komodo
