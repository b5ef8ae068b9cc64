/-
# Transactions

`src/src/primitives/transaction.h` (`COutPoint`, `CTxIn`, `CTxOut`,
`SpendDescription`, `OutputDescription`, `JSDescription`, `CTransaction`) and
`CScript::IsUnspendable` of `src/src/script/script.h`.

Hashes, nullifiers, anchors and commitments are only ever compared with each
other and with the null value, so `Uint256` is `ℕ`, `0` standing for the null
hash. Amounts (`CAmount`) are `ℤ`, a script is its byte string, and a transaction carries
its cached hash, as `CTransaction::GetHash` returns it.
-/

import Mathlib.Tactic

namespace Komodo

/-- `uint256` used as an identifier: compared for equality and with null. -/
abbrev Uint256 := ℕ

/-- `CScript`: the bytes of a script. -/
abbrev CScript := List UInt8

def maxScriptSize : ℕ := 10000

def OP_0 : UInt8 := 0x00

def OP_RETURN : UInt8 := 0x6a

def isUnspendable (s : CScript) : Bool :=
  s.head? == some OP_RETURN || maxScriptSize < s.length

structure COutPoint where
  hash : Uint256
  n : ℕ
deriving DecidableEq, Repr

/-- `COutPoint::IsNull`: the null hash and `n = (uint32_t)-1`. -/
def COutPoint.isNull (o : COutPoint) : Bool := o.hash == 0 && o.n == 0xffffffff

structure CTxIn where
  prevout : COutPoint
  scriptSig : CScript := []
  nSequence : ℕ := 0xffffffff
deriving DecidableEq, Repr

structure CTxOut where
  nValue : ℤ
  scriptPubKey : CScript
deriving DecidableEq, Repr

/-- `CTxOut::SetNull`, also the default constructor. -/
def CTxOut.null : CTxOut := ⟨-1, []⟩

def CTxOut.isNull (o : CTxOut) : Bool := o.nValue == -1

@[simp] theorem CTxOut.isNull_null : CTxOut.null.isNull = true := rfl

/-- `SpendDescription`: the fields the coins code reads. -/
structure SpendDescription where
  anchor : Uint256
  nullifier : Uint256
deriving DecidableEq, Repr

/-- `OutputDescription`: the note commitment. -/
structure OutputDescription where
  cm : Uint256
deriving DecidableEq, Repr

/-- `JSDescription`: the fields the coins code reads. -/
structure JSDescription where
  vpubOld : ℤ := 0
  vpubNew : ℤ := 0
  anchor : Uint256
  nullifiers : List Uint256
  commitments : List Uint256
deriving DecidableEq, Repr

/-- The two shielded pools. -/
inductive ShieldedType
  | sprout
  | sapling
deriving DecidableEq, Repr

structure CTransaction where
  hash : Uint256
  nVersion : ℤ := 1
  vin : List CTxIn
  vout : List CTxOut
  nLockTime : ℕ := 0
  nExpiryHeight : ℕ := 0
  valueBalance : ℤ := 0
  vShieldedSpend : List SpendDescription := []
  vShieldedOutput : List OutputDescription := []
  vjoinsplit : List JSDescription := []
deriving DecidableEq, Repr

namespace CTransaction

def isCoinBase (tx : CTransaction) : Bool :=
  match tx.vin with
  | [i] => i.prevout.isNull
  | _ => false

/-- `CTransaction::IsCoinImport`: one input, whose position is `10e8`. -/
def isCoinImport (tx : CTransaction) : Bool :=
  match tx.vin with
  | [i] => i.prevout.n == 1000000000
  | _ => false

def isMint (tx : CTransaction) : Bool := tx.isCoinImport || tx.isCoinBase

/-- The nullifiers of one pool that the transaction reveals, in the order in
which `CCoinsViewCache::SetNullifiers` visits them. -/
def nullifiers (tx : CTransaction) : ShieldedType → List Uint256
  | .sprout => tx.vjoinsplit.flatMap JSDescription.nullifiers
  | .sapling => tx.vShieldedSpend.map SpendDescription.nullifier

end CTransaction

end Komodo
