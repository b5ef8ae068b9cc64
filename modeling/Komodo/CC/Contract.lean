/-
# What the contracts share

`CPubKey` (`src/src/pubkey.h`), the condition trees of
`src/src/cryptoconditions/include/cryptoconditions.h` with `cc_visit`, the
conditions and outputs that `src/src/cc/CCutils.cpp` and
`src/src/cc/CCtokenutils.cpp` build (`MakeCCcond1`, `MakeTokensCCcond1`, …),
the `ismyvin` predicates of `src/src/cc/CCcustom.inc`, the eval codes of
`src/src/cc/eval.h`, and `Eval::Invalid`.

`CCEnv` holds what the contracts call and this development does not look into:
the DER codec of the conditions with its hashes, and `Solver`.

A validator returns a verdict and, beside it, records rejections in the
`CValidationState` of its `Eval`. `EvalM` carries both.
-/

import Komodo.Script.Script

namespace Komodo

/-! ### Verdicts and recorded rejections -/

/-- A computation inside a validator: its value, and the messages that
`Eval::Invalid` and `Eval::Error` recorded meanwhile, in order. -/
structure EvalM (α : Type) where
  val : α
  recorded : List String
deriving DecidableEq

namespace EvalM

instance : Monad EvalM where
  pure a := ⟨a, []⟩
  bind x f := ⟨(f x.val).val, x.recorded ++ (f x.val).recorded⟩

/-- `eval->Invalid(s)`: records `s` and returns `false`. -/
def invalid (s : String) : EvalM Bool := ⟨false, [s]⟩

/-- `eval->Valid()`: always true, whatever has been recorded. -/
def valid : EvalM Bool := pure true

@[simp] theorem val_pure {α : Type} (a : α) : (pure a : EvalM α).val = a := rfl

@[simp] theorem val_bind {α β : Type} (x : EvalM α) (f : α → EvalM β) :
    (x >>= f).val = (f x.val).val := rfl

@[simp] theorem val_map {α β : Type} (f : α → β) (x : EvalM α) : (f <$> x).val = f x.val := rfl

@[simp] theorem val_invalid (s : String) : (invalid s).val = false := rfl

@[simp] theorem recorded_pure {α : Type} (a : α) : (pure a : EvalM α).recorded = [] := rfl

@[simp] theorem recorded_bind {α β : Type} (x : EvalM α) (f : α → EvalM β) :
    (x >>= f).recorded = x.recorded ++ (f x.val).recorded := rfl

@[simp] theorem recorded_invalid (s : String) : (invalid s).recorded = [s] := rfl

end EvalM

/-! ### Public keys -/

/-- `CPubKey`: the bytes `[begin(), end())`, whose number the header byte
fixes. An invalid key has none. -/
abbrev CPubKey := Bytes

namespace CPubKey

def getLen (chHeader : UInt8) : ℕ :=
  if chHeader = 2 ∨ chHeader = 3 then 33
  else if chHeader = 4 ∨ chHeader = 6 ∨ chHeader = 7 then 65
  else 0

/-- The key held by a fresh `vch` after `buf` was copied to its front. Bytes
that the copy does not reach are taken as zero. -/
def ofBuffer : Bytes → CPubKey
  | [] => []
  | h :: buf => (h :: buf ++ List.replicate 64 0).take (getLen h)

def isValid (pk : CPubKey) : Bool := pk ≠ []

/-- `CPubKey::Unserialize`: a length above 65 skips the data and invalidates. -/
def unserialize : Unserialize CPubKey := do
  let len ← Unserialize.compactSize
  let buf ← Unserialize.bytes len
  pure (if len ≤ 65 then ofBuffer buf else [])

end CPubKey

/-- `pubkey2pk`: `CPubKey::Set`, which wants exactly the announced length. -/
def pubkey2pk : Bytes → CPubKey
  | [] => []
  | h :: v => if CPubKey.getLen h ≠ 0 ∧ CPubKey.getLen h = v.length + 1 then h :: v else []

/-- `buf2pk`: 33 bytes copied into a key. -/
def buf2pk (buf33 : Bytes) : CPubKey := CPubKey.ofBuffer (buf33.take 33)

/-! ### Condition trees -/

/-- `enum CCTypeId`, less `CC_Anon`. -/
inductive CCTypeId
  | preimage
  | prefixed
  | threshold
  | ed25519
  | secp256k1
  | eval
deriving DecidableEq, Repr

/-- `struct CC`: one constructor for each member of its union. `size` is the
eight-bit count of a threshold node. -/
inductive CC
  | preimage (preimage : Bytes)
  | prefixed (pre : Bytes) (maxMessageLength : ℕ) (subcondition : CC)
  | threshold (threshold : ℕ) (size : UInt8) (subconditions : List CC)
  | ed25519 (publicKey : Bytes) (signature : Option Bytes)
  | secp256k1 (publicKey : Bytes) (signature : Option Bytes)
  | eval (code : Bytes)
  | anon (conditionType : CCTypeId) (fingerprint : Bytes) (subtypes : UInt32) (cost : ℕ)

namespace CC

section visit
variable {α : Type} (visitor : CC → Option α)

mutual

/-- `cc_visit` with a visitor that stops at a match: the first match in the
order of the visit, a node before its children. -/
def visit : CC → Option α
  | threshold t size subs => (visitor (threshold t size subs)).or (visitList size.toNat subs)
  | prefixed pre len sub => (visitor (prefixed pre len sub)).or (visit sub)
  | cond => visitor cond

/-- `thresholdVisitChildren`: the first `size` subconditions. -/
def visitList : ℕ → List CC → Option α
  | 0, _ => none
  | _, [] => none
  | size + 1, sub :: subs => (visit sub).or (visitList size subs)

end

end visit

end CC

/-- `txnouttype` (`src/src/script/standard.h`). -/
inductive TxnOutType
  | nonstandard
  | pubkey
  | pubkeyhash
  | scripthash
  | multisig
  | cryptocondition
  | nullData
deriving DecidableEq, Repr

/-- What the contracts call outside themselves. -/
structure CCEnv where
  /-- `cc_conditionBinary`. -/
  conditionBinary : CC → Bytes
  /-- `cc_readFulfillmentBinary`. -/
  readFulfillmentBinary : Bytes → Option CC
  /-- The bytes that `cond->publicKey` points to when `cond` is anonymous: the
  pointer is then made of fingerprint bytes. -/
  anonPublicKey : Bytes → Bytes
  /-- Whether `cond->codeLength == 1 && cond->code[0] == evalcode` holds of an
  anonymous `cond`, both fields being made of fingerprint bytes. -/
  anonHasCode : Bytes → UInt8 → Bool
  /-- `Solver`; `none` when it returns false. -/
  solver : CScript → Option (TxnOutType × List Bytes)
  hash160 : Bytes → Bytes

def EVAL_IMPORTCOIN : UInt8 := 0xe2
def EVAL_ASSETS : UInt8 := 0xe3
def EVAL_GATEWAYS : UInt8 := 0xf1
def EVAL_TOKENS : UInt8 := 0xf2

def CC_MARKER_VALUE : ℤ := 10000

/-- `CCNewSecp256k1`: the first 33 bytes of the key. -/
def ccNewSecp256k1 (k : CPubKey) : CC := .secp256k1 (k.take 33) none

def ccNewThreshold (t : ℕ) (v : List CC) : CC := .threshold t (UInt8.ofNat v.length) v

def makeCCcond1 (evalcode : UInt8) (pk : CPubKey) : CC :=
  ccNewThreshold 2 [.eval [evalcode], ccNewThreshold 1 [ccNewSecp256k1 pk]]

/-- The eval nodes of the token conditions: `evalcode`, `EVAL_TOKENS` beside
it unless it is that one, and `evalcode2` if there is one. -/
def tokensEvalNodes (evalcode evalcode2 : UInt8) : List CC :=
  [.eval [evalcode]]
    ++ (if evalcode ≠ EVAL_TOKENS then [.eval [EVAL_TOKENS]] else [])
    ++ (if evalcode2 ≠ 0 then [.eval [evalcode2]] else [])

/-- A threshold of all its subconditions, as `MakeTokensCCcond1` ends. -/
def ccNewAll (v : List CC) : CC := ccNewThreshold v.length v

def makeTokensCCcond1 (evalcode evalcode2 : UInt8) (pk : CPubKey) : CC :=
  ccNewAll (tokensEvalNodes evalcode evalcode2 ++ [ccNewThreshold 1 [ccNewSecp256k1 pk]])

def makeTokensCCcond1of2 (evalcode evalcode2 : UInt8) (pk1 pk2 : CPubKey) : CC :=
  ccNewAll (tokensEvalNodes evalcode evalcode2
    ++ [ccNewThreshold 1 [ccNewSecp256k1 pk1, ccNewSecp256k1 pk2]])

namespace CCEnv

variable (env : CCEnv)

def ccPubKey (cond : CC) : CScript :=
  pushData (env.conditionBinary cond) ++ [OP_CHECKCRYPTOCONDITION]

/-- `MakeCC1vout` without attached data. -/
def makeCC1vout (evalcode : UInt8) (nValue : ℤ) (pk : CPubKey) : CTxOut :=
  ⟨nValue, env.ccPubKey (makeCCcond1 evalcode pk)⟩

/-- `MakeTokensCC1vout`; the overload with one evalcode passes `evalcode2 = 0`. -/
def makeTokensCC1vout (evalcode evalcode2 : UInt8) (nValue : ℤ) (pk : CPubKey) : CTxOut :=
  ⟨nValue, env.ccPubKey (makeTokensCCcond1 evalcode evalcode2 pk)⟩

def makeTokensCC1of2vout (evalcode evalcode2 : UInt8) (nValue : ℤ) (pk1 pk2 : CPubKey) :
    CTxOut :=
  ⟨nValue, env.ccPubKey (makeTokensCCcond1of2 evalcode evalcode2 pk1 pk2)⟩

/-- `GetCryptoCondition`: the fulfillment pushed first, less its hash type. -/
def getCryptoCondition (scriptSig : CScript) : Option CC :=
  match getOp scriptSig with
  | some (_, ffbin, _) => env.readFulfillmentBinary ffbin.dropLast
  | none => none

def isCCInput (scriptSig : CScript) : Bool := (env.getCryptoCondition scriptSig).isSome

/-- The visitor of `CCcustom.inc`: stops at an eval node of the given code. -/
def findEval (evalcode : UInt8) : CC → Option Unit
  | .eval code => if code = [evalcode] then some () else none
  | .anon .eval fingerprint _ _ => if env.anonHasCode fingerprint evalcode then some () else none
  | _ => none

/-- `cp->ismyvin` of the contract with this evalcode (`CCcustom.inc`). -/
def isMyVin (evalcode : UInt8) (scriptSig : CScript) : Bool :=
  match env.getCryptoCondition scriptSig with
  | some cond => (CC.visit (env.findEval evalcode) cond).isSome
  | none => false

variable {env} in
/-- `ismyvin` is asked of crypto-condition inputs only. -/
theorem isCCInput_of_isMyVin {evalcode : UInt8} {scriptSig : CScript}
    (h : env.isMyVin evalcode scriptSig = true) : env.isCCInput scriptSig = true := by
  unfold isMyVin at h
  unfold isCCInput
  cases hcond : env.getCryptoCondition scriptSig with
  | none =>
    rw [hcond] at h
    cases h
  | some cond => rfl

end CCEnv

/-- `uint32_t` converted to `int32_t`, as an output position is. -/
def toInt32 (n : ℕ) : ℤ := if n < 2 ^ 31 then n else (n : ℤ) - 2 ^ 32

/-- What `myGetTransaction`, and `Eval::GetTxUnconfirmed` through it, finds. -/
abbrev TxLookup := Uint256 → Option CTransaction

end Komodo
