/-
# Chains of checks

A contract's validator is a chain of checks over a transaction, the transactions
it names and the chain. `Checked` is such a chain: it ends with a value, with the
message of `eval->Invalid(…)`, or with no meaning at all, where the source reads
past the end of a vector, divides by zero or reads a variable that was never set.
A transaction is accepted when the chain ends with a value.

With them, of `src/src/cc/CCutils.cpp`: `ConstrainVout`, `PreventCC`, `CCduration`,
`komodo_txnotarizedconfirmed`, `MakeCCcond1of2`, `CCtxidaddr` and the address
functions. Signed 64-bit arithmetic wraps, the build passes `-fwrapv`.
-/

import Komodo.CC.Contract
import Komodo.Lib.Completes

namespace Komodo

/-! ### The chain -/

/-- How a chain of checks ends early. -/
inductive Stop
  /-- `return eval->Invalid(message)`. -/
  | invalid (message : String)
  /-- A step to which the language gives no meaning. -/
  | undefined
deriving DecidableEq, Repr

/-- A chain of checks. -/
abbrev Checked := Except Stop

/-- `if (!b) return eval->Invalid(message);` -/
def require (b : Bool) (message : String) : Checked Unit :=
  if b then .ok () else .error (.invalid message)

/-- A value without which `eval->Invalid(message)` is returned. -/
def expect {α : Type} (a : Option α) (message : String) : Checked α :=
  match a with
  | some a => .ok a
  | none => .error (.invalid message)

/-- A value without which the step has no meaning. -/
def defined {α : Type} (a : Option α) : Checked α :=
  match a with
  | some a => .ok a
  | none => .error .undefined

section chain
variable {α β : Type}

variable {message : String}

@[simp] theorem require_eq_ok {b : Bool} {u : Unit} :
    require b message = .ok u ↔ b = true := by
  cases b <;> simp [require]

variable {o : Option α}

@[simp] theorem expect_eq_ok {a : α} :
    expect o message = .ok a ↔ o = some a := by
  cases o <;> simp [expect]

@[simp] theorem defined_eq_ok {a : α} : defined o = .ok a ↔ o = some a := by
  cases o <;> simp [defined]

@[simp] theorem require_ne_undefined {b : Bool} :
    require b message ≠ .error .undefined := by
  cases b <;> simp [require]

@[simp] theorem expect_ne_undefined :
    expect o message ≠ .error .undefined := by
  cases o <;> simp [expect]

@[simp] theorem defined_eq_undefined :
    defined o = .error .undefined ↔ o = none := by
  cases o <;> simp [defined]

theorem Checked.bind_eq_error {x : Checked α} {f : α → Checked β} {e : Stop} :
    (x >>= f) = .error e ↔ x = .error e ∨ ∃ a, x = .ok a ∧ f a = .error e := by
  cases x with
  | error e' => exact ⟨fun h => Or.inl (congrArg _ (Except.error.inj h)),
      fun h => h.elim (fun h => congrArg _ (Except.error.inj h)) fun ⟨_, h, _⟩ => nomatch h⟩
  | ok a => exact ⟨fun h => Or.inr ⟨a, rfl, h⟩,
      fun h => h.elim (fun h => nomatch h) fun ⟨_, ha, hf⟩ => Except.ok.inj ha ▸ hf⟩

theorem Checked.bind_eq_ok {x : Checked α} {f : α → Checked β} {b : β} :
    (x >>= f) = .ok b ↔ ∃ a, x = .ok a ∧ f a = .ok b := Runs.bind_eq_ok

theorem Checked.seq_eq_ok {x : Checked Unit} {y : Checked β} {b : β} :
    (do x; y) = .ok b ↔ x = .ok () ∧ y = .ok b := by
  rw [Checked.bind_eq_ok]
  exact ⟨fun ⟨_, hx, hy⟩ => ⟨hx, hy⟩, fun ⟨hx, hy⟩ => ⟨(), hx, hy⟩⟩

theorem Checked.pure_eq_ok {a b : α} : (pure a : Checked α) = .ok b ↔ a = b :=
  ⟨fun h => Except.ok.inj h, fun h => congrArg _ h⟩

theorem Checked.pure_ne_error {a : α} {stop : Stop} :
    ((pure a : Checked α) = .error stop) = False :=
  eq_false nofun

end chain

/-! ### Machine integers -/

/-- A result of `int64_t` arithmetic. -/
def toInt64 (n : ℤ) : ℤ := n.bmod (2 ^ 64)

/-- A result of `uint64_t` arithmetic. -/
def toUint64 (n : ℤ) : ℤ := n % 2 ^ 64

theorem toInt64_of_range {n : ℤ} (hlow : -2 ^ 63 ≤ n) (hhigh : n < 2 ^ 63) : toInt64 n = n := by
  unfold toInt64
  rw [Int.bmod_eq_of_le] <;> omega

theorem toInt64_bounds (n : ℤ) : -2 ^ 63 ≤ toInt64 n ∧ toInt64 n < 2 ^ 63 := by
  unfold toInt64
  have hlow := Int.le_bmod (x := n) (m := 2 ^ 64) (by decide)
  have hhigh := Int.bmod_lt (x := n) (m := 2 ^ 64) (by decide)
  omega

theorem toInt64_of_lt {n : ℕ} (h : n < 2 ^ 63) : toInt64 n = n :=
  toInt64_of_range (by omega) (by omega)

theorem toUint64_of_lt {n : ℕ} (h : n < 2 ^ 64) : toUint64 n = n :=
  Int.emod_eq_of_lt (by omega) (by omega)

theorem toInt64_toUint64 (n : ℤ) : toInt64 (toUint64 n) = toInt64 n := Int.emod_bmod n (2 ^ 64)

theorem toUint64_add_toUint64 (a b : ℤ) : toUint64 (toUint64 a + b) = toUint64 (a + b) :=
  Int.emod_add_emod a (2 ^ 64) b

theorem toInt64_mul_succ (a b : ℤ) :
    toInt64 (a * (toUint64 b + 1)) = toInt64 ((toInt64 b + 1) * a) := by
  have hunsigned : (toUint64 b + 1).bmod (2 ^ 64) = (b + 1).bmod (2 ^ 64) :=
    Int.emod_add_bmod b (2 ^ 64)
  have hsigned : (toInt64 b + 1).bmod (2 ^ 64) = (b + 1).bmod (2 ^ 64) := Int.bmod_add_bmod
  unfold toInt64 at hsigned ⊢
  rw [Int.mul_comm _ a, Int.mul_bmod, hunsigned, Int.mul_bmod a (_ + 1), hsigned]

def COIN : ℤ := 100000000

/-! ### What the validators call -/

/-- The fields of a `CBlockIndex` that the contracts read. -/
structure BlockTime where
  nHeight : ℤ
  nTime : ℤ
deriving DecidableEq, Repr

/-- What the validators call outside this development. -/
structure ContractEnv extends CCEnv where
  /-- `Getscriptaddress`: the address of a script; `none` when it has none. -/
  getscriptaddress : CScript → Option String
  /-- `myGetTransaction`, and `Eval::GetTxUnconfirmed` through it: the transaction
  and the hash of its block, null for one of the mempool. -/
  getTransaction : Uint256 → Option (CTransaction × Uint256)
  /-- `komodo_blockindex`. -/
  blockIndex : Uint256 → Option BlockTime
  /-- `chainActive.Tip()`. -/
  tip : BlockTime
  /-- `sp->LastNotarizedHeight()`, zero when there is no `sp`. -/
  lastNotarizedHeight : ℤ
  /-- `vcalc_sha256`. -/
  sha256 : Bytes → Bytes

def makeCCcond1of2 (evalcode : UInt8) (pk1 pk2 : CPubKey) : CC :=
  ccNewThreshold 2 [.eval [evalcode], ccNewThreshold 1 [ccNewSecp256k1 pk1, ccNewSecp256k1 pk2]]

def OP_CHECKSIG : UInt8 := 0xac

/-- `CScript() << ParseHex(HexStr(pk)) << OP_CHECKSIG`. -/
def payToPubkey (pk : CPubKey) : CScript := pushData pk ++ [OP_CHECKSIG]

/-- The last output of a transaction, where the opreturn stands. -/
def opretOf (tx : CTransaction) : CScript := tx.vout.getLast?.elim [] CTxOut.scriptPubKey

namespace ContractEnv

variable (env : ContractEnv)

/-- `myGetTransaction` without the block. -/
def lookup : TxLookup := fun txid => (env.getTransaction txid).map Prod.fst

/-- `_GetCCaddress`; empty when the script has no address. -/
def ccAddress (evalcode : UInt8) (pk : CPubKey) : String :=
  (env.getscriptaddress (env.ccPubKey (makeCCcond1 evalcode pk))).getD ""

/-- `GetCCaddress1of2`. -/
def ccAddress1of2 (evalcode : UInt8) (pk1 pk2 : CPubKey) : String :=
  (env.getscriptaddress (env.ccPubKey (makeCCcond1of2 evalcode pk1 pk2))).getD ""

/-- `GetTokensCCaddress1of2`. -/
def tokensAddress1of2 (evalcode evalcode2 : UInt8) (pk1 pk2 : CPubKey) : String :=
  (env.getscriptaddress (env.ccPubKey (makeTokensCCcond1of2 evalcode evalcode2 pk1 pk2))).getD ""

/-- `Getscriptaddress(addr, CScript() << pk << OP_CHECKSIG)`. -/
def normalAddress (pk : CPubKey) : String := (env.getscriptaddress (payToPubkey pk)).getD ""

/-- `ConstrainVout`; no address is asked for when there is no `cmpaddr`, and no
amount when `nValue` is zero. -/
def constrainVout (out : CTxOut) (ccFlag : Bool) (cmpaddr : Option String) (nValue : ℤ) : Bool :=
  isPayToCryptoCondition out.scriptPubKey = ccFlag
    ∧ (cmpaddr = none ∨ env.getscriptaddress out.scriptPubKey = cmpaddr)
    ∧ (nValue = 0 ∨ nValue = out.nValue)

/-- `PreventCC`: from these positions on no input and no output is one of a crypto
condition. A negative position prevents nothing, as an absent one does here. -/
def preventCC (tx : CTransaction) (preventCCvins preventCCvouts : Option ℕ) : Checked Unit := do
  require (preventCCvins.elim true fun n => (tx.vin.drop n).all fun i => !env.isCCInput i.scriptSig)
    "invalid CC vin"
  require (preventCCvouts.elim true fun n =>
    (tx.vout.drop n).all fun out => !isPayToCryptoCondition out.scriptPubKey) "invalid CC vout"

/-- `CCduration`: seconds and blocks since a transaction was mined. -/
def ccDuration (txid : Uint256) : ℤ × ℤ :=
  match env.getTransaction txid with
  | none => (0, 0)
  | some (_, hashBlock) =>
    if hashBlock = 0 then (0, 0)
    else match env.blockIndex hashBlock with
      | none => (0, 0)
      | some b =>
        if b.nTime = 0 ∨ b.nHeight = 0 then (0, 0)
        else if env.tip.nTime < b.nTime ∨ env.tip.nHeight ≤ b.nHeight then (0, 0)
        else (env.tip.nTime - b.nTime, env.tip.nHeight - b.nHeight)

def MIN_NON_NOTARIZED_CONFIRMS : ℤ := 101

/-- `komodo_txnotarizedconfirmed`. -/
def txNotarizedConfirmed (txid : Uint256) : Bool :=
  match env.getTransaction txid with
  | none => false
  | some (_, hashBlock) =>
    if hashBlock = 0 then false
    else match env.blockIndex hashBlock with
      | none => false
      | some b =>
        if b.nHeight ≤ 0 ∨ env.tip.nHeight < b.nHeight then false
        else
          let confirms := 1 + env.tip.nHeight - b.nHeight
          let notarized := if 0 < env.lastNotarizedHeight ∧ env.lastNotarizedHeight < b.nHeight
            then 0 else env.lastNotarizedHeight
          (0 < notarized ∧ 1 < confirms) ∨
            (notarized = 0 ∧ MIN_NON_NOTARIZED_CONFIRMS ≤ confirms)

end ContractEnv

/-- Two environments with one past: they hash alike, and a transaction that both find
is the same. -/
structure ContractEnv.SameHistory (env env' : ContractEnv) : Prop where
  sha256 : env.sha256 = env'.sha256
  lookup : ∀ {txid tx tx'}, env.lookup txid = some tx → env'.lookup txid = some tx' → tx = tx'

/-- The output that an input spends, with its transaction. -/
def ContractEnv.spent (env : ContractEnv) (i : CTxIn) : Option (CTransaction × CTxOut) := do
  let tx ← env.lookup i.prevout.hash
  let out ← tx.vout[i.prevout.n]?
  pure (tx, out)

theorem ContractEnv.spent_eq_some {env : ContractEnv} {i : CTxIn} {t : CTransaction}
    {out : CTxOut} : env.spent i = some (t, out) ↔
      env.lookup i.prevout.hash = some t ∧ t.vout[i.prevout.n]? = some out := by
  simp only [spent, Option.bind_eq_bind, Option.pure_def, Option.bind_eq_some_iff,
    Option.some.injEq, Prod.mk.injEq]
  constructor
  · rintro ⟨_, ht, _, hout, rfl, rfl⟩
    exact ⟨ht, hout⟩
  · rintro ⟨ht, hout⟩
    exact ⟨t, ht, out, hout, rfl, rfl⟩

/-- A node over time: what it sees after the transactions of a chain, the newest first. -/
structure Node where
  view : List CTransaction → ContractEnv
  lookup_view : ∀ chain txid,
    (view chain).lookup txid = chain.find? fun tx => tx.hash = txid

variable {tx : CTransaction}

theorem Node.hash_of_lookup (node : Node) {chain : List CTransaction} {txid : Uint256}
    (h : (node.view chain).lookup txid = some tx) : tx.hash = txid := by
  rw [node.lookup_view] at h
  simpa using List.find?_some h

/-! ### A chain of checked transactions -/

/-- An environment whose transactions stand in a block or in the mempool: each is
found under its own hash and has passed `CheckTransaction`. -/
structure ChainEnv extends ContractEnv where
  maxMoney : ℤ
  maxMoney_lt : maxMoney < 2 ^ 63
  getValueIn : CTransaction → ℤ
  hash_of_lookup : ∀ {txid tx}, toContractEnv.lookup txid = some tx → tx.hash = txid
  nValue_of_lookup : ∀ {txid tx}, toContractEnv.lookup txid = some tx →
    ∀ out ∈ tx.vout, 0 ≤ out.nValue ∧ out.nValue ≤ maxMoney

namespace ChainEnv

variable (env : ChainEnv)

def moneyRange (nValue : ℤ) : Bool := 0 ≤ nValue ∧ nValue ≤ env.maxMoney

/-- One addition of `CTransaction::GetValueOut`; `none` when it throws. -/
def addValue (nValueOut nValue : ℤ) : Option ℤ :=
  let nValueOut := toInt64 (nValueOut + nValue)
  if env.moneyRange nValue && env.moneyRange nValueOut then some nValueOut else none

def getValueOut (tx : CTransaction) : Option ℤ := do
  let nValueOut ← (tx.vout.map CTxOut.nValue).foldlM env.addValue 0
  let nValueOut ←
    if tx.valueBalance ≤ 0 then env.addValue nValueOut (-tx.valueBalance) else some nValueOut
  (tx.vjoinsplit.map JSDescription.vpubOld).foldlM env.addValue nValueOut

/-- `CheckTxFee`. The fee is compared as an unsigned number, so that outputs above
the inputs fail too; the exception of `GetValueOut` ends the chain with its text. -/
def checkTxFee (tx : CTransaction) (txfee : ℤ) (message : String) : Checked Unit := do
  let nValueOut ← expect (env.getValueOut tx) "CTransaction::GetValueOut(): value out of range"
  require (toUint64 (env.getValueIn tx - nValueOut) ≤ txfee) message

theorem moneyRange_of_foldlM (values : List ℤ) {start total : ℤ}
    (h : values.foldlM env.addValue start = some total) {v : ℤ} (hv : v ∈ values) :
    0 ≤ v ∧ v ≤ env.maxMoney := by
  induction values generalizing start with
  | nil => cases hv
  | cons x xs ih =>
    rw [List.foldlM_cons, Option.bind_eq_bind, Option.bind_eq_some_iff] at h
    obtain ⟨next, hnext, hrest⟩ := h
    rcases List.mem_cons.1 hv with rfl | hv
    · simp only [addValue, moneyRange] at hnext
      grind
    · exact ih hrest hv

theorem nValue_of_checkTxFee {tx : CTransaction} {txfee : ℤ} {message : String}
    (h : env.checkTxFee tx txfee message = .ok ()) {out : CTxOut} (hout : out ∈ tx.vout) :
    0 ≤ out.nValue ∧ out.nValue ≤ env.maxMoney := by
  simp only [checkTxFee, Checked.bind_eq_ok, expect_eq_ok] at h
  obtain ⟨total, htotal, -⟩ := h
  simp only [getValueOut, Option.bind_eq_bind, Option.bind_eq_some_iff] at htotal
  obtain ⟨sum, hsum, -⟩ := htotal
  exact env.moneyRange_of_foldlM _ hsum (List.mem_map_of_mem hout)

end ChainEnv

/-! ### Chains of a few transactions -/

/-- A lookup in a list of transactions, all of them in one block. -/
def findTx (txs : List CTransaction) (hashBlock txid : Uint256) : Option (CTransaction × Uint256) :=
  (txs.find? fun tx => tx.hash = txid).map fun tx => (tx, hashBlock)

theorem findTx_map_fst (txs : List CTransaction) (hashBlock txid : Uint256) :
    (findTx txs hashBlock txid).map Prod.fst = txs.find? fun tx => tx.hash = txid := by
  simp [findTx, Option.map_map, Function.comp_def]

theorem findTx_eq_some {txs : List CTransaction} {hashBlock txid : Uint256}
    (h : (findTx txs hashBlock txid).map Prod.fst = some tx) : tx ∈ txs ∧ tx.hash = txid := by
  rw [findTx_map_fst] at h
  exact ⟨List.mem_of_find?_eq_some h, by simpa using List.find?_some h⟩

/-- Whether all outputs of some transactions hold amounts from zero to a maximum. -/
def amountsWithin (txs : List CTransaction) (maxMoney : ℤ) : Bool :=
  txs.all fun tx => tx.vout.all fun out => 0 ≤ out.nValue ∧ out.nValue ≤ maxMoney

theorem nValue_of_findTx {txs : List CTransaction} {maxMoney : ℤ} {hashBlock txid : Uint256}
    (hwithin : amountsWithin txs maxMoney = true)
    (h : (findTx txs hashBlock txid).map Prod.fst = some tx) (out : CTxOut) (hout : out ∈ tx.vout) :
    0 ≤ out.nValue ∧ out.nValue ≤ maxMoney := by
  simp only [amountsWithin, List.all_eq_true] at hwithin
  simpa using hwithin tx (findTx_eq_some h).1 out hout

/-- The sum of the outputs, found in a list of transactions, that a transaction spends. -/
def valueIn (txs : List CTransaction) (tx : CTransaction) : ℤ :=
  (tx.vin.map fun i =>
    ((findTx txs 0 i.prevout.hash).bind fun t => t.1.vout[i.prevout.n]?).elim 0 CTxOut.nValue).sum

/-- A fulfilled `MakeCCcond1`, the signature left as a placeholder. -/
def signedCond1 (evalcode : UInt8) (pk : CPubKey) : CC :=
  .threshold 2 2 [.threshold 1 1 [.secp256k1 pk (some (List.replicate 64 1))], .eval [evalcode]]

/-- `cc_fulfillmentBinary` of it, for a key of 33 bytes. -/
def fulfillment1 (evalcode : UInt8) (pk : CPubKey) : Bytes :=
  [0xa2, 0x76, 0xa0, 0x72, 0xa2, 0x6b, 0xa0, 0x67, 0xa5, 0x65, 0x80, 0x21] ++ pk
    ++ [0x81, 0x40] ++ List.replicate 64 1
    ++ [0xa1, 0x00, 0xaf, 0x03, 0x80, 0x01, evalcode, 0xa1, 0x00]

/-- The script that spends an output of `MakeCC1vout`. -/
def scriptSig1 (evalcode : UInt8) (pk : CPubKey) : CScript :=
  pushData (fulfillment1 evalcode pk ++ [1])

end Komodo
