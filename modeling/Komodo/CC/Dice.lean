/-
# The dice contract

`src/src/cc/dice.cpp`: `DiceCalc`, `DecodeDiceFundingOpRet`, `DecodeDiceOpRet`,
`DiceGetEntropy`, `IsDicevout`, `DiceAmounts`, `DiceVerifyTimeout` and `DiceValidate`.

A plan is created by an `'F'` transaction and named by its hash. The house commits to
the hash of a secret in an entropy transaction (`'E'`, or a settlement used again); a
bet (`'B'`) spends its output 0 and brings an entropy of its own; a settlement (`'W'`,
`'L'`) reveals the secret as its proof, and `DiceCalc` of both decides. A bet that the
house does not settle is paid as if it had won (`'T'`). All outputs of all plans sit
at one address.
-/

import Komodo.CC.Checks
import Komodo.CC.TokenOpRet
import Komodo.Script.Serialize

namespace Komodo

open Streams Unserialize

/-! ### The opreturns -/

def EVAL_DICE : UInt8 := 0xe6

/-- `DiceCCaddr`, where `cp->unspendableCCaddr` points. -/
def DiceCCaddr : String := "REabWB7KjFN5C3LFMZ5odExHPenYzHLtVw"

/-- The terms of a plan, as its `'F'` opreturn holds them. -/
structure DicePlan where
  sbits : ℕ
  minbet : ℤ
  maxbet : ℤ
  maxodds : ℤ
  timeoutblocks : ℤ
deriving DecidableEq, Repr

/-- What `DecodeDiceOpRet` returns. Of an `'F'` the proof is never set and never read. -/
structure DiceOpRet where
  funcid : UInt8
  sbits : ℕ
  fundingtxid : Uint256
  hash : Uint256
  proof : Uint256
deriving DecidableEq, Repr

/-- The reads of an `'F'` opreturn. -/
def readDiceFunding : Unserialize (UInt8 × UInt8 × DicePlan) := do
  let e ← uint8
  let f ← uint8
  let sbits ← uint 8
  let minbet ← int 8
  let maxbet ← int 8
  let maxodds ← int 8
  let timeoutblocks ← int 8
  pure (e, f, ⟨sbits, minbet, maxbet, maxodds, timeoutblocks⟩)

/-- `DecodeDiceFundingOpRet`: the plan when `'F'` is returned. -/
def decodeDiceFundingOpRet (s : CScript) : Option DicePlan :=
  let vopret := getOpReturnData s
  if vopret.length ≤ 2 then none
  else match unmarshal vopret readDiceFunding with
    | some (e, f, plan) => if e = EVAL_DICE ∧ f = fid 'F' then some plan else none
    | none => none

/-- The reads of the other opreturns. -/
def readDice : Unserialize (UInt8 × DiceOpRet) := do
  let e ← uint8
  let f ← uint8
  let sbits ← uint 8
  let fundingtxid ← uint256
  let hash ← uint256
  let proof ← uint256
  pure (e, ⟨f, sbits, fundingtxid, hash, proof⟩)

/-- `DecodeDiceOpRet`. A plan's own transaction is known by its hash. -/
def decodeDiceOpRet (txid : Uint256) (s : CScript) : Option DiceOpRet :=
  match getOpReturnData s with
  | e :: f :: b :: rest =>
    let vopret := e :: f :: b :: rest
    if e ≠ EVAL_DICE then none
    else if f = fid 'F' then
      (unmarshal vopret readDiceFunding).map fun r =>
        ⟨fid 'F', r.2.2.sbits, txid, 0, 0⟩
    else match unmarshal vopret readDice with
      | some (e, r) =>
        if e = EVAL_DICE ∧ r.funcid ∈ "RBWLTE".toList.map fid then some r else none
      | none => none
  | _ => none

def diceGetEntropy (tx : CTransaction) (reffuncid : UInt8) : Uint256 :=
  match decodeDiceOpRet tx.hash (opretOf tx) with
  | some r => if r.funcid = reffuncid then r.hash else 0
  | none => 0

/-! ### The roll -/

def dice5nibbles : List ℕ → ℕ
  | a :: b :: c :: d :: e :: _ => a * 65536 + b * 4096 + c * 256 + d * 16 + e
  | _ => 0

/-- The number drawn from a hash: of its twelve runs of five nibbles the first below
a million, reduced to four digits; the last run as it stands if there is none. -/
def diceModval (hash : Bytes) : ℕ :=
  let hash16 := hash.flatMap fun b => [b.toNat / 16, b.toNat % 16]
  let vals := (List.range 12).map fun i => dice5nibbles (hash16.drop (i * 5))
  match vals.find? (· < 1000000) with
  | some modval => modval % 10000
  | none => vals.getLast?.getD 0

namespace ContractEnv

variable (env : ContractEnv)

/-- `DiceCalc`: what a bet wins, zero when it loses. -/
def diceCalc (bet vout2 : ℤ) (plan : DicePlan) (houseentropy bettorentropy : Uint256) : ℤ :=
  if vout2 ≤ 10000 then 0
  else
    let odds := toUint64 (vout2 - 10000)
    if bet < plan.minbet ∨ plan.maxbet < bet then 0
    else if toUint64 plan.maxodds < odds then 0
    else
      let house := env.sha256 (uint256Bytes houseentropy ++ uint256Bytes bettorentropy)
      let bettor := env.sha256 (uint256Bytes bettorentropy ++ uint256Bytes houseentropy)
      let won : Bool :=
        if 1 < odds then
          odds ≤ 9999 ∧ (diceModval (env.sha256 (house ++ bettor)) : ℤ) < 10000 / (odds + 1)
        else fromLE house ≤ fromLE bettor
      if won then toUint64 (bet * (odds + 1)) else 0

/-! ### The amounts of a plan -/

/-- Whether an output is at the shared address. -/
def atDiceAddress (out : CTxOut) : Bool :=
  isPayToCryptoCondition out.scriptPubKey
    && env.getscriptaddress out.scriptPubKey = some DiceCCaddr

/-- Whether the opreturn of `tx` names a plan. -/
def ofDicePlan (tx : CTransaction) (refsbits : ℕ) (reffundingtxid : Uint256) : Bool :=
  match decodeDiceOpRet tx.hash (opretOf tx) with
  | some r => r.sbits = refsbits ∧
      (r.funcid = fid 'F' ∧ tx.hash = reffundingtxid ∨ r.fundingtxid = reffundingtxid)
  | none => false

/-- `IsDicevout` of an output. -/
def isDicevout (tx : CTransaction) (out : CTxOut) (refsbits : ℕ) (reffundingtxid : Uint256) : ℤ :=
  if env.atDiceAddress out && ofDicePlan tx refsbits reffundingtxid then out.nValue else 0

/-- The loop over the inputs in `DiceAmounts`: what it has summed, and whether it got
through. A transaction that is not found ends it. -/
def diceInputs (refsbits : ℕ) (reffundingtxid : Uint256) :
    List CTxIn → (inputs : ℤ) → Checked (ℤ × Bool)
  | [], inputs => pure (inputs, true)
  | i :: rest, inputs =>
    if env.isMyVin EVAL_DICE i.scriptSig then
      match env.lookup i.prevout.hash with
      | none => pure (inputs, false)
      | some vinTx => do
        let out ← defined vinTx.vout[i.prevout.n]?
        diceInputs refsbits reffundingtxid rest
          (toUint64 (inputs + env.isDicevout vinTx out refsbits reffundingtxid))
    else diceInputs refsbits reffundingtxid rest inputs

/-- `DiceAmounts`: the inputs and the outputs of the plan. Its callers go on with what
has been summed, also where it records a rejection. -/
def diceAmounts (tx : CTransaction) (refsbits : ℕ) (reffundingtxid : Uint256) :
    Checked (ℤ × ℤ) := do
  let (inputs, found) ← env.diceInputs refsbits reffundingtxid tx.vin 0
  pure (inputs, if found then
    tx.vout.foldl (fun outputs out =>
      toUint64 (outputs + env.isDicevout tx out refsbits reffundingtxid)) 0
    else 0)

/-! ### The validator -/

/-- The fee of the contract's transactions. -/
def diceTxfee : ℤ := 10000

/-- What `Getscriptaddress` leaves in its buffer. -/
def scriptAddress (s : CScript) : String := (env.getscriptaddress s).getD ""

/-- The opreturn of a transaction, the plan it names and the script of the house, as
`DiceValidate` reads them first. Other `sbits` in the opreturn are only logged. -/
def dicePlanOf (tx : CTransaction) : Checked (DiceOpRet × DicePlan × CScript) := do
  require (tx.vout ≠ []) "no vouts"
  let r ← expect (decodeDiceOpRet tx.hash (opretOf tx)) "unexpected dice missing funcid"
  let fundingTx ← expect (env.lookup r.fundingtxid) "cant find fundingtxid"
  -- without outputs nothing is decoded, and `maxodds` was never set
  let opret ← defined fundingTx.vout.getLast?
  let plan ← expect (decodeDiceFundingOpRet opret.scriptPubKey) "fundingTx not valid"
  require (plan.maxodds ≤ 9999) "maxodds too big"
  let out1 ← defined fundingTx.vout[1]?
  pure (r, plan, out1.scriptPubKey)

/-- The check that the entropy transaction was funded by the house. -/
def entropyOfHouse (vinTx : CTransaction) (fundingtxid : Uint256) (fundingPubKey : CScript) :
    Checked Unit := do
  let vin0 ← defined vinTx.vin[0]?
  let vinofvinTx ← expect ((env.lookup vin0.prevout.hash).filter fun t => t.vout ≠ [])
    "always should find vinofvin.0, but didnt for bet"
  if vin0.prevout.hash = fundingtxid then pure ()
  else do
    let out ← defined vinofvinTx.vout[vin0.prevout.n]?
    require (0 ≤ toInt32 vin0.prevout.n ∧ out.scriptPubKey = fundingPubKey
        ∨ env.scriptAddress out.scriptPubKey = env.scriptAddress fundingPubKey)
      "vin1 of entropy tx not fundingPubKey for bet"

/-- The checks of `case 'B'`. -/
def betChecks (tx : CTransaction) (r : DiceOpRet) (plan : DicePlan) (fundingPubKey : CScript) :
    Checked Unit := do
  let vin0 ← defined tx.vin[0]?
  require (env.isCCInput vin0.scriptSig) "vin.0 is normal for bet"
  let out0 ← defined tx.vout[0]?
  require (isPayToCryptoCondition out0.scriptPubKey) "vout.0 is normal for bet"
  let out1 ← defined tx.vout[1]?
  require (isPayToCryptoCondition out1.scriptPubKey) "vout.1 is normal for bet"
  let vinTx ← expect (env.lookup vin0.prevout.hash) "always should find vin.0, but didnt for bet"
  let tag ← defined vinTx.vout[1]?
  require (tag.scriptPubKey = fundingPubKey) "entropy tx not fundingPubKey for bet"
  let spent ← defined vinTx.vout[vin0.prevout.n]?
  require (env.constrainVout out0 true (some DiceCCaddr) spent.nValue)
    "vout[0] != entropy nValue for bet"
  require (env.constrainVout out1 true (some DiceCCaddr) 0)
    "vout[1] constrain violation for bet"
  let out2 ← defined tx.vout[2]?
  require (toUint64 out2.nValue ≤ toUint64 (diceTxfee + plan.maxodds)
    ∧ diceTxfee < toUint64 out2.nValue) "vout[2] nValue violation for bet"
  env.entropyOfHouse vinTx r.fundingtxid fundingPubKey

/-- `case 'B'`. -/
def diceBet (tx : CTransaction) (r : DiceOpRet) (plan : DicePlan) (fundingPubKey : CScript) :
    Checked Unit := do
  env.betChecks tx r plan fundingPubKey
  env.preventCC tx (some 1) (some 2)

/-- Whether a script may stand behind the payouts: it pays the house, or is the opreturn. -/
def houseOrOpret (s fundingPubKey : CScript) : Bool :=
  s = fundingPubKey ∨ s.head? = some OP_RETURN

/-- The outputs of an `'L'`. -/
def lossOutputs (tx : CTransaction) (inputs : ℤ) (fundingPubKey : CScript) : Checked Unit := do
  let out0 ← defined tx.vout[0]?
  require (env.constrainVout out0 true (some DiceCCaddr) (toInt64 inputs))
    "vout[0] != inputs-txfee for loss"
  let out2 ← defined tx.vout[2]?
  require (houseOrOpret out2.scriptPubKey fundingPubKey)
    "vout[2] not send to fundingPubKey for loss"

/-- The outputs of a `'W'` or a `'T'`. -/
def winOutputs (tx betTx : CTransaction) (inputs outputs : ℤ) (fundingPubKey : CScript) :
    Checked Unit := do
  let bet1 ← defined betTx.vout[1]?
  let bet2 ← defined betTx.vout[2]?
  let odds := toInt64 (bet2.nValue - diceTxfee)
  let out0 ← defined tx.vout[0]?
  require (env.constrainVout out0 true (some DiceCCaddr) 0)
    "vout[0] != inputs-txfee for win/timeout"
  let out2 ← defined tx.vout[2]?
  require (out2.scriptPubKey = bet2.scriptPubKey)
    "vout[2] scriptPubKey mismatch for win/timeout"
  require (out2.nValue = toInt64 ((odds + 1) * bet1.nValue))
    "vout[2] payut mismatch for win/timeout"
  require (inputs = toUint64 (outputs + out2.nValue)
    ∨ inputs = toUint64 (outputs + out2.nValue + diceTxfee)) "CC funds mismatch for win/timeout"
  let out3 ← defined tx.vout[3]?
  require (houseOrOpret out3.scriptPubKey fundingPubKey)
    "vout[3] not send to fundingPubKey for win/timeout"

/-- `DiceVerifyTimeout`, whose parameter keeps 32 bits of the timeout. -/
def diceVerifyTimeout (betTx : CTransaction) (timeoutblocks : ℤ) : Bool :=
  let (duration, numblocks) := env.ccDuration betTx.hash
  0 < duration ∧ timeoutblocks.bmod (2 ^ 32) ≤ numblocks

/-- The winnings that a settlement's proof gives its bet. -/
def winningsOf (betTx : CTransaction) (plan : DicePlan) (proof : Uint256) : Checked ℤ := do
  let bet1 ← defined betTx.vout[1]?
  let bet2 ← defined betTx.vout[2]?
  pure (toInt64 (env.diceCalc bet1.nValue bet2.nValue plan proof (diceGetEntropy betTx (fid 'B'))))

/-- The bet that a settlement spends with `vin.1` and `vin.2`. -/
def settledBet (tx : CTransaction) (r : DiceOpRet) (plan : DicePlan) : Checked CTransaction := do
  let vin1 ← defined tx.vin[1]?
  require (env.isCCInput vin1.scriptSig) "vin0 or vin1 normal vin for bet"
  let vin2 ← defined tx.vin[2]?
  require (env.isCCInput vin2.scriptSig) "vin0 or vin1 normal vin for bet"
  require (vin1.prevout.hash = vin2.prevout.hash) "vin0 != vin1 prevout.hash for bet"
  let betTx ← expect (env.lookup vin1.prevout.hash) "always should find vin.0, but didnt for wlt"
  let b ← expect (if betTx.vout.length < 3 then none
      else (decodeDiceOpRet vin1.prevout.hash (opretOf betTx)).filter (·.funcid = fid 'B'))
    "not betTx for vin0/1 for wlt"
  require (plan.sbits = b.sbits ∧ r.fundingtxid = b.fundingtxid)
    "sbits or fundingtxid mismatch for wlt"
  pure betTx

/-- The outputs of a settlement. -/
def settleOutputs (tx betTx : CTransaction) (r : DiceOpRet) (inputs outputs : ℤ)
    (fundingPubKey : CScript) : Checked Unit :=
  if r.funcid = fid 'L' then env.lossOutputs tx inputs fundingPubKey
  else env.winOutputs tx betTx inputs outputs fundingPubKey

/-- The outcome of a settlement. The hash of the proof is computed in the source as
well, and not looked at. -/
def settleOutcome (betTx : CTransaction) (r : DiceOpRet) (plan : DicePlan) : Checked Unit :=
  if r.funcid = fid 'T' then
    require (env.diceVerifyTimeout betTx plan.timeoutblocks) "invalid timeout claim for timeout"
  else do
    let winnings ← env.winningsOf betTx plan r.proof
    require (if r.funcid = fid 'W' then winnings ≠ 0 else winnings ≤ 0)
      "DiceCalc mismatch for win/loss"

/-- `case 'L'`, `case 'W'` and `case 'T'`. -/
def diceSettle (tx : CTransaction) (r : DiceOpRet) (plan : DicePlan) (fundingPubKey : CScript) :
    Checked Unit := do
  let (inputs, outputs) ← env.diceAmounts tx plan.sbits r.fundingtxid
  let betTx ← env.settledBet tx r plan
  let out1 ← defined tx.vout[1]?
  require (fundingPubKey = out1.scriptPubKey) "tx.vout[1] != fundingPubKey for wlt"
  env.settleOutputs tx betTx r inputs outputs fundingPubKey
  env.settleOutcome betTx r plan
  env.preventCC tx none (some 1)

/-- `case 'R'`. -/
def diceRefund (tx : CTransaction) (fundingPubKey : CScript) : Checked Unit := do
  let vin0 ← defined tx.vin[0]?
  let vinTx ← expect (env.lookup vin0.prevout.hash)
    "always should find vin.0, but didnt for refund"
  let out ← defined vinTx.vout[vin0.prevout.n]?
  require (out.scriptPubKey = fundingPubKey
      ∨ env.scriptAddress out.scriptPubKey = env.scriptAddress fundingPubKey)
    "vin.0 not from fundingPubKey for refund"

def diceValidate (tx : CTransaction) : Checked Unit := do
  let (r, plan, fundingPubKey) ← env.dicePlanOf tx
  if r.funcid = fid 'F' then .error (.invalid "unexpected DiceValidate for createfunding")
  else if r.funcid = fid 'E' then .error (.invalid "unexpected DiceValidate for addfunding entropy")
  else if r.funcid = fid 'B' then env.diceBet tx r plan fundingPubKey
  else if r.funcid = fid 'L' ∨ r.funcid = fid 'W' ∨ r.funcid = fid 'T' then
    env.diceSettle tx r plan fundingPubKey
  else if r.funcid = fid 'R' then env.diceRefund tx fundingPubKey
  else .error (.invalid "unexpected dice funcid")

/-! ### What the branches check -/

variable {env : ContractEnv} {tx : CTransaction} {r : DiceOpRet} {plan : DicePlan}
  {fundingPubKey : CScript}

theorem dicePlanOf_eq_ok (h : env.dicePlanOf tx = .ok (r, plan, fundingPubKey)) :
    decodeDiceOpRet tx.hash (opretOf tx) = some r ∧
      ∃ fundingTx, env.lookup r.fundingtxid = some fundingTx
        ∧ decodeDiceFundingOpRet (opretOf fundingTx) = some plan := by
  simp only [dicePlanOf, Checked.bind_eq_ok, expect_eq_ok, defined_eq_ok, require_eq_ok,
    Checked.pure_eq_ok, Prod.mk.injEq, exists_const] at h
  obtain ⟨-, r', hr, fundingTx, hfunding, opret, hopret, plan', hplan, -, out1, -, rfl, rfl, -⟩ := h
  refine ⟨hr, fundingTx, hfunding, ?_⟩
  simp only [opretOf, hopret, Option.elim_some]
  exact hplan

theorem diceValidate_eq_ok (h : env.diceValidate tx = .ok ()) :
    ∃ r plan fundingPubKey, env.dicePlanOf tx = .ok (r, plan, fundingPubKey) ∧
      (r.funcid = fid 'B' ∧ env.diceBet tx r plan fundingPubKey = .ok ()
      ∨ (r.funcid = fid 'L' ∨ r.funcid = fid 'W' ∨ r.funcid = fid 'T')
        ∧ env.diceSettle tx r plan fundingPubKey = .ok ()
      ∨ r.funcid = fid 'R' ∧ env.diceRefund tx fundingPubKey = .ok ()) := by
  simp only [diceValidate, Checked.bind_eq_ok] at h
  obtain ⟨⟨r, plan, fundingPubKey⟩, hplan, h⟩ := h
  refine ⟨r, plan, fundingPubKey, hplan, ?_⟩
  split_ifs at h with hF hE hB hS hR
  · exact .inl ⟨hB, h⟩
  · exact .inr (.inl ⟨hS, h⟩)
  · exact .inr (.inr ⟨hR, h⟩)

/-- A settlement spends a bet of its plan with `vin.1` and `vin.2`, whatever their
positions in it. -/
theorem settledBet_eq_ok {betTx : CTransaction} (h : env.settledBet tx r plan = .ok betTx) :
    ∃ vin1 vin2 b, tx.vin[1]? = some vin1 ∧ tx.vin[2]? = some vin2
      ∧ vin1.prevout.hash = vin2.prevout.hash
      ∧ env.lookup vin1.prevout.hash = some betTx
      ∧ decodeDiceOpRet vin1.prevout.hash (opretOf betTx) = some b ∧ b.funcid = fid 'B'
      ∧ b.sbits = plan.sbits ∧ b.fundingtxid = r.fundingtxid := by
  simp only [settledBet, Checked.bind_eq_ok, expect_eq_ok, defined_eq_ok, require_eq_ok,
    Checked.pure_eq_ok, exists_const, decide_eq_true_eq] at h
  obtain ⟨vin1, h1, -, vin2, h2, -, hhash, t, ht, b, hb, hplan, rfl⟩ := h
  split_ifs at hb
  obtain ⟨hdecode, hB⟩ := Option.filter_eq_some_iff.1 hb
  exact ⟨vin1, vin2, b, h1, h2, hhash, ht, hdecode, by simpa using hB, hplan.1.symm,
    hplan.2.symm⟩

theorem diceSettle_eq_ok (h : env.diceSettle tx r plan fundingPubKey = .ok ()) :
    ∃ inputs outputs betTx, env.diceAmounts tx plan.sbits r.fundingtxid = .ok (inputs, outputs)
      ∧ env.settledBet tx r plan = .ok betTx
      ∧ env.settleOutputs tx betTx r inputs outputs fundingPubKey = .ok ()
      ∧ env.settleOutcome betTx r plan = .ok () := by
  simp only [diceSettle, Checked.bind_eq_ok] at h
  obtain ⟨⟨inputs, outputs⟩, hamounts, betTx, hbet, -, -, ⟨⟩, -, ⟨⟩, houtputs, ⟨⟩, houtcome, -⟩ := h
  exact ⟨inputs, outputs, betTx, hamounts, hbet, houtputs, houtcome⟩

end ContractEnv

end Komodo
