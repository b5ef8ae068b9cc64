/-
# The channels contract

`src/src/cc/channels.cpp`: `DecodeChannelsOpRet`, `ChannelsExactAmounts` and
`ChannelsValidate`.

A channel is opened by an `'O'` transaction that holds `numpayments` payments of one
size at the 1of2 address of the sender and the receiver and commits to the end of a
hash chain. A payment (`'P'`) moves what is left to its own output 0 and reveals a
secret from the chain; a close (`'C'`) gives notice, and after it a refund (`'R'`)
returns what is left to the sender. Each of them names the `'O'` in its opreturn and
spends with `vin.1` what the previous one left.
-/

import Komodo.CC.Checks
import Komodo.CC.TokenOpRet

namespace Komodo

/-! ### The opreturn -/

def EVAL_CHANNELS : UInt8 := 0xeb

def OPRETID_CHANNELSDATA : UInt8 := 0x14

def CHANNELS_MAXPAYMENTS : ℤ := 1000

/-- What `DecodeChannelsOpRet` returns. In an `'O'` the parameters are `numpayments`,
`payment` and `hashchain`; in a `'P'` the payments left, the payments made and the
secret; in an `'R'` the last one is the close transaction. -/
structure ChannelsOpRet where
  funcid : UInt8
  tokenid : Uint256
  opentxid : Uint256
  srcpub : CPubKey
  destpub : CPubKey
  param1 : ℤ
  param2 : ℤ
  param3 : Uint256
deriving DecidableEq, Repr

/-- The reads of a channels opreturn. -/
def readChannels (tokenid : Uint256) : Unserialize ChannelsOpRet := do
  let _ ← Unserialize.uint8
  let funcid ← Unserialize.uint8
  let opentxid ← Unserialize.uint256
  let srcpub ← CPubKey.unserialize
  let destpub ← CPubKey.unserialize
  let param1 ← Unserialize.int 4
  let param2 ← Unserialize.int 8
  let param3 ← Unserialize.uint256
  pure ⟨funcid, tokenid, opentxid, srcpub, destpub, param1, param2, param3⟩

/-- The token id and the bytes that `DecodeChannelsOpRet` goes on to read: a blob of a
token opreturn, or the opreturn itself. -/
def channelsData (s : CScript) : Uint256 × Bytes :=
  match decodeTokenOpRet s with
  | some t =>
    let vOpretExtra := getOpretBlob t.oprets OPRETID_CHANNELSDATA
    if t.evalCodeTokens = EVAL_TOKENS ∧ vOpretExtra ≠ [] then (t.tokenid, vOpretExtra)
    else (t.tokenid, getOpReturnData s)
  | none => (0, getOpReturnData s)

/-- `DecodeChannelsOpRet`; its callers take a function id of zero for a failure. -/
def decodeChannelsOpRet (s : CScript) : Option ChannelsOpRet :=
  let (tokenid, vopret) := channelsData s
  if 2 < vopret.length ∧ vopret.head? = some EVAL_CHANNELS then
    (Unserialize.unmarshal vopret (readChannels tokenid)).filter (·.funcid ≠ 0)
  else none

namespace ContractEnv

variable (env : ContractEnv)

/-! ### The amounts -/

/-- Whether `vin.1` brings exactly what an amount computed from the outputs says. -/
def channelsExactInput (tx : CTransaction) (outputs : Checked ℤ) : Checked Bool := do
  let vin1 ← defined tx.vin[1]?
  match env.lookup vin1.prevout.hash with
  | none => pure false
  | some vinTx =>
    let spent ← defined vinTx.vout[vin1.prevout.n]?
    let outputs ← outputs
    pure (spent.nValue = outputs)

def channelsExactAmounts (tx : CTransaction) : Checked Bool :=
  match decodeChannelsOpRet (opretOf tx) with
  | none => pure false
  | some r =>
    if r.funcid = fid 'O' then pure true
    else if r.funcid = fid 'P' then
      env.channelsExactInput tx do
        let out0 ← defined tx.vout[0]?
        let out3 ← defined tx.vout[3]?
        pure (toInt64 (out0.nValue + out3.nValue))
    else if r.funcid = fid 'C' then
      env.channelsExactInput tx do
        let out0 ← defined tx.vout[0]?
        pure out0.nValue
    else if r.funcid = fid 'R' then
      env.channelsExactInput tx do
        let out2 ← defined tx.vout[2]?
        pure out2.nValue
    else pure false

/-! ### The validator -/

def channelAddress (o : ChannelsOpRet) : String :=
  env.ccAddress1of2 EVAL_CHANNELS o.srcpub o.destpub

/-- An output with a marker for one of the two parties. -/
def isChannelsMarker (out : CTxOut) (pk : CPubKey) : Bool :=
  env.constrainVout out true (some (env.ccAddress EVAL_CHANNELS pk)) CC_MARKER_VALUE

/-- What comes after an open transaction without outputs. Nothing of it is decoded, so that
`numpayments` was never set; but `vin.0` is read before that counts. -/
def channelOpenEmpty (channelOpenTx : CTransaction) (r : ChannelsOpRet) :
    Checked (CTransaction × ChannelsOpRet) :=
  if r.funcid = fid 'O' then .error (.invalid "unexpected ChannelsValidate for channelsopen!")
  else do
    let vin0 ← defined channelOpenTx.vin[0]?
    require (!env.isCCInput vin0.scriptSig) "vin.0 is normal for channelopen!"
    .error .undefined

/-- The open transaction that an opreturn names, with its own. -/
def channelOpen (r : ChannelsOpRet) : Checked (CTransaction × ChannelsOpRet) := do
  let channelOpenTx ← expect (env.lookup r.opentxid) "invalid channelopen tx!"
  match channelOpenTx.vout.getLast? with
  | none => env.channelOpenEmpty channelOpenTx r
  | some opret =>
    let o ← expect ((decodeChannelsOpRet opret.scriptPubKey).filter (·.funcid = fid 'O'))
      "invalid channelopen OP_RETURN data!"
    pure (channelOpenTx, o)

/-- The checks on the open transaction with which the three branches begin. -/
def openChecks (channelOpenTx : CTransaction) (r o : ChannelsOpRet) : Checked Unit := do
  let vin0 ← defined channelOpenTx.vin[0]?
  require (!env.isCCInput vin0.scriptSig) "vin.0 is normal for channelopen!"
  let out0 ← defined channelOpenTx.vout[0]?
  require (env.constrainVout out0 true (some (env.channelAddress o)) (toInt64 (o.param1 * o.param2)))
    "vout.0 is CC or invalid amount for channelopen!"
  let out1 ← defined channelOpenTx.vout[1]?
  require (env.isChannelsMarker out1 o.srcpub)
    "vout.1 is CC marker to srcpub or invalid amount for channelopen!"
  let out2 ← defined channelOpenTx.vout[2]?
  require (env.isChannelsMarker out2 o.destpub)
    "vout.2 is CC marker to destpub or invalid amount for channelopen!"
  require (env.txNotarizedConfirmed r.opentxid) "channelopen is not yet confirmed(notarised)!"

/-- The checks on the first input and on the last but one. -/
def inputChecks (tx : CTransaction) (normal cc : String) : Checked Unit := do
  let vin0 ← defined tx.vin[0]?
  require (!env.isCCInput vin0.scriptSig) normal
  let vin ← defined (if tx.vin.length < 2 then none else tx.vin[tx.vin.length - 2]?)
  require (env.isCCInput vin.scriptSig) ("vin." ++ toString (tx.vin.length - 2) ++ cc)

/-- The check that the last input spends a marker of the previous transaction. -/
def markerInput (tx prevTx : CTransaction) (name : String) : Checked Unit := do
  let message := "vin." ++ toString (tx.vin.length - 1)
    ++ " is CC marker or invalid marker amount for " ++ name ++ "!"
  let vin ← defined tx.vin.getLast?
  require (env.isMyVin EVAL_CHANNELS vin.scriptSig) message
  let marker ← defined prevTx.vout[vin.prevout.n]?
  require (marker.nValue = CC_MARKER_VALUE) message

/-- The opreturn of the previous transaction, which a branch reads if it finds it. -/
def previousOpRet (prevTx : CTransaction) : Checked ChannelsOpRet := do
  let opret ← defined prevTx.vout.getLast?
  expect (decodeChannelsOpRet opret.scriptPubKey) "invalid previous tx OP_RETURN data!"

/-- The steps from the secret of a payment to the end of the hash chain: the loop runs
`numpayments - param1` times, and without a round `hashdest` was never set. -/
def hashchainOf (o r : ChannelsOpRet) : Option Bytes :=
  let steps := (o.param1 - r.param1).bmod (2 ^ 32)
  if 0 < steps then some (env.sha256^[steps.toNat] (uint256Bytes r.param3)) else none

/-- The output that pays the receiver. -/
def paymentOutput (out3 : CTxOut) (o r : ChannelsOpRet) : Checked Unit :=
  if o.tokenid ≠ 0 then
    require (env.constrainVout out3 true (some (env.ccAddress EVAL_TOKENS o.destpub))
        (toInt64 (r.param2 * o.param2)))
      "vout.3 is CC or invalid amount or invalid receiver for channelpayment!"
  else
    require (env.constrainVout out3 false (some (env.normalAddress o.destpub))
        (toInt64 (r.param2 * o.param2)))
      "vout.3 is normal or invalid amount or invalid receiver for channelpayment!"

/-- The checks of a payment against the transaction behind `vin.1`. -/
def paymentPrevious (tx prevTx : CTransaction) (o r : ChannelsOpRet) (out3 : CTxOut) :
    Checked Unit := do
  let p ← previousOpRet prevTx
  let out0 ← defined tx.vout[0]?
  require (env.constrainVout out0 true (some (env.channelAddress o))
      (toInt64 ((p.param1 - r.param2) * o.param2)))
    "vout.0 is CC or invalid CC change amount for channelpayment!"
  env.markerInput tx prevTx "channelpayment"
  require (toInt64 (r.param1 + r.param2) = p.param1) "invalid payment depth!"
  let prev0 ← defined prevTx.vout[0]?
  require (out3.nValue ≤ prev0.nValue) "not enough funds in channel for that amount!"

/-- The checks of a payment on its own outputs and its secret. -/
def paymentChecks (tx : CTransaction) (o r : ChannelsOpRet) : Checked CTxOut := do
  let out1 ← defined tx.vout[1]?
  require (env.isChannelsMarker out1 o.srcpub)
    "vout.1 is CC marker to srcpub or invalid amount for channelpayment!"
  let out2 ← defined tx.vout[2]?
  require (env.isChannelsMarker out2 o.destpub)
    "vout.2 is CC marker to destpub or invalid amount for channelpayment!"
  let out3 ← defined tx.vout[3]?
  env.paymentOutput out3 o r
  require (r.param1 ≤ CHANNELS_MAXPAYMENTS) "too many payment increments!"
  let genhashchain ← defined (env.hashchainOf o r)
  require (uint256Bytes o.param3 = genhashchain)
    "invalid secret for payment, does not reach final hashchain!"
  require (out3.nValue = toInt64 (r.param2 * o.param2))
    "vout amount does not match number_of_payments*payment!"
  pure out3

/-- A check against the transaction behind `vin.1`, made only where it is found. -/
def withPrevious (tx : CTransaction) (check : CTransaction → Checked Unit) : Checked Unit := do
  let vin1 ← defined tx.vin[1]?
  match env.lookup vin1.prevout.hash with
  | none => pure ()
  | some prevTx => check prevTx

/-- `case 'P'`. -/
def channelPayment (tx channelOpenTx : CTransaction) (o r : ChannelsOpRet) : Checked Unit := do
  env.openChecks channelOpenTx r o
  env.inputChecks tx "vin.0 is normal for channelpayment!" " is CC for channelpayment!"
  let out3 ← env.paymentChecks tx o r
  env.withPrevious tx fun prevTx => env.paymentPrevious tx prevTx o r out3

/-- `case 'C'`. -/
def channelClose (tx channelOpenTx : CTransaction) (o r : ChannelsOpRet) : Checked Unit := do
  env.openChecks channelOpenTx r o
  env.inputChecks tx "vin.0 is normal for channelclose!" " is CC for channelclose!"
  let out0 ← defined tx.vout[0]?
  require (env.constrainVout out0 true (some (env.channelAddress o)) 0)
    "vout.0 is CC for channelclose!"
  let out1 ← defined tx.vout[1]?
  require (env.isChannelsMarker out1 o.srcpub)
    "vout.1 is CC marker to srcpub or invalid amount for channelclose!"
  let out2 ← defined tx.vout[2]?
  require (env.isChannelsMarker out2 o.destpub)
    "vout.2 is CC marker to destpub or invalid amount for channelclose!"
  require (r.param1 ≤ CHANNELS_MAXPAYMENTS) "too many payment increments!"
  env.withPrevious tx fun prevTx => do
    let _ ← previousOpRet prevTx
    env.markerInput tx prevTx "channelclose"
    let prev0 ← defined prevTx.vout[0]?
    require (out0.nValue = prev0.nValue) "invalid CC amount, amount must match funds in channel"

/-- The output that pays the sender back. -/
def refundOutput (out2 : CTxOut) (o r : ChannelsOpRet) : Checked Unit :=
  if o.tokenid ≠ 0 then
    require (env.constrainVout out2 true (some (env.ccAddress EVAL_TOKENS o.srcpub))
        (toInt64 (r.param1 * o.param2)))
      "vout.2 is CC or invalid amount or invalid receiver for channelrefund!"
  else
    require (env.constrainVout out2 false (some (env.normalAddress o.srcpub))
        (toInt64 (r.param1 * o.param2)))
      "vout.2 is normal or invalid amount or invalid receiver for channelrefund!"

/-- The checks of a refund after those on the two transactions it names. -/
def refundChecks (tx : CTransaction) (o r : ChannelsOpRet) : Checked Unit := do
  env.inputChecks tx "vin.0 is normal for channelrefund!" " CC for channelrefund!"
  let out0 ← defined tx.vout[0]?
  require (env.isChannelsMarker out0 o.srcpub)
    "vout.0 is CC marker to srcpub or invalid amount for channelrefund!"
  let out1 ← defined tx.vout[1]?
  require (env.isChannelsMarker out1 o.destpub)
    "vout.1 is CC marker to destpub or invalid amount for channelrefund!"
  let out2 ← defined tx.vout[2]?
  env.refundOutput out2 o r
  require (r.param1 ≤ CHANNELS_MAXPAYMENTS) "too many payment increments!"
  env.withPrevious tx fun prevTx => do
    let _ ← previousOpRet prevTx
    env.markerInput tx prevTx "channelrefund"
    let prev0 ← defined prevTx.vout[0]?
    require (out2.nValue = prev0.nValue)
      "invalid amount, refund amount and funds in channel must match!"

/-- `case 'R'`. -/
def channelRefund (tx channelOpenTx : CTransaction) (o r : ChannelsOpRet) : Checked Unit := do
  env.openChecks channelOpenTx r o
  require (env.txNotarizedConfirmed r.param3) "channelClose is not yet confirmed(notarised)!"
  env.refundChecks tx o r

def channelsValidate (tx : CTransaction) : Checked Unit := do
  require (tx.vout ≠ []) "no vouts"
  let exact ← env.channelsExactAmounts tx
  require exact "invalid channel inputs vs. outputs!"
  let r ← expect (decodeChannelsOpRet (opretOf tx)) "unexpected channels missing funcid"
  let (channelOpenTx, o) ← env.channelOpen r
  if r.funcid = fid 'O' then .error (.invalid "unexpected ChannelsValidate for channelsopen!")
  else if r.funcid = fid 'P' then env.channelPayment tx channelOpenTx o r
  else if r.funcid = fid 'C' then env.channelClose tx channelOpenTx o r
  else if r.funcid = fid 'R' then env.channelRefund tx channelOpenTx o r
  else .error (.invalid "unexpected channels funcid")

/-! ### What the branches check -/

variable {env : ContractEnv} {tx : CTransaction} {r : ChannelsOpRet}

theorem channelOpenEmpty_ne_ok {openTx : CTransaction} {opened : CTransaction × ChannelsOpRet} :
    env.channelOpenEmpty openTx r ≠ .ok opened := by
  unfold channelOpenEmpty
  split_ifs
  · nofun
  · simp [Checked.bind_eq_ok]

theorem channelOpen_eq_ok {openTx : CTransaction} {o : ChannelsOpRet}
    (h : env.channelOpen r = .ok (openTx, o)) :
    env.lookup r.opentxid = some openTx ∧ decodeChannelsOpRet (opretOf openTx) = some o
      ∧ o.funcid = fid 'O' := by
  unfold channelOpen at h
  obtain ⟨t, ht, h⟩ := Checked.bind_eq_ok.1 h
  cases hopret : t.vout.getLast? with
  | none =>
    rw [hopret] at h
    exact absurd h channelOpenEmpty_ne_ok
  | some opret =>
    simp only [hopret, Checked.bind_eq_ok, expect_eq_ok, Checked.pure_eq_ok, Prod.mk.injEq,
      Option.filter_eq_some_iff] at h
    obtain ⟨o', ⟨ho, hO⟩, rfl, rfl⟩ := h
    refine ⟨expect_eq_ok.1 ht, ?_, by simpa using hO⟩
    simp only [opretOf, hopret, Option.elim_some]
    exact ho

theorem channelsValidate_eq_ok (h : env.channelsValidate tx = .ok ()) :
    ∃ r openTx o, decodeChannelsOpRet (opretOf tx) = some r
      ∧ env.channelsExactAmounts tx = .ok true ∧ env.channelOpen r = .ok (openTx, o)
      ∧ (r.funcid = fid 'P' ∧ env.channelPayment tx openTx o r = .ok ()
        ∨ r.funcid = fid 'C' ∧ env.channelClose tx openTx o r = .ok ()
        ∨ r.funcid = fid 'R' ∧ env.channelRefund tx openTx o r = .ok ()) := by
  simp only [channelsValidate, Checked.bind_eq_ok, require_eq_ok, expect_eq_ok, exists_const] at h
  obtain ⟨-, exact, hexact, rfl, r, hr, ⟨openTx, o⟩, hopen, h⟩ := h
  refine ⟨r, openTx, o, hr, hexact, hopen, ?_⟩
  split_ifs at h with hO hP hC hR
  · exact .inl ⟨hP, h⟩
  · exact .inr (.inl ⟨hC, h⟩)
  · exact .inr (.inr ⟨hR, h⟩)

/-- The amounts behind `vin.1` and in the outputs of a payment. -/
theorem exactAmounts_payment (h : env.channelsExactAmounts tx = .ok true)
    (hr : decodeChannelsOpRet (opretOf tx) = some r) (hP : r.funcid = fid 'P') :
    ∃ vin1 vinTx spent out0 out3, tx.vin[1]? = some vin1
      ∧ env.lookup vin1.prevout.hash = some vinTx ∧ vinTx.vout[vin1.prevout.n]? = some spent
      ∧ tx.vout[0]? = some out0 ∧ tx.vout[3]? = some out3
      ∧ spent.nValue = toInt64 (out0.nValue + out3.nValue) := by
  have hO : ¬ r.funcid = fid 'O' := by rw [hP]; decide
  simp only [channelsExactAmounts, hr, if_neg hO, if_pos hP, channelsExactInput,
    Checked.bind_eq_ok, defined_eq_ok] at h
  obtain ⟨vin1, h1, h⟩ := h
  cases hv : env.lookup vin1.prevout.hash with
  | none => simp [hv, Checked.pure_eq_ok] at h
  | some vinTx =>
    simp only [hv, Checked.bind_eq_ok, defined_eq_ok, Checked.pure_eq_ok, decide_eq_true_eq] at h
    obtain ⟨spent, hspent, amount, ⟨out0, h0, out3, h3, rfl⟩, heq⟩ := h
    exact ⟨vin1, vinTx, spent, out0, out3, h1, hv, hspent, h0, h3, heq⟩

end ContractEnv

end Komodo
