/-
# The heir contract

`src/src/cc/heir.cpp`: the opreturns, `CheckVinPubkey`, `_FindLatestFundingTx`,
`RunValidationPlans` and `HeirValidate`; the framework of
`src/src/cc/heir_validate.h`: `CInputValidationPlan`, `COutputValidationPlan` and the
validators; and `check_signing_pubkey` of `src/src/cc/CCutils.cpp`.

A plan is an `'F'` transaction that names an owner, an heir and an inactivity time and pays
to the 1of2 address of the two. Funds are added by an `'A'` and spent by a `'C'`, which name
the `'F'`. The heir should be able to spend only when the owner has been inactive for that
long, or once it has begun to.

A validation plan is a list of rows. An input row takes the inputs that its identifier
accepts, as many as follow each other, and each of its validators looks at every one of
them; inputs after the last row are not looked at. Plans are for coins or for tokens, which
differ in the addresses (`Helper`).
-/

import Komodo.CC.Checks
import Komodo.CC.Tokens

namespace Komodo

/-! ### The opreturns -/

def EVAL_HEIR : UInt8 := 0xea

def OPRETID_HEIRDATA : UInt8 := 0x15

/-- What `_DecodeHeirEitherOpRet` returns. An `'F'` sets the keys and the time, an `'A'` or a
`'C'` the funding transaction and the flag. -/
structure HeirOpRet where
  funcid : UInt8
  tokenid : Uint256
  ownerPubkey : CPubKey
  heirPubkey : CPubKey
  /-- `none` where it was never set. -/
  inactivityTime : Option ℤ
  fundingTxid : Uint256
  hasHeirSpendingBegun : UInt8
deriving DecidableEq, Repr

/-- The reads of a heir opreturn. -/
def readHeir (tokenid : Uint256) : Unserialize HeirOpRet := do
  let _ ← Unserialize.uint8
  let funcid ← Unserialize.uint8
  if funcid = fid 'F' then do
    let ownerPubkey ← CPubKey.unserialize
    let heirPubkey ← CPubKey.unserialize
    let inactivityTime ← Unserialize.int 8
    let _ ← Unserialize.vector
    let _ ← Unserialize.vector
    pure ⟨funcid, tokenid, ownerPubkey, heirPubkey, some inactivityTime, 0, 0⟩
  else do
    let fundingTxid ← Unserialize.uint256
    let hasHeirSpendingBegun ← Unserialize.uint8
    pure ⟨funcid, tokenid, [], [], none, revuint256 fundingTxid, hasHeirSpendingBegun⟩

def decodeHeirOpRet (tokenid : Uint256) (vopret : Bytes) : Option HeirOpRet :=
  if 1 < vopret.length ∧ vopret.head? = some EVAL_HEIR then
    (Unserialize.unmarshal vopret (readHeir tokenid)).filter
      (·.funcid ∈ "FAC".toList.map fid)
  else none

/-- `_DecodeHeirEitherOpRet`: a blob of a token opreturn, or the opreturn itself. -/
def decodeHeirEitherOpRet (scriptPubKey : CScript) : Option HeirOpRet :=
  match decodeTokenOpRet scriptPubKey with
  | some t =>
    let vopretExtra := getOpretBlob t.oprets OPRETID_HEIRDATA
    decodeHeirOpRet t.tokenid (if vopretExtra = [] then getOpReturnData scriptPubKey else vopretExtra)
  | none => decodeHeirOpRet 0 (getOpReturnData scriptPubKey)

/-! ### The latest transaction of a plan -/

/-- What the heir validator reads besides the chain. -/
structure HeirEnv extends ContractEnv where
  /-- `SetCCunspents(…, coinaddr, true)`: for each unspent output of a crypto condition at an
  address its transaction and the height of its block. -/
  unspents : String → List (Uint256 × ℤ)

/-- `check_signing_pubkey`: the first key in the fulfillment; empty if there is none. -/
def CCEnv.checkSigningPubkey (env : CCEnv) (scriptSig : CScript) : CPubKey :=
  ((env.getCryptoCondition scriptSig).bind (CC.visit env.findPubKey)).getD []

/-- `CheckVinPubkey`: whether a key signs an input, and whether another one does. -/
def CCEnv.checkVinPubkey (env : CCEnv) (vins : List CTxIn) (pubkey : CPubKey) : Bool × Bool :=
  let signers := (vins.map fun vin => env.checkSigningPubkey vin.scriptSig).filter CPubKey.isValid
  (pubkey ∈ signers, signers.any (· ≠ pubkey))

/-- The variables of the loop of `_FindLatestFundingTx`. -/
structure LatestTx where
  maxBlockHeight : ℤ
  latesttxid : Uint256
  hasHeirSpendingBegun : UInt8
deriving DecidableEq, Repr

namespace HeirEnv

variable (env : HeirEnv)

/-- The opreturn of a transaction that the loop takes for one of the plan by the owner alone;
`none` for any other, such as a donation. -/
def ownerOpRet (fundingtxid : Uint256) (funding : HeirOpRet) (txid : Uint256) : Option HeirOpRet := do
  let regtx ← env.lookup txid
  let d ← decodeHeirEitherOpRet (opretOf regtx)
  if d.fundingTxid = fundingtxid ∧ (funding.tokenid = 0 ∨ funding.tokenid = d.tokenid)
      ∧ env.checkVinPubkey regtx.vin funding.ownerPubkey = (true, false) then some d
  else none

/-- One round of the loop. -/
def latestStep (fundingtxid : Uint256) (funding : HeirOpRet) (latest : LatestTx)
    (unspent : Uint256 × ℤ) : LatestTx :=
  match env.ownerOpRet fundingtxid funding unspent.1 with
  | some d =>
    if latest.maxBlockHeight < unspent.2 then ⟨unspent.2, unspent.1, d.hasHeirSpendingBegun⟩
    else latest
  | none => latest

/-- The loop of `_FindLatestFundingTx`. It looks at the address for coins also when the plan
is one for tokens. -/
def findLatestFundingTx (fundingtxid : Uint256) (funding : HeirOpRet) : LatestTx :=
  (env.unspents (env.ccAddress1of2 EVAL_HEIR funding.ownerPubkey funding.heirPubkey)).foldl
    (env.latestStep fundingtxid funding) ⟨0, fundingtxid, 0⟩

/-! ### The validators -/

/-- `CoinHelper` and `TokenHelper`. -/
inductive Helper
  | coin
  | token
deriving DecidableEq, Repr

/-- `Helper::makeUserVout`: where the owner or the heir is paid. -/
def makeUserScript : Helper → CPubKey → CScript
  | .coin, pk => payToPubkey pk
  | .token, pk => env.ccPubKey (makeCCcond1 EVAL_TOKENS pk)

/-- `Helper::GetCoinsOrTokensCCaddress1of2`. -/
def address1of2 : Helper → CPubKey → CPubKey → String
  | .coin, owner, heir => env.ccAddress1of2 EVAL_HEIR owner heir
  | .token, owner, heir => env.tokensAddress1of2 EVAL_HEIR 0 owner heir

/-- A failed validator's message, put after what it was about. -/
def about (what : String) (check : Checked Unit) : Checked Unit :=
  match check with
  | .error (.invalid message) => .error (.invalid (what ++ message))
  | result => result

/-- `CCC1of2AddressValidator`. -/
def cc1of2Address (h : Helper) (fundingOpretScript : CScript) (vout : CTxOut) : Checked Unit :=
  about "checking this tx opreturn:" do
    let funding ← expect (decodeHeirEitherOpRet fundingOpretScript) " invalid opreturn format"
    require (isPayToCryptoCondition vout.scriptPubKey)
      " incorrect heir funding address: not a 1of2addr"
    require (env.getscriptaddress vout.scriptPubKey
        = some (env.address1of2 h funding.ownerPubkey funding.heirPubkey))
      " incorrect heir funding address: incorrect pubkey(s)"

/-- `CMyPubkeyVoutValidator<TokenHelper>`. -/
def ownerCCaddr (fundingOpretScript : CScript) (vout : CTxOut) : Checked Unit := do
  let funding ← expect (decodeHeirEitherOpRet fundingOpretScript) "invalid opreturn format"
  require (vout.scriptPubKey = env.makeUserScript .token funding.ownerPubkey
    ∨ vout.scriptPubKey = env.makeUserScript .token funding.heirPubkey) "invalid pubkey"

/-- `CHeirSpendValidator`. An output of any other form than the heir's is taken for one of the
owner. -/
def heirSpend (h : Helper) (fundingOpretScript : CScript) (latesttxid : Uint256)
    (isHeirSpendingBegan : UInt8) (vout : CTxOut) : Checked Unit := do
  let funding ← expect (decodeHeirEitherOpRet fundingOpretScript) "invalid opreturn format"
  if vout.scriptPubKey = env.makeUserScript h funding.heirPubkey ∧ isHeirSpendingBegan = 0 then do
    let inactivityTime ← defined funding.inactivityTime
    require (inactivityTime < (env.ccDuration latesttxid).1)
      "heir is not allowed yet to spend funds"
  else pure ()

/-- `COpRetValidator`; every function id that is decoded is one of the contract. -/
def opRet (h : Helper) (fundingOpretScript : CScript) (vout : CTxOut) : Checked Unit := do
  let d ← expect (decodeHeirEitherOpRet vout.scriptPubKey) "invalid opreturn format"
  let initial ← expect (decodeHeirEitherOpRet fundingOpretScript)
    "invalid initial tx opreturn format"
  require (h = .coin ∨ d.tokenid = initial.tokenid) "invalid tokenid in opret"

/-- `CMarkerValidator`. -/
def marker (prevTx : CTransaction) (vin : CTxIn) : Checked Unit :=
  require (¬ ((decodeHeirEitherOpRet (opretOf prevTx)).map HeirOpRet.funcid = some (fid 'F')
    ∧ vin.prevout.n = 1)) "spending marker not allowed"

/-! ### Validation plans -/

/-- A row of an input plan: its identifier and what its validators check of an input, given
the previous transaction. -/
structure InputRow where
  inputName : String
  identifyInput : CTxIn → Bool
  validate : CTransaction → CTxIn → Checked Unit

/-- The validators of a row for one input, the number of which is `iv`. -/
def execInput (row : InputRow) (iv : ℕ) (vin : CTxIn) : Checked Unit := do
  let prevTx ← expect (env.lookup vin.prevout.hash)
    ("can't find vinTx for vin=" ++ toString iv ++ ".")
  about ("invalid tx vin[" ++ toString iv ++ "]:") (row.validate prevTx vin)

/-- The inputs that a row takes, from number `iv` on. -/
def execInputs (row : InputRow) : (iv : ℕ) → List CTxIn → Checked Unit
  | _, [] => pure ()
  | iv, vin :: vins => do
    env.execInput row iv vin
    execInputs row (iv + 1) vins

/-- `CInputValidationPlan::validate`, from input number `iv` on. -/
def validateInputs : List InputRow → (iv : ℕ) → List CTxIn → Checked Unit
  | [], _, _ => pure ()
  | row :: rows, iv, vins => do
    require (vins ≠ []) "incorrect tx structure: not all required vins are present."
    let identified := vins.takeWhile row.identifyInput
    env.execInputs row iv identified
    require (identified ≠ []) ("can't find required vins for " ++ row.inputName ++ ".")
    validateInputs rows (iv + identified.length) (vins.dropWhile row.identifyInput)

/-- `COutputValidationPlan::validate`: rows of an output number and a validator. -/
def validateOutputs (tx : CTransaction) : List (ℕ × (CTxOut → Checked Unit)) → Checked Unit
  | [] => pure ()
  | (ivout, validate) :: rows => do
    let vout ← expect tx.vout[ivout]?
      "incorrect tx structure: not all required vouts are present."
    about ("invalid tx vout[" ++ toString ivout ++ "]:") (validate vout)
    validateOutputs tx rows

/-- The row for normal inputs, with `CNullValidator`. -/
def normalRow : InputRow where
  inputName := "normal input"
  identifyInput vin := !env.isCCInput vin.scriptSig
  validate prevTx vin := do
    let _ ← defined prevTx.vout[vin.prevout.n]?
    pure ()

/-- The row for inputs of crypto conditions. -/
def ccRow (validate : CTxOut → Checked Unit) : InputRow where
  inputName := "CC input"
  identifyInput vin := env.isCCInput vin.scriptSig
  validate prevTx vin := do
    marker prevTx vin
    let vout ← defined prevTx.vout[vin.prevout.n]?
    validate vout

/-- What `HeirValidate` finds out before it runs a plan. -/
structure Found where
  latestTxid : Uint256
  fundingOpretScript : CScript
  hasHeirSpendingBegun : UInt8

/-- `RunValidationPlans` for a `'C'`. -/
def validateSpend (h : Helper) (found : Found) (tx : CTransaction) : Checked Unit := do
  env.validateInputs [env.normalRow, env.ccRow (env.cc1of2Address h found.fundingOpretScript)]
    0 tx.vin
  validateOutputs tx
    [(0, env.heirSpend h found.fundingOpretScript found.latestTxid found.hasHeirSpendingBegun),
     (tx.vout.length - 1, opRet h found.fundingOpretScript)]

/-- `RunValidationPlans` for an `'A'`, which is for tokens only. -/
def validateAdd (found : Found) (tx : CTransaction) : Checked Unit := do
  env.validateInputs [env.normalRow, env.ccRow (env.ownerCCaddr found.fundingOpretScript)]
    0 tx.vin
  validateOutputs tx
    [(0, env.cc1of2Address .token found.fundingOpretScript),
     (tx.vout.length - 1, opRet .token found.fundingOpretScript)]

/-- `HeirValidate` for an `'A'` or a `'C'`. -/
def validateHeirTx (tx : CTransaction) (d : HeirOpRet) : Checked Unit := do
  require (d.fundingTxid ≠ 0) "incorrect tx opreturn: no fundingtxid present"
  let fundingtx ← expect (env.lookup d.fundingTxid) "no fundingtx found"
  let funding ← expect (decodeHeirEitherOpRet (opretOf fundingtx)) "no fundingtx found"
  let latest := env.findLatestFundingTx d.fundingTxid funding
  require (funding.tokenid = 0 ∨ funding.tokenid = d.tokenid) "incorrect tx tokenid"
  require (latest.latesttxid ≠ 0) "no fundingtx found"
  let found : Found := ⟨latest.latesttxid, opretOf fundingtx, latest.hasHeirSpendingBegun⟩
  if d.funcid = fid 'A' then
    if funding.tokenid ≠ 0 then env.validateAdd found tx
    else .error (.invalid "unexpected HeirValidate for heiradd")
  else env.validateSpend (if funding.tokenid ≠ 0 then .token else .coin) found tx

/-- `HeirValidate`. An `'F'` never gets to a plan: the token id is set by
`FindLatestFundingTx`, which is not called for it. -/
def heirValidate (tx : CTransaction) : Checked Unit := do
  require (tx.vout ≠ []) "no vouts"
  let d ← expect (decodeHeirEitherOpRet (opretOf tx)) "invalid opreturn format"
  if d.funcid = fid 'F' then .error (.invalid "unexpected HeirValidate for heirfund")
  else env.validateHeirTx tx d

end HeirEnv

end Komodo
