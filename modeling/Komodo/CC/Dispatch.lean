/-
# From a condition to a validator

`src/src/cc/eval.cpp`: `RunCCEval` and `Eval::Dispatch`; `src/src/cc/CCutils.cpp`: `ProcessCC`,
`CClib_Dispatch` and `CCclearvars`; `src/src/cc/CCcustom.cpp`: `CCinit`.

The first byte of an eval condition is an eval code. Each of the 256 eval codes has a record,
`CCinfos[evalcode]`, that is made at its first use, lives as long as the process and is handed
to the validator. What `CCinit` derives from the eval code alone (the addresses and keys of the
contract, its `ismyvin` and its `validate`) is the same at every use; the models of the
validators hold it as constants, and `validator` is the table of the `validate` pointers. The
record here is the rest, what a use can change.

`CClib_validate`, `ImportPayout` and `ImportCoin` are parameters: they are handed a transaction
and the chain, and read no field of a record that a use can change.
-/

import Komodo.CC.Assets
import Komodo.CC.Channels
import Komodo.CC.Dice
import Komodo.CC.Faucet
import Komodo.CC.Heir
import Komodo.CC.Oracles
import Komodo.CC.Payments
import Komodo.CC.Rewards

namespace Komodo

/-! ### Verdicts -/

/-- What a validator returns and records; `none` where the language gives no meaning to what
it does. -/
abbrev Verdict := Option (EvalM Bool)

namespace Verdict

/-- `return eval->Invalid(message);` -/
def invalid (message : String) : Verdict := some (EvalM.invalid message)

/-- `return true;` -/
def valid : Verdict := some (pure true)

/-- A verdict with what was recorded before it. -/
def after (recorded : List String) (verdict : Verdict) : Verdict :=
  verdict.map fun m => ⟨m.val, recorded ++ m.recorded⟩

end Verdict

/-- The verdict of a chain of checks, which records when it rejects and only then. -/
def Checked.verdict : Checked Unit → Verdict
  | .ok () => Verdict.valid
  | .error (.invalid message) => Verdict.invalid message
  | .error .undefined => none

/-! ### The records -/

/-- The fields of `struct CCcontract_info` that a use can change. -/
structure CCContractInfo where
  evalcode : UInt8
  additionalTokensEvalcode2 : UInt8
  coins1of2addr : String
  coins1of2pk : CPubKey × CPubKey
  tokens1of2addr : String
  tokens1of2pk : CPubKey × CPubKey
  unspendableEvalcode2 : UInt8
  unspendableEvalcode3 : UInt8
  unspendableaddr2 : String
  unspendableaddr3 : String
  didinit : Bool
deriving DecidableEq

/-- A record with all bytes zero, as they are when the process starts. -/
def CCContractInfo.zero : CCContractInfo :=
  ⟨0, 0, "", ([], []), "", ([], []), 0, 0, "", "", false⟩

/-- `CCinit`, which clears the record first. -/
def ccInit (evalcode : UInt8) : CCContractInfo := { CCContractInfo.zero with evalcode := evalcode }

/-- `CCclearvars`. -/
def CCContractInfo.clearvars (cp : CCContractInfo) : CCContractInfo :=
  { cp with
    unspendableEvalcode2 := 0
    unspendableEvalcode3 := 0
    unspendableaddr2 := ""
    unspendableaddr3 := "" }

abbrev CCinfos := UInt8 → CCContractInfo

/-- `CCinfos` when the process starts. -/
def CCinfos.start : CCinfos := fun _ => CCContractInfo.zero

/-- The record of an eval code, made by `CCinit` at its first use. -/
def CCinfos.use (infos : CCinfos) (evalcode : UInt8) : CCContractInfo :=
  if (infos evalcode).didinit then infos evalcode else { ccInit evalcode with didinit := true }

/-! ### The node -/

def EVAL_IMPORTPAYOUT : UInt8 := 0xe1
def EVAL_FSM : UInt8 := 0xe7
def EVAL_AUCTION : UInt8 := 0xe8
def EVAL_LOTTO : UInt8 := 0xe9
def EVAL_IMPORTGATEWAY : UInt8 := 0xf3
def EVAL_FIRSTUSER : UInt8 := 0x10
def EVAL_LASTUSER : UInt8 := 0x7f

/-- The library of contracts that was compiled into the process. -/
structure CCLib where
  /-- `MYCCLIBNAME`, which `CClib_name` returns. -/
  name : String
  /-- Whether `CClib_initcp` finds the keys of an eval code. -/
  initcp : UInt8 → Bool

/-- The state of a node and of its chain at one call: what the validators ask of it, its
parameters, and the code outside this development. -/
structure NodeEnv extends PaymentsEnv where
  /-- `chainName`. -/
  symbol : String
  /-- `komodo_hardfork_active(GetLatestTimestamp(eval->GetCurrentHeight()))`. -/
  hardforkActive : Bool
  /-- `SetCCunspents(…, coinaddr, true)`. -/
  unspents : String → List (Uint256 × ℤ)
  /-- `SetCCunspents(…, coinaddr, false)`. -/
  normalUnspents : String → List (Uint256 × ℤ)
  /-- `SetCCtxids(…, coinaddr, ccflag)`. -/
  txids : String → Bool → List Uint256
  /-- `GetLatestTimestamp(eval->GetCurrentHeight())`. -/
  latestTimestamp : ℤ
  /-- `KOMODO_CONNECTING`, an `int32_t`. -/
  connecting : ℤ
  /-- `KOMODO_CCACTIVATE`. -/
  ccActivate : ℤ
  assetchainsCC : ℕ
  /-- `ASSETCHAINS_CCDISABLES`. -/
  ccDisables : UInt8 → Bool
  /-- `mapHeightEvalActivate`. -/
  heightEvalActivate : UInt8 → ℤ
  assetchainsCCLIB : String
  /-- `CClib_validate`, for an eval code and a height. -/
  cclibValidate : UInt8 → ℤ → CTransaction → ℕ → Verdict
  importPayout : Bytes → CTransaction → ℕ → Verdict
  importCoin : Bytes → CTransaction → ℕ → Verdict

namespace NodeEnv

variable (node : NodeEnv)

/-- The node as the rewards contract sees it. -/
def rewardsEnv : RewardsEnv := { node.toChainEnv with hardforkActive := node.hardforkActive }

/-- The node as the faucet sees it. -/
def faucetEnv : FaucetEnv := { node.toContractEnv with txids := node.txids }

/-- The node as the heir contract sees it. It makes its addresses with records of its own. -/
def heirEnv : HeirEnv := { node.toContractEnv with unspents := node.unspents }

/-- The node as the oracles contract sees it. -/
def oraclesEnv : OraclesEnv :=
  { node.toContractEnv with
    normalUnspents := node.normalUnspents
    latestTimestamp := node.latestTimestamp }

/-- The node as the gateways contract sees it with its record. -/
def gatewaysEnv (cp : CCContractInfo) : GatewaysEnv :=
  { node.toCCEnv with
    getscriptaddress := node.getscriptaddress
    txNotarizedConfirmed := node.txNotarizedConfirmed
    lookup := node.lookup
    additionalTokensEvalcode2 := cp.additionalTokensEvalcode2 }

/-- The chain as the tokens contract sees it. -/
def chainContext : ChainContext := ⟨node.symbol, node.tip.nHeight, node.lookup⟩

/-! ### The validators -/

/-- The token of a transaction whose opreturn `AssetsValidate` decodes. -/
def assetOf (tx : CTransaction) : Option Uint256 :=
  if node.assetsExempt node.symbol ∨ tx.vout = [] then none
  else (decodeAssetTokenOpRet (opretOf tx)).map AssetOpRet.assetid

/-- `AssetsValidate`, with what it writes to its record: once it knows the token, whether the
transaction passes or not. -/
def validateAssets (cp : CCContractInfo) (tx : CTransaction) : Verdict × CCContractInfo :=
  (Checked.verdict (node.assetsValidate cp.additionalTokensEvalcode2 node.symbol tx),
    match node.assetOf tx with
    | some assetid =>
      { cp with
        additionalTokensEvalcode2 := node.assetsEvalcode2 cp.additionalTokensEvalcode2 assetid }
    | none => cp)

/-- What `DiceAmounts` records. -/
def diceAmountsRecorded (tx : CTransaction) (refsbits : ℕ) (reffundingtxid : Uint256) :
    List String :=
  match node.diceInputs refsbits reffundingtxid tx.vin 0 with
  | .ok (_, false) => ["always should find vin, but didnt"]
  | _ => []

/-- The function ids for which `DiceValidate` calls `DiceAmounts`. -/
def isDiceSettlement (funcid : UInt8) : Bool :=
  funcid = fid 'L' ∨ funcid = fid 'W' ∨ funcid = fid 'T'

/-- `DiceValidate`, with what `DiceAmounts` records: the call is made for the amounts, and what
it returns is not looked at. -/
def validateDice (tx : CTransaction) : Verdict :=
  match node.dicePlanOf tx with
  | .ok (r, plan, _) =>
    if isDiceSettlement r.funcid then
      (Checked.verdict (node.diceValidate tx)).after
        (node.diceAmountsRecorded tx plan.sbits r.fundingtxid)
    else Checked.verdict (node.diceValidate tx)
  | .error _ => Checked.verdict (node.diceValidate tx)

/-- The validators of the contracts that do not write to their record. -/
def validateOther (evalcode : UInt8) (cp : CCContractInfo) (tx : CTransaction) : Option Verdict :=
  if evalcode = EVAL_FAUCET then some (Checked.verdict (node.faucetEnv.faucetValidate tx))
  else if evalcode = EVAL_REWARDS then some (Checked.verdict (node.rewardsEnv.rewardsValidate tx))
  else if evalcode = EVAL_DICE then some (node.validateDice tx)
  else if evalcode = EVAL_FSM ∨ evalcode = EVAL_AUCTION ∨ evalcode = EVAL_LOTTO then
    some (Verdict.invalid "no validation yet")
  else if evalcode = EVAL_HEIR then some (Checked.verdict (node.heirEnv.heirValidate tx))
  else if evalcode = EVAL_CHANNELS then some (Checked.verdict (node.channelsValidate tx))
  else if evalcode = EVAL_ORACLES then
    some (Checked.verdict (node.oraclesEnv.oraclesValidate tx))
  else if evalcode = EVAL_PAYMENTS then some (Checked.verdict (node.paymentsValidate tx))
  else if evalcode = EVAL_GATEWAYS then some (some (gatewaysValidate (node.gatewaysEnv cp) tx))
  else if evalcode = EVAL_TOKENS then
    some (some (tokensValidate node.toCCEnv node.chainContext tx))
  -- `ImportGatewayValidate` begins with `return (true);`
  else if evalcode = EVAL_IMPORTGATEWAY then some Verdict.valid
  else none

/-- `(*cp->validate)(cp,eval,ctx,nIn)`, with the record as it is left; `none` where `CCinit`
sets no validator. -/
def validator (evalcode : UInt8) (cp : CCContractInfo) (tx : CTransaction) :
    Option (Verdict × CCContractInfo) :=
  if evalcode = EVAL_ASSETS then some (node.validateAssets cp tx)
  else (node.validateOther evalcode cp tx).map fun verdict => (verdict, cp)

/-! ### `Eval::Dispatch` -/

/-- Whether the contracts are active, for the height that is being connected: bit 30 of
`KOMODO_CONNECTING` marks a transaction of the mempool. -/
def ccActive : Bool := node.assetchainsCC ≠ 0 ∧ node.ccActivate ≤ node.connecting % 2 ^ 30

def processCC (evalcode : UInt8) (cp : CCContractInfo) (paramsNull : Bytes) (ctx : CTransaction) :
    Verdict × CCContractInfo :=
  if node.connecting < 0 then (Verdict.valid, cp)
  else if ¬ node.ccActive then (Verdict.invalid "CC are disabled or not active yet", cp)
  else match node.validator evalcode cp.clearvars ctx with
  | none => (Verdict.invalid "validation not supported for eval code", cp)
  | some result =>
    if paramsNull ≠ [] then (Verdict.invalid "Cannot have params", cp.clearvars) else result

def cclibDispatch (lib : CCLib) (evalcode : UInt8) (cp : CCContractInfo) (paramsNull : Bytes)
    (txTo : CTransaction) (nIn : ℕ) : Verdict × CCContractInfo :=
  if node.assetchainsCCLIB ≠ lib.name then
    (Verdict.invalid "-ac_cclib name mismatches myname", cp)
  else if node.connecting < 0 then (Verdict.valid, cp)
  else if ¬ node.ccActive then (Verdict.invalid "CC are disabled or not active yet", cp)
  else if ¬ cp.didinit ∧ ¬ lib.initcp evalcode then
    (Verdict.invalid "unsupported CClib evalcode", { cp with evalcode := evalcode })
  else
    let cp := { cp with evalcode := evalcode, didinit := true }
    if paramsNull ≠ [] then (Verdict.invalid "Cannot have params", cp.clearvars)
    else (node.cclibValidate evalcode (node.connecting % 2 ^ 30) txTo nIn, cp.clearvars)

/-- Whether an eval code is switched off, and not switched on again by the height. -/
def isDisabled (ecode : UInt8) : Bool :=
  node.ccDisables ecode ∧ (node.heightEvalActivate ecode = 0 ∨ node.tip.nHeight = 0
    ∨ node.tip.nHeight % 2 ^ 32 < node.heightEvalActivate ecode % 2 ^ 32)

/-- Whether an eval code belongs to the library of the chain. -/
def isUserCode (ecode : UInt8) : Bool := EVAL_FIRSTUSER ≤ ecode ∧ ecode ≤ EVAL_LASTUSER

/-- The `switch` of `Eval::Dispatch`. -/
def dispatchCode (ecode : UInt8) (cp : CCContractInfo) (vparams : Bytes) (txTo : CTransaction)
    (nIn : ℕ) : Verdict × CCContractInfo :=
  if ecode = EVAL_IMPORTPAYOUT then (node.importPayout vparams txTo nIn, cp)
  else if ecode = EVAL_IMPORTCOIN then (node.importCoin vparams txTo nIn, cp)
  else node.processCC ecode cp vparams txTo

/-- `Eval::Dispatch` on the code of a condition: the verdict, and the records after it. -/
def dispatch (lib : CCLib) (infos : CCinfos) (code : Bytes) (txTo : CTransaction) (nIn : ℕ) :
    Verdict × CCinfos :=
  match code with
  | [] => (Verdict.invalid "empty-eval", infos)
  | ecode :: vparams =>
    if node.isDisabled ecode then
      (Verdict.invalid "disabled-code, -ac_ccenables didnt include this ecode", infos)
    else if isUserCode ecode then
      if node.assetchainsCCLIB ≠ "" ∧ node.assetchainsCCLIB = lib.name then
        let result := node.cclibDispatch lib ecode (infos ecode) vparams txTo nIn
        (result.1, Function.update infos ecode result.2)
      else (Verdict.invalid "mismatched -ac_cclib vs CClib_name", infos)
    else
      let result := node.dispatchCode ecode (infos.use ecode) vparams txTo nIn
      (result.1, Function.update infos ecode result.2)

/-- `RunCCEval`: whether nothing was recorded. -/
def runCCEval (lib : CCLib) (infos : CCinfos) (code : Bytes) (tx : CTransaction) (nIn : ℕ) :
    Option Bool :=
  (node.dispatch lib infos code tx nIn).1.map fun m => m.recorded = []

end NodeEnv

end Komodo
