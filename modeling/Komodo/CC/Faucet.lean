/-
# The faucet contract

`src/src/cc/faucet.cpp`: `IsFaucetvout`, `FaucetExactAmounts` and `FaucetValidate`.

Anyone may take a tenth of a coin from the faucet: every input spends an output of the
contract, what is not paid out goes back to it, and the transaction id has to begin and end
with a zero byte. The address that is paid must be a new one.
-/

import Komodo.CC.Checks

namespace Komodo

def EVAL_FAUCET : UInt8 := 0xe4

def FaucetCCaddr : String := "R9zHrofhRbub7ER77B7NrVch3A63R39GuC"

def FAUCETSIZE : ℤ := COIN.tdiv 10

/-- The fee of the contract's transactions. -/
def faucetTxfee : ℤ := 10000

/-- What `FaucetValidate` asks of the node. -/
structure FaucetEnv extends ContractEnv where
  /-- `SetCCtxids(…, coinaddr, ccflag)`: the transactions in the index of an address. -/
  txids : String → Bool → List Uint256

namespace FaucetEnv

variable (env : FaucetEnv)

/-- `IsFaucetvout` of an output. -/
def isFaucetvout (out : CTxOut) : ℤ :=
  if isPayToCryptoCondition out.scriptPubKey
      ∧ env.getscriptaddress out.scriptPubKey = some FaucetCCaddr then out.nValue
  else 0

/-- The input loop of `FaucetExactAmounts`. -/
def faucetInputs : List CTxIn → Checked ℤ
  | [] => pure 0
  | i :: vin =>
    if env.isMyVin EVAL_FAUCET i.scriptSig then do
      let (vinTx, hashBlock) ← expect (env.getTransaction i.prevout.hash) "cant find vinTx"
      require (hashBlock ≠ 0) "cant faucet from mempool"
      let out ← defined vinTx.vout[i.prevout.n]?
      let inputs ← faucetInputs vin
      pure (env.isFaucetvout out + inputs)
    else faucetInputs vin

/-- `FaucetExactAmounts`, which compares unsigned numbers. -/
def faucetExactAmounts (tx : CTransaction) : Checked Unit := do
  let inputs ← env.faucetInputs tx.vin
  let outputs := (tx.vout.map env.isFaucetvout).sum
  require (toUint64 inputs = toUint64 (outputs + FAUCETSIZE + faucetTxfee))
    "mismatched inputs != outputs + FAUCETSIZE + txfee"

/-- Whether the first and the last byte of a transaction id are zero. -/
def isFaucetTxid (txid : Uint256) : Bool := txid % 256 = 0 ∧ txid / 2 ^ 248 % 256 = 0

/-- Whether every transaction at an address is one of the last blocks. -/
def isNewAddress (scriptPubKey : CScript) : Bool :=
  (env.txids ((env.getscriptaddress scriptPubKey).getD "")
    (isPayToCryptoCondition scriptPubKey)).all fun txid =>
      ¬ (0 < (env.ccDuration txid).1 ∧ 3 < (env.ccDuration txid).2)

/-- Where the coins are paid: behind the change of the faucet, if there is any. -/
def payoutIndex (tx : CTransaction) : ℕ :=
  if (tx.vout.head?).elim 0 env.isFaucetvout ≠ 0 then 1 else 0

/-- `FaucetValidate`. The loop over the inputs looks at the first one each time. -/
def faucetValidate (tx : CTransaction) : Checked Unit := do
  require (tx.vout ≠ []) "no vouts"
  require ((tx.vin.head?).all fun i => env.isCCInput i.scriptSig) "illegal normal vini"
  env.faucetExactAmounts tx
  let out ← defined tx.vout[env.payoutIndex tx]?
  require (out.nValue = FAUCETSIZE) "invalid faucet output"
  require (isFaucetTxid tx.hash) "invalid faucetget txid"
  require (env.isNewAddress out.scriptPubKey) "faucet is only for brand new addresses"
  env.preventCC tx none (some (env.payoutIndex tx + 1))

end FaucetEnv

end Komodo
