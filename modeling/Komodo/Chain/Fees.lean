/-
# The fee of a transaction, computed twice

`CTransaction::GetValueOut` and `GetShieldedValueIn` of
`src/src/primitives/transaction.cpp`, `CCoinsViewCache::GetTransparentValueIn`
and `GetValueIn` of `src/src/coins.cpp`, `GetSpendHeight`,
`Consensus::CheckTxInputs` and the fee that `ConnectBlock` adds to `nFees` of
`src/src/main.cpp`.

Both computations add the interest of the inputs to their values from a height
on. `CheckTxInputs` takes the height of the best block of the view, and
`ConnectBlock` that of `chainActive.Tip()`. The two blocks are the same when the
tip is connected and in `TestBlockValidity`. The last pass of `VerifyDB`
connects blocks to a view whose best block is below the tip, and there the fees
differ when the view is below height 60000, the tip is not, and an input has
interest (`connectFee_iff`).

Amounts are `ℤ`: `MoneyRange` and `komodoInterest_le` keep every sum of a transaction that passes
within `int64_t`.
-/

import Komodo.Chain.ConnectBlock
import Komodo.Chain.Interest
import Komodo.Lib.Completes

namespace Komodo
namespace Fees

open List

open Runs (bind_eq_ok)

/-- How a computation ends without a result. -/
inductive Failure
  /-- `CValidationState::DoS` and `Invalid`. -/
  | invalid (nDoS chRejectCode : ℕ) (strRejectReason : String)
  /-- A `std::runtime_error`. -/
  | exception (what : String)
  /-- A failed assertion. -/
  | assertion
deriving DecidableEq, Repr

def REJECT_INVALID : ℕ := 0x10

/-- The node and the settings that the checks of the inputs read. -/
structure Env extends Node where
  maxMoney : ℤ
  /-- `ASSETCHAINS_TIMELOCKGTE`. -/
  timelockGTE : ℕ
  /-- `ASSETCHAINS_TIMEUNLOCKFROM`. -/
  timeUnlockFrom : ℕ
  /-- `ASSETCHAINS_TIMEUNLOCKTO`. -/
  timeUnlockTo : ℕ
  /-- `komodo_block_prg`: a number drawn from the hash of the chain's magic and
  the height. -/
  komodoBlockPrg : ℕ → ℕ
  /-- `Params().CoinbaseMaturity()`. -/
  coinbaseMaturity : ℕ
  fCoinbaseEnforcedProtectionEnabled : Bool
  fCoinbaseMustBeProtected : Bool
  /-- `GetCoinImportValue`, of an import transaction. -/
  getCoinImportValue : CTransaction → ℤ

namespace Env

variable {T : ShieldedType → Type} [∀ s, MerkleTree (T s)] (env : Env)

/-! ### Values of a transaction -/

def moneyRange (nValue : ℤ) : Bool := 0 ≤ nValue && nValue ≤ env.maxMoney

/-- Fail when the test is true. -/
def failIf (test : Bool) (failure : Failure) : Except Failure Unit :=
  if test then .error failure else .ok ()

/-- Add an amount to a sum; both have to be in range. -/
def addValue (what : String) (sum nValue : ℤ) : Except Failure ℤ := do
  failIf (!env.moneyRange nValue || !env.moneyRange (sum + nValue)) (.exception what)
  return sum + nValue

def getValueOut (tx : CTransaction) : Except Failure ℤ := do
  let add := env.addValue "CTransaction::GetValueOut(): value out of range"
  let nValueOut ← tx.vout.foldlM (fun sum out => add sum out.nValue) 0
  let nValueOut ← if tx.valueBalance ≤ 0 then add nValueOut (-tx.valueBalance) else .ok nValueOut
  tx.vjoinsplit.foldlM (fun sum js => add sum js.vpubOld) nValueOut

def getShieldedValueIn (tx : CTransaction) : Except Failure ℤ := do
  let add := env.addValue "CTransaction::GetShieldedValueIn(): value out of range"
  let nValue ← if 0 ≤ tx.valueBalance then add 0 tx.valueBalance else .ok 0
  tx.vjoinsplit.foldlM (fun sum js => add sum js.vpubNew) nValue

/-- The interest of an output, as both computations take it: that of
`komodo_accrued_interest` as an `int64_t`, from 10 coins on. -/
def outputInterest (prevout : COutPoint) (value : ℤ) (tipheight : ℕ) : ℤ :=
  if env.isKMD ∧ 10 * COIN ≤ value then
    Int.bmod (env.komodoAccruedInterest prevout.hash prevout.n 0 (toUint64 value) tipheight) (2 ^ 64)
  else 0

def getOutputFor (inputs : FlatView) (input : CTxIn) : Except Failure CTxOut :=
  if (inputs.coins input.prevout.hash).isAvailable input.prevout.n then
    match (inputs.coins input.prevout.hash).vout[input.prevout.n]? with
    | some out => .ok out
    | none => .error .assertion
  else .error .assertion

/-- `CCoinsViewCache::GetTransparentValueIn`: the value and the interest in it. -/
def getTransparentValueIn (nHeight : ℕ) (inputs : FlatView) (tx : CTransaction) :
    Except Failure (ℤ × ℤ) :=
  if tx.isCoinImport then .ok (env.getCoinImportValue tx, 0)
  else if tx.isCoinBase then .ok (0, 0)
  else
    tx.vin.foldlM (fun (nResult, interestp) input => do
      let out ← getOutputFor inputs input
      let interest :=
        if 60000 ≤ nHeight then env.outputInterest input.prevout out.nValue nHeight else 0
      return (nResult + out.nValue + interest, interestp + interest)) (0, 0)

def getValueIn (nHeight : ℕ) (inputs : FlatView) (tx : CTransaction) :
    Except Failure (ℤ × ℤ) := do
  let (value, interest) ← env.getTransparentValueIn nHeight inputs tx
  let shielded ← env.getShieldedValueIn tx
  return (value + shielded, interest)

/-! ### `Consensus::CheckTxInputs` -/

/-- `CCoins::TotalTxValue`: spent outputs count with their value -1. -/
def totalTxValue (coins : CCoins) : ℤ := (coins.vout.map CTxOut.nValue).sum

/-- `komodo_block_unlocktime`, as a `uint64_t`. -/
def komodoBlockUnlocktime (nHeight : ℕ) : ℕ :=
  if env.timeUnlockFrom = env.timeUnlockTo then env.timeUnlockTo
  else env.komodoBlockPrg nHeight % (env.timeUnlockTo - env.timeUnlockFrom) + env.timeUnlockFrom

/-- The checks on an input that spends a coinbase. -/
def checkCoinBaseInput (tx : CTransaction) (coins : CCoins) (nSpendHeight : ℕ) :
    Except Failure Unit :=
  if coins.fCoinBase then do
    failIf (env.timelockGTE ≤ toUint64 (totalTxValue coins) &&
        nSpendHeight < env.komodoBlockUnlocktime (coins.nHeight % 2 ^ 32).toNat)
      (.invalid 10 REJECT_INVALID "bad-txns-premature-spend-of-coinbase")
    -- an `int` compared with a `uint32_t`
    failIf ((nSpendHeight - coins.nHeight) % 2 ^ 32 < env.coinbaseMaturity)
      (.invalid 0 REJECT_INVALID "bad-txns-premature-spend-of-coinbase")
    failIf (env.fCoinbaseEnforcedProtectionEnabled && env.fCoinbaseMustBeProtected &&
        !tx.vout.isEmpty)
      (.invalid 100 REJECT_INVALID "bad-txns-coinbase-spend-has-transparent-outputs")
  else .ok ()

/-- The body of the input loop of `CheckTxInputs`. -/
def checkTxInput (inputs : FlatView) (tx : CTransaction) (nSpendHeight : ℕ) (nValueIn : ℤ)
    (input : CTxIn) : Except Failure ℤ := do
  let coins := inputs.coins input.prevout.hash
  env.checkCoinBaseInput tx coins nSpendHeight
  match coins.vout[input.prevout.n]? with
  | none => .error .assertion
  | some out =>
    let interest :=
      if 60000 < nSpendHeight then env.outputInterest input.prevout out.nValue (nSpendHeight - 1)
      else 0
    let nValueIn := nValueIn + out.nValue + interest
    failIf (!env.moneyRange out.nValue || !env.moneyRange nValueIn)
      (.invalid 100 REJECT_INVALID "bad-txns-inputvalues-outofrange")
    return nValueIn

/-- `Consensus::CheckTxInputs`: the fee `nTxFee` it computes and checks. -/
def checkTxInputs (inputs : ChainView T) (tx : CTransaction) (nSpendHeight : ℕ) :
    Except Failure ℤ := do
  failIf (!inputs.haveInputs tx) (.invalid 0 0 "")
  failIf (!inputs.haveJoinSplitRequirements inputs.toFlatView tx) (.invalid 0 0 "")
  let nValueIn ← tx.vin.foldlM (env.checkTxInput inputs.toFlatView tx nSpendHeight) 0
  let shielded ← env.getShieldedValueIn tx
  failIf (!env.moneyRange (nValueIn + shielded))
    (.invalid 100 REJECT_INVALID "bad-txns-inputvalues-outofrange")
  let valueOut ← env.getValueOut tx
  failIf (nValueIn + shielded < valueOut) (.invalid 100 REJECT_INVALID "bad-txns-in-belowout")
  let nTxFee := nValueIn + shielded - valueOut
  failIf (nTxFee < 0) (.invalid 100 REJECT_INVALID "bad-txns-fee-negative")
  failIf (!env.moneyRange nTxFee) (.invalid 100 REJECT_INVALID "bad-txns-fee-outofrange")
  return nTxFee

/-! ### The calls of `ConnectBlock` -/

/-- Who calls `ConnectBlock`. -/
inductive Caller
  | connectTip
  | testBlockValidity
  | verifyDB
deriving DecidableEq, Repr

/-- A call of `ConnectBlock`: the view at some transaction of its block, and the
block before, which is the best block of the view and in the active chain. Only
`VerifyDB` connects a block that is not on the tip. -/
structure ConnectCall (T : ShieldedType → Type) where
  caller : Caller
  view : ChainView T
  pprev : CBlockIndex
  bestBlock : env.mapBlockIndex view.bestBlock = some pprev
  active : env.chainActive.get? pprev.nHeight = some pprev
  onTip : caller ≠ .verifyDB → pprev = env.chainActive.tip

variable {env} in
/-- `GetSpendHeight`, of a view whose best block is known. -/
def ConnectCall.getSpendHeight (call : env.ConnectCall T) : ℕ :=
  match env.mapBlockIndex call.view.bestBlock with
  | some pindexPrev => pindexPrev.nHeight + 1
  | none => 0

variable {env} in
/-- The fee `txFee` that `ConnectBlock` adds to `nFees`. -/
def ConnectCall.connectFee (call : env.ConnectCall T) (tx : CTransaction) : Except Failure ℤ := do
  let valueout ← env.getValueOut tx
  let (value, _) ← env.getValueIn env.chainActive.tip.nHeight call.view.toFlatView tx
  return value - valueout

variable {env} in
/-- The fee that `ContextualCheckInputs` has `CheckTxInputs` compute and check. -/
def ConnectCall.checkedFee (call : env.ConnectCall T) (tx : CTransaction) : Except Failure ℤ :=
  env.checkTxInputs call.view tx call.getSpendHeight

/-! ### What the two sums are -/

@[simp] theorem failIf_eq_ok {test : Bool} {failure : Failure} {u : Unit} :
    failIf test failure = .ok u ↔ test = false := by
  unfold failIf
  cases test <;> simp

/-- The value of the output that an input spends. -/
def inputValue (inputs : FlatView) (input : CTxIn) : ℤ :=
  match (inputs.coins input.prevout.hash).vout[input.prevout.n]? with
  | some out => out.nValue
  | none => 0

/-- The interest of the output that an input spends. -/
def inputInterest (inputs : FlatView) (input : CTxIn) : ℤ :=
  env.outputInterest input.prevout (inputValue inputs input) 0

theorem outputInterest_congr (prevout : COutPoint) (value : ℤ) (h₁ h₂ : ℕ) :
    env.outputInterest prevout value h₁ = env.outputInterest prevout value h₂ := by
  unfold outputInterest
  rw [env.komodoAccruedInterest_congr _ _ _ _ h₁ h₂]

theorem outputInterest_nonneg (prevout : COutPoint) (value : ℤ) (tipheight : ℕ) :
    0 ≤ env.outputInterest prevout value tipheight := by
  have hlt := env.komodoAccruedInterest_lt prevout.hash prevout.n 0 (toUint64 value) tipheight
  unfold outputInterest
  split
  · rw [Int.bmod_eq_of_le] <;> omega
  · exact le_rfl

/-- `CheckTxInputs` sums the values of the inputs, with their interest from
height 60001 on. -/
theorem foldlM_checkTxInput {inputs : FlatView} {tx : CTransaction} {nSpendHeight : ℕ}
    {vin : List CTxIn} {v v' : ℤ}
    (h : vin.foldlM (env.checkTxInput inputs tx nSpendHeight) v = .ok v') :
    v' = v + (vin.map (inputValue inputs)).sum +
      if 60000 < nSpendHeight then (vin.map (env.inputInterest inputs)).sum else 0 := by
  induction vin generalizing v with
  | nil =>
    cases h
    simp
  | cons input vin ih =>
    obtain ⟨v₁, hinput, hrest⟩ := bind_eq_ok.mp h
    have hv₁ : v₁ = v + inputValue inputs input +
        if 60000 < nSpendHeight then env.inputInterest inputs input else 0 := by
      unfold checkTxInput at hinput
      obtain ⟨-, -, hvalue⟩ := bind_eq_ok.mp hinput
      split at hvalue
      · cases hvalue
      · next out hout =>
        obtain ⟨-, -, hsum⟩ := bind_eq_ok.mp hvalue
        cases hsum
        have hspent : inputValue inputs input = out.nValue := by rw [inputValue, hout]
        rw [inputInterest, hspent, env.outputInterest_congr _ _ 0 (nSpendHeight - 1)]
    rw [ih hrest, hv₁, map_cons, sum_cons, map_cons, sum_cons]
    split_ifs <;> omega

/-- `GetTransparentValueIn` sums the values of the inputs, with their interest
from height 60000 on. -/
theorem getTransparentValueIn_eq {inputs : FlatView} {tx : CTransaction} (hmint : tx.isMint = false)
    (hinputs : inputs.haveInputs tx = true) (nHeight : ℕ) :
    ∃ interest, env.getTransparentValueIn nHeight inputs tx =
      .ok ((tx.vin.map (inputValue inputs)).sum +
        if 60000 ≤ nHeight then (tx.vin.map (env.inputInterest inputs)).sum else 0, interest) := by
  obtain ⟨himport, hcoinbase⟩ : tx.isCoinImport = false ∧ tx.isCoinBase = false := by
    simpa [CTransaction.isMint] using hmint
  unfold getTransparentValueIn
  rw [if_neg (by simp [himport]), if_neg (by simp [hcoinbase])]
  rw [FlatView.haveInputs, all_eq_true] at hinputs
  -- the sums so far
  have hfold : ∀ vin : List CTxIn, (∀ i ∈ vin, i ∈ tx.vin) → ∀ nResult interestp : ℤ,
      ∃ interest, vin.foldlM (fun (nResult, interestp) input => do
        let out ← getOutputFor inputs input
        let interest :=
          if 60000 ≤ nHeight then env.outputInterest input.prevout out.nValue nHeight else 0
        return (nResult + out.nValue + interest, interestp + interest)) (nResult, interestp) =
      (.ok (nResult + ((vin.map (inputValue inputs)).sum +
        if 60000 ≤ nHeight then (vin.map (env.inputInterest inputs)).sum else 0), interest) :
          Except Failure (ℤ × ℤ)) := by
    intro vin
    induction vin with
    | nil => exact fun _ nResult interestp => ⟨interestp, by simp [pure, Except.pure]⟩
    | cons input vin ih =>
      intro hmem nResult interestp
      have havailable := hinputs input (hmem input (mem_cons_self ..))
      obtain ⟨out, hout⟩ : ∃ out, (inputs.coins input.prevout.hash).vout[input.prevout.n]? = some out := by
        unfold CCoins.isAvailable at havailable
        split at havailable
        · next out hout => exact ⟨out, hout⟩
        · cases havailable
      have hget : getOutputFor inputs input = .ok out := by
        rw [getOutputFor, if_pos havailable, hout]
      have hvalue : inputValue inputs input = out.nValue := by rw [inputValue, hout]
      obtain ⟨interest, hrest⟩ := ih (fun i hi => hmem i (mem_cons_of_mem _ hi))
        (nResult + out.nValue +
          if 60000 ≤ nHeight then env.outputInterest input.prevout out.nValue nHeight else 0)
        (interestp +
          if 60000 ≤ nHeight then env.outputInterest input.prevout out.nValue nHeight else 0)
      refine ⟨interest, ?_⟩
      rw [foldlM_cons, hget]
      refine hrest.trans ?_
      rw [map_cons, sum_cons, map_cons, sum_cons, hvalue, inputInterest, hvalue,
        env.outputInterest_congr _ _ 0 nHeight]
      congr 2
      split_ifs <;> omega
  obtain ⟨interest, h⟩ := hfold tx.vin (fun _ h => h) 0 0
  exact ⟨interest, by simpa using h⟩

/-! ### The two fees -/

variable {env}

theorem checkTxInputs_ok {inputs : ChainView T} {tx : CTransaction} {nSpendHeight : ℕ} {nTxFee : ℤ}
    (h : env.checkTxInputs inputs tx nSpendHeight = .ok nTxFee) :
    inputs.haveInputs tx = true ∧ ∃ shielded valueOut, env.getShieldedValueIn tx = .ok shielded ∧
      env.getValueOut tx = .ok valueOut ∧
      nTxFee = (tx.vin.map (inputValue inputs.toFlatView)).sum + (if 60000 < nSpendHeight
        then (tx.vin.map (env.inputInterest inputs.toFlatView)).sum else 0) + shielded - valueOut := by
  obtain ⟨u, hinputs, h⟩ := bind_eq_ok.mp h
  obtain ⟨-, -, h⟩ := bind_eq_ok.mp h
  obtain ⟨nValueIn, hfold, h⟩ := bind_eq_ok.mp h
  obtain ⟨shielded, hshielded, h⟩ := bind_eq_ok.mp h
  obtain ⟨-, -, h⟩ := bind_eq_ok.mp h
  obtain ⟨valueOut, hvalueOut, h⟩ := bind_eq_ok.mp h
  obtain ⟨-, -, h⟩ := bind_eq_ok.mp h
  obtain ⟨-, -, h⟩ := bind_eq_ok.mp h
  obtain ⟨-, -, h⟩ := bind_eq_ok.mp h
  cases h
  refine ⟨by simpa using hinputs, shielded, valueOut, hshielded, hvalueOut, ?_⟩
  rw [env.foldlM_checkTxInput hfold, zero_add]

omit [∀ s, MerkleTree (T s)] in
theorem ConnectCall.getSpendHeight_eq (call : env.ConnectCall T) :
    call.getSpendHeight = call.pprev.nHeight + 1 := by
  rw [getSpendHeight, call.bestBlock]

omit [∀ s, MerkleTree (T s)] in
theorem ConnectCall.nHeight_le (call : env.ConnectCall T) :
    call.pprev.nHeight ≤ env.chainActive.tip.nHeight := by
  rw [env.chainActive.nHeight_tip]
  have h := call.active
  unfold CChain.get? at h
  split at h
  · next hle => exact hle
  · cases h

/-- **The two fees of a transaction that is no mint are the same if and only if**
the view and the tip are on one side of height 60000, or no input has interest. -/
theorem ConnectCall.connectFee_iff (call : env.ConnectCall T) {tx : CTransaction} (hmint : tx.isMint = false)
    {nTxFee : ℤ} (h : call.checkedFee tx = .ok nTxFee) :
    call.connectFee tx = .ok nTxFee ↔
      (60000 ≤ env.chainActive.tip.nHeight → 60000 ≤ call.pprev.nHeight) ∨
        ∀ i ∈ tx.vin, env.inputInterest call.view.toFlatView i = 0 := by
  obtain ⟨hinputs, shielded, valueOut, hshielded, hvalueOut, hfee⟩ := checkTxInputs_ok h
  obtain ⟨interest, htransparent⟩ :=
    env.getTransparentValueIn_eq hmint hinputs env.chainActive.tip.nHeight
  have hconnect : call.connectFee tx = .ok ((tx.vin.map (inputValue call.view.toFlatView)).sum +
      (if 60000 ≤ env.chainActive.tip.nHeight
        then (tx.vin.map (env.inputInterest call.view.toFlatView)).sum else 0) + shielded - valueOut) := by
    rw [connectFee, getValueIn, hvalueOut, htransparent, hshielded]
    rfl
  rw [hconnect, Except.ok.injEq, hfee, call.getSpendHeight_eq]
  have hle := call.nHeight_le
  have hnonneg : ∀ x ∈ tx.vin.map (env.inputInterest call.view.toFlatView), (0 : ℤ) ≤ x := by
    rintro x hx
    obtain ⟨i, -, rfl⟩ := List.mem_map.mp hx
    exact env.outputInterest_nonneg _ _ _
  have hsum : (tx.vin.map (env.inputInterest call.view.toFlatView)).sum = 0 ↔
      ∀ i ∈ tx.vin, env.inputInterest call.view.toFlatView i = 0 := by
    constructor
    · intro hzero i hi
      exact List.all_zero_of_le_zero_le_of_sum_eq_zero hnonneg hzero (List.mem_map_of_mem hi)
    · intro hzero
      exact List.sum_eq_zero fun x hx => by
        obtain ⟨i, hi, rfl⟩ := List.mem_map.mp hx
        exact hzero i hi
  rw [← hsum]
  split_ifs <;> omega

/-! ### A chain just above height 60000 -/

/-- The KMD chain up to `height`, a block every minute. Transaction 7, with 20
coins, is in block 100. -/
def exampleEnv (height : ℕ) : Env where
  isKMD := true
  chainActive := ⟨height, fun h => ⟨h, 1480000000 + 60 * h⟩, fun _ _ => rfl⟩
  mapBlockIndex := fun hash => some ⟨hash, 1480000000 + 60 * hash⟩
  getTransaction := fun hash => if hash = 7 then
      some (⟨7, 1, [], [⟨2000000000, []⟩], 1480005000, 0, 0, [], [], []⟩, 100) else none
  maxMoney := 20000000000000000
  timelockGTE := 2 ^ 64 - 1
  timeUnlockFrom := 0
  timeUnlockTo := 0
  komodoBlockPrg := id
  coinbaseMaturity := 100
  fCoinbaseEnforcedProtectionEnabled := true
  fCoinbaseMustBeProtected := false
  getCoinImportValue := fun _ => 0

/-- The view at block `bestBlock`, with transaction 7 unspent. -/
def exampleView (bestBlock : Uint256) : ChainView (fun _ => List Uint256) where
  coins := fun hash => if hash = 7 then ⟨false, [⟨2000000000, []⟩], 100, 1⟩ else {}
  nullifiers := fun _ _ => false
  anchors := fun _ _ => none
  bestAnchor := fun _ => 0
  bestBlock := bestBlock

/-- It spends the 20 coins without a fee, apart from the interest. -/
def exampleTx : CTransaction :=
  ⟨8, 1, [{ prevout := ⟨7, 0⟩ }], [⟨2000000000, []⟩], 0, 0, 0, [], [], []⟩

/-- A block is connected to the tip, at height 60010. -/
def exampleConnectTip : (exampleEnv 60010).ConnectCall (fun _ => List Uint256) where
  caller := .connectTip
  view := exampleView 60010
  pprev := ⟨60010, 1480000000 + 60 * 60010⟩
  bestBlock := rfl
  active := by decide
  onTip := fun _ => rfl

/-- `VerifyDB` connects the block at height 59991, with the tip at 60010. -/
def exampleVerifyDB : (exampleEnv 60010).ConnectCall (fun _ => List Uint256) where
  caller := .verifyDB
  view := exampleView 59990
  pprev := ⟨59990, 1480000000 + 60 * 59990⟩
  bestBlock := rfl
  active := by decide
  onTip := fun h => absurd rfl h

theorem connectFee_connectTip : exampleConnectTip.connectFee exampleTx = .ok 12500000 :=
  (exampleConnectTip.connectFee_iff (by decide) (by decide)).mpr (Or.inl fun h => h)

theorem not_connectFee : ¬ ∀ (env : Env) (call : env.ConnectCall (fun _ => List Uint256))
    (tx : CTransaction) (nTxFee : ℤ), tx.isMint = false → call.checkedFee tx = .ok nTxFee →
      call.connectFee tx = .ok nTxFee := by
  intro h
  have heq := h _ exampleVerifyDB exampleTx 0 (by decide) (by decide)
  exact absurd heq (by decide)

end Env
end Fees
end Komodo
