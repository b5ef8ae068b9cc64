/-
# The returned and the recorded verdict

A validator returns whether a transaction passes, and `Eval::Invalid` records beside it that one
does not. `RunCCEval` (`src/src/cc/eval.cpp`) goes by what was recorded, so the two have to
agree; the assertion that they do is commented out there.

They agree for every chain of checks, since a chain ends with its first rejection. Two contracts
go on after a helper has recorded one. `DiceValidate` does not look at what `DiceAmounts`
returns, and pays a settlement from the inputs that were summed before the failed lookup.
`TokensExactAmounts` asks `IsTokensvout` for each input, which balances the transaction that the
input spends; where a lookup fails in there, the input counts as zero, and the others may still
make up the outputs. In both cases (`NodeEnv.overlooks`) `RunCCEval` rejects what the validator may
have accepted, and in all others it returns what the validator returned
(`runCCEval_eq_validator`).
-/

import Komodo.CC.DiceFairness
import Komodo.CC.DispatchHistory

namespace Komodo

open List

/-! ### Agreement -/

/-- The return value says whether nothing was recorded. -/
def EvalM.Agrees (m : EvalM Bool) : Prop := m.val = true ↔ m.recorded = []

namespace EvalM

theorem agrees_true : Agrees (pure true) := by simp [Agrees]

theorem agrees_invalid (message : String) : Agrees (invalid message) := by simp [Agrees]

theorem Agrees.bind_quiet {α : Type} {x : EvalM α} {f : α → EvalM Bool} (hx : x.recorded = [])
    (hf : (f x.val).Agrees) : (x >>= f).Agrees := by
  rw [Agrees, recorded_bind, hx, nil_append]
  exact hf

theorem Agrees.bind_rejected {α : Type} {x : EvalM α} {f : α → EvalM Bool} {message : String}
    (hf : f x.val = invalid message) : (x >>= f).Agrees := by
  simp [Agrees, hf]

theorem Agrees.recorded_eq_nil {m : EvalM Bool} (h : m.Agrees) :
    decide (m.recorded = []) = m.val := by
  rw [Bool.eq_iff_iff, decide_eq_true_eq]
  exact h.symm

end EvalM

theorem Checked.verdict_agrees {checks : Checked Unit} {m : EvalM Bool}
    (h : Checked.verdict checks = some m) : m.Agrees := by
  match checks, h with
  | .ok (), h => exact Option.some.inj h ▸ EvalM.agrees_true
  | .error (.invalid message), h => exact Option.some.inj h ▸ EvalM.agrees_invalid message

theorem Checked.eq_ok_of_verdict {checks : Checked Unit} {m : EvalM Bool}
    (h : Checked.verdict checks = some m) (hquiet : m.recorded = []) : checks = .ok () := by
  match checks, h with
  | .ok (), _ => rfl
  | .error (.invalid message), h =>
    cases h
    cases hquiet

/-! ### Failed lookups -/

/-- Whether the transaction that an input of a contract spends is not found. -/
def CCEnv.missesInput (env : CCEnv) (lookup : TxLookup) (evalcode : UInt8) (i : CTxIn) : Bool :=
  env.isMyVin evalcode i.scriptSig && (lookup i.prevout.hash).isNone

/-- Whether one of the inputs of a contract spends a transaction that is not found. -/
def CCEnv.missesVin (env : CCEnv) (lookup : TxLookup) (evalcode : UInt8) (tx : CTransaction) :
    Bool :=
  tx.vin.any (env.missesInput lookup evalcode)

section dice
variable {env : ContractEnv}

/-- The loop of `DiceAmounts` gets through when it finds every transaction. -/
theorem ContractEnv.diceInputs_found {refsbits : ℕ} {reffundingtxid : Uint256} {vin : List CTxIn}
    {start inputs : ℤ} {found : Bool}
    (h : env.diceInputs refsbits reffundingtxid vin start = .ok (inputs, found)) :
    found = !vin.any (env.missesInput env.lookup EVAL_DICE) := by
  induction vin generalizing start with
  | nil =>
    obtain ⟨-, rfl⟩ := Prod.mk.inj (Checked.pure_eq_ok.1 h)
    rfl
  | cons i rest ih =>
    rw [diceInputs] at h
    rw [any_cons, CCEnv.missesInput]
    cases hmine : env.isMyVin EVAL_DICE i.scriptSig with
    | false =>
      rw [hmine] at h
      simpa using ih h
    | true =>
      rw [hmine, if_pos rfl] at h
      cases hfind : env.lookup i.prevout.hash with
      | none =>
        rw [hfind] at h
        obtain ⟨-, rfl⟩ := Prod.mk.inj (Checked.pure_eq_ok.1 h)
        rfl
      | some vinTx =>
        rw [hfind] at h
        simp only [Checked.bind_eq_ok] at h
        obtain ⟨out, -, hrest⟩ := h
        simpa using ih hrest

end dice

section tokens
variable (env : CCEnv) (lookup : TxLookup)

/-- Whether `IsTokensvout` misses a transaction when it balances the one that an input spends,
as it does for an output of a crypto condition. -/
def CCEnv.missesDeeper (i : CTxIn) : Bool :=
  env.isMyVin EVAL_TOKENS i.scriptSig &&
    match lookup i.prevout.hash with
    | some vinTx =>
      (tokenVoutAt vinTx (toInt32 i.prevout.n)).any
          (fun out => isPayToCryptoCondition out.scriptPubKey)
        && env.missesVin lookup EVAL_TOKENS vinTx
    | none => false

variable {env lookup} {recognise : CTransaction → ℤ → EvalM ℤ} {tx : CTransaction}
  {reftokenid : Uint256}

/-- The input loop of `TokensExactAmounts` fails when a transaction is not found. -/
theorem tokenInputs_val_eq_none (vin : List CTxIn) :
    (tokenInputs env lookup recognise vin).val = none
      ↔ vin.any (env.missesInput lookup EVAL_TOKENS) = true := by
  induction vin with
  | nil => simp [tokenInputs]
  | cons i rest ih =>
    rw [tokenInputs, any_cons, CCEnv.missesInput]
    cases hmine : env.isMyVin EVAL_TOKENS i.scriptSig with
    | false => simpa using ih
    | true =>
      cases hfind : lookup i.prevout.hash with
      | none => simp
      | some vinTx => simpa using ih

/-- It records nothing when every transaction is found, and quietly recognised. -/
theorem tokenInputs_recorded (vin : List CTxIn) :
    (tokenInputs env lookup recognise vin).recorded = []
      ↔ vin.any (env.missesInput lookup EVAL_TOKENS) = false
        ∧ ∀ i ∈ vin, env.isMyVin EVAL_TOKENS i.scriptSig = true →
          ∀ vinTx, lookup i.prevout.hash = some vinTx →
            (recognise vinTx (toInt32 i.prevout.n)).recorded = [] := by
  induction vin with
  | nil => simp [tokenInputs]
  | cons i rest ih =>
    rw [tokenInputs, any_cons, CCEnv.missesInput]
    cases hmine : env.isMyVin EVAL_TOKENS i.scriptSig with
    | false => simp [ih, hmine]
    | true =>
      cases hfind : lookup i.prevout.hash with
      | none => simp
      | some vinTx =>
        simp only [if_true, EvalM.recorded_bind, EvalM.recorded_pure, append_nil,
          append_eq_nil_iff, ih, Option.isNone_some, Bool.and_false, Bool.false_or,
          forall_mem_cons, hmine, hfind, Option.some.injEq, forall_eq', true_imp_iff]
        tauto

theorem exactAmounts_recorded :
    (exactAmounts env lookup recognise tx reftokenid).recorded
      = (tokenInputs env lookup recognise tx.vin).recorded := by
  rw [exactAmounts, EvalM.recorded_bind]
  cases (tokenInputs env lookup recognise tx.vin).val <;> simp

/-- `TokensExactAmounts` fails when it misses an input. -/
theorem exactAmounts_isEqual (h : env.missesVin lookup EVAL_TOKENS tx = true) :
    (exactAmounts env lookup recognise tx reftokenid).val.isEqual = false := by
  rw [exactAmounts, EvalM.val_bind, (tokenInputs_val_eq_none tx.vin).2 h]
  rfl

/-- What `IsTokensvout` records when it goes deeper. -/
theorem isTokensvout_recorded (vinTx : CTransaction) (v : ℤ) :
    (isTokensvout env true lookup reftokenid vinTx v).recorded = []
      ↔ ((tokenVoutAt vinTx v).any (fun out => isPayToCryptoCondition out.scriptPubKey)
        && env.missesVin lookup EVAL_TOKENS vinTx) = false := by
  rw [isTokensvout]
  cases tokenVoutAt vinTx v with
  | none => simp
  | some out =>
    cases hcc : isPayToCryptoCondition out.scriptPubKey with
    | false => simp [hcc]
    | true =>
      simp only [if_true, EvalM.recorded_bind, append_eq_nil_iff, exactAmounts_recorded,
        tokenInputs_recorded, EvalM.recorded_pure, implies_true, and_true, Option.any_some, hcc,
        Bool.true_and]
      rw [CCEnv.missesVin]
      split_ifs <;> simp

/-- `TokensExactAmounts` records nothing when it misses no transaction, and none deeper. -/
theorem tokensExactAmounts_recorded :
    (tokensExactAmounts env true lookup tx reftokenid).recorded = []
      ↔ env.missesVin lookup EVAL_TOKENS tx = false
        ∧ tx.vin.any (env.missesDeeper lookup) = false := by
  rw [tokensExactAmounts, exactAmounts_recorded, tokenInputs_recorded]
  refine and_congr Iff.rfl ?_
  simp only [isTokensvout_recorded, any_eq_false, CCEnv.missesDeeper]
  refine forall₂_congr fun i _ => ?_
  cases hmine : env.isMyVin EVAL_TOKENS i.scriptSig with
  | false => simp
  | true => cases lookup i.prevout.hash <;> simp

/-- Whether `TokensValidate` gets to the amounts. -/
def balancesTokens (chain : ChainContext) (tx : CTransaction) : Bool :=
  !chain.exempt &&
    match tx.vout.getLast?.bind fun opret => decodeTokenOpRet opret.scriptPubKey with
    | some d => (chain.lookup d.tokenid).isSome && d.funcid ≠ fid 'c' && d.tokenid ≠ 0
    | none => false

theorem validateTransfer_agrees (chain : ChainContext) (tx : CTransaction) (d : TokenOpRet)
    (inputs : ℤ) : (validateTransfer env chain tx d inputs).Agrees := by
  unfold validateTransfer
  split_ifs
  · exact EvalM.agrees_invalid _
  · exact EvalM.agrees_invalid _
  · exact EvalM.agrees_invalid _
  · exact EvalM.agrees_true
  · exact EvalM.agrees_invalid _

variable {chain : ChainContext}

/-- The branch of `TokensValidate` that balances the amounts. -/
theorem tokensValidate_balances (h : balancesTokens chain tx = true) :
    ∃ d, tokensValidate env chain tx
      = tokensExactAmounts env true chain.lookup tx d.tokenid >>= fun amounts =>
        if amounts.isEqual then validateTransfer env chain tx d amounts.inputs
        else EvalM.invalid "tokens cc inputs != cc outputs" := by
  simp only [balancesTokens, Bool.and_eq_true, Bool.not_eq_true'] at h
  obtain ⟨hexempt, h⟩ := h
  cases hopret : tx.vout.getLast? with
  | none => simp [hopret] at h
  | some opret =>
    cases hd : decodeTokenOpRet opret.scriptPubKey with
    | none => simp [hopret, hd] at h
    | some d =>
      simp only [hopret, Option.bind_some, hd, Bool.and_eq_true, Option.isSome_iff_ne_none,
        decide_eq_true_eq] at h
      obtain ⟨⟨hfind, hcreate⟩, hzero⟩ := h
      refine ⟨d, ?_⟩
      simp only [tokensValidate, hexempt, Bool.false_eq_true, if_false, hopret, hd, hfind, hcreate,
        hzero]
      rfl

/-- On the other branches `TokensValidate` returns what it has recorded. -/
theorem tokensValidate_agrees_early
    (h : balancesTokens chain tx = false) : (tokensValidate env chain tx).Agrees := by
  cases hexempt : chain.exempt with
  | true =>
    rw [tokensValidate, if_pos hexempt]
    exact EvalM.agrees_true
  | false =>
    rw [tokensValidate, if_neg (by simp [hexempt])]
    cases hopret : tx.vout.getLast? with
    | none => exact EvalM.agrees_invalid _
    | some opret =>
      cases hd : decodeTokenOpRet opret.scriptPubKey with
      | none =>
        simp only [hd]
        exact EvalM.agrees_invalid _
      | some d =>
        simp only [hd]
        split_ifs with hfind hcreate hzero
        · exact EvalM.agrees_invalid _
        · exact validateTransfer_agrees chain tx d 0
        · exact EvalM.agrees_invalid _
        · simp [balancesTokens, hexempt, hopret, hd, hfind, hcreate, hzero] at h

/-- `TokensValidate` returns what was recorded, unless a transaction is missed deeper. -/
theorem tokensValidate_agrees
    (h : (balancesTokens chain tx && tx.vin.any (env.missesDeeper chain.lookup)) = false) :
    (tokensValidate env chain tx).Agrees := by
  cases hbalances : balancesTokens chain tx with
  | false => exact tokensValidate_agrees_early hbalances
  | true =>
    have hdeeper : tx.vin.any (env.missesDeeper chain.lookup) = false := by
      rwa [hbalances, Bool.true_and] at h
    obtain ⟨d, hd⟩ := tokensValidate_balances hbalances
    rw [hd]
    cases hmisses : env.missesVin chain.lookup EVAL_TOKENS tx with
    | true =>
      refine EvalM.Agrees.bind_rejected (if_neg ?_)
      rw [tokensExactAmounts, exactAmounts_isEqual hmisses]
      decide
    | false =>
      refine EvalM.Agrees.bind_quiet (tokensExactAmounts_recorded.2 ⟨hmisses, hdeeper⟩) ?_
      split_ifs
      · exact validateTransfer_agrees chain tx d _
      · exact EvalM.agrees_invalid _

theorem tokensValidate_recorded
    (h : (balancesTokens chain tx && tx.vin.any (env.missesDeeper chain.lookup)) = true) :
    (tokensValidate env chain tx).recorded ≠ [] := by
  obtain ⟨hbalances, hdeeper⟩ := Bool.and_eq_true_iff.1 h
  obtain ⟨d, hd⟩ := tokensValidate_balances hbalances
  rw [hd, EvalM.recorded_bind, Ne, append_eq_nil_iff, tokensExactAmounts_recorded, hdeeper]
  rintro ⟨⟨-, hfalse⟩, -⟩
  cases hfalse

end tokens

/-! ### The verdict of the node -/

namespace NodeEnv

variable (node : NodeEnv)

/-- Whether `DiceAmounts` misses a transaction of a settlement. -/
def diceOverlooks (tx : CTransaction) : Bool :=
  match node.dicePlanOf tx with
  | .ok (r, _, _) => isDiceSettlement r.funcid && node.missesVin node.lookup EVAL_DICE tx
  | .error _ => false

/-- Whether `IsTokensvout` misses a transaction while `TokensValidate` balances the amounts. -/
def tokensOverlooks (tx : CTransaction) : Bool :=
  balancesTokens node.chainContext tx && tx.vin.any (node.missesDeeper node.lookup)

/-- Whether a validator runs that goes on after a helper of it has recorded a rejection. -/
def overlooks (code : Bytes) (tx : CTransaction) : Bool :=
  match code with
  | [] => false
  | ecode :: params =>
    (!node.isDisabled ecode && node.reachesValidator params)
      && (decide (ecode = EVAL_DICE) && node.diceOverlooks tx
        || decide (ecode = EVAL_TOKENS) && node.tokensOverlooks tx)

variable {node} {tx : CTransaction} {m : EvalM Bool}

/-- An accepted settlement got its amounts. -/
theorem diceInputs_of_settlement {r : DiceOpRet} {plan : DicePlan} {fundingPubKey : CScript}
    (hplan : node.dicePlanOf tx = .ok (r, plan, fundingPubKey))
    (hsettlement : isDiceSettlement r.funcid = true) (h : node.diceValidate tx = .ok ()) :
    ∃ inputs found, node.diceInputs plan.sbits r.fundingtxid tx.vin 0 = .ok (inputs, found) := by
  obtain ⟨r', plan', fundingPubKey', hplan', hbranch⟩ := ContractEnv.diceValidate_eq_ok h
  obtain ⟨rfl, rfl, rfl⟩ : r = r' ∧ plan = plan' ∧ fundingPubKey = fundingPubKey' := by
    rw [hplan] at hplan'
    simpa using hplan'
  simp only [isDiceSettlement, decide_eq_true_eq] at hsettlement
  have hsettle : node.diceSettle tx r plan fundingPubKey = .ok () := by
    rcases hbranch with ⟨hB, -⟩ | ⟨-, hsettle⟩ | ⟨hR, -⟩
    · rw [hB] at hsettlement
      exact absurd hsettlement (by decide)
    · exact hsettle
    · rw [hR] at hsettlement
      exact absurd hsettlement (by decide)
  obtain ⟨inputs, outputs, -, hamounts, -⟩ := ContractEnv.diceSettle_eq_ok hsettle
  simp only [ContractEnv.diceAmounts, Checked.bind_eq_ok] at hamounts
  obtain ⟨⟨inputs', found⟩, hinputs, -⟩ := hamounts
  exact ⟨inputs', found, hinputs⟩

/-- `DiceValidate` returns what was recorded, unless `DiceAmounts` misses a transaction; that is
recorded. -/
theorem validateDice_spec (h : node.validateDice tx = some m) :
    (node.diceOverlooks tx = false → m.Agrees)
      ∧ (node.diceOverlooks tx = true → m.recorded ≠ []) := by
  unfold validateDice at h
  unfold diceOverlooks
  cases hplan : node.dicePlanOf tx with
  | error e =>
    rw [hplan] at h
    exact ⟨fun _ => Checked.verdict_agrees h, fun hfalse => (nomatch hfalse)⟩
  | ok named =>
    obtain ⟨r, plan, fundingPubKey⟩ := named
    simp only [hplan] at h ⊢
    cases hsettlement : isDiceSettlement r.funcid with
    | false =>
      rw [hsettlement, if_neg (by decide)] at h
      exact ⟨fun _ => Checked.verdict_agrees h, fun hfalse => (nomatch hfalse)⟩
    | true =>
      rw [hsettlement, if_pos rfl, Verdict.after, Option.map_eq_some_iff] at h
      obtain ⟨m', hm', rfl⟩ := h
      have hagrees := Checked.verdict_agrees hm'
      rw [Bool.true_and, CCEnv.missesVin, diceAmountsRecorded]
      cases hinputs : node.diceInputs plan.sbits r.fundingtxid tx.vin 0 with
      | error e =>
        refine ⟨fun _ => hagrees, fun _ hquiet => ?_⟩
        obtain ⟨inputs, found, hfound⟩ := diceInputs_of_settlement hplan hsettlement
          (Checked.eq_ok_of_verdict hm' hquiet)
        rw [hinputs] at hfound
        cases hfound
      | ok counted =>
        obtain ⟨inputs, found⟩ := counted
        have hfound := ContractEnv.diceInputs_found hinputs
        cases found with
        | true =>
          refine ⟨fun _ => hagrees, fun hmisses => ?_⟩
          rw [hmisses] at hfound
          cases hfound
        | false =>
          refine ⟨fun hmisses => ?_, fun _ => cons_ne_nil _ _⟩
          rw [hmisses] at hfound
          cases hfound

/-- `GatewaysValidate` returns what it has recorded. -/
theorem gatewaysValidate_agrees (g : GatewaysEnv) (tx : CTransaction) :
    (gatewaysValidate g tx).Agrees := by
  unfold gatewaysValidate
  cases tx.vout.getLast? with
  | none => exact EvalM.agrees_invalid _
  | some opret =>
    show EvalM.Agrees (match gatewaysChecks g tx opret.scriptPubKey with | _ => _)
    cases gatewaysChecks g tx opret.scriptPubKey with
    | ok u => exact EvalM.agrees_true
    | error message => exact EvalM.agrees_invalid message

variable {ecode : UInt8}

theorem validateOther_agrees {cp : CCContractInfo} (hdice : ecode ≠ EVAL_DICE)
    (htokens : ecode ≠ EVAL_TOKENS) (h : node.validateOther ecode cp tx = some (some m)) :
    m.Agrees := by
  unfold validateOther at h
  split_ifs at h
  all_goals first
    | exact Checked.verdict_agrees (Option.some.inj h)
    | exact Option.some.inj (Option.some.inj h) ▸ EvalM.agrees_invalid _
    | exact Option.some.inj (Option.some.inj h) ▸ EvalM.agrees_true
    | exact Option.some.inj (Option.some.inj h) ▸ gatewaysValidate_agrees _ _

/-- **A validator returns what was recorded, unless it overlooks a rejection**; that one is
recorded. -/
theorem validator_spec {cp cp' : CCContractInfo}
    (h : node.validator ecode cp tx = some (some m, cp')) :
    let overlooks := decide (ecode = EVAL_DICE) && node.diceOverlooks tx
      || decide (ecode = EVAL_TOKENS) && node.tokensOverlooks tx
    (overlooks = false → m.Agrees) ∧ (overlooks = true → m.recorded ≠ []) := by
  by_cases hdice : ecode = EVAL_DICE
  · subst hdice
    have hverdict : node.validateDice tx = some m := by
      have hfst := congrArg (Option.map Prod.fst) h
      exact Option.some.inj hfst
    have hdistinct : decide (EVAL_DICE = EVAL_TOKENS) = false := by decide
    simpa [hdistinct] using validateDice_spec hverdict
  by_cases htokens : ecode = EVAL_TOKENS
  · subst htokens
    obtain rfl : tokensValidate node.toCCEnv node.chainContext tx = m := by
      have hfst := congrArg (Option.map Prod.fst) h
      exact Option.some.inj (Option.some.inj hfst)
    have hdistinct : decide (EVAL_TOKENS = EVAL_DICE) = false := by decide
    simp only [hdistinct, Bool.false_and, Bool.false_or, decide_true, Bool.true_and]
    exact ⟨tokensValidate_agrees, tokensValidate_recorded⟩
  · simp only [hdice, htokens, decide_false, Bool.false_and, Bool.or_self, Bool.false_eq_true,
      false_imp_iff, and_true, true_imp_iff]
    unfold validator at h
    by_cases hassets : ecode = EVAL_ASSETS
    · rw [if_pos hassets] at h
      exact Checked.verdict_agrees (congrArg Prod.fst (Option.some.inj h))
    · rw [if_neg hassets, Option.map_eq_some_iff] at h
      obtain ⟨verdict, hverdict, hpair⟩ := h
      obtain ⟨rfl, -⟩ := Prod.mk.inj hpair
      exact validateOther_agrees hdice htokens hverdict

/-- The eval codes of the contracts with checks of their own. -/
def contracts : List UInt8 :=
  [EVAL_ASSETS, EVAL_TOKENS, EVAL_FAUCET, EVAL_REWARDS, EVAL_DICE, EVAL_HEIR, EVAL_CHANNELS,
    EVAL_ORACLES, EVAL_PAYMENTS, EVAL_GATEWAYS]

/-- A contract's calls go through `ProcessCC`. -/
theorem dispatch_contract {lib : CCLib} {infos : CCinfos}
    (hcontract : ecode ∈ contracts) (hdisabled : node.isDisabled ecode = false) (params : Bytes)
    (nIn : ℕ) :
    (node.dispatch lib infos (ecode :: params) tx nIn).1
      = (node.processCC ecode (infos.use ecode) params tx).1 := by
  have hcode : ∀ e ∈ contracts,
      isUserCode e = false ∧ e ≠ EVAL_IMPORTPAYOUT ∧ e ≠ EVAL_IMPORTCOIN := by
    decide +kernel
  obtain ⟨huser, hpayout, hcoin⟩ := hcode ecode hcontract
  simp only [dispatch, hdisabled, huser, Bool.false_eq_true, if_false, dispatchCode, hpayout, hcoin]

variable (node) in
theorem validator_isSome (hcontract : ecode ∈ contracts) (cp : CCContractInfo)
    (tx : CTransaction) : ∃ verdict cp', node.validator ecode cp tx = some (verdict, cp') := by
  simp only [contracts, mem_cons, not_mem_nil, or_false] at hcontract
  rcases hcontract with rfl | rfl | rfl | rfl | rfl | rfl | rfl | rfl | rfl | rfl <;>
    exact ⟨_, _, rfl⟩

/-- Before the validator `ProcessCC` returns what it has recorded. -/
theorem processCC_agrees {params : Bytes} (hreaches : node.reachesValidator params = false)
    {cp : CCContractInfo} (h : (node.processCC ecode cp params tx).1 = some m) :
    m.Agrees := by
  unfold processCC at h
  split_ifs at h with hconnecting hactive hparams
  · exact Option.some.inj h ▸ EvalM.agrees_true
  · cases hv : node.validator ecode cp.clearvars tx with
    | none =>
      rw [hv] at h
      exact Option.some.inj h ▸ EvalM.agrees_invalid _
    | some result =>
      rw [hv] at h
      exact Option.some.inj h ▸ EvalM.agrees_invalid _
  · simp only [reachesValidator, decide_eq_false_iff_not] at hreaches
    exact absurd ⟨by omega, hactive, not_not.1 hparams⟩ hreaches
  · exact Option.some.inj h ▸ EvalM.agrees_invalid _

end NodeEnv

open NodeEnv in
/-- **`RunCCEval` returns what the validator returned**, unless a helper has recorded a
rejection that the validator overlooks; then it returns false. The validator's is the verdict
that `Eval::Dispatch` ends with, where the checks before it pass. -/
theorem runCCEval_eq_validator {node : NodeEnv} {lib : CCLib} {infos : CCinfos} {ecode : UInt8}
    {params : Bytes} {tx : CTransaction} {nIn : ℕ} {m : EvalM Bool}
    (hcontract : ecode ∈ contracts)
    (h : (node.dispatch lib infos (ecode :: params) tx nIn).1 = some m) :
    (node.isDisabled ecode = false → node.reachesValidator params = true →
        (node.validator ecode (infos.use ecode).clearvars tx).map Prod.fst = some (some m))
      ∧ (node.overlooks (ecode :: params) tx = false →
        node.runCCEval lib infos (ecode :: params) tx nIn = some m.val)
      ∧ (node.overlooks (ecode :: params) tx = true →
        node.runCCEval lib infos (ecode :: params) tx nIn = some false) := by
  have hrun : node.runCCEval lib infos (ecode :: params) tx nIn
      = some (decide (m.recorded = [])) := by
    rw [runCCEval, h]
    rfl
  cases hdisabled : node.isDisabled ecode with
  | true =>
    have hm : m = EvalM.invalid "disabled-code, -ac_ccenables didnt include this ecode" := by
      simp only [dispatch, hdisabled, if_true] at h
      exact (Option.some.inj h).symm
    have hoverlooks : node.overlooks (ecode :: params) tx = false := by
      simp [overlooks, hdisabled]
    refine ⟨fun hfalse => Bool.noConfusion hfalse, fun _ => ?_, fun hyes => ?_⟩
    · rw [hrun, hm]
      rfl
    · exact absurd (hoverlooks.symm.trans hyes) (by decide)
  | false =>
    rw [dispatch_contract hcontract hdisabled] at h
    cases hreaches : node.reachesValidator params with
    | false =>
      have hoverlooks : node.overlooks (ecode :: params) tx = false := by
        simp [overlooks, hreaches]
      refine ⟨fun _ hfalse => Bool.noConfusion hfalse, fun _ => ?_, fun hyes => ?_⟩
      · rw [hrun, (processCC_agrees hreaches h).recorded_eq_nil]
      · exact absurd (hoverlooks.symm.trans hyes) (by decide)
    | true =>
      obtain ⟨verdict, cp', hvalidator⟩ :=
        validator_isSome node hcontract (infos.use ecode).clearvars tx
      rw [processCC_of_reaches hreaches, hvalidator] at h
      obtain rfl : verdict = some m := h
      have hoverlooks : node.overlooks (ecode :: params) tx
          = (decide (ecode = EVAL_DICE) && node.diceOverlooks tx
            || decide (ecode = EVAL_TOKENS) && node.tokensOverlooks tx) := by
        simp [overlooks, hdisabled, hreaches]
      obtain ⟨hagrees, hrecorded⟩ := validator_spec hvalidator
      rw [hoverlooks]
      refine ⟨fun _ _ => by rw [hvalidator]; rfl, fun hno => ?_, fun hyes => ?_⟩
      · rw [hrun, (hagrees hno).recorded_eq_nil]
      · rw [hrun, decide_eq_false (hrecorded hyes)]

/-! ### A settlement with an input that is not found -/

namespace DiceSample

/-- The settlement `loss` with one more input, of a transaction that the node does not find. -/
def blindLoss : CTransaction where
  hash := 6
  vin := loss.vin ++ [⟨⟨77, 0⟩, spend, 0⟩]
  vout := loss.vout

/-- The chain of the sample. -/
def chainEnv : ChainEnv :=
  { env with
    maxMoney := 2100000000000000
    maxMoney_lt := by decide
    getValueIn := valueIn [plan, entropyTx, bet]
    hash_of_lookup := fun h => (findTx_eq_some h).2
    nValue_of_lookup := fun h => nValue_of_findTx (by decide) h }

/-- A node of this chain. -/
def activeDiceNode : NodeEnv := activeNode chainEnv (by decide)

end DiceSample

open DiceSample NodeEnv in
/-- The hypotheses of `runCCEval_eq_validator` are satisfiable: of an honest settlement nothing
is overlooked, and it passes. -/
theorem runCCEval_eq_validator_loss :
    activeDiceNode.runCCEval sudokuLib CCinfos.start [EVAL_DICE] loss 1 = some true := by
  have hverdict : (activeDiceNode.dispatch sudokuLib CCinfos.start [EVAL_DICE] loss 1).1
      = some (pure true) := by decide +kernel
  have hoverlooks : activeDiceNode.overlooks [EVAL_DICE] loss = false := by decide +kernel
  exact (runCCEval_eq_validator (by decide) hverdict).2.1 hoverlooks

open DiceSample NodeEnv in
/-- `DiceValidate` returns true for the settlement with the input that is not found, which
`DiceAmounts` has recorded, and `RunCCEval` returns false. -/
theorem loss_with_missing_input :
    (activeDiceNode.validator EVAL_DICE (CCinfos.start.use EVAL_DICE).clearvars blindLoss).map Prod.fst
        = some (some ⟨true, ["always should find vin, but didnt"]⟩)
      ∧ activeDiceNode.runCCEval sudokuLib CCinfos.start [EVAL_DICE] blindLoss 1 = some false := by
  constructor <;> decide +kernel

end Komodo
