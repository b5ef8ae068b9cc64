/-
# What a datum takes from its publisher

The purpose of `case 'D'` of `OraclesValidate` and of `OraclesDataValidate` in
`src/src/cc/oracles.cpp`: for each datum one fee leaves the publisher's address
of the contract, and the baton is handed on.

Input 1 is taken for the baton, and left out of the sum, whichever output it
spends: the script of output 1 of its transaction is compared, also when it
spends another one. Of the outputs only the first is counted. Behind input 1 an
input of the contract that is not the publisher's is passed over.
`oraclesData_iff` says when a transaction that is not rejected does what it is
for.
-/

import Komodo.CC.Oracles
import Komodo.Script.Serialize

namespace Komodo
namespace OraclesEnv

open List Option

variable (env : OraclesEnv)

/-! ### What a datum is for -/

/-- The script of the publisher's outputs of the contract. -/
def publisherScript (publisher : CPubKey) : CScript :=
  env.ccPubKey (makeCCcond1 EVAL_ORACLES publisher)

/-- The value of an output at the publisher's address. -/
def publisherValue (publisher : CPubKey) (out : CTxOut) : ℤ :=
  if out.scriptPubKey = env.publisherScript publisher then out.nValue else 0

/-- What an input takes from the publisher's address. -/
def takes (publisher : CPubKey) (i : CTxIn) : ℤ :=
  (env.spent i).elim 0 fun p => env.publisherValue publisher p.2

/-- What leaves the publisher's address. -/
def leaving (publisher : CPubKey) (tx : CTransaction) : ℤ :=
  (tx.vin.map (env.takes publisher)).sum - (tx.vout.map (env.publisherValue publisher)).sum

/-- Input `n` spends the output `out` of `t` with a condition of the contract. -/
def SpendsOracle (tx : CTransaction) (n : ℕ) (t : CTransaction) (out : CTxOut) : Prop :=
  ∃ i, tx.vin[n]? = some i ∧ env.isMyVin EVAL_ORACLES i.scriptSig = true ∧
    env.spent i = some (t, out)

/-- The intended form: the registered fee leaves the publisher's address, the baton is handed
on, the other inputs of the contract are the publisher's, and nothing is read that is not
there. -/
structure OneFee (d : OraclesData) (tx : CTransaction) : Prop where
  fee : ∃ datafee, env.oracleDatafee d.oracletxid d.pk = .ok datafee ∧ env.leaving d.pk tx = datafee
  baton : ∀ t out, env.SpendsOracle tx 1 t out →
    tx.vout[1]?.map CTxOut.scriptPubKey = some out.scriptPubKey
  others : ∀ n t out, n ≠ 1 → env.SpendsOracle tx n t out →
    out.scriptPubKey = env.publisherScript d.pk
  inside : env.oraclesValidate tx ≠ .error .undefined

/-- What has been checked before a contract is called: the outputs that are spent exist, no
amount is negative and neither side sums to more than there is (`CheckTransaction`,
`CheckTxInputs`); a script that spends from the publisher's address carries its condition,
which the address is a hash of; and that address is one of a condition, whose binary is short. -/
structure InputsChecked (maxMoney : ℤ) (publisher : CPubKey) (tx : CTransaction) : Prop where
  maxMoney_lt : maxMoney < 2 ^ 63
  exist : ∀ i ∈ tx.vin, ∀ t, env.lookup i.prevout.hash = some t → i.prevout.n < t.vout.length
  spent_nonneg : ∀ i ∈ tx.vin, ∀ t out, env.spent i = some (t, out) → 0 ≤ out.nValue
  spent_sum : (tx.vin.map fun i => (env.spent i).elim 0 fun p => p.2.nValue).sum ≤ maxMoney
  out_nonneg : ∀ out ∈ tx.vout, 0 ≤ out.nValue
  out_sum : (tx.vout.map CTxOut.nValue).sum ≤ maxMoney
  carries : ∀ i ∈ tx.vin, ∀ t out, env.spent i = some (t, out) →
    out.scriptPubKey = env.publisherScript publisher →
      env.isMyVin EVAL_ORACLES i.scriptSig = true
  condition : isPayToCryptoCondition (env.publisherScript publisher) = true

/-- What the checks leave open. -/
structure Orderly (d : OraclesData) (tx : CTransaction) : Prop where
  /-- The registrations that count carry a price. -/
  priced : ∃ datafee, env.oracleDatafee d.oracletxid d.pk = .ok datafee
  /-- Input 1 spends a baton: of some value, with the script of output 1 of its transaction, or
  of no value, with that of output 1 of this one. -/
  baton : ∀ t out, env.SpendsOracle tx 1 t out →
    (if isOraclesvout out = 0 then tx.vout[1]? else t.vout[1]?).map CTxOut.scriptPubKey =
      some out.scriptPubKey
  /-- What input 1 takes from the publisher comes back behind the first output. -/
  exempt : (tx.vin[1]?).elim 0 (env.takes d.pk) =
    ((tx.vout.drop 1).map (env.publisherValue d.pk)).sum
  /-- Behind input 1 the contract's inputs are the publisher's. -/
  others : ∀ n t out, 2 ≤ n → env.SpendsOracle tx n t out →
    out.scriptPubKey = env.publisherScript d.pk

variable {env} {tx : CTransaction} {d : OraclesData} {maxMoney : ℤ} {publisher : CPubKey}

/-! ### The chain of checks -/

/-- An opreturn that decodes as a datum has its function id. -/
theorem funcid_of_decode (hd : decodeOraclesData (opretOf tx) = some d) :
    2 < (getOpReturnData (opretOf tx)).length ∧
      (getOpReturnData (opretOf tx)).getD 1 0 = fid 'D' := by
  unfold decodeOraclesData at hd
  dsimp only at hd
  split at hd
  · unfold decodePayload at hd
    split at hd
    · next hlength =>
      refine ⟨hlength, ?_⟩
      split at hd
      · next f a hread =>
        split at hd
        · next hf =>
          generalize getOpReturnData (opretOf tx) = vopret at *
          match vopret with
          | x :: y :: rest =>
            rw [Unserialize.unmarshal_eq_some] at hread
            simp only [bind, StateT.bind, Unserialize.uint8_cons, bind_some,
              bind_eq_some_iff, Prod.exists] at hread
            obtain ⟨a', s', -, hpure⟩ := hread
            have hfa := congrArg (fun r => r.1.1) (some.inj hpure)
            exact hfa.trans hf
        · cases hd
      · cases hd
    · cases hd
  · cases hd

/-- A `'D'` is checked as one. -/
theorem oraclesValidate_eq (hd : decodeOraclesData (opretOf tx) = some d) :
    env.oraclesValidate tx = env.oraclesData tx := by
  obtain ⟨hlength, hfuncid⟩ := funcid_of_decode hd
  have hne : tx.vout ≠ [] := by
    rintro hnil
    rw [opretOf, hnil] at hlength
    cases hlength
  have hchecks : env.oraclesChecks tx (fid 'D') = env.oraclesData tx := rfl
  unfold oraclesValidate
  dsimp only
  rw [hfuncid, hchecks]
  simp [require, hne, hlength, bind, Except.bind]

/-- Off position 1 what is paid to the publisher counts. -/
theorem dataInput_of_ne_one (hcondition : isPayToCryptoCondition (env.publisherScript publisher) = true)
    {n : ℕ} (hn : n ≠ 1) (t : CTransaction) (out : CTxOut) :
    dataInput tx t n out (env.publisherScript publisher) =
      .ok (env.publisherValue publisher out) := by
  unfold dataInput publisherValue
  by_cases hscript : out.scriptPubKey = env.publisherScript publisher
  · have hvalue : isOraclesvout out = out.nValue := by
      rw [isOraclesvout, hscript, if_pos hcondition]
    rw [if_pos hscript, hvalue, if_neg hn, if_pos hscript.symm]
    split
    · next hzero => rw [hzero]; rfl
    · rfl
  · have hother : ¬ env.publisherScript publisher = out.scriptPubKey := fun h => hscript h.symm
    simp only [hscript, hother, hn, if_false, ite_self]
    rfl

theorem takes_eq_zero {i : CTxIn}
    (hcarries : ∀ t out, env.spent i = some (t, out) →
      out.scriptPubKey = env.publisherScript publisher →
        env.isMyVin EVAL_ORACLES i.scriptSig = true)
    (hmine : ¬ env.isMyVin EVAL_ORACLES i.scriptSig = true) : env.takes publisher i = 0 := by
  unfold takes
  rcases hspent : env.spent i with _ | ⟨t, out⟩
  · rfl
  · exact if_neg fun hscript => hmine (hcarries t out hspent hscript)

/-- The inputs behind the baton: what they take from the publisher. -/
theorem dataInputs_rest (hcondition : isPayToCryptoCondition (env.publisherScript publisher) = true)
    {vin : List CTxIn} {n : ℕ} (hn : 2 ≤ n)
    (hcarries : ∀ i ∈ vin, ∀ t out, env.spent i = some (t, out) →
      out.scriptPubKey = env.publisherScript publisher →
        env.isMyVin EVAL_ORACLES i.scriptSig = true) {inputs : ℤ}
    (h : env.dataInputs tx (env.publisherScript publisher) n vin = .ok inputs) :
    inputs = (vin.map (env.takes publisher)).sum := by
  induction vin generalizing n inputs with
  | nil => exact (Checked.pure_eq_ok.1 h).symm
  | cons i vin ih =>
    have ih := fun {inputs} => @ih (n + 1) (by omega)
      (fun j hj => hcarries j (mem_cons_of_mem _ hj)) inputs
    rw [map_cons, sum_cons]
    unfold dataInputs at h
    split at h
    · simp only [Checked.bind_eq_ok, expect_eq_ok, defined_eq_ok, Checked.pure_eq_ok,
        dataInput_of_ne_one hcondition (show n ≠ 1 by omega), Except.ok.injEq] at h
      obtain ⟨-, -, t, ht, out, hout, -, rfl, rest, hrest, rfl⟩ := h
      have htakes : env.takes publisher i = env.publisherValue publisher out := by
        rw [takes, ContractEnv.spent_eq_some.2 ⟨ht, hout⟩, elim_some]
      rw [htakes, ih hrest]
    · next hmine =>
      rw [takes_eq_zero (hcarries i mem_cons_self) hmine, zero_add, ih h]

/-- The input loop: the first input is none of the contract's, and what the inputs behind the
second take from the publisher is summed. -/
theorem InputsChecked.dataInputs_ok (hcalled : env.InputsChecked maxMoney publisher tx)
    {vin₀ vin₁ : CTxIn} {vin : List CTxIn} (hvin : tx.vin = vin₀ :: vin₁ :: vin) {inputs : ℤ}
    (h : env.dataInputs tx (env.publisherScript publisher) 0 tx.vin = .ok inputs) :
    env.isMyVin EVAL_ORACLES vin₀.scriptSig = false ∧
      (∀ t out, env.SpendsOracle tx 1 t out → isOraclesvout out ≠ 0 →
        ∃ old new, t.vout[1]? = some old ∧ tx.vout[1]? = some new ∧
          old.scriptPubKey = new.scriptPubKey) ∧
      inputs = (vin.map (env.takes publisher)).sum := by
  have hcarries : ∀ i ∈ vin, ∀ t out, env.spent i = some (t, out) →
      out.scriptPubKey = env.publisherScript publisher →
        env.isMyVin EVAL_ORACLES i.scriptSig = true := fun i hi =>
    hcalled.carries i (hvin ▸ mem_cons_of_mem _ (mem_cons_of_mem _ hi))
  have hrest := fun {inputs} => @dataInputs_rest env tx _ hcalled.condition vin 2 le_rfl hcarries inputs
  rw [hvin] at h
  unfold dataInputs at h
  split at h
  · simp [require, bind, Except.bind] at h
  · next hmine₀ =>
    refine ⟨by simpa using hmine₀, ?_⟩
    unfold dataInputs at h
    split at h
    · simp only [Checked.bind_eq_ok, expect_eq_ok, defined_eq_ok, Checked.pure_eq_ok] at h
      obtain ⟨-, -, t, ht, out, hout, v, hv, rest, hinputs, rfl⟩ := h
      have hone : ∀ t' out', env.SpendsOracle tx 1 t' out' → t' = t ∧ out' = out := by
        rintro t' out' ⟨i, hi, -, hspent⟩
        rw [hvin] at hi
        cases hi
        obtain ⟨ht', hout'⟩ := ContractEnv.spent_eq_some.1 hspent
        obtain rfl := some.inj (ht.symm.trans ht')
        exact ⟨rfl, some.inj (hout'.symm.trans hout)⟩
      rw [hrest hinputs]
      unfold dataInput at hv
      split at hv
      · next hzero =>
        refine ⟨fun t' out' hspends hne => ?_, by rw [← Checked.pure_eq_ok.1 hv, zero_add]⟩
        obtain ⟨rfl, rfl⟩ := hone t' out' hspends
        exact absurd hzero hne
      · simp only [if_true, Checked.bind_eq_ok, defined_eq_ok, require_eq_ok, decide_eq_true_eq,
          Checked.pure_eq_ok] at hv
        obtain ⟨old, hold, new, hnew, -, hsame, rfl⟩ := hv
        refine ⟨fun t' out' hspends _ => ?_, zero_add _⟩
        obtain ⟨rfl, rfl⟩ := hone t' out' hspends
        exact ⟨old, new, hold, hnew, hsame⟩
    · next hmine₁ =>
      refine ⟨?_, hrest h⟩
      rintro t out ⟨i, hi, hmine, -⟩
      rw [hvin] at hi
      cases hi
      exact absurd hmine hmine₁

/-- The input loop reads only outputs that exist if the transaction of the baton has one at
position 1. -/
theorem InputsChecked.dataInputs_ne_undefined (hcalled : env.InputsChecked maxMoney publisher tx)
    (hlength : 2 ≤ tx.vout.length)
    (hbaton : ∀ t out, env.SpendsOracle tx 1 t out → isOraclesvout out ≠ 0 → t.vout[1]? ≠ none)
    {n : ℕ} {vin : List CTxIn} (hvin : tx.vin.drop n = vin) :
    env.dataInputs tx (env.publisherScript publisher) n vin ≠ .error .undefined := by
  induction vin generalizing n with
  | nil => rintro ⟨⟩
  | cons i vin ih =>
    have hi : tx.vin[n]? = some i := by
      rw [← head?_drop, hvin]
      rfl
    have ih := ih (n := n + 1) (by rw [← tail_drop, hvin, tail_cons])
    intro h
    rw [dataInputs] at h
    split at h
    · next hmine =>
      simp only [Checked.bind_eq_error, expect_ne_undefined, require_ne_undefined,
        defined_eq_undefined, expect_eq_ok, defined_eq_ok, false_or] at h
      obtain ⟨-, -, t, ht, hnone | ⟨out, hout, hinput | ⟨v, -, hrest | ⟨rest, -, hpure⟩⟩⟩⟩ := h
      · have hlt := hcalled.exist i (mem_of_getElem? hi) t ht
        rw [getElem?_eq_none_iff] at hnone
        omega
      · by_cases hn : n = 1
        · subst hn
          unfold dataInput at hinput
          simp only [if_true] at hinput
          split at hinput
          · cases hinput
          · next hne =>
            simp only [Checked.bind_eq_error, require_ne_undefined, defined_eq_undefined,
              false_or] at hinput
            rcases hinput with hold | ⟨-, -, hnew | ⟨-, -, -, -, hpure⟩⟩
            · exact hbaton t out ⟨i, hi, hmine, ContractEnv.spent_eq_some.2 ⟨ht, hout⟩⟩ hne hold
            · rw [getElem?_eq_none_iff] at hnew
              omega
            · cases hpure
        · rw [dataInput_of_ne_one hcalled.condition hn] at hinput
          cases hinput
      · exact ih hrest
      · cases hpure
    · exact ih h

variable (env) in
/-- A datum with too few inputs or outputs is rejected, and another is checked with the value of
its third output as the fee. -/
theorem oraclesData_cases (hd : decodeOraclesData (opretOf tx) = some d) :
    (∃ message, env.oraclesData tx = .error (.invalid message)) ∨
      ∃ vin₀ vin₁ vin out₀ out₁ out₂ vout, tx.vin = vin₀ :: vin₁ :: vin ∧
        tx.vout = out₀ :: out₁ :: out₂ :: vout ∧
        env.oraclesData tx = env.oraclesDataValidate tx d.oracletxid d.pk out₂.nValue := by
  unfold oraclesData
  rw [hd]
  rcases hvin : tx.vin with _ | ⟨vin₀, _ | ⟨vin₁, vin⟩⟩
  · exact .inl ⟨_, rfl⟩
  · exact .inl ⟨_, rfl⟩
  · rcases hvout : tx.vout with _ | ⟨out₀, _ | ⟨out₁, _ | ⟨out₂, vout⟩⟩⟩
    · exact .inl ⟨_, rfl⟩
    · exact .inl ⟨_, rfl⟩
    · exact .inl ⟨_, rfl⟩
    · refine .inr ⟨vin₀, vin₁, vin, out₀, out₁, out₂, vout, rfl, rfl, ?_⟩
      simp [expect, defined, bind, Except.bind, Option.filter]

theorem oraclesDataValidate_ok {oracletxid : Uint256} {datafee : ℤ} {out₀ : CTxOut}
    {vout : List CTxOut} (hvout : tx.vout = out₀ :: vout)
    (h : env.oraclesDataValidate tx oracletxid publisher datafee = .ok ()) :
    env.oracleDatafee oracletxid publisher = .ok datafee ∧
      ∃ inputs, env.dataInputs tx (env.publisherScript publisher) 0 tx.vin = .ok inputs ∧
        (isOraclesvout out₀ = 0 ∨ out₀.scriptPubKey = env.publisherScript publisher) ∧
        toInt64 inputs = toInt64 (isOraclesvout out₀ + datafee) := by
  unfold oraclesDataValidate dataOutput at h
  simp only [hvout, getElem?_cons_zero, Checked.bind_eq_ok, defined_eq_ok, require_eq_ok,
    Checked.pure_eq_ok, decide_eq_true_eq, some.injEq] at h
  obtain ⟨fee, hfee, _, rfl, inputs, hinputs, outputs, ⟨_, rfl, _, hscript, rfl⟩, heq⟩ := h
  exact ⟨hfee, inputs, hinputs, hscript, heq⟩

theorem oraclesDataValidate_undefined {oracletxid : Uint256} {datafee fee : ℤ}
    (hvout : tx.vout ≠ []) (hfee : env.oracleDatafee oracletxid publisher = .ok fee)
    (h : env.oraclesDataValidate tx oracletxid publisher datafee = .error .undefined) :
    env.dataInputs tx (env.publisherScript publisher) 0 tx.vin = .error .undefined := by
  obtain ⟨out₀, vout, hvout⟩ := exists_cons_of_ne_nil hvout
  unfold oraclesDataValidate dataOutput at h
  simp only [hvout, getElem?_cons_zero, Checked.bind_eq_error, require_ne_undefined,
    defined_eq_undefined, false_or, hfee, reduceCtorEq, and_false, exists_false, or_false] at h
  obtain ⟨_, _, _, _, hinputs | ⟨_, _, _, _, _, _, hpure⟩⟩ := h
  · exact hinputs
  · cases hpure

/-- Nothing is read that is not there when the fee is known and the transaction of the baton has
an output at position 1. -/
theorem InputsChecked.inside (hcalled : env.InputsChecked maxMoney d.pk tx)
    (hd : decodeOraclesData (opretOf tx) = some d)
    (hpriced : ∃ datafee, env.oracleDatafee d.oracletxid d.pk = .ok datafee)
    (hbaton : ∀ t out, env.SpendsOracle tx 1 t out → isOraclesvout out ≠ 0 → t.vout[1]? ≠ none) :
    env.oraclesValidate tx ≠ .error .undefined := by
  rw [oraclesValidate_eq hd]
  intro h
  obtain ⟨fee, hfee⟩ := hpriced
  rcases oraclesData_cases env hd with ⟨message, hinvalid⟩ |
    ⟨vin₀, vin₁, vin, out₀, out₁, out₂, vout, hvin, hvout, hchecked⟩
  · rw [hinvalid] at h
    cases h
  · rw [hchecked] at h
    refine hcalled.dataInputs_ne_undefined ?_ hbaton drop_zero
      (oraclesDataValidate_undefined ?_ hfee h)
    · simp [hvout]
    · simp [hvout]

/-! ### When a datum is orderly -/

/-- What the inputs behind the first two take is an amount of money. -/
theorem InputsChecked.takes_bounds (hcalled : env.InputsChecked maxMoney publisher tx)
    {vin₀ vin₁ : CTxIn} {vin : List CTxIn} (hvin : tx.vin = vin₀ :: vin₁ :: vin) :
    0 ≤ (vin.map (env.takes publisher)).sum ∧ (vin.map (env.takes publisher)).sum < 2 ^ 63 := by
  have hmax := hcalled.maxMoney_lt
  have hbounds : ∀ i ∈ tx.vin, 0 ≤ env.takes publisher i ∧
      env.takes publisher i ≤ (env.spent i).elim 0 fun p => p.2.nValue := by
    intro i hi
    unfold takes
    rcases hspent : env.spent i with _ | ⟨t, out⟩
    · exact ⟨le_rfl, le_rfl⟩
    · have hnonneg := hcalled.spent_nonneg i hi t out hspent
      simp only [elim_some, publisherValue]
      split_ifs <;> omega
  have hsum := (sum_le_sum fun i hi => (hbounds i hi).2).trans hcalled.spent_sum
  rw [hvin] at hbounds hsum
  rw [map_cons, sum_cons, map_cons, sum_cons] at hsum
  have h₀ := (hbounds vin₀ (by simp)).1
  have h₁ := (hbounds vin₁ (by simp)).1
  constructor
  · refine sum_nonneg ?_
    simpa using fun i hi => (hbounds i (by simp [hi])).1
  · omega

/-- An output of the publisher's among the checked ones is an amount of money, with the fee. -/
theorem InputsChecked.change_bounds (hcalled : env.InputsChecked maxMoney publisher tx)
    {out₀ out₁ out₂ : CTxOut} {vout : List CTxOut} (hvout : tx.vout = out₀ :: out₁ :: out₂ :: vout) :
    0 ≤ out₀.nValue + out₂.nValue ∧ out₀.nValue + out₂.nValue < 2 ^ 63 ∧ 0 ≤ out₀.nValue ∧
      0 ≤ out₂.nValue := by
  have hmax := hcalled.maxMoney_lt
  have hnonneg := hcalled.out_nonneg
  have hsum := hcalled.out_sum
  rw [hvout] at hnonneg hsum
  have hrest : 0 ≤ (vout.map CTxOut.nValue).sum := by
    refine sum_nonneg ?_
    simpa using fun out hout => hnonneg out (by simp [hout])
  simp only [map_cons, sum_cons] at hsum
  have h₀ := hnonneg out₀ (by simp)
  have h₁ := hnonneg out₁ (by simp)
  have h₂ := hnonneg out₂ (by simp)
  refine ⟨by omega, by omega, h₀, h₂⟩

theorem isOraclesvout_eq (hcondition : isPayToCryptoCondition (env.publisherScript publisher) = true)
    {out : CTxOut} (h : isOraclesvout out = 0 ∨ out.scriptPubKey = env.publisherScript publisher) :
    isOraclesvout out = env.publisherValue publisher out := by
  unfold publisherValue
  by_cases hscript : out.scriptPubKey = env.publisherScript publisher
  · rw [isOraclesvout, if_pos hscript, hscript, if_pos hcondition]
  · rw [if_neg hscript]
    exact h.resolve_right hscript

/-- In an accepted datum the inputs behind the baton pay the change and the fee. -/
theorem InputsChecked.accepted (hcalled : env.InputsChecked maxMoney d.pk tx)
    (hd : decodeOraclesData (opretOf tx) = some d) (h : env.oraclesValidate tx = .ok ()) :
    ∃ datafee, env.oracleDatafee d.oracletxid d.pk = .ok datafee ∧
      env.leaving d.pk tx = datafee + (tx.vin[1]?).elim 0 (env.takes d.pk) -
        ((tx.vout.drop 1).map (env.publisherValue d.pk)).sum ∧
      (∀ t out, ¬ env.SpendsOracle tx 0 t out) ∧
      ∀ t out, env.SpendsOracle tx 1 t out → isOraclesvout out ≠ 0 →
        ∃ old new, t.vout[1]? = some old ∧ tx.vout[1]? = some new ∧
          old.scriptPubKey = new.scriptPubKey := by
  rw [oraclesValidate_eq hd] at h
  rcases oraclesData_cases env hd with ⟨message, hinvalid⟩ |
    ⟨vin₀, vin₁, vin, out₀, out₁, out₂, vout, hvin, hvout, hchecked⟩
  · rw [hinvalid] at h
    cases h
  · rw [hchecked] at h
    obtain ⟨hfee, inputs, hinputs, hchange, heq⟩ := oraclesDataValidate_ok hvout h
    obtain ⟨hmine₀, hbaton, rfl⟩ := hcalled.dataInputs_ok hvin hinputs
    have htakes₀ : env.takes d.pk vin₀ = 0 := takes_eq_zero
      (hcalled.carries vin₀ (by rw [hvin]; exact mem_cons_self)) (by simp [hmine₀])
    have hvalue₀ := isOraclesvout_eq hcalled.condition hchange
    obtain ⟨hin, hin'⟩ := hcalled.takes_bounds hvin
    obtain ⟨hout, hout', hout₀, hout₂⟩ := hcalled.change_bounds hvout
    have hvalue : 0 ≤ env.publisherValue d.pk out₀ ∧ env.publisherValue d.pk out₀ ≤ out₀.nValue := by
      unfold publisherValue
      split_ifs <;> omega
    rw [toInt64_of_range (by omega) hin', hvalue₀, toInt64_of_range (by omega) (by omega)] at heq
    refine ⟨out₂.nValue, hfee, ?_, ?_, hbaton⟩
    · rw [leaving, hvin, hvout]
      simp only [map_cons, sum_cons, drop_succ_cons, drop_zero,
        getElem?_cons_succ, getElem?_cons_zero, elim_some, htakes₀, heq]
      omega
    · rintro t out ⟨i, hi, hmine, -⟩
      rw [hvin] at hi
      cases hi
      rw [hmine₀] at hmine
      cases hmine

/-- **A datum does what it is for exactly when it is orderly.** One that is not rejected takes the
registered fee, and nothing else, from the publisher, hands on the baton, spends nothing else of
the contract and has everything read at its place if and only if it is orderly. -/
theorem oraclesData_iff (hcalled : env.InputsChecked maxMoney d.pk tx)
    (hd : decodeOraclesData (opretOf tx) = some d)
    (hnot : ∀ message, env.oraclesValidate tx ≠ .error (.invalid message)) :
    env.OneFee d tx ↔ env.Orderly d tx := by
  have hok : env.oraclesValidate tx ≠ .error .undefined → env.oraclesValidate tx = .ok () := by
    intro hinside
    cases h : env.oraclesValidate tx with
    | ok u => rfl
    | error e =>
      cases e with
      | invalid message => exact absurd h (hnot message)
      | undefined => exact absurd h hinside
  constructor
  · intro h
    obtain ⟨datafee, hdatafee, hleaving, hfirst, hbaton⟩ := hcalled.accepted hd (hok h.inside)
    obtain ⟨fee, hfee, hfeeleaving⟩ := h.fee
    refine ⟨⟨fee, hfee⟩, fun t out hspends => ?_, ?_, fun n t out hn => h.others n t out (by omega)⟩
    · split
      · exact h.baton t out hspends
      · next hne =>
        obtain ⟨old, new, hold, hnew, hsame⟩ := hbaton t out hspends hne
        have hnewscript := h.baton t out hspends
        rw [hnew, Option.map_some] at hnewscript
        rw [hold, Option.map_some, hsame, hnewscript]
    · rw [hdatafee] at hfee
      obtain rfl := Except.ok.inj hfee
      omega
  · intro h
    have hinside := hcalled.inside hd h.priced fun t out hspends hne hnone => by
      have hbaton := h.baton t out hspends
      rw [if_neg hne, hnone] at hbaton
      cases hbaton
    obtain ⟨datafee, hdatafee, hleaving, hfirst, hbaton⟩ := hcalled.accepted hd (hok hinside)
    refine ⟨⟨datafee, hdatafee, ?_⟩, fun t out hspends => ?_, fun n t out hn hspends => ?_, hinside⟩
    · have hexempt := h.exempt
      omega
    · have hscript := h.baton t out hspends
      split at hscript
      · exact hscript
      · next hne =>
        obtain ⟨old, new, hold, hnew, hsame⟩ := hbaton t out hspends hne
        rw [hold, Option.map_some, hsame] at hscript
        rw [hnew, Option.map_some, hscript]
    · rcases n with _ | _ | n
      · exact absurd hspends (hfirst t out)
      · exact absurd rfl hn
      · exact h.others _ t out (by omega) hspends

end OraclesEnv

/-! ### A publisher and its subscriptions -/

namespace OraclesSample

/-- The key of the publisher. -/
def publisher : CPubKey := 0x02 :: List.replicate 32 0x33

/-- The key of its baton. -/
def batonpk : CPubKey := 0x03 :: List.replicate 32 0x44

/-- `cc_conditionBinary(MakeCCcond1(EVAL_ORACLES, publisher))`. -/
def publisherCondition : Bytes :=
  [0xa2, 0x2c, 0x80, 0x20, 0xf7, 0x4a, 0x57, 0xbd, 0xb1, 0xbd, 0x11, 0x8d, 0xc4, 0x83, 0x1a,
   0x2c, 0xc6, 0xab, 0x85, 0xc3, 0x9d, 0xd0, 0xa1, 0x5c, 0xe4, 0x9c, 0xf5, 0x5c, 0x0b, 0xab,
   0x31, 0xf5, 0x4f, 0x01, 0x78, 0xdf, 0x81, 0x03, 0x12, 0x0c, 0x00, 0x82, 0x03, 0x00, 0x04,
   0x01]

/-- `cc_conditionBinary(MakeCCcond1(EVAL_ORACLES, batonpk))`. -/
def batonCondition : Bytes :=
  [0xa2, 0x2c, 0x80, 0x20, 0x82, 0xa6, 0xb7, 0x00, 0x28, 0x2a, 0x5b, 0x0a, 0x28, 0xb1, 0xad,
   0xe4, 0xc7, 0xd6, 0x03, 0x2a, 0xdf, 0x1c, 0x5d, 0x21, 0x26, 0x69, 0x73, 0x6c, 0x89, 0x36,
   0x03, 0xb2, 0x65, 0x3e, 0xea, 0xe7, 0x81, 0x03, 0x12, 0x0c, 0x00, 0x82, 0x03, 0x00, 0x04,
   0x01]

/-- The script of an output of a condition. -/
def scriptOf (condition : Bytes) : CScript := pushData condition ++ [OP_CHECKCRYPTOCONDITION]

/-- The normal script of the publisher. -/
def normal : CScript := payToPubkey publisher

/-- The oracle. -/
def oracle : CTransaction where
  hash := 1
  vin := []
  vout := [⟨10000, [0x51]⟩,
    ⟨0, opReturnScript ([EVAL_ORACLES, fid 'C'] ++ vectorBytes [88] ++ vectorBytes [76]
      ++ vectorBytes [])⟩]

/-- The registration, a million satoshis for a datum. -/
def register : CTransaction where
  hash := 2
  vin := []
  vout := [⟨10000, payToPubkey (0x02 :: uint256Bytes 1)⟩, ⟨10000, scriptOf batonCondition⟩,
    ⟨10000, normal⟩,
    ⟨0, opReturnScript ([EVAL_ORACLES, fid 'R'] ++ uint256Bytes 1 ++ vectorBytes publisher
      ++ intBytes 8 1000000)⟩]

/-- A subscription. -/
def subscribe (hash : Uint256) (value : ℤ) : CTransaction where
  hash := hash
  vin := []
  vout := [⟨value, scriptOf publisherCondition⟩]

/-- The opreturn of a datum. -/
def dataOpret (batontxid : Uint256) : CScript :=
  opReturnScript ([EVAL_ORACLES, fid 'D'] ++ uint256Bytes 1 ++ uint256Bytes batontxid
    ++ vectorBytes publisher ++ vectorBytes [7])

/-- A normal coin of the publisher. -/
def coin : CTransaction where
  hash := 5
  vin := []
  vout := [⟨30000, normal⟩, ⟨30000, normal⟩, ⟨30000, normal⟩]

/-- The first datum: the baton of the registration, and a subscription of five million. -/
def datum : CTransaction where
  hash := 6
  vin := [⟨⟨5, 0⟩, [], 0⟩, ⟨⟨2, 1⟩, scriptSig1 EVAL_ORACLES batonpk, 0⟩,
    ⟨⟨3, 0⟩, scriptSig1 EVAL_ORACLES publisher, 0⟩]
  vout := [⟨4000000, scriptOf publisherCondition⟩, ⟨10000, scriptOf batonCondition⟩,
    ⟨1000000, normal⟩, ⟨0, dataOpret 2⟩]

/-- The second: its input 1 is not the baton but the change of the first datum, all of which is
paid out. -/
def drain : CTransaction where
  hash := 7
  vin := [⟨⟨5, 1⟩, [], 0⟩, ⟨⟨6, 0⟩, scriptSig1 EVAL_ORACLES publisher, 0⟩,
    ⟨⟨4, 0⟩, scriptSig1 EVAL_ORACLES publisher, 0⟩]
  vout := [⟨4000000, normal⟩, ⟨10000, scriptOf batonCondition⟩, ⟨1000000, normal⟩,
    ⟨0, dataOpret 6⟩]

/-- A datum whose input 1 spends the only output of its transaction. -/
def unread : CTransaction where
  hash := 8
  vin := [⟨⟨5, 2⟩, [], 0⟩, ⟨⟨4, 0⟩, scriptSig1 EVAL_ORACLES publisher, 0⟩]
  vout := [⟨0, normal⟩, ⟨10000, scriptOf batonCondition⟩, ⟨1000000, normal⟩, ⟨0, dataOpret 6⟩]

/-- A node that has seen the first datum. -/
def env : OraclesEnv where
  conditionBinary
    | .threshold 2 2 [.eval [0xec], .threshold 1 1 [.secp256k1 pk _]] =>
      if pk = publisher then publisherCondition else batonCondition
    | _ => []
  readFulfillmentBinary b :=
    if b = fulfillment1 EVAL_ORACLES publisher then some (signedCond1 EVAL_ORACLES publisher)
    else if b = fulfillment1 EVAL_ORACLES batonpk then some (signedCond1 EVAL_ORACLES batonpk)
    else none
  anonPublicKey _ := []
  anonHasCode _ _ := false
  solver _ := none
  hash160 b := b
  getscriptaddress s :=
    if s = payToPubkey (0x02 :: uint256Bytes 1) then some "RNkXgGCssY54TenY2MRqiJFP5oxSPrLWtJ"
    else none
  getTransaction :=
    findTx [oracle, register, subscribe 3 5000000, subscribe 4 1000000, coin, datum] 100
  blockIndex _ := none
  tip := ⟨1000, 1700000000⟩
  lastNotarizedHeight := 0
  sha256 b := b
  normalUnspents a := if a = "RNkXgGCssY54TenY2MRqiJFP5oxSPrLWtJ" then [(1, 10), (2, 20)] else []
  latestTimestamp := 1700000000

/-- What the opreturn of a datum says. -/
def dataOf (batontxid : Uint256) : OraclesData := ⟨1, batontxid, publisher, [7]⟩

/-- The checks before the call, evaluated. -/
theorem inputsChecked_of {tx : CTransaction}
    (hexist : ∀ i ∈ tx.vin, (env.lookup i.prevout.hash).all
      (fun t => i.prevout.n < t.vout.length) = true)
    (hspent : ∀ i ∈ tx.vin, (env.spent i).all (fun p => 0 ≤ p.2.nValue ∧
      (p.2.scriptPubKey = env.publisherScript publisher →
        env.isMyVin EVAL_ORACLES i.scriptSig = true)) = true)
    (hspentSum : (tx.vin.map fun i => (env.spent i).elim 0 fun p => p.2.nValue).sum ≤ 200000000)
    (hout : ∀ out ∈ tx.vout, 0 ≤ out.nValue)
    (houtSum : (tx.vout.map CTxOut.nValue).sum ≤ 200000000) :
    env.InputsChecked 200000000 publisher tx where
  maxMoney_lt := by omega
  exist i hi t h := by simpa [h] using hexist i hi
  spent_nonneg i hi t out h := by
    have hboth := hspent i hi
    rw [h, Option.all_some, decide_eq_true_eq] at hboth
    exact hboth.1
  spent_sum := hspentSum
  out_nonneg := hout
  out_sum := houtSum
  carries i hi t out h := by
    have hboth := hspent i hi
    rw [h, Option.all_some, decide_eq_true_eq] at hboth
    exact hboth.2
  condition := by decide

/-- Input 1 of the first datum is the baton of the registration, input 2 the subscription. -/
theorem orderly_datum : env.Orderly (dataOf 2) datum where
  priced := ⟨1000000, by decide⟩
  baton := by
    rintro t out ⟨i, hi, -, hspent⟩
    cases hi
    have hbaton : env.spent ⟨⟨2, 1⟩, scriptSig1 EVAL_ORACLES batonpk, 0⟩ =
        some (register, ⟨10000, scriptOf batonCondition⟩) := by decide
    obtain ⟨rfl, rfl⟩ := Prod.mk.inj (Option.some.inj (hbaton.symm.trans hspent))
    decide
  exempt := by decide
  others := by
    rintro (_ | _ | _ | n) t out hn ⟨i, hi, -, hspent⟩
    · omega
    · omega
    · cases hi
      have hpaid : env.spent ⟨⟨3, 0⟩, scriptSig1 EVAL_ORACLES publisher, 0⟩ =
          some (subscribe 3 5000000, ⟨5000000, scriptOf publisherCondition⟩) := by decide
      obtain ⟨rfl, rfl⟩ := Prod.mk.inj (Option.some.inj (hpaid.symm.trans hspent))
      decide
    · cases hi

end OraclesSample

open OraclesSample in
/-- The hypotheses of `oraclesData_iff` are satisfiable: the first datum is accepted and does what
it is for. -/
theorem oneFee_datum : env.oraclesValidate datum = .ok () ∧ env.OneFee (dataOf 2) datum := by
  have hcalled : env.InputsChecked 200000000 publisher datum :=
    inputsChecked_of (by decide +kernel) (by decide +kernel) (by decide +kernel) (by decide)
      (by decide)
  have hok : env.oraclesValidate datum = .ok () := by decide +kernel
  refine ⟨hok, (OraclesEnv.oraclesData_iff hcalled (by decide) fun message h => ?_).2
    orderly_datum⟩
  rw [hok] at h
  cases h

open OraclesSample in
/-- **Input 1 need not be the baton.** The change of the first datum goes through as input 1 of a
second and is paid out, five fees for one; and where the transaction of input 1 has one output, a
second one is read. -/
theorem not_oneFee_drain :
    (env.InputsChecked 200000000 publisher drain ∧ decodeOraclesData (opretOf drain) = some (dataOf 6) ∧
      env.oraclesValidate drain = .ok () ∧ ¬ env.OneFee (dataOf 6) drain) ∧
        env.InputsChecked 200000000 publisher unread ∧
          env.oraclesValidate unread = .error .undefined := by
  refine ⟨⟨?_, by decide +kernel, by decide +kernel, fun h => ?_⟩, ?_, by decide +kernel⟩
  · exact inputsChecked_of (by decide +kernel) (by decide +kernel) (by decide +kernel) (by decide)
      (by decide)
  · obtain ⟨datafee, hdatafee, hleaving⟩ := h.fee
    have hfee : env.oracleDatafee (dataOf 6).oracletxid (dataOf 6).pk = .ok 1000000 := by
      decide
    obtain rfl := Except.ok.inj (hfee.symm.trans hdatafee)
    exact absurd hleaving (by decide)
  · exact inputsChecked_of (by decide +kernel) (by decide +kernel) (by decide +kernel) (by decide)
      (by decide)

end Komodo
