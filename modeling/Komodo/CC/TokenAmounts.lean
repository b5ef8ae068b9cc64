/-
# The amounts of a token transaction

Facts about `IsTokensvout` and `TokensExactAmounts` (`src/src/cc/CCtokens.cpp`)
for one transaction and any transaction lookup: the deep amount of an output
is its flat amount if the transaction is the creation or balances, and zero
otherwise (`isTokensvout_deep`); the input sum is the sum over the token inputs
(`tokenInputs_val`); amounts are not negative; the amounts read the lookup only
at the token id and at the parents (`isTokensvoutFlat_congr`,
`balanced_congr`); and what a transaction accepted by `TokensValidate` satisfies
(`tokensValidate_spec`).
-/

import Komodo.CC.Tokens

namespace Komodo

open List

variable {env : CCEnv} {lookup lookup' : TxLookup} {tokenid : Uint256} {tx : CTransaction}

/-- The inputs of a transaction that `cpTokens->ismyvin` takes for token inputs. -/
def tokenVins (env : CCEnv) (vin : List CTxIn) : List CTxIn :=
  vin.filter fun i => env.isMyVin EVAL_TOKENS i.scriptSig

theorem tokenVins_cons_pos {i : CTxIn} {vin : List CTxIn}
    (h : env.isMyVin EVAL_TOKENS i.scriptSig = true) :
    tokenVins env (i :: vin) = i :: tokenVins env vin := by
  simp [tokenVins, h]

theorem tokenVins_cons_neg {i : CTxIn} {vin : List CTxIn}
    (h : ¬ env.isMyVin EVAL_TOKENS i.scriptSig = true) :
    tokenVins env (i :: vin) = tokenVins env vin := by
  simp [tokenVins, h]

theorem mem_tokenVins {i : CTxIn} {vin : List CTxIn} :
    i ∈ tokenVins env vin ↔ i ∈ vin ∧ env.isMyVin EVAL_TOKENS i.scriptSig = true :=
  mem_filter

/-- `IsTokensvout` of the output an outpoint refers to; `0` if its transaction
is not found. -/
def tokenAmountAt (env : CCEnv) (goDeeper : Bool) (lookup : TxLookup) (tokenid : Uint256)
    (o : COutPoint) : ℤ :=
  match lookup o.hash with
  | some tx => (isTokensvout env goDeeper lookup tokenid tx (toInt32 o.n)).val
  | none => 0

/-- `TokensExactAmounts(false, …)` returns true. -/
def balanced (env : CCEnv) (lookup : TxLookup) (tokenid : Uint256) (tx : CTransaction) : Bool :=
  (tokensExactAmounts env false lookup tx tokenid).val.isEqual

/-! ### Values of the two functions -/

/-- The recognition that `IsTokensvout(true, …)` passes down is
`IsTokensvout(false, …)`. -/
theorem isTokensvout_false : isTokensvout env false lookup tokenid =
    fun vinTx n => pure (isTokensvoutFlat env lookup vinTx n tokenid) := by
  funext vinTx n
  unfold isTokensvout isTokensvoutFlat
  cases tokenVoutAt vinTx n with
  | none => rfl
  | some out => by_cases h : isPayToCryptoCondition out.scriptPubKey <;> simp [h]

theorem isTokensvout_flat (v : ℤ) : (isTokensvout env false lookup tokenid tx v).val =
    isTokensvoutFlat env lookup tx v tokenid := by
  rw [isTokensvout_false]
  rfl

/-- **The deep amount.** With `goDeeper` an output keeps its amount if its
transaction is the creation transaction or balances, and loses it otherwise. -/
theorem isTokensvout_deep (v : ℤ) : (isTokensvout env true lookup tokenid tx v).val =
    if balanced env lookup tokenid tx ∨ tokenid = tx.hash
    then isTokensvoutFlat env lookup tx v tokenid else 0 := by
  unfold balanced tokensExactAmounts
  rw [isTokensvout_false]
  unfold isTokensvout isTokensvoutFlat
  cases tokenVoutAt tx v with
  | none => simp
  | some out =>
    by_cases hout : isPayToCryptoCondition out.scriptPubKey
    · simp only [hout, if_true, EvalM.val_bind]
      split_ifs with h₁ h₂ h₂
      · rcases h₂ with h₂ | h₂
        · rw [h₁.1] at h₂; cases h₂
        · exact absurd h₂ h₁.2
      · rfl
      · rfl
      · rw [not_or, Bool.not_eq_true] at h₂
        exact absurd h₂ h₁
    · simp [hout]

/-- The input loop finds the parents of all token inputs and adds up their
amounts, or fails. -/
theorem tokenInputs_val (goDeeper : Bool) (vin : List CTxIn) :
    (tokenInputs env lookup (isTokensvout env goDeeper lookup tokenid) vin).val =
      if ∀ i ∈ tokenVins env vin, (lookup i.prevout.hash).isSome
      then some (((tokenVins env vin).map fun i =>
        tokenAmountAt env goDeeper lookup tokenid i.prevout).sum)
      else none := by
  induction vin with
  | nil => simp [tokenInputs, tokenVins]
  | cons i vin ih =>
    by_cases hi : env.isMyVin EVAL_TOKENS i.scriptSig
    · cases hl : lookup i.prevout.hash with
      | none => simp [tokenInputs, hi, hl, tokenVins_cons_pos hi]
      | some vinTx =>
        simp only [tokenInputs, hi, hl, if_true, EvalM.val_bind, EvalM.val_pure, ih,
          tokenVins_cons_pos hi, forall_mem_cons, Option.isSome_some, true_and, map_cons, sum_cons]
        split_ifs with h
        · simp [tokenAmountAt, hl]
        · rfl
    · rw [tokenVins_cons_neg hi, ← ih, tokenInputs, if_neg hi]

theorem tokensExactAmounts_isEqual (goDeeper : Bool) :
    (tokensExactAmounts env goDeeper lookup tx tokenid).val.isEqual = true ↔
      (∀ i ∈ tokenVins env tx.vin, (lookup i.prevout.hash).isSome) ∧
      ((tokenVins env tx.vin).map fun i =>
        tokenAmountAt env goDeeper lookup tokenid i.prevout).sum =
        tokenOutputs env lookup tx tokenid := by
  unfold tokensExactAmounts exactAmounts
  simp only [EvalM.val_bind, tokenInputs_val]
  split_ifs with h
  · simp only [EvalM.val_pure, decide_eq_true_eq]
    exact ⟨fun he => ⟨h, he⟩, fun he => he.2⟩
  · exact ⟨fun he => he.elim, fun he => absurd he.1 h⟩

/-- The input sum that `TokensExactAmounts` hands back when the amounts agree. -/
theorem tokensExactAmounts_inputs {goDeeper : Bool}
    (h : (tokensExactAmounts env goDeeper lookup tx tokenid).val.isEqual = true) :
    (tokensExactAmounts env goDeeper lookup tx tokenid).val.inputs =
      tokenOutputs env lookup tx tokenid := by
  have he := (tokensExactAmounts_isEqual goDeeper).1 h
  unfold tokensExactAmounts exactAmounts
  simp only [EvalM.val_bind, tokenInputs_val]
  rw [if_pos he.1]
  exact he.2

/-! ### Amounts are not negative -/

theorem transferTokensvout_nonneg {out : CTxOut} (d : TokenOpRet) (h : 0 ≤ out.nValue) :
    0 ≤ transferTokensvout env lookup tx out tokenid d := by
  unfold transferTokensvout
  simp only
  split_ifs <;> omega

theorem createTokensvout_nonneg {out : CTxOut} (h : 0 ≤ out.nValue) :
    0 ≤ createTokensvout env lookup tx out := by
  have hm : 0 ≤ if isTokenMarkerVout env out then 0 else out.nValue := by split_ifs <;> omega
  unfold createTokensvout
  split
  · exact hm
  · split
    · exact le_rfl
    · split
      · exact hm
      · exact le_rfl

/-- A flat amount is not negative if the output values are not. -/
theorem isTokensvoutFlat_nonneg (hv : ∀ out ∈ tx.vout, 0 ≤ out.nValue) (v : ℤ) :
    0 ≤ isTokensvoutFlat env lookup tx v tokenid := by
  unfold isTokensvoutFlat
  split
  · rename_i out hout
    have hmem : out ∈ tx.vout := by
      unfold tokenVoutAt at hout
      split_ifs at hout
      exact mem_of_getElem? hout
    split_ifs
    · unfold opretTokensvout
      split
      · split_ifs
        · exact transferTokensvout_nonneg _ (hv out hmem)
        · exact createTokensvout_nonneg (hv out hmem)
      · exact le_rfl
    · exact le_rfl
  · exact le_rfl

theorem isTokensvout_deep_bounds (hv : ∀ out ∈ tx.vout, 0 ≤ out.nValue) (v : ℤ) :
    0 ≤ (isTokensvout env true lookup tokenid tx v).val ∧
      (isTokensvout env true lookup tokenid tx v).val ≤
        isTokensvoutFlat env lookup tx v tokenid := by
  have : 0 ≤ isTokensvoutFlat env lookup tx v tokenid := isTokensvoutFlat_nonneg hv v
  rw [isTokensvout_deep]
  split_ifs <;> omega

theorem isTokensvoutFlat_outOfRange {v : ℤ} (h : v < 0 ∨ (tx.vout.length : ℤ) - 1 ≤ v) :
    isTokensvoutFlat env lookup tx v tokenid = 0 := by
  unfold isTokensvoutFlat tokenVoutAt
  rw [if_pos h]

theorem tokenOutputs_eq : tokenOutputs env lookup tx tokenid =
    ((range tx.vout.length).map fun i =>
      isTokensvoutFlat env lookup tx (i : ℕ) tokenid).sum := by
  unfold tokenOutputs
  rcases Nat.eq_zero_or_pos tx.vout.length with h | h
  · rw [h]
  · obtain ⟨k, hk⟩ : ∃ k, tx.vout.length = k + 1 := ⟨tx.vout.length - 1, by omega⟩
    rw [hk, Nat.add_sub_cancel, range_succ, map_append, sum_append]
    have hlast : isTokensvoutFlat env lookup tx (k : ℕ) tokenid = 0 :=
      isTokensvoutFlat_outOfRange (Or.inr (by rw [hk]; push_cast; omega))
    simp [hlast]

/-- An output sum of zero means that no output is recognised. -/
theorem isTokensvoutFlat_of_outputs_zero (hv : ∀ out ∈ tx.vout, 0 ≤ out.nValue)
    (h : tokenOutputs env lookup tx tokenid = 0) (v : ℤ) :
    isTokensvoutFlat env lookup tx v tokenid = 0 := by
  by_cases hr : v < 0 ∨ (tx.vout.length : ℤ) - 1 ≤ v
  · exact isTokensvoutFlat_outOfRange hr
  · rw [not_or] at hr
    unfold tokenOutputs at h
    have hle : isTokensvoutFlat env lookup tx v tokenid ≤ 0 := by
      rw [← h]
      refine single_le_sum ?_ _ (mem_map.2 ⟨v.toNat, mem_range.2 (by omega), ?_⟩)
      · intro a ha
        obtain ⟨i, -, rfl⟩ := mem_map.1 ha
        exact isTokensvoutFlat_nonneg hv _
      · rw [Int.toNat_of_nonneg (by omega)]
    exact le_antisymm hle (isTokensvoutFlat_nonneg hv v)

theorem isTokensvoutFlat_tokenid {d : TokenOpRet} (hd : tokenOpRet tx = some d)
    (ht : d.funcid = fid 't') {v : ℤ} (h : isTokensvoutFlat env lookup tx v tokenid ≠ 0) :
    tokenid = d.tokenid := by
  by_contra hne
  have hval : validateTokenOpret tx tokenid = none := by
    have hc : fid 't' ≠ fid 'c' := by decide
    have hi : fid 't' ≠ fid 'i' := by decide
    unfold validateTokenOpret
    simp [hd, ht, hc, hi, hne]
  refine h ?_
  unfold isTokensvoutFlat opretTokensvout
  rw [hval]
  split <;> simp

/-! ### What the amounts read of the lookup -/

/-- Two lookups agree on the parents of a transaction; those of a coin import
are never looked up for its amounts. -/
def AgreeAtParents (lookup lookup' : TxLookup) (tx : CTransaction) : Prop :=
  tx.isCoinImport = true ∨ ∀ i ∈ tx.vin, lookup i.prevout.hash = lookup' i.prevout.hash

theorem getNonfungibleData_congr (ht : lookup tokenid = lookup' tokenid) :
    getNonfungibleData lookup tokenid = getNonfungibleData lookup' tokenid := by
  unfold getNonfungibleData
  rw [ht]

theorem totalPubkeyNormalInputs_congr (pubkey : CPubKey)
    (hp : ∀ i ∈ tx.vin, lookup i.prevout.hash = lookup' i.prevout.hash) :
    totalPubkeyNormalInputs env lookup tx pubkey =
      totalPubkeyNormalInputs env lookup' tx pubkey := by
  unfold totalPubkeyNormalInputs
  refine congrArg sum (map_congr_left fun i hi => ?_)
  unfold pubkeyNormalInput
  rw [hp i hi]

theorem createTokensvout_congr (out : CTxOut) (hp : AgreeAtParents lookup lookup' tx) :
    createTokensvout env lookup tx out = createTokensvout env lookup' tx out := by
  unfold createTokensvout
  rcases hp with hi | hp
  · rw [if_pos hi, if_pos hi]
  · simp only [totalPubkeyNormalInputs_congr _ hp]

theorem isTokensvoutFlat_congr (ht : lookup tokenid = lookup' tokenid)
    (hp : AgreeAtParents lookup lookup' tx) (v : ℤ) :
    isTokensvoutFlat env lookup tx v tokenid = isTokensvoutFlat env lookup' tx v tokenid := by
  unfold isTokensvoutFlat opretTokensvout transferTokensvout
  simp only [getNonfungibleData_congr ht, createTokensvout_congr _ hp]

theorem tokenOutputs_congr (ht : lookup tokenid = lookup' tokenid)
    (hp : AgreeAtParents lookup lookup' tx) :
    tokenOutputs env lookup tx tokenid = tokenOutputs env lookup' tx tokenid := by
  unfold tokenOutputs
  simp only [isTokensvoutFlat_congr ht hp]

/-- Whether a transaction balances depends on the lookup at the token id, at the
parents and at theirs. -/
theorem balanced_congr (ht : lookup tokenid = lookup' tokenid)
    (hp : ∀ i ∈ tx.vin, lookup i.prevout.hash = lookup' i.prevout.hash)
    (hpp : ∀ i ∈ tx.vin, ∀ p, lookup i.prevout.hash = some p →
      AgreeAtParents lookup lookup' p) :
    balanced env lookup tokenid tx = balanced env lookup' tokenid tx := by
  have hvin : ∀ i ∈ tokenVins env tx.vin, i ∈ tx.vin := fun i hi => (mem_tokenVins.1 hi).1
  have hfound : (∀ i ∈ tokenVins env tx.vin, (lookup i.prevout.hash).isSome) ↔
      ∀ i ∈ tokenVins env tx.vin, (lookup' i.prevout.hash).isSome :=
    forall₂_congr fun i hi => by rw [hp i (hvin i hi)]
  have hsum : ((tokenVins env tx.vin).map fun i =>
        tokenAmountAt env false lookup tokenid i.prevout).sum =
      ((tokenVins env tx.vin).map fun i =>
        tokenAmountAt env false lookup' tokenid i.prevout).sum := by
    refine congrArg sum (map_congr_left fun i hi => ?_)
    unfold tokenAmountAt
    rw [← hp i (hvin i hi)]
    cases hl : lookup i.prevout.hash with
    | none => rfl
    | some p =>
      simp only [isTokensvout_flat]
      exact isTokensvoutFlat_congr ht (hpp i (hvin i hi) p hl) _
  unfold balanced
  rw [Bool.eq_iff_iff, tokensExactAmounts_isEqual, tokensExactAmounts_isEqual, hfound, hsum,
    tokenOutputs_congr ht (Or.inr hp)]

/-! ### What an accepted transaction satisfies -/

theorem validateTransfer_spec {chain : ChainContext} {d : TokenOpRet} {inputs : ℤ}
    (h : (validateTransfer env chain tx d inputs).val = true) :
    d.funcid = fid 't' ∧ inputs ≠ 0 := by
  unfold validateTransfer at h
  split_ifs at h with h₁ h₂ h₃ h₄
  · cases h
  · cases h
  · cases h
  · exact ⟨h₃, h₄⟩
  · cases h

/-- **An accepted transfer.** Outside the exempt window, a transaction accepted
by `TokensValidate` is a transfer of a token whose creation is found, and the
deep amounts of its token inputs add up to the amounts of its outputs, which
are not zero in total. -/
theorem tokensValidate_spec {chain : ChainContext}
    (h : (tokensValidate env chain tx).val = true) (hx : chain.exempt = false) :
    ∃ d, tokenOpRet tx = some d ∧ d.funcid = fid 't' ∧ chain.lookup d.tokenid ≠ none ∧
      (∀ i ∈ tokenVins env tx.vin, (chain.lookup i.prevout.hash).isSome) ∧
      ((tokenVins env tx.vin).map fun i =>
        tokenAmountAt env true chain.lookup d.tokenid i.prevout).sum =
        tokenOutputs env chain.lookup tx d.tokenid ∧
      tokenOutputs env chain.lookup tx d.tokenid ≠ 0 := by
  unfold tokensValidate at h
  rw [hx, if_neg Bool.false_ne_true] at h
  cases hlast : tx.vout.getLast? with
  | none => rw [hlast] at h; cases h
  | some opret =>
    cases hd : decodeTokenOpRet opret.scriptPubKey with
    | none => simp [hlast, hd] at h
    | some d =>
      have hop : tokenOpRet tx = some d := by rw [tokenOpRet, hlast]; exact hd
      simp only [hlast, hd] at h
      by_cases hl : chain.lookup d.tokenid = none
      · rw [if_pos hl] at h; cases h
      rw [if_neg hl] at h
      by_cases hc : d.funcid = fid 'c'
      · rw [if_pos hc] at h
        exact absurd rfl (validateTransfer_spec h).2
      rw [if_neg hc] at h
      by_cases hz : d.tokenid = 0
      · rw [if_pos hz] at h; cases h
      rw [if_neg hz, EvalM.val_bind] at h
      by_cases he : (tokensExactAmounts env true chain.lookup tx d.tokenid).val.isEqual = true
      · rw [if_pos he] at h
        have heq := (tokensExactAmounts_isEqual true).1 he
        obtain ⟨ht, hin⟩ := validateTransfer_spec h
        rw [tokensExactAmounts_inputs he] at hin
        exact ⟨d, hop, ht, hl, heq.1, heq.2, hin⟩
      · rw [if_neg he] at h
        cases h

end Komodo
