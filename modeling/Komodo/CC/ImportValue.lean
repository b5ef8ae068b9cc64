/-
# What an import pays out and what was burned

The purpose of the amount checks in `Eval::ImportCoin` and `CheckMigration` of
`src/src/cc/import.cpp` and of `GetCoinImportValue` of `src/src/importcoin.cpp`. An import
skips the test that a transaction pays out no more than its inputs are worth
(`ContextualCheckInputs` of `src/src/main.cpp`), so these checks alone bound it.

The normal outputs are compared with the coins that were burned, at most `10000` less. The
crypto-condition outputs are compared with the tokens that were burned, markers aside, if
the import is one of tokens; otherwise with nothing. `import_backed_iff` says when the
outputs are worth no more than the burn: when those that are compared with nothing fit into
what the normal ones leave over.
-/

import Komodo.CC.ImportTokens

namespace Komodo

open List

/-- The amounts of a transaction, as `CheckTransaction` has checked them on its chain. -/
structure AmountsChecked (maxMoney : ℤ) (tx : CTransaction) : Prop where
  maxMoney_lt : maxMoney < 2 ^ 63
  nonneg : ∀ out ∈ tx.vout, 0 ≤ out.nValue
  sum_le : (tx.vout.map CTxOut.nValue).sum ≤ maxMoney

namespace ImportEnv

/-- The value of the last output, the coins of a burn. -/
def burnedCoins (burnTx : CTransaction) : ℤ := (burnTx.vout.getLast?).elim 0 CTxOut.nValue

/-- The eval code of the tokens in an import, `EVAL_TOKENS` when it has no token opreturn. -/
def importEvalCode (importTx : CTransaction) : UInt8 :=
  ((decodeTokenOpRet (opretOf importTx)).map fun d => nonfungibleEvalCode d.oprets).getD EVAL_TOKENS

/-- The markers among the outputs. -/
def markerOutputs (env : CCEnv) (tx : CTransaction) : ℤ :=
  ((tx.vout.filter fun out =>
    isPayToCryptoCondition out.scriptPubKey && isTokenMarkerVout env out).map CTxOut.nValue).sum

variable (env : ImportEnv)

/-- The tokens of a burn. -/
def burnedTokens (importTx burnTx : CTransaction) : ℤ :=
  env.ccBurnOutputs (importEvalCode importTx) burnTx

/-- The value of a burn: its last output and, for tokens, what is paid to the burn key. -/
def burnedValue (importTx burnTx : CTransaction) : ℤ :=
  burnedCoins burnTx + if isTokenTx burnTx then env.burnedTokens importTx burnTx else 0

/-- The outputs of an import are worth no more than `GetCoinImportValue`, and that is no more
than the value of the burn. -/
def Backed (importTx burnTx : CTransaction) : Prop :=
  (importTx.vout.map CTxOut.nValue).sum ≤ env.getCoinImportValue importTx ∧
    env.getCoinImportValue importTx ≤ env.burnedValue importTx burnTx

/-- Whether a burn is for another chain that is notarised on KMD. -/
def isMigration (burnTx : CTransaction) : Bool :=
  (unmarshalBurnTx burnTx).any fun terms => terms.targetCCid ≠ 0xffffffff

/-- What an import pays to crypto-conditions beyond what was burned for them: the markers, when
tokens come in for tokens; all of it, when coins were burned. An import of coins for burned
tokens has no value at all for `GetCoinImportValue`. -/
def unbacked (importTx burnTx : CTransaction) : ℤ :=
  if isTokenTx burnTx then
    if isTokenTx importTx then
      if isMigration burnTx then markerOutputs env.toCCEnv importTx
      else ccOutputs importTx - env.burnedTokens importTx burnTx
    else ccOutputs importTx + burnedCoins burnTx
  else ccOutputs importTx

/-- What the normal outputs leave of the burned coins. -/
def leftOver (importTx burnTx : CTransaction) : ℤ := burnedCoins burnTx - normalOutputs importTx

/-! ### Sums -/

theorem sum_filter_bounds {vout : List CTxOut} (h : ∀ out ∈ vout, 0 ≤ out.nValue)
    (p : CTxOut → Bool) : 0 ≤ ((vout.filter p).map CTxOut.nValue).sum ∧
      ((vout.filter p).map CTxOut.nValue).sum ≤ (vout.map CTxOut.nValue).sum := by
  induction vout with
  | nil => exact ⟨le_rfl, le_rfl⟩
  | cons out vout ih =>
    obtain ⟨hout, hrest⟩ := forall_mem_cons.1 h
    obtain ⟨hlow, hhigh⟩ := ih hrest
    rw [filter_cons]
    split_ifs <;> simp only [map_cons, sum_cons] <;> omega

theorem sum_filter_add (vout : List CTxOut) (p : CTxOut → Bool) :
    ((vout.filter fun out => !p out).map CTxOut.nValue).sum
      + ((vout.filter p).map CTxOut.nValue).sum = (vout.map CTxOut.nValue).sum := by
  induction vout with
  | nil => rfl
  | cons out vout ih =>
    cases h : p out <;> simp [h] <;> omega

theorem normalOutputs_add_ccOutputs (tx : CTransaction) :
    normalOutputs tx + ccOutputs tx = (tx.vout.map CTxOut.nValue).sum :=
  sum_filter_add tx.vout _

theorem createCCOutputs_add_markerOutputs (cc : CCEnv) (tx : CTransaction) :
    createCCOutputs cc tx + markerOutputs cc tx = ccOutputs tx := by
  have h := sum_filter_add (tx.vout.filter fun out => isPayToCryptoCondition out.scriptPubKey)
    (isTokenMarkerVout cc)
  simp only [filter_filter] at h
  rw [createCCOutputs, markerOutputs, ccOutputs, ← h]
  congr 4 <;> funext out <;> exact Bool.and_comm _ _

theorem toInt64_filter {maxMoney : ℤ} {tx : CTransaction} (h : AmountsChecked maxMoney tx)
    (p : CTxOut → Bool) :
    toInt64 ((tx.vout.filter p).map CTxOut.nValue).sum
      = ((tx.vout.filter p).map CTxOut.nValue).sum := by
  obtain ⟨hlow, hhigh⟩ := sum_filter_bounds h.nonneg p
  have hsum := h.sum_le
  have hmax := h.maxMoney_lt
  exact toInt64_of_range (by omega) (by omega)

/-! ### What an accepted import has passed -/

section accepted
variable {env} {importTx burnTx : CTransaction} {proof : ImportProof} {payouts : List CTxOut}

theorem importCoin_eq_ok (h : env.importCoin importTx = .ok ())
    (hparts : env.unmarshalImportTx importTx = some (proof, burnTx, payouts)) :
    ∃ terms last, unmarshalBurnTx burnTx = some terms ∧ burnTx.vout.getLast? = some last ∧
      toInt64 (normalOutputs importTx) ≤ last.nValue ∧
      toInt64 (last.nValue - importTxfee) ≤ toInt64 (normalOutputs importTx) ∧
      (terms.targetCCid ≠ 0xffffffff →
        env.checkMigration importTx burnTx proof terms.rawproof = .ok ()) := by
  simp only [importCoin, Checked.bind_eq_ok, require_eq_ok, expect_eq_ok, hparts,
    Option.some.injEq, exists_eq_left', decide_eq_true_eq, exists_const] at h
  obtain ⟨-, -, terms, hterms, last, hlast, -, hamount, -, -, -, hbranch⟩ := h
  refine ⟨terms, last, hterms, hlast, hamount.1, hamount.2, fun hcc => ?_⟩
  rw [if_pos hcc, Checked.seq_eq_ok] at hbranch
  exact hbranch.2

/-- A token import can be decoded either way. -/
theorem decodeTokenOpRet_import
    (hparts : env.unmarshalImportTx importTx = some (proof, burnTx, payouts)) :
    (decodeTokenOpRet (opretOf importTx)).isSome = isTokenTx importTx := by
  by_cases htoken : isTokenTx importTx = true
  · rw [htoken]
    unfold unmarshalImportTx at hparts
    split at hparts
    · simp only [htoken, if_true, Option.bind_eq_bind] at hparts
      split_ifs at hparts
      simp only [Option.bind_eq_some_iff, Option.map_eq_some_iff] at hparts
      obtain ⟨-, ⟨c, hc, -⟩, -⟩ := hparts
      have hc' := hc
      unfold decodeTokenCreateOpRet at hc'
      simp only at hc'
      split_ifs at hc' with hhead
      rw [decodeTokenOpRet]
      simp only [hhead, hc]
      rfl
    · cases hparts
  · rw [Bool.eq_false_of_not_eq_true htoken]
    have hhead : ¬ (getOpReturnData (opretOf importTx))[0]? = some EVAL_TOKENS := by
      simpa [isTokenTx, lastOpReturn, head?_eq_getElem?] using htoken
    rw [decodeTokenOpRet]
    simp only [hhead, and_false, if_false]
    rfl

/-- The tokens of a burn and its last output, an opreturn, are different outputs. -/
theorem burnedTokens_add_last_le {maxMoney : ℤ} (hburn : AmountsChecked maxMoney burnTx)
    (htoken : isTokenTx burnTx = true) {last : CTxOut} (hlast : burnTx.vout.getLast? = some last) :
    env.burnedTokens importTx burnTx + last.nValue ≤ maxMoney := by
  have hdata : getOpReturnData last.scriptPubKey ≠ [] := by
    intro hnil
    simp [isTokenTx, lastOpReturn, opretOf, hlast, hnil] at htoken
  have hnormal := isPayToCryptoCondition_of_opReturnData hdata
  have hlastle : last.nValue ≤ normalOutputs burnTx := by
    refine single_le_sum ?_ _ (mem_map_of_mem (mem_filter.2
      ⟨mem_of_getLast? hlast, by simp [hnormal]⟩))
    intro v hv
    obtain ⟨out, hout, rfl⟩ := mem_map.1 hv
    exact hburn.nonneg out (mem_of_mem_filter hout)
  have hburnle : env.burnedTokens importTx burnTx ≤ ccOutputs burnTx := by
    have hcc : ∀ out ∈ burnTx.vout.filter fun out => isPayToCryptoCondition out.scriptPubKey,
        0 ≤ out.nValue := fun out hout => hburn.nonneg out (mem_of_mem_filter hout)
    have hpart := (sum_filter_bounds hcc fun out => out = env.makeTokensCC1vout
      (importEvalCode importTx) 0 out.nValue ccBurnPubkey).2
    rw [filter_filter] at hpart
    refine le_of_eq_of_le ?_ hpart
    rw [burnedTokens, ccBurnOutputs]
    congr 3
    funext out
    exact Bool.and_comm _ _
  have htotal := normalOutputs_add_ccOutputs burnTx
  have hsum := hburn.sum_le
  omega

theorem lastOpReturn_ne_nil {terms : BurnTerms} (h : unmarshalBurnTx burnTx = some terms) :
    lastOpReturn burnTx ≠ [] := by
  intro hnil
  simp [unmarshalBurnTx, burnData, isTokenTx, hnil] at h

/-- `GetCoinImportValue` by the kinds of the burn and of the import. -/
theorem getCoinImportValue_eq
    (hparts : env.unmarshalImportTx importTx = some (proof, burnTx, payouts)) {terms : BurnTerms}
    (hterms : unmarshalBurnTx burnTx = some terms) {last : CTxOut}
    (hlast : burnTx.vout.getLast? = some last) :
    env.getCoinImportValue importTx =
      if isTokenTx burnTx then
        if isTokenTx importTx then
          toInt64 (toInt64 (env.burnedTokens importTx burnTx) + last.nValue)
        else 0
      else last.nValue := by
  have hsome := decodeTokenOpRet_import hparts
  simp only [getCoinImportValue, hparts, hlast, lastOpReturn_ne_nil hterms, if_false, ← hsome,
    burnedTokens, importEvalCode]
  cases hd : decodeTokenOpRet (opretOf importTx) <;> simp

theorem burnedTokens_of_migration {maxMoney : ℤ} (himport : AmountsChecked maxMoney importTx)
    (hburn : AmountsChecked maxMoney burnTx) (htoken : isTokenTx importTx = true)
    {rawproof : Bytes} (h : env.checkMigration importTx burnTx proof rawproof = .ok ()) :
    env.burnedTokens importTx burnTx = createCCOutputs env.toCCEnv importTx := by
  obtain ⟨hamounts, -⟩ := (checkMigration_token_iff htoken).1 h
  obtain ⟨-, -, d, hd, -, heq⟩ := checkTokenAmounts_eq_ok.1 hamounts
  rw [ccBurnOutputs, toInt64_filter hburn, createCCOutputs, toInt64_filter himport] at heq
  rw [burnedTokens, importEvalCode, hd]
  exact heq

end accepted

/-- **When an import pays out no more than was burned.** Exactly when what it pays to
crypto-conditions beyond what was burned for them fits into what the normal outputs leave
over of the burned coins. -/
theorem import_backed_iff {importTx burnTx : CTransaction} {proof : ImportProof}
    {payouts : List CTxOut} {maxMoney : ℤ} (h : env.importCoin importTx = .ok ())
    (hparts : env.unmarshalImportTx importTx = some (proof, burnTx, payouts))
    (himport : AmountsChecked maxMoney importTx) (hburn : AmountsChecked maxMoney burnTx) :
    env.Backed importTx burnTx ↔ env.unbacked importTx burnTx ≤ leftOver importTx burnTx := by
  obtain ⟨terms, last, hterms, hlast, -, -, hmigration⟩ := importCoin_eq_ok h hparts
  have hcoins : burnedCoins burnTx = last.nValue := by rw [burnedCoins, hlast]; rfl
  have hvalue := getCoinImportValue_eq hparts hterms hlast
  have htotal := normalOutputs_add_ccOutputs importTx
  have hnonneg : 0 ≤ last.nValue := hburn.nonneg last (List.mem_of_getLast? hlast)
  have htokens : 0 ≤ env.burnedTokens importTx burnTx :=
    (sum_filter_bounds hburn.nonneg _).1
  unfold Backed burnedValue unbacked leftOver
  rw [hvalue, hcoins, ← htotal]
  by_cases hbt : isTokenTx burnTx = true
  · simp only [hbt, if_true]
    by_cases hit : isTokenTx importTx = true
    · simp only [hit, if_true]
      have hwrap : toInt64 (toInt64 (env.burnedTokens importTx burnTx) + last.nValue)
          = env.burnedTokens importTx burnTx + last.nValue := by
        have hle : env.burnedTokens importTx burnTx + last.nValue ≤ maxMoney :=
          burnedTokens_add_last_le hburn hbt hlast
        have hmax := hburn.maxMoney_lt
        rw [toInt64_of_range (n := env.burnedTokens importTx burnTx) (by omega) (by omega)]
        exact toInt64_of_range (by omega) (by omega)
      rw [hwrap]
      by_cases hm : isMigration burnTx = true
      · rw [if_pos hm]
        have hcc : terms.targetCCid ≠ 0xffffffff := by simpa [isMigration, hterms] using hm
        have heq := burnedTokens_of_migration himport hburn hit (hmigration hcc)
        have hparts := createCCOutputs_add_markerOutputs env.toCCEnv importTx
        omega
      · rw [if_neg hm]
        omega
    · simp only [hit, if_false, Bool.false_eq_true]
      omega
  · simp only [hbt, if_false, Bool.false_eq_true]
    omega

end ImportEnv

/-! ### Coins out of nothing -/

namespace ImportSample

/-- A coin is burned. -/
def coinBurn : CTransaction where
  hash := 24
  vin := [⟨⟨20, 0⟩, [], 0xffffffff⟩]
  vout := [⟨100000000, opReturnScript terms⟩]

/-- The coin comes in, less a fee, and so do some coins at a crypto-condition. -/
def coinImport (extra : List CTxOut) : CTransaction where
  hash := 25
  vin := [⟨⟨24, importPrevoutN⟩, importScriptSig, 0xffffffff⟩]
  vout := ⟨99990000, payToPubkey holderpk⟩ :: extra
    ++ [⟨0, opReturnScript (importData coinBurn)⟩]

/-- A thousand coins at a crypto-condition. -/
def extra : List CTxOut := [⟨100000000000, tokenScript holderpk⟩]

theorem amountsChecked_coinBurn : AmountsChecked 1000000000000 coinBurn :=
  ⟨by omega, by decide, by decide⟩

end ImportSample

open ImportSample in
/-- The hypotheses of `import_backed_iff` are satisfiable: the plain import is accepted, and
pays out no more than was burned. -/
theorem import_backed_coin :
    (env (coinImport []) coinBurn).importCoin (coinImport []) = .ok () ∧
      (env (coinImport []) coinBurn).Backed (coinImport []) coinBurn := by
  have h : (env (coinImport []) coinBurn).importCoin (coinImport []) = .ok () := by decide +kernel
  have hparts : (env (coinImport []) coinBurn).unmarshalImportTx (coinImport [])
      = some (proof, coinBurn, [⟨99990000, payToPubkey holderpk⟩]) := by decide +kernel
  exact ⟨h, (ImportEnv.import_backed_iff _ h hparts ⟨by omega, by decide, by decide⟩
    amountsChecked_coinBurn).2 (by decide)⟩

open ImportSample in
/-- **Coins are made.** One coin is burned; that and a thousand more come in. -/
theorem coins_out_of_nothing :
    (env (coinImport extra) coinBurn).importCoin (coinImport extra) = .ok () ∧
      (env (coinImport extra) coinBurn).unmarshalImportTx (coinImport extra) = some (proof, coinBurn,
        ⟨99990000, payToPubkey holderpk⟩ :: extra) ∧
      AmountsChecked 1000000000000 (coinImport extra) ∧ AmountsChecked 1000000000000 coinBurn ∧
      ¬ (env (coinImport extra) coinBurn).Backed (coinImport extra) coinBurn := by
  refine ⟨by decide +kernel, by decide +kernel, ⟨by omega, by decide, by decide⟩,
    amountsChecked_coinBurn, fun h => absurd h.1 (by decide +kernel)⟩

end Komodo
