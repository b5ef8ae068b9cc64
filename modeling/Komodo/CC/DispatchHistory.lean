/-
# What a verdict owes to earlier verdicts

`Eval::Dispatch` (`src/src/cc/eval.cpp`) hands the same record of an eval code to every
validation. Of what a validator reads only `additionalTokensEvalcode2` can differ from one use
to the next, and of all validators only `AssetsValidate` writes it: `CCclearvars` resets the
second and third addresses, not this field.

A call that reaches `AssetsValidate` with an opreturn that decodes leaves the first byte of the
non-fungible data of its token there, if the token has such data, and no other call changes
what is read of the records (`CCinfos.WellKept.dispatch`, `infosAfter_wellKept`). The byte
stays until the next such call, and the fill of a fungible token in between is checked against
addresses that are made with it (`fill_after_nonfungible`).

Two histories therefore lead to the same verdict when the last byte that was left is the same
in both (`dispatch_congr_history`), in particular when neither has left one other than zero
(`dispatch_historyFree`).
-/

import Komodo.CC.AssetsBids
import Komodo.CC.Dispatch

namespace Komodo

open Function

/-! ### What one call can change -/

namespace NodeEnv

variable (node : NodeEnv)

/-- The byte that `AssetsValidate` takes from the non-fungible data of the token. -/
def nonfungibleEvalcode2 (tx : CTransaction) : Option UInt8 :=
  (node.assetOf tx).bind fun assetid => (getNonfungibleData node.lookup assetid).head?

/-- Whether `ProcessCC` goes on to the validator. -/
def reachesValidator (paramsNull : Bytes) : Bool :=
  0 ≤ node.connecting ∧ node.ccActive ∧ paramsNull = []

/-- The byte that a call of `Eval::Dispatch` leaves in the record of the assets contract. -/
def writtenEvalcode2 (code : Bytes) (tx : CTransaction) : Option UInt8 :=
  match code with
  | [] => none
  | ecode :: vparams =>
    if ecode = EVAL_ASSETS ∧ node.isDisabled ecode = false ∧ node.reachesValidator vparams then
      node.nonfungibleEvalcode2 tx
    else none

variable {node}

/-- What `AssetsValidate` does to its record. -/
theorem validateAssets_snd (cp : CCContractInfo) (tx : CTransaction) :
    (node.validateAssets cp tx).2
      = { cp with additionalTokensEvalcode2 :=
            (node.nonfungibleEvalcode2 tx).getD cp.additionalTokensEvalcode2 } := by
  unfold validateAssets nonfungibleEvalcode2
  cases node.assetOf tx with
  | none => rfl
  | some assetid =>
    simp only [ContractEnv.assetsEvalcode2, List.headD_eq_head?_getD, Option.bind_some]

theorem processCC_of_reaches {params : Bytes} (h : node.reachesValidator params = true)
    (ecode : UInt8) (cp : CCContractInfo) (tx : CTransaction) :
    node.processCC ecode cp params tx
      = (node.validator ecode cp.clearvars tx).getD
          (Verdict.invalid "validation not supported for eval code", cp) := by
  simp only [reachesValidator, decide_eq_true_eq] at h
  obtain ⟨hconnecting, hactive, hparams⟩ := h
  have hnot : ¬ node.connecting < 0 := by omega
  simp only [processCC, hnot, hactive, hparams, if_false, not_true, ne_eq]
  cases node.validator ecode cp.clearvars tx <;> rfl

theorem processCC_of_not_reaches {params : Bytes} (h : node.reachesValidator params = false)
    (ecode : UInt8) (cp : CCContractInfo) (tx : CTransaction) :
    (node.processCC ecode cp params tx).2 = cp
      ∨ (node.processCC ecode cp params tx).2 = cp.clearvars := by
  unfold processCC
  split_ifs with hconnecting hactive hparams
  · exact .inl rfl
  · cases node.validator ecode cp.clearvars tx with
    | none => exact .inl rfl
    | some result => exact .inr rfl
  · simp only [reachesValidator, decide_eq_false_iff_not] at h
    exact absurd ⟨by omega, hactive, not_not.1 hparams⟩ h
  · exact .inl rfl

/-- `ProcessCC` leaves a byte in the record of the assets contract only. -/
theorem processCC_evalcode2 (ecode : UInt8) (cp : CCContractInfo) (params : Bytes)
    (tx : CTransaction) :
    (node.processCC ecode cp params tx).2.didinit = cp.didinit
      ∧ (node.processCC ecode cp params tx).2.additionalTokensEvalcode2
        = (if ecode = EVAL_ASSETS ∧ node.reachesValidator params then node.nonfungibleEvalcode2 tx
          else none).getD cp.additionalTokensEvalcode2 := by
  cases hreaches : node.reachesValidator params with
  | false =>
    rw [if_neg (by simp)]
    rcases processCC_of_not_reaches hreaches ecode cp tx with h | h
    · rw [h]
      exact ⟨rfl, rfl⟩
    · rw [h]
      exact ⟨rfl, rfl⟩
  | true =>
    rw [processCC_of_reaches hreaches, validator]
    by_cases hassets : ecode = EVAL_ASSETS
    · rw [if_pos hassets, if_pos ⟨hassets, rfl⟩, Option.getD_some, validateAssets_snd]
      exact ⟨rfl, rfl⟩
    · rw [if_neg hassets, if_neg (fun h => hassets h.1)]
      cases node.validateOther ecode cp.clearvars tx with
      | none => exact ⟨rfl, rfl⟩
      | some verdict => exact ⟨rfl, rfl⟩

variable (node) in
/-- So does the `switch` of `Eval::Dispatch`. -/
theorem dispatchCode_evalcode2 (ecode : UInt8) (cp : CCContractInfo) (params : Bytes)
    (tx : CTransaction) (nIn : ℕ) :
    (node.dispatchCode ecode cp params tx nIn).2.didinit = cp.didinit
      ∧ (node.dispatchCode ecode cp params tx nIn).2.additionalTokensEvalcode2
        = (if ecode = EVAL_ASSETS ∧ node.reachesValidator params then node.nonfungibleEvalcode2 tx
          else none).getD cp.additionalTokensEvalcode2 := by
  unfold dispatchCode
  by_cases hpayout : ecode = EVAL_IMPORTPAYOUT
  · subst hpayout
    exact ⟨rfl, rfl⟩
  by_cases hcoin : ecode = EVAL_IMPORTCOIN
  · subst hcoin
    exact ⟨rfl, rfl⟩
  rw [if_neg hpayout, if_neg hcoin]
  exact processCC_evalcode2 ecode cp params tx

variable (node) in
/-- `CClib_Dispatch` leaves the byte as it is, and the record uninitialised where
`CClib_initcp` fails. -/
theorem cclibDispatch_snd (lib : CCLib) (ecode : UInt8) (cp : CCContractInfo) (params : Bytes)
    (tx : CTransaction) (nIn : ℕ) :
    (node.cclibDispatch lib ecode cp params tx nIn).2.additionalTokensEvalcode2
        = cp.additionalTokensEvalcode2
      ∧ ((node.cclibDispatch lib ecode cp params tx nIn).2.didinit = true →
        cp.didinit = true ∨ lib.initcp ecode = true) := by
  unfold cclibDispatch
  by_cases hinit : ¬ cp.didinit ∧ ¬ lib.initcp ecode
  · rw [if_pos hinit]
    split_ifs <;> exact ⟨rfl, .inl⟩
  · have hmade : cp.didinit = true ∨ lib.initcp ecode = true := by
      rwa [not_and_or, not_not, not_not] at hinit
    rw [if_neg hinit]
    split_ifs <;> exact ⟨rfl, fun _ => hmade⟩

end NodeEnv

/-! ### What a run keeps -/

/-- Records of a run: none but that of the assets contract holds a byte, that one only once it
was made, and a record of the library was made by `CClib_initcp`. -/
structure CCinfos.WellKept (lib : CCLib) (infos : CCinfos) : Prop where
  clean : ∀ e, e ≠ EVAL_ASSETS → (infos e).additionalTokensEvalcode2 = 0
  fresh : (infos EVAL_ASSETS).didinit = false → (infos EVAL_ASSETS).additionalTokensEvalcode2 = 0
  library : ∀ e, NodeEnv.isUserCode e = true → (infos e).didinit = true → lib.initcp e = true

namespace CCinfos.WellKept

variable {lib : CCLib} {infos : CCinfos}

theorem start : CCinfos.start.WellKept lib :=
  ⟨fun _ _ => rfl, fun _ => rfl, fun _ _ h => (nomatch h)⟩

theorem use (h : infos.WellKept lib) (e : UInt8) :
    (infos.use e).additionalTokensEvalcode2 = (infos e).additionalTokensEvalcode2
      ∧ (infos.use e).didinit = true := by
  unfold CCinfos.use
  cases hinit : (infos e).didinit with
  | true => exact ⟨rfl, hinit⟩
  | false =>
    refine ⟨?_, rfl⟩
    by_cases hassets : e = EVAL_ASSETS
    · subst hassets
      exact (h.fresh hinit).symm
    · exact (h.clean e hassets).symm

/-- One record may be exchanged. -/
theorem update (h : infos.WellKept lib) {e : UInt8} {cp : CCContractInfo}
    (hclean : e ≠ EVAL_ASSETS → cp.additionalTokensEvalcode2 = 0)
    (hfresh : cp.didinit = false → cp.additionalTokensEvalcode2 = 0)
    (hlibrary : NodeEnv.isUserCode e = true → cp.didinit = true → lib.initcp e = true) :
    CCinfos.WellKept lib (Function.update infos e cp) where
  clean e' hne := by
    by_cases he : e' = e
    · subst he
      rw [update_self]
      exact hclean hne
    · rw [update_of_ne he]
      exact h.clean e' hne
  fresh hinit := by
    by_cases he : EVAL_ASSETS = e
    · subst he
      rw [update_self] at hinit ⊢
      exact hfresh hinit
    · rw [update_of_ne he] at hinit ⊢
      exact h.fresh hinit
  library e' huser hinit := by
    by_cases he : e' = e
    · subst he
      rw [update_self] at hinit
      exact hlibrary huser hinit
    · rw [update_of_ne he] at hinit
      exact h.library e' huser hinit

/-- A call of the library keeps the records so, and the byte. -/
theorem cclibDispatch (h : infos.WellKept lib) (node : NodeEnv) {ecode : UInt8}
    (huser : NodeEnv.isUserCode ecode = true) (params : Bytes) (tx : CTransaction) (nIn : ℕ) :
    let next := Function.update infos ecode
      (node.cclibDispatch lib ecode (infos ecode) params tx nIn).2
    CCinfos.WellKept lib next
      ∧ (next EVAL_ASSETS).additionalTokensEvalcode2
        = (infos EVAL_ASSETS).additionalTokensEvalcode2 := by
  have hassets : EVAL_ASSETS ≠ ecode := by
    rintro rfl
    revert huser
    decide
  obtain ⟨hbyte, hmade⟩ :=
    NodeEnv.cclibDispatch_snd node lib ecode (infos ecode) params tx nIn
  have hzero := hbyte.trans (h.clean ecode hassets.symm)
  refine ⟨h.update (fun _ => hzero) (fun _ => hzero) fun _ hinit => ?_, ?_⟩
  · rcases hmade hinit with hold | hnew
    · exact h.library ecode huser hold
    · exact hnew
  · rw [update_of_ne hassets]

/-- A call of a contract of the node keeps them so as well. -/
theorem dispatchCode (h : infos.WellKept lib) (node : NodeEnv) {ecode : UInt8}
    (huser : NodeEnv.isUserCode ecode = false) (params : Bytes) (tx : CTransaction) (nIn : ℕ) :
    let next := Function.update infos ecode
      (node.dispatchCode ecode (infos.use ecode) params tx nIn).2
    CCinfos.WellKept lib next
      ∧ (next EVAL_ASSETS).additionalTokensEvalcode2
        = (if ecode = EVAL_ASSETS ∧ node.reachesValidator params then node.nonfungibleEvalcode2 tx
          else none).getD (infos EVAL_ASSETS).additionalTokensEvalcode2 := by
  obtain ⟨huse, hmade⟩ := h.use ecode
  obtain ⟨hinit, hbyte⟩ :=
    NodeEnv.dispatchCode_evalcode2 node ecode (infos.use ecode) params tx nIn
  have hkept := hinit.trans hmade
  rw [huse] at hbyte
  refine ⟨h.update (fun hne => ?_) (fun hnot => ?_) fun hyes => ?_, ?_⟩
  · rw [hbyte, if_neg fun hreach => hne hreach.1]
    exact h.clean ecode hne
  · exact absurd (hkept.symm.trans hnot) (by decide)
  · exact absurd (huser.symm.trans hyes) (by decide)
  · by_cases hassets : ecode = EVAL_ASSETS
    · subst hassets
      rw [update_self, hbyte]
    · rw [update_of_ne (Ne.symm hassets), if_neg fun hreach => hassets hreach.1]
      rfl

/-- A call keeps the records so, and leaves in that of the assets contract what it writes. -/
theorem dispatch (h : infos.WellKept lib) (node : NodeEnv) (code : Bytes) (tx : CTransaction)
    (nIn : ℕ) :
    (node.dispatch lib infos code tx nIn).2.WellKept lib
      ∧ ((node.dispatch lib infos code tx nIn).2 EVAL_ASSETS).additionalTokensEvalcode2
        = (node.writtenEvalcode2 code tx).getD (infos EVAL_ASSETS).additionalTokensEvalcode2 := by
  cases code with
  | nil => exact ⟨h, rfl⟩
  | cons ecode vparams =>
    simp only [NodeEnv.dispatch, NodeEnv.writtenEvalcode2]
    cases hdisabled : node.isDisabled ecode with
    | true => simpa using h
    | false =>
      cases huser : NodeEnv.isUserCode ecode with
      | true =>
        have hassets : ecode ≠ EVAL_ASSETS := by
          rintro rfl
          revert huser
          decide
        simp only [hassets, false_and, if_false, if_true, Bool.false_eq_true]
        split_ifs with hlib
        · exact h.cclibDispatch node huser vparams tx nIn
        · exact ⟨h, rfl⟩
      | false =>
        simp only [Bool.false_eq_true, if_false, true_and]
        exact h.dispatchCode node huser vparams tx nIn

end CCinfos.WellKept

/-- A call of `Eval::Dispatch`, with the state of the node at that time. -/
structure CCCall where
  node : NodeEnv
  code : Bytes
  tx : CTransaction
  nIn : ℕ

/-- The byte that a call leaves in the record of the assets contract. -/
def CCCall.writtenEvalcode2 (call : CCCall) : Option UInt8 :=
  call.node.writtenEvalcode2 call.code call.tx

/-- The records after one more call. -/
def CCLib.call (lib : CCLib) (infos : CCinfos) (call : CCCall) : CCinfos :=
  (call.node.dispatch lib infos call.code call.tx call.nIn).2

/-- The records of a process after some calls. -/
def CCLib.infosAfter (lib : CCLib) (history : List CCCall) : CCinfos :=
  history.foldl lib.call CCinfos.start

/-- The byte that the last call with one has left, from `evalcode2` on. -/
def lastEvalcode2 (evalcode2 : UInt8) (history : List CCCall) : UInt8 :=
  history.foldl (fun evalcode2 call => call.writtenEvalcode2.getD evalcode2) evalcode2

/-- **The only trace of a history is one byte.** After any calls, every record but that of the
assets contract is as `CCinit` made it, as far as it is read, and that one holds the byte of the
last call with one. -/
theorem infosAfter_wellKept (lib : CCLib) (history : List CCCall) :
    (lib.infosAfter history).WellKept lib
      ∧ (lib.infosAfter history EVAL_ASSETS).additionalTokensEvalcode2
        = lastEvalcode2 0 history := by
  suffices hrun : ∀ infos : CCinfos, infos.WellKept lib →
      CCinfos.WellKept lib (history.foldl lib.call infos)
        ∧ (history.foldl lib.call infos EVAL_ASSETS).additionalTokensEvalcode2
          = lastEvalcode2 (infos EVAL_ASSETS).additionalTokensEvalcode2 history from
    hrun CCinfos.start CCinfos.WellKept.start
  induction history with
  | nil => exact fun infos h => ⟨h, rfl⟩
  | cons call rest ih =>
    intro infos h
    obtain ⟨hkept, hbyte⟩ := h.dispatch call.node call.code call.tx call.nIn
    obtain ⟨hend, hlast⟩ := ih (lib.call infos call) hkept
    refine ⟨hend, hlast.trans ?_⟩
    show lastEvalcode2 (lib.call infos call EVAL_ASSETS).additionalTokensEvalcode2 rest
      = lastEvalcode2 (call.writtenEvalcode2.getD (infos EVAL_ASSETS).additionalTokensEvalcode2) rest
    rw [CCLib.call, hbyte]
    rfl

theorem lastEvalcode2_of_unset {history : List CCCall}
    (h : ∀ call ∈ history, ∀ e, call.writtenEvalcode2 = some e → e = 0) :
    lastEvalcode2 0 history = 0 := by
  induction history with
  | nil => rfl
  | cons call rest ih =>
    have hcall : call.writtenEvalcode2.getD 0 = 0 := by
      cases he : call.writtenEvalcode2 with
      | none => rfl
      | some e => exact h call List.mem_cons_self e he
    show lastEvalcode2 (call.writtenEvalcode2.getD 0) rest = 0
    rw [hcall]
    exact ih fun c hc => h c (List.mem_cons_of_mem _ hc)

/-! ### What a verdict reads -/

variable {tx : CTransaction}

/-- A token with non-fungible data brings its own byte. -/
theorem ContractEnv.assetsValidate_congr {env : ContractEnv} {symbol : String}
    {d : AssetOpRet} (hd : decodeAssetTokenOpRet (opretOf tx) = some d)
    (hdata : (getNonfungibleData env.lookup d.assetid).head?.isSome) (e e' : UInt8) :
    env.assetsValidate e symbol tx = env.assetsValidate e' symbol tx := by
  have hbyte : env.assetsEvalcode2 e d.assetid = env.assetsEvalcode2 e' d.assetid := by
    obtain ⟨b, hb⟩ := Option.isSome_iff_exists.1 hdata
    simp only [assetsEvalcode2, List.headD_eq_head?_getD, hb, Option.getD_some]
  have hvalidate : env.validateAsset e tx d = env.validateAsset e' tx d := by
    simp only [validateAsset, hbyte]
  unfold assetsValidate
  rw [hd]
  split_ifs
  · rfl
  · show (do require _ _; env.validateAsset e tx d) = (do require _ _; env.validateAsset e' tx d)
    rw [hvalidate]

namespace NodeEnv

variable {node : NodeEnv}

/-- Of its record `AssetsValidate` reads the byte, unless the token brings one. -/
theorem validateAssets_fst {cp cp' : CCContractInfo} {tx : CTransaction}
    (h : cp.additionalTokensEvalcode2 = cp'.additionalTokensEvalcode2
      ∨ (node.nonfungibleEvalcode2 tx).isSome) :
    (node.validateAssets cp tx).1 = (node.validateAssets cp' tx).1 := by
  rcases h with h | h
  · simp only [validateAssets, h]
  · simp only [nonfungibleEvalcode2, assetOf] at h
    split_ifs at h with hexempt
    · cases h
    · cases hd : decodeAssetTokenOpRet (opretOf tx) with
      | none => rw [hd] at h; cases h
      | some d =>
        rw [hd] at h
        exact congrArg Checked.verdict (ContractEnv.assetsValidate_congr hd h _ _)

theorem validateOther_congr {cp cp' : CCContractInfo}
    (h : cp.additionalTokensEvalcode2 = cp'.additionalTokensEvalcode2) (ecode : UInt8)
    (tx : CTransaction) : node.validateOther ecode cp tx = node.validateOther ecode cp' tx := by
  have hgateways : node.gatewaysEnv cp = node.gatewaysEnv cp' := by simp only [gatewaysEnv, h]
  simp only [validateOther, hgateways]

/-- Two records that a validator does not tell apart. -/
def LikeRecords (node : NodeEnv) (ecode : UInt8) (tx : CTransaction) (cp cp' : CCContractInfo) :
    Prop :=
  cp.additionalTokensEvalcode2 = cp'.additionalTokensEvalcode2
    ∨ ecode = EVAL_ASSETS ∧ (node.nonfungibleEvalcode2 tx).isSome

variable {ecode : UInt8} {tx : CTransaction} {cp cp' : CCContractInfo}

theorem validator_fst (h : node.LikeRecords ecode tx cp cp') :
    (node.validator ecode cp tx).map Prod.fst = (node.validator ecode cp' tx).map Prod.fst := by
  unfold validator
  by_cases hassets : ecode = EVAL_ASSETS
  · rw [if_pos hassets, if_pos hassets, Option.map_some, Option.map_some,
      validateAssets_fst (h.imp_right And.right)]
  · rw [if_neg hassets, if_neg hassets]
    rcases h with h | h
    · simp only [validateOther_congr h, Option.map_map, comp_def]
    · exact absurd h.1 hassets

/-- The verdict of `ProcessCC` depends on its record through the byte alone. -/
theorem processCC_fst (h : node.LikeRecords ecode tx cp cp') (params : Bytes) :
    (node.processCC ecode cp params tx).1 = (node.processCC ecode cp' params tx).1 := by
  have hclear : node.LikeRecords ecode tx cp.clearvars cp'.clearvars := h
  have hverdict := validator_fst hclear
  unfold processCC
  split_ifs with hconnecting hactive hparams
  · rfl
  · cases hv : node.validator ecode cp.clearvars tx <;>
      cases hv' : node.validator ecode cp'.clearvars tx <;> simp_all
  · cases hv : node.validator ecode cp.clearvars tx <;>
      cases hv' : node.validator ecode cp'.clearvars tx <;> simp_all
  · rfl

theorem dispatchCode_fst (h : node.LikeRecords ecode tx cp cp') (params : Bytes) (nIn : ℕ) :
    (node.dispatchCode ecode cp params tx nIn).1
      = (node.dispatchCode ecode cp' params tx nIn).1 := by
  unfold dispatchCode
  split_ifs
  · rfl
  · rfl
  · exact processCC_fst h params

theorem cclibDispatch_fst {lib : CCLib} (h : cp.didinit = true → lib.initcp ecode = true)
    (h' : cp'.didinit = true → lib.initcp ecode = true) (params : Bytes) (nIn : ℕ) :
    (node.cclibDispatch lib ecode cp params tx nIn).1
      = (node.cclibDispatch lib ecode cp' params tx nIn).1 := by
  have hinit : ∀ c : CCContractInfo, (c.didinit = true → lib.initcp ecode = true) →
      ((¬ c.didinit ∧ ¬ lib.initcp ecode) ↔ ¬ lib.initcp ecode) := by
    intro c hc
    exact ⟨And.right, fun hnot => ⟨fun hd => hnot (hc hd), hnot⟩⟩
  simp only [cclibDispatch, hinit cp h, hinit cp' h']
  split_ifs <;> rfl

end NodeEnv

/-- **A verdict depends on the records through one byte.** -/
theorem CCinfos.WellKept.dispatch_fst {lib : CCLib} {infos infos' : CCinfos}
    (h : infos.WellKept lib) (h' : infos'.WellKept lib) {node : NodeEnv} {code : Bytes}
    (nIn : ℕ)
    (hbyte : (infos EVAL_ASSETS).additionalTokensEvalcode2
          = (infos' EVAL_ASSETS).additionalTokensEvalcode2
      ∨ code.head? ≠ some EVAL_ASSETS ∨ (node.nonfungibleEvalcode2 tx).isSome) :
    (node.dispatch lib infos code tx nIn).1 = (node.dispatch lib infos' code tx nIn).1 := by
  cases code with
  | nil => rfl
  | cons ecode vparams =>
    have hlike : node.LikeRecords ecode tx (infos.use ecode) (infos'.use ecode) := by
      rw [NodeEnv.LikeRecords, (h.use ecode).1, (h'.use ecode).1]
      by_cases hassets : ecode = EVAL_ASSETS
      · subst hassets
        rcases hbyte with hbyte | hbyte | hbyte
        · exact .inl hbyte
        · exact absurd rfl hbyte
        · exact .inr ⟨rfl, hbyte⟩
      · exact .inl ((h.clean ecode hassets).trans (h'.clean ecode hassets).symm)
    simp only [NodeEnv.dispatch]
    split_ifs with hdisabled huser hlib
    · rfl
    · exact NodeEnv.cclibDispatch_fst (h.library ecode huser) (h'.library ecode huser) vparams nIn
    · rfl
    · exact NodeEnv.dispatchCode_fst hlike vparams nIn

/-- **Two histories that left the same byte lead to the same verdict**, and so do any two when
the transaction is not one of the assets contract, or its token has non-fungible data. -/
theorem dispatch_congr_history (lib : CCLib) {history history' : List CCCall} {node : NodeEnv}
    {code : Bytes} (nIn : ℕ)
    (h : lastEvalcode2 0 history = lastEvalcode2 0 history'
      ∨ code.head? ≠ some EVAL_ASSETS ∨ (node.nonfungibleEvalcode2 tx).isSome) :
    (node.dispatch lib (lib.infosAfter history) code tx nIn).1
      = (node.dispatch lib (lib.infosAfter history') code tx nIn).1 := by
  obtain ⟨hkept, hbyte⟩ := infosAfter_wellKept lib history
  obtain ⟨hkept', hbyte'⟩ := infosAfter_wellKept lib history'
  refine hkept.dispatch_fst hkept' nIn ?_
  rw [hbyte, hbyte']
  exact h

/-- **Nodes with different histories agree, while no byte is left.** When no call of two
histories has left a byte other than zero in the record of the assets contract, or when the
transaction is not one of that contract or its token brings a byte of its own, the result of
`Eval::Dispatch` is the same after both. -/
theorem dispatch_historyFree (lib : CCLib) {history history' : List CCCall} {node : NodeEnv}
    {code : Bytes} (nIn : ℕ)
    (hunset : (∀ call ∈ history ++ history', ∀ e, call.writtenEvalcode2 = some e → e = 0)
      ∨ code.head? ≠ some EVAL_ASSETS ∨ (node.nonfungibleEvalcode2 tx).isSome) :
    (node.dispatch lib (lib.infosAfter history) code tx nIn).1
      = (node.dispatch lib (lib.infosAfter history') code tx nIn).1 := by
  refine dispatch_congr_history lib nIn (hunset.imp_left fun h => ?_)
  rw [lastEvalcode2_of_unset fun call hc => h call (List.mem_append_left _ hc),
    lastEvalcode2_of_unset fun call hc => h call (List.mem_append_right _ hc)]

/-! ### A fill after a token with non-fungible data -/

/-- A node of a chain that has its contracts switched on. -/
def activeNode (env : ChainEnv) (hmoney : 0 ≤ env.maxMoney) : NodeEnv :=
  { env with
    snapshotInterval := 0
    vAddressSnapshot := []
    snapshotHash := some 0
    snapshot_nonneg := by simp
    snapshot_sum := hmoney
    symbol := "TOKEN"
    hardforkActive := true
    unspents := fun _ => []
    normalUnspents := fun _ => []
    txids := fun _ _ => []
    latestTimestamp := 1600100000
    connecting := 1001
    ccActivate := 0
    assetchainsCC := 2
    ccDisables := fun _ => false
    heightEvalActivate := fun _ => 0
    assetchainsCCLIB := ""
    cclibValidate := fun _ _ _ _ => Verdict.valid
    importPayout := fun _ _ _ => Verdict.valid
    importCoin := fun _ _ _ => Verdict.valid }

/-- The library that is built by default. -/
def sudokuLib : CCLib := ⟨"sudoku", fun _ => true⟩

namespace AssetsSample

/-- `cc_conditionBinary(MakeTokensCCcond1(EVAL_TOKENS, 0x11, bidder))`. -/
def bidderGameCondition : Bytes :=
  [0xa2, 0x2c, 0x80, 0x20, 0xf5, 0xef, 0x27, 0xc4, 0x7c, 0x60, 0x6b, 0x7a, 0x3f, 0x82, 0x21,
   0x23, 0x95, 0x2d, 0x9d, 0x17, 0xe5, 0xb1, 0x6b, 0xac, 0xb8, 0xda, 0x7c, 0x77, 0xe4, 0xc0,
   0xf0, 0x8f, 0x22, 0x2b, 0x9c, 0xb3, 0x81, 0x03, 0x22, 0x10, 0x00, 0x82, 0x03, 0x00, 0x04,
   0x01]

/-- The creation of one token with non-fungible data for the eval code 17. -/
def gameCreation : CTransaction where
  hash := 20
  vin := [⟨⟨92, 0⟩, [], 0⟩]
  vout := [⟨1, scriptOf sellerTokensCondition⟩,
    ⟨0, encodeTokenCreateOpRet seller [fid 'G'] [] [(OPRETID_NONFUNGIBLEDATA, [0x11, 0x01])]⟩]

/-- A fill of the bid for token 2 that names token 20 instead. -/
def gameFill : CTransaction where
  hash := 21
  vin := honestFill.vin
  vout := [⟨600, scriptOf assetsCondition⟩, ⟨400, payToPubkey seller⟩,
    ⟨0, encodeTokenOpRet 20 [bidder] [(OPRETID_ASSETSDATA,
      [EVAL_ASSETS, fid 'B'] ++ leBytes 8 6 ++ vectorBytes bidder)]⟩]

/-- A node that has seen the bid and both tokens. -/
def gameEnv : ChainEnv := envOf [funding, creation, bidTx, gameCreation] (by decide)

/-- The same node, which also knows the condition of a token with the eval code 17. -/
def gameEnvWithCondition : ChainEnv :=
  { gameEnv with
    conditionBinary := fun cond =>
      match cond with
      | .threshold 3 3 [.eval [0xf2], .eval [0x11], .threshold 1 1 [.secp256k1 _ _]] =>
        bidderGameCondition
      | cond => gameEnv.conditionBinary cond
    getscriptaddress := fun s =>
      if s = scriptOf bidderGameCondition then some "RVRaKP6CRwpGRCHNW7kKFHF8hpk5WbzFLD"
      else gameEnv.getscriptaddress s }

/-- That node, with its contracts switched on. -/
def node : NodeEnv := activeNode gameEnvWithCondition (by decide)

/-- A call for the input of the assets contract. -/
def assetsCall (tx : CTransaction) : CCCall := ⟨node, [EVAL_ASSETS], tx, 1⟩

end AssetsSample

open AssetsSample in
/-- The hypothesis of `dispatch_historyFree` is satisfiable: a fill of a fungible token leaves
no byte. -/
theorem dispatch_historyFree_fill :
    (node.dispatch sudokuLib (sudokuLib.infosAfter [assetsCall honestFill]) [EVAL_ASSETS] honestFill 1).1
      = (node.dispatch sudokuLib (sudokuLib.infosAfter []) [EVAL_ASSETS] honestFill 1).1 := by
  refine dispatch_historyFree sudokuLib 1 (.inl fun call hcall e he => ?_)
  obtain rfl : call = assetsCall honestFill := by simpa using hcall
  have hnone : (assetsCall honestFill).writtenEvalcode2 = none := by decide +kernel
  rw [hnone] at he
  cases he

open AssetsSample in
/-- A rejected fill for a token with non-fungible data, and a node that has seen it rejects the
fill of the fungible token that other nodes accept. -/
theorem fill_after_nonfungible :
    (node.dispatch sudokuLib (sudokuLib.infosAfter []) [EVAL_ASSETS] gameFill 1).1
        = Verdict.invalid "invalid assetid for buyvin"
      ∧ (node.dispatch sudokuLib (sudokuLib.infosAfter []) [EVAL_ASSETS] honestFill 1).1 = Verdict.valid
      ∧ (node.dispatch sudokuLib (sudokuLib.infosAfter [assetsCall gameFill]) [EVAL_ASSETS] honestFill 1).1
        = Verdict.invalid "vout2 doesnt match inputs fillbuy" := by
  refine ⟨?_, ?_, ?_⟩ <;> decide +kernel

end Komodo
