/-
# The name of an imported token

`CheckMigration` of `src/src/cc/import.cpp` means to compare the creator, the name and the
description in a token import with those of the token's creation on the source chain. It
does so when the opreturn of the import has a token id. A creation opreturn, which is what
an import carries, leaves the id null (`tokenid_of_create`); a transfer has an id, but is no
creation and fails the comparison. So `checkMigration_token_iff`: no accepted import has
been compared with anything, and the tokens of a burn may come in under any name
(`migration_params_iff`).
-/

import Komodo.CC.ImportCoin

namespace Komodo

/-! ### The comparison is out of reach -/

theorem isPayToCryptoCondition_opReturnScript (vopret : Bytes) :
    isPayToCryptoCondition (opReturnScript vopret) = false := by
  have hop : getOp (opReturnScript vopret) = some (OP_RETURN, [], pushData vopret) := by
    rw [opReturnScript, getOp, if_neg (by decide)]
  have hguard : ¬ (OP_0 < OP_RETURN ∧ OP_RETURN < OP_PUSHDATA1) := by decide
  simp [isPayToCryptoCondition, payToCryptoCondition, hop, guard, hguard]

theorem tokenid_of_create {script : CScript} {c : TokenCreateOpRet} {d : TokenOpRet}
    (hc : decodeTokenCreateOpRet script = some c) (hd : decodeTokenOpRet script = some d) :
    d.tokenid = 0 := by
  have hfirst : (getOpReturnData script)[1]? = some (fid 'c') := by
    unfold decodeTokenCreateOpRet at hc
    simp only at hc
    split_ifs at hc with hhead
    exact hhead.2.2
  unfold decodeTokenOpRet at hd
  simp only [hfirst, if_true, Option.ite_none_right_eq_some] at hd
  rw [hc] at hd
  obtain rfl := Option.some.inj hd.2
  rfl

namespace ImportEnv

variable {env : ImportEnv}

/-- Two transactions that describe one token. -/
def SameParams (tx tx' : CTransaction) : Prop :=
  ∃ c c', decodeTokenCreateOpRet (opretOf tx) = some c ∧
    decodeTokenCreateOpRet (opretOf tx') = some c' ∧
    c.origpubkey = c'.origpubkey ∧ c.name = c'.name ∧ c.description = c'.description

variable {burnTx importTx : CTransaction}

theorem checkTokenParams_ne_ok {rawproof : Bytes} {d : TokenOpRet}
    (hd : decodeTokenOpRet (opretOf importTx) = some d) (hid : d.tokenid ≠ 0) :
    env.checkTokenParams importTx burnTx rawproof ≠ .ok () := by
  intro h
  simp only [checkTokenParams, Checked.bind_eq_ok, expect_eq_ok, require_eq_ok] at h
  obtain ⟨_, -, _, -, ⟨⟩, -, _, -, _, -, c, hc, -⟩ := h
  exact hid (tokenid_of_create hc hd)

theorem checkTokenAmounts_eq_ok {tokenid : Uint256} :
    env.checkTokenAmounts importTx burnTx = .ok tokenid ↔
      env.isStaked = false ∧ (burnTx.vin.any fun i => env.isMyVin EVAL_TOKENS i.scriptSig) = true ∧
        ∃ d, decodeTokenOpRet (opretOf importTx) = some d ∧ d.tokenid = tokenid ∧
          toInt64 (env.ccBurnOutputs (nonfungibleEvalCode d.oprets) burnTx)
            = toInt64 (createCCOutputs env.toCCEnv importTx) := by
  simp only [checkTokenAmounts, Checked.bind_eq_ok, expect_eq_ok, require_eq_ok,
    Checked.pure_eq_ok, Bool.not_eq_true', decide_eq_true_eq, exists_const]
  constructor
  · rintro ⟨hstaked, d, hd, hvin, hamounts, hid⟩
    exact ⟨hstaked, hvin, d, hd, hid, hamounts⟩
  · rintro ⟨hstaked, hvin, d, hd, hid, hamounts⟩
    exact ⟨hstaked, d, hd, hvin, hamounts, hid⟩

theorem getLast?_of_isTokenTx {tx : CTransaction} (h : isTokenTx tx = true) :
    ∃ last, tx.vout.getLast? = some last := by
  rcases hlast : tx.vout.getLast? with _ | last
  · have hnil : lastOpReturn tx = [] := by
      rw [lastOpReturn, opretOf, hlast]
      rfl
    simp [isTokenTx, hnil] at h
  · exact ⟨last, rfl⟩

/-- **What an accepted token import has passed.** The raw proof, where the creation stands,
is not among it. -/
theorem checkMigration_token_iff {proof : ImportProof}
    {rawproof : Bytes} (h : isTokenTx importTx = true) :
    env.checkMigration importTx burnTx proof rawproof = .ok () ↔
      env.checkTokenAmounts importTx burnTx = .ok 0 ∧ env.checkProof burnTx proof = .ok () := by
  obtain ⟨last, hlast⟩ := getLast?_of_isTokenTx h
  have hhead : (lastOpReturn importTx).head? = some EVAL_TOKENS := by simpa [isTokenTx] using h
  simp only [checkMigration, checkImportKind, Checked.bind_eq_ok, expect_eq_ok, defined_eq_ok,
    hlast, hhead, Option.some.injEq, exists_eq_left', if_true]
  constructor
  · rintro ⟨tokenid, hamounts, hrest⟩
    by_cases hid : tokenid = 0
    · subst hid
      exact ⟨hamounts, by simpa using hrest⟩
    · obtain ⟨-, -, d, hd, hdid, -⟩ := checkTokenAmounts_eq_ok.1 hamounts
      rw [if_pos hid, Checked.seq_eq_ok] at hrest
      exact absurd hrest.1 (checkTokenParams_ne_ok hd (hdid ▸ hid))
  · rintro ⟨hamounts, hproof⟩
    exact ⟨0, hamounts, by simpa using hproof⟩

/-! ### A token under any name -/

/-- Whether the tokens of a burn can be imported at all: the chain takes tokens, the burn has
a token input, and the proof holds. -/
def Importable (env : ImportEnv) (burnTx : CTransaction) (proof : ImportProof) : Prop :=
  env.isStaked = false ∧ (burnTx.vin.any fun i => env.isMyVin EVAL_TOKENS i.scriptSig) = true ∧
    env.checkProof burnTx proof = .ok ()

/-- A crypto-condition script that is not the marker's. -/
def otherScript (env : ImportEnv) : CScript :=
  let script (b : UInt8) : CScript := pushData [b] ++ [OP_CHECKCRYPTOCONDITION]
  if script 1 = env.ccPubKey (makeCCcond1 EVAL_TOKENS tokensUnspendablePk) then script 2
  else script 1

/-- An import of the tokens of a burn under a name. -/
def importAs (env : ImportEnv) (burnTx : CTransaction) (name : Bytes) : CTransaction where
  hash := 0
  vin := [⟨⟨burnTx.hash, importPrevoutN⟩, importScriptSig, 0xffffffff⟩]
  vout := [⟨toInt64 (env.ccBurnOutputs EVAL_TOKENS burnTx), env.otherScript⟩,
    ⟨0, encodeTokenCreateOpRet [] name [] []⟩]

theorem otherScript_spec (env : ImportEnv) : isPayToCryptoCondition env.otherScript = true ∧
    env.otherScript ≠ env.ccPubKey (makeCCcond1 EVAL_TOKENS tokensUnspendablePk) := by
  unfold otherScript
  simp only
  split_ifs with h
  · refine ⟨by decide, ?_⟩
    rw [← h]
    decide
  · exact ⟨by decide, h⟩

theorem decode_importAs (env : ImportEnv) (burnTx : CTransaction) {name : Bytes}
    (h : name.length ≤ 1) :
    decodeTokenCreateOpRet (opretOf (env.importAs burnTx name))
      = some ⟨fid 'c', [], name, [], []⟩ := by
  have hcompact : ∀ n ≤ 1, (compactSizeBytes n).length = 1 := by
    intro n hn
    rw [compactSizeBytes, if_pos (by omega)]
    rfl
  refine (decode_encodeTokenCreateOpRet [] name [] (by simp)).2 ⟨?_, ?_, ?_⟩
  · simp only [List.forall_mem_cons, List.length_nil, Unserialize.maxSize]
    exact ⟨by omega, by omega, by omega, by simp⟩
  · exact fun p hp => absurd hp (by simp)
  · simp only [tokenCreatePayload, opretBlobsBytes, List.length_append, vectorBytes, hcompact _ h,
      hcompact 0 (by omega), List.length_cons, List.length_nil]
    omega

theorem checkTokenAmounts_importAs {name : Bytes} (h : name.length ≤ 1)
    (hstaked : env.isStaked = false)
    (hvin : (burnTx.vin.any fun i => env.isMyVin EVAL_TOKENS i.scriptSig) = true) :
    isTokenTx (env.importAs burnTx name) = true ∧
      env.checkTokenAmounts (env.importAs burnTx name) burnTx = .ok 0 := by
  have hcreate := decode_importAs env burnTx h
  have hhead : 2 < (lastOpReturn (env.importAs burnTx name)).length ∧
      (lastOpReturn (env.importAs burnTx name))[0]? = some EVAL_TOKENS ∧
        (lastOpReturn (env.importAs burnTx name))[1]? = some (fid 'c') := by
    unfold decodeTokenCreateOpRet at hcreate
    simp only at hcreate
    split_ifs at hcreate with hhead
    exact hhead
  have hdecode : decodeTokenOpRet (opretOf (env.importAs burnTx name))
      = some ⟨fid 'c', EVAL_TOKENS, 0, [], []⟩ := by
    unfold lastOpReturn at hhead
    unfold decodeTokenOpRet
    simp only
    rw [if_pos ⟨hhead.1, hhead.2.1⟩, if_pos hhead.2.2, hcreate]
    rfl
  obtain ⟨hcc, hmarker⟩ := env.otherScript_spec
  have hout : createCCOutputs env.toCCEnv (env.importAs burnTx name)
      = toInt64 (env.ccBurnOutputs EVAL_TOKENS burnTx) := by
    have hnot : isTokenMarkerVout env.toCCEnv
        ⟨toInt64 (env.ccBurnOutputs EVAL_TOKENS burnTx), env.otherScript⟩ = false := by
      simp [isTokenMarkerVout, CCEnv.makeCC1vout, hmarker]
    simp [createCCOutputs, importAs, hcc, hnot, encodeTokenCreateOpRet,
      isPayToCryptoCondition_opReturnScript]
  refine ⟨?_, checkTokenAmounts_eq_ok.2 ⟨hstaked, hvin, _, hdecode, rfl, ?_⟩⟩
  · rw [isTokenTx, List.head?_eq_getElem?, hhead.2.1]
    exact decide_eq_true rfl
  · rw [hout]
    exact Int.bmod_bmod.symm

/-- **A token comes in under any name.** For a burn, a proof and a creation, every accepted
token import has the parameters of the creation if and only if none is accepted at all,
because the chain takes no tokens, the burn has no token input or the proof fails. -/
theorem migration_params_iff (base burnTx : CTransaction) (proof : ImportProof)
    (rawproof : Bytes) :
    (∀ importTx, isTokenTx importTx = true →
        env.checkMigration importTx burnTx proof rawproof = .ok () → SameParams importTx base) ↔
      ¬ env.Importable burnTx proof := by
  constructor
  · rintro h ⟨hstaked, hvin, hproof⟩
    have hsame : ∀ name : Bytes, name.length ≤ 1 →
        SameParams (env.importAs burnTx name) base := by
      intro name hname
      obtain ⟨htoken, hamounts⟩ := checkTokenAmounts_importAs hname hstaked hvin
      exact h _ htoken ((checkMigration_token_iff htoken).2 ⟨hamounts, hproof⟩)
    -- the creation has one name only
    obtain ⟨c, b, hc, hb, -, hname, -⟩ := hsame [] (Nat.zero_le _)
    obtain ⟨c', b', hc', hb', -, hname', -⟩ := hsame [0] le_rfl
    rw [decode_importAs env burnTx (Nat.zero_le _)] at hc
    rw [decode_importAs env burnTx le_rfl] at hc'
    cases hc
    cases hc'
    rw [hb] at hb'
    cases hb'
    exact absurd (hname.trans hname'.symm) (by simp)
  · intro h importTx htoken haccepted
    obtain ⟨hamounts, hproof⟩ := (checkMigration_token_iff htoken).1 haccepted
    obtain ⟨hstaked, hvin, -⟩ := checkTokenAmounts_eq_ok.1 hamounts
    exact absurd ⟨hstaked, hvin, hproof⟩ h

end ImportEnv

/-! ### Lead for gold -/

namespace ImportSample

/-- The key of somebody who has tokens, and burns them. -/
def holderpk : CPubKey := 0x02 :: List.replicate 32 0x44

/-- `cc_conditionBinary(MakeCCcond1(EVAL_TOKENS, pk))` for the keys of the sample. -/
def conditionOf (pk : CPubKey) : Bytes :=
  if pk = ccBurnPubkey then
    [0xa2, 0x2c, 0x80, 0x20, 0x25, 0x2e, 0x8d, 0x87, 0xbe, 0xa8, 0x7b, 0x0b, 0x45, 0xeb, 0xb2,
     0x7b, 0x88, 0x77, 0x8d, 0x41, 0x39, 0x4b, 0xb6, 0x39, 0xb9, 0x95, 0x09, 0x2c, 0xd6, 0xf4,
     0x55, 0x7d, 0x07, 0x28, 0x6b, 0xb6, 0x81, 0x03, 0x12, 0x0c, 0x00, 0x82, 0x03, 0x00, 0x04,
     0x01]
  else if pk = tokensUnspendablePk then
    [0xa2, 0x2c, 0x80, 0x20, 0x43, 0x2d, 0xe3, 0x88, 0xaa, 0xbc, 0xb6, 0xb4, 0xe3, 0x32, 0x63,
     0x51, 0xd1, 0xd8, 0x15, 0xce, 0xe8, 0xbe, 0x9a, 0x8d, 0x37, 0xb0, 0x55, 0xcd, 0x1c, 0x0c,
     0xf8, 0x78, 0x2e, 0x5c, 0x50, 0xc0, 0x81, 0x03, 0x12, 0x0c, 0x00, 0x82, 0x03, 0x00, 0x04,
     0x01]
  else
    [0xa2, 0x2c, 0x80, 0x20, 0x2e, 0x48, 0x32, 0x17, 0xef, 0x77, 0x3b, 0xe9, 0xd2, 0xdb, 0x84,
     0x55, 0x24, 0xa1, 0x1d, 0xde, 0x03, 0xa0, 0xb3, 0x02, 0xc7, 0xf3, 0x88, 0x15, 0x57, 0xc7,
     0x79, 0xba, 0xed, 0xef, 0x43, 0x33, 0x81, 0x03, 0x12, 0x0c, 0x00, 0x82, 0x03, 0x00, 0x04,
     0x01]

/-- The script of a token output. -/
def tokenScript (pk : CPubKey) : CScript := pushData (conditionOf pk) ++ [OP_CHECKCRYPTOCONDITION]

/-- The symbol of the chain that imports. -/
def target : Bytes := stringBytes "TARGET"

/-- The terms of a burn for this chain, whose id is 777, with payouts that hash to 77. -/
def terms : Bytes :=
  EVAL_IMPORTCOIN :: [0x85, 0x09] ++ vectorBytes target ++ uint256Bytes 77 ++ vectorBytes []

/-- A transaction of version 1 as it is serialised. -/
def txBytes (tx : CTransaction) : Bytes :=
  leBytes 4 1
    ++ listBytes (fun i : CTxIn => uint256Bytes i.prevout.hash ++ leBytes 4 i.prevout.n
        ++ vectorBytes i.scriptSig ++ leBytes 4 i.nSequence) tx.vin
    ++ listBytes (fun out : CTxOut => intBytes 8 out.nValue ++ vectorBytes out.scriptPubKey) tx.vout
    ++ leBytes 4 tx.nLockTime

/-- The approval of one notary, transaction 31. -/
def proof : ImportProof := .notaryTxids [31]

/-- The import data of a burn. -/
def importData (burnTx : CTransaction) : Bytes :=
  EVAL_IMPORTCOIN :: 0x12 :: listBytes uint256Bytes [31] ++ txBytes burnTx

/-- The chain, when it is given an import of a burn. -/
def env (importTx burnTx : CTransaction) : ImportEnv where
  conditionBinary
    | .threshold _ _ [_, .threshold _ _ [.secp256k1 pk _]] => conditionOf pk
    | _ => []
  readFulfillmentBinary b :=
    if b = fulfillment1 EVAL_TOKENS holderpk then some (signedCond1 EVAL_TOKENS holderpk) else none
  anonPublicKey _ := []
  anonHasCode _ _ := false
  solver _ := none
  hash160 b := b
  getscriptaddress _ := none
  getTransaction _ := none
  blockIndex _ := none
  tip := ⟨1000, 1700000000⟩
  lastNotarizedHeight := 0
  sha256 b := b
  assetchainsSymbol := target
  assetchainsCC := 777
  selfImport := []
  beamPort := 0
  codaPort := 0
  overridePubkey33 := []
  marshalImportData _ := importData
  unmarshalImportData b := if b = importData burnTx then some (proof, burnTx) else none
  unmarshalTokenProof _ := none
  serializeHash _ := 77
  newTransaction := { hash := 0, vin := [], vout := [] }
  getHash tx := if { tx with hash := importTx.hash } = importTx then importTx.hash else 0
  hash2 a _ := a
  checkMoMoM _ _ := false
  checkNotariesApproval burntxid notaryTxids := burntxid = burnTx.hash ∧ notaryTxids = [31]
  checkCODAimport _ _ _ _ := false
  checkGATEWAYimport _ _ _ _ _ := false

/-- The creation of a token on the source chain. -/
def lead : CTransaction where
  hash := 21
  vin := []
  vout := [⟨5, tokenScript holderpk⟩,
    ⟨0, encodeTokenCreateOpRet holderpk (stringBytes "LEAD") [] []⟩]

/-- All five tokens are burned. -/
def leadBurn : CTransaction where
  hash := 22
  vin := [⟨⟨21, 0⟩, scriptSig1 EVAL_TOKENS holderpk, 0⟩]
  vout := [⟨5, tokenScript ccBurnPubkey⟩,
    ⟨10000, encodeTokenOpRet 21 [] [(OPRETID_BURNDATA, terms)]⟩]

/-- They come in as gold. -/
def goldImport : CTransaction where
  hash := 23
  vin := [⟨⟨22, importPrevoutN⟩, importScriptSig, 0xffffffff⟩]
  vout := [⟨5, tokenScript holderpk⟩, ⟨0, encodeTokenCreateOpRet holderpk (stringBytes "GOLD") []
    [(OPRETID_IMPORTDATA, importData leadBurn)]⟩]

end ImportSample

open ImportSample in
/-- **A token is impersonated.** Lead is burned, and gold comes in. -/
theorem lead_for_gold :
    (decodeTokenOpRet (opretOf leadBurn)).map TokenOpRet.tokenid = some lead.hash ∧
      (env goldImport leadBurn).importCoin goldImport = .ok () ∧
      isTokenTx goldImport = true ∧
      (env goldImport leadBurn).checkMigration goldImport leadBurn proof [] = .ok () ∧
      ¬ ImportEnv.SameParams goldImport lead := by
  refine ⟨by decide +kernel, by decide +kernel, by decide +kernel, by decide +kernel, ?_⟩
  rintro ⟨c, c', hc, hc', -, hname, -⟩
  have hgold : (decodeTokenCreateOpRet (opretOf goldImport)).map TokenCreateOpRet.name
      = some (stringBytes "GOLD") := by decide +kernel
  have hlead : (decodeTokenCreateOpRet (opretOf lead)).map TokenCreateOpRet.name
      = some (stringBytes "LEAD") := by decide
  rw [hc, Option.map_some] at hgold
  rw [hc', Option.map_some] at hlead
  rw [Option.some.inj hgold, Option.some.inj hlead] at hname
  exact absurd hname (by decide)

end Komodo
