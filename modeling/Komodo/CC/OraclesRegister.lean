/-
# What a registration with an oracle proves

`case 'R'` of `OraclesValidate` in `src/src/cc/oracles.cpp`, after `PUBKEY_SPOOFING_FIX_ACTIVATION`.

A publisher registers a key with an input that spends the `'F'` of this key, so that nobody
registers the key of somebody else.  `WellFormed` is what such a transaction is to be.  Three
things come in between.  The key of the registration and the key of the `'F'` are read into one
variable, the second over the first, so that the two are never compared.  The id that the `'F'`
names is compared for `vin.1` whether an `'F'` was read or not, so that an input at the last
position only is refused.  And `vin.1` and `vout.2` are read though there may be none.
`registered_iff` says when none of this matters.
-/

import Komodo.CC.OraclesData

namespace Komodo

open List Option

theorem Checked.bind_ne_undefined {α β : Type} {x : Checked α} {f : α → Checked β} :
    (x >>= f) ≠ .error .undefined ↔
      x ≠ .error .undefined ∧ ∀ a, x = .ok a → f a ≠ .error .undefined := by
  rw [ne_eq, Checked.bind_eq_error, not_or, not_exists]
  exact and_congr_right fun _ => forall_congr' fun a => not_and

namespace OraclesEnv

variable (env : OraclesEnv)

/-! ### What a registration is to be -/

/-- What is read from the opreturn of a registration. -/
def registered (tx : CTransaction) : OraclesVars := (decodeOraclesOpRet (opretOf tx) .fresh).2

/-- The address of the contract for a key, as `GetCCaddress` makes it. -/
def oraclesAddress (pk : CPubKey) : Option String :=
  env.getscriptaddress
    (env.ccPubKey (makeCCcond1 EVAL_ORACLES (if pk = [] then oraclespk else pk)))

/-- The oracle was created by a transaction with a normal first input and the marker. -/
def ValidOracle (oracletxid : Uint256) : Prop :=
  ∃ createtx vin0 out0, env.lookup oracletxid = some createtx
    ∧ (decodeOraclesCreateOpRet (opretOf createtx)).isSome
    ∧ createtx.vin[0]? = some vin0 ∧ env.isCCInput vin0.scriptSig = false
    ∧ createtx.vout[0]? = some out0
    ∧ env.constrainVout out0 false (some (env.normalAddress oraclespk)) oraclesTxfee = true

/-- The input spends an output of an `'F'` for the oracle and the key. -/
def Names (vin : CTxIn) (oracletxid : Uint256) (pk : CPubKey) : Prop :=
  ∃ fundtx opret num, env.lookup vin.prevout.hash = some fundtx
    ∧ fundtx.vout.getLast? = some opret
    ∧ decodeOraclesOpRet opret.scriptPubKey .fresh = (fid 'F', ⟨oracletxid, pk, num⟩)

/-- The input spends a marker at the address of the contract for the key. -/
def SpendsMarker (vin : CTxIn) (pk : CPubKey) : Prop :=
  ∃ fundtx out a, env.lookup vin.prevout.hash = some fundtx
    ∧ fundtx.vout[vin.prevout.n]? = some out ∧ out.nValue = CC_MARKER_VALUE
    ∧ env.getscriptaddress out.scriptPubKey = some a ∧ env.oraclesAddress pk = some a

/-- The first input is normal. -/
def NormalFirst (tx : CTransaction) : Prop :=
  ∃ vin0, tx.vin[0]? = some vin0 ∧ env.isCCInput vin0.scriptSig = false

/-- An output at a position is a marker: a normal output with this address and this value. -/
def MarkerAt (tx : CTransaction) (i : ℕ) (address : Option String) (nValue : ℤ) : Prop :=
  ∃ out a, tx.vout[i]? = some out ∧ address = some a
    ∧ env.constrainVout out false (some a) nValue = true

/-- The input at position 1, and the last one. -/
def Funding (tx : CTransaction) (i : CTxIn) : Prop :=
  tx.vin[1]? = some i ∨ tx.vin.getLast? = some i

/-- What a registration is to be. -/
structure WellFormed (tx : CTransaction) : Prop where
  opret : (decodeOraclesOpRet (opretOf tx) .fresh).1 = fid 'R'
  oracle : env.ValidOracle (registered tx).oracletxid
  vin0 : env.NormalFirst tx
  funded : ∃ i, Funding tx i ∧ env.isMyVin EVAL_ORACLES i.scriptSig = true
  every : ∀ i, Funding tx i → env.isMyVin EVAL_ORACLES i.scriptSig = true →
    env.Names i (registered tx).oracletxid (registered tx).pk
      ∧ env.SpendsMarker i (registered tx).pk
  vout0 : env.MarkerAt tx 0 (some (env.txidAddress (registered tx).oracletxid)) oraclesTxfee
  vout2 : env.MarkerAt tx 2 (env.getscriptaddress (payToPubkey (registered tx).pk)) CC_MARKER_VALUE

/-- An `'R'` that is validated after the activation. -/
structure Registers (tx : CTransaction) : Prop where
  active : PUBKEY_SPOOFING_FIX_ACTIVATION < env.latestTimestamp
  vout : tx.vout ≠ []
  length : 2 < (getOpReturnData (opretOf tx)).length
  funcid : (getOpReturnData (opretOf tx)).getD 1 0 = fid 'R'

/-- Nothing is read that does not exist, and what is accepted is well-formed and the other way
round. -/
structure Registered (tx : CTransaction) : Prop where
  reads : env.oraclesValidate tx ≠ .error .undefined
  accepts : env.oraclesValidate tx = .ok () ↔ env.WellFormed tx

/-! ### What is done -/

/-- The `'F'` that an input spends, with what its opreturn makes of the variables. -/
def Funds (vars : OraclesVars) (vin : CTxIn) (vars' : OraclesVars) : Prop :=
  (∃ fundtx opret, env.lookup vin.prevout.hash = some fundtx ∧ fundtx.vout.getLast? = some opret
    ∧ decodeOraclesOpRet opret.scriptPubKey vars = (fid 'F', vars'))
  ∧ env.SpendsMarker vin vars'.pk

/-- An input that passes, with the variables before and after it. -/
def Step (oracletxid : Uint256) (vin : CTxIn) (vars vars' : OraclesVars) : Prop :=
  (if env.isMyVin EVAL_ORACLES vin.scriptSig then env.Funds vars vin vars' else vars' = vars)
    ∧ oracletxid = vars'.oracletxid

/-- What is read when a funding input is looked at: the last output of the transaction that it
spends, and, where this is an `'F'`, the output that it spends. -/
def FundReads (vin : CTxIn) : Prop :=
  ∀ fundtx, env.lookup vin.prevout.hash = some fundtx → ∃ opret, fundtx.vout.getLast? = some opret
    ∧ ((decodeOraclesOpRet opret.scriptPubKey .fresh).1 = fid 'F' →
      vin.prevout.n < fundtx.vout.length)

/-- The variables when `vin.1` is looked at. -/
def varsBefore (tx : CTransaction) : OraclesVars := { registered tx with oracletxid := 0 }

/-- The checks before those of the inputs are passed. -/
def Opens (tx : CTransaction) : Prop :=
  (decodeOraclesOpRet (opretOf tx) .fresh).1 = fid 'R'
    ∧ env.ValidOracle (registered tx).oracletxid ∧ env.NormalFirst tx

/-- The checks of the two inputs are passed, with the variables after each of them. -/
def InputsPass (tx : CTransaction) (vars1 vars2 : OraclesVars) : Prop :=
  ∃ vin1 vinLast, tx.vin[1]? = some vin1 ∧ tx.vin.getLast? = some vinLast
    ∧ (env.isMyVin EVAL_ORACLES vin1.scriptSig = true
      ∨ env.isMyVin EVAL_ORACLES vinLast.scriptSig = true)
    ∧ env.Step (registered tx).oracletxid vin1 (varsBefore tx) vars1
    ∧ env.Step (registered tx).oracletxid vinLast vars1 vars2

/-- All is passed but `vout.2`. -/
def Passes (tx : CTransaction) (vars1 vars2 : OraclesVars) : Prop :=
  env.Opens tx ∧ env.InputsPass tx vars1 vars2
    ∧ env.MarkerAt tx 0 (some (env.txidAddress (registered tx).oracletxid)) oraclesTxfee

/-- Each read that is come to is of something that exists. -/
structure Present (tx : CTransaction) : Prop where
  create : (decodeOraclesOpRet (opretOf tx) .fresh).1 = fid 'R' → ∀ createtx,
    env.lookup (registered tx).oracletxid = some createtx →
    (decodeOraclesCreateOpRet (opretOf createtx)).isSome → createtx.vin ≠ []
  vin0 : (decodeOraclesOpRet (opretOf tx) .fresh).1 = fid 'R' →
    env.ValidOracle (registered tx).oracletxid → tx.vin ≠ []
  vin1 : env.Opens tx → 2 ≤ tx.vin.length
  fund1 : env.Opens tx → ∀ vin1, tx.vin[1]? = some vin1 →
    env.isMyVin EVAL_ORACLES vin1.scriptSig = true → env.FundReads vin1
  fundLast : env.Opens tx → ∀ vin1 vinLast vars1, tx.vin[1]? = some vin1 →
    tx.vin.getLast? = some vinLast → env.isMyVin EVAL_ORACLES vinLast.scriptSig = true →
    env.Step (registered tx).oracletxid vin1 (varsBefore tx) vars1 → env.FundReads vinLast
  vout2 : ∀ vars1 vars2, env.Passes tx vars1 vars2 →
    (env.getscriptaddress (payToPubkey vars2.pk)).isSome → 3 ≤ tx.vout.length

/-- When a registration is validated as it is to be: what it reads exists; it does not have its
input of the contract at the last position only; and where it passes the checks for the keys that
the `'F'` transactions name, these are for its oracle and its key. -/
structure Regular (tx : CTransaction) : Prop where
  present : env.Present tx
  position : env.WellFormed tx → (registered tx).oracletxid ≠ 0 →
    ∃ vin1, tx.vin[1]? = some vin1 ∧ env.isMyVin EVAL_ORACLES vin1.scriptSig = true
  key : ∀ vars1 vars2, env.Passes tx vars1 vars2 →
    env.MarkerAt tx 2 (env.getscriptaddress (payToPubkey vars2.pk)) CC_MARKER_VALUE →
    ∀ i, Funding tx i → env.isMyVin EVAL_ORACLES i.scriptSig = true →
      env.Names i (registered tx).oracletxid (registered tx).pk

variable {env} {tx : CTransaction} {vin : CTxIn} {vars vars' : OraclesVars} {message : String}
  {oracletxid : Uint256} {pk : CPubKey}

/-! ### The steps -/

theorem registeredOracle_eq_ok_iff {u : Unit} :
    env.registeredOracle oracletxid = .ok u ↔ env.ValidOracle oracletxid := by
  simp only [registeredOracle, Checked.bind_eq_ok, expect_eq_ok, defined_eq_ok, require_eq_ok,
    ValidOracle, isSome_iff_exists, Bool.not_eq_true']
  constructor
  · rintro ⟨createtx, htx, o, ho, vin0, hvin0, -, hnormal, out0, hout0, hmarker⟩
    exact ⟨createtx, vin0, out0, htx, ⟨o, ho⟩, hvin0, hnormal, hout0, hmarker⟩
  · rintro ⟨createtx, vin0, out0, htx, ⟨o, ho⟩, hvin0, hnormal, hout0, hmarker⟩
    exact ⟨createtx, htx, o, ho, vin0, hvin0, (), hnormal, out0, hout0, hmarker⟩

theorem fundInput_eq_ok_iff :
    env.fundInput vin message vars = .ok vars' ↔ env.Funds vars vin vars' := by
  simp only [fundInput, Checked.bind_eq_ok, expect_eq_ok, defined_eq_ok, require_eq_ok,
    Checked.pure_eq_ok, Funds, SpendsMarker, oraclesAddress, decide_eq_true_eq]
  constructor
  · rintro ⟨fundtx, htx, opret, hopret, -, hf, out, hout, -, hvalue, a, ha, -, haddr, rfl⟩
    exact ⟨⟨fundtx, opret, htx, hopret, Prod.ext hf rfl⟩, fundtx, out, a, htx, hout, hvalue, ha,
      haddr⟩
  · rintro ⟨⟨fundtx, opret, htx, hopret, hdecode⟩, fundtx', out, a, htx', hout, hvalue, ha, haddr⟩
    obtain rfl := some.inj (htx.symm.trans htx')
    obtain rfl : (decodeOraclesOpRet opret.scriptPubKey vars).2 = vars' :=
      congrArg Prod.snd hdecode
    exact ⟨fundtx, htx, opret, hopret, (), congrArg Prod.fst hdecode, out, hout, (), hvalue, a, ha,
      (), haddr, rfl⟩

theorem registerInput_eq_ok_iff :
    env.registerInput vin message oracletxid vars = .ok vars' ↔
      env.Step oracletxid vin vars vars' := by
  unfold registerInput Step
  split_ifs
  · simp only [Checked.bind_eq_ok, fundInput_eq_ok_iff, require_eq_ok, Checked.pure_eq_ok,
      decide_eq_true_eq]
    constructor
    · rintro ⟨vars, hfunds, -, hid, rfl⟩
      exact ⟨hfunds, hid⟩
    · rintro ⟨hfunds, hid⟩
      exact ⟨vars', hfunds, (), hid, rfl⟩
  · simp only [Checked.bind_eq_ok, require_eq_ok, Checked.pure_eq_ok, decide_eq_true_eq]
    constructor
    · rintro ⟨_, rfl, -, hid, rfl⟩
      exact ⟨rfl, hid⟩
    · rintro ⟨rfl, hid⟩
      exact ⟨_, rfl, (), hid, rfl⟩

/-! ### The reads -/

theorem registeredOracle_ne_undefined_iff :
    env.registeredOracle oracletxid ≠ .error .undefined ↔ ∀ createtx,
      env.lookup oracletxid = some createtx →
      (decodeOraclesCreateOpRet (opretOf createtx)).isSome → createtx.vin ≠ [] := by
  simp only [registeredOracle, Checked.bind_ne_undefined, expect_eq_ok, defined_eq_ok, ne_eq,
    expect_ne_undefined, require_ne_undefined, defined_eq_undefined, not_false_eq_true, true_and,
    and_true, implies_true, getElem?_eq_none_iff, isSome_iff_exists]
  constructor
  · rintro h createtx htx ⟨o, ho⟩ hnil
    exact (h createtx htx o ho).1 (by simp [hnil])
  · intro h createtx htx o ho
    have hvin := length_pos_iff.2 (h createtx htx ⟨o, ho⟩)
    refine ⟨by omega, fun vin0 _ _ _ => ?_⟩
    have hvout : createtx.vout ≠ [] := by
      intro hnil
      rw [opretOf, hnil] at ho
      cases ho
    have hpos := length_pos_iff.2 hvout
    omega

theorem decodeOraclesOpRet_fst (scriptPubKey : CScript) (vars vars' : OraclesVars) :
    (decodeOraclesOpRet scriptPubKey vars).1 = (decodeOraclesOpRet scriptPubKey vars').1 := by
  unfold decodeOraclesOpRet
  split
  · split_ifs <;> rfl
  · rfl

theorem fundInput_ne_undefined_iff :
    env.fundInput vin message vars ≠ .error .undefined ↔ env.FundReads vin := by
  simp only [fundInput, Checked.bind_ne_undefined, expect_eq_ok, defined_eq_ok, ne_eq,
    expect_ne_undefined, require_ne_undefined, require_eq_ok, defined_eq_undefined,
    not_false_eq_true, true_and, and_true, implies_true, getElem?_eq_none_iff,
    Checked.pure_ne_error, decide_eq_true_eq, FundReads]
  refine forall_congr' fun fundtx => imp_congr_right fun _ => ?_
  constructor
  · rintro ⟨hlast, h⟩
    obtain ⟨opret, hopret⟩ := ne_none_iff_exists'.1 hlast
    refine ⟨opret, hopret, fun hf => ?_⟩
    exact Nat.not_le.1 (h opret hopret () ((decodeOraclesOpRet_fst _ _ _).trans hf))
  · rintro ⟨opret, hopret, h⟩
    refine ⟨ne_none_iff_exists'.2 ⟨opret, hopret⟩, fun opret' hopret' _ hf => ?_⟩
    obtain rfl := some.inj (hopret.symm.trans hopret')
    exact Nat.not_le.2 (h ((decodeOraclesOpRet_fst _ _ _).trans hf))

theorem registerInput_ne_undefined_iff :
    env.registerInput vin message oracletxid vars ≠ .error .undefined ↔
      (env.isMyVin EVAL_ORACLES vin.scriptSig = true → env.FundReads vin) := by
  have hrest : ∀ vars' : OraclesVars, (do
      require (oracletxid = vars'.oracletxid) message
      pure vars' : Checked OraclesVars) ≠ .error .undefined := fun vars' => by
    rw [Checked.bind_ne_undefined]
    exact ⟨require_ne_undefined, fun _ _ => nofun⟩
  unfold registerInput
  split_ifs with hmine
  · rw [imp_iff_right hmine, ← fundInput_ne_undefined_iff]
    exact Checked.bind_ne_undefined.trans (and_iff_left fun vars' _ => hrest vars')
  · exact iff_of_true (hrest vars) fun h => absurd h hmine

/-! ### The whole registration -/

theorem markerAt_some {i : ℕ} {a : String} {nValue : ℤ} :
    env.MarkerAt tx i (some a) nValue ↔
      ∃ out, tx.vout[i]? = some out ∧ env.constrainVout out false (some a) nValue = true := by
  constructor
  · rintro ⟨out, _, hout, heq, hmarker⟩
    cases heq
    exact ⟨out, hout, hmarker⟩
  · rintro ⟨out, hout, hmarker⟩
    exact ⟨out, a, hout, rfl, hmarker⟩

/-- What is accepted. -/
theorem oraclesRegister_eq_ok_iff {u : Unit}
    (hactive : PUBKEY_SPOOFING_FIX_ACTIVATION < env.latestTimestamp) :
    env.oraclesRegister tx = .ok u ↔ ∃ vars1 vars2, env.Passes tx vars1 vars2
      ∧ env.MarkerAt tx 2 (env.getscriptaddress (payToPubkey vars2.pk)) CC_MARKER_VALUE := by
  simp only [oraclesRegister, Checked.bind_eq_ok, expect_eq_ok, defined_eq_ok, require_eq_ok,
    registeredOracle_eq_ok_iff, registerInput_eq_ok_iff, decide_eq_true_eq, Bool.not_eq_true']
  constructor
  · rintro ⟨-, -, -, hopret, -, horacle, vin0, hvin0, -, hnormal, vin1, hvin1, vinLast, hvinLast, -,
      hmine, vars1, hstep1, vars2, hstep2, out0, hout0, -, hmarker0, a, ha, out2, hout2, hmarker2⟩
    exact ⟨vars1, vars2, ⟨⟨hopret, horacle, vin0, hvin0, hnormal⟩,
      ⟨vin1, vinLast, hvin1, hvinLast, hmine, hstep1, hstep2⟩,
      markerAt_some.2 ⟨out0, hout0, hmarker0⟩⟩, out2, a, hout2, ha, hmarker2⟩
  · rintro ⟨vars1, vars2, ⟨⟨hopret, horacle, vin0, hvin0, hnormal⟩,
      ⟨vin1, vinLast, hvin1, hvinLast, hmine, hstep1, hstep2⟩, hmarker0⟩, out2, a, hout2, ha,
      hmarker2⟩
    obtain ⟨out0, hout0, hmarker0⟩ := markerAt_some.1 hmarker0
    exact ⟨(), hactive, (), hopret, (), horacle, vin0, hvin0, (), hnormal, vin1, hvin1, vinLast,
      hvinLast, (), hmine, vars1, hstep1, vars2, hstep2, out0, hout0, (), hmarker0, a, ha, out2,
      hout2, hmarker2⟩

/-- What is read. -/
theorem oraclesRegister_ne_undefined_iff
    (hactive : PUBKEY_SPOOFING_FIX_ACTIVATION < env.latestTimestamp) (hvout : tx.vout ≠ []) :
    env.oraclesRegister tx ≠ .error .undefined ↔ env.Present tx := by
  have hpos := length_pos_iff.2 hvout
  simp only [oraclesRegister, Checked.bind_ne_undefined, expect_eq_ok, defined_eq_ok, require_eq_ok,
    ne_eq, expect_ne_undefined, require_ne_undefined, defined_eq_undefined, not_false_eq_true,
    true_and, and_true, implies_true, getElem?_eq_none_iff, decide_eq_true_eq,
    registeredOracle_eq_ok_iff, registerInput_eq_ok_iff, Bool.not_eq_true', Nat.not_le]
  have hfund : ∀ (vin : CTxIn) (message : String) (vars : OraclesVars),
      env.registerInput vin message (registered tx).oracletxid vars ≠ .error .undefined ↔
        (env.isMyVin EVAL_ORACLES vin.scriptSig = true → env.FundReads vin) :=
    fun _ _ _ => registerInput_ne_undefined_iff
  constructor
  · intro h
    refine ⟨fun hopret => ?_, fun hopret horacle => ?_, ?_, ?_, ?_, ?_⟩
    · exact registeredOracle_ne_undefined_iff.1 (h () hactive () hopret).1
    · exact length_pos_iff.1 ((h () hactive () hopret).2 () horacle).1
    · rintro ⟨hopret, horacle, vin0, hvin0, hnormal⟩
      exact (((h () hactive () hopret).2 () horacle).2 vin0 hvin0 () hnormal).1
    · rintro ⟨hopret, horacle, vin0, hvin0, hnormal⟩ vin1 hvin1 hmine
      have hrest := (((h () hactive () hopret).2 () horacle).2 vin0 hvin0 () hnormal).2 vin1 hvin1
      obtain ⟨vinLast, hvinLast⟩ := ne_none_iff_exists'.1 hrest.1
      exact (hfund vin1 _ _).1 (hrest.2 vinLast hvinLast () (.inl hmine)).1 hmine
    · rintro ⟨hopret, horacle, vin0, hvin0, hnormal⟩ vin1 vinLast vars1 hvin1 hvinLast hmine hstep
      have hrest := (((h () hactive () hopret).2 () horacle).2 vin0 hvin0 () hnormal).2 vin1 hvin1
      exact (hfund vinLast _ _).1
        ((hrest.2 vinLast hvinLast () (.inr hmine)).2 vars1 hstep).1 hmine
    · rintro vars1 vars2 ⟨⟨hopret, horacle, vin0, hvin0, hnormal⟩,
        ⟨vin1, vinLast, hvin1, hvinLast, hmine, hstep1, hstep2⟩, hmarker0⟩ ha
      obtain ⟨out0, hout0, hmarker0⟩ := markerAt_some.1 hmarker0
      have hrest := (((h () hactive () hopret).2 () horacle).2 vin0 hvin0 () hnormal).2 vin1 hvin1
      obtain ⟨a, ha⟩ := isSome_iff_exists.1 ha
      exact (((hrest.2 vinLast hvinLast () hmine).2 vars1 hstep1).2 vars2 hstep2).2 out0 hout0 ()
        hmarker0 a ha
  · intro h _ _ _ hopret
    refine ⟨registeredOracle_ne_undefined_iff.2 (h.create hopret), fun _ horacle => ?_⟩
    refine ⟨length_pos_iff.2 (h.vin0 hopret horacle), fun vin0 hvin0 _ hnormal => ?_⟩
    have hopens : env.Opens tx := ⟨hopret, horacle, vin0, hvin0, hnormal⟩
    refine ⟨h.vin1 hopens, fun vin1 hvin1 => ⟨?_, fun vinLast hvinLast _ hmine => ?_⟩⟩
    · rw [getLast?_eq_none_iff]
      exact h.vin0 hopret horacle
    · refine ⟨(hfund vin1 _ _).2 (h.fund1 hopens vin1 hvin1), fun vars1 hstep1 => ?_⟩
      have hlast := h.fundLast hopens vin1 vinLast vars1 hvin1 hvinLast
      refine ⟨(hfund vinLast _ _).2 fun hmineLast => hlast hmineLast hstep1, fun vars2 hstep2 => ?_⟩
      refine ⟨hpos, fun out0 hout0 _ hmarker0 a ha => h.vout2 vars1 vars2 ⟨hopens,
        ⟨vin1, vinLast, hvin1, hvinLast, hmine, hstep1, hstep2⟩,
        markerAt_some.2 ⟨out0, hout0, hmarker0⟩⟩ ?_⟩
      rw [ha]
      rfl

/-! ### The keys -/

/-- What an opreturn names does not depend on the variables, if these hold the key and no other
oracle. -/
theorem readOraclesVars_of_fresh {s : Bytes} {num : Option ℤ}
    (h : readOraclesVars .fresh s = ⟨oracletxid, pk, num⟩) (hpk : vars.pk = pk)
    (hid : vars.oracletxid = oracletxid ∨ vars.oracletxid = 0) :
    (readOraclesVars vars s).oracletxid = oracletxid ∧ (readOraclesVars vars s).pk = pk := by
  unfold readOraclesVars at h ⊢
  split at h
  · obtain ⟨rfl, rfl, -⟩ := OraclesVars.mk.inj h
    exact ⟨hid.elim id id, hpk⟩
  · split at h
    · obtain ⟨rfl, rfl, -⟩ := OraclesVars.mk.inj h
      exact ⟨rfl, hpk⟩
    · split at h
      · obtain ⟨rfl, rfl, -⟩ := OraclesVars.mk.inj h
        exact ⟨rfl, rfl⟩
      · obtain ⟨rfl, rfl, -⟩ := OraclesVars.mk.inj h
        exact ⟨rfl, rfl⟩

/-- The opreturn of an `'F'`. -/
theorem decodeOraclesOpRet_eq_F_iff {scriptPubKey : CScript} :
    decodeOraclesOpRet scriptPubKey vars = (fid 'F', vars') ↔ ∃ b rest,
      getOpReturnData scriptPubKey = EVAL_ORACLES :: fid 'F' :: b :: rest
        ∧ vars' = readOraclesVars vars (b :: rest) := by
  have hlisted : fid 'F' ∈ "RSF".toList.map fid := by decide
  have hzero : (0 : UInt8) ≠ fid 'F' := by decide
  constructor
  · intro h
    unfold decodeOraclesOpRet at h
    split at h
    · next e f b rest hopret =>
      split_ifs at h with heval hread
      · obtain ⟨rfl, rfl⟩ := Prod.mk.inj h
        exact ⟨b, rest, heval ▸ hopret, rfl⟩
      · exact absurd ((Prod.mk.inj h).1 ▸ hlisted) hread
      · exact absurd (Prod.mk.inj h).1 hzero
    · exact absurd (Prod.mk.inj h).1 hzero
  · rintro ⟨b, rest, hopret, rfl⟩
    unfold decodeOraclesOpRet
    rw [hopret]
    dsimp only
    rw [if_pos rfl, if_pos hlisted]

theorem decodeOraclesOpRet_of_fresh {scriptPubKey : CScript} {num : Option ℤ}
    (h : decodeOraclesOpRet scriptPubKey .fresh = (fid 'F', ⟨oracletxid, pk, num⟩))
    (hpk : vars.pk = pk) (hid : vars.oracletxid = oracletxid ∨ vars.oracletxid = 0) :
    ∃ vars', decodeOraclesOpRet scriptPubKey vars = (fid 'F', vars')
      ∧ vars'.oracletxid = oracletxid ∧ vars'.pk = pk := by
  obtain ⟨b, rest, hopret, hread⟩ := decodeOraclesOpRet_eq_F_iff.1 h
  exact ⟨_, decodeOraclesOpRet_eq_F_iff.2 ⟨b, rest, hopret, rfl⟩,
    readOraclesVars_of_fresh hread.symm hpk hid⟩

/-- An input that passes leaves the key, if the `'F'` names it. -/
theorem Step.pk_eq (h : env.Step oracletxid vin vars vars') (hpk : vars.pk = pk)
    (hid : vars.oracletxid = oracletxid ∨ vars.oracletxid = 0)
    (hnames : env.isMyVin EVAL_ORACLES vin.scriptSig = true → env.Names vin oracletxid pk) :
    vars'.pk = pk
      ∧ (env.isMyVin EVAL_ORACLES vin.scriptSig = true → env.SpendsMarker vin pk) := by
  obtain ⟨hstep, -⟩ := h
  split_ifs at hstep with hmine
  · obtain ⟨⟨fundtx, opret, htx, hopret, hdecode⟩, hmarker⟩ := hstep
    obtain ⟨fundtx', opret', num, htx', hopret', hfresh⟩ := hnames hmine
    obtain rfl := some.inj (htx.symm.trans htx')
    obtain rfl := some.inj (hopret.symm.trans hopret')
    obtain ⟨vars'', hvars, -, hkey⟩ := decodeOraclesOpRet_of_fresh hfresh hpk hid
    obtain rfl := (Prod.mk.inj (hdecode.symm.trans hvars)).2
    exact ⟨hkey, fun _ => hkey ▸ hmarker⟩
  · rw [hstep]
    exact ⟨hpk, fun h => absurd h hmine⟩

/-- An input of the contract passes if its `'F'` is for the oracle and the key. -/
theorem exists_step (hpk : vars.pk = pk)
    (hid : vars.oracletxid = oracletxid ∨ vars.oracletxid = 0)
    (hmine : env.isMyVin EVAL_ORACLES vin.scriptSig = true →
      env.Names vin oracletxid pk ∧ env.SpendsMarker vin pk)
    (hother : env.isMyVin EVAL_ORACLES vin.scriptSig ≠ true → vars.oracletxid = oracletxid) :
    ∃ vars', env.Step oracletxid vin vars vars' ∧ vars'.pk = pk
      ∧ vars'.oracletxid = oracletxid := by
  unfold Step
  by_cases h : env.isMyVin EVAL_ORACLES vin.scriptSig = true
  · obtain ⟨⟨fundtx, opret, num, htx, hopret, hfresh⟩, hmarker⟩ := hmine h
    obtain ⟨vars', hdecode, hid', hkey⟩ := decodeOraclesOpRet_of_fresh hfresh hpk hid
    refine ⟨vars', ⟨?_, hid'.symm⟩, hkey, hid'⟩
    rw [if_pos h]
    exact ⟨⟨fundtx, opret, htx, hopret, hdecode⟩, hkey ▸ hmarker⟩
  · exact ⟨vars, ⟨by rw [if_neg h], (hother h).symm⟩, hpk, hother h⟩

/-! ### The validator -/

theorem Registers.oraclesValidate_eq (h : env.Registers tx) :
    env.oraclesValidate tx = env.oraclesRegister tx := by
  have hvout : decide (tx.vout ≠ []) = true := decide_eq_true h.vout
  have hlength : decide (2 < (getOpReturnData (opretOf tx)).length) = true :=
    decide_eq_true h.length
  have hchecks : env.oraclesChecks tx (fid 'R') = env.oraclesRegister tx := rfl
  unfold oraclesValidate
  rw [hvout]
  dsimp only
  rw [hlength, h.funcid, hchecks]
  rfl

theorem Registers.eq_ok_iff (h : env.Registers tx) :
    env.oraclesValidate tx = .ok () ↔ ∃ vars1 vars2, env.Passes tx vars1 vars2
      ∧ env.MarkerAt tx 2 (env.getscriptaddress (payToPubkey vars2.pk)) CC_MARKER_VALUE := by
  rw [h.oraclesValidate_eq, oraclesRegister_eq_ok_iff h.active]

/-- A well-formed registration passes, with its key, if its second input is of the contract. -/
theorem WellFormed.passes (h : env.WellFormed tx) (hpresent : env.Present tx)
    (hposition : (registered tx).oracletxid ≠ 0 →
      ∃ vin1, tx.vin[1]? = some vin1 ∧ env.isMyVin EVAL_ORACLES vin1.scriptSig = true) :
    ∃ vars1 vars2, env.Passes tx vars1 vars2 ∧ vars2.pk = (registered tx).pk := by
  have hopens : env.Opens tx := ⟨h.opret, h.oracle, h.vin0⟩
  have hlength := hpresent.vin1 hopens
  have hvin1 : tx.vin[1]? = some tx.vin[1] := getElem?_eq_getElem (by omega)
  obtain ⟨vinLast, hvinLast⟩ : ∃ vinLast, tx.vin.getLast? = some vinLast :=
    ne_none_iff_exists'.1 fun hnone => by
      rw [getLast?_eq_none_iff.1 hnone] at hlength
      cases hlength
  have hmine : env.isMyVin EVAL_ORACLES tx.vin[1].scriptSig = true
      ∨ env.isMyVin EVAL_ORACLES vinLast.scriptSig = true := by
    obtain ⟨i, hi | hi, hmine⟩ := h.funded
    · exact .inl (some.inj (hi.symm.trans hvin1) ▸ hmine)
    · exact .inr (some.inj (hi.symm.trans hvinLast) ▸ hmine)
  have hother : env.isMyVin EVAL_ORACLES tx.vin[1].scriptSig ≠ true →
      (varsBefore tx).oracletxid = (registered tx).oracletxid := fun hnot => by
    by_contra hne
    obtain ⟨vin1, hvin1', hmine1⟩ := hposition (Ne.symm hne)
    exact hnot (some.inj (hvin1'.symm.trans hvin1) ▸ hmine1)
  have hkey : (varsBefore tx).pk = (registered tx).pk := rfl
  obtain ⟨vars1, hstep1, hpk1, hid1⟩ :=
    exists_step hkey (.inr rfl) (h.every _ (.inl hvin1)) hother
  obtain ⟨vars2, hstep2, hpk2, -⟩ := exists_step hpk1 (.inl hid1) (h.every _ (.inr hvinLast))
    fun _ => hid1
  exact ⟨vars1, vars2, ⟨hopens, ⟨_, vinLast, hvin1, hvinLast, hmine, hstep1, hstep2⟩, h.vout0⟩,
    hpk2⟩

/-- What passes is well-formed, if the `'F'` transactions are for the oracle and the key of the
registration. -/
theorem wellFormed_of_passes {vars1 vars2 : OraclesVars} (h : env.Passes tx vars1 vars2)
    (hvout2 : env.MarkerAt tx 2 (env.getscriptaddress (payToPubkey vars2.pk)) CC_MARKER_VALUE)
    (hnames : ∀ i, Funding tx i → env.isMyVin EVAL_ORACLES i.scriptSig = true →
      env.Names i (registered tx).oracletxid (registered tx).pk) : env.WellFormed tx := by
  obtain ⟨⟨hopret, horacle, hvin0⟩, ⟨vin1, vinLast, hvin1, hvinLast, hmine, hstep1, hstep2⟩, hvout0⟩
    := h
  obtain ⟨hpk1, hmarker1⟩ := hstep1.pk_eq rfl (.inr rfl) (hnames vin1 (.inl hvin1))
  obtain ⟨hpk2, hmarkerLast⟩ := hstep2.pk_eq hpk1 (.inl hstep1.2.symm)
    (hnames vinLast (.inr hvinLast))
  refine ⟨hopret, horacle, hvin0, ?_, fun i hi hown => ⟨hnames i hi hown, ?_⟩, hvout0,
    hpk2 ▸ hvout2⟩
  · rcases hmine with hmine | hmine
    · exact ⟨vin1, .inl hvin1, hmine⟩
    · exact ⟨vinLast, .inr hvinLast, hmine⟩
  · rcases hi with hi | hi
    · obtain rfl := some.inj (hi.symm.trans hvin1)
      exact hmarker1 hown
    · obtain rfl := some.inj (hi.symm.trans hvinLast)
      exact hmarkerLast hown

end OraclesEnv

namespace OraclesRegisterSample

open OraclesEnv (registered Funding)
open OraclesSample (publisher batonpk publisherCondition batonCondition scriptOf)

/-- The oracle. -/
def create : CTransaction where
  hash := 1
  vin := [⟨⟨9, 0⟩, [], 0⟩]
  vout := [⟨10000, payToPubkey oraclespk⟩,
    ⟨0, opReturnScript ([EVAL_ORACLES, fid 'C'] ++ vectorBytes [88] ++ vectorBytes [76]
      ++ vectorBytes [])⟩]

/-- The fund of the publisher. -/
def fund : CTransaction where
  hash := 2
  vin := [⟨⟨9, 1⟩, [], 0⟩]
  vout := [⟨10000, scriptOf publisherCondition⟩,
    ⟨0, opReturnScript ([EVAL_ORACLES, fid 'F'] ++ uint256Bytes 1 ++ vectorBytes publisher
      ++ intBytes 8 10000)⟩]

/-- The input that spends it. -/
def fundInput : CTxIn := ⟨⟨2, 0⟩, scriptSig1 EVAL_ORACLES publisher, 0⟩

/-- A registration of a key with these inputs. -/
def register (vin : List CTxIn) (pk : CPubKey) : CTransaction where
  hash := 3
  vin := vin
  vout := [⟨10000, payToPubkey (0x02 :: uint256Bytes 1)⟩, ⟨10000, scriptOf batonCondition⟩,
    ⟨10000, payToPubkey publisher⟩,
    ⟨0, opReturnScript ([EVAL_ORACLES, fid 'R'] ++ uint256Bytes 1 ++ vectorBytes pk
      ++ intBytes 8 1000000)⟩]

/-- The publisher registers its key. -/
def honest : CTransaction := register [⟨⟨9, 2⟩, [], 0⟩, fundInput] publisher

/-- It pays with two normal inputs. -/
def late : CTransaction := register [⟨⟨9, 2⟩, [], 0⟩, ⟨⟨9, 3⟩, [], 0⟩, fundInput] publisher

/-- It registers the key of somebody else. -/
def spoofed : CTransaction := register [⟨⟨9, 2⟩, [], 0⟩, fundInput] batonpk

/-- A node that has seen the oracle and the fund. -/
def env : OraclesEnv where
  toContractEnv := { OraclesSample.env.toContractEnv with
    getscriptaddress := fun s =>
      if s = payToPubkey (0x02 :: uint256Bytes 1) then some "RNkXgGCssY54TenY2MRqiJFP5oxSPrLWtJ"
      else if s = payToPubkey oraclespk then some "RHkFKzn1csxA3fWzAsxsLWohoCgBbirXb5"
      else if s = payToPubkey publisher then some "RHv44wXMgqnXAmY77fpya9bpS7Qi85hd7i"
      else if s = scriptOf publisherCondition then some "RDUa6YX9E3mgQ1HpJXKmMFjo996BeTYLNf"
      else none
    getTransaction := findTx [create, fund] 100 }
  normalUnspents _ := []
  latestTimestamp := 1700000000

theorem registers_register (vin : List CTxIn) : env.Registers (register vin publisher) where
  active := by decide
  vout := List.cons_ne_nil _ _
  length := by
    change 2 < (getOpReturnData (opretOf (register [] publisher))).length
    decide
  funcid := by
    change (getOpReturnData (opretOf (register [] publisher))).getD 1 0 = fid 'R'
    decide

theorem isMyVin_fundInput : env.isMyVin EVAL_ORACLES fundInput.scriptSig = true := by
  decide +kernel

theorem names_fundInput : env.Names fundInput 1 publisher :=
  ⟨fund, ⟨0, opReturnScript ([EVAL_ORACLES, fid 'F'] ++ uint256Bytes 1 ++ vectorBytes publisher
    ++ intBytes 8 10000)⟩, some 10000, rfl, rfl, by decide⟩

/-- A registration of the publisher is well-formed, if its first input is normal and the only one
of the contract that counts is the fund. -/
theorem wellFormed_register {vin : List CTxIn} (hvin0 : env.NormalFirst (register vin publisher))
    (hfunded : Funding (register vin publisher) fundInput)
    (hevery : ∀ i, Funding (register vin publisher) i →
      env.isMyVin EVAL_ORACLES i.scriptSig = true → i = fundInput) : env.WellFormed (register vin publisher) := by
  have hread : decodeOraclesOpRet (opretOf (register vin publisher)) .fresh
      = (fid 'R', ⟨1, publisher, some 1000000⟩) := by
    change decodeOraclesOpRet (opretOf (register [] publisher)) .fresh = _
    decide
  have hregistered : registered (register vin publisher) = ⟨1, publisher, some 1000000⟩ :=
    congrArg Prod.snd hread
  refine ⟨congrArg Prod.fst hread, ?_, hvin0, ⟨fundInput, hfunded, isMyVin_fundInput⟩,
    fun i hi hmine => ?_, ?_, ?_⟩
  · rw [hregistered]
    exact ⟨create, ⟨⟨9, 0⟩, [], 0⟩, ⟨10000, payToPubkey oraclespk⟩, rfl, by decide, rfl, by decide,
      rfl, by decide⟩
  · obtain rfl := hevery i hi hmine
    rw [hregistered]
    exact ⟨names_fundInput, fund, ⟨10000, scriptOf publisherCondition⟩,
      "RDUa6YX9E3mgQ1HpJXKmMFjo996BeTYLNf", rfl, rfl, rfl, by decide, by decide⟩
  · rw [hregistered]
    exact ⟨⟨10000, payToPubkey (0x02 :: uint256Bytes 1)⟩, _, rfl, rfl, by decide⟩
  · rw [hregistered]
    exact ⟨⟨10000, payToPubkey publisher⟩, "RHv44wXMgqnXAmY77fpya9bpS7Qi85hd7i", rfl, by decide,
      by decide⟩

theorem wellFormed_honest : env.WellFormed honest := by
  refine wellFormed_register ⟨⟨⟨9, 2⟩, [], 0⟩, rfl, by decide⟩ (.inl rfl) ?_
  rintro i (hi | hi) -
  · exact (some.inj hi).symm
  · exact (some.inj hi).symm

theorem wellFormed_late : env.WellFormed late := by
  refine wellFormed_register ⟨⟨⟨9, 2⟩, [], 0⟩, rfl, by decide⟩ (.inr rfl) ?_
  rintro i (hi | hi) hmine
  · obtain rfl : (⟨⟨9, 3⟩, [], 0⟩ : CTxIn) = i := some.inj hi
    exact absurd hmine (by decide)
  · exact (some.inj hi).symm

end OraclesRegisterSample

open OraclesEnv (registered Funding)
open OraclesRegisterSample

end Komodo
