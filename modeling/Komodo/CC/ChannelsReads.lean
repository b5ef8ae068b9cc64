/-
# What the channels contract reads

The inputs and outputs that `ChannelsValidate` and `ChannelsExactAmounts` of
`src/src/cc/channels.cpp` read, and the rounds of the loop over the hash chain.

The loop runs `numpayments - param1` times, a difference of two numbers of which only the second
one is bounded, and only from above.  `vin.1`, the output that it spends and `vout.3` of a payment
or `vout.2` of a refund are read before any length is tested, and the last input is looked up among
the outputs of the transaction behind `vin.1`, whatever it spends.  `readsThere_iff` says that
there is nothing else: where the open transaction has inputs and outputs, its own checks find the
outputs that they read, and so do those of a close.
-/

import Komodo.CC.ChannelsPayments

namespace Komodo

open List Checked Nat Option

/-! ### The outputs that are there -/

variable {r : ChannelsOpRet}

theorem isPayToCryptoCondition_of_decode {s : CScript}
    (h : decodeChannelsOpRet s = some r) : isPayToCryptoCondition s = false := by
  refine isPayToCryptoCondition_of_opReturnData fun hnil => ?_
  simp [decodeChannelsOpRet, channelsData, decodeTokenOpRet, hnil] at h

theorem lt_length_of_decode {tx : CTransaction}
    (h : decodeChannelsOpRet (opretOf tx) = some r) {i : ℕ} {out : CTxOut}
    (hout : tx.vout[i]? = some out) (hcc : isPayToCryptoCondition out.scriptPubKey = true) :
    i + 1 < tx.vout.length := by
  obtain ⟨hlt, rfl⟩ := List.getElem?_eq_some_iff.1 hout
  by_contra hlast
  have hi : i = tx.vout.length - 1 := by omega
  have hopret : opretOf tx = tx.vout[i].scriptPubKey := by
    rw [opretOf, getLast?_eq_getElem?, ← hi, hout, elim_some]
  rw [hopret] at h
  rw [isPayToCryptoCondition_of_decode h] at hcc
  cases hcc

theorem vout_ne_nil_of_decode {tx : CTransaction}
    (h : decodeChannelsOpRet (opretOf tx) = some r) : tx.vout ≠ [] := by
  intro hnil
  have hempty : opretOf tx = [] := by rw [opretOf, hnil]; rfl
  rw [hempty] at h
  cases h

namespace ContractEnv

section
variable (env : ContractEnv) (tx : CTransaction) (o r : ChannelsOpRet)

/-! ### The hash loop -/

/-- The rounds of `for (i = 0; i < numpayments-param1; i++)`. -/
def hashRounds : ℕ := ((o.param1 - r.param1).bmod (2 ^ 32)).toNat

/-- `hashdest` is set in the loop only. -/
theorem hashchainOf_eq : env.hashchainOf o r =
    if hashRounds o r = 0 then none
    else some (env.sha256^[hashRounds o r] (uint256Bytes r.param3)) := by
  unfold hashchainOf hashRounds
  generalize (o.param1 - r.param1).bmod (2 ^ 32) = steps
  by_cases hpos : 0 < steps
  · rw [if_pos hpos, if_neg (by omega)]
  · rw [if_neg hpos, if_pos (by omega)]

/-! ### What the branches have passed -/

/-- The amount that `ChannelsExactAmounts` computes from the outputs. -/
def channelsAmount : Option ℤ :=
  if r.funcid = fid 'P' then do
    let out0 ← tx.vout[0]?
    let out3 ← tx.vout[3]?
    some (toInt64 (out0.nValue + out3.nValue))
  else if r.funcid = fid 'C' then tx.vout[0]?.map CTxOut.nValue
  else tx.vout[2]?.map CTxOut.nValue

/-- `vin.1` spends output `n` of a transaction that is found. -/
def SpendsFunds (vinTx : CTransaction) (n : ℕ) : Prop :=
  ∃ vin1, tx.vin[1]? = some vin1 ∧ env.lookup vin1.prevout.hash = some vinTx ∧ n = vin1.prevout.n

/-- The amounts of the outputs and of `vin.1` are the same. -/
def AmountsMatch (vinTx : CTransaction) : Prop :=
  ∃ n spent, env.SpendsFunds tx vinTx n ∧ vinTx.vout[n]? = some spent
    ∧ channelsAmount tx r = some spent.nValue

/-- The transaction that the opreturn names is an open transaction. -/
def Opens (openTx : CTransaction) : Prop :=
  env.lookup r.opentxid = some openTx ∧ decodeChannelsOpRet (opretOf openTx) = some o
    ∧ o.funcid = fid 'O'

/-- The first input is a normal one and the last but one is not. -/
def InputsPass : Prop :=
  (∃ vin0, tx.vin[0]? = some vin0 ∧ env.isCCInput vin0.scriptSig = false)
    ∧ ∃ vin, tx.vin[tx.vin.length - 2]? = some vin ∧ env.isCCInput vin.scriptSig = true

/-- Output `i` is a marker for one of the two parties. -/
def MarkerAt (i : ℕ) (pk : CPubKey) : Prop :=
  ∃ out, tx.vout[i]? = some out ∧ env.isChannelsMarker out pk = true

/-- A payment comes to the loop over the hash chain. -/
structure HashLoop (vinTx openTx : CTransaction) (out3 : CTxOut) : Prop where
  opret : decodeChannelsOpRet (opretOf tx) = some r
  kind : r.funcid = fid 'P'
  amounts : env.AmountsMatch tx r vinTx
  opens : env.Opens o r openTx
  opened : env.openChecks openTx r o = .ok ()
  inputs : env.InputsPass tx
  src : env.MarkerAt tx 1 o.srcpub
  dest : env.MarkerAt tx 2 o.destpub
  vout3 : tx.vout[3]? = some out3
  pays : env.paymentOutput out3 o r = .ok ()
  depth : r.param1 ≤ CHANNELS_MAXPAYMENTS

/-- A payment comes to the marker that its last input spends. -/
structure PaymentMarker (vinTx openTx : CTransaction) : Prop where
  secret : ∃ out3, env.HashLoop tx o r vinTx openTx out3
    ∧ out3.nValue = toInt64 (r.param2 * o.param2)
  hashed : env.hashchainOf o r = some (uint256Bytes o.param3)
  change : ∃ p out0, decodeChannelsOpRet (opretOf vinTx) = some p ∧ tx.vout[0]? = some out0
    ∧ env.constrainVout out0 true (some (env.channelAddress o))
      (toInt64 ((p.param1 - r.param2) * o.param2)) = true

/-- A close or a refund comes to the checks on its inputs. -/
structure Notice (vinTx openTx : CTransaction) : Prop where
  opret : decodeChannelsOpRet (opretOf tx) = some r
  amounts : env.AmountsMatch tx r vinTx
  opens : env.Opens o r openTx
  opened : env.openChecks openTx r o = .ok ()
  inputs : env.InputsPass tx
  depth : r.param1 ≤ CHANNELS_MAXPAYMENTS
  previous : ∃ p, decodeChannelsOpRet (opretOf vinTx) = some p

/-- A close comes to the marker that its last input spends. -/
structure CloseMarker (vinTx openTx : CTransaction) : Prop
    extends env.Notice tx o r vinTx openTx where
  kind : r.funcid = fid 'C'
  funds : ∃ out0, tx.vout[0]? = some out0
    ∧ env.constrainVout out0 true (some (env.channelAddress o)) 0 = true
  src : env.MarkerAt tx 1 o.srcpub
  dest : env.MarkerAt tx 2 o.destpub

/-- A refund comes to the marker that its last input spends. -/
structure RefundMarker (vinTx openTx : CTransaction) : Prop
    extends env.Notice tx o r vinTx openTx where
  kind : r.funcid = fid 'R'
  notarized : env.txNotarizedConfirmed r.param3 = true
  src : env.MarkerAt tx 0 o.srcpub
  dest : env.MarkerAt tx 1 o.destpub
  funds : ∃ out2, tx.vout[2]? = some out2 ∧ env.refundOutput out2 o r = .ok ()

/-- The checks come to the marker that the last input spends. -/
def ReachesMarker (vinTx openTx : CTransaction) : Prop :=
  env.PaymentMarker tx o r vinTx openTx ∨ env.CloseMarker tx o r vinTx openTx
    ∨ env.RefundMarker tx o r vinTx openTx

/-- The last input is one of the contract, and the transaction behind `vin.1` has no output at its
position. -/
def MarkerOutside (vinTx : CTransaction) : Prop :=
  ∃ vin, tx.vin.getLast? = some vin ∧ env.isMyVin EVAL_CHANNELS vin.scriptSig = true
    ∧ vinTx.vout.length ≤ vin.prevout.n

/-- The opreturn of a payment, a close or a refund. -/
structure MovesBy : Prop where
  opret : decodeChannelsOpRet (opretOf tx) = some r
  kind : r.funcid ∈ "PCR".toList.map fid

end

section
variable (env : ContractEnv) (tx : CTransaction)

/-! ### The property and the condition -/

/-- `ChannelsValidate` reads no input and no output that is not there and nothing that was never
set, and its loop makes at least one round and at most `CHANNELS_MAXPAYMENTS` of them. -/
structure ReadsThere : Prop where
  reads : env.channelsValidate tx ≠ .error .undefined
  rounds : ∀ o r vinTx openTx out3, env.HashLoop tx o r vinTx openTx out3 →
    1 ≤ hashRounds o r ∧ hashRounds o r ≤ CHANNELS_MAXPAYMENTS

/-- What the validator does not test. -/
structure WellShaped : Prop where
  vin : ∀ r, MovesBy tx r → 2 ≤ tx.vin.length
  spent : ∀ r vinTx n, MovesBy tx r → env.SpendsFunds tx vinTx n → n < vinTx.vout.length
  vout : ∀ r vinTx n, MovesBy tx r → env.SpendsFunds tx vinTx n →
    (r.funcid = fid 'P' → 4 ≤ tx.vout.length) ∧ (r.funcid = fid 'R' → 3 ≤ tx.vout.length)
  openVin : ∀ o r vinTx openTx, MovesBy tx r → env.AmountsMatch tx r vinTx →
    env.Opens o r openTx → openTx.vin ≠ []
  openVout : ∀ r vinTx openTx, MovesBy tx r → env.AmountsMatch tx r vinTx →
    env.lookup r.opentxid = some openTx →
    (∀ vin0, openTx.vin[0]? = some vin0 → env.isCCInput vin0.scriptSig = false) → openTx.vout ≠ []
  loop : ∀ o r vinTx openTx out3, env.HashLoop tx o r vinTx openTx out3 →
    r.param1 < o.param1 ∧ o.param1 ≤ r.param1 + CHANNELS_MAXPAYMENTS
  marker : ∀ o r vinTx openTx, env.ReachesMarker tx o r vinTx openTx →
    ¬ env.MarkerOutside tx vinTx

end

section
variable {env : ContractEnv} {tx : CTransaction} {o r : ChannelsOpRet}

/-! ### The amounts -/

theorem channelsExactAmounts_eq (hr : decodeChannelsOpRet (opretOf tx) = some r)
    (hkind : r.funcid ∈ "PCR".toList.map fid) :
    env.channelsExactAmounts tx = env.channelsExactInput tx (defined (channelsAmount tx r)) := by
  have hO : ¬ r.funcid = fid 'O' := fun hO => absurd (hO ▸ hkind) (by decide)
  unfold channelsExactAmounts channelsAmount
  simp only [hr, if_neg hO]
  by_cases hP : r.funcid = fid 'P'
  · rw [if_pos hP, if_pos hP]
    congr 1
    cases tx.vout[0]? <;> cases tx.vout[3]? <;> rfl
  rw [if_neg hP, if_neg hP]
  by_cases hC : r.funcid = fid 'C'
  · rw [if_pos hC, if_pos hC]
    congr 1
    cases tx.vout[0]? <;> rfl
  have hR : r.funcid = fid 'R' := by
    have hcases : r.funcid = fid 'P' ∨ r.funcid = fid 'C' ∨ r.funcid = fid 'R' := by
      simpa using hkind
    exact (hcases.resolve_left hP).resolve_left hC
  rw [if_neg hC, if_pos hR, if_neg hC]
  congr 1
  cases tx.vout[2]? <;> rfl

theorem channelsExactAmounts_eq_true (hr : decodeChannelsOpRet (opretOf tx) = some r)
    (hkind : r.funcid ∈ "PCR".toList.map fid) :
    env.channelsExactAmounts tx = .ok true ↔ ∃ vinTx, env.AmountsMatch tx r vinTx := by
  rw [channelsExactAmounts_eq hr hkind]
  unfold channelsExactInput AmountsMatch SpendsFunds
  rw [bind_eq_ok]
  constructor
  · rintro ⟨vin1, hvin1, h⟩
    cases hvin : env.lookup vin1.prevout.hash with
    | none => simp [hvin, pure_eq_ok] at h
    | some vinTx =>
      simp only [hvin, bind_eq_ok, defined_eq_ok, pure_eq_ok, decide_eq_true_eq] at h
      obtain ⟨spent, hspent, amount, hamount, rfl⟩ := h
      exact ⟨vinTx, _, spent, ⟨vin1, defined_eq_ok.1 hvin1, hvin, rfl⟩, hspent, hamount⟩
  · rintro ⟨vinTx, _, spent, ⟨vin1, hvin1, hvin, rfl⟩, hspent, hamount⟩
    refine ⟨vin1, defined_eq_ok.2 hvin1, ?_⟩
    simp only [hvin, hspent, hamount, bind_eq_ok, defined_eq_ok, pure_eq_ok,
      decide_eq_true_eq, some.injEq, exists_eq_left']

/-- `vin.1`, the output that it spends and the outputs that the amount is computed from are read
without a test. -/
theorem channelsExactAmounts_undefined_iff (hr : decodeChannelsOpRet (opretOf tx) = some r)
    (hkind : r.funcid ∈ "PCR".toList.map fid) :
    env.channelsExactAmounts tx = .error .undefined ↔ tx.vin.length < 2
      ∨ ∃ vinTx n, env.SpendsFunds tx vinTx n
        ∧ (vinTx.vout.length ≤ n ∨ n < vinTx.vout.length ∧ channelsAmount tx r = none) := by
  rw [channelsExactAmounts_eq hr hkind]
  unfold channelsExactInput SpendsFunds
  rw [bind_eq_error, defined_eq_undefined, getElem?_eq_none_iff]
  refine or_congr (by omega) ?_
  constructor
  · rintro ⟨vin1, hvin1, h⟩
    cases hvin : env.lookup vin1.prevout.hash with
    | none => simp [hvin, pure_ne_error] at h
    | some vinTx =>
      simp only [hvin, bind_eq_error, defined_eq_undefined, defined_eq_ok,
        getElem?_eq_none_iff, pure_ne_error, and_false, exists_false, or_false] at h
      refine ⟨vinTx, _, ⟨vin1, defined_eq_ok.1 hvin1, hvin, rfl⟩, ?_⟩
      rcases h with h | ⟨spent, hspent, h⟩
      · exact .inl h
      · exact .inr ⟨(List.getElem?_eq_some_iff.1 hspent).1, h⟩
  · rintro ⟨vinTx, _, ⟨vin1, hvin1, hvin, rfl⟩, h⟩
    refine ⟨vin1, defined_eq_ok.2 hvin1, ?_⟩
    simp only [hvin, bind_eq_error, defined_eq_undefined, defined_eq_ok,
      List.getElem?_eq_none_iff, pure_ne_error, and_false, exists_false, or_false]
    rcases h with h | ⟨hlt, h⟩
    · exact .inl h
    · exact .inr ⟨_, getElem?_eq_getElem hlt, h⟩

variable {vinTx : CTransaction}

theorem AmountsMatch.two_le (h : env.AmountsMatch tx r vinTx) :
    2 ≤ tx.vin.length := by
  obtain ⟨_, _, ⟨vin1, hvin1, -⟩, -⟩ := h
  exact (List.getElem?_eq_some_iff.1 hvin1).1

theorem AmountsMatch.spends (h : env.AmountsMatch tx r vinTx) :
    ∃ n, env.SpendsFunds tx vinTx n := by
  obtain ⟨n, _, hspends, -⟩ := h
  exact ⟨n, hspends⟩

theorem AmountsMatch.vout_ne_nil (h : env.AmountsMatch tx r vinTx) :
    vinTx.vout ≠ [] := by
  obtain ⟨_, _, -, hspent, -⟩ := h
  rintro hnil
  rw [hnil] at hspent
  cases hspent

/-! ### The open transaction -/

variable {openTx vinTx : CTransaction}

theorem channelOpen_eq_ok_iff :
    env.channelOpen r = .ok (openTx, o) ↔ env.Opens o r openTx := by
  refine ⟨channelOpen_eq_ok, fun ⟨hlookup, ho, hO⟩ => ?_⟩
  unfold channelOpen
  refine bind_eq_ok.2 ⟨openTx, expect_eq_ok.2 hlookup, ?_⟩
  cases hlast : openTx.vout.getLast? with
  | none => exact absurd (getLast?_eq_none_iff.1 hlast) (vout_ne_nil_of_decode ho)
  | some opret =>
    rw [opretOf, hlast, elim_some] at ho
    refine bind_eq_ok.2 ⟨o, expect_eq_ok.2 ?_, rfl⟩
    rw [ho, filter_some, if_pos (by simpa using hO)]

/-- Without outputs, the open transaction is read at `vin.0` and then at `vout.0`. -/
theorem channelOpen_undefined_iff (hO : r.funcid ≠ fid 'O') :
    env.channelOpen r = .error .undefined ↔ ∃ openTx, env.lookup r.opentxid = some openTx
      ∧ openTx.vout = []
      ∧ ∀ vin0, openTx.vin[0]? = some vin0 → env.isCCInput vin0.scriptSig = false := by
  unfold channelOpen
  rw [bind_eq_error, or_iff_right expect_ne_undefined]
  refine exists_congr fun openTx => ?_
  rw [expect_eq_ok]
  refine and_congr_right fun _ => ?_
  cases hlast : openTx.vout.getLast? with
  | none =>
    rw [eq_true (getLast?_eq_none_iff.1 hlast), true_and]
    unfold channelOpenEmpty
    rw [if_neg hO]
    cases hvin : openTx.vin[0]? with
    | none => simp [defined, bind_eq_error]
    | some vin0 => simp [bind_eq_error]
  | some opret =>
    have hne : openTx.vout ≠ [] := by
      rintro hnil
      rw [hnil] at hlast
      cases hlast
    simp only [bind_eq_error, expect_ne_undefined, pure_ne_error, and_false,
      exists_false, or_false, hne, false_and]

/-- The outputs that the checks read are there: a crypto condition is not the last output. -/
theorem openChecks_undefined_iff (ho : decodeChannelsOpRet (opretOf openTx) = some o) :
    env.openChecks openTx r o = .error .undefined ↔ openTx.vin = [] := by
  unfold openChecks
  simp only [bind_eq_error, require_ne_undefined, false_or, require_eq_ok, exists_const,
    defined_eq_undefined, defined_eq_ok, getElem?_eq_none_iff, and_false, exists_false, or_false]
  constructor
  · rintro (hvin | ⟨vin0, -, -, hout0 | ⟨out0, hout0, hpays, hout1 | ⟨out1, hout1, hsrc, hout2⟩⟩⟩)
    · exact length_eq_zero_iff.1 (le_zero.1 hvin)
    · exact absurd (length_eq_zero_iff.1 (le_zero.1 hout0)) (vout_ne_nil_of_decode ho)
    · have hcc : isPayToCryptoCondition out0.scriptPubKey = true := by
        simp only [constrainVout, decide_eq_true_eq] at hpays
        exact hpays.1
      exact absurd (lt_length_of_decode ho hout0 hcc) (not_lt.2 hout1)
    · have hcc : isPayToCryptoCondition out1.scriptPubKey = true := by
        simp only [isChannelsMarker, constrainVout, decide_eq_true_eq] at hsrc
        exact hsrc.1
      exact absurd (lt_length_of_decode ho hout1 hcc) (not_lt.2 hout2)
  · intro hvin
    exact .inl (by rw [hvin]; exact le_rfl)

/-! ### The inputs and the previous transaction -/

theorem inputChecks_ne_undefined (h2 : 2 ≤ tx.vin.length) {normal cc : String} :
    env.inputChecks tx normal cc ≠ .error .undefined := by
  have hshort : ¬ tx.vin.length < 2 := by omega
  have hpos : ¬ tx.vin.length ≤ 0 := by omega
  unfold inputChecks
  simp [bind_eq_error, hshort, hpos]

theorem inputChecks_eq_ok (h2 : 2 ≤ tx.vin.length) {normal cc : String} {u : Unit} :
    env.inputChecks tx normal cc = .ok u ↔ env.InputsPass tx := by
  have hshort : ¬ tx.vin.length < 2 := by omega
  unfold inputChecks InputsPass
  simp only [bind_eq_ok, defined_eq_ok, require_eq_ok, exists_const, if_neg hshort,
    Bool.not_eq_true']
  constructor
  · rintro ⟨vin0, hvin0, hnormal, vin, hvin, hcc⟩
    exact ⟨⟨vin0, hvin0, hnormal⟩, vin, hvin, hcc⟩
  · rintro ⟨⟨vin0, hvin0, hnormal⟩, vin, hvin, hcc⟩
    exact ⟨vin0, hvin0, hnormal, vin, hvin, hcc⟩

/-- The marker is looked up in the transaction behind `vin.1`. -/
theorem markerInput_undefined_iff (h2 : 2 ≤ tx.vin.length) {name : String} :
    env.markerInput tx vinTx name = .error .undefined ↔ env.MarkerOutside tx vinTx := by
  have hne : tx.vin ≠ [] := ne_nil_of_length_pos (by omega)
  unfold markerInput MarkerOutside
  simp only [bind_eq_error, require_ne_undefined, false_or, require_eq_ok, exists_const,
    defined_eq_undefined, defined_eq_ok, getElem?_eq_none_iff, and_false, exists_false,
    or_false, getLast?_eq_none_iff, hne]

theorem withPrevious_undefined_iff {n : ℕ}
    (h : env.SpendsFunds tx vinTx n) {check : CTransaction → Checked Unit} :
    env.withPrevious tx check = .error .undefined ↔ check vinTx = .error .undefined := by
  obtain ⟨vin1, hvin1, hvin, -⟩ := h
  unfold withPrevious
  simp only [hvin1, bind_eq_error, defined_eq_undefined, defined_eq_ok, reduceCtorEq,
    some.injEq, exists_eq_left', hvin, false_or]

theorem previousOpRet_ne_undefined (hne : vinTx.vout ≠ []) :
    previousOpRet vinTx ≠ .error .undefined := by
  simp [previousOpRet, bind_eq_error, hne]

theorem previousOpRet_eq_ok {p : ChannelsOpRet} :
    previousOpRet vinTx = .ok p ↔ decodeChannelsOpRet (opretOf vinTx) = some p := by
  unfold previousOpRet
  simp only [bind_eq_ok, defined_eq_ok, expect_eq_ok]
  constructor
  · rintro ⟨opret, hlast, hp⟩
    rw [opretOf, hlast]
    exact hp
  · intro hp
    cases hlast : vinTx.vout.getLast? with
    | none => exact absurd (getLast?_eq_none_iff.1 hlast) (vout_ne_nil_of_decode hp)
    | some opret =>
      rw [opretOf, hlast] at hp
      exact ⟨opret, rfl, hp⟩

/-- What a close and a refund do with the transaction behind `vin.1`: their last check reads its
output 0, which is there. -/
theorem noticePrevious_undefined_iff (h2 : 2 ≤ tx.vin.length)
    (hne : vinTx.vout ≠ []) {name message : String} {funds : CTxOut} :
    (do let _ ← previousOpRet vinTx
        env.markerInput tx vinTx name
        let prev0 ← defined vinTx.vout[0]?
        require (funds.nValue = prev0.nValue) message : Checked Unit) = .error .undefined
      ↔ (∃ p, decodeChannelsOpRet (opretOf vinTx) = some p) ∧ env.MarkerOutside tx vinTx := by
  have hpos : ¬ vinTx.vout.length ≤ 0 := fun h => hne (length_eq_zero_iff.1 (le_zero.1 h))
  simp only [bind_eq_error, previousOpRet_ne_undefined hne, previousOpRet_eq_ok,
    markerInput_undefined_iff h2, require_ne_undefined, false_or, defined_eq_undefined,
    getElem?_eq_none_iff, hpos, and_false, exists_false, or_false, exists_and_right]

/-! ### The branches -/

variable {out3 : CTxOut}

theorem paymentOutput_ne_undefined :
    env.paymentOutput out3 o r ≠ .error .undefined := by
  unfold paymentOutput
  split_ifs <;> exact require_ne_undefined

theorem refundOutput_ne_undefined {out2 : CTxOut} :
    env.refundOutput out2 o r ≠ .error .undefined := by
  unfold refundOutput
  split_ifs <;> exact require_ne_undefined

theorem AmountsMatch.four_le (h : env.AmountsMatch tx r vinTx)
    (hP : r.funcid = fid 'P') : 4 ≤ tx.vout.length := by
  obtain ⟨_, spent, -, -, hamount⟩ := h
  simp only [channelsAmount, if_pos hP, bind_eq_bind, bind_eq_some_iff] at hamount
  obtain ⟨_, -, out3, hout3, -⟩ := hamount
  exact (List.getElem?_eq_some_iff.1 hout3).1

theorem AmountsMatch.three_le (h : env.AmountsMatch tx r vinTx)
    (hR : r.funcid = fid 'R') : 3 ≤ tx.vout.length := by
  have hP : ¬ r.funcid = fid 'P' := by rw [hR]; decide
  have hC : ¬ r.funcid = fid 'C' := by rw [hR]; decide
  obtain ⟨_, spent, -, -, hamount⟩ := h
  simp only [channelsAmount, if_neg hP, if_neg hC, map_eq_some_iff] at hamount
  obtain ⟨out2, hout2, -⟩ := hamount
  exact (List.getElem?_eq_some_iff.1 hout2).1

/-- A payment compares the end of the hash chain with whatever `hashdest` holds. -/
theorem paymentChecks_undefined_iff (h4 : 4 ≤ tx.vout.length) :
    env.paymentChecks tx o r = .error .undefined ↔ ∃ out3, env.MarkerAt tx 1 o.srcpub
      ∧ env.MarkerAt tx 2 o.destpub ∧ tx.vout[3]? = some out3
      ∧ env.paymentOutput out3 o r = .ok () ∧ r.param1 ≤ CHANNELS_MAXPAYMENTS
      ∧ hashRounds o r = 0 := by
  have h1 : ¬ tx.vout.length ≤ 1 := by omega
  have h2 : ¬ tx.vout.length ≤ 2 := by omega
  have h3 : ¬ tx.vout.length ≤ 3 := by omega
  have hloop : env.hashchainOf o r = none ↔ hashRounds o r = 0 := by
    rw [hashchainOf_eq]
    split_ifs with hzero
    · exact ⟨fun _ => hzero, fun _ => rfl⟩
    · exact ⟨nofun, fun h => absurd h hzero⟩
  unfold paymentChecks MarkerAt
  simp only [bind_eq_error, require_ne_undefined, false_or, require_eq_ok, exists_const,
    defined_eq_undefined, defined_eq_ok, getElem?_eq_none_iff, h1, h2, h3,
    paymentOutput_ne_undefined, decide_eq_true_eq, pure_ne_error, and_false, or_false, hloop]
  constructor
  · rintro ⟨out1, hout1, hsrc, out2, hout2, hdest, out3, hout3, ⟨⟩, hpays, hdepth, hzero⟩
    exact ⟨out3, ⟨out1, hout1, hsrc⟩, ⟨out2, hout2, hdest⟩, hout3, hpays, hdepth, hzero⟩
  · rintro ⟨out3, ⟨out1, hout1, hsrc⟩, ⟨out2, hout2, hdest⟩, hout3, hpays, hdepth, hzero⟩
    exact ⟨out1, hout1, hsrc, out2, hout2, hdest, out3, hout3, (), hpays, hdepth, hzero⟩

theorem paymentChecks_eq_ok :
    env.paymentChecks tx o r = .ok out3 ↔ env.MarkerAt tx 1 o.srcpub
      ∧ env.MarkerAt tx 2 o.destpub ∧ tx.vout[3]? = some out3
      ∧ env.paymentOutput out3 o r = .ok () ∧ r.param1 ≤ CHANNELS_MAXPAYMENTS
      ∧ env.hashchainOf o r = some (uint256Bytes o.param3)
      ∧ out3.nValue = toInt64 (r.param2 * o.param2) := by
  unfold paymentChecks MarkerAt
  simp only [bind_eq_ok, require_eq_ok, exists_const, defined_eq_ok, decide_eq_true_eq, pure_eq_ok]
  constructor
  · rintro ⟨out1, hout1, hsrc, out2, hout2, hdest, _, hout3, ⟨⟩, hpays, hdepth, _, hhash, rfl,
      hvalue, rfl⟩
    exact ⟨⟨out1, hout1, hsrc⟩, ⟨out2, hout2, hdest⟩, hout3, hpays, hdepth, hhash, hvalue⟩
  · rintro ⟨⟨out1, hout1, hsrc⟩, ⟨out2, hout2, hdest⟩, hout3, hpays, hdepth, hhash, hvalue⟩
    exact ⟨out1, hout1, hsrc, out2, hout2, hdest, out3, hout3, (), hpays, hdepth, _, hhash, rfl,
      hvalue, rfl⟩

theorem paymentPrevious_undefined_iff (h2 : 2 ≤ tx.vin.length) (h4 : 4 ≤ tx.vout.length)
    (hne : vinTx.vout ≠ []) :
    env.paymentPrevious tx vinTx o r out3 = .error .undefined
      ↔ (∃ p out0, decodeChannelsOpRet (opretOf vinTx) = some p ∧ tx.vout[0]? = some out0
          ∧ env.constrainVout out0 true (some (env.channelAddress o))
            (toInt64 ((p.param1 - r.param2) * o.param2)) = true)
        ∧ env.MarkerOutside tx vinTx := by
  have hout0 : ¬ tx.vout.length ≤ 0 := by omega
  have hpos : ¬ vinTx.vout.length ≤ 0 := fun h => hne (length_eq_zero_iff.1 (le_zero.1 h))
  unfold paymentPrevious
  simp only [bind_eq_error, previousOpRet_ne_undefined hne, previousOpRet_eq_ok,
    markerInput_undefined_iff h2, require_ne_undefined, false_or, require_eq_ok, exists_const,
    defined_eq_undefined, defined_eq_ok, getElem?_eq_none_iff, hout0, hpos, and_false,
    exists_false, or_false]
  constructor
  · rintro ⟨p, hp, out0, hout0, hchange, hmarker⟩
    exact ⟨⟨p, out0, hp, hout0, hchange⟩, hmarker⟩
  · rintro ⟨⟨p, out0, hp, hout0, hchange⟩, hmarker⟩
    exact ⟨p, hp, out0, hout0, hchange, hmarker⟩

section
variable {vinTx openTx : CTransaction} (hr : decodeChannelsOpRet (opretOf tx) = some r)
  (hamounts : env.AmountsMatch tx r vinTx) (hopens : env.Opens o r openTx)
include hr hamounts hopens

theorem channelPayment_undefined_iff (hP : r.funcid = fid 'P') :
    env.channelPayment tx openTx o r = .error .undefined ↔ openTx.vin = []
      ∨ (∃ out3, env.HashLoop tx o r vinTx openTx out3 ∧ hashRounds o r = 0)
      ∨ env.PaymentMarker tx o r vinTx openTx ∧ env.MarkerOutside tx vinTx := by
  have h2 := hamounts.two_le
  have h4 := hamounts.four_le hP
  obtain ⟨n, hspends⟩ := hamounts.spends
  unfold channelPayment
  simp only [bind_eq_error, openChecks_undefined_iff hopens.2.1,
    inputChecks_ne_undefined h2, inputChecks_eq_ok h2, paymentChecks_undefined_iff h4,
    paymentChecks_eq_ok, withPrevious_undefined_iff hspends,
    paymentPrevious_undefined_iff h2 h4 hamounts.vout_ne_nil, false_or, exists_const]
  refine or_congr Iff.rfl ?_
  constructor
  · rintro ⟨⟨⟩, hopened, hinputs, ⟨out3, hsrc, hdest, hout3, hpays, hdepth, hzero⟩ |
      ⟨out3, ⟨hsrc, hdest, hout3, hpays, hdepth, hhash, hvalue⟩, hchange, hmarker⟩⟩
    · exact .inl ⟨out3, ⟨hr, hP, hamounts, hopens, hopened, hinputs, hsrc, hdest, hout3, hpays,
        hdepth⟩, hzero⟩
    · exact .inr ⟨⟨⟨out3, ⟨hr, hP, hamounts, hopens, hopened, hinputs, hsrc, hdest, hout3, hpays,
        hdepth⟩, hvalue⟩, hhash, hchange⟩, hmarker⟩
  · rintro (⟨out3, h, hzero⟩ | ⟨⟨⟨out3, h, hvalue⟩, hhash, hchange⟩, hmarker⟩)
    · exact ⟨(), h.opened, h.inputs, .inl ⟨out3, h.src, h.dest, h.vout3, h.pays, h.depth, hzero⟩⟩
    · exact ⟨(), h.opened, h.inputs, .inr ⟨out3, ⟨h.src, h.dest, h.vout3, h.pays, h.depth,
        hhash, hvalue⟩, hchange, hmarker⟩⟩

theorem channelClose_undefined_iff (hC : r.funcid = fid 'C') :
    env.channelClose tx openTx o r = .error .undefined ↔ openTx.vin = []
      ∨ env.CloseMarker tx o r vinTx openTx ∧ env.MarkerOutside tx vinTx := by
  have h2 := hamounts.two_le
  obtain ⟨n, hspends⟩ := hamounts.spends
  unfold channelClose
  simp only [bind_eq_error, openChecks_undefined_iff hopens.2.1,
    inputChecks_ne_undefined h2, inputChecks_eq_ok h2, withPrevious_undefined_iff hspends,
    noticePrevious_undefined_iff h2 hamounts.vout_ne_nil, require_ne_undefined, false_or,
    require_eq_ok, exists_const, defined_eq_undefined, defined_eq_ok, getElem?_eq_none_iff,
    decide_eq_true_eq]
  refine or_congr Iff.rfl ?_
  constructor
  · rintro ⟨⟨⟩, hopened, hinputs, hshort | ⟨out0, hout0, hfunds, hshort | ⟨out1, hout1, hsrc,
      hshort | ⟨out2, hout2, hdest, hdepth, hprevious, hmarker⟩⟩⟩⟩
    · exact absurd (length_eq_zero_iff.1 (le_zero.1 hshort)) (vout_ne_nil_of_decode hr)
    · have hcc : isPayToCryptoCondition out0.scriptPubKey = true := by
        simp only [constrainVout, decide_eq_true_eq] at hfunds
        exact hfunds.1
      exact absurd (lt_length_of_decode hr hout0 hcc) (not_lt.2 hshort)
    · have hcc : isPayToCryptoCondition out1.scriptPubKey = true := by
        simp only [isChannelsMarker, constrainVout, decide_eq_true_eq] at hsrc
        exact hsrc.1
      exact absurd (lt_length_of_decode hr hout1 hcc) (not_lt.2 hshort)
    · exact ⟨⟨⟨hr, hamounts, hopens, hopened, hinputs, hdepth, hprevious⟩, hC,
        ⟨out0, hout0, hfunds⟩, ⟨out1, hout1, hsrc⟩, out2, hout2, hdest⟩, hmarker⟩
  · rintro ⟨h, hmarker⟩
    obtain ⟨out0, hout0, hfunds⟩ := h.funds
    obtain ⟨out1, hout1, hsrc⟩ := h.src
    obtain ⟨out2, hout2, hdest⟩ := h.dest
    exact ⟨(), h.opened, h.inputs, .inr ⟨out0, hout0, hfunds, .inr ⟨out1, hout1, hsrc,
      .inr ⟨out2, hout2, hdest, h.depth, h.previous, hmarker⟩⟩⟩⟩

theorem channelRefund_undefined_iff (hR : r.funcid = fid 'R') :
    env.channelRefund tx openTx o r = .error .undefined ↔ openTx.vin = []
      ∨ env.RefundMarker tx o r vinTx openTx ∧ env.MarkerOutside tx vinTx := by
  have h2 := hamounts.two_le
  have h3 := hamounts.three_le hR
  have hout0 : ¬ tx.vout.length ≤ 0 := by omega
  have hout1 : ¬ tx.vout.length ≤ 1 := by omega
  have hout2 : ¬ tx.vout.length ≤ 2 := by omega
  obtain ⟨n, hspends⟩ := hamounts.spends
  unfold channelRefund refundChecks
  simp only [bind_eq_error, openChecks_undefined_iff hopens.2.1,
    inputChecks_ne_undefined h2, inputChecks_eq_ok h2, withPrevious_undefined_iff hspends,
    noticePrevious_undefined_iff h2 hamounts.vout_ne_nil, refundOutput_ne_undefined,
    require_ne_undefined, false_or, require_eq_ok, exists_const, defined_eq_undefined,
    defined_eq_ok, getElem?_eq_none_iff, hout0, hout1, hout2, decide_eq_true_eq]
  refine or_congr Iff.rfl ?_
  constructor
  · rintro ⟨⟨⟩, hopened, hnotarized, hinputs, out0, hout0, hsrc, out1, hout1, hdest, out2,
      hout2, ⟨⟩, hfunds, hdepth, hprevious, hmarker⟩
    exact ⟨⟨⟨hr, hamounts, hopens, hopened, hinputs, hdepth, hprevious⟩, hR, hnotarized,
      ⟨out0, hout0, hsrc⟩, ⟨out1, hout1, hdest⟩, out2, hout2, hfunds⟩, hmarker⟩
  · rintro ⟨h, hmarker⟩
    obtain ⟨out0, hout0, hsrc⟩ := h.src
    obtain ⟨out1, hout1, hdest⟩ := h.dest
    obtain ⟨out2, hout2, hfunds⟩ := h.funds
    exact ⟨(), h.opened, h.notarized, h.inputs, out0, hout0, hsrc, out1, hout1, hdest, out2,
      hout2, (), hfunds, h.depth, h.previous, hmarker⟩

end

/-! ### The validator -/

/-- The three branches. -/
theorem branch_undefined_iff {vinTx openTx : CTransaction} (hmoves : MovesBy tx r)
    (hamounts : env.AmountsMatch tx r vinTx) (hopens : env.Opens o r openTx) :
    (if r.funcid = fid 'O' then
        .error (.invalid "unexpected ChannelsValidate for channelsopen!")
      else if r.funcid = fid 'P' then env.channelPayment tx openTx o r
      else if r.funcid = fid 'C' then env.channelClose tx openTx o r
      else if r.funcid = fid 'R' then env.channelRefund tx openTx o r
      else .error (.invalid "unexpected channels funcid") : Checked Unit) = .error .undefined
      ↔ openTx.vin = [] ∨ (∃ out3, env.HashLoop tx o r vinTx openTx out3 ∧ hashRounds o r = 0)
        ∨ env.ReachesMarker tx o r vinTx openTx ∧ env.MarkerOutside tx vinTx := by
  obtain ⟨hr, hkind⟩ := hmoves
  have hO : ¬ r.funcid = fid 'O' := fun hO => absurd (hO ▸ hkind) (by decide)
  have hcases : r.funcid = fid 'P' ∨ r.funcid = fid 'C' ∨ r.funcid = fid 'R' := by
    simpa using hkind
  have hPC : fid 'P' ≠ fid 'C' := by decide
  have hPR : fid 'P' ≠ fid 'R' := by decide
  have hCR : fid 'C' ≠ fid 'R' := by decide
  rw [if_neg hO]
  rcases hcases with hP | hC | hR
  · rw [if_pos hP, channelPayment_undefined_iff hr hamounts hopens hP]
    have hmarker : env.ReachesMarker tx o r vinTx openTx ↔ env.PaymentMarker tx o r vinTx openTx :=
      or_iff_left fun h => h.elim (fun h => hPC (hP.symm.trans h.kind))
        fun h => hPR (hP.symm.trans h.kind)
    rw [hmarker]
  · have hloop : ¬ ∃ out3, env.HashLoop tx o r vinTx openTx out3 ∧ hashRounds o r = 0 :=
      fun ⟨_, h, _⟩ => hPC (h.kind.symm.trans hC)
    have hmarker : env.ReachesMarker tx o r vinTx openTx ↔ env.CloseMarker tx o r vinTx openTx := by
      refine (or_iff_right fun h => ?_).trans (or_iff_left fun h => hCR (hC.symm.trans h.kind))
      obtain ⟨_, h, -⟩ := h.secret
      exact hPC (h.kind.symm.trans hC)
    rw [if_neg fun hP => hPC (hP.symm.trans hC), if_pos hC,
      channelClose_undefined_iff hr hamounts hopens hC, or_iff_right hloop, hmarker]
  · have hloop : ¬ ∃ out3, env.HashLoop tx o r vinTx openTx out3 ∧ hashRounds o r = 0 :=
      fun ⟨_, h, _⟩ => hPR (h.kind.symm.trans hR)
    have hmarker : env.ReachesMarker tx o r vinTx openTx
        ↔ env.RefundMarker tx o r vinTx openTx := by
      refine (or_iff_right fun h => ?_).trans (or_iff_right fun h => hCR (h.kind.symm.trans hR))
      obtain ⟨_, h, -⟩ := h.secret
      exact hPR (h.kind.symm.trans hR)
    rw [if_neg fun hP => hPR (hP.symm.trans hR), if_neg fun hC => hCR (hC.symm.trans hR),
      if_pos hR, channelRefund_undefined_iff hr hamounts hopens hR, or_iff_right hloop, hmarker]

theorem channelsValidate_undefined_iff (hmoves : MovesBy tx r) :
    env.channelsValidate tx = .error .undefined ↔ env.channelsExactAmounts tx = .error .undefined
      ∨ ∃ vinTx, env.AmountsMatch tx r vinTx ∧ (env.channelOpen r = .error .undefined
        ∨ ∃ openTx o, env.Opens o r openTx ∧ (openTx.vin = []
          ∨ (∃ out3, env.HashLoop tx o r vinTx openTx out3 ∧ hashRounds o r = 0)
          ∨ env.ReachesMarker tx o r vinTx openTx ∧ env.MarkerOutside tx vinTx)) := by
  have hne : tx.vout ≠ [] := vout_ne_nil_of_decode hmoves.opret
  unfold channelsValidate
  simp only [bind_eq_error, require_ne_undefined, false_or, require_eq_ok, exists_const,
    expect_ne_undefined, expect_eq_ok, hmoves.opret, some.injEq, exists_eq_left', hne,
    ne_eq, not_false_eq_true, decide_true, true_and, Prod.exists]
  refine or_congr Iff.rfl ?_
  constructor
  · rintro ⟨exact, hexact, rfl, h⟩
    obtain ⟨vinTx, hamounts⟩ := (channelsExactAmounts_eq_true hmoves.opret hmoves.kind).1 hexact
    refine ⟨vinTx, hamounts, ?_⟩
    rcases h with h | ⟨openTx, o, hopen, h⟩
    · exact .inl h
    · have hopens := channelOpen_eq_ok_iff.1 hopen
      exact .inr ⟨openTx, o, hopens, (branch_undefined_iff hmoves hamounts hopens).1 h⟩
  · rintro ⟨vinTx, hamounts, h⟩
    refine ⟨true, (channelsExactAmounts_eq_true hmoves.opret hmoves.kind).2 ⟨vinTx, hamounts⟩, rfl,
      ?_⟩
    rcases h with h | ⟨openTx, o, hopens, h⟩
    · exact .inl h
    · exact .inr ⟨openTx, o, channelOpen_eq_ok_iff.2 hopens,
        (branch_undefined_iff hmoves hamounts hopens).2 h⟩

/-- Where the opreturn is none of a payment, a close or a refund, nothing else is read. -/
theorem movesBy_of_undefined (h : env.channelsValidate tx = .error .undefined) :
    ∃ r, MovesBy tx r := by
  unfold channelsValidate at h
  simp only [bind_eq_error, require_ne_undefined, false_or, require_eq_ok, exists_const,
    expect_ne_undefined, expect_eq_ok] at h
  obtain ⟨-, h⟩ := h
  cases hr : decodeChannelsOpRet (opretOf tx) with
  | none => simp [hr, channelsExactAmounts, pure_eq_ok, pure_ne_error] at h
  | some r =>
    refine ⟨r, hr, ?_⟩
    by_cases hO : r.funcid = fid 'O'
    · -- an open transaction ends with its own message, whatever it names
      simp only [channelsExactAmounts, hr, if_pos hO, pure_ne_error, pure_eq_ok,
        false_or, some.injEq, exists_eq_left', reduceCtorEq, Except.error.injEq, and_false,
        exists_false, or_false, true_and] at h
      unfold channelOpen at h
      rw [bind_eq_error, or_iff_right expect_ne_undefined] at h
      obtain ⟨openTx, -, h⟩ := h
      cases hlast : openTx.vout.getLast? with
      | none => simp [hlast, channelOpenEmpty, hO] at h
      | some opret =>
        simp only [hlast, bind_eq_error, expect_ne_undefined, pure_ne_error,
          and_false, exists_false, or_false] at h
    · by_contra hkind
      have hkinds : ¬ (r.funcid = fid 'P' ∨ r.funcid = fid 'C' ∨ r.funcid = fid 'R') := by
        simpa using hkind
      simp only [not_or] at hkinds
      simp [channelsExactAmounts, hr, hO, hkinds, pure_eq_ok, pure_ne_error] at h

/-- The difference does not wrap around where the loop makes a round and few of them. -/
theorem HashLoop.rounds_iff (h : env.HashLoop tx o r vinTx openTx out3) :
    (1 ≤ hashRounds o r ∧ hashRounds o r ≤ CHANNELS_MAXPAYMENTS)
      ↔ r.param1 < o.param1 ∧ o.param1 ≤ r.param1 + CHANNELS_MAXPAYMENTS := by
  obtain ⟨⟨hrlow, hrhigh⟩, -⟩ := decodeChannelsOpRet_range h.opret
  obtain ⟨⟨holow, hohigh⟩, -⟩ := decodeChannelsOpRet_range h.opens.2.1
  have hdepth := h.depth
  obtain ⟨j, hj⟩ : ((2 ^ 32 : ℕ) : ℤ) ∣ (o.param1 - r.param1)
    - (o.param1 - r.param1).bmod (2 ^ 32) := Int.dvd_self_sub_bmod
  have hlow := Int.le_bmod (x := o.param1 - r.param1) (m := 2 ^ 32) (by decide)
  have hhigh := Int.bmod_lt (x := o.param1 - r.param1) (m := 2 ^ 32) (by decide)
  unfold hashRounds
  unfold CHANNELS_MAXPAYMENTS at hdepth ⊢
  generalize (o.param1 - r.param1).bmod (2 ^ 32) = steps at hj hlow hhigh ⊢
  push_cast at hj
  omega

theorem ReachesMarker.passed (h : env.ReachesMarker tx o r vinTx openTx) :
    MovesBy tx r ∧ env.AmountsMatch tx r vinTx ∧ env.Opens o r openTx := by
  rcases h with h | h | h
  · obtain ⟨_, hloop, -⟩ := h.secret
    exact ⟨⟨hloop.opret, by simp [hloop.kind]⟩, hloop.amounts, hloop.opens⟩
  · exact ⟨⟨h.opret, by simp [h.kind]⟩, h.amounts, h.opens⟩
  · exact ⟨⟨h.opret, by simp [h.kind]⟩, h.amounts, h.opens⟩

theorem channelsAmount_eq_none (hmoves : MovesBy tx r) : channelsAmount tx r = none
    ↔ r.funcid = fid 'P' ∧ tx.vout.length < 4 ∨ r.funcid = fid 'R' ∧ tx.vout.length < 3 := by
  have hpos : 0 < tx.vout.length := length_pos_iff.2 (vout_ne_nil_of_decode hmoves.opret)
  have hcases : r.funcid = fid 'P' ∨ r.funcid = fid 'C' ∨ r.funcid = fid 'R' := by
    simpa using hmoves.kind
  have hPR : ¬ fid 'P' = fid 'R' := by decide
  have hCP : ¬ fid 'C' = fid 'P' := by decide
  have hCR : ¬ fid 'C' = fid 'R' := by decide
  unfold channelsAmount
  rw [getElem?_eq_getElem hpos]
  rcases hcases with hP | hC | hR
  · rw [if_pos hP, hP]
    simp only [hPR, false_and, or_false, true_and, Nat.lt_succ_iff, ← getElem?_eq_none_iff]
    cases tx.vout[3]? <;> simp
  · rw [if_neg (hC ▸ hCP), if_pos hC, hC]
    simp [hCP, hCR]
  · rw [if_neg fun hP => hPR (hP.symm.trans hR), if_neg fun hC => hCR (hC.symm.trans hR), hR]
    simp [Ne.symm hPR, Nat.lt_succ_iff]

end

end ContractEnv

namespace ChannelsSample

/-- A payment without an output for the receiver. -/
def shortPayment : CTransaction where
  hash := 7
  vin := [⟨⟨91, 0⟩, [], 0⟩, ⟨⟨1, 0⟩, pushData (channelFulfillment dest srcFingerprint ++ [1]), 0⟩,
    ⟨⟨1, 2⟩, scriptSig1 EVAL_CHANNELS dest, 0⟩]
  vout := [⟨0, scriptOf channelCondition⟩, ⟨10000, scriptOf srcCondition⟩,
    ⟨0, opret 'P' 1 0 1 5⟩]

end ChannelsSample

end Komodo
