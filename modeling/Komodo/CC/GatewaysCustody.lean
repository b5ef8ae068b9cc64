/-
# Who guards the gateway's tokens

The spending key of the gateways contract is public, so its validator alone
keeps the tokens locked at the gateway's tokens address. `CustodyKept` is what
it should guarantee of a transaction: the value moved out of the address is
nothing, or the claimed amount, and the marker of a deposit is spent only by the
claim of that deposit.

`GatewaysValidate` (`src/src/cc/gateways.cpp`) looks at the opreturn, the transactions it names,
the first and the last input and the first output (`Passes`, `gatewaysValidate_iff`). So whatever
it accepts it also accepts with one more input from the tokens address, or with a deposit marker,
in the middle (`passes_insert`), and the guarantee fails for one of the two (`custody_kept_iff`).
-/

import Komodo.CC.Gateways
import Komodo.Lib.Completes

namespace Komodo

open List

variable {g : GatewaysEnv} {tx tx' : CTransaction} {i : CTxIn}

/-! ### What should be guaranteed -/

/-- The opreturn script of a transaction; empty without outputs. -/
def opretScript (tx : CTransaction) : CScript := tx.vout.getLast?.elim [] CTxOut.scriptPubKey

/-- The claim a transaction makes, if it is a `'C'` transaction. -/
def claimOf (tx : CTransaction) : Option GatewaysClaim :=
  if decodeGatewaysOpRet (opretScript tx) = some (fid 'C') then
    decodeGatewaysClaimOpRet (opretScript tx)
  else none

/-- The value of an output at the gateway's tokens address. -/
def lockedValue (g : GatewaysEnv) (out : CTxOut) : ℤ :=
  if g.getscriptaddress out.scriptPubKey = some g.gatewaystokensaddr then out.nValue else 0

/-- The value that an input takes from the gateway's tokens address. -/
def unlockedValue (g : GatewaysEnv) (i : CTxIn) : ℤ :=
  ((g.lookup i.prevout.hash).bind fun vintx => vintx.vout[i.prevout.n]?).elim 0 (lockedValue g)

/-- The value a transaction moves out of the gateway's tokens address. -/
def movedOut (g : GatewaysEnv) (tx : CTransaction) : ℤ :=
  (tx.vin.map (unlockedValue g)).sum - (tx.vout.map (lockedValue g)).sum

/-- An input spends the marker of a deposit, its first output. -/
def SpendsDepositMarker (g : GatewaysEnv) (i : CTxIn) : Prop :=
  i.prevout.n = 0 ∧ ∃ deposittx d, g.lookup i.prevout.hash = some deposittx ∧
    decodeGatewaysDepositOpRet (opretScript deposittx) = some d

/-- The gateway's custody is respected. -/
structure CustodyKept (g : GatewaysEnv) (tx : CTransaction) : Prop where
  moved : movedOut g tx = (claimOf tx).elim 0 GatewaysClaim.amount
  markers : ∀ i ∈ tx.vin, SpendsDepositMarker g i →
    ∃ c, claimOf tx = some c ∧ c.deposittxid = i.prevout.hash

/-! ### What is checked -/

theorem check_ok {b : Bool} {m : String} : check b m = .ok () ↔ b = true := by
  unfold check
  cases b <;> simp

theorem seq_ok {β : Type} {x : Except String Unit} {y : Except String β} {b : β} :
    (do x; y) = .ok b ↔ x = .ok () ∧ y = .ok b := by
  rw [Runs.bind_eq_ok]
  exact ⟨fun ⟨_, hx, hy⟩ => ⟨hx, hy⟩, fun ⟨hx, hy⟩ => ⟨(), hx, hy⟩⟩

/-- The inputs of a signing or a done mark: the first is normal, the last spends
an output of the marker value. -/
def MarkerVins (g : GatewaysEnv) (tx : CTransaction) : Prop :=
  g.isCCInput (scriptSigAt tx 0) = false ∧
    ∃ last, tx.vin.getLast? = some last ∧ g.isMyVin EVAL_GATEWAYS last.scriptSig = true ∧
      ∃ vintx, g.lookup last.prevout.hash = some vintx ∧
        (voutAt vintx last.prevout.n).nValue = CC_MARKER_VALUE

/-- The first output of a signing is a marker. -/
def MarkerVout (g : GatewaysEnv) (tx : CTransaction) : Prop :=
  g.constrainVout (voutAt tx 0) true gatewaysCCaddr CC_MARKER_VALUE = true

/-- What `GatewaysValidate` asks of a transaction, by the function id of its
opreturn: nothing for an unknown id or none; a claim must name a bind and a
deposit that are in order and have only crypto-condition inputs before the last;
signings and done marks must name a withdrawal in order and have a normal first
input, a marker as last input, and, for a signing, as first output. No
transaction with one of the other ids passes. -/
def Passes (g : GatewaysEnv) (tx : CTransaction) : Prop :=
  match decodeGatewaysOpRet (opretScript tx) with
  | none => True
  | some f =>
    (f = fid 'C' ∧ claimNamed g (opretScript tx) = .ok () ∧
      ∀ i ∈ tx.vin.dropLast, g.isCCInput i.scriptSig = true) ∨
    (f = fid 'P' ∧ (∃ K M, partialNamed g (opretScript tx) = .ok (K, M) ∧ K ≤ M) ∧
      MarkerVins g tx ∧ MarkerVout g tx) ∨
    (f = fid 'S' ∧ (∃ K M, completeNamed g (opretScript tx) = .ok (K, M) ∧ M ≤ K) ∧
      MarkerVins g tx ∧ MarkerVout g tx) ∨
    (f = fid 'M' ∧ (∃ K M, markDoneNamed g (opretScript tx) = .ok (K, M) ∧ M ≤ K) ∧
      MarkerVins g tx)

theorem markerVins_ok {name : String} : markerVins g tx name = .ok () ↔ MarkerVins g tx := by
  unfold markerVins MarkerVins
  rw [seq_ok, check_ok, check_ok, Bool.not_eq_true', decide_eq_true_eq]
  refine and_congr_right fun _ => ?_
  cases tx.vin.getLast? with
  | none => simp
  | some last => cases h : g.lookup last.prevout.hash <;> simp [h]

theorem markerVout_ok {name : String} : markerVout g tx name = .ok () ↔ MarkerVout g tx :=
  check_ok

section named
variable {named : Except String (UInt8 × UInt8)} {name : String} {r : UInt8 → UInt8 → Prop}
  [∀ K M, Decidable (r K M)]

theorem signing_ok : (do
      let (K, M) ← named
      markerVins g tx name
      markerVout g tx name
      check (r K M) "invalid number of signs!") = .ok () ↔
    (∃ K M, named = .ok (K, M) ∧ r K M) ∧ MarkerVins g tx ∧ MarkerVout g tx := by
  rw [Runs.bind_eq_ok]
  simp only [seq_ok, check_ok, markerVins_ok, markerVout_ok, decide_eq_true_eq, Prod.exists]
  constructor
  · rintro ⟨K, M, hn, hvin, hvout, hr⟩
    exact ⟨⟨K, M, hn, hr⟩, hvin, hvout⟩
  · rintro ⟨⟨K, M, hn, hr⟩, hvin, hvout⟩
    exact ⟨K, M, hn, hvin, hvout, hr⟩

theorem markDone_ok : (do
      let (K, M) ← named
      markerVins g tx name
      check (r K M) "invalid number of signs!") = .ok () ↔
    (∃ K M, named = .ok (K, M) ∧ r K M) ∧ MarkerVins g tx := by
  rw [Runs.bind_eq_ok]
  simp only [seq_ok, check_ok, markerVins_ok, decide_eq_true_eq, Prod.exists]
  constructor
  · rintro ⟨K, M, hn, hvin, hr⟩
    exact ⟨⟨K, M, hn, hr⟩, hvin⟩
  · rintro ⟨⟨K, M, hn, hr⟩, hvin⟩
    exact ⟨K, M, hn, hvin, hr⟩

end named

theorem claimOwn_ok (hvin : tx.vin ≠ []) : claimOwn g tx = .ok () ↔
    ∀ i ∈ tx.vin.dropLast, g.isCCInput i.scriptSig = true := by
  unfold claimOwn
  rw [if_pos hvin, check_ok, all_eq_true]

theorem decodeGatewaysOpRet_mem {s : CScript} {f : UInt8} (h : decodeGatewaysOpRet s = some f) :
    f = fid 'B' ∨ f = fid 'D' ∨ f = fid 'C' ∨ f = fid 'W' ∨ f = fid 'P' ∨ f = fid 'S' ∨
      f = fid 'M' := by
  unfold decodeGatewaysOpRet at h
  split at h
  · split_ifs at h with hm
    cases h
    simpa using hm.2
  · cases h

/-- **What `GatewaysValidate` accepts.** A transaction with an input and an
output is accepted iff it passes. -/
theorem gatewaysValidate_iff (hvin : tx.vin ≠ []) (hvout : tx.vout ≠ []) :
    (gatewaysValidate g tx).val = true ↔ Passes g tx := by
  obtain ⟨opret, hop⟩ : ∃ opret, tx.vout.getLast? = some opret :=
    ⟨_, getLast?_eq_some_getLast hvout⟩
  have hs : opretScript tx = opret.scriptPubKey := by rw [opretScript, hop]; rfl
  have hval : (gatewaysValidate g tx).val = true ↔
      gatewaysChecks g tx (opretScript tx) = .ok () := by
    simp only [gatewaysValidate, hop, hs]
    cases gatewaysChecks g tx opret.scriptPubKey <;> simp
  rw [hval, gatewaysChecks, Passes]
  cases hf : decodeGatewaysOpRet (opretScript tx) with
  | none => simp
  | some f =>
    rcases decodeGatewaysOpRet_mem hf with rfl | rfl | rfl | rfl | rfl | rfl | rfl
    · simp [fid]
    · simp [fid]
    · simpa [fid] using seq_ok.trans (and_congr_right fun _ => claimOwn_ok hvin)
    · simp [fid]
    · simpa [fid] using signing_ok (r := fun K M => K ≤ M)
    · simpa [fid] using signing_ok (r := fun K M => M ≤ K)
    · simpa [fid] using markDone_ok (r := fun K M => M ≤ K)

/-! ### One more input in the middle -/

/-- The transaction with a further input before the last one; its id may be
any. -/
structure WithInput (tx tx' : CTransaction) (i : CTxIn) : Prop where
  vin : tx'.vin = tx.vin.dropLast ++ i :: tx.vin.getLast?.toList
  vout : tx'.vout = tx.vout

namespace WithInput

theorem opretScript_eq (h : WithInput tx tx' i) : opretScript tx' = opretScript tx := by
  rw [opretScript, h.vout, opretScript]

theorem claimOf_eq (h : WithInput tx tx' i) : claimOf tx' = claimOf tx := by
  rw [claimOf, claimOf, h.opretScript_eq]

theorem exists_last (h : WithInput tx tx' i) (hvin : tx.vin ≠ []) :
    ∃ vin last, tx.vin = vin ++ [last] ∧ tx'.vin = vin ++ [i, last] := by
  refine ⟨tx.vin.dropLast, tx.vin.getLast hvin, (dropLast_append_getLast hvin).symm, ?_⟩
  rw [h.vin, getLast?_eq_some_getLast hvin]
  rfl

theorem movedOut_eq (h : WithInput tx tx' i) (hvin : tx.vin ≠ []) :
    movedOut g tx' = movedOut g tx + unlockedValue g i := by
  obtain ⟨vin, last, hv, hv'⟩ := h.exists_last hvin
  unfold movedOut
  rw [h.vout, hv, hv']
  simp only [map_append, map_cons, map_nil, sum_append, sum_cons, sum_nil]
  omega

end WithInput

/-- The marker inputs do not see a crypto-condition input in the middle: with
one input only, its script would have to be normal and of the contract. -/
theorem markerVins_insert (h : WithInput tx tx' i) (hvin : tx.vin ≠ [])
    (hi : g.isCCInput i.scriptSig = true) : MarkerVins g tx' ↔ MarkerVins g tx := by
  obtain ⟨vin, last, hv, hv'⟩ := h.exists_last hvin
  have hlast : tx'.vin.getLast? = tx.vin.getLast? := by rw [hv, hv']; simp
  unfold MarkerVins
  rw [hlast]
  cases vin with
  | cons first vin =>
    have h₀ : scriptSigAt tx' 0 = scriptSigAt tx 0 := by simp [scriptSigAt, hv, hv']
    rw [h₀]
  | nil =>
    have h₁ : scriptSigAt tx' 0 = i.scriptSig := by simp [scriptSigAt, hv']
    have h₂ : scriptSigAt tx 0 = last.scriptSig := by simp [scriptSigAt, hv]
    rw [h₁, h₂]
    constructor
    · rintro ⟨hn, -⟩
      rw [hi] at hn
      cases hn
    · rintro ⟨hn, l, hl, hmy, -⟩
      have : last = l := by simpa [hv] using hl
      rw [this, CCEnv.isCCInput_of_isMyVin hmy] at hn
      cases hn

/-- **The validator does not look at the inputs in the middle.** -/
theorem passes_insert (h : WithInput tx tx' i) (hvin : tx.vin ≠ [])
    (hi : g.isCCInput i.scriptSig = true) : Passes g tx' ↔ Passes g tx := by
  have hclaim : (∀ j ∈ tx'.vin.dropLast, g.isCCInput j.scriptSig = true) ↔
      ∀ j ∈ tx.vin.dropLast, g.isCCInput j.scriptSig = true := by
    obtain ⟨vin, last, hv, hv'⟩ := h.exists_last hvin
    have hd : tx'.vin.dropLast = vin ++ [i] := by
      rw [hv', show vin ++ [i, last] = (vin ++ [i]) ++ [last] by simp, dropLast_concat]
    rw [hd, hv, dropLast_concat]
    constructor
    · exact fun hall j hj => hall j (mem_append_left _ hj)
    · intro hall j hj
      rcases mem_append.1 hj with hj | hj
      · exact hall j hj
      · rw [mem_singleton.1 hj]
        exact hi
  have hvout : MarkerVout g tx' ↔ MarkerVout g tx := by
    rw [MarkerVout, MarkerVout, voutAt, voutAt, h.vout]
  unfold Passes
  rw [h.opretScript_eq]
  simp only [hclaim, hvout, markerVins_insert h hvin hi]

/-- **Custody is kept only where the validator refuses anyway.** Take any
transaction with inputs and outputs and any input that takes value from the
gateway's tokens address, or spends the marker of a deposit the transaction does
not claim. The guarantee holds of all that is accepted, of the transaction and
of the same transaction with that further input, iff the transaction does not
pass: its function id is `'B'`, `'D'` or `'W'`, or a check of what it names, of
its first or last input or of its first output fails. -/
theorem custody_kept_iff (h : WithInput tx tx' i) (hvin : tx.vin ≠ []) (hvout : tx.vout ≠ [])
    (hi : g.isCCInput i.scriptSig = true)
    (hgate : unlockedValue g i ≠ 0 ∨
      SpendsDepositMarker g i ∧ ∀ c, claimOf tx = some c → c.deposittxid ≠ i.prevout.hash) :
    (((gatewaysValidate g tx).val = true → CustodyKept g tx) ∧
      ((gatewaysValidate g tx').val = true → CustodyKept g tx')) ↔ ¬ Passes g tx := by
  have hmem : i ∈ tx'.vin := by rw [h.vin]; simp
  have hvin' : tx'.vin ≠ [] := List.ne_nil_of_mem hmem
  have hvout' : tx'.vout ≠ [] := by rwa [h.vout]
  rw [gatewaysValidate_iff hvin hvout, gatewaysValidate_iff hvin' hvout',
    passes_insert h hvin hi]
  constructor
  · rintro ⟨hk, hk'⟩ hp
    have hkept := hk hp
    have hkept' := hk' hp
    rcases hgate with hv | ⟨hm, hc⟩
    · have := h.movedOut_eq (g := g) hvin
      rw [hkept'.moved, hkept.moved, h.claimOf_eq] at this
      omega
    · obtain ⟨c, hcl, hid⟩ := hkept'.markers i hmem hm
      rw [h.claimOf_eq] at hcl
      exact hc c hcl hid
  · exact fun hp => ⟨fun hp' => absurd hp' hp, fun hp' => absurd hp' hp⟩

/-! ### Draining the gateway -/

namespace GatewaysSample

/-- `cc_conditionBinary(MakeTokensCCcond1(EVAL_GATEWAYS, 0, gatewayspk))`. -/
def lockCondition : Bytes :=
  [0xa2, 0x2c, 0x80, 0x20, 0xbe, 0xd2, 0x94, 0xe1, 0x5c, 0xd2, 0xe3, 0x27, 0xd2, 0xf1, 0xe6,
   0xbc, 0xf5, 0x5e, 0x2e, 0xbe, 0x57, 0x1b, 0x7b, 0xc2, 0xe6, 0x72, 0x36, 0x39, 0x50, 0xca,
   0x68, 0x0c, 0x8b, 0x89, 0x22, 0x63, 0x81, 0x03, 0x22, 0x10, 0x00, 0x82, 0x03, 0x00, 0x04,
   0x01]

/-- The script of the gateway's tokens address. -/
def lockScript : CScript := pushData lockCondition ++ [OP_CHECKCRYPTOCONDITION]

/-- The fulfillment of that condition, with a placeholder for the signature. -/
def fulfillment : Bytes :=
  [0xa2, 0x7b, 0xa0, 0x77, 0xa2, 0x6b, 0xa0, 0x67, 0xa5, 0x65, 0x80, 0x21] ++ gatewayspk
    ++ [0x81, 0x40] ++ List.replicate 64 1
    ++ [0xa1, 0x00, 0xaf, 0x03, 0x80, 0x01, 0xf1, 0xaf, 0x03, 0x80, 0x01, 0xf2, 0xa1, 0x00]

/-- A transaction that locked 500 tokens with the gateway. -/
def locked : CTransaction where
  hash := 1
  vin := []
  vout := [⟨500, lockScript⟩, ⟨0, [OP_RETURN]⟩]

/-- A chain with that transaction, and the codec on its data. -/
def env : GatewaysEnv where
  conditionBinary
    | .threshold 3 3 [.eval [0xf1], .eval [0xf2], .threshold 1 1 [.secp256k1 pk _]] =>
      if pk = gatewayspk then lockCondition else []
    | _ => []
  readFulfillmentBinary b :=
    if b = fulfillment then
      some (.threshold 3 3 [.threshold 1 1 [.secp256k1 gatewayspk (some (List.replicate 64 1))],
        .eval [0xf1], .eval [0xf2]])
    else none
  anonPublicKey _ := []
  anonHasCode _ _ := false
  solver _ := none
  hash160 _ := []
  getscriptaddress s :=
    if s = lockScript then some "RSDw91hbCKkkNct6XtPRbq389eu2xKgHUC" else none
  txNotarizedConfirmed _ := true
  lookup id := if id = 1 then some locked else none

/-- The input that spends the locked tokens with the public key of the contract. -/
def lockInput : CTxIn := ⟨⟨1, 0⟩, pushData (fulfillment ++ [1]), 0⟩

/-- Pays anybody, without an opreturn. -/
def payment : CTransaction where
  hash := 2
  vin := [⟨⟨7, 0⟩, pushData [1], 0⟩]
  vout := [⟨500, [0x51]⟩]

/-- The same payment with the locked tokens as a further input. -/
def drain : CTransaction where
  hash := 3
  vin := [lockInput, ⟨⟨7, 0⟩, pushData [1], 0⟩]
  vout := [⟨500, [0x51]⟩]

end GatewaysSample

/-- The hypotheses of `custody_kept_iff` are satisfiable: a payment without an
opreturn passes, so that custody is not kept of it and of the drain. -/
theorem custody_not_kept_payment :
    ¬ (((gatewaysValidate GatewaysSample.env GatewaysSample.payment).val = true →
        CustodyKept GatewaysSample.env GatewaysSample.payment) ∧
      ((gatewaysValidate GatewaysSample.env GatewaysSample.drain).val = true →
        CustodyKept GatewaysSample.env GatewaysSample.drain)) := by
  have h : WithInput GatewaysSample.payment GatewaysSample.drain GatewaysSample.lockInput :=
    ⟨rfl, rfl⟩
  rw [custody_kept_iff h (by decide) (by decide) (by decide +kernel) (Or.inl (by decide +kernel))]
  exact not_not.2 trivial

/-- A transaction without a gateways opreturn is accepted and moves 500 tokens
out of the gateway's tokens address. -/
theorem drain_accepted :
    (gatewaysValidate GatewaysSample.env GatewaysSample.drain).val = true ∧
      claimOf GatewaysSample.drain = none ∧
      movedOut GatewaysSample.env GatewaysSample.drain = 500 ∧
      ¬ CustodyKept GatewaysSample.env GatewaysSample.drain := by
  have hmoved : movedOut GatewaysSample.env GatewaysSample.drain = 500 := by decide
  have hclaim : claimOf GatewaysSample.drain = none := by decide
  refine ⟨by decide, hclaim, hmoved, fun h => ?_⟩
  have := h.moved
  rw [hmoved, hclaim] at this
  cases this

end Komodo
