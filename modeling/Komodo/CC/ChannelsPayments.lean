/-
# What a channel pays

`case 'P'` of `ChannelsValidate` (`src/src/cc/channels.cpp`). The channel commits to
the end of a hash chain; a payment with `param1` payments left has to reveal a secret
that is `numpayments - param1` hashes away from it. In a chain of payments that hand
on the funds through `vin.1`, and that all name this channel, the receiver has been
paid no more than one payment for each hash of the deepest secret revealed
(`payments_paid_le`).

Which channel a payment names is up to its spender: the code reads the `opentxid` of
the previous transaction and does not compare it. Two channels of the same two parties
share their address, so that a secret of one can move the funds of the other
(`channel_formula_fails`, with an honest payment as well).
-/

import Komodo.CC.Channels
import Komodo.Script.Serialize

namespace Komodo

open Streams

/-! ### Ranges of the parameters -/

theorem decodeChannelsOpRet_range {s : CScript} {r : ChannelsOpRet}
    (h : decodeChannelsOpRet s = some r) :
    (-2 ^ 31 ≤ r.param1 ∧ r.param1 < 2 ^ 31) ∧ (-2 ^ 63 ≤ r.param2 ∧ r.param2 < 2 ^ 63) := by
  simp only [decodeChannelsOpRet] at h
  split_ifs at h
  obtain ⟨hread, -⟩ := Option.filter_eq_some_iff.1 h
  simp only [Unserialize.unmarshal_eq_some, readChannels, bind_apply,
    Option.bind_eq_some_iff] at hread
  obtain ⟨_, -, _, -, _, -, _, -, _, -, ⟨p1, _⟩, h1, ⟨p2, _⟩, h2, _, -, hread⟩ := hread
  simp only [pure_apply, Option.some.injEq, Prod.mk.injEq] at hread
  obtain ⟨rfl, -⟩ := hread
  exact ⟨Unserialize.int_range (by decide) h1, Unserialize.int_range (by decide) h2⟩

theorem eq_of_toInt64_eq {n m : ℤ} (h : toInt64 n = m) (hn : -2 ^ 64 + 2 ^ 31 < n)
    (hn' : n < 2 ^ 64 - 2 ^ 31) (hm : -2 ^ 31 ≤ m) (hm' : m ≤ 2 ^ 31) : n = m := by
  obtain ⟨j, hj⟩ : ((2 ^ 64 : ℕ) : ℤ) ∣ n - toInt64 n := Int.dvd_self_sub_bmod
  rw [h] at hj
  push_cast at hj
  omega

namespace ContractEnv

variable {env : ContractEnv} {tx : CTransaction} {o r : ChannelsOpRet}

/-- What a payment checks of its own amounts and of its secret. -/
theorem channelPayment_eq_ok {openTx : CTransaction} {vin1 : CTxIn} {prevTx : CTransaction}
    {out3 : CTxOut} (h : env.channelPayment tx openTx o r = .ok ())
    (h1 : tx.vin[1]? = some vin1) (hprev : env.lookup vin1.prevout.hash = some prevTx)
    (h3 : tx.vout[3]? = some out3) :
    out3.nValue = toInt64 (r.param2 * o.param2) ∧ r.param1 ≤ CHANNELS_MAXPAYMENTS
      ∧ env.hashchainOf o r = some (uint256Bytes o.param3)
      ∧ ∃ p, decodeChannelsOpRet (opretOf prevTx) = some p
        ∧ toInt64 (r.param1 + r.param2) = p.param1 := by
  simp only [channelPayment, Checked.bind_eq_ok, withPrevious, defined_eq_ok, h1,
    Option.some.injEq, exists_eq_left', hprev] at h
  obtain ⟨⟨⟩, -, ⟨⟩, -, out3', hchecks, hprevious⟩ := h
  simp only [paymentChecks, Checked.bind_eq_ok, defined_eq_ok, require_eq_ok, exists_const,
    Checked.pure_eq_ok, h3, Option.some.injEq, exists_eq_left', decide_eq_true_eq] at hchecks
  obtain ⟨_, -, -, _, -, -, ⟨⟩, -, hmax, gen, hgen, hchain, hpaid, rfl⟩ := hchecks
  simp only [paymentPrevious, previousOpRet, Checked.bind_eq_ok, defined_eq_ok, expect_eq_ok,
    require_eq_ok, exists_const, decide_eq_true_eq] at hprevious
  obtain ⟨p, ⟨opret, hopret, hp⟩, _, -, -, ⟨⟩, -, hdepth, -⟩ := hprevious
  refine ⟨hpaid, hmax, hchain ▸ hgen, p, ?_, hdepth⟩
  simp only [opretOf, hopret, Option.elim_some]
  exact hp

/-- The loop over the hash chain runs once for each payment made so far. -/
theorem hashchainOf_eq_some {h : Bytes} (hsome : env.hashchainOf o r = some h)
    (ho : 0 < o.param1) (ho' : o.param1 < 2 ^ 31) (hr : -2 ^ 31 ≤ r.param1)
    (hr' : r.param1 ≤ CHANNELS_MAXPAYMENTS) :
    r.param1 < o.param1 ∧ env.sha256^[(o.param1 - r.param1).toNat] (uint256Bytes r.param3) = h := by
  simp only [hashchainOf] at hsome
  split_ifs at hsome with hpos
  have hmax : r.param1 ≤ 1000 := hr'
  -- a difference that does not fit wraps to a negative number, and the loop does not run
  have hsteps : (o.param1 - r.param1).bmod (2 ^ 32) = o.param1 - r.param1 := by
    obtain ⟨j, hj⟩ : ((2 ^ 32 : ℕ) : ℤ) ∣ (o.param1 - r.param1)
      - (o.param1 - r.param1).bmod (2 ^ 32) := Int.dvd_self_sub_bmod
    have hlow := Int.le_bmod (x := o.param1 - r.param1) (m := 2 ^ 32) (by decide)
    have hhigh := Int.bmod_lt (x := o.param1 - r.param1) (m := 2 ^ 32) (by decide)
    generalize (o.param1 - r.param1).bmod (2 ^ 32) = steps at hj hlow hhigh hpos ⊢
    push_cast at hj
    omega
  rw [hsteps] at hpos hsome
  exact ⟨by omega, Option.some.inj hsome⟩

end ContractEnv

/-! ### Chains of payments -/

/-- An open transaction as `ChannelOpen` makes it: output 0 holds all the payments. -/
structure ValidOpen (openTx : CTransaction) (o : ChannelsOpRet) : Prop where
  opret : decodeChannelsOpRet (opretOf openTx) = some o
  kind : o.funcid = fid 'O'
  numpayments : 0 < o.param1
  payment : 0 < o.param2
  funds : ∃ out, openTx.vout[0]? = some out ∧ out.nValue = o.param1 * o.param2
    ∧ out.nValue < 2 ^ 63

/-- The transaction that holds the funds after some payments, the newest first. -/
def holder (openTx : CTransaction) : List (CTransaction × ChannelsOpRet) → CTransaction
  | [] => openTx
  | p :: _ => p.1

/-- A chain of accepted payments of a channel, each with its opreturn: it names the
channel, and its `vin.1` spends output 0 of the previous one. Each may be validated at a
moment of its own. That no output is negative was checked before, by
`CheckTransaction`. -/
inductive Payments (sha256 : Bytes → Bytes) (openTx : CTransaction) :
    List (CTransaction × ChannelsOpRet) → Prop
  | nil : Payments sha256 openTx []
  | cons {ps : List (CTransaction × ChannelsOpRet)} {env : ContractEnv} {tx : CTransaction}
      {r : ChannelsOpRet} (earlier : Payments sha256 openTx ps)
      (hash : env.sha256 = sha256)
      (accepted : env.channelsValidate tx = .ok ())
      (opret : decodeChannelsOpRet (opretOf tx) = some r) (kind : r.funcid = fid 'P')
      (names : r.opentxid = openTx.hash) (found : env.lookup openTx.hash = some openTx)
      (spends : tx.vin[1]?.map CTxIn.prevout = some ⟨(holder openTx ps).hash, 0⟩)
      (previous : env.lookup (holder openTx ps).hash = some (holder openTx ps))
      (amounts : ∀ out ∈ tx.vout, 0 ≤ out.nValue ∧ out.nValue < 2 ^ 63) :
      Payments sha256 openTx ((tx, r) :: ps)

/-- What a payment pays the receiver. -/
def paidBy (tx : CTransaction) : ℤ := tx.vout[3]?.elim 0 CTxOut.nValue

/-- What the receiver has been paid. -/
def paid (ps : List (CTransaction × ChannelsOpRet)) : ℤ := (ps.map fun p => paidBy p.1).sum

/-- The numbers of hashes that lead from a revealed secret to the end of the chain; zero
as long as nothing is revealed. -/
def revealedSteps (sha256 : Bytes → Bytes) (o : ChannelsOpRet)
    (ps : List (CTransaction × ChannelsOpRet)) : Set ℕ :=
  {k | k = 0 ∨ ∃ p ∈ ps, sha256^[k] (uint256Bytes p.2.param3) = uint256Bytes o.param3}

/-- What holds after some payments. The funds and what has been paid add up to the whole;
and either a secret is out that pays for everything, or the payments left, as the last
opreturn counts them, are what has not been paid. -/
structure PaymentsInv (sha256 : Bytes → Bytes) (openTx : CTransaction) (o : ChannelsOpRet)
    (ps : List (CTransaction × ChannelsOpRet)) : Prop where
  funds : ∃ out, (holder openTx ps).vout[0]? = some out ∧ 0 ≤ out.nValue
    ∧ out.nValue + paid ps = o.param1 * o.param2
  depth : ∃ p, decodeChannelsOpRet (opretOf (holder openTx ps)) = some p ∧
    ((∃ k ∈ revealedSteps sha256 o ps, o.param1 ≤ k)
      ∨ 0 < p.param1 ∧ p.param1 ≤ o.param1 ∧ paid ps = (o.param1 - p.param1) * o.param2
        ∧ (o.param1 - p.param1).toNat ∈ revealedSteps sha256 o ps)

theorem revealedSteps_cons {sha256 : Bytes → Bytes} {o : ChannelsOpRet}
    {ps : List (CTransaction × ChannelsOpRet)} {k : ℕ} (h : k ∈ revealedSteps sha256 o ps)
    (p : CTransaction × ChannelsOpRet) : k ∈ revealedSteps sha256 o (p :: ps) := by
  rcases h with h0 | ⟨q, hq, hk⟩
  · exact .inl h0
  · exact .inr ⟨q, List.mem_cons_of_mem _ hq, hk⟩

theorem toInt64_payments {n payment count : ℤ} (hpay : 0 < payment) (htotal : n * payment < 2 ^ 63)
    (hlow : -n < count) (hhigh : count < n) : toInt64 (count * payment) = count * payment := by
  refine toInt64_of_range ?_ ?_
  · have : -(n * payment) ≤ count * payment := by nlinarith
    omega
  · have : count * payment ≤ n * payment := by nlinarith
    omega

section payments
variable {sha256 : Bytes → Bytes} {openTx : CTransaction} {o : ChannelsOpRet}
  {ps : List (CTransaction × ChannelsOpRet)}

theorem ValidOpen.inv (h : ValidOpen openTx o) : PaymentsInv sha256 openTx o [] where
  funds := by
    obtain ⟨out, hout, hvalue, -⟩ := h.funds
    have hpos : 0 < o.param1 * o.param2 := mul_pos h.numpayments h.payment
    exact ⟨out, hout, by omega, by rw [hvalue]; exact add_zero _⟩
  depth := ⟨o, h.opret, .inr ⟨h.numpayments, le_rfl, by simp [paid], .inl (by simp)⟩⟩

/-- One accepted payment keeps the invariant. -/
theorem PaymentsInv.cons {env : ContractEnv} {tx : CTransaction} {r : ChannelsOpRet}
    (hopen : ValidOpen openTx o) (hinv : PaymentsInv sha256 openTx o ps)
    (hash : env.sha256 = sha256) (accepted : env.channelsValidate tx = .ok ())
    (opret : decodeChannelsOpRet (opretOf tx) = some r) (kind : r.funcid = fid 'P')
    (names : r.opentxid = openTx.hash) (found : env.lookup openTx.hash = some openTx)
    (spends : tx.vin[1]?.map CTxIn.prevout = some ⟨(holder openTx ps).hash, 0⟩)
    (previous : env.lookup (holder openTx ps).hash = some (holder openTx ps))
    (amounts : ∀ out ∈ tx.vout, 0 ≤ out.nValue ∧ out.nValue < 2 ^ 63) :
    PaymentsInv sha256 openTx o ((tx, r) :: ps) := by
  obtain ⟨r', openTx', o', hr', hexact, hopened, hbranch⟩ :=
    ContractEnv.channelsValidate_eq_ok accepted
  obtain rfl := Option.some.inj (opret.symm.trans hr')
  -- the channel is the one named
  obtain ⟨hlookup, ho', -⟩ := ContractEnv.channelOpen_eq_ok hopened
  rw [names, found] at hlookup
  cases hlookup
  obtain rfl := Option.some.inj (hopen.opret.symm.trans ho')
  have hpayment : env.channelPayment tx openTx o r = .ok () := by
    rcases hbranch with ⟨-, hp⟩ | ⟨hC, -⟩ | ⟨hR, -⟩
    · exact hp
    · exact absurd (kind.symm.trans hC) (by decide)
    · exact absurd (kind.symm.trans hR) (by decide)
  -- the amounts
  obtain ⟨vin1, vinTx, spent, out0, out3, h1, hvin, hspent, h0, h3, hsum⟩ :=
    ContractEnv.exactAmounts_payment hexact opret kind
  have hprevout : vin1.prevout = ⟨(holder openTx ps).hash, 0⟩ := by
    simpa only [h1, Option.map_some, Option.some.injEq] using spends
  rw [hprevout] at hvin hspent
  obtain rfl := Option.some.inj (previous.symm.trans hvin)
  obtain ⟨hpaid, hmax, hchain, p, hp, hdepth⟩ :=
    ContractEnv.channelPayment_eq_ok hpayment h1 (by rw [hprevout]; exact previous) h3
  obtain ⟨funds, hfunds, hfundsPos, htotal⟩ := hinv.funds
  obtain rfl := Option.some.inj (hfunds.symm.trans hspent)
  have hout0 := amounts out0 (List.mem_of_getElem? h0)
  have hout3 := amounts out3 (List.mem_of_getElem? h3)
  have hpaidBy : paidBy tx = out3.nValue := by simp only [paidBy, h3, Option.elim_some]
  have hpaidCons : paid ((tx, r) :: ps) = paidBy tx + paid ps := by
    simp only [paid, List.map_cons, List.sum_cons]
  have hnext : funds.nValue = out0.nValue + out3.nValue := by
    obtain ⟨j, hj⟩ : ((2 ^ 64 : ℕ) : ℤ) ∣ (out0.nValue + out3.nValue)
      - toInt64 (out0.nValue + out3.nValue) := Int.dvd_self_sub_bmod
    have hbounds := toInt64_bounds (out0.nValue + out3.nValue)
    rw [← hsum] at hj hbounds
    push_cast at hj
    omega
  -- the secret
  obtain ⟨hrange1, hrange2⟩ := decodeChannelsOpRet_range opret
  obtain ⟨horange, -⟩ := decodeChannelsOpRet_range hopen.opret
  obtain ⟨hless, hsecret⟩ :=
    ContractEnv.hashchainOf_eq_some hchain hopen.numpayments horange.2 hrange1.1 hmax
  rw [hash] at hsecret
  have hrevealed : (o.param1 - r.param1).toNat ∈ revealedSteps sha256 o ((tx, r) :: ps) :=
    .inr ⟨(tx, r), List.mem_cons_self, hsecret⟩
  refine ⟨⟨out0, h0, hout0.1, by rw [hpaidCons, hpaidBy]; omega⟩, r, opret, ?_⟩
  by_cases hr0 : r.param1 ≤ 0
  · exact .inl ⟨_, hrevealed, by omega⟩
  · obtain ⟨p', hp', hcase⟩ := hinv.depth
    obtain rfl := Option.some.inj (hp.symm.trans hp')
    rcases hcase with ⟨k, hk, hall⟩ | ⟨hp0, hple, hpaidSo, -⟩
    · exact .inl ⟨k, revealedSteps_cons hk _, hall⟩
    · have hcount : r.param1 + r.param2 = p.param1 :=
        eq_of_toInt64_eq hdepth (by omega) (by omega) (by omega) (by omega)
      obtain ⟨out, -, hvalue, hlt⟩ := hopen.funds
      have hexactPay : out3.nValue = r.param2 * o.param2 := by
        rw [hpaid]
        exact toInt64_payments hopen.payment (hvalue ▸ hlt) (by omega) (by omega)
      refine .inr ⟨by omega, hless.le, ?_, hrevealed⟩
      rw [hpaidCons, hpaidBy, hexactPay, hpaidSo, ← hcount]
      ring

theorem Payments.inv (hopen : ValidOpen openTx o) (h : Payments sha256 openTx ps) :
    PaymentsInv sha256 openTx o ps := by
  induction h with
  | nil => exact hopen.inv
  | cons earlier hash accepted opret kind names found spends previous amounts ih =>
    exact ih.cons hopen hash accepted opret kind names found spends previous amounts

/-- **A channel pays one payment for each hash revealed.** In every chain of payments of a
channel, the receiver has been paid at most `payment` for each of the hashes that lead
from the deepest secret revealed to the committed end of the hash chain. -/
theorem payments_paid_le (hopen : ValidOpen openTx o) (h : Payments sha256 openTx ps) :
    (∃ k ∈ revealedSteps sha256 o ps, paid ps ≤ o.param2 * k) ∧
      ∀ k, IsGreatest (revealedSteps sha256 o ps) k → paid ps ≤ o.param2 * k := by
  have hpay := hopen.payment
  have hsome : ∃ k ∈ revealedSteps sha256 o ps, paid ps ≤ o.param2 * k := by
    have hinv := h.inv hopen
    obtain ⟨out, -, hout, htotal⟩ := hinv.funds
    obtain ⟨p, -, ⟨k, hk, hall⟩ | ⟨-, hple, hpaid, hk⟩⟩ := hinv.depth
    · refine ⟨k, hk, ?_⟩
      calc paid ps ≤ o.param1 * o.param2 := by omega
        _ = o.param2 * o.param1 := mul_comm _ _
        _ ≤ o.param2 * k := mul_le_mul_of_nonneg_left hall hpay.le
    · refine ⟨_, hk, ?_⟩
      rw [hpaid, Int.toNat_of_nonneg (by omega), mul_comm]
  refine ⟨hsome, fun k hk => ?_⟩
  obtain ⟨j, hj, hle⟩ := hsome
  have hjk : (j : ℤ) ≤ k := by exact_mod_cast hk.2 hj
  exact hle.trans (mul_le_mul_of_nonneg_left hjk hpay.le)

end payments

/-! ### Two channels of the same parties -/

namespace ChannelsSample

/-- The keys of the sender and of the receiver. -/
def src : CPubKey := 0x02 :: List.replicate 32 0x11
@[inherit_doc src] def dest : CPubKey := 0x02 :: List.replicate 32 0x22

/-- `cc_conditionBinary(MakeCCcond1of2(EVAL_CHANNELS, src, dest))`. -/
def channelCondition : Bytes :=
  [0xa2, 0x2c, 0x80, 0x20, 0xab, 0xa2, 0x1e, 0x7a, 0xf3, 0x4c, 0x53, 0x1a, 0xce, 0xb2, 0x69,
   0x90, 0x9d, 0xf8, 0x4c, 0x25, 0x8e, 0x68, 0x6f, 0x46, 0xc6, 0xbd, 0xf9, 0x93, 0x0b, 0xa3,
   0x34, 0xcc, 0xb6, 0xd2, 0xe8, 0x4a, 0x81, 0x03, 0x12, 0x10, 0x00, 0x82, 0x03, 0x00, 0x04,
   0x01]

/-- `cc_conditionBinary(MakeCCcond1(EVAL_CHANNELS, src))`. -/
def srcCondition : Bytes :=
  [0xa2, 0x2c, 0x80, 0x20, 0x23, 0xbc, 0x4a, 0xbb, 0x0f, 0xba, 0x06, 0x8a, 0xaf, 0x64, 0x60,
   0xdd, 0x1b, 0xc2, 0x17, 0x8b, 0x01, 0x2f, 0x8f, 0x82, 0x2f, 0xf5, 0xdc, 0x2b, 0x7d, 0xe0,
   0xc9, 0x2d, 0xf1, 0x15, 0x52, 0x82, 0x81, 0x03, 0x12, 0x0c, 0x00, 0x82, 0x03, 0x00, 0x04,
   0x01]

/-- `cc_conditionBinary(MakeCCcond1(EVAL_CHANNELS, dest))`. -/
def destCondition : Bytes :=
  [0xa2, 0x2c, 0x80, 0x20, 0x8e, 0x6c, 0x97, 0x74, 0xb7, 0x3a, 0xa9, 0xc6, 0x49, 0x79, 0xab,
   0x9b, 0x3d, 0x29, 0xfe, 0xe8, 0x88, 0xff, 0x7c, 0xa0, 0xb4, 0x9a, 0x54, 0x1d, 0xcf, 0xc5,
   0x35, 0xe2, 0x0a, 0xd0, 0x3e, 0xc6, 0x81, 0x03, 0x12, 0x0c, 0x00, 0x82, 0x03, 0x00, 0x04,
   0x01]

/-- The script of a condition. -/
def scriptOf (condition : Bytes) : CScript := pushData condition ++ [OP_CHECKCRYPTOCONDITION]

/-- The fingerprints of the two keys, as conditions of their own. -/
def srcFingerprint : Bytes :=
  [0x97, 0x78, 0x32, 0x5f, 0x67, 0x1b, 0x5d, 0xa2, 0xdc, 0x60, 0x70, 0xdc, 0x98, 0xde, 0x28,
   0xd1, 0x0d, 0x35, 0xfc, 0x32, 0xee, 0x2b, 0x0a, 0x2b, 0xa3, 0x50, 0x98, 0x6d, 0xd7, 0x45,
   0xd1, 0x65]
@[inherit_doc srcFingerprint] def destFingerprint : Bytes :=
  [0x51, 0xbf, 0x2a, 0xb9, 0xe3, 0xc4, 0xd2, 0x4d, 0x44, 0xed, 0x66, 0x8c, 0x1e, 0x81, 0xe0,
   0x4c, 0x96, 0x8c, 0x4a, 0xd4, 0x1c, 0x46, 0xb9, 0xf6, 0x39, 0x1d, 0xae, 0x23, 0x31, 0xfd,
   0x3b, 0x4f]

/-- A fulfillment of the 1of2 condition by one party, the signature left as a placeholder
and the other party as a fingerprint. -/
def channelFulfillment (signer : CPubKey) (other : Bytes) : Bytes :=
  [0xa2, 0x81, 0xa1, 0xa0, 0x81, 0x9c, 0xa2, 0x81, 0x94, 0xa0, 0x67, 0xa5, 0x65, 0x80, 0x21]
    ++ signer ++ [0x81, 0x40] ++ List.replicate 64 1
    ++ [0xa1, 0x29, 0xa5, 0x27, 0x80, 0x20] ++ other
    ++ [0x81, 0x03, 0x02, 0x00, 0x00, 0xaf, 0x03, 0x80, 0x01, 0xeb, 0xa1, 0x00]

/-- The condition fulfilled by it. -/
def channelSigned (signer : CPubKey) (other : Bytes) : CC :=
  .threshold 2 2 [.threshold 1 2 [.secp256k1 signer (some (List.replicate 64 1)),
    .anon .secp256k1 other 0 131072], .eval [EVAL_CHANNELS]]

/-- SHA-256 of the numbers 5 and 6. -/
def hash5 : Uint256 :=
  107288054369359433548348319711978517182117456108953056443378130072397076883370
@[inherit_doc hash5] def hash6 : Uint256 :=
  7300215445567548136411883691093515822872548648751398235557229381530420545683

/-- SHA-256 on the two secrets of the sample. -/
def sha256 (b : Bytes) : Bytes :=
  Equiv.swap (uint256Bytes 5) (uint256Bytes hash5)
    (Equiv.swap (uint256Bytes 6) (uint256Bytes hash6) b)

/-- A channels opreturn. -/
def opret (f : Char) (opentxid : Uint256) (param1 param2 : ℕ) (param3 : Uint256) : CScript :=
  opReturnScript ([EVAL_CHANNELS, fid f] ++ uint256Bytes opentxid ++ 33 :: src ++ 33 :: dest
    ++ leBytes 4 param1 ++ leBytes 8 param2 ++ uint256Bytes param3)

/-- A channel for one payment of one coin. -/
def openTx (hash hashchain : Uint256) : CTransaction where
  hash := hash
  vin := [⟨⟨90, 0⟩, [], 0⟩]
  vout := [⟨100000000, scriptOf channelCondition⟩, ⟨10000, scriptOf srcCondition⟩,
    ⟨10000, scriptOf destCondition⟩, ⟨0, opret 'O' 0 1 100000000 hashchain⟩]

/-- A payment of the coin of channel 1 that names a channel and reveals a secret. -/
def payment (opentxid secret : Uint256) : CTransaction where
  hash := 3
  vin := [⟨⟨91, 0⟩, [], 0⟩, ⟨⟨1, 0⟩, pushData (channelFulfillment dest srcFingerprint ++ [1]), 0⟩,
    ⟨⟨1, 2⟩, scriptSig1 EVAL_CHANNELS dest, 0⟩]
  vout := [⟨0, scriptOf channelCondition⟩, ⟨10000, scriptOf srcCondition⟩,
    ⟨10000, scriptOf destCondition⟩, ⟨100000000, payToPubkey dest⟩,
    ⟨0, opret 'P' opentxid 0 1 secret⟩]

/-- A node that has seen two channels of the same parties, both notarised. -/
def env : ContractEnv where
  conditionBinary
    | .threshold 2 2 [.eval [0xeb], .threshold 1 2 [.secp256k1 _ _, .secp256k1 _ _]] =>
      channelCondition
    | .threshold 2 2 [.eval [0xeb], .threshold 1 1 [.secp256k1 pk _]] =>
      if pk = src then srcCondition else destCondition
    | _ => []
  readFulfillmentBinary b :=
    if b = channelFulfillment dest srcFingerprint then some (channelSigned dest srcFingerprint)
    else if b = channelFulfillment src destFingerprint then some (channelSigned src destFingerprint)
    else if b = fulfillment1 EVAL_CHANNELS dest then some (signedCond1 EVAL_CHANNELS dest)
    else if b = fulfillment1 EVAL_CHANNELS src then some (signedCond1 EVAL_CHANNELS src)
    else none
  anonPublicKey _ := []
  anonHasCode _ _ := false
  solver _ := none
  hash160 _ := []
  getscriptaddress s :=
    if s = scriptOf channelCondition then some "RTRjN5wySnBm1cfZDFYZHbGpfi62xrYo5N"
    else if s = scriptOf srcCondition then some "RRZ3RXtjjupPaghVe8ajwKUwPNm6HUdyro"
    else if s = scriptOf destCondition then some "RX7bKarYNeSk5Y2X5mfZxQekjqHUbNHBe8"
    else if s = payToPubkey src then some "RR99wCxGetvnJdzExfRDJbVeDFLjg8W7xU"
    else if s = payToPubkey dest then some "RFRvgbjgZYnHtwP7gdQQ1TJNC5AbQs78Nt"
    else none
  getTransaction := findTx [openTx 1 hash5, openTx 2 hash6] 100
  blockIndex h := if h = 100 then some ⟨10, 1600000000⟩ else none
  tip := ⟨1000, 1631536000⟩
  lastNotarizedHeight := 500
  sha256 := sha256

/-- The opreturn of channel 1. -/
def opened : ChannelsOpRet := ⟨fid 'O', 0, 0, src, dest, 1, 100000000, hash5⟩

/-- The opreturn of a payment of the coin. -/
def paying (opentxid secret : Uint256) : ChannelsOpRet :=
  ⟨fid 'P', 0, opentxid, src, dest, 0, 1, secret⟩

theorem validOpen : ValidOpen (openTx 1 hash5) opened :=
  ⟨by decide +kernel, rfl, by decide, by decide, _, rfl, by decide, by decide⟩

theorem honest : Payments sha256 (openTx 1 hash5) [(payment 1 5, paying 1 5)] := by
  have haccepted : env.channelsValidate (payment 1 5) = .ok () := by decide +kernel
  exact .cons .nil rfl haccepted (by decide +kernel) rfl rfl (by decide +kernel) rfl
    (by decide +kernel) (by decide)

end ChannelsSample

open ChannelsSample in
/-- The hypotheses of `payments_paid_le` are satisfiable: the one payment of a channel. -/
theorem payments_paid_le_honest :
    ∃ k ∈ revealedSteps sha256 opened [(payment 1 5, paying 1 5)],
      paid [(payment 1 5, paying 1 5)] ≤ opened.param2 * k :=
  (payments_paid_le validOpen honest).1

open ChannelsSample in
/-- Counting the hashes from the other end of the chain fails on an honest payment: the
last secret is `numpayments` hashes away from the end, and pays for everything. And a
payment that names another channel of the two parties takes the coin of this one with
a secret of that one. -/
theorem channel_formula_fails :
    (ValidOpen (openTx 1 hash5) opened
      ∧ Payments sha256 (openTx 1 hash5) [(payment 1 5, paying 1 5)]
      ∧ IsGreatest {k : ℕ | k ≤ 1 ∧ ∃ p ∈ [(payment 1 5, paying 1 5)],
          sha256^[1 - k] (uint256Bytes p.2.param3) = uint256Bytes opened.param3} 0
      ∧ ¬ paid [(payment 1 5, paying 1 5)] ≤ opened.param2 * 0)
    ∧ env.channelsValidate (payment 2 6) = .ok ()
      ∧ (payment 2 6).vin[1]?.map CTxIn.prevout = some ⟨1, 0⟩
      ∧ decodeChannelsOpRet (opretOf (payment 2 6)) = some (paying 2 6)
      ∧ (∀ k ≤ 1, sha256^[k] (uint256Bytes 6) ≠ uint256Bytes opened.param3)
      ∧ paidBy (payment 2 6) = 100000000 := by
  refine ⟨⟨validOpen, honest, ⟨⟨by decide, _, List.mem_singleton.2 rfl, by decide⟩, ?_⟩,
    by decide⟩, by decide +kernel, rfl, by decide +kernel, by decide +kernel, rfl⟩
  rintro k ⟨hk, p, hp, hsecret⟩
  obtain rfl := List.mem_singleton.1 hp
  rcases Nat.le_one_iff_eq_zero_or_eq_one.1 hk with rfl | rfl
  · exact le_rfl
  · revert hsecret
    decide

end Komodo
