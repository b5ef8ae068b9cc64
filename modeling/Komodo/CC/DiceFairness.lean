/-
# One outcome for a bet

The house commits to its secret before the bet is made, so that a settlement has
nothing left to choose. `DiceValidate` (`src/src/cc/dice.cpp`) hashes the proof of a
settlement, and never compares the result with the commitment in the entropy
transaction behind the bet.

`settles_funcid` is what the code does keep: settlements with one proof have one
outcome. `settlements_agree_iff` says when two accepted settlements of a bet agree:
exactly when both proofs hash to the commitment. `chosen_proof` is a bet that can be
settled as won and as lost.
-/

import Komodo.CC.Dice

namespace Komodo

open Streams

namespace ContractEnv

/-- The hash to which the house is committed in the transaction behind `vin.0` of a bet. -/
def commitment (env : ContractEnv) (bet : CTransaction) : Option Uint256 := do
  let vin0 ← bet.vin[0]?
  let entropyTx ← env.lookup vin0.prevout.hash
  let r ← decodeDiceOpRet entropyTx.hash (opretOf entropyTx)
  pure r.hash

/-- The proof of a settlement is the secret behind the commitment. -/
def Reveals (env : ContractEnv) (bet : CTransaction) (r : DiceOpRet) : Prop :=
  ∃ hentropy, env.commitment bet = some hentropy
    ∧ env.sha256 (uint256Bytes r.proof) = uint256Bytes hentropy

/-- An accepted `'W'` or `'L'` of a bet, with the opreturn it carries. That no output is
negative was checked before, by `CheckTransaction`. -/
structure Settles (env : ContractEnv) (bet s : CTransaction) (r : DiceOpRet) : Prop where
  accepted : env.diceValidate s = .ok ()
  opret : decodeDiceOpRet s.hash (opretOf s) = some r
  kind : r.funcid = fid 'W' ∨ r.funcid = fid 'L'
  spends : s.vin[1]?.map (·.prevout.hash) = some bet.hash
  found : env.lookup bet.hash = some bet
  amounts : ∀ out ∈ s.vout, 0 ≤ out.nValue

/-- Two settlements that agree: they reveal the secret of the house, and come to the
same outcome. -/
def Agree (env : ContractEnv) (bet : CTransaction) (r r' : DiceOpRet) : Prop :=
  r.proof = r'.proof ∧ env.Reveals bet r ∧ r.funcid = r'.funcid

variable {env env' : ContractEnv} {bet s s' : CTransaction} {r r' : DiceOpRet}

/-- A proof is a number of 32 bytes. -/
theorem proof_lt {txid : Uint256} {script : CScript} (h : decodeDiceOpRet txid script = some r) :
    r.proof < 256 ^ 32 := by
  unfold decodeDiceOpRet at h
  split at h
  case h_1 =>
    split_ifs at h
    · obtain ⟨_, -, rfl⟩ := Option.map_eq_some_iff.1 h
      exact Nat.two_pow_pos 256
    · dsimp only at h
      split at h
      case h_1 hread =>
        split_ifs at h
        cases h
        simp only [Unserialize.unmarshal_eq_some, readDice, bind_apply,
          Option.bind_eq_some_iff] at hread
        obtain ⟨_, -, _, -, _, -, _, -, _, -, ⟨proof, _⟩, hproof, hread⟩ := hread
        simp only [pure_apply, Option.some.injEq, Prod.mk.injEq] at hread
        rw [← hread.1.2]
        exact (Unserialize.uint_exact hproof).2
      case h_2 => cases h
  case h_2 => cases h

theorem uint256Bytes_inj {a b : Uint256} (ha : a < 256 ^ 32) (hb : b < 256 ^ 32)
    (h : uint256Bytes a = uint256Bytes b) : a = b := by
  have hvalue : fromLE (leBytes 32 a) = fromLE (leBytes 32 b) := congrArg fromLE h
  rwa [fromLE_leBytes, fromLE_leBytes, Nat.mod_eq_of_lt ha, Nat.mod_eq_of_lt hb] at hvalue

/-- What a won bet is paid equals what `DiceCalc` gives it, so an output that is not
negative rules out that the winnings wrapped around. -/
theorem winnings_pos {betTx tx : CTransaction} {plan : DicePlan} {inputs outputs winnings : ℤ}
    {fundingPubKey : CScript} {proof : Uint256}
    (houtputs : env.winOutputs tx betTx inputs outputs fundingPubKey = .ok ())
    (hwinnings : env.winningsOf betTx plan proof = .ok winnings)
    (hamounts : ∀ out ∈ tx.vout, 0 ≤ out.nValue) (hne : winnings ≠ 0) : 0 < winnings := by
  simp only [winOutputs, Checked.bind_eq_ok, defined_eq_ok, require_eq_ok, exists_const,
    decide_eq_true_eq] at houtputs
  obtain ⟨bet1, h1, bet2, h2, out0, -, -, out2, hout2, -, hpaid, -⟩ := houtputs
  simp only [winningsOf, Checked.bind_eq_ok, defined_eq_ok, h1, h2, Option.some.injEq,
    exists_eq_left', Checked.pure_eq_ok] at hwinnings
  have hout := hamounts out2 (List.mem_of_getElem? hout2)
  have hcalc : winnings = 0 ∨ winnings = out2.nValue := by
    rw [← hwinnings, hpaid, ← toInt64_mul_succ, ← toInt64_toUint64 (_ * _)]
    simp only [diceCalc, diceTxfee]
    split_ifs <;> first | exact .inl rfl | exact .inr rfl
  omega

/-- The outcome of a settlement is that of `DiceCalc` for its proof and the terms of the
plan its bet names. -/
theorem Settles.winnings (h : env.Settles bet s r) :
    ∃ b fundingTx plan winnings, decodeDiceOpRet bet.hash (opretOf bet) = some b
      ∧ env.lookup b.fundingtxid = some fundingTx
      ∧ decodeDiceFundingOpRet (opretOf fundingTx) = some plan
      ∧ env.winningsOf bet plan r.proof = .ok winnings
      ∧ (r.funcid = fid 'W' ↔ 0 < winnings) := by
  obtain ⟨r₁, plan, fundingPubKey, hplan, hbranch⟩ := diceValidate_eq_ok h.accepted
  obtain ⟨hr, fundingTx, hfunding, hterms⟩ := dicePlanOf_eq_ok hplan
  obtain rfl := Option.some.inj (h.opret.symm.trans hr)
  have hsettle : env.diceSettle s r plan fundingPubKey = .ok () := by
    rcases hbranch with ⟨hB, -⟩ | ⟨-, hsettle⟩ | ⟨hR, -⟩
    · rcases h.kind with hk | hk <;> rw [hk] at hB <;> exact absurd hB (by decide)
    · exact hsettle
    · rcases h.kind with hk | hk <;> rw [hk] at hR <;> exact absurd hR (by decide)
  obtain ⟨inputs, outputs, betTx, -, hbet, houtputs, houtcome⟩ := diceSettle_eq_ok hsettle
  obtain ⟨vin1, vin2, b, h1, -, -, hlookup, hb, -, -, hid⟩ := settledBet_eq_ok hbet
  have hhash : vin1.prevout.hash = bet.hash := by
    simpa only [h1, Option.map_some, Option.some.injEq] using h.spends
  rw [hhash] at hlookup hb
  obtain rfl := Option.some.inj (h.found.symm.trans hlookup)
  have hnotT : ¬ r.funcid = fid 'T' := by
    rcases h.kind with hk | hk <;> rw [hk] <;> decide
  simp only [settleOutcome, if_neg hnotT, Checked.bind_eq_ok, require_eq_ok] at houtcome
  obtain ⟨winnings, hwinnings, houtcome⟩ := houtcome
  refine ⟨b, fundingTx, plan, winnings, hb, by rw [hid]; exact hfunding, hterms, hwinnings, ?_⟩
  rcases h.kind with hk | hk
  · rw [if_pos hk] at houtcome
    have hnotL : ¬ r.funcid = fid 'L' := by rw [hk]; decide
    rw [settleOutputs, if_neg hnotL] at houtputs
    exact ⟨fun _ => winnings_pos houtputs hwinnings h.amounts (by simpa using houtcome),
      fun _ => hk⟩
  · have hnotW : ¬ r.funcid = fid 'W' := by rw [hk]; decide
    rw [if_neg hnotW] at houtcome
    have hle : winnings ≤ 0 := by simpa using houtcome
    exact ⟨fun hW => absurd hW hnotW, fun hpos => absurd hpos (by omega)⟩

theorem winningsOf_congr (hsha : env.sha256 = env'.sha256) (betTx : CTransaction)
    (plan : DicePlan) (proof : Uint256) :
    env.winningsOf betTx plan proof = env'.winningsOf betTx plan proof := by
  simp only [winningsOf, diceCalc, hsha]

/-- **One proof, one outcome.** Accepted settlements of a bet that carry the same proof are
both `'W'` or both `'L'`. -/
theorem settles_funcid (hsame : env.SameHistory env') (h : env.Settles bet s r)
    (h' : env'.Settles bet s' r') (hproof : r.proof = r'.proof) : r.funcid = r'.funcid := by
  obtain ⟨b, fundingTx, plan, winnings, hb, hfunding, hterms, hwin, hW⟩ := h.winnings
  obtain ⟨b', fundingTx', plan', winnings', hb', hfunding', hterms', hwin', hW'⟩ := h'.winnings
  obtain rfl := Option.some.inj (hb.symm.trans hb')
  obtain rfl := hsame.lookup hfunding hfunding'
  obtain rfl := Option.some.inj (hterms.symm.trans hterms')
  rw [hproof, winningsOf_congr hsame.sha256] at hwin
  obtain rfl := Except.ok.inj (hwin.symm.trans hwin')
  have hiff := hW.trans hW'.symm
  rcases h.kind with hk | hk <;> rcases h'.kind with hk' | hk' <;> rw [hk, hk'] at hiff ⊢
  · exact absurd (hiff.1 rfl) (by decide)
  · exact absurd (hiff.2 rfl) (by decide)

/-- **When two settlements of a bet agree.** Whenever and by whomever they are published:
they carry the secret that the house committed to and have the same outcome exactly when
the proof of each hashes to the commitment, which is the comparison that `DiceValidate`
prepares and leaves out. -/
theorem settlements_agree_iff (hsame : env.SameHistory env')
    (hinj : ∀ a b : Bytes, a.length = 32 → b.length = 32 → env.sha256 a = env.sha256 b → a = b)
    (h : env.Settles bet s r) (h' : env'.Settles bet s' r') :
    env.Agree bet r r' ↔ env.Reveals bet r ∧ env.Reveals bet r' := by
  constructor
  · rintro ⟨hproof, hreveals, -⟩
    refine ⟨hreveals, ?_⟩
    rwa [Reveals, ← hproof]
  · rintro ⟨⟨c, hc, hsha⟩, ⟨c', hc', hsha'⟩⟩
    obtain rfl := Option.some.inj (hc.symm.trans hc')
    have hlength : ∀ n, (uint256Bytes n).length = 32 := length_leBytes 32
    have hproof : r.proof = r'.proof :=
      uint256Bytes_inj (proof_lt h.opret) (proof_lt h'.opret)
        (hinj _ _ (hlength _) (hlength _) (hsha.trans hsha'.symm))
    exact ⟨hproof, ⟨c, hc, hsha⟩, settles_funcid hsame h h' hproof⟩

end ContractEnv

/-! ### A settlement that chooses the dice -/

namespace DiceSample

/-- `DiceCChexstr`. -/
def dicepk : CPubKey :=
  [0x03, 0x9d, 0x96, 0x69, 0x27, 0xcf, 0xda, 0xda, 0xb3, 0xee, 0x6c, 0x56, 0xda, 0x63, 0xc2,
   0x1f, 0x17, 0xea, 0x75, 0x3d, 0xde, 0x4b, 0x3d, 0xfd, 0x41, 0x48, 0x71, 0x03, 0xe2, 0x4b,
   0x27, 0xe9, 0x4e]

/-- `cc_conditionBinary(MakeCCcond1(EVAL_DICE, dicepk))`. -/
def diceCondition : Bytes :=
  [0xa2, 0x2c, 0x80, 0x20, 0x00, 0x95, 0xec, 0xe5, 0xee, 0xe6, 0x7e, 0x1f, 0x31, 0x3e, 0x7b,
   0xa2, 0xd1, 0x56, 0xc7, 0x61, 0x71, 0x06, 0xcd, 0x52, 0xb7, 0x5c, 0x93, 0xed, 0x3f, 0xb1,
   0x10, 0xff, 0x3f, 0xba, 0x6e, 0x99, 0x81, 0x03, 0x12, 0x0c, 0x00, 0x82, 0x03, 0x00, 0x04,
   0x01]

/-- The script at the shared address. -/
def diceScript : CScript := pushData diceCondition ++ [OP_CHECKCRYPTOCONDITION]

/-- The script that spends from there. -/
def spend : CScript := scriptSig1 EVAL_DICE dicepk

/-- The scripts of the house and of the bettor. -/
def house : CScript := payToPubkey (0x02 :: List.replicate 32 0x11)
@[inherit_doc house] def bettor : CScript := payToPubkey (0x02 :: List.replicate 32 0x22)

/-- SHA-256 of the secrets 1 and 4 of the house. -/
def hash1 : Uint256 :=
  89441978415532263559134480247466678305216018137750139369823253675862558167041
@[inherit_doc hash1] def hash4 : Uint256 :=
  28647806952216650698330424381872693846361470773871570637461872359310549743691

/-- SHA-256 on the data of the sample: the two secrets, and each of them with the entropy
9 of the bettor, in either order. -/
def sha256 (b : Bytes) : Bytes :=
  if b = uint256Bytes 1 ++ uint256Bytes 9 then uint256Bytes
    88287929053771222470896100895121706411653604357025197700166907243858141830483
  else if b = uint256Bytes 9 ++ uint256Bytes 1 then uint256Bytes
    51648381350637258037245172265340429091771706616826242364964416687478923361217
  else if b = uint256Bytes 4 ++ uint256Bytes 9 then uint256Bytes
    105204056058876408522623964630425803923904303919102643588633406478685381034951
  else if b = uint256Bytes 9 ++ uint256Bytes 4 then uint256Bytes
    107505755626937403538272745405128873504292502880638651204333525559424200597075
  else Equiv.swap (uint256Bytes 1) (uint256Bytes hash1)
    (Equiv.swap (uint256Bytes 4) (uint256Bytes hash4) b)

theorem sha256_injective (a b : Bytes) (ha : a.length = 32) (hb : b.length = 32)
    (h : sha256 a = sha256 b) : a = b := by
  have hshort : ∀ c : Bytes, c.length = 32 → ∀ x y, c ≠ uint256Bytes x ++ uint256Bytes y := by
    rintro c hc x y rfl
    simp [uint256Bytes] at hc
  simp only [sha256, hshort a ha, hshort b hb, if_false] at h
  exact (Equiv.injective _) ((Equiv.injective _) h)

/-- An opreturn of plan 1. -/
def opret (f : Char) (hash proof : Uint256) : CScript :=
  opReturnScript ([EVAL_DICE, fid f] ++ leBytes 8 7 ++ uint256Bytes 1 ++ uint256Bytes hash
    ++ uint256Bytes proof)

/-- A plan for bets of up to 10 coins at odds of up to 99, with 1000 coins of funding. -/
def plan : CTransaction where
  hash := 1
  vin := []
  vout := [⟨100000000000, diceScript⟩, ⟨10000, house⟩,
    ⟨0, opReturnScript ([EVAL_DICE, fid 'F'] ++ leBytes 8 7 ++ leBytes 8 1 ++ leBytes 8 1000000000
      ++ leBytes 8 99 ++ leBytes 8 10)⟩]

/-- The house commits to the secret 1. -/
def entropyTx : CTransaction where
  hash := 2
  vin := [⟨⟨1, 1⟩, [], 0⟩]
  vout := [⟨20000, diceScript⟩, ⟨10000, house⟩, ⟨0, opret 'E' hash1 0⟩]

/-- A bet of one coin at odds of one to one. -/
def bet : CTransaction where
  hash := 3
  vin := [⟨⟨2, 0⟩, spend, 0⟩, ⟨⟨90, 0⟩, [], 0⟩]
  vout := [⟨20000, diceScript⟩, ⟨100000000, diceScript⟩, ⟨10001, bettor⟩, ⟨0, opret 'B' 9 0⟩]

/-- The settlement of the house: with the secret 1 the bet is lost. -/
def loss : CTransaction where
  hash := 4
  vin := [⟨⟨91, 0⟩, [], 0⟩, ⟨⟨3, 0⟩, spend, 0⟩, ⟨⟨3, 1⟩, spend, 0⟩]
  vout := [⟨100020000, diceScript⟩, ⟨10000, house⟩, ⟨0, opret 'L' 0 1⟩]

/-- A settlement by the bettor: the number 4, to which nobody was committed, wins. -/
def win : CTransaction where
  hash := 5
  vin := [⟨⟨92, 0⟩, [], 0⟩, ⟨⟨3, 0⟩, spend, 0⟩, ⟨⟨3, 1⟩, spend, 0⟩, ⟨⟨1, 0⟩, spend, 0⟩]
  vout := [⟨99900020000, diceScript⟩, ⟨10000, house⟩, ⟨200000000, bettor⟩, ⟨0, opret 'W' 0 4⟩]

/-- A node that has seen the plan, the commitment and the bet. -/
def env : ContractEnv where
  conditionBinary _ := diceCondition
  readFulfillmentBinary b :=
    if b = fulfillment1 EVAL_DICE dicepk then some (signedCond1 EVAL_DICE dicepk) else none
  anonPublicKey _ := []
  anonHasCode _ _ := false
  solver _ := none
  hash160 _ := []
  getscriptaddress s := if s = diceScript then some DiceCCaddr else none
  getTransaction := findTx [plan, entropyTx, bet] 100
  blockIndex _ := none
  tip := ⟨1000, 1631536000⟩
  lastNotarizedHeight := 0
  sha256 := sha256

theorem sameHistory : env.SameHistory env := ⟨rfl, fun h h' => Option.some.inj (h.symm.trans h')⟩

theorem settles_loss : env.Settles bet loss ⟨fid 'L', 7, 1, 0, 1⟩ :=
  ⟨by decide +kernel, by decide +kernel, .inr rfl, rfl, by decide +kernel, by decide⟩

theorem settles_win : env.Settles bet win ⟨fid 'W', 7, 1, 0, 4⟩ :=
  ⟨by decide +kernel, by decide +kernel, .inl rfl, rfl, by decide +kernel, by decide⟩

theorem commitment_bet : env.commitment bet = some hash1 := by decide

end DiceSample

open DiceSample in
/-- The hypotheses of `settlements_agree_iff` are satisfiable: the settlement of the house
reveals its secret, and agrees with itself. -/
theorem settlements_agree_iff_loss :
    env.Agree bet ⟨fid 'L', 7, 1, 0, 1⟩ ⟨fid 'L', 7, 1, 0, 1⟩ := by
  have hreveals : env.Reveals bet ⟨fid 'L', 7, 1, 0, 1⟩ :=
    ⟨hash1, commitment_bet, by decide⟩
  exact (ContractEnv.settlements_agree_iff sameHistory sha256_injective settles_loss
    settles_loss).2 ⟨hreveals, hreveals⟩

open DiceSample in
/-- An accepted bet and two accepted settlements of it: with the secret of the house it is
lost, with a number of the bettor's choice it is won. -/
theorem chosen_proof :
    (∀ a b, a.length = 32 → b.length = 32 → env.sha256 a = env.sha256 b → a = b)
      ∧ env.diceValidate bet = .ok ()
      ∧ env.Settles bet loss ⟨fid 'L', 7, 1, 0, 1⟩ ∧ env.Settles bet win ⟨fid 'W', 7, 1, 0, 4⟩
      ∧ ¬ env.Agree bet ⟨fid 'L', 7, 1, 0, 1⟩ ⟨fid 'W', 7, 1, 0, 4⟩ :=
  ⟨sha256_injective, by decide +kernel, settles_loss, settles_win, fun h => absurd h.1 (by decide)⟩

end Komodo
