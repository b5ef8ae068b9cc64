/-
# What a gateways claim proves

`GatewaysValidate` of `src/src/cc/gateways.cpp` for a `'C'` transaction, with `GatewaysVerify`.

A claim hands out tokens for coins that were deposited on another chain. `ClaimSettled` is what
should hold of one: it pays the deposit's amount to the deposit's key, it spends the marker of
the deposit, and the deposit was found under a Merkle root that enough publishers of the oracle
reported.

The source has the checks for it (`claimBehind`, `merkleVote`, `gatewaysVerify`), but behind an
`else if (tx.vin.size()>0) { … }` that ends the chain, so that none is made. What is accepted is
decided by the opreturn, by what it names, and by the kinds of the inputs before the last.
`claim_settled_iff` says that this guarantees nothing, and what the checks would have given.
-/

import Komodo.CC.Checks
import Komodo.CC.GatewaysCustody
import Komodo.CC.TokenEncode

namespace Komodo

/-- What `GatewaysVerify` and the search for the Merkle root call outside this development. -/
structure GatewaysProofEnv extends GatewaysEnv where
  /-- `BitcoinGetProofMerkleRoot`: the root, and the ids of the transactions. -/
  bitcoinGetProofMerkleRoot : Bytes → Uint256 × List Uint256
  decodeHexTx : Bytes → Option CTransaction
  /-- `GetCustomscriptaddress`, with `taddr`, `prefix` and `prefix2`; `none` when the script has
  no address. -/
  getCustomscriptaddress : CScript → UInt8 → UInt8 → UInt8 → Option String
  /-- The address of `CScriptID(GetScriptForMultisig(M, pubkeys))` with `taddr`, `prefix` and
  `prefix2`. -/
  multisigaddress : UInt8 → List CPubKey → UInt8 → UInt8 → UInt8 → String
  oraclesBatontxid : Uint256 → CPubKey → Uint256
  /-- `CCOraclesReverseScan`, by the height, the oracle and the baton: the Merkle root, null when
  there is none. -/
  ccOraclesReverseScan : ℤ → Uint256 → Uint256 → Uint256

/-! ### The search for the Merkle root -/

/-- One turn of the loop: the root, and how many reported it. -/
def voteStep (vote : Uint256 × ℕ) (mhash : Uint256) : Uint256 × ℕ :=
  if mhash = 0 then vote
  else if vote.1 = 0 then (mhash, 1)
  else if mhash = vote.1 then (vote.1, vote.2 + 1)
  else vote

/-- The loop over the publishers: the first root that is reported, and how often it is. -/
def merkleVote (reports : List Uint256) : Uint256 × ℕ := reports.foldl voteStep (0, 0)

namespace GatewaysProofEnv

variable (g : GatewaysProofEnv)

/-- What each publisher of the bind reports for the height of the deposit. -/
def reports (b : GatewaysBind) (d : GatewaysDeposit) : List Uint256 :=
  b.pubkeys.map fun pk =>
    g.ccOraclesReverseScan d.height b.oracletxid (g.oraclesBatontxid b.oracletxid pk)

/-! ### The external deposit -/

/-- The script `<pk> OP_CHECKSIG`. -/
def pubkeyScript (pk : CPubKey) : CScript := pushData pk ++ [0xac]

/-- `depositaddr` of `DecodeGatewaysBindOpRet`. `KMD_PUBTYPE` is 60 and `KMD_P2SHTYPE` 85; for
these the addresses are made with the prefixes of the chain. -/
def depositaddr (b : GatewaysBind) : String :=
  let own := b.prefix1 = 60 ∧ b.prefix2 = 85
  if 1 < b.N then
    if own then g.multisigaddress b.M b.pubkeys 0 60 85
    else g.multisigaddress b.M b.pubkeys b.taddr b.prefix1 b.prefix2
  else
    let script := pubkeyScript (b.pubkeys.headD [])
    if own then (g.getscriptaddress script).getD ""
    else (g.getCustomscriptaddress script b.taddr b.prefix1 b.prefix2).getD ""

/-- `GatewaysVerify` on the deposited transaction: the value of the first output to the deposit
address, if the claimed output pays the destination. The outputs are counted with `numvouts`,
which is of the oracle's transaction. -/
def verifyDeposit (b : GatewaysBind) (d : GatewaysDeposit) (destpub : CPubKey) (numvouts : ℕ)
    (tx : CTransaction) : ℤ :=
  let address (s : CScript) := g.getCustomscriptaddress s b.taddr b.prefix1 b.prefix2
  let claimaddr := address (voutAt tx d.claimvout.toNat).scriptPubKey
  if claimaddr.isSome ∧ claimaddr = address (pubkeyScript destpub) then
    match (List.range numvouts).find? fun i =>
      address (voutAt tx i).scriptPubKey = some (g.depositaddr b) with
    | some i => if tx.hash = d.cointxid then (voutAt tx i).nValue else 0
    | none => 0
  else 0

def gatewaysVerify (b : GatewaysBind) (d : GatewaysDeposit) (merkleroot : Uint256)
    (destpub : CPubKey) : ℤ :=
  match g.lookup b.oracletxid with
  | none => 0
  | some oracletx =>
    match oracletx.vout.getLast?.bind fun out => decodeOraclesCreateOpRet out.scriptPubKey with
    | none => 0
    | some o =>
      let (proofroot, txids) := g.bitcoinGetProofMerkleRoot d.proof
      if o.name = d.refcoin ∧ proofroot = merkleroot ∧ d.cointxid ∈ txids then
        (g.decodeHexTx d.deposithex).elim 0 (g.verifyDeposit b d destpub oracletx.vout.length)
      else 0

/-! ### The checks that are not made -/

/-- The bind of a claim. -/
def claimedBind (c : GatewaysClaim) : Option GatewaysBind :=
  (g.lookup c.bindtxid).bind fun tx =>
    tx.vout.getLast?.bind fun out => decodeGatewaysBindOpRet out.scriptPubKey

/-- The deposit of a claim. -/
def claimedDeposit (c : GatewaysClaim) : Option GatewaysDeposit :=
  (g.lookup c.deposittxid).bind fun tx =>
    tx.vout.getLast?.bind fun out => decodeGatewaysDepositOpRet out.scriptPubKey

/-- The rest of the chain for a claim, behind `else if (tx.vin.size()>0) { … }`. The marker is
looked for in the deposit, whatever transaction the last input spends, and `numvouts` is of the
deposit. -/
def claimBehind (tx : CTransaction) (c : GatewaysClaim) (b : GatewaysBind) (d : GatewaysDeposit)
    (deposittx : CTransaction) : Except String Unit := do
  let last := tx.vin.getLast?
  check (g.isMyVin EVAL_GATEWAYS (last.elim [] CTxIn.scriptSig)
      ∧ (voutAt deposittx (last.elim 0 fun i => i.prevout.n)).nValue = CC_MARKER_VALUE)
    "vin.%d is CC marker for gatewaysclaim or invalid marker amount!"
  let destaddr := g.ccAddress EVAL_TOKENS c.destpub
  check (destaddr ≠ "" ∧ g.constrainVout (voutAt tx 0) true destaddr c.amount)
    "invalid vout tokens to destpub for gatewaysclaim!"
  let spent := tx.vin[1]?.bind fun i =>
    (g.lookup i.prevout.hash).map fun vintx => (voutAt vintx i.prevout.n).nValue
  check (!(2 < deposittx.vout.length ∧ isPayToCryptoCondition (voutAt tx 1).scriptPubKey
      ∧ !spent.elim false fun nValue =>
        g.constrainVout (voutAt tx 1) true g.gatewaystokensaddr (nValue - c.amount)))
    "invalid CC change vout for gatewaysclaim!"
  check (c.amount = d.amount) "claimed amount different then deposit amount"
  check (c.destpub = d.destpub) "claim destination pubkey different than in deposit tx"
  let (merkleroot, m) := merkleVote (g.reports b d)
  check (!(merkleroot = 0 ∨ m < b.N.toNat / 2))
    "couldnt find merkleroot for ht.%d %s oracle.%s m.%d vs n.%d\n"
  check (g.gatewaysVerify b d merkleroot c.destpub = c.amount) "external deposit not verified\n"

end GatewaysProofEnv

/-! ### What should be guaranteed -/

/-- A claim is settled: the first output pays the deposit, an input spends the marker of the
deposit, and the deposit is verified for a root that enough publishers reported. -/
structure ClaimSettled (g : GatewaysProofEnv) (tx : CTransaction) (c : GatewaysClaim)
    (b : GatewaysBind) (d : GatewaysDeposit) : Prop where
  paidTo : g.constrainVout (voutAt tx 0) true (g.ccAddress EVAL_TOKENS d.destpub) 0 = true
  amount : (voutAt tx 0).nValue = d.amount
  marker : ∃ i ∈ tx.vin, i.prevout = ⟨c.deposittxid, 0⟩
  verified : ∃ root, root ≠ 0 ∧ b.N.toNat / 2 ≤ (g.reports b d).count root ∧
    g.gatewaysVerify b d root d.destpub = d.amount

/-- The transaction claims, and its claim is settled. -/
def Settled (g : GatewaysProofEnv) (tx : CTransaction) : Prop :=
  ∃ c b d, claimOf tx = some c ∧ g.claimedBind c = some b ∧ g.claimedDeposit c = some d ∧
    ClaimSettled g tx c b d

/-- The same claim by the same inputs, except for the last one; the other outputs may be any. -/
structure SameClaim (tx tx' : CTransaction) : Prop where
  opret : tx'.vout.getLast? = tx.vout.getLast?
  earlier : tx'.vin.dropLast = tx.vin.dropLast
  vin : tx'.vin ≠ []

section
variable {g : GatewaysProofEnv} {tx tx' : CTransaction}

theorem SameClaim.opretScript_eq (h : SameClaim tx tx') : opretScript tx' = opretScript tx := by
  rw [opretScript, h.opret, opretScript]

theorem passes_claim_iff {g : GatewaysEnv}
    (hC : decodeGatewaysOpRet (opretScript tx) = some (fid 'C')) :
    Passes g tx ↔ claimNamed g (opretScript tx) = .ok () ∧
      ∀ i ∈ tx.vin.dropLast, g.isCCInput i.scriptSig = true := by
  unfold Passes
  rw [hC]
  simp [fid]

theorem SameClaim.passes_iff {g : GatewaysEnv} (h : SameClaim tx tx')
    (hC : decodeGatewaysOpRet (opretScript tx) = some (fid 'C')) : Passes g tx' ↔ Passes g tx := by
  rw [passes_claim_iff hC, passes_claim_iff (by rwa [h.opretScript_eq]), h.opretScript_eq,
    h.earlier]

/-! ### The vote -/

theorem foldl_voteStep_of_ne {root : Uint256} (h : root ≠ 0) (m : ℕ) (reports : List Uint256) :
    reports.foldl voteStep (root, m) = (root, m + reports.count root) := by
  induction reports generalizing m with
  | nil => rfl
  | cons mhash reports ih =>
    rw [List.foldl_cons, List.count_cons]
    rcases eq_or_ne mhash root with rfl | hne
    · have hstep : voteStep (mhash, m) mhash = (mhash, m + 1) := by simp [voteStep, h]
      rw [hstep, ih]
      simp only [BEq.rfl, if_true]
      rw [Nat.add_assoc, Nat.add_comm 1]
    · have hstep : voteStep (root, m) mhash = (root, m) := by simp [voteStep, h, hne]
      rw [hstep, ih]
      simp [hne]

theorem merkleVote_count {reports : List Uint256} (h : (merkleVote reports).1 ≠ 0) :
    (merkleVote reports).2 = reports.count (merkleVote reports).1 := by
  unfold merkleVote at h ⊢
  induction reports with
  | nil => exact absurd rfl h
  | cons mhash reports ih =>
    rw [List.foldl_cons] at h ⊢
    rcases eq_or_ne mhash 0 with rfl | hne
    · have hstep : voteStep (0, 0) 0 = (0, 0) := rfl
      rw [hstep] at h ⊢
      rw [ih h, List.count_cons_of_ne h.symm]
    · have hstep : voteStep (0, 0) mhash = (mhash, 1) := by simp [voteStep, hne]
      rw [hstep, foldl_voteStep_of_ne hne, List.count_cons_self, Nat.add_comm]

/-! ### What the checks would give -/

theorem GatewaysEnv.constrainVout_zero {g : GatewaysEnv} {out : CTxOut} {cc : Bool} {addr : String}
    {nValue : ℤ} (h : g.constrainVout out cc addr nValue = true) (hne : nValue ≠ 0) :
    g.constrainVout out cc addr 0 = true ∧ out.nValue = nValue := by
  simp only [GatewaysEnv.constrainVout, decide_eq_true_eq] at h ⊢
  obtain ⟨hcc, haddr, hzero | hval⟩ := h
  · exact absurd hzero hne
  · exact ⟨⟨hcc, haddr, Or.inl trivial⟩, hval.symm⟩

theorem claimSettled_of_behind {c : GatewaysClaim} {b : GatewaysBind} {d : GatewaysDeposit}
    {deposittx : CTransaction} (h : g.claimBehind tx c b d deposittx = .ok ())
    (hmarker : ∃ i, tx.vin.getLast? = some i ∧ i.prevout = ⟨c.deposittxid, 0⟩)
    (hamount : d.amount ≠ 0) : ClaimSettled g tx c b d := by
  simp only [GatewaysProofEnv.claimBehind, seq_ok, check_ok, decide_eq_true_eq,
    Bool.not_eq_true', decide_eq_false_iff_not, not_or, Nat.not_lt] at h
  obtain ⟨-, ⟨-, hpaid⟩, -, hamounts, hpubs, ⟨hroot, hvotes⟩, hverify⟩ := h
  rw [hamounts, hpubs] at hpaid
  rw [hpubs, hamounts] at hverify
  obtain ⟨hto, hvalue⟩ := GatewaysEnv.constrainVout_zero hpaid hamount
  obtain ⟨i, hlast, hprev⟩ := hmarker
  exact ⟨hto, hvalue, ⟨i, List.mem_of_getLast? hlast, hprev⟩, _, hroot,
    merkleVote_count hroot ▸ hvotes, hverify⟩

/-! ### What is accepted -/

/-- A claim that pays nobody and spends no marker. -/
def emptyClaim (tx : CTransaction) : CTransaction :=
  { tx with
    vin := tx.vin.dropLast ++ [⟨⟨0, 1⟩, [], 0⟩]
    vout := CTxOut.null :: tx.vout.getLast?.toList }

theorem sameClaim_emptyClaim (hvout : tx.vout ≠ []) : SameClaim tx (emptyClaim tx) where
  opret := by
    obtain ⟨out, hout⟩ := Option.ne_none_iff_exists'.1 (mt List.getLast?_eq_none_iff.1 hvout)
    simp [emptyClaim, hout]
  earlier := by simp [emptyClaim]
  vin := by simp [emptyClaim]

theorem not_settled_emptyClaim : ¬ Settled g (emptyClaim tx) := by
  rintro ⟨c, b, d, -, -, -, h⟩
  have hnull : voutAt (emptyClaim tx) 0 = CTxOut.null := rfl
  have hpaid := h.paidTo
  rw [hnull] at hpaid
  simp only [GatewaysEnv.constrainVout, decide_eq_true_eq] at hpaid
  exact absurd hpaid.1 (by decide)

/-- **An accepted claim need not be settled.** Take the opreturn and all inputs but the last of
any claim. What is accepted of the claims with these is settled only if none is accepted at all:
the bind, the oracle or the deposit is not in order, or an earlier input is a normal one. A claim
that also passed the checks behind the brace would be settled, if its last input spends the marker
of the deposit (which no check says) and the amount is not zero. -/
theorem claim_settled_iff (g : GatewaysProofEnv) (tx : CTransaction)
    (hC : decodeGatewaysOpRet (opretScript tx) = some (fid 'C')) (hvout : tx.vout ≠ []) :
    ((∀ tx', SameClaim tx tx' → (gatewaysValidate g.toGatewaysEnv tx').val = true → Settled g tx')
        ↔ ¬ Passes g.toGatewaysEnv tx) ∧
      ∀ c b d deposittx, claimOf tx = some c → g.claimedBind c = some b →
        g.claimedDeposit c = some d → g.lookup c.deposittxid = some deposittx →
        g.claimBehind tx c b d deposittx = .ok () →
        (∃ i, tx.vin.getLast? = some i ∧ i.prevout = ⟨c.deposittxid, 0⟩) → d.amount ≠ 0 →
        Settled g tx := by
  refine ⟨⟨fun hall hpasses => ?_, fun hpasses tx' hsame hval => ?_⟩, ?_⟩
  · have hsame := sameClaim_emptyClaim hvout
    have hvout' : (emptyClaim tx).vout ≠ [] := List.cons_ne_nil _ _
    have hval := (gatewaysValidate_iff hsame.vin hvout').2
      ((hsame.passes_iff hC).2 hpasses)
    exact not_settled_emptyClaim (hall _ hsame hval)
  · have hvout' : tx'.vout ≠ [] := by
      rintro hnil
      have hlast := hsame.opret
      rw [hnil, List.getLast?_nil, eq_comm, List.getLast?_eq_none_iff] at hlast
      exact hvout hlast
    exact absurd ((hsame.passes_iff hC).1 ((gatewaysValidate_iff hsame.vin hvout').1 hval)) hpasses
  · rintro c b d deposittx hc hb hd - hbehind hmarker hamount
    exact ⟨c, b, d, hc, hb, hd, claimSettled_of_behind hbehind hmarker hamount⟩

end

/-! ### A deposit, and two claims of it -/

namespace GatewaysClaimSample

/-- The key of the depositor. -/
def claimpk : CPubKey := 0x02 :: List.replicate 32 0x44

/-- The key of the only signer of the gateway, who also publishes its Merkle roots. -/
def signerpk : CPubKey := 0x02 :: List.replicate 32 0x55

/-- `cc_conditionBinary(MakeCCcond1(evalcode, pk))` for the keys of the sample. -/
def conditionOf (evalcode : UInt8) (pk : CPubKey) : Bytes :=
  if evalcode = EVAL_TOKENS then
    [0xa2, 0x2c, 0x80, 0x20, 0x2e, 0x48, 0x32, 0x17, 0xef, 0x77, 0x3b, 0xe9, 0xd2, 0xdb, 0x84,
     0x55, 0x24, 0xa1, 0x1d, 0xde, 0x03, 0xa0, 0xb3, 0x02, 0xc7, 0xf3, 0x88, 0x15, 0x57, 0xc7,
     0x79, 0xba, 0xed, 0xef, 0x43, 0x33, 0x81, 0x03, 0x12, 0x0c, 0x00, 0x82, 0x03, 0x00, 0x04,
     0x01]
  else if pk = gatewayspk then
    [0xa2, 0x2c, 0x80, 0x20, 0x91, 0xab, 0xda, 0x62, 0xa5, 0x48, 0xf9, 0xc7, 0xf5, 0xbe, 0xb1,
     0x9d, 0x16, 0xf0, 0x17, 0x14, 0xae, 0x3d, 0x4e, 0x52, 0x6f, 0x32, 0x66, 0xfc, 0x8d, 0x34,
     0x7d, 0x61, 0x23, 0xf3, 0xd7, 0x7b, 0x81, 0x03, 0x12, 0x0c, 0x00, 0x82, 0x03, 0x00, 0x04,
     0x01]
  else
    [0xa2, 0x2c, 0x80, 0x20, 0x43, 0xff, 0x3a, 0xca, 0x95, 0x43, 0xe7, 0x48, 0xf5, 0x33, 0x73,
     0xc5, 0x53, 0x3d, 0xd9, 0x52, 0x06, 0x39, 0x02, 0x2a, 0xe2, 0x6a, 0x42, 0x08, 0xbd, 0xd0,
     0x2e, 0x00, 0x9c, 0xd0, 0xd2, 0xdd, 0x81, 0x03, 0x12, 0x0c, 0x00, 0x82, 0x03, 0x00, 0x04,
     0x01]

/-- The script of an output of `MakeCC1vout`. -/
def script1 (evalcode : UInt8) (pk : CPubKey) : CScript :=
  pushData (conditionOf evalcode pk) ++ [OP_CHECKCRYPTOCONDITION]

/-- The name of the external coin, and of its oracle. -/
def coin : Bytes := "XYZ".toList.map fid

/-- The creation of the token, with 500 of it. -/
def token : CTransaction where
  hash := 40
  vin := []
  vout := [⟨10000, [0x51]⟩, ⟨500, [0x51]⟩, ⟨0, encodeTokenCreateOpRet claimpk coin [] []⟩]

/-- The gateway, with one signer. -/
def bind : CTransaction where
  hash := 41
  vin := []
  vout := [⟨500, GatewaysSample.lockScript⟩, ⟨10000, script1 EVAL_GATEWAYS gatewayspk⟩,
    ⟨0, encodeTokenOpRet 40 [] [(OPRETID_GATEWAYSDATA,
      [EVAL_GATEWAYS, fid 'B'] ++ vectorBytes coin ++ intBytes 8 500 ++ uint256Bytes 42 ++ [1, 1]
        ++ listBytes CPubKey.serialize [signerpk] ++ [0, 60, 85, 188])]⟩]

/-- The oracle of the Merkle roots. -/
def oracle : CTransaction where
  hash := 42
  vin := []
  vout := [⟨10000, [0x51]⟩, ⟨0, opReturnScript ([EVAL_ORACLES, fid 'C'] ++ vectorBytes coin
    ++ vectorBytes ("Ihh".toList.map fid) ++ vectorBytes [])⟩]

/-- The transaction on the external chain: 200 coins for the signer. -/
def coinTx : CTransaction where
  hash := 61
  vin := [⟨⟨0, 0⟩, [], 0xffffffff⟩]
  vout := [⟨200, GatewaysProofEnv.pubkeyScript signerpk⟩,
    ⟨1, GatewaysProofEnv.pubkeyScript claimpk⟩]

/-- It in hexadecimal digits. -/
def coinHex : Bytes :=
  (leBytes 4 1 ++ [1] ++ uint256Bytes 0 ++ leBytes 4 0 ++ [0] ++ leBytes 4 0xffffffff ++ [2]
    ++ intBytes 8 200 ++ vectorBytes (GatewaysProofEnv.pubkeyScript signerpk)
    ++ intBytes 8 1 ++ vectorBytes (GatewaysProofEnv.pubkeyScript claimpk)
    ++ leBytes 4 0).flatMap fun b => [digit (b / 16), digit (b % 16)]
where
  /-- A hexadecimal digit. -/
  digit (n : UInt8) : UInt8 := if n < 10 then 48 + n else 87 + n

/-- Its proof: an empty header, and a tree of this transaction only. -/
def coinProof : Bytes :=
  List.replicate 141 0 ++ leBytes 4 1 ++ listBytes uint256Bytes [61] ++ [1, 1]

/-- The deposit of the 200 coins. -/
def deposit : CTransaction where
  hash := 43
  vin := []
  vout := [⟨10000, script1 EVAL_GATEWAYS claimpk⟩,
    ⟨10000, pushData (0x02 :: uint256Bytes 61) ++ [0xac]⟩,
    ⟨0, opReturnScript ([EVAL_GATEWAYS, fid 'D'] ++ vectorBytes coin ++ uint256Bytes 41
      ++ listBytes CPubKey.serialize [signerpk] ++ listBytes uint256Bytes [70] ++ intBytes 4 900
      ++ uint256Bytes 61 ++ intBytes 4 1 ++ vectorBytes coinHex ++ vectorBytes coinProof
      ++ CPubKey.serialize claimpk ++ intBytes 8 200)⟩]

/-- The opreturn that claims the deposit. -/
def claimOpret : CScript :=
  encodeTokenOpRet 40 [claimpk] [(OPRETID_GATEWAYSDATA,
    [EVAL_GATEWAYS, fid 'C'] ++ uint256Bytes 41 ++ vectorBytes coin ++ uint256Bytes 43
      ++ CPubKey.serialize claimpk ++ intBytes 8 200)]

/-- The claim: 200 tokens for the depositor, the rest back, and the marker is spent. -/
def honest : CTransaction where
  hash := 50
  vin := [GatewaysSample.lockInput, ⟨⟨43, 0⟩, scriptSig1 EVAL_GATEWAYS claimpk, 0⟩]
  vout := [⟨200, script1 EVAL_TOKENS claimpk⟩, ⟨1000, [0x51]⟩, ⟨300, GatewaysSample.lockScript⟩,
    ⟨0, claimOpret⟩]

/-- The claim once more: all 500 tokens, and any input instead of the marker. -/
def greedy : CTransaction where
  hash := 51
  vin := [GatewaysSample.lockInput, ⟨⟨7, 0⟩, pushData [1], 0⟩]
  vout := [⟨500, script1 EVAL_TOKENS claimpk⟩, ⟨0, claimOpret⟩]

/-- A chain with these transactions, the codec and the addresses on its data; the signer has
reported the root 61 for height 900. -/
def env : GatewaysProofEnv where
  conditionBinary
    | .threshold 2 2 [.eval [e], .threshold 1 1 [.secp256k1 pk _]] => conditionOf e pk
    | cond => GatewaysSample.env.conditionBinary cond
  readFulfillmentBinary b :=
    if b = fulfillment1 EVAL_GATEWAYS claimpk then some (signedCond1 EVAL_GATEWAYS claimpk)
    else GatewaysSample.env.readFulfillmentBinary b
  anonPublicKey _ := []
  anonHasCode _ _ := false
  solver _ := none
  hash160 _ := []
  getscriptaddress s :=
    if s = script1 EVAL_GATEWAYS gatewayspk then some "RKWpoK6vTRtq5b9qrRBodLkCzeURHeEk33"
    else if s = script1 EVAL_GATEWAYS claimpk then some "RWhteQoNdAMKJSxLG1mXLYyc5J3BbiPiEa"
    else if s = script1 EVAL_TOKENS claimpk then some "RTnF7rosM5N4c6c327xjwrdohFXYdxUakK"
    else if s = pushData (0x02 :: uint256Bytes 61) ++ [0xac] then
      some "RR2avZSPS2k8MGUtBzFbbsHeVcouB5XcLj"
    else if s = GatewaysProofEnv.pubkeyScript signerpk then
      some "REfYbMBPgJ9Z767GfpaAweSWABBuyCEBs9"
    else GatewaysSample.env.getscriptaddress s
  txNotarizedConfirmed _ := true
  lookup id :=
    [GatewaysSample.locked, token, bind, oracle, deposit].find? fun tx => tx.hash = id
  bitcoinGetProofMerkleRoot b := if b = coinProof then (61, [61]) else (0, [])
  decodeHexTx b := if b = coinHex then some coinTx else none
  getCustomscriptaddress s _ _ _ :=
    if s = GatewaysProofEnv.pubkeyScript signerpk then some "REfYbMBPgJ9Z767GfpaAweSWABBuyCEBs9"
    else if s = GatewaysProofEnv.pubkeyScript claimpk then
      some "RFpwZGkjVQ19QVh7uu7PSfUfKJ8Asqmmrm"
    else none
  multisigaddress _ _ _ _ _ := ""
  oraclesBatontxid _ pk := if pk = signerpk then 70 else 0
  ccOraclesReverseScan height _ batontxid := if height = 900 ∧ batontxid = 70 then 61 else 0

/-- The fields of the claim, of the bind and of the deposit. -/
def claimed : GatewaysClaim := ⟨40, 41, coin, 43, claimpk, 200⟩

/-- The fields of the bind. -/
def bound : GatewaysBind := ⟨40, coin, 500, 42, 1, 1, [signerpk], 0, 60, 85⟩

/-- The fields of the deposit. -/
def deposited : GatewaysDeposit := ⟨41, coin, 900, 61, 1, coinHex, coinProof, claimpk, 200⟩

theorem records_honest :
    claimOf honest = some claimed ∧ env.claimedBind claimed = some bound ∧
      env.claimedDeposit claimed = some deposited ∧
      env.lookup claimed.deposittxid = some deposit ∧
      env.claimBehind honest claimed bound deposited deposit = .ok () := by
  decide +kernel

end GatewaysClaimSample

open GatewaysClaimSample

/-- The hypotheses of `claim_settled_iff` are satisfiable, those of both its parts: the honest claim
passes and is settled, but with its opreturn and its first input not all that is accepted is. -/
theorem claim_settled_honest :
    (¬ ∀ tx', SameClaim honest tx' →
        (gatewaysValidate env.toGatewaysEnv tx').val = true → Settled env tx') ∧
      Settled env honest := by
  have hC : decodeGatewaysOpRet (opretScript honest) = some (fid 'C') := by decide +kernel
  obtain ⟨hiff, hsettled⟩ := claim_settled_iff env honest hC (List.cons_ne_nil _ _)
  constructor
  · intro hall
    rw [hiff, passes_claim_iff hC] at hall
    exact hall ⟨by decide +kernel, by decide +kernel⟩
  · obtain ⟨hclaim, hbind, hdeposit, hlookup, hbehind⟩ := records_honest
    exact hsettled claimed bound deposited deposit hclaim hbind hdeposit hlookup hbehind
      ⟨⟨⟨43, 0⟩, scriptSig1 EVAL_GATEWAYS claimpk, 0⟩, rfl, rfl⟩ (by decide)

/-- **The deposit is claimed twice.** Both claims are accepted, the greedy one for more than the
deposit and without its marker. -/
theorem greedy_accepted :
    (gatewaysValidate env.toGatewaysEnv honest).val = true ∧
      (gatewaysValidate env.toGatewaysEnv greedy).val = true ∧
      claimOf greedy = claimOf honest ∧ claimOf greedy = some claimed ∧
      (voutAt greedy 0).nValue = 500 ∧ deposited.amount = 200 ∧ ¬ Settled env greedy := by
  have claimOf_greedy : claimOf greedy = some claimed := by decide +kernel
  refine ⟨by decide +kernel, by decide +kernel, claimOf_greedy.trans records_honest.1.symm,
    claimOf_greedy, rfl, rfl, ?_⟩
  rintro ⟨c, b, d, hc, hb, hd, hsettled⟩
  obtain rfl : claimed = c := Option.some.inj (claimOf_greedy.symm.trans hc)
  obtain rfl : deposited = d := Option.some.inj (records_honest.2.2.1.symm.trans hd)
  exact absurd hsettled.amount (by decide)

end Komodo
