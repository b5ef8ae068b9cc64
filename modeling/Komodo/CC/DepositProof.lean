/-
# The proof of a deposit on another chain

`GatewaysVerify` of `src/src/cc/gateways.cpp` and `ImportGatewayVerify` of
`src/src/cc/importgateway.cpp`, which are one function under two names.

`tx` is the transaction of the oracle and then the deposit, and the loop over the outputs of the
deposit still ends with the number of outputs of the first.  What is returned can be trusted
wherever it has a meaning (`verify_sound`).  But a longer deposit is not searched to its end, a
shorter one is read past its end, and so is one without the output that the message claims:
`verified_iff` says when none of this happens.

`GetCustomscriptaddress` does not touch the array when the script has no address.  To compare an
array that nothing was written to has no meaning.
-/

import Komodo.CC.GatewaysClaim
import Komodo.NSPV.Client

namespace Komodo

open List

/-- What the two functions call outside this development. -/
structure DepositProofEnv where
  /-- `myGetTransaction` without the block. -/
  lookup : TxLookup
  decodeHexTx : Bytes → Option CTransaction
  /-- `GetCustomscriptaddress`, with `taddr`, `prefix` and `prefix2`; `none` when the script has
  no address. -/
  getCustomscriptaddress : CScript → UInt8 → UInt8 → UInt8 → Option String
  /-- The hash of two nodes of a Merkle tree. -/
  hash2 : Uint256 → Uint256 → Uint256
  /-- The height at which Sapling is active. -/
  saplinght : ℤ

/-- The arguments of the two functions. -/
structure DepositArgs where
  /-- `refdepositaddr`, or `refburnaddr`. -/
  refaddr : String
  oracletxid : Uint256
  claimvout : ℤ
  refcoin : Bytes
  /-- `cointxid`, or `burntxid`. -/
  cointxid : Uint256
  deposithex : Bytes
  proof : Bytes
  merkleroot : Uint256
  destpub : CPubKey
  taddr : UInt8
  pubtype : UInt8
  p2shtype : UInt8

/-- The output at an `int32_t` position. -/
def outputAt (tx : CTransaction) (i : ℤ) : Option CTxOut :=
  if i < 0 then none else tx.vout[i.toNat]?

namespace DepositProofEnv

variable (e : DepositProofEnv) (a : DepositArgs)

/-! ### The functions -/

/-- `BitcoinGetProofMerkleRoot`: the root and the matches. -/
def bitcoinGetProofMerkleRoot (proofData : Bytes) : Uint256 × List Uint256 :=
  match Unserialize.unmarshal proofData NSPV.Client.unserializeMerkleBlock with
  | some (_, txn) => txn.extractMatches e.hash2 e.saplinght
  | none => (0, [])

/-- The address of a script with the prefixes of the other chain. -/
def address (script : CScript) : Option String :=
  e.getCustomscriptaddress script a.taddr a.pubtype a.p2shtype

/-- The loop for the output to the deposit address, `left` turns before its end: `outs` are the
outputs from the present one on, and `destaddr` is the array. -/
def findDeposit : (left : ℕ) → (outs : List CTxOut) → (destaddr : Option String) →
    Checked (Option CTxOut)
  | 0, _, _ => .ok none
  | _ + 1, [], _ => .error .undefined
  | left + 1, out :: outs, destaddr => do
    let destaddr ← defined (e.address a out.scriptPubKey <|> destaddr)
    if destaddr = a.refaddr then return some out
    findDeposit left outs (some destaddr)

/-- What is done with the deposit. -/
def verifyOutputs (numvouts : ℕ) (tx : CTransaction) : Checked ℤ := do
  let claimed ← defined (outputAt tx a.claimvout)
  let claimaddr ← defined (e.address a claimed.scriptPubKey)
  let destpubaddr ← defined (e.address a (payToPubkey a.destpub))
  if claimaddr = destpubaddr then
    let found ← e.findDeposit a numvouts tx.vout none
    let (txid, nValue) := found.elim (0, 0) fun out => (tx.hash, out.nValue)
    return if txid = a.cointxid then nValue else 0
  else return 0

/-- `numvouts`, where the oracle is for the coin; `none` where zero is returned. -/
def oracleVouts : Option ℕ := do
  let tx ← e.lookup a.oracletxid
  let out ← tx.vout.getLast?
  let o ← decodeOraclesCreateOpRet out.scriptPubKey
  if o.name = a.refcoin then some tx.vout.length else none

/-- The proof has the root and contains the transaction. -/
def provesCoin : Prop :=
  (e.bitcoinGetProofMerkleRoot a.proof).1 = a.merkleroot
    ∧ a.cointxid ∈ (e.bitcoinGetProofMerkleRoot a.proof).2

instance : Decidable (e.provesCoin a) := inferInstanceAs (Decidable (_ ∧ _))

/-- The body of the two functions. -/
def verify : Checked ℤ :=
  match e.oracleVouts a with
  | none => return 0
  | some numvouts =>
    if e.provesCoin a then
      match e.decodeHexTx a.deposithex with
      | none => return 0
      | some tx => e.verifyOutputs a numvouts tx
    else return 0

def gatewaysVerify : Checked ℤ := e.verify a

def importGatewayVerify : Checked ℤ := e.verify a

/-! ### What is promised -/

/-- The output pays the deposit address. -/
def pays (out : CTxOut) : Bool := e.address a out.scriptPubKey = some a.refaddr

/-- The output that is claimed pays the address of `destpub`. -/
def ClaimPays (tx : CTransaction) : Prop :=
  ∃ out addr, outputAt tx a.claimvout = some out ∧ e.address a out.scriptPubKey = some addr
    ∧ e.address a (payToPubkey a.destpub) = some addr

/-- What is returned for a deposit: every output that is read exists and every address that is
compared is set, a value other than zero is one of a proven deposit, and a proven deposit has such
a value. -/
structure Verified (result : Checked ℤ) : Prop where
  reads : result ≠ .error .undefined
  sound : ∀ v, result = .ok v → v ≠ 0 → e.provesCoin a ∧
    ∃ tx, e.decodeHexTx a.deposithex = some tx ∧ tx.hash = a.cointxid ∧ e.ClaimPays a tx
      ∧ ∃ out ∈ tx.vout, e.pays a out ∧ v = out.nValue
  complete : ∀ numvouts tx, e.oracleVouts a = some numvouts → e.provesCoin a →
    e.decodeHexTx a.deposithex = some tx → tx.hash = a.cointxid → e.ClaimPays a tx →
    (∃ out ∈ tx.vout, e.pays a out) → ∃ v, result = .ok v ∧ v ≠ 0

/-- The output that is claimed exists, and it and `destpub` have an address.  If they have the same,
the first output of the deposit has one too, and the search for the deposit address neither ends
before an output that pays it nor goes on behind the last output; what the first such output holds
is not nothing, if the deposit is the transaction that was proven. -/
structure Searched (numvouts : ℕ) (tx : CTransaction) : Prop where
  claimed : ∃ out, outputAt tx a.claimvout = some out ∧ (e.address a out.scriptPubKey).isSome
  destpub : (e.address a (payToPubkey a.destpub)).isSome
  first : e.ClaimPays a tx → ∃ out, tx.vout.head? = some out ∧ (e.address a out.scriptPubKey).isSome
  inside : e.ClaimPays a tx → (∃ out ∈ tx.vout.take numvouts, e.pays a out)
    ∨ numvouts ≤ tx.vout.length
  found : e.ClaimPays a tx → tx.hash = a.cointxid → ∀ out, tx.vout.find? (e.pays a) = some out →
    (tx.vout.take numvouts).find? (e.pays a) = some out ∧ out.nValue ≠ 0

variable {e : DepositProofEnv} {a : DepositArgs}

/-! ### The search -/

variable {outs : List CTxOut}

theorem pays_of_find {out : CTxOut} (h : outs.find? (e.pays a) = some out) :
    out ∈ outs ∧ e.pays a out = true :=
  ⟨mem_of_find?_eq_some h, find?_some h⟩

/-- The first of `left` outputs that pays the deposit address. -/
def search (e : DepositProofEnv) (a : DepositArgs) (left : ℕ) (outs : List CTxOut) :
    Checked (Option CTxOut) :=
  match (outs.take left).find? (e.pays a) with
  | some out => .ok (some out)
  | none => if left ≤ outs.length then .ok none else .error .undefined

theorem search_cons (left : ℕ) (out : CTxOut) (outs : List CTxOut) :
    e.search a (left + 1) (out :: outs) =
      if e.pays a out then .ok (some out) else e.search a left outs := by
  unfold search
  rw [take_succ_cons, find?_cons]
  cases e.pays a out <;> simp

variable {left : ℕ}

/-- One turn of the loop, with an address in the array. -/
theorem findDeposit_cons {out : CTxOut} {destaddr : Option String}
    {addr : String} (haddr : (e.address a out.scriptPubKey <|> destaddr) = some addr)
    (hpays : addr = a.refaddr → e.pays a out = true)
    (hrest : addr ≠ a.refaddr → e.findDeposit a left outs (some addr) = e.search a left outs) :
    e.findDeposit a (left + 1) (out :: outs) destaddr = e.search a (left + 1) (out :: outs) := by
  unfold findDeposit
  rw [haddr, search_cons]
  by_cases heq : addr = a.refaddr
  · rw [hpays heq, if_pos rfl]
    exact if_pos heq
  · have hnot : e.pays a out = false := by
      rw [Bool.eq_false_iff]
      intro hpaid
      rw [of_decide_eq_true hpaid] at haddr
      exact heq (Option.some.inj haddr).symm
    rw [hnot, if_neg Bool.false_ne_true, ← hrest heq]
    exact if_neg heq

/-- The loop, once the array is set. -/
theorem findDeposit_set (left : ℕ) (outs : List CTxOut) {destaddr : String}
    (hne : destaddr ≠ a.refaddr) :
    e.findDeposit a left outs (some destaddr) = e.search a left outs := by
  induction left generalizing outs destaddr with
  | zero => simp [findDeposit, search]
  | succ left ih =>
    cases outs with
    | nil => rfl
    | cons out outs =>
      cases haddr : e.address a out.scriptPubKey with
      | none =>
        refine findDeposit_cons (by rw [haddr]; rfl) (fun heq => absurd heq hne) ?_
        exact fun hne => ih outs hne
      | some addr =>
        refine findDeposit_cons (by rw [haddr]; rfl) ?_ fun hne => ih outs hne
        exact fun heq => by rw [pays, haddr, heq]; exact decide_eq_true rfl

/-- The loop from its start. -/
theorem findDeposit_start (hleft : 0 < left) (outs : List CTxOut) :
    e.findDeposit a left outs none =
      if ∃ out, outs.head? = some out ∧ (e.address a out.scriptPubKey).isSome then
        e.search a left outs
      else .error .undefined := by
  obtain ⟨left, rfl⟩ := Nat.exists_eq_succ_of_ne_zero hleft.ne'
  cases outs with
  | nil => simp [findDeposit]
  | cons out outs =>
    cases haddr : e.address a out.scriptPubKey with
    | none => simp [findDeposit, haddr, defined, bind, Except.bind]
    | some addr =>
      rw [if_pos ⟨out, rfl, by rw [haddr]; rfl⟩]
      exact findDeposit_cons (by rw [haddr]; rfl)
        (fun heq => by rw [pays, haddr, heq]; exact decide_eq_true rfl)
        fun hne => findDeposit_set left outs hne

/-- What the loop gives, when it gives anything. -/
theorem findDeposit_eq_ok_iff (hleft : 0 < left)
    {found : Option CTxOut} :
    e.findDeposit a left outs none = .ok found ↔
      (∃ out, outs.head? = some out ∧ (e.address a out.scriptPubKey).isSome)
        ∧ (outs.take left).find? (e.pays a) = found ∧ (found = none → left ≤ outs.length) := by
  rw [findDeposit_start hleft, search]
  split_ifs with hfirst hle
  · cases hfind : (outs.take left).find? (e.pays a) with
    | none => simp only [Except.ok.injEq, hfirst, true_and, hle, implies_true, and_true]
    | some out =>
      simp only [Except.ok.injEq, hfirst, true_and]
      exact ⟨fun h => ⟨h, by simp [← h]⟩, And.left⟩
  · cases hfind : (outs.take left).find? (e.pays a) with
    | none =>
      refine ⟨nofun, fun ⟨_, hfound, himp⟩ => absurd (himp hfound.symm) hle⟩
    | some out =>
      simp only [Except.ok.injEq, hfirst, true_and]
      exact ⟨fun h => ⟨h, by simp [← h]⟩, And.left⟩
  · exact ⟨nofun, fun h => absurd h.1 hfirst⟩

theorem exists_of_findDeposit (hleft : 0 < left)
    (h : e.findDeposit a left outs none ≠ .error .undefined) :
    ∃ found, e.findDeposit a left outs none = .ok found := by
  rw [findDeposit_start hleft, search] at h ⊢
  split at h
  · next hfirst =>
    rw [if_pos hfirst]
    split at h
    · exact ⟨_, rfl⟩
    · split_ifs at h ⊢ with hle
      · exact ⟨_, rfl⟩
      · exact absurd rfl h
  · exact absurd rfl h

/-! ### The checks on the deposit -/

variable {tx : CTransaction} {numvouts : ℕ}

theorem verifyOutputs_of_claimPays (h : e.ClaimPays a tx) :
    e.verifyOutputs a numvouts tx = (do
      let found ← e.findDeposit a numvouts tx.vout none
      let (txid, nValue) := found.elim (0, 0) fun out => (tx.hash, out.nValue)
      return if txid = a.cointxid then nValue else 0) := by
  obtain ⟨out, addr, hout, haddr, hdest⟩ := h
  unfold verifyOutputs
  rw [hout, hdest]
  change (defined (e.address a out.scriptPubKey) >>= _) = _
  rw [haddr]
  exact if_pos rfl

/-- Another output is claimed than one to `destpub`. -/
theorem verifyOutputs_of_not_claimPays (h : ¬e.ClaimPays a tx)
    (hclaimed : ∃ out, outputAt tx a.claimvout = some out
      ∧ (e.address a out.scriptPubKey).isSome)
    (hdest : (e.address a (payToPubkey a.destpub)).isSome) :
    e.verifyOutputs a numvouts tx = .ok 0 := by
  obtain ⟨out, hout, haddr⟩ := hclaimed
  obtain ⟨claimaddr, haddr⟩ := Option.isSome_iff_exists.1 haddr
  obtain ⟨destpubaddr, hdest⟩ := Option.isSome_iff_exists.1 hdest
  have hne : claimaddr ≠ destpubaddr := fun heq => h ⟨out, claimaddr, hout, haddr, heq ▸ hdest⟩
  unfold verifyOutputs
  rw [hout, hdest]
  change (defined (e.address a out.scriptPubKey) >>= _) = _
  rw [haddr]
  exact if_neg hne

/-- What is read before the search. -/
theorem claimed_of_verifyOutputs (h : e.verifyOutputs a numvouts tx ≠ .error .undefined) :
    (∃ out, outputAt tx a.claimvout = some out ∧ (e.address a out.scriptPubKey).isSome)
      ∧ (e.address a (payToPubkey a.destpub)).isSome := by
  unfold verifyOutputs at h
  cases hout : outputAt tx a.claimvout with
  | none =>
    rw [hout] at h
    exact absurd rfl h
  | some out =>
    rw [hout] at h
    change (defined (e.address a out.scriptPubKey) >>= _) ≠ _ at h
    cases haddr : e.address a out.scriptPubKey with
    | none =>
      rw [haddr] at h
      exact absurd rfl h
    | some claimaddr =>
      rw [haddr] at h
      change (defined (e.address a (payToPubkey a.destpub)) >>= _) ≠ _ at h
      cases hdest : e.address a (payToPubkey a.destpub) with
      | none =>
        rw [hdest] at h
        exact absurd rfl h
      | some destpubaddr => exact ⟨⟨out, rfl, by rw [haddr]; rfl⟩, rfl⟩

theorem verifyOutputs_of_search (h : e.ClaimPays a tx)
    {found : Option CTxOut} (hfound : e.findDeposit a numvouts tx.vout none = .ok found) :
    e.verifyOutputs a numvouts tx =
      .ok (if (found.elim 0 fun _ => tx.hash) = a.cointxid then found.elim 0 CTxOut.nValue
        else 0) := by
  rw [verifyOutputs_of_claimPays h, hfound]
  cases found <;> rfl

/-- A value that is not zero is one of a deposit. -/
theorem verifyOutputs_sound (hn : 0 < numvouts) {v : ℤ}
    (h : e.verifyOutputs a numvouts tx = .ok v) (hv : v ≠ 0) :
    tx.hash = a.cointxid ∧ e.ClaimPays a tx ∧ ∃ out ∈ tx.vout, e.pays a out ∧ v = out.nValue := by
  have hreads : e.verifyOutputs a numvouts tx ≠ .error .undefined := by simp [h]
  obtain ⟨hclaimed, hdest⟩ := claimed_of_verifyOutputs hreads
  by_cases hpays : e.ClaimPays a tx
  · have hloop : e.findDeposit a numvouts tx.vout none ≠ .error .undefined := by
      intro hloop
      rw [verifyOutputs_of_claimPays hpays, hloop] at hreads
      exact hreads rfl
    obtain ⟨found, hfound⟩ := exists_of_findDeposit hn hloop
    rw [verifyOutputs_of_search hpays hfound] at h
    have hvalue := Except.ok.inj h
    obtain ⟨-, hfind, -⟩ := (findDeposit_eq_ok_iff hn).1 hfound
    cases found with
    | none => exact absurd (hvalue.symm.trans (ite_self 0)) hv
    | some out =>
      obtain ⟨hmem, hpaid⟩ := pays_of_find hfind
      by_cases hhash : tx.hash = a.cointxid
      · refine ⟨hhash, hpays, out, mem_of_mem_take hmem, hpaid, ?_⟩
        simpa [hhash] using hvalue.symm
      · exact absurd (by simpa [hhash] using hvalue.symm) hv
  · rw [verifyOutputs_of_not_claimPays hpays hclaimed hdest] at h
    exact absurd (Except.ok.inj h).symm hv

/-- The search has a meaning just when nothing is read that is not there. -/
theorem verifyOutputs_ne_undefined_iff (hn : 0 < numvouts) :
    e.verifyOutputs a numvouts tx ≠ .error .undefined ↔
      ((∃ out, outputAt tx a.claimvout = some out ∧ (e.address a out.scriptPubKey).isSome)
        ∧ (e.address a (payToPubkey a.destpub)).isSome)
        ∧ (e.ClaimPays a tx → ∃ found, e.findDeposit a numvouts tx.vout none = .ok found) := by
  constructor
  · intro h
    refine ⟨claimed_of_verifyOutputs h, fun hpays => exists_of_findDeposit hn fun hloop => ?_⟩
    rw [verifyOutputs_of_claimPays hpays, hloop] at h
    exact h rfl
  · rintro ⟨⟨hclaimed, hdest⟩, hloop⟩
    by_cases hpays : e.ClaimPays a tx
    · obtain ⟨found, hfound⟩ := hloop hpays
      simp [verifyOutputs_of_search hpays hfound]
    · simp [verifyOutputs_of_not_claimPays hpays hclaimed hdest]

theorem find_of_take {out : CTxOut}
    (h : (outs.take numvouts).find? (e.pays a) = some out) : outs.find? (e.pays a) = some out := by
  rw [← take_append_drop numvouts outs, find?_append, h]
  rfl

theorem oracleVouts_pos (h : e.oracleVouts a = some numvouts) : 0 < numvouts := by
  simp only [oracleVouts, Option.bind_eq_bind, Option.bind_eq_some_iff] at h
  obtain ⟨tx, -, out, hout, o, -, h⟩ := h
  split_ifs at h
  cases h
  exact length_pos_of_mem (mem_of_getLast? hout)

/-! ### The two functions -/

theorem verify_sound {v : ℤ} (h : e.verify a = .ok v) (hv : v ≠ 0) : e.provesCoin a ∧
    ∃ tx, e.decodeHexTx a.deposithex = some tx ∧ tx.hash = a.cointxid ∧ e.ClaimPays a tx
      ∧ ∃ out ∈ tx.vout, e.pays a out ∧ v = out.nValue := by
  unfold verify at h
  split at h
  · exact absurd (Except.ok.inj h).symm hv
  · next numvouts horacle =>
    split_ifs at h with hproof
    · split at h
      · exact absurd (Except.ok.inj h).symm hv
      · next tx htx =>
        exact ⟨hproof, tx, htx, verifyOutputs_sound (oracleVouts_pos horacle) h hv⟩
    · exact absurd (Except.ok.inj h).symm hv

theorem verify_of_proven (horacle : e.oracleVouts a = some numvouts) (hproof : e.provesCoin a)
    (htx : e.decodeHexTx a.deposithex = some tx) :
    e.verify a = e.verifyOutputs a numvouts tx := by
  unfold verify
  rw [horacle]
  dsimp only
  rw [if_pos hproof, htx]

theorem verify_of_unproven (h : ∀ numvouts tx, e.oracleVouts a = some numvouts → e.provesCoin a →
    e.decodeHexTx a.deposithex ≠ some tx) : e.verify a = .ok 0 := by
  unfold verify
  split
  · rfl
  · next numvouts horacle =>
    split_ifs with hproof
    · split
      · rfl
      · next tx htx => exact absurd htx (h numvouts tx horacle hproof)
    · rfl

/-- The search for one deposit. -/
theorem searched_iff (hn : 0 < numvouts) :
    e.Searched a numvouts tx ↔ e.verifyOutputs a numvouts tx ≠ .error .undefined
      ∧ (tx.hash = a.cointxid → e.ClaimPays a tx → (∃ out ∈ tx.vout, e.pays a out) →
        ∃ v, e.verifyOutputs a numvouts tx = .ok v ∧ v ≠ 0) := by
  rw [verifyOutputs_ne_undefined_iff hn]
  constructor
  · rintro ⟨hclaimed, hdest, hfirst, hinside, hfound⟩
    refine ⟨⟨⟨hclaimed, hdest⟩, fun hpays => ⟨_, (findDeposit_eq_ok_iff hn).2
      ⟨hfirst hpays, rfl, fun hnone => (hinside hpays).resolve_left ?_⟩⟩⟩, ?_⟩
    · rintro ⟨out, hout, hpaid⟩
      exact find?_eq_none.1 hnone out hout hpaid
    · rintro hhash hpays ⟨out, hout, hpaid⟩
      obtain ⟨first, hfind⟩ := Option.isSome_iff_exists.1 (find?_isSome.2 ⟨out, hout, hpaid⟩)
      obtain ⟨htake, hvalue⟩ := hfound hpays hhash first hfind
      have hloop := (findDeposit_eq_ok_iff hn).2 ⟨hfirst hpays, htake, nofun⟩
      refine ⟨first.nValue, ?_, hvalue⟩
      rw [verifyOutputs_of_search hpays hloop]
      simp [hhash]
  · rintro ⟨⟨⟨hclaimed, hdest⟩, hloop⟩, hcomplete⟩
    refine ⟨hclaimed, hdest, fun hpays => ?_, fun hpays => ?_, fun hpays hhash out hfind => ?_⟩
    · obtain ⟨found, hfound⟩ := hloop hpays
      exact ((findDeposit_eq_ok_iff hn).1 hfound).1
    · obtain ⟨found, hfound⟩ := hloop hpays
      obtain ⟨-, hfind, hle⟩ := (findDeposit_eq_ok_iff hn).1 hfound
      cases found with
      | none => exact .inr (hle rfl)
      | some out => exact .inl ⟨out, pays_of_find hfind⟩
    · obtain ⟨v, hv, hne⟩ := hcomplete hhash hpays ⟨out, pays_of_find hfind⟩
      obtain ⟨found, hfound⟩ := hloop hpays
      obtain ⟨-, htake, -⟩ := (findDeposit_eq_ok_iff hn).1 hfound
      rw [verifyOutputs_of_search hpays hfound] at hv
      cases found with
      | none => exact absurd ((Except.ok.inj hv).symm.trans (ite_self 0)) hne
      | some first =>
        obtain rfl : first = out := Option.some.inj ((find_of_take htake).symm.trans hfind)
        refine ⟨htake, fun hzero => hne ?_⟩
        simpa [hhash, hzero] using (Except.ok.inj hv).symm

theorem verified_verify_iff : e.Verified a (e.verify a) ↔ ∀ numvouts tx,
    e.oracleVouts a = some numvouts → e.provesCoin a → e.decodeHexTx a.deposithex = some tx →
      e.Searched a numvouts tx := by
  constructor
  · intro h numvouts tx horacle hproof htx
    have heq := verify_of_proven horacle hproof htx
    exact (searched_iff (oracleVouts_pos horacle)).2
      ⟨heq ▸ h.reads, fun hhash hpays hout =>
        heq ▸ h.complete numvouts tx horacle hproof htx hhash hpays hout⟩
  · intro h
    refine ⟨?_, fun v => verify_sound, fun numvouts tx horacle hproof htx => ?_⟩
    · by_cases hproven : ∃ numvouts tx, e.oracleVouts a = some numvouts ∧ e.provesCoin a
        ∧ e.decodeHexTx a.deposithex = some tx
      · obtain ⟨numvouts, tx, horacle, hproof, htx⟩ := hproven
        rw [verify_of_proven horacle hproof htx]
        exact ((searched_iff (oracleVouts_pos horacle)).1 (h _ _ horacle hproof htx)).1
      · rw [verify_of_unproven fun numvouts tx horacle hproof htx =>
          hproven ⟨numvouts, tx, horacle, hproof, htx⟩]
        nofun
    · rw [verify_of_proven horacle hproof htx]
      exact ((searched_iff (oracleVouts_pos horacle)).1 (h _ _ horacle hproof htx)).2

/-- What is promised of the two functions holds just when every proven deposit is searched to its
end and no further. -/
theorem verified_iff (e : DepositProofEnv) (a : DepositArgs) :
    (e.Verified a (e.gatewaysVerify a) ↔ ∀ numvouts tx, e.oracleVouts a = some numvouts →
      e.provesCoin a → e.decodeHexTx a.deposithex = some tx → e.Searched a numvouts tx)
    ∧ (e.Verified a (e.importGatewayVerify a) ↔ ∀ numvouts tx, e.oracleVouts a = some numvouts →
      e.provesCoin a → e.decodeHexTx a.deposithex = some tx → e.Searched a numvouts tx) :=
  ⟨verified_verify_iff, verified_verify_iff⟩

/-! ### The same function over a claim -/

/-- What `GatewaysValidate` sees behind a claim. -/
structure Sees (g : GatewaysProofEnv) (e : DepositProofEnv) : Prop where
  lookup : g.lookup = e.lookup
  decodeHexTx : g.decodeHexTx = e.decodeHexTx
  getCustomscriptaddress : g.getCustomscriptaddress = e.getCustomscriptaddress
  bitcoinGetProofMerkleRoot : g.bitcoinGetProofMerkleRoot = e.bitcoinGetProofMerkleRoot

variable {g : GatewaysProofEnv} {b : GatewaysBind} {d : GatewaysDeposit} {destpub : CPubKey}
  {root : Uint256}

end DepositProofEnv

namespace DepositProofSample

open GatewaysClaimSample (claimpk signerpk oracle)

/-- A transaction on the external chain, with the deposit in its last output. -/
def depositTx : CTransaction where
  hash := 61
  vin := [⟨⟨0, 0⟩, [], 0xffffffff⟩]
  vout := [⟨5, payToPubkey claimpk⟩, ⟨1, payToPubkey claimpk⟩, ⟨200, payToPubkey signerpk⟩]

/-- It in hexadecimal digits. -/
def depositHex : Bytes :=
  (leBytes 4 1 ++ [1] ++ uint256Bytes 0 ++ leBytes 4 0 ++ [0] ++ leBytes 4 0xffffffff ++ [3]
    ++ intBytes 8 5 ++ vectorBytes (payToPubkey claimpk)
    ++ intBytes 8 1 ++ vectorBytes (payToPubkey claimpk)
    ++ intBytes 8 200 ++ vectorBytes (payToPubkey signerpk)
    ++ leBytes 4 0).flatMap fun b =>
      [GatewaysClaimSample.coinHex.digit (b / 16), GatewaysClaimSample.coinHex.digit (b % 16)]

/-- A chain with an oracle of two outputs. -/
def env : DepositProofEnv where
  lookup id := [oracle].find? fun tx => tx.hash = id
  decodeHexTx b := if b = depositHex then some depositTx else none
  getCustomscriptaddress := GatewaysClaimSample.env.getCustomscriptaddress
  hash2 a _ := a
  saplinght := 1

/-- The proof of the deposit, whose second output is claimed. -/
def args : DepositArgs where
  refaddr := "REfYbMBPgJ9Z767GfpaAweSWABBuyCEBs9"
  oracletxid := 42
  claimvout := 1
  refcoin := GatewaysClaimSample.coin
  cointxid := 61
  deposithex := depositHex
  proof := GatewaysClaimSample.coinProof
  merkleroot := 61
  destpub := claimpk
  taddr := 0
  pubtype := 60
  p2shtype := 85

end DepositProofSample

open DepositProofSample in
/-- **A deposit in the third output is not found, since the oracle has two.** -/
theorem late_deposit_missed : ¬ ∀ (e : DepositProofEnv) (a : DepositArgs),
    e.Verified a (e.gatewaysVerify a) ∧ e.Verified a (e.importGatewayVerify a) := by
  intro hall
  have hzero : env.gatewaysVerify args = .ok 0 := by decide +kernel
  have horacle : env.oracleVouts args = some 2 := by decide +kernel
  have hproof : env.provesCoin args := by decide +kernel
  have hdecode : env.decodeHexTx args.deposithex = some depositTx := by simp [env, args]
  have hclaim : env.ClaimPays args depositTx :=
    ⟨⟨1, payToPubkey GatewaysClaimSample.claimpk⟩, "RFpwZGkjVQ19QVh7uu7PSfUfKJ8Asqmmrm",
      by decide, by decide, by decide⟩
  obtain ⟨v, hv, hne⟩ := (hall env args).1.complete 2 depositTx horacle hproof
    hdecode rfl hclaim ⟨⟨200, payToPubkey GatewaysClaimSample.signerpk⟩, by decide, by decide⟩
  rw [hzero] at hv
  exact hne (Except.ok.inj hv).symm

end Komodo
