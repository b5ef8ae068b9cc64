/-
# Equal messages of overwintered transactions

The message of an overwintered transaction is taken apart field by field (`overwinter_cover`).  A
field that is a hash stands for a piece, and the null hash for a piece that is left out.
-/

import Komodo.Script.SignaturePieces

namespace Komodo
namespace Wire

open Streams Unserialize List

namespace SignatureHashCall

variable {H : Hasher} {nHashType : HashType} {consensusBranchId : ℕ} {c d : SignatureHashCall}

/-- What is written of the input tells the input, the script code and the amount. -/
theorem input_cover (hc : c.Sized) (hd : d.Sized) {input : Bytes} (h : c.inputBytes = .ok input)
    (h' : d.inputBytes = .ok input) (hne : c.nIn ≠ NOT_AN_INPUT) :
    d.nIn ≠ NOT_AN_INPUT ∧ c.signedInput = d.signedInput ∧ c.scriptCode = d.scriptCode
      ∧ c.amount = d.amount := by
  have hwritten : ∀ {c : SignatureHashCall}, c.inputBytes = .ok input → c.nIn ≠ NOT_AN_INPUT →
      ∃ i ∈ c.txTo.vin, c.txTo.vin[c.nIn]? = some i ∧ input = outPointBytes i.prevout
        ++ (vectorBytes c.scriptCode ++ (intBytes 8 c.amount ++ leBytes 4 i.nSequence)) := by
    intro c h hne
    unfold inputBytes at h
    rw [if_neg hne] at h
    split at h
    · rename_i i hi
      exact ⟨i, mem_of_getElem? hi, hi, (Except.ok.inj h).symm⟩
    · cases h
  obtain ⟨i, hmem, hi, hinput⟩ := hwritten h hne
  have hne' : d.nIn ≠ NOT_AN_INPUT := by
    intro heq
    rw [inputBytes, if_pos heq] at h'
    have hlen := congrArg length ((Except.ok.inj h').trans hinput)
    simp only [length_nil, length_append, outPointBytes, length_leBytes] at hlen
    omega
  obtain ⟨j, hmem', hj, hinput'⟩ := hwritten h' hne'
  obtain ⟨hi₁, -, hi₂⟩ := hc.txTo.vin.2 i hmem
  obtain ⟨hj₁, -, hj₂⟩ := hd.txTo.vin.2 j hmem'
  obtain ⟨hprevout, heq⟩ := separates_outPoint hi₁ hj₁ (hinput.symm.trans hinput')
  obtain ⟨hscript, heq⟩ := separates_vector hc.scriptCode hd.scriptCode heq
  obtain ⟨hamount, heq⟩ :=
    (codec_int (show 0 < 8 by omega)).separates hc.amount hd.amount heq
  have hseq := Separates.inj (codec_uint 4).separates hi₂ hj₂ heq
  exact ⟨hne', by rw [signedInput, signedInput, hi, hj, Option.map_some, Option.map_some, hprevout,
    hseq], hscript, hamount⟩

theorem header_lt (tx : CMutableTransaction) : tx.header < 256 ^ 4 := by
  have hversion : (tx.nVersion % 2 ^ 32).toNat < 2 ^ 32 := by omega
  unfold CMutableTransaction.header getHeader
  dsimp only
  split_ifs
  · exact Nat.or_lt_two_pow hversion (by decide)
  · exact hversion

theorem zero_lt_hash : (0 : Uint256) < 2 ^ 256 := by norm_num

/-- The hashes that are written have 256 bits. -/
theorem hash_fields_lt (H : Hasher) (nHashType : HashType) (hc : c.cache = none) :
    c.hashPrevouts H nHashType < 2 ^ 256 ∧ c.hashSequence H nHashType < 2 ^ 256
      ∧ c.hashOutputs H nHashType < 2 ^ 256 ∧ c.hashShieldedSpends H < 2 ^ 256
      ∧ c.hashShieldedOutputs H < 2 ^ 256 := by
  have hcached : ∀ field m, c.cached field (H.hash m) < 2 ^ 256 := by
    intro field m
    simp only [cached, hc]
    exact H.hash_lt m
  refine ⟨?_, ?_, ?_, ?_, ?_⟩
  · unfold hashPrevouts
    split_ifs
    exacts [zero_lt_hash, hcached _ _]
  · unfold hashSequence
    split_ifs
    exacts [zero_lt_hash, hcached _ _]
  · unfold hashOutputs
    split_ifs
    · exact hcached _ _
    · split
      exacts [H.hash_lt _, zero_lt_hash]
    · exact zero_lt_hash
  · unfold hashShieldedSpends
    split_ifs
    exacts [zero_lt_hash, hcached _ _]
  · unfold hashShieldedOutputs
    split_ifs
    exacts [zero_lt_hash, hcached _ _]

theorem hashJoinSplits_lt (hc : c.cache = none) {js : Uint256} (h : c.hashJoinSplits H = .ok js) :
    js < 2 ^ 256 := by
  simp only [hashJoinSplits, hc] at h
  split_ifs at h
  · cases h
    exact zero_lt_hash
  · unfold getJoinSplitsHash at h
    cases hm : joinSplitsMessage c.txTo with
    | error e =>
      rw [hm] at h
      cases h
    | ok m =>
      rw [hm] at h
      cases h
      exact H.hash_lt m

section
variable {S : List HashInput} (hS : H.CollisionFree S) (hc : c.Sized) (hd : d.Sized)
  (hcc : c.cache = none) (hdc : d.cache = none)
include hS hc hd hcc hdc

theorem hashPrevouts_cover (hmem : prevoutMessage c.txTo ∈ S) (hmem' : prevoutMessage d.txTo ∈ S)
    (h : c.hashPrevouts H nHashType = d.hashPrevouts H nHashType) (ha : ¬ nHashType.anyoneCanPay) :
    c.txTo.vin.map CTxIn.prevout = d.txTo.vin.map CTxIn.prevout := by
  simp only [hashPrevouts, if_neg ha, cached, hcc, hdc] at h
  exact prevouts_eq hc.txTo hd.txTo (hS.inj _ hmem _ hmem' h)

theorem hashSequence_cover (hmem : sequenceMessage c.txTo ∈ S) (hmem' : sequenceMessage d.txTo ∈ S)
    (h : c.hashSequence H nHashType = d.hashSequence H nHashType) (ha : ¬ nHashType.anyoneCanPay)
    (hs : ¬ nHashType.hashSingle) (hn : ¬ nHashType.hashNone) :
    c.txTo.vin.map CTxIn.nSequence = d.txTo.vin.map CTxIn.nSequence := by
  have hall : ¬ (nHashType.anyoneCanPay || nHashType.hashSingle || nHashType.hashNone) := by
    simp only [Bool.or_eq_true, not_or]
    exact ⟨⟨ha, hs⟩, hn⟩
  simp only [hashSequence, if_neg hall, cached, hcc, hdc] at h
  exact sequences_eq hc.txTo hd.txTo (hS.inj _ hmem _ hmem' h)

theorem hashOutputs_cover (hmem : outputsMessage c.txTo.vout ∈ S)
    (hmem' : outputsMessage d.txTo.vout ∈ S)
    (h : c.hashOutputs H nHashType = d.hashOutputs H nHashType)
    (hs : ¬ nHashType.hashSingle) (hn : ¬ nHashType.hashNone) : c.txTo.vout = d.txTo.vout := by
  simp only [hashOutputs, hs, hn, cached, hcc, hdc] at h
  exact outputs_eq hc.txTo.vout.2 hd.txTo.vout.2 (hS.inj _ hmem _ hmem' h)

omit hcc hdc in
/-- The output at the same index; the null hash stands for none. -/
theorem hashOutputs_cover_single (hmem : ∀ out ∈ c.txTo.vout[c.nIn]?, outputsMessage [out] ∈ S)
    (hmem' : ∀ out ∈ d.txTo.vout[d.nIn]?, outputsMessage [out] ∈ S)
    (h : c.hashOutputs H nHashType = d.hashOutputs H nHashType) (hs : nHashType.hashSingle) :
    c.txTo.vout[c.nIn]? = d.txTo.vout[d.nIn]? := by
  simp only [hashOutputs, hs, Bool.not_true, Bool.false_and, Bool.false_eq_true, if_false,
    if_true] at h
  cases ho : c.txTo.vout[c.nIn]? with
  | none =>
    cases hp : d.txTo.vout[d.nIn]? with
    | none => rfl
    | some p =>
      rw [ho, hp] at h
      exact absurd h.symm (hS.ne_zero _ (hmem' p hp))
  | some o =>
    cases hp : d.txTo.vout[d.nIn]? with
    | none =>
      rw [ho, hp] at h
      exact absurd h (hS.ne_zero _ (hmem o ho))
    | some p =>
      rw [ho, hp] at h
      have hone : ∀ {tx : CTransaction} {n : ℕ} {o : CTxOut}, tx.Sized → tx.vout[n]? = some o →
          ∀ o' ∈ [o], o'.Sized := by
        intro tx n o htx ho o' ho'
        rw [mem_singleton.1 ho']
        exact htx.vout.2 o (mem_of_getElem? ho)
      have hlist := outputs_eq (hone hc.txTo ho) (hone hd.txTo hp)
        (hS.inj _ (hmem o ho) _ (hmem' p hp) h)
      rw [singleton_inj.1 hlist]

theorem hashShieldedSpends_cover (hmem : shieldedSpendsMessage c.txTo ∈ S)
    (hmem' : shieldedSpendsMessage d.txTo ∈ S)
    (h : c.hashShieldedSpends H = d.hashShieldedSpends H) :
    c.txTo.vShieldedSpend.map SpendDescription.unsigned
      = d.txTo.vShieldedSpend.map SpendDescription.unsigned := by
  simp only [hashShieldedSpends, cached, hcc, hdc, List.isEmpty_iff] at h
  split_ifs at h with hl hm hm
  · rw [hl, hm]
  · exact absurd h.symm (hS.ne_zero _ hmem')
  · exact absurd h (hS.ne_zero _ hmem)
  · exact shieldedSpends_eq hc.txTo hd.txTo (hS.inj _ hmem _ hmem' h)

theorem hashShieldedOutputs_cover (hmem : shieldedOutputsMessage c.txTo ∈ S)
    (hmem' : shieldedOutputsMessage d.txTo ∈ S)
    (h : c.hashShieldedOutputs H = d.hashShieldedOutputs H) :
    c.txTo.vShieldedOutput = d.txTo.vShieldedOutput := by
  simp only [hashShieldedOutputs, cached, hcc, hdc, List.isEmpty_iff] at h
  split_ifs at h with hl hm hm
  · rw [hl, hm]
  · exact absurd h.symm (hS.ne_zero _ hmem')
  · exact absurd h (hS.ne_zero _ hmem)
  · exact shieldedOutputs_eq hc.txTo hd.txTo (hS.inj _ hmem _ hmem' h)

theorem hashJoinSplits_cover (hmem : ∀ m, joinSplitsMessage c.txTo = .ok m → m ∈ S)
    (hmem' : ∀ m, joinSplitsMessage d.txTo = .ok m → m ∈ S)
    (hheader : c.txTo.header = d.txTo.header) {js : Uint256} (h : c.hashJoinSplits H = .ok js)
    (h' : d.hashJoinSplits H = .ok js) :
    c.txTo.vjoinsplit = d.txTo.vjoinsplit
      ∧ (c.txTo.vjoinsplit ≠ [] → c.txTo.joinSplitPubKey = d.txTo.joinSplitPubKey) := by
  have hcases : ∀ {c : SignatureHashCall}, c.cache = none → c.hashJoinSplits H = .ok js →
      (∀ m, joinSplitsMessage c.txTo = .ok m → m ∈ S) →
      c.txTo.vjoinsplit = [] ∧ js = 0 ∨
        js ≠ 0 ∧ ∃ m ∈ S, joinSplitsMessage c.txTo = .ok m ∧ H.hash m = js := by
    intro c hcc h hmem
    simp only [hashJoinSplits, hcc, List.isEmpty_iff] at h
    split_ifs at h with hnil
    · exact Or.inl ⟨hnil, (Except.ok.inj h).symm⟩
    · unfold getJoinSplitsHash at h
      cases hm : joinSplitsMessage c.txTo with
      | error e =>
        rw [hm] at h
        cases h
      | ok m =>
        rw [hm] at h
        cases h
        exact Or.inr ⟨hS.ne_zero m (hmem m hm), m, hmem m hm, rfl, rfl⟩
  rcases hcases hcc h hmem with ⟨hnil, hzero⟩ | ⟨hne, m, hmS, hm, hjs⟩
  · rcases hcases hdc h' hmem' with ⟨hnil', -⟩ | ⟨hne', -⟩
    · exact ⟨hnil.trans hnil'.symm, fun hne => absurd hnil hne⟩
    · exact absurd hzero hne'
  · rcases hcases hdc h' hmem' with ⟨-, hzero'⟩ | ⟨-, m', hmS', hm', hjs'⟩
    · exact absurd hzero' hne
    · obtain rfl := hS.inj m hmS m' hmS' (hjs.trans hjs'.symm)
      obtain ⟨hlist, hkey⟩ := joinSplits_eq hc.txTo hd.txTo hheader hm hm'
      exact ⟨hlist, fun _ => hkey⟩

end

theorem overwinterMessage_eq_ok {sapling : Bool} {m : HashInput}
    (h : c.overwinterMessage H nHashType consensusBranchId sapling = .ok m) :
    ∃ js input, c.hashJoinSplits H = .ok js ∧ c.inputBytes = .ok input
      ∧ m = .blake2b (personalization consensusBranchId)
        (c.overwinterBytes H nHashType sapling js input) := by
  unfold overwinterMessage at h
  cases hjs : c.hashJoinSplits H with
  | error e =>
    rw [hjs] at h
    cases h
  | ok js =>
    cases hinput : c.inputBytes with
    | error e =>
      rw [hjs, hinput] at h
      cases h
    | ok input =>
      rw [hjs, hinput] at h
      exact ⟨js, input, rfl, rfl, (Except.ok.inj h).symm⟩

/-- Equal messages of two overwintered transactions. -/
theorem overwinter_cover {S : List HashInput} (hS : H.CollisionFree S) (hc : c.Sized) (hd : d.Sized)
    (hcc : c.cache = none) (hdc : d.cache = none)
    (hcS : c.queries H nHashType consensusBranchId ⊆ S)
    (hdS : d.queries H nHashType consensusBranchId ⊆ S) {sapling : Bool} {m : HashInput}
    (hsapling : signatureHashVersion c.txTo = .sapling → sapling)
    (h : c.overwinterMessage H nHashType consensusBranchId sapling = .ok m)
    (h' : d.overwinterMessage H nHashType consensusBranchId sapling = .ok m) :
    Covered nHashType c d := by
  obtain ⟨js, input, hjs, hinput, hm⟩ := overwinterMessage_eq_ok h
  obtain ⟨js', input', hjs', hinput', hm'⟩ := overwinterMessage_eq_ok h'
  obtain ⟨-, heq⟩ := HashInput.blake2b.inj (hm.symm.trans hm')
  obtain ⟨hp, hq, ho, hs, hz⟩ := hash_fields_lt H nHashType hcc
  obtain ⟨hp', hq', ho', hs', hz'⟩ := hash_fields_lt H nHashType hdc
  have huint : Separates (leBytes 4) (· < 256 ^ 4) := (codec_uint 4).separates
  have hhash : Separates uint256Bytes (· < 2 ^ 256) := codec_uint256.separates
  have hint : Separates (intBytes 8) (IntRange 8) := (codec_int (by omega)).separates
  unfold overwinterBytes at heq
  obtain ⟨hheader, heq⟩ := huint (header_lt _) (header_lt _) heq
  obtain ⟨hgroup, heq⟩ := huint hc.txTo.nVersionGroupId hd.txTo.nVersionGroupId heq
  obtain ⟨hprevouts, heq⟩ := hhash hp hp' heq
  obtain ⟨hsequence, heq⟩ := hhash hq hq' heq
  obtain ⟨houtputs, heq⟩ := hhash ho ho' heq
  obtain ⟨hjoinSplits, heq⟩ := hhash (hashJoinSplits_lt hcc hjs) (hashJoinSplits_lt hdc hjs') heq
  obtain ⟨hspends, heq⟩ := Separates.ite hhash (fun _ => hs) (fun _ => hs') heq
  obtain ⟨hshielded, heq⟩ := Separates.ite hhash (fun _ => hz) (fun _ => hz') heq
  obtain ⟨hlock, heq⟩ := huint hc.txTo.nLockTime hd.txTo.nLockTime heq
  obtain ⟨hexpiry, heq⟩ := huint hc.txTo.nExpiryHeight hd.txTo.nExpiryHeight heq
  obtain ⟨hbalance, heq⟩ := Separates.ite hint (fun _ => hc.txTo.valueBalance)
    (fun _ => hd.txTo.valueBalance) heq
  obtain rfl := append_cancel_left heq
  subst hjoinSplits
  exact {
    header := hheader
    nVersionGroupId := fun _ => hgroup
    nLockTime := hlock
    nExpiryHeight := fun _ => hexpiry
    valueBalance := fun hv => hbalance (hsapling hv)
    vShieldedSpend := fun hv => hashShieldedSpends_cover hS hc hd hcc hdc
      (hcS (by simp [queries])) (hdS (by simp [queries])) (hspends (hsapling hv))
    vShieldedOutput := fun hv => hashShieldedOutputs_cover hS hc hd hcc hdc
      (hcS (by simp [queries])) (hdS (by simp [queries])) (hshielded (hsapling hv))
    vjoinsplit := fun _ => hashJoinSplits_cover hS hc hd hcc hdc
      (fun m hm => hcS (by simp [queries, hm, Except.toOption]))
      (fun m hm => hdS (by simp [queries, hm, Except.toOption])) hheader hjs hjs'
    prevouts := hashPrevouts_cover hS hc hd hcc hdc
      (hcS (by simp [queries])) (hdS (by simp [queries])) hprevouts
    sequences := hashSequence_cover hS hc hd hcc hdc
      (hcS (by simp [queries])) (hdS (by simp [queries])) hsequence
    outputs := hashOutputs_cover hS hc hd hcc hdc
      (hcS (by simp [queries])) (hdS (by simp [queries])) houtputs
    output := hashOutputs_cover_single hS hc hd
      (fun out hout => hcS (by simp [queries, Option.mem_def.1 hout]))
      (fun out hout => hdS (by simp [queries, Option.mem_def.1 hout])) houtputs
    input := fun hne _ => by
      obtain ⟨hne', hsigned, -, -⟩ := input_cover hc hd hinput hinput' hne
      exact ⟨hne', hsigned⟩
    scriptCode := fun hne _ => (input_cover hc hd hinput hinput' hne).2.2.1
    amount := fun hne _ => (input_cover hc hd hinput hinput' hne).2.2.2 }

end SignatureHashCall

end Wire
end Komodo
