/-
# Equal messages of transactions that are not overwintered

The format before Overwinter writes the transaction with the other inputs blanked
(`sprout_cover`).  The amount is not written, and the input that is signed differs from the others
by its script code only.
-/

import Komodo.Script.SignaturePieces

namespace Komodo
namespace Wire

open Streams Unserialize List Option

namespace SignatureHashCall

variable {H : Hasher} {nHashType : HashType} {consensusBranchId : ℕ} {c d : SignatureHashCall}

theorem getElem?_mapM_range {α : Type} {f : ℕ → Option α} {n : ℕ} {l : List α}
    (h : (range n).mapM f = some l) : l.length = n ∧ ∀ k < n, l[k]? = f k := by
  induction n generalizing l with
  | zero =>
    cases h
    exact ⟨rfl, nofun⟩
  | succ n ih =>
    rw [range_succ, mapM_append] at h
    obtain ⟨init, hinit, h⟩ := bind_eq_some_iff.1 h
    obtain ⟨last, hlast, h⟩ := bind_eq_some_iff.1 h
    obtain ⟨hlen, hget⟩ := ih hinit
    obtain ⟨a, ha, rfl⟩ : ∃ a, f n = some a ∧ last = [a] := by
      cases ha : f n with
      | none =>
        rw [mapM_cons, ha] at hlast
        cases hlast
      | some a =>
        rw [mapM_cons, ha] at hlast
        exact ⟨a, rfl, (some.inj hlast).symm⟩
    cases h
    refine ⟨by rw [length_append, hlen]; rfl, fun k hk => ?_⟩
    rcases Nat.lt_succ_iff_lt_or_eq.1 hk with hlt | rfl
    · rw [getElem?_append_left (hlen ▸ hlt), hget k hlt]
    · rw [← hlen, getElem?_append_right (le_refl _), Nat.sub_self, hlen, ha]
      rfl

theorem sproutMessage_eq_ok {m : HashInput} (h : c.sproutMessage nHashType = .ok m) :
    (nHashType.hashSingle → c.nIn < c.txTo.vout.length) ∧ ∃ inputs outputs js,
      (range (c.nInputs nHashType)).mapM (c.serializedInput nHashType) = some inputs
      ∧ (range (c.nOutputs nHashType)).mapM (c.serializedOutput nHashType) = some outputs
      ∧ c.joinSplitBytes = .ok js ∧ m = .sha256d (c.sproutBytes nHashType inputs outputs js) := by
  unfold sproutMessage at h
  split_ifs at h with hsingle
  split at h
  · rename_i inputs outputs hinputs houtputs
    cases hjs : c.joinSplitBytes with
    | error e =>
      rw [hjs] at h
      cases h
    | ok js =>
      rw [hjs] at h
      refine ⟨fun hs => ?_, inputs, outputs, js, hinputs, houtputs, rfl, (Except.ok.inj h).symm⟩
      exact Nat.lt_of_not_le fun hle => hsingle ⟨hs, hle⟩
  · cases h

theorem getElem?_inputs (hc : c.Sized) {inputs : List CTxIn}
    (h : (range (c.nInputs nHashType)).mapM (c.serializedInput nHashType) = some inputs)
    (k : ℕ) : inputs[if nHashType.anyoneCanPay then 0 else k]? = c.serializedInput nHashType k := by
  obtain ⟨hlen, hget⟩ := getElem?_mapM_range h
  unfold nInputs at hlen hget
  split_ifs at hlen hget ⊢ with ha
  · rw [hget 0 (by omega)]
    simp only [serializedInput, ha, if_true]
  · rw [Nat.mod_eq_of_lt hc.txTo.vin.1] at hlen hget
    rcases Nat.lt_or_ge k c.txTo.vin.length with hlt | hge
    · exact hget k hlt
    · rw [getElem?_eq_none (hlen ▸ hge), serializedInput]
      simp only [ha, Bool.false_eq_true, if_false, getElem?_eq_none hge, map_none]

theorem serializedInput_sized (hc : c.Sized) {k : ℕ} {i : CTxIn}
    (h : c.serializedInput nHashType k = some i) : i.Sized := by
  obtain ⟨j, hj, rfl⟩ := map_eq_some_iff.1 h
  obtain ⟨hprevout, -, hseq⟩ := hc.txTo.vin.2 j (mem_of_getElem? hj)
  have hscript : ∀ p [Decidable p], (if p then [] else c.scriptCode).length < 2 ^ 64 := by
    intro p _
    split_ifs
    exacts [by norm_num, hc.scriptCode]
  have hseq : ∀ p [Decidable p], (if p then 0 else j.nSequence) < 256 ^ 4 := by
    intro p _
    split_ifs
    exacts [by norm_num, hseq]
  exact ⟨hprevout, hscript _, hseq _⟩

theorem inputs_sized (hc : c.Sized) {inputs : List CTxIn}
    (h : (range (c.nInputs nHashType)).mapM (c.serializedInput nHashType) = some inputs) :
    inputs.length < 2 ^ 64 ∧ ∀ i ∈ inputs, i.Sized := by
  obtain ⟨hlen, hget⟩ := getElem?_mapM_range h
  refine ⟨?_, fun i hi => ?_⟩
  · rw [hlen, nInputs]
    split_ifs
    · norm_num
    · exact (Nat.mod_lt _ (by norm_num)).trans (by norm_num)
  · obtain ⟨k, hk, rfl⟩ := mem_iff_getElem.1 hi
    exact serializedInput_sized hc ((hget k (hlen ▸ hk)).symm.trans (getElem?_eq_getElem hk))

theorem outputs_sized (hc : c.Sized) {outputs : List CTxOut}
    (h : (range (c.nOutputs nHashType)).mapM (c.serializedOutput nHashType) = some outputs) :
    outputs.length < 2 ^ 64 ∧ ∀ o ∈ outputs, o.Sized := by
  obtain ⟨hlen, hget⟩ := getElem?_mapM_range h
  refine ⟨?_, fun o ho => ?_⟩
  · rw [hlen, nOutputs]
    split_ifs
    · norm_num
    · exact (Nat.mod_lt _ (by norm_num)).trans (by norm_num)
    · exact (Nat.mod_lt _ (by norm_num)).trans (by norm_num)
  · obtain ⟨k, hk, rfl⟩ := mem_iff_getElem.1 ho
    have hout := (hget k (hlen ▸ hk)).symm.trans (getElem?_eq_getElem hk)
    unfold serializedOutput at hout
    split_ifs at hout
    · rw [← some.inj hout]
      exact ⟨⟨by norm_num [CTxOut.null], by norm_num [CTxOut.null]⟩, by norm_num [CTxOut.null]⟩
    · exact hc.txTo.vout.2 _ (mem_of_getElem? hout)

theorem hashNone_of_hashSingle (h : nHashType.hashSingle) : ¬ nHashType.hashNone := by
  simp only [HashType.hashSingle, HashType.hashNone, beq_iff_eq] at h ⊢
  rw [h]
  decide

/-- The JoinSplits that are written before the hash type. -/
theorem joinSplitBytes_cover (hc : c.Sized) (hd : d.Sized) (hversion : c.txTo.nVersion = d.txTo.nVersion)
    {js : Bytes} (h : c.joinSplitBytes = .ok js) (h' : d.joinSplitBytes = .ok js)
    (hle : 2 ≤ c.txTo.nVersion) :
    c.txTo.vjoinsplit = d.txTo.vjoinsplit
      ∧ (c.txTo.vjoinsplit ≠ [] → c.txTo.joinSplitPubKey = d.txTo.joinSplitPubKey) := by
  have hwritten : ∀ {c : SignatureHashCall}, c.Sized → 2 ≤ c.txTo.nVersion →
      c.joinSplitBytes = .ok js → (∀ e ∈ c.txTo.vjoinsplit, e.Fits 0) ∧
      js = compactSizeBytes c.txTo.vjoinsplit.length
        ++ (c.txTo.vjoinsplit.flatMap (fun e => (JSDescription.serialize 0 e).getD [])
        ++ if c.txTo.vjoinsplit.isEmpty then []
          else uint256Bytes c.txTo.joinSplitPubKey ++ (ByteArr.zero 64).1) := by
    intro c hc hle h
    unfold joinSplitBytes at h
    rw [if_pos hle] at h
    split at h
    · rename_i bss hbss
      obtain ⟨hflat, hfits⟩ := joinSplits_written hbss hc.txTo.vjoinsplit.2
      rw [← hflat]
      exact ⟨hfits, (Except.ok.inj h).symm⟩
    · cases h
  obtain ⟨hfits, hjs⟩ := hwritten hc hle h
  obtain ⟨hfits', hjs'⟩ := hwritten hd (hversion ▸ hle) h'
  have hsmall : ∀ {n : ℕ}, n < 2 ^ 32 → n < 2 ^ 64 := fun hn => hn.trans (by norm_num)
  obtain ⟨hlen, heq⟩ := separates_size (hsmall hc.txTo.vjoinsplit.1) (hsmall hd.txTo.vjoinsplit.1)
    (hjs.symm.trans hjs')
  obtain ⟨hlist, heq⟩ := Separates.flatMap_of_length (JSDescription.codec 0).separates hfits hfits'
    hlen heq
  refine ⟨hlist, fun hne => ?_⟩
  have hempty : c.txTo.vjoinsplit.isEmpty = false := by simpa using hne
  rw [← hlist, hempty] at heq
  exact (codec_uint256.separates hc.txTo.joinSplitPubKey hd.txTo.joinSplitPubKey heq).1

section
variable (hinputs : ∀ k, c.serializedInput nHashType k = d.serializedInput nHashType k)
include hinputs

theorem serializedInput_prevouts (ha : ¬ nHashType.anyoneCanPay) :
    c.txTo.vin.map CTxIn.prevout = d.txTo.vin.map CTxIn.prevout := by
  refine ext_getElem? fun k => ?_
  have hk := congrArg (Option.map CTxIn.prevout) (hinputs k)
  simpa only [serializedInput, if_neg ha, Option.map_map, Function.comp_def, getElem?_map] using hk

theorem serializedInput_sequences (ha : ¬ nHashType.anyoneCanPay) (hs : ¬ nHashType.hashSingle)
    (hn : ¬ nHashType.hashNone) :
    c.txTo.vin.map CTxIn.nSequence = d.txTo.vin.map CTxIn.nSequence := by
  refine ext_getElem? fun k => ?_
  have hk := congrArg (Option.map CTxIn.nSequence) (hinputs k)
  simpa [serializedInput, ha, hs, hn, Function.comp_def] using hk

omit hinputs in
theorem map_serializedInput_self (nHashType : HashType) (c : SignatureHashCall) {k : ℕ}
    (h : nHashType.anyoneCanPay ∨ k = c.nIn) :
    (c.serializedInput nHashType k).map (fun i => (i.scriptSig, i.prevout, i.nSequence))
      = c.signedInput.map (fun i => (c.scriptCode, i)) := by
  have hk : (if nHashType.anyoneCanPay then c.nIn else k) = c.nIn := by
    split_ifs with ha
    · rfl
    · exact h.resolve_left ha
  simp [serializedInput, signedInput, hk, Function.comp_def]

omit hinputs in
theorem scriptSig_of_ne (ha : ¬ nHashType.anyoneCanPay) {k : ℕ} (hk : k ≠ c.nIn) {i : CTxIn}
    (h : c.serializedInput nHashType k = some i) : i.scriptSig = [] := by
  simp only [serializedInput, if_neg ha] at h
  obtain ⟨j, -, rfl⟩ := map_eq_some_iff.1 h
  exact if_pos hk

theorem signed_eq (h : nHashType.anyoneCanPay ∨ c.nIn = d.nIn) :
    c.signedInput.map (fun i => (c.scriptCode, i)) = d.signedInput.map (fun i => (d.scriptCode, i)) := by
  rw [← map_serializedInput_self nHashType c (Or.inr rfl), hinputs,
    map_serializedInput_self nHashType d h]

theorem nIn_eq (ha : ¬ nHashType.anyoneCanPay) (hin : c.signedInput.isSome)
    (hne : c.scriptCode ≠ []) : c.nIn = d.nIn := by
  by_contra hother
  obtain ⟨signed, hsigned⟩ := isSome_iff_exists.1 hin
  have hself := map_serializedInput_self nHashType c (Or.inr rfl)
  rw [hsigned, map_some] at hself
  obtain ⟨i, hi, heq⟩ := map_eq_some_iff.1 hself
  have hscript := scriptSig_of_ne ha hother ((hinputs _).symm.trans hi)
  exact hne ((congrArg Prod.fst heq).symm.trans hscript)

theorem scriptCode_eq (hin : c.signedInput.isSome) (hin' : d.signedInput.isSome) :
    c.scriptCode = d.scriptCode := by
  by_cases h : nHashType.anyoneCanPay ∨ c.nIn = d.nIn
  · have hsigned := signed_eq hinputs h
    obtain ⟨i, hi⟩ := isSome_iff_exists.1 hin
    obtain ⟨j, hj⟩ := isSome_iff_exists.1 hin'
    rw [hi, hj] at hsigned
    exact congrArg Prod.fst (some.inj hsigned)
  · obtain ⟨ha, hother⟩ := not_or.1 h
    have hempty : c.scriptCode = [] := by
      by_contra hne
      exact hother (nIn_eq hinputs ha hin hne)
    have hempty' : d.scriptCode = [] := by
      by_contra hne
      exact hother (nIn_eq (fun k => (hinputs k).symm) ha hin' hne).symm
    rw [hempty, hempty']

end

/-- The input that is signed is there. -/
def HasInput (c : SignatureHashCall) : Prop := c.nIn < c.txTo.vin.length ∨ c.nIn = NOT_AN_INPUT

theorem HasInput.isSome (h : c.HasInput) (hne : c.nIn ≠ NOT_AN_INPUT) : c.signedInput.isSome := by
  rw [signedInput, getElem?_eq_getElem (h.resolve_right hne)]
  rfl

theorem ne_of_isSome (hc : c.Sized) (h : c.signedInput.isSome) : c.nIn ≠ NOT_AN_INPUT := by
  rw [signedInput, isSome_map] at h
  obtain ⟨i, hi⟩ := isSome_iff_exists.1 h
  obtain ⟨hlt, -⟩ := List.getElem?_eq_some_iff.1 hi
  have hsmall := hc.txTo.vin.1
  unfold NOT_AN_INPUT
  omega

theorem outputs_eq_vout (hc : c.Sized) (hs : ¬ nHashType.hashSingle) (hn : ¬ nHashType.hashNone)
    {outputs : List CTxOut}
    (h : (range (c.nOutputs nHashType)).mapM (c.serializedOutput nHashType) = some outputs) :
    outputs = c.txTo.vout := by
  obtain ⟨hlen, hget⟩ := getElem?_mapM_range h
  simp only [nOutputs, if_neg hn, if_neg hs, Nat.mod_eq_of_lt hc.txTo.vout.1] at hlen hget
  refine ext_getElem? fun k => ?_
  rcases Nat.lt_or_ge k c.txTo.vout.length with hlt | hge
  · rw [hget k hlt, serializedOutput, if_neg fun h => hs h.1]
  · rw [getElem?_eq_none (hlen ▸ hge), getElem?_eq_none hge]

theorem outputs_of_hashSingle (hc : c.Sized) (hs : nHashType.hashSingle)
    (hlt : c.nIn < c.txTo.vout.length) {outputs : List CTxOut}
    (h : (range (c.nOutputs nHashType)).mapM (c.serializedOutput nHashType) = some outputs) :
    outputs.length = c.nIn + 1 ∧ outputs[c.nIn]? = c.txTo.vout[c.nIn]? := by
  obtain ⟨hlen, hget⟩ := getElem?_mapM_range h
  have hsmall : c.nIn + 1 < 2 ^ 32 := by
    have hvout := hc.txTo.vout.1
    omega
  simp only [nOutputs, if_neg (hashNone_of_hashSingle hs), if_pos hs, Nat.mod_eq_of_lt hsmall] at hlen hget
  refine ⟨hlen, ?_⟩
  rw [hget _ (Nat.lt_succ_self _), serializedOutput, if_neg fun h => h.2 rfl]

/-- Equal messages of two transactions that are not overwintered. -/
theorem sprout_cover (hc : c.Sized) (hd : d.Sized) (hnot : ¬ c.txTo.fOverwintered)
    (hnot' : ¬ d.txTo.fOverwintered) (hin : c.HasInput) (hin' : d.HasInput) {m : HashInput}
    (h : c.sproutMessage nHashType = .ok m) (h' : d.sproutMessage nHashType = .ok m) :
    Covered nHashType c d := by
  obtain ⟨hsingle, inputs, outputs, js, hinputs, houtputs, hjs, hm⟩ := sproutMessage_eq_ok h
  obtain ⟨hsingle', inputs', outputs', js', hinputs', houtputs', hjs', hm'⟩ := sproutMessage_eq_ok h'
  have hheader : ∀ {c : SignatureHashCall}, ¬ c.txTo.fOverwintered →
      c.txTo.header = (c.txTo.nVersion % 2 ^ 32).toNat := by
    intro c hnot
    rw [CMutableTransaction.header, getHeader, if_neg hnot]
  have heq := HashInput.sha256d.inj (hm.symm.trans hm')
  unfold sproutBytes at heq
  obtain ⟨hversion, heq⟩ :=
    (codec_int (show 0 < 4 by omega)).separates hc.txTo.nVersion hd.txTo.nVersion heq
  obtain ⟨hin₁, heq⟩ := separates_list separates_txIn (inputs_sized hc hinputs)
    (inputs_sized hd hinputs') heq
  obtain ⟨hout₁, heq⟩ := separates_list separates_txOut (outputs_sized hc houtputs)
    (outputs_sized hd houtputs') heq
  obtain ⟨hlock, heq⟩ := (codec_uint 4).separates hc.txTo.nLockTime hd.txTo.nLockTime heq
  obtain rfl := append_cancel_right heq
  have hsame : ∀ k, c.serializedInput nHashType k = d.serializedInput nHashType k := by
    intro k
    rw [← getElem?_inputs hc hinputs k, ← getElem?_inputs hd hinputs' k, hin₁]
  rw [← hin₁] at hinputs'
  rw [← hout₁] at houtputs'
  have hindex : nHashType.hashSingle → c.nIn = d.nIn := by
    intro hs
    have hlen := (outputs_of_hashSingle hc hs (hsingle hs) houtputs).1
    have hlen' := (outputs_of_hashSingle hd hs (hsingle' hs) houtputs').1
    omega
  have hnosapling : ∀ {p : Prop}, signatureHashVersion c.txTo = .sapling → p := by
    intro p hv
    rw [signatureHashVersion, if_neg hnot] at hv
    cases hv
  exact {
    header := by rw [hheader hnot, hheader hnot', hversion]
    nVersionGroupId := fun hover => absurd hover hnot
    nLockTime := hlock
    nExpiryHeight := fun hover => absurd hover hnot
    valueBalance := hnosapling
    vShieldedSpend := hnosapling
    vShieldedOutput := hnosapling
    vjoinsplit := fun hjoin =>
      joinSplitBytes_cover hc hd hversion hjs hjs' (hjoin.resolve_left hnot)
    prevouts := serializedInput_prevouts hsame
    sequences := serializedInput_sequences hsame
    outputs := fun hs hn =>
      (outputs_eq_vout hc hs hn houtputs).symm.trans (outputs_eq_vout hd hs hn houtputs')
    output := fun hs => by
      rw [← (outputs_of_hashSingle hc hs (hsingle hs) houtputs).2, hindex hs,
        (outputs_of_hashSingle hd hs (hsingle' hs) houtputs').2]
    input := fun hne htells => by
      have hat : nHashType.anyoneCanPay ∨ c.nIn = d.nIn := by
        by_cases ha : nHashType.anyoneCanPay
        · exact Or.inl ha
        · rcases htells.resolve_left hnot with hscript | hacp | hs
          · exact Or.inr (nIn_eq hsame ha (hin.isSome hne) hscript)
          · exact Or.inl hacp
          · exact Or.inr (hindex hs)
      have hsigned := congrArg (Option.map Prod.snd) (signed_eq hsame hat)
      simp only [Option.map_map, Function.comp_def, Option.map_id'] at hsigned
      exact ⟨ne_of_isSome hd (hsigned ▸ hin.isSome hne), hsigned⟩
    scriptCode := fun hne hne' => scriptCode_eq hsame (hin.isSome hne) (hin'.isSome hne')
    amount := fun _ hover => absurd hover hnot }

end SignatureHashCall

end Wire
end Komodo
