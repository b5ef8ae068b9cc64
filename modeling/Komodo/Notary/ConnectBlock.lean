/-
# The notarizations of the blocks that are connected

`komodo_connectblock` of `src/src/komodo.cpp` with `fJustCheck` false, as far as it calls
`komodo_voutupdate`, and the helpers `gettxout_scriptPubKey` and `komodo_notarycmp`.

The record `last` holds the values of the next checkpoint.  A notarization without a MoM overwrites
its height and its hashes and leaves the MoM of an earlier one there (`recordNotarisation_checkpoint`),
so that the checkpoint that is added carries a MoM of another notarization.

A read behind the end of a script ends the run.
-/

import Komodo.Lib.Completes
import Komodo.Notary.OpReturnReads

namespace Komodo
namespace Notary

open List Prod

open Runs (bind_eq_ok)
open StateFile (NotarizedEvent int32Of)

/-- A block, and what the node has when it is connected. -/
structure ConnectedBlock where
  node : Node
  height : ℤ
  vtx : List CTransaction
  /-- The chain is banned or in a gap between its eras. -/
  eraGap : Bool := false
  /-- `ASSETCHAINS_NOTARY_PAY[0] != 0`. -/
  notaryPay : Bool := false
  /-- The public keys of `komodo_notaries`. -/
  notaries : List Bytes := []
  /-- The hash of the first of them. -/
  rmd160 : Bytes := []
  getTransaction : Uint256 → Option CTransaction := fun _ => none
  /-- `chainActive.Tip()->GetBlockTime()`. -/
  tipTime : ℕ := 0

variable (block : ConnectedBlock)

/-- `gettxout_scriptPubKey`, of 35 bytes at most. -/
def ConnectedBlock.gettxoutScriptPubKey (prevout : COutPoint) : Option CScript :=
  (block.getTransaction prevout.hash).bind fun tx =>
    (tx.vout[prevout.n]?).map fun out => out.scriptPubKey.take 35

/-- `komodo_notarycmp`: the number of the notary. -/
def ConnectedBlock.notarycmp (scriptPubKey : CScript) : Option ℕ :=
  if scriptPubKey.length = 25 ∧ (scriptPubKey.drop 3).take 20 = block.rmd160 then some 0
  else if scriptPubKey.length = 35 then
    block.notaries.findIdx? fun pubkey => (scriptPubKey.drop 1).take 33 = pubkey
  else none

/-- The notaries that have signed a transaction: those whose outputs it spends. -/
def ConnectedBlock.signedmask (i : ℕ) (tx : CTransaction) : UInt64 :=
  let start : UInt64 := if block.height < 91400 then 1 else 0
  (tx.vin.drop (if i = 0 then 1 else 0)).foldl (fun mask txin =>
    match (block.gettxoutScriptPubKey txin.prevout).bind block.notarycmp with
    | some k => mask ||| ((1 : UInt64) <<< UInt64.ofNat k)
    | none => mask) start

/-- Whether as many notaries have signed as are needed. -/
def ConnectedBlock.notarized (signedmask : UInt64) : Bool :=
  let numvalid := bitweight signedmask
  ((block.height < 90000 ∨ signedmask &&& 1 ≠ 0) ∧ KOMODO_MINRATIFY block.height ≤ numvalid)
    ∨ (KOMODO_MINRATIFY block.height ≤ numvalid ∧ ¬ block.node.isKMD)
    ∨ block.notaries.length / 5 < numvalid

/-- A call of `komodo_voutupdate` that has come to an end. -/
structure VoutCall where
  node : Node
  args : VoutArgs
  before : VoutState
  after : VoutState
  pairs : ℕ
  length_args : 4 ≤ args.scriptbuf.length ∧ args.scriptbuf.length ≤ 10001
  returned : voutupdate node args before = .ok (after, pairs)

/-- The calls of a part of a run, and the state after them, if they all return. -/
structure Calls (σ : Type) where
  calls : List VoutCall
  state : Option σ

/-- Two parts of a run, the second when the first has come to its end. -/
def Calls.andThen {σ τ : Type} (first : Calls σ) (next : σ → Calls τ) : Calls τ :=
  match first.state with
  | none => { calls := first.calls, state := none }
  | some s => { calls := first.calls ++ (next s).calls, state := (next s).state }

/-- The arguments for an output. -/
def ConnectedBlock.args (i : ℕ) (signedmask : UInt64) (j : ℕ) (out : CTxOut) : VoutArgs where
  scriptbuf := out.scriptPubKey
  height := block.height
  i := i
  j := j
  notarized := block.notarized signedmask
  signedmask := signedmask
  timestamp := block.tipTime

/-- One output, if its script is neither too short nor too long. -/
def ConnectedBlock.output (i : ℕ) (signedmask : UInt64) (j : ℕ) (out : CTxOut) (s : VoutState) :
    Calls VoutState :=
  let args := block.args i signedmask j out
  if hlen : 4 ≤ args.scriptbuf.length ∧ args.scriptbuf.length ≤ 10001 then
    match h : voutupdate block.node args s with
    | .ok (after, pairs) =>
      { calls := [{ node := block.node, args, before := s, after, pairs, length_args := hlen
                    returned := h }]
        state := some after }
    | .error _ => { calls := [], state := none }
  else { calls := [], state := some s }

/-- The outputs of a transaction, from number `j` on. -/
def ConnectedBlock.outputs (i : ℕ) (signedmask : UInt64) :
    (j : ℕ) → List CTxOut → VoutState → Calls VoutState
  | _, [], s => { calls := [], state := some s }
  | j, out :: vout, s =>
    (block.output i signedmask j out s).andThen (ConnectedBlock.outputs i signedmask (j + 1) vout)

/-- The transactions of a block, from number `i` on.  Where notaries are paid only the first two
count. -/
def ConnectedBlock.transactions : (i : ℕ) → List CTransaction → KomodoState → Calls KomodoState
  | _, [], sp => { calls := [], state := some sp }
  | i, tx :: vtx, sp =>
    if block.eraGap ∨ (1 < i ∧ block.notaryPay) then { calls := [], state := some sp }
    else
      (block.outputs i (block.signedmask i tx) 0 tx.vout { sp }).andThen fun s =>
        ConnectedBlock.transactions (i + 1) vtx s.sp

/-- `komodo_connectblock`, block after block. -/
def connectBlocks : List ConnectedBlock → KomodoState → Calls KomodoState
  | [], sp => { calls := [], state := some sp }
  | block :: blocks, sp =>
    (block.transactions 0 block.vtx sp).andThen (connectBlocks blocks)

/-! ### The notarization in a script -/

/-- Where the MoM of a notarization of this chain stands. -/
def momOffset (script : Bytes) (opoffset : ℕ) : ℕ :=
  opoffset + 68 + ((nameAt script (opoffset + 68)).length + 1)

/-- The MoM and its depth, as they stand there. -/
def momAt (script : Bytes) (opoffset : ℕ) : Uint256 × ℤ :=
  (fromLE ((script.drop (momOffset script opoffset)).take 32),
    int32Of ((script.drop (momOffset script opoffset + 32)).take 4))

/-- A MoM that is there, is not zero, and is neither of depth zero nor deeper than the height that is
notarized. -/
def ValidMoM (script : Bytes) (opoffset opretlen : ℕ) : Prop :=
  momOffset script opoffset + 36 ≤ opoffset + opretlen ∧ (momAt script opoffset).1 ≠ 0
    ∧ 0 < (momAt script opoffset).2 % 65536
    ∧ (momAt script opoffset).2 % 65536 ≤ (notarisationAt script true opoffset).notarizedheight

instance (script : Bytes) (opoffset opretlen : ℕ) : Decidable (ValidMoM script opoffset opretlen) :=
  inferInstanceAs (Decidable (_ ∧ _ ∧ _ ∧ _))

/-- The MoM and its depth in a script, or zero for both. -/
def decodedMoM (script : Bytes) : Uint256 × ℤ :=
  match dataAt script with
  | none => (0, 0)
  | some (opoffset, opretlen) =>
    if ValidMoM script opoffset opretlen then momAt script opoffset else (0, 0)

/-- A notarization of this chain that counts, in the second output. -/
structure Notarises (node : Node) (a : VoutArgs) (opoffset opretlen : ℕ) : Prop where
  opReturn : a.scriptbuf.head? = some 0x6a
  data : dataAt a.scriptbuf = some (opoffset, opretlen)
  vout : a.j = 1
  long : 68 ≤ opretlen
  matched : chainNameAt node.chainName a.scriptbuf (opoffset + 68) = true
  name : nameAt a.scriptbuf (opoffset + 68) ≠ []
  counts : Counts node a true (nameAt a.scriptbuf (opoffset + 68)) opoffset

variable {node : Node} {a : VoutArgs} {s s' : VoutState} {opoffset opretlen pairs : ℕ} {m : MoMRecord}

theorem payToPubkey_sp (h : payToPubkey node a s = .ok s') : s'.sp = s.sp := by
  unfold payToPubkey at h
  by_cases hlen : a.scriptbuf.length = 35
  · rw [if_pos hlen, byteAt_ok (by omega), byteAt_ok (by omega), bytesAt_ok (by omega), ok_bind,
      ok_bind, ok_bind] at h
    generalize (a.scriptbuf.drop 1).take 33 = pubkey33 at h
    by_cases hpay : a.scriptbuf[0] = 33 ∧ a.scriptbuf[34] = 0xac
    · rw [if_pos hpay] at h
      by_cases hall : pubkey33 = crypto777
      · rw [if_pos hall] at h
        cases h
        rfl
      · rw [if_neg hall] at h
        cases hnid : node.chosennotary a.height pubkey33 a.timestamp with
        | none =>
          rw [hnid] at h
          cases h
          rfl
        | some nid =>
          rw [hnid] at h
          simp only at h
          split_ifs at h <;> (obtain rfl := Except.ok.inj h; rfl)
    · rw [if_neg hpay] at h
      cases h
      rfl
  · rw [if_neg hlen] at h
    cases h
    rfl

theorem ratification_sp (h : ratification node a s opoffset opretlen = .ok s') : s'.sp = s.sp := by
  unfold ratification at h
  rw [checkChainNameInScript_eq, ok_bind] at h
  by_cases hlong : (68 : ℤ) ≤ opretlen
    ∧ chainNameAt node.chainName a.scriptbuf (opoffset + 68) = true
  · rw [if_pos hlong] at h
    obtain ⟨b, -, hb⟩ := bind_eq_ok.1 h
    split_ifs at hb <;> (obtain rfl := Except.ok.inj hb; rfl)
  · rw [if_neg hlong] at h
    cases h
    rfl

/-- What a notarization does to the state of the chain. -/
theorem notarisation_sp (matched : Bool) {name : Bytes}
    (hlong : (if matched then 68 else 36) ≤ opretlen)
    (hdata : opoffset + opretlen ≤ a.scriptbuf.length)
    (h : notarisation node a s matched name opoffset opretlen = .ok (s', pairs)) :
    (s'.sp = s.sp ∧ ¬ (matched = true ∧ Counts node a matched name opoffset))
      ∨ ∃ m, matched = true ∧ Counts node a matched name opoffset
        ∧ readMoM node a name (notarisationAt a.scriptbuf matched opoffset).notarizedheight opoffset
          opretlen (opoffset + (if matched then 68 else 36) + (name.length + 1)) = .ok m
        ∧ s'.sp = recordNotarisation node a s.sp matched
          (notarisationAt a.scriptbuf matched opoffset) m := by
  unfold notarisation at h
  rw [readNotarisation_eq hlong hdata, ok_bind] at h
  by_cases hjust : a.fJustCheck = true ∧ matched = true
  · simp only [if_pos hjust] at h
    cases h
    exact .inl ⟨rfl, fun hcounts => hcounts.2.1 hjust⟩
  simp only [if_neg hjust] at h
  by_cases hcounts : counts a matched name = true ∧ (matched = true → node.validateChain
      (notarisationAt a.scriptbuf matched opoffset).srchash
      (notarisationAt a.scriptbuf matched opoffset).notarizedheight = true)
  · simp only [if_pos hcounts] at h
    obtain ⟨m, hm, hrecord⟩ := bind_eq_ok.1 h
    have hsp : recordNotarisation node a s.sp matched
        (notarisationAt a.scriptbuf matched opoffset) m = s'.sp :=
      congrArg VoutState.sp (mk.inj (Except.ok.inj hrecord)).1
    by_cases hmatched : matched = true
    · exact .inr ⟨m, hmatched, ⟨hjust, hcounts⟩, hm, hsp.symm⟩
    · exact .inl ⟨hsp.symm.trans (if_neg fun h => hmatched h.1), fun h => hmatched h.1⟩
  · simp only [if_neg hcounts] at h
    cases h
    exact .inl ⟨rfl, fun hmatched => hcounts hmatched.2.2⟩

/-- What the data of an `OP_RETURN` does to it. -/
theorem opReturnData_sp (hdata : opoffset + opretlen ≤ a.scriptbuf.length)
    (h : opReturnData node a s opoffset opretlen = .ok (s', pairs)) :
    let name := nameAt a.scriptbuf (opoffset + 68)
    let Taken := a.j = 1 ∧ 68 ≤ opretlen
      ∧ chainNameAt node.chainName a.scriptbuf (opoffset + 68) = true ∧ name ≠ []
      ∧ Counts node a true name opoffset
    (s'.sp = s.sp ∧ ¬ Taken)
      ∨ ∃ m, Taken ∧ readMoM node a name (notarisationAt a.scriptbuf true opoffset).notarizedheight
          opoffset opretlen (momOffset a.scriptbuf opoffset) = .ok m
        ∧ s'.sp = recordNotarisation node a s.sp true (notarisationAt a.scriptbuf true opoffset) m := by
  intro name Taken
  unfold opReturnData at h
  rw [checkChainNameInScript_eq, ok_bind] at h
  simp only [getChainNameFromScript_eq, ok_bind] at h
  cases hmatched : chainNameAt node.chainName a.scriptbuf (opoffset + 68) with
  | false =>
    have hnot : ¬ Taken := fun htaken => Bool.false_ne_true (hmatched.symm.trans htaken.2.2.1)
    simp only [hmatched, Bool.false_eq_true, if_false, false_and] at h
    by_cases hempty : nameAt a.scriptbuf (opoffset + 36) = []
    · rw [if_pos hempty] at h
      exact .inl ⟨congrArg (VoutState.sp ∘ fst) (Except.ok.inj h).symm, hnot⟩
    rw [if_neg hempty] at h
    by_cases hntz : a.j = 1 ∧ ((36 : ℕ) : ℤ) ≤ opretlen
    · rw [if_pos hntz] at h
      rcases notarisation_sp false (Int.ofNat_le.1 hntz.2) hdata h with
        ⟨hsp, -⟩ | ⟨m, htrue, -⟩
      · exact .inl ⟨hsp, hnot⟩
      · exact absurd htrue Bool.false_ne_true
    · rw [if_neg hntz] at h
      exact .inl ⟨congrArg (VoutState.sp ∘ fst) (Except.ok.inj h).symm, hnot⟩
  | true =>
    simp only [hmatched, if_true, true_and] at h
    by_cases hempty : nameAt a.scriptbuf (opoffset + 68) = []
    · rw [if_pos hempty] at h
      exact .inl ⟨congrArg (VoutState.sp ∘ fst) (Except.ok.inj h).symm,
        fun htaken => htaken.2.2.2.1 hempty⟩
    rw [if_neg hempty] at h
    by_cases hntz : a.j = 1 ∧ ((68 : ℕ) : ℤ) ≤ opretlen
    · rw [if_pos hntz] at h
      have hlong : 68 ≤ opretlen := Int.ofNat_le.1 hntz.2
      rcases notarisation_sp true hlong hdata h with
        ⟨hsp, hnot⟩ | ⟨m, -, hcounts, hm, hsp⟩
      · exact .inl ⟨hsp, fun htaken => hnot ⟨rfl, htaken.2.2.2.2⟩⟩
      · exact .inr ⟨m, ⟨hntz.1, hlong, hmatched, hempty, hcounts⟩, hm, hsp⟩
    · rw [if_neg hntz] at h
      have hnot : ¬ Taken := fun htaken => hntz ⟨htaken.1, Int.ofNat_le.2 htaken.2.1⟩
      by_cases hprices : a.i = 0 ∧ a.j = 1 ∧ (opretlen : ℤ) = 149
      · rw [if_pos hprices] at h
        exact .inl ⟨congrArg (VoutState.sp ∘ fst) (Except.ok.inj h).symm, hnot⟩
      · rw [if_neg hprices] at h
        obtain ⟨s₁, hratified, hpure⟩ := bind_eq_ok.1 h
        have hsp := congrArg (VoutState.sp ∘ fst) (Except.ok.inj hpure).symm
        exact .inl ⟨hsp.trans (ratification_sp hratified), hnot⟩

/-- What a call does to the state of the chain. -/
theorem voutupdate_sp (hmin : 4 ≤ a.scriptbuf.length) (hmax : a.scriptbuf.length ≤ 10001)
    (h : voutupdate node a s = .ok (s', pairs)) :
    (s'.sp = s.sp ∧ ∀ opoffset opretlen, ¬ Notarises node a opoffset opretlen)
      ∨ ∃ opoffset opretlen m, Notarises node a opoffset opretlen
        ∧ readMoM node a (nameAt a.scriptbuf (opoffset + 68))
          (notarisationAt a.scriptbuf true opoffset).notarizedheight opoffset opretlen
          (momOffset a.scriptbuf opoffset) = .ok m
        ∧ s'.sp = recordNotarisation node a s.sp true (notarisationAt a.scriptbuf true opoffset) m := by
  unfold voutupdate at h
  obtain ⟨s₁, hpay, hrest⟩ := bind_eq_ok.1 h
  rw [← payToPubkey_sp hpay]
  rw [byteAt_ok (by omega), ok_bind] at hrest
  have hhead : a.scriptbuf.head? = some a.scriptbuf[0] := by
    rw [head?_eq_getElem?, getElem?_eq_getElem (by omega)]
  by_cases hreturn : a.scriptbuf[0] = 0x6a
  · rw [if_pos hreturn, opReturn_eq node a s₁ (by omega)] at hrest
    rw [hreturn] at hhead
    cases hdata : dataAt a.scriptbuf with
    | none =>
      rw [hdata] at hrest
      refine .inl ⟨congrArg (VoutState.sp ∘ fst) (Except.ok.inj hrest).symm, fun o n h => ?_⟩
      exact nomatch hdata.symm.trans h.data
    | some data =>
      obtain ⟨o, n⟩ := data
      rw [hdata] at hrest
      rcases opReturnData_sp (dataAt_bounds hdata) hrest with ⟨hsp, hnot⟩ | ⟨m, htaken, hm, hsp⟩
      · refine .inl ⟨hsp, fun o' n' h => hnot ?_⟩
        obtain ⟨rfl, rfl⟩ := mk.inj (Option.some.inj (hdata.symm.trans h.data))
        exact ⟨h.vout, h.long, h.matched, h.name, h.counts⟩
      · obtain ⟨hvout, hlong, hmatched, hname, hcounts⟩ := htaken
        exact .inr ⟨o, n, m, ⟨hhead, hdata, hvout, hlong, hmatched, hname, hcounts⟩, hm, hsp⟩
  · rw [if_neg hreturn] at hrest
    refine .inl ⟨congrArg (VoutState.sp ∘ fst) (Except.ok.inj hrest).symm, fun o n h => ?_⟩
    exact hreturn (Option.some.inj (hhead.symm.trans h.opReturn))

/-! ### The checkpoint -/

/-- A MoM is taken over when it is valid, and then as it stands in the script. -/
theorem readMoM_taken (hdata : opoffset + opretlen ≤ a.scriptbuf.length)
    (h : readMoM node a (nameAt a.scriptbuf (opoffset + 68))
      (notarisationAt a.scriptbuf true opoffset).notarizedheight opoffset opretlen
      (momOffset a.scriptbuf opoffset) = .ok m) :
    (ValidMoM a.scriptbuf opoffset opretlen ∧ m.MoM ≠ 0 ∧ 0 < m.MoMdepth % 65536
        ∧ (m.MoM, m.MoMdepth) = momAt a.scriptbuf opoffset)
      ∨ (¬ ValidMoM a.scriptbuf opoffset opretlen ∧ ¬ (m.MoM ≠ 0 ∧ 0 < m.MoMdepth % 65536)) := by
  have hlen : opoffset ≤ momOffset a.scriptbuf opoffset := by
    unfold momOffset
    omega
  unfold readMoM at h
  unfold ValidMoM momAt
  generalize momOffset a.scriptbuf opoffset = len at h hlen ⊢
  generalize (notarisationAt a.scriptbuf true opoffset).notarizedheight = ht at h ⊢
  by_cases hMoM : (len : ℤ) + 36 - opoffset ≤ opretlen
  · rw [if_pos hMoM, bytesAt_ok (by omega), bytesAt_ok (by omega), ok_bind, ok_bind] at h
    generalize fromLE ((a.scriptbuf.drop len).take 32) = MoM at h ⊢
    generalize int32Of ((a.scriptbuf.drop (len + 32)).take 4) = MoMdepth at h ⊢
    obtain ⟨pairs, -, hm⟩ := bind_eq_ok.1 h
    by_cases hnone : MoM = 0 ∨ ht < MoMdepth % 65536
    · rw [if_pos hnone] at hm
      cases hm
      refine .inr ⟨fun hvalid => ?_, fun htaken => htaken.1 rfl⟩
      rcases hnone with h0 | hdeep
      · exact hvalid.2.1 h0
      · exact absurd hvalid.2.2.2 (Int.not_le.2 hdeep)
    · rw [if_neg hnone] at hm
      cases hm
      by_cases hdepth : 0 < MoMdepth % 65536
      · have h0 : MoM ≠ 0 := fun h0 => hnone (.inl h0)
        exact .inl ⟨⟨by omega, h0, hdepth, Int.not_lt.1 fun hdeep => hnone (.inr hdeep)⟩, h0, hdepth,
          rfl⟩
      · exact .inr ⟨fun hvalid => hdepth hvalid.2.2.1, fun htaken => hdepth htaken.2⟩
  · rw [if_neg hMoM] at h
    cases h
    exact .inr ⟨fun hvalid => hMoM (by omega), fun htaken => htaken.1 rfl⟩

/-- A notarization that is added: above the last one and below the block. -/
def Admitted (node : Node) (sp : KomodoState) (height : ℤ) (ntz : Notarisation) : Prop :=
  node.fp = true ∧ 0 < height ∧ sp.last.notarized_height < ntz.notarizedheight
    ∧ ntz.notarizedheight < height

/-- The last notarization is added as it is. -/
theorem stateupdate_eq (hnotary : node.isNotary = false) (hfp : node.fp = true) {sp : KomodoState}
    {height : ℤ} (hpos : 0 < height) (hbelow : sp.last.notarized_height < height) :
    node.stateupdate sp height = sp.addCheckpoint { sp.last with nHeight := height } := by
  have hsymbol : node.nameset.1 = node.symbol
      ∨ (node.isKMD = true ∧ node.nameset.1 = ascii "KMD") := by
    unfold Node.nameset
    by_cases hKMD : node.symbol = []
    · rw [if_pos hKMD]
      exact .inr ⟨isKMD_iff.2 hKMD, rfl⟩
    · rw [if_neg hKMD]
      exact .inl rfl
  unfold Node.stateupdate
  rw [if_neg (by rw [hfp]; simp; omega)]
  unfold Node.eventaddNotarized
  simp only [hnotary, Bool.false_eq_true, false_and, if_false]
  rw [if_pos hsymbol]
  unfold notarizedUpdate
  exact if_neg (Int.not_le.2 hbelow)

theorem stateupdate_not (hfp : ¬ (node.fp = true ∧ 0 < a.height)) (sp : KomodoState) :
    node.stateupdate sp a.height = sp := by
  refine if_pos ?_
  by_cases hpos : 0 < a.height
  · exact .inr (Bool.eq_false_iff.2 fun h => hfp ⟨h, hpos⟩)
  · exact .inl (Int.not_lt.1 hpos)

/-- **The checkpoint of a notarization**: its own height and hashes, and a MoM that is its own when
it is taken over and that of the last record otherwise. -/
theorem recordNotarisation_checkpoint (hnotary : node.isNotary = false) (sp : KomodoState)
    (ntz : Notarisation) :
    (Admitted node sp a.height ntz → (recordNotarisation node a sp true ntz m).NPOINTS
        = sp.NPOINTS ++ [{ nHeight := a.height, notarized_height := ntz.notarizedheight
                           notarized_hash := ntz.srchash, notarized_desttxid := ntz.desttxid
                           MoM := if m.MoM ≠ 0 ∧ 0 < m.MoMdepth % 65536 then m.MoM else sp.last.MoM
                           MoMdepth := if m.MoM ≠ 0 ∧ 0 < m.MoMdepth % 65536 then m.MoMdepth
                             else sp.last.MoMdepth }])
      ∧ (¬ Admitted node sp a.height ntz →
        (recordNotarisation node a sp true ntz m).NPOINTS = sp.NPOINTS) := by
  unfold recordNotarisation
  by_cases habove : sp.last.notarized_height < ntz.notarizedheight ∧ ntz.notarizedheight < a.height
  · rw [if_pos ⟨rfl, habove⟩]
    constructor
    · rintro ⟨hfp, hpos, -⟩
      by_cases htaken : m.MoM ≠ 0 ∧ 0 < m.MoMdepth % 65536
      · simp only [if_pos htaken]
        rw [stateupdate_eq hnotary hfp hpos habove.2]
        rfl
      · simp only [if_neg htaken]
        rw [stateupdate_eq hnotary hfp hpos habove.2]
        rfl
    · intro hnot
      show (node.stateupdate _ a.height).NPOINTS = sp.NPOINTS
      rw [stateupdate_not fun h => hnot ⟨h.1, h.2, habove⟩]
  · rw [if_neg fun h => habove h.2]
    exact ⟨fun h => absurd h.2.2 habove, fun _ => rfl⟩

/-- A checkpoint that the call adds has the MoM of its own notarization. -/
def VoutCall.Exact (c : VoutCall) : Prop :=
  ∀ cp, c.after.sp.NPOINTS = c.before.sp.NPOINTS ++ [cp] →
    (cp.MoM, cp.MoMdepth) = decodedMoM c.args.scriptbuf

/-- A notarization that is added has a valid MoM, or there is none in the last record. -/
def VoutCall.Clean (c : VoutCall) : Prop :=
  ∀ opoffset opretlen, Notarises c.node c.args opoffset opretlen →
    Admitted c.node c.before.sp c.args.height (notarisationAt c.args.scriptbuf true opoffset) →
    ValidMoM c.args.scriptbuf opoffset opretlen
      ∨ (c.before.sp.last.MoM = 0 ∧ c.before.sp.last.MoMdepth = 0)

theorem forall_added {points : List NotarizedCheckpoint} {added : NotarizedCheckpoint}
    {P : NotarizedCheckpoint → Prop} :
    (∀ cp, points ++ [added] = points ++ [cp] → P cp) ↔ P added := by
  refine ⟨fun h => h added rfl, fun h cp hcp => ?_⟩
  obtain rfl := singleton_inj.1 (append_cancel_left hcp)
  exact h

theorem VoutCall.exact_iff (c : VoutCall) (hnotary : c.node.isNotary = false) :
    c.Exact ↔ c.Clean := by
  have hlen := c.length_args
  rcases voutupdate_sp hlen.1 hlen.2 c.returned with ⟨hsp, hnot⟩ | ⟨o, n, m, hntz, hm, hsp⟩
  · refine ⟨fun _ o n h => absurd h (hnot o n), fun _ cp hcp => ?_⟩
    rw [hsp] at hcp
    exact absurd (self_eq_append_right.1 hcp) (cons_ne_nil cp [])
  obtain ⟨hadmitted, hrejected⟩ := recordNotarisation_checkpoint (a := c.args) (m := m) hnotary
    c.before.sp (notarisationAt c.args.scriptbuf true o)
  rw [← hsp] at hadmitted hrejected
  have honly : ∀ o' n', Notarises c.node c.args o' n' → o' = o ∧ n' = n := fun o' n' h =>
    Prod.mk.inj (Option.some.inj (h.data.symm.trans hntz.data))
  by_cases hadm : Admitted c.node c.before.sp c.args.height
      (notarisationAt c.args.scriptbuf true o)
  · have hdecoded : decodedMoM c.args.scriptbuf
        = if ValidMoM c.args.scriptbuf o n then momAt c.args.scriptbuf o else (0, 0) := by
      unfold decodedMoM
      rw [hntz.data]
    have hexact : c.Exact ↔ (ValidMoM c.args.scriptbuf o n
        ∨ (c.before.sp.last.MoM = 0 ∧ c.before.sp.last.MoMdepth = 0)) := by
      unfold VoutCall.Exact
      rw [hadmitted hadm, hdecoded, forall_added]
      rcases readMoM_taken (dataAt_bounds hntz.data) hm with
        ⟨hvalid, htaken, hdepth, hMoM⟩ | ⟨hinvalid, htaken⟩
      · simp only [if_pos hvalid, if_pos (And.intro htaken hdepth)]
        exact ⟨fun _ => .inl hvalid, fun _ => hMoM⟩
      · simp only [if_neg hinvalid, if_neg htaken]
        rw [Prod.mk.injEq, or_iff_right hinvalid]
    rw [hexact]
    refine ⟨fun h o' n' h' _ => ?_, fun h => h o n hntz hadm⟩
    obtain ⟨rfl, rfl⟩ := honly o' n' h'
    exact h
  · refine ⟨fun _ o' n' h' hadm' => ?_, fun _ cp hcp => ?_⟩
    · obtain ⟨rfl, rfl⟩ := honly o' n' h'
      exact absurd hadm' hadm
    · rw [hrejected hadm] at hcp
      exact absurd (self_eq_append_right.1 hcp) (cons_ne_nil cp [])

/-! ### Runs -/

theorem Calls.mem_andThen {σ τ : Type} {first : Calls σ} {next : σ → Calls τ} {c : VoutCall}
    (h : c ∈ (first.andThen next).calls) :
    c ∈ first.calls ∨ ∃ s, first.state = some s ∧ c ∈ (next s).calls := by
  unfold Calls.andThen at h
  cases hstate : first.state with
  | none =>
    rw [hstate] at h
    exact .inl h
  | some s =>
    rw [hstate] at h
    exact (mem_append.1 h).imp_right fun hnext => ⟨s, rfl, hnext⟩

variable {block : ConnectedBlock} {c : VoutCall}

theorem output_node {i j : ℕ} {signedmask : UInt64} {out : CTxOut}
    (h : c ∈ (block.output i signedmask j out s).calls) : c.node = block.node := by
  unfold ConnectedBlock.output at h
  simp only at h
  split at h
  · split at h
    · rw [mem_singleton.1 h]
    · cases h
  · cases h

theorem outputs_node {i j : ℕ} {signedmask : UInt64} {vout : List CTxOut}
    (h : c ∈ (block.outputs i signedmask j vout s).calls) : c.node = block.node := by
  induction vout generalizing j s with
  | nil => cases h
  | cons out vout ih =>
    rcases Calls.mem_andThen h with hout | ⟨s', -, hrest⟩
    · exact output_node hout
    · exact ih hrest

theorem transactions_node {i : ℕ} {vtx : List CTransaction} {sp : KomodoState}
    (h : c ∈ (block.transactions i vtx sp).calls) : c.node = block.node := by
  induction vtx generalizing i sp with
  | nil => cases h
  | cons tx vtx ih =>
    unfold ConnectedBlock.transactions at h
    split_ifs at h
    · cases h
    · rcases Calls.mem_andThen h with hout | ⟨s', -, hrest⟩
      · exact outputs_node hout
      · exact ih hrest

theorem connectBlocks_node {blocks : List ConnectedBlock} {sp : KomodoState}
    (h : c ∈ (connectBlocks blocks sp).calls) : ∃ block ∈ blocks, c.node = block.node := by
  induction blocks generalizing sp with
  | nil => cases h
  | cons block blocks ih =>
    rcases Calls.mem_andThen h with hblock | ⟨sp', -, hrest⟩
    · exact ⟨block, mem_cons_self .., transactions_node hblock⟩
    · obtain ⟨block', hmem, hnode⟩ := ih hrest
      exact ⟨block', mem_cons_of_mem block hmem, hnode⟩

/-- **The checkpoints of a run have the MoM of their own notarization where each notarization that is
added is clean.** -/
theorem connectBlocks_exact_iff (blocks : List ConnectedBlock) (sp : KomodoState)
    (hnotary : ∀ block ∈ blocks, block.node.isNotary = false) :
    (∀ c ∈ (connectBlocks blocks sp).calls, c.Exact)
      ↔ ∀ c ∈ (connectBlocks blocks sp).calls, c.Clean := by
  refine forall₂_congr fun c hc => c.exact_iff ?_
  obtain ⟨block, hmem, hnode⟩ := connectBlocks_node hc
  rw [hnode]
  exact hnotary block hmem

/-- A block at a height with a notarization in its second transaction. -/
def notarizedBlock (node : Node) (height : ℤ) (script : CScript) : ConnectedBlock where
  node := node
  height := height
  vtx := [{ hash := 1, vin := [], vout := [{ nValue := 1, scriptPubKey := [] }] },
    { hash := 2, vin := [], vout := [{ nValue := 1, scriptPubKey := [] },
      { nValue := 0, scriptPubKey := script }] }]

/-- A chain whose notarizations need no signatures. -/
def beer : Node where
  symbol := ascii "BEER"
  initialBlockDownload := true

/-- A notarization of height 10, with a MoM of depth 5. -/
def withMoM : CScript := [0x6a, 0x4c, 109] ++ List.replicate 32 1 ++ [10, 0, 0, 0]
  ++ List.replicate 32 2 ++ ascii "BEER" ++ [0] ++ List.replicate 32 3 ++ [5, 0, 0, 0]

/-- A notarization of height 30, without a MoM. -/
def withoutMoM : CScript := [0x6a, 73] ++ List.replicate 32 4 ++ [30, 0, 0, 0]
  ++ List.replicate 32 5 ++ ascii "BEER" ++ [0]

/-- The first notarization of a chain. -/
theorem connectBlocks_clean :
    (connectBlocks [notarizedBlock beer 20 withMoM] {}).calls.length = 1 ∧
      ∀ c ∈ (connectBlocks [notarizedBlock beer 20 withMoM] {}).calls, c.Exact := by
  refine ⟨by decide, (connectBlocks_exact_iff _ _ (by decide)).2 fun c hc _ _ _ _ => .inr ?_⟩
  have hlast : (connectBlocks [notarizedBlock beer 20 withMoM] {}).calls.map (fun c =>
      (c.before.sp.last.MoM, c.before.sp.last.MoMdepth)) = [(0, 0)] := by
    decide
  have hmem := mem_map_of_mem (f := fun c : VoutCall =>
    (c.before.sp.last.MoM, c.before.sp.last.MoMdepth)) hc
  rw [hlast] at hmem
  exact Prod.mk.inj (mem_singleton.1 hmem)

/-- The second checkpoint has the MoM of the first. -/
theorem connectBlocks_stale : ¬ ∀ blocks sp, (∀ block ∈ blocks, block.node.isNotary = false) →
    ∀ c ∈ (connectBlocks blocks sp).calls, c.Exact := by
  intro h
  let first : NotarizedCheckpoint :=
    { nHeight := 20, notarized_height := 10, notarized_hash := fromLE (replicate 32 1)
      notarized_desttxid := fromLE (replicate 32 2)
      MoM := fromLE (replicate 32 3), MoMdepth := 5 }
  let second : NotarizedCheckpoint :=
    { nHeight := 40, notarized_height := 30, notarized_hash := fromLE (replicate 32 4)
      notarized_desttxid := fromLE (replicate 32 5)
      MoM := fromLE (replicate 32 3), MoMdepth := 5 }
  let blocks := [notarizedBlock beer 20 withMoM, notarizedBlock beer 40 withoutMoM]
  have hlast : (connectBlocks blocks {}).calls.getLast?.map (fun c =>
      (c.before.sp.NPOINTS, c.after.sp.NPOINTS, decodedMoM c.args.scriptbuf))
        = some ([first], [first, second], (0, 0)) := by
    decide
  obtain ⟨c, hc, hdata⟩ := Option.map_eq_some_iff.1 hlast
  obtain ⟨hbefore, hafter, hdecoded⟩ := by simpa only [Prod.mk.injEq] using hdata
  have hexact := h blocks {} (by decide) c (mem_of_getLast? hc) second
    (by rw [hbefore, hafter]; rfl)
  rw [hdecoded] at hexact
  exact absurd (congrArg Prod.snd hexact) (by decide)

end Notary
end Komodo
