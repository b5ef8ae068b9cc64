/-
# What acceptance means, and where it stops meaning it

`cryptoCondition_sound_complete` puts soundness and completeness of
`CheckCryptoCondition` together for the trees whose fingerprint contents fit
their buffer.

A condition of a hundred signatures and eval codes takes 41 bytes for each of
them, so a threshold over a hundred leaves does not fit and has the fingerprint
of 32 zeros (`fingerprint_of_leaves`): which keys it asks for is then in no way
part of the condition. `forged_accepted` is a condition of 99 eval codes and one
key, and a fulfillment of it that shows another key.
-/

import Komodo.CryptoConditions.Completeness
import Komodo.Lib.Selection

namespace Komodo

open Der List

namespace CryptoEnv

/-- **`CheckCryptoCondition` is sound and complete where the fingerprint contents
fit.** What is accepted satisfies the condition, with signatures for the hash of
this input; and what `CCSig` makes of a tree in which valid signatures were placed
is accepted for its condition. -/
theorem cryptoCondition_sound_complete (env : CryptoEnv) {cond : CC} (hwf : cond.WellFormed)
    (hfits : env.Fits cond) (hcosts : env.CostsComparable cond) :
    (∀ ffillBin shown, env.readFulfillmentBinary ffillBin.dropLast = some shown →
      env.NoCollision cond shown →
      env.checkCryptoCondition (env.conditionBinary cond) ffillBin = 1 →
      ∃ nHashType sighash, ffillBin.getLast? = some nHashType ∧
        env.signatureHash (env.ccPubKey cond) nHashType = some sighash ∧
        env.Satisfies sighash cond shown) ∧
    (∀ sighash pruned, env.signatureHash (env.ccPubKey cond) 1 = some sighash →
      env.Placed sighash cond → cond.isFulfilled → env.ReadsBack cond →
      env.ccPrune cond = some pruned → pruned.hasSignature →
      ∃ ffillBin, env.ccSigVec cond = some ffillBin ∧
        env.checkCryptoCondition (env.conditionBinary cond) ffillBin = 1) := by
  constructor
  · intro ffillBin shown hread hcol h
    exact satisfies_of_check hwf hfits hread hcol h
  · intro sighash pruned hhash hplaced hfulfilled hread hprune hsig
    exact check_ccSigVec hwf hcosts hhash hplaced hfulfilled hread hprune hsig

/-! ### A hundred leaves -/

/-- A signature or an eval code. -/
def IsLeaf (cond : CC) : Prop :=
  (∃ pk sig, cond = .secp256k1 pk sig) ∨ ∃ code, cond = .eval code

variable {env : CryptoEnv}

theorem length_der_simple {c : AsnCondition} (hsimple : c.present.compound = false)
    (hfp : c.fingerprint.length = 32) (hcost : (integer c.cost).length = 3) :
    c.der.length = 41 := by
  have hbody : c.body.length = 39 := by
    rw [AsnCondition.body, hsimple, length_append, length_append,
      length_tlv_short _ (by omega), length_tlv_short _ (by omega), hfp, hcost]
    rfl
  rw [AsnCondition.der, length_tlv_short _ (by omega), hbody]

theorem length_conditionDer_leaf {cond : CC} (h : IsLeaf cond) :
    (env.conditionDer cond).length = 41 := by
  rcases h with ⟨pk, sig, rfl⟩ | ⟨code, rfl⟩
  · exact length_der_simple rfl (env.length_hashFingerprintContents _)
      (by decide : (integer 131072).length = 3)
  · exact length_der_simple rfl (env.sha256_length code)
      (by decide : (integer 1048576).length = 3)

theorem thresholdContents_of_leaves {t : ℕ} {size : UInt8} {subs : List CC}
    (hsize : size.toNat = subs.length) (hleaf : ∀ sub ∈ subs, IsLeaf sub)
    (hmany : 100 ≤ subs.length) : ¬ (env.thresholdContents t size subs).length ≤ BUF_SIZE := by
  have hset : (setOf ((env.qsort cmpConditionBin ((subs.map env.asnCondition).take
      size.toNat)).map AsnCondition.der)).length = subs.length * 41 := by
    rw [length_setOf, (((env.qsort_perm _ _).map _).map List.length).sum_nat,
      take_size (by rw [hsize, length_map]), map_map, map_map]
    refine (sum_eq_card_nsmul _ 41 ?_).trans (by rw [length_map]; rfl)
    intro n hn
    obtain ⟨sub, hsub, rfl⟩ := mem_map.1 hn
    exact length_conditionDer_leaf (hleaf sub hsub)
  rw [thresholdContents, derThresholdContents, length_tlv, length_append, length_tlv 0xa1,
    hset, BUF_SIZE]
  omega

/-- **A threshold over a hundred leaves has the fingerprint of 32 zeros,** whatever
keys and codes the leaves hold. -/
theorem fingerprint_of_leaves {t : ℕ} {size : UInt8} {subs : List CC}
    (hsize : size.toNat = subs.length) (hleaf : ∀ sub ∈ subs, IsLeaf sub)
    (hmany : 100 ≤ subs.length) :
    env.fingerprint (.threshold t size subs) = replicate 32 0 := by
  rw [fingerprint_threshold]
  exact if_neg (thresholdContents_of_leaves hsize hleaf hmany)

theorem hashInputs_of_leaves {t : ℕ} {size : UInt8} {subs : List CC}
    (hsize : size.toNat = subs.length) (hleaf : ∀ sub ∈ subs, IsLeaf sub)
    (hmany : 100 ≤ subs.length) {b : Bytes} (h : b ∈ env.hashInputs (.threshold t size subs)) :
    ∃ sub ∈ subs, b ∈ env.hashInputs sub := by
  rw [hashInputs, hashInputsList_eq_map, take_size (by rw [hsize, length_map])] at h
  simp only [if_neg (thresholdContents_of_leaves hsize hleaf hmany), nil_append] at h
  obtain ⟨inputs, hinputs, hb⟩ := mem_flatten.1 h
  obtain ⟨sub, hsub, rfl⟩ := mem_map.1 hinputs
  exact ⟨sub, hsub, hb⟩

/-! ### A concrete instance -/

namespace Sample

/-- The generator of the curve, the key of the private key 1. -/
def pk1 : Bytes :=
  0x02 :: bigEndian 32 0x79be667ef9dcbbac55a06295ce870b07029bfcdb2dce28d959f2815b16f81798

/-- The key of the private key 2. -/
def pk2 : Bytes :=
  0x02 :: bigEndian 32 0xc6047f9441ed7d6d3045406e95c07cd85c778e4b8cef3ca7abac09b95c709ee5

/-- The hash that is signed. -/
def sighash : Bytes := List.replicate 32 0x77

/-- A signature of `sighash` with the private key 1. -/
def sig1 : Bytes :=
  bigEndian 32 0xc6047f9441ed7d6d3045406e95c07cd85c778e4b8cef3ca7abac09b95c709ee5 ++
    bigEndian 32 0x6142047a234d858dac21a40cf96405d6d0b75a052d15462c2e409df466423613

/-- A signature of `sighash` with the private key 2. -/
def sig2 : Bytes :=
  bigEndian 32 0xf9308a019258c31049344f85f89d5229b531c845836f99b08601f113bce036f9 ++
    bigEndian 32 0x23482e7e340da9dd58a0078122e60944797f1a11b541ce20569cded71aee764d

/-- The SHA-256 of the eval code `0xe4`. -/
def hashEval : Bytes :=
  bigEndian 32 0x5e1effe9b7bab73dce628ccd9f0cbbb16c1e6efc6c4f311e59992a467bc119fd

/-- The SHA-256 of the fingerprint contents of `pk1`. -/
def hashPk1 : Bytes :=
  bigEndian 32 0xe889ed79e2be955396c9400ea606960c73ae1f951d8ad9cc75b04f6af2322f59

/-- The fingerprint contents of `1 of pk1`. -/
def innerContents : Bytes := derThresholdContents 1 [⟨.secp256k1Sha256, hashPk1, 131072, ⟨[], 0⟩⟩]

/-- Their SHA-256. -/
def hashInner : Bytes :=
  bigEndian 32 0x7e2ecf3417cdc9938da6a49a32044035f6a2f7c169e71045eb79327f73858401

/-- The fingerprint contents of the eval code `0xe4` and `1 of pk1`. -/
def outerContents : Bytes :=
  derThresholdContents 2 [⟨.evalSha256, hashEval, 1048576, ⟨[], 0⟩⟩,
    ⟨.thresholdSha256, hashInner, 132096, ⟨[4], 2⟩⟩]

/-- SHA-256 of the strings that are hashed here. -/
def sha256 (b : Bytes) : Bytes :=
  if b = [0xe4] then hashEval
  else if b = derPublicKeyContents pk1 then hashPk1
  else if b = derPublicKeyContents pk2 then
    bigEndian 32 0xefc1d522c3fb3f51f98246a7c1bf2013353f30f92575fb1a28d33c0c25a46570
  else if b = innerContents then hashInner
  else if b = outerContents then
    bigEndian 32 0x0691e57bd74abf1faec0e08c00b5c68ed46db9ee4f317321274123345cb4d652
  else List.replicate 32 0xff

theorem sha256_length (b : Bytes) : (sha256 b).length = 32 := by
  unfold sha256
  split_ifs <;> rfl

theorem insertionSort_sorted {α : Type} (cmp : α → α → ℤ) (l : List α) (h : Consistent cmp l) :
    (l.insertionSort fun a b => cmp a b ≤ 0).Pairwise fun a b => cmp a b ≤ 0 := by
  refine Selection.pairwise_insertionSort_of (fun a b hab => ?_) fun a b c habc => ?_
  · -- the comparison is total on the members of `l`
    have hba := h.symm b (hab.subset (by simp)) a (hab.subset (by simp))
    omega
  · exact h.trans a (habc.subset (by simp)) b (habc.subset (by simp)) c (habc.subset (by simp))

/-- An environment with these hashes and signatures whose decoder knows the bytes
of one fulfillment. -/
def knowing (known : Fulfillment) : CryptoEnv where
  sha256 := sha256
  sha256_length := sha256_length
  qsort := fun cmp l => l.insertionSort fun a b => cmp a b ≤ 0
  qsort_perm := fun _ l => List.perm_insertionSort _ l
  qsort_sorted := insertionSort_sorted
  berDecode := fun b => if b = known.der then some known else none
  pubkeyParse := fun pk => pk = pk1 || pk = pk2
  ecdsaVerify := fun sig msg pk =>
    msg = sighash && ((pk = pk1 && sig = sig1) || (pk = pk2 && sig = sig2))
  ed25519Verify := fun _ _ _ => false
  signatureHash := fun _ _ => some sighash
  checkEvalCondition := fun code => code = [0xe4]
  beyond := ⟨fun _ _ => 0, fun _ _ => 0, fun _ => 0⟩

theorem berDecode_knowing (f : Fulfillment) : (knowing f).berDecode f.der = some f := if_pos rfl

theorem readFulfillmentBinary_knowing (f : Fulfillment) :
    (knowing f).readFulfillmentBinary f.der = (knowing f).fulfillmentToCC f := by
  rw [readFulfillmentBinary, berDecode_knowing]
  exact if_pos rfl

/-! ### The condition of a contract -/

/-- The eval code `0xe4` and a signature of `pk1`, as `MakeCCcond1` builds it. -/
def contractCond : CC := .threshold 2 2 [.eval [0xe4], .threshold 1 1 [.secp256k1 pk1 (some sig1)]]

/-- Its fulfillment. -/
def contractFulfillment : Fulfillment :=
  .threshold [.threshold [.secp256k1 pk1 sig1] [], .eval [0xe4]] []

/-- The environment in which it is checked. -/
def contractEnv : CryptoEnv := knowing contractFulfillment

theorem contractCond_wellFormed : contractCond.WellFormed := by
  refine .threshold rfl (by decide) (by decide) ?_
  simp only [mem_cons, not_mem_nil, or_false, forall_eq_or_imp, forall_eq]
  refine ⟨.eval _, .threshold rfl (by decide) (by decide) ?_⟩
  simp only [mem_cons, not_mem_nil, or_false, forall_eq]
  exact .secp256k1 (by decide) (by simp [sig1])

theorem contractCond_fits : contractEnv.Fits contractCond := by
  refine .threshold (by decide +kernel) ?_
  simp only [mem_cons, not_mem_nil, or_false, forall_eq_or_imp, forall_eq]
  refine ⟨.eval _, .threshold (by decide) ?_⟩
  simp only [mem_cons, not_mem_nil, or_false, forall_eq]
  exact .secp256k1 _ _

theorem contractCond_costs : contractEnv.CostsComparable contractCond := by
  refine .threshold ?_ ?_
  · have hcosts : ∀ a ∈ [1048576, 132096], ∀ b ∈ [1048576, 132096], a < b + 2 ^ 31 := by decide
    have hmap : [CC.eval [0xe4], .threshold 1 1 [.secp256k1 pk1 (some sig1)]].map
        contractEnv.getCost = [1048576, 132096] := by decide
    intro a ha b hb
    exact hcosts _ (hmap ▸ mem_map_of_mem ha) _ (hmap ▸ mem_map_of_mem hb)
  · simp only [mem_cons, not_mem_nil, or_false, forall_eq_or_imp, forall_eq]
    refine ⟨.eval _, .threshold ?_ ?_⟩
    · simp only [mem_cons, not_mem_nil, or_false, forall_eq]
      omega
    · simp only [mem_cons, not_mem_nil, or_false, forall_eq]
      exact .secp256k1 _ _

theorem contractCond_placed : contractEnv.Placed sighash contractCond := by
  refine .threshold ?_
  simp only [mem_cons, not_mem_nil, or_false, forall_eq_or_imp, forall_eq]
  refine ⟨.eval (by decide), .threshold ?_⟩
  simp only [mem_cons, not_mem_nil, or_false, forall_eq]
  refine .secp256k1 fun s hs => ?_
  obtain rfl := Option.mem_some_iff.1 hs
  exact ⟨by decide, by decide⟩

theorem toFulfillment_contractCond :
    contractEnv.toFulfillment contractCond = some contractFulfillment := rfl

theorem contractCond_readsBack : contractEnv.ReadsBack contractCond := by
  intro f hf
  obtain rfl := Option.some.inj (toFulfillment_contractCond.symm.trans hf)
  have hcanon : contractFulfillment.canon = contractFulfillment := rfl
  rw [hcanon]
  exact berDecode_knowing contractFulfillment

/-- The tree that its fulfillment reveals. -/
def contractShown : CC := .threshold 2 2 [.threshold 1 1 [.secp256k1 pk1 (some sig1)], .eval [0xe4]]

theorem readFulfillmentBinary_contract :
    contractEnv.readFulfillmentBinary contractFulfillment.der = some contractShown :=
  (readFulfillmentBinary_knowing contractFulfillment).trans rfl

theorem ccSigVec_contract :
    contractEnv.ccSigVec contractCond = some (contractFulfillment.der ++ [1]) := by
  rw [ccSigVec, toFulfillment_contractCond]
  exact if_pos (by decide +kernel)

theorem contract_noCollision : contractEnv.NoCollision contractCond contractShown :=
  ⟨by decide +kernel, by decide +kernel⟩

end Sample

/-- The hypotheses of `cryptoCondition_sound_complete` are satisfiable: the
condition of a contract, signed, is accepted and satisfied. -/
theorem cryptoCondition_sound_complete_contract :
    Sample.contractEnv.checkCryptoCondition
        (Sample.contractEnv.conditionBinary Sample.contractCond)
        (Sample.contractFulfillment.der ++ [1]) = 1 ∧
      Sample.contractEnv.Satisfies Sample.sighash Sample.contractCond Sample.contractShown := by
  obtain ⟨hsound, hcomplete⟩ := cryptoCondition_sound_complete Sample.contractEnv
    Sample.contractCond_wellFormed Sample.contractCond_fits Sample.contractCond_costs
  have hprune : Sample.contractEnv.ccPrune Sample.contractCond = some Sample.contractShown := by
    rw [ccPrune, Sample.ccSigVec_contract]
    simp only [dropLast_concat, Sample.readFulfillmentBinary_contract]
  obtain ⟨ffillBin, hvec, hcheck⟩ := hcomplete Sample.sighash Sample.contractShown rfl
    Sample.contractCond_placed (by decide) Sample.contractCond_readsBack hprune
    (by decide)
  obtain rfl := Option.some.inj (Sample.ccSigVec_contract.symm.trans hvec)
  obtain ⟨_, sighash, -, hhash, hsat⟩ := hsound _ Sample.contractShown
    (by rw [dropLast_concat, Sample.readFulfillmentBinary_contract])
    Sample.contract_noCollision hcheck
  obtain rfl := Option.some.inj hhash
  exact ⟨hcheck, hsat⟩

/-! ### A forged fulfillment -/

namespace Sample

/-- 99 times the eval code `0xe4`. -/
def evals : List CC := List.replicate 99 (.eval [0xe4])

/-- All of 99 eval codes and a signature of `pk1`. -/
def victimCond : CC := .threshold 100 100 (evals ++ [.secp256k1 pk1 none])

/-- The eval codes, and a signature of `pk2`. -/
def forgedFulfillment : Fulfillment :=
  .threshold (.secp256k1 pk2 sig2 :: List.replicate 99 (.eval [0xe4])) []

/-- The tree that it reveals. -/
def forgedShown : CC := .threshold 100 100 (.secp256k1 pk2 (some sig2) :: evals)

/-- The environment in which it is checked. -/
def forgedEnv : CryptoEnv := knowing forgedFulfillment

theorem isLeaf_evals {sub : CC} (h : sub ∈ evals) : IsLeaf sub :=
  Or.inr ⟨_, eq_of_mem_replicate h⟩

theorem victimCond_wellFormed : victimCond.WellFormed := by
  refine .threshold (by decide) (by decide) (by decide) ?_
  intro sub hsub
  rcases mem_append.1 hsub with hsub | hsub
  · obtain rfl := eq_of_mem_replicate hsub
    exact .eval _
  · obtain rfl := mem_singleton.1 hsub
    exact .secp256k1 (by decide) (by simp)

theorem isLeaf_victim {sub : CC} (h : sub ∈ evals ++ [.secp256k1 pk1 none]) : IsLeaf sub := by
  rcases mem_append.1 h with h | h
  · exact isLeaf_evals h
  · exact Or.inl ⟨_, _, mem_singleton.1 h⟩

theorem isLeaf_forged {sub : CC} (h : sub ∈ .secp256k1 pk2 (some sig2) :: evals) :
    IsLeaf sub := by
  rcases mem_cons.1 h with rfl | h
  · exact Or.inl ⟨_, _, rfl⟩
  · exact isLeaf_evals h

theorem asnCondition_forged :
    forgedEnv.asnCondition forgedShown = forgedEnv.asnCondition victimCond := by
  have hfp : forgedEnv.fingerprint forgedShown = replicate 32 0 :=
    fingerprint_of_leaves (by decide) (fun _ => isLeaf_forged) (by decide)
  have hfp' : forgedEnv.fingerprint victimCond = replicate 32 0 :=
    fingerprint_of_leaves (by decide) (fun _ => isLeaf_victim) (by decide)
  have hcost : forgedEnv.getCost forgedShown = forgedEnv.getCost victimCond := by decide +kernel
  have htypes : forgedShown.getSubtypes = victimCond.getSubtypes := by decide +kernel
  rw [asnCondition, asnCondition, hfp, hfp', hcost, htypes]
  rfl

theorem forged_accepts :
    forgedEnv.Accepts forgedShown 1 sighash (forgedEnv.conditionBinary victimCond) := by
  have hbinary : forgedEnv.conditionBinary forgedShown = forgedEnv.conditionBinary victimCond := by
    rw [conditionBinary, conditionBinary, asnCondition_forged]
  have hsecp : forgedEnv.secp256k1VerifyTreeMsg32 forgedShown sighash := by decide +kernel
  have hed : forgedShown.visitAll forgedEnv.ed25519Visit sighash := by decide
  have heval : forgedShown.visitAll forgedEnv.evalVisit [] := by decide
  refine ⟨by decide +kernel, by decide +kernel, rfl, ?_⟩
  simp only [ccVerify, hbinary, hsecp, hed, heval]
  rw [memcpy_eq_take _ le_rfl, take_length]
  simp

theorem fulfillmentToCC_evals (n : ℕ) :
    forgedEnv.fulfillmentsToCC (replicate n (.eval [0xe4])) =
      some (replicate n (.eval [0xe4])) := by
  induction n with
  | zero => rfl
  | succ n ih =>
    rw [replicate_succ, replicate_succ, fulfillmentsToCC, ih]
    rfl

theorem readFulfillmentBinary_forged :
    forgedEnv.readFulfillmentBinary forgedFulfillment.der = some forgedShown := by
  have hkey : forgedEnv.fulfillmentToCC (.secp256k1 pk2 sig2) =
      some (.secp256k1 pk2 (some sig2)) := rfl
  refine (readFulfillmentBinary_knowing forgedFulfillment).trans ?_
  show forgedEnv.fulfillmentToCC forgedFulfillment = some forgedShown
  rw [forgedFulfillment, fulfillmentToCC, fulfillmentsToCC, hkey, fulfillmentToCC_evals]
  rfl

theorem forged_noCollision : forgedEnv.NoCollision victimCond forgedShown := by
  have hcond : ∀ a ∈ forgedEnv.hashInputs victimCond, a ∈ [[0xe4], derPublicKeyContents pk1] := by
    intro a ha
    obtain ⟨sub, hsub, ha⟩ := hashInputs_of_leaves (by decide) (fun _ => isLeaf_victim) (by decide) ha
    rcases mem_append.1 hsub with hsub | hsub
    · obtain rfl := eq_of_mem_replicate hsub
      exact mem_cons.2 (Or.inl (mem_singleton.1 ha))
    · obtain rfl := mem_singleton.1 hsub
      exact mem_cons_of_mem _ ha
  have hshown : ∀ b ∈ forgedEnv.hashInputs forgedShown,
      b ∈ [[0xe4], derPublicKeyContents pk2] := by
    intro b hb
    obtain ⟨sub, hsub, hb⟩ := hashInputs_of_leaves (by decide) (fun _ => isLeaf_forged) (by decide) hb
    rcases mem_cons.1 hsub with rfl | hsub
    · exact mem_cons_of_mem _ hb
    · obtain rfl := eq_of_mem_replicate hsub
      exact mem_cons.2 (Or.inl (mem_singleton.1 hb))
  have hinj : ∀ a ∈ [[0xe4], derPublicKeyContents pk1], ∀ b ∈ [[0xe4], derPublicKeyContents pk2],
      sha256 a = sha256 b → a = b := by decide
  have hzero : ∀ a ∈ [[0xe4], derPublicKeyContents pk1], sha256 a ≠ replicate 32 0 := by
    decide
  exact ⟨fun a ha b hb => hinj a (hcond a ha) b (hshown b hb), fun a ha => hzero a (hcond a ha)⟩

theorem length_forgedFulfillment : forgedFulfillment.der.length = 608 := by decide +kernel

/-- The key of the condition has no signature in the fulfillment. -/
theorem not_satisfies_forged (hash : Bytes) :
    ¬ forgedEnv.Satisfies hash victimCond forgedShown := by
  intro h
  cases h with
  | threshold met rest hperm hcount hshown hmet =>
    have hlen := hperm.length_eq
    have hsubs : (evals ++ [CC.secp256k1 pk1 none]).length = 100 := by decide
    rw [hsubs, length_append, length_map] at hlen
    -- all hundred have to be met, the key among them
    obtain rfl : rest = [] := eq_nil_of_length_eq_zero (by omega)
    have hkey : CC.secp256k1 pk1 none ∈ met.map Prod.fst := by
      have := hperm.mem_iff.1 (mem_append_right evals (mem_singleton_self _))
      rwa [append_nil] at this
    obtain ⟨⟨key, shown⟩, hp, rfl⟩ := mem_map.1 hkey
    have hin := hshown.subset (mem_map_of_mem hp)
    have hsat := hmet _ hp
    cases hsat with
    | secp256k1 _ _ =>
      rcases mem_cons.1 hin with heq | hin
      · have hpk : pk1 = pk2 := (CC.secp256k1.inj heq).1
        exact absurd hpk (by decide)
      · exact CC.noConfusion (eq_of_mem_replicate hin)

end Sample

/-- A signature of `pk2` is accepted for a condition that asks for one of `pk1`:
its hundred leaves do not fit, and nothing in the fulfillment is a signature of
`pk1`. -/
theorem forged_accepted :
    Sample.victimCond.WellFormed ∧ Sample.forgedEnv.NoCollision Sample.victimCond Sample.forgedShown ∧
      (Sample.forgedFulfillment.der ++ [1]).length ≤ MAX_SCRIPT_CRYPTOCONDITION_FULFILLMENT_SIZE ∧
      Sample.forgedEnv.readFulfillmentBinary (Sample.forgedFulfillment.der ++ [1]).dropLast =
        some Sample.forgedShown ∧
      Sample.forgedEnv.checkCryptoCondition (Sample.forgedEnv.conditionBinary Sample.victimCond)
        (Sample.forgedFulfillment.der ++ [1]) = 1 ∧
      ∀ sighash, ¬ Sample.forgedEnv.Satisfies sighash Sample.victimCond Sample.forgedShown := by
  have hread : Sample.forgedEnv.readFulfillmentBinary
      (Sample.forgedFulfillment.der ++ [1]).dropLast = some Sample.forgedShown := by
    rw [dropLast_concat, Sample.readFulfillmentBinary_forged]
  refine ⟨Sample.victimCond_wellFormed, Sample.forged_noCollision, ?_, hread, ?_,
    Sample.not_satisfies_forged⟩
  · rw [length_append, Sample.length_forgedFulfillment]
    decide
  · exact Sample.forgedEnv.checkCryptoCondition_eq_one.2
      ⟨1, _, _, getLast?_concat, hread, Sample.forged_accepts⟩

end CryptoEnv

end Komodo
