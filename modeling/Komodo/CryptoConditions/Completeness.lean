/-
# A signed tree yields an accepted fulfillment

`CCSig` encodes a tree in which signatures have been placed: at each threshold
node the cheapest subconditions that can be fulfilled are revealed, as many as
the threshold asks for, and of the others only the condition is written.
`Represents` says that such a pruned tree has the type, the subtypes, the cost
and the fingerprint of the tree it was made from; `exists_pruned` builds it by
induction over the tree.

The pruned tree lists its subconditions in another order than the tree does. The cost of a
threshold node is the sum of its largest subcosts, found with `qsort`; its comparison function
cuts the difference of two costs to 32 bits, so the costs have to lie close enough for that
(`CostsComparable`).
-/

import Komodo.CryptoConditions.Soundness

namespace Komodo

open Der List

/-! ### Signed trees -/

namespace CC

mutual

/-- Whether a signature is placed somewhere in the tree. -/
def hasSignature : CC → Bool
  | secp256k1 _ signature => signature.isSome
  | ed25519 _ signature => signature.isSome
  | prefixed _ _ sub => hasSignature sub
  | threshold _ _ subs => (haveSignature subs).any id
  | _ => false

/-- `hasSignature` of each subcondition. -/
def haveSignature : List CC → List Bool
  | [] => []
  | sub :: subs => hasSignature sub :: haveSignature subs

end

@[simp] theorem haveSignature_eq_map (subs : List CC) :
    haveSignature subs = subs.map hasSignature := by
  induction subs with
  | nil => rfl
  | cons sub subs ih => rw [haveSignature, ih, map_cons]

end CC

namespace CryptoEnv

variable (env : CryptoEnv)

/-- Every signature placed in the tree is valid for `sighash`, and every eval
code is accepted. -/
inductive Placed (sighash : Bytes) : CC → Prop
  | secp256k1 {pk : Bytes} {sig : Option Bytes}
      (hsig : ∀ s ∈ sig, env.pubkeyParse pk ∧ env.ecdsaVerify s sighash pk) :
      Placed sighash (.secp256k1 pk sig)
  | eval {code : Bytes} (hcheck : env.checkEvalCondition code) : Placed sighash (.eval code)
  | threshold {t : ℕ} {size : UInt8} {subs : List CC} (hsubs : ∀ sub ∈ subs, Placed sighash sub) :
      Placed sighash (.threshold t size subs)

/-- At every threshold node the costs of the subconditions differ by less than
`2 ^ 31`. -/
inductive CostsComparable : CC → Prop
  | secp256k1 (pk : Bytes) (sig : Option Bytes) : CostsComparable (.secp256k1 pk sig)
  | eval (code : Bytes) : CostsComparable (.eval code)
  | threshold {t : ℕ} {size : UInt8} {subs : List CC}
      (hcost : ∀ a ∈ subs, ∀ b ∈ subs, env.getCost a < env.getCost b + 2 ^ 31)
      (hsubs : ∀ sub ∈ subs, CostsComparable sub) : CostsComparable (.threshold t size subs)

/-- The decoder reads the fulfillment of the tree back. -/
def ReadsBack (cond : CC) : Prop :=
  ∀ f, env.toFulfillment cond = some f → env.berDecode f.der = some f.canon

variable {env}

/-! ### Counting -/

/-- The loop of `thresholdIsFulfilled` counts. -/
theorem countFulfilled_iff {t n : ℕ} (h : n < t) (l : List Bool) :
    CC.countFulfilled t n l ↔ t ≤ n + l.count true := by
  induction l generalizing n with
  | nil => exact iff_of_false (by simp [CC.countFulfilled]) (by simpa using h)
  | cons b l ih =>
    rw [CC.countFulfilled]
    cases b with
    | false =>
      have hne : n ≠ t := by omega
      simpa [hne] using ih h
    | true =>
      simp only [if_true, count_cons_self]
      split_ifs with heq
      · exact iff_of_true rfl (by omega)
      · rw [ih (by omega)]
        omega

/-- The loop of `thresholdToFulfillment`: it takes fulfillments until there are
enough or no more, and the rest goes under its conditions. -/
theorem pickFulfillments_spec (env : CryptoEnv) (needed : ℕ) (l : List (CC × Option Fulfillment)) :
    ∃ (taken : List (CC × Fulfillment)) (rest : List CC),
      (l.map Prod.fst).Perm (taken.map Prod.fst ++ rest) ∧
      (∀ p ∈ taken, (p.1, some p.2) ∈ l) ∧
      (env.pickFulfillments needed l).2 = (taken.map Prod.snd, rest.map env.asnCondition) ∧
      taken.length = needed - (env.pickFulfillments needed l).1 ∧
      (env.pickFulfillments needed l).1 = needed - l.countP (·.2.isSome) := by
  fun_induction env.pickFulfillments needed l with
  | case1 needed => exact ⟨[], [], by simp⟩
  | case2 needed sub f rest n fs cs hpick ih =>
    obtain ⟨taken, others, hperm, hmem, hout, hlen, hn⟩ := ih
    rw [hpick] at hout hlen hn
    obtain ⟨hfs, hcs⟩ := Prod.mk.inj hout
    refine ⟨(sub, f) :: taken, others, ?_, ?_, ?_, ?_, ?_⟩
    · exact hperm.cons sub
    · intro p hp
      rcases mem_cons.1 hp with rfl | hp
      · simp
      · exact mem_cons_of_mem _ (hmem p hp)
    · rw [hfs, hcs, map_cons]
    · simp only [length_cons] at hlen ⊢
      omega
    · rw [countP_cons_of_pos (by simp)]
      omega
  | case3 needed sub ff rest hne n fs cs hpick ih =>
    obtain ⟨taken, others, hperm, hmem, hout, hlen, hn⟩ := ih
    rw [hpick] at hout hlen hn
    obtain ⟨hfs, hcs⟩ := Prod.mk.inj hout
    refine ⟨taken, sub :: others, ?_, ?_, ?_, ?_, ?_⟩
    · exact (hperm.cons sub).trans perm_middle.symm
    · exact fun p hp => mem_cons_of_mem _ (hmem p hp)
    · rw [hfs, hcs, map_cons]
    · exact hlen
    · simp only [countP_cons]
      cases ff with
      | none => simpa using hn
      | some f =>
        -- a fulfillment is left out only when no more are needed
        have : needed = 0 := by
          rcases needed with _ | needed
          · rfl
          · exact absurd rfl (hne needed f rfl)
        omega

variable {size : UInt8} {t : ℕ}

/-- `thresholdToFulfillment`: with enough subconditions that have a fulfillment,
`t` of them are revealed. -/
theorem toFulfillment_threshold (env : CryptoEnv) {subs : List CC}
    (hsize : size.toNat = subs.length) :
    ∃ (taken : List (CC × Fulfillment)) (rest : List CC),
      subs.Perm (taken.map Prod.fst ++ rest) ∧
      (∀ p ∈ taken, env.toFulfillment p.1 = some p.2) ∧
      (t ≤ subs.countP (fun sub => (env.toFulfillment sub).isSome) → taken.length = t ∧
        env.toFulfillment (.threshold t size subs) =
          some (.threshold (taken.map Prod.snd) (rest.map env.asnCondition))) ∧
      (subs.countP (fun sub => (env.toFulfillment sub).isSome) < t →
        env.toFulfillment (.threshold t size subs) = none) := by
  have hsorted : (env.qsort (fun a b => env.cmpConditionCost a.1 b.1)
      ((env.withFulfillments subs).take size.toNat)).Perm
        (subs.map fun sub => (sub, env.toFulfillment sub)) := by
    rw [withFulfillments_eq_map, hsize, ← map_take, take_length]
    exact env.qsort_perm _ _
  rw [toFulfillment]
  generalize env.qsort (fun a b : CC × Option Fulfillment => env.cmpConditionCost a.1 b.1)
    ((env.withFulfillments subs).take size.toNat) = sorted at hsorted ⊢
  obtain ⟨taken, rest, hperm, hmem, hout, hlen, hneeded⟩ := pickFulfillments_spec env t sorted
  have hcount : sorted.countP (·.2.isSome) =
      subs.countP (fun sub => (env.toFulfillment sub).isSome) := by
    rw [hsorted.countP_eq, countP_map]
    rfl
  have hsubs : (sorted.map Prod.fst).Perm subs := by
    simpa [Function.comp_def] using hsorted.map Prod.fst
  rw [hcount] at hneeded
  rcases hpick : env.pickFulfillments t sorted with ⟨needed, fs, cs⟩
  rw [hpick] at hout hlen hneeded
  obtain ⟨rfl, rfl⟩ := Prod.mk.inj hout
  refine ⟨taken, rest, hsubs.symm.trans hperm, ?_, ?_, ?_⟩
  · intro p hp
    obtain ⟨sub, -, heq⟩ := mem_map.1 (hsorted.mem_iff.1 (hmem p hp))
    obtain ⟨rfl, hf⟩ := Prod.mk.inj heq
    exact hf
  · intro hle
    obtain rfl : needed = 0 := hneeded.trans (Nat.sub_eq_zero_of_le hle)
    exact ⟨hlen, rfl⟩
  · intro hlt
    rcases needed with _ | needed
    · simp only at hneeded
      omega
    · rfl

variable {cond : CC}

/-- A tree of signatures, eval codes and thresholds has a fulfillment exactly when
it is fulfilled. -/
theorem isSome_toFulfillment (hwf : cond.WellFormed) :
    (env.toFulfillment cond).isSome = cond.isFulfilled := by
  induction hwf with
  | secp256k1 _ _ => simp [toFulfillment, CC.isFulfilled]
  | eval code => rfl
  | @threshold t size subs hsize hpos hle hsubs ih =>
    have hcount : subs.countP (fun sub => (env.toFulfillment sub).isSome) =
        (subs.map CC.isFulfilled).count true := by
      rw [count, countP_map]
      exact countP_congr fun sub hsub => by simp [ih sub hsub]
    have hfulfilled : CC.isFulfilled (.threshold t size subs) ↔
        t ≤ subs.countP (fun sub => (env.toFulfillment sub).isSome) := by
      rw [CC.isFulfilled, CC.areFulfilled_eq_map, hsize, ← map_take, take_length,
        countFulfilled_iff (by omega), hcount, Nat.zero_add]
    obtain ⟨taken, rest, -, -, hsome, hnone⟩ := toFulfillment_threshold env hsize
    rw [Bool.eq_iff_iff, hfulfilled]
    constructor
    · intro h
      by_contra hlt
      rw [hnone (by omega)] at h
      simp at h
    · intro h
      rw [(hsome h).2]
      rfl

/-! ### Types and costs -/

/-- The type masks that signatures, eval codes and thresholds make. -/
def plainMasks : List UInt32 := [0, 4, 0x20, 0x24, 0x8000, 0x8004, 0x8020, 0x8024]

theorem forall_plainMasks {P : UInt32 → Prop} [DecidablePred P]
    (h : plainMasks.all fun m => decide (P m)) : ∀ m ∈ plainMasks, P m := fun m hm =>
  of_decide_eq_true (List.all_eq_true.1 h m hm)

theorem forall₂_plainMasks {P : UInt32 → UInt32 → Prop} [∀ a b, Decidable (P a b)]
    (h : plainMasks.all fun a => plainMasks.all fun b => decide (P a b)) :
    ∀ a ∈ plainMasks, ∀ b ∈ plainMasks, P a b := fun a ha b hb =>
  of_decide_eq_true (List.all_eq_true.1 (List.all_eq_true.1 h a ha) b hb)

theorem or_mem_plainMasks : ∀ a ∈ plainMasks, ∀ b ∈ plainMasks, a ||| b ∈ plainMasks :=
  forall₂_plainMasks (by decide)

theorem foldl_or_mem_plainMasks {masks : List UInt32} (h : ∀ m ∈ masks, m ∈ plainMasks)
    {acc : UInt32} (hacc : acc ∈ plainMasks) : masks.foldl (· ||| ·) acc ∈ plainMasks := by
  induction masks generalizing acc with
  | nil => exact hacc
  | cons m masks ih =>
    exact ih (fun m' hm' => h m' (by simp [hm'])) (or_mem_plainMasks _ hacc _ (h m (by simp)))

/-- A signing bit of one mask is a signing bit of them all together. -/
theorem foldl_or_signing {masks : List UInt32} (h : ∀ m ∈ masks, m ∈ plainMasks) {acc : UInt32}
    (hacc : acc ∈ plainMasks)
    (hsign : acc &&& CCSigningNodes ≠ 0 ∨ ∃ m ∈ masks, m &&& CCSigningNodes ≠ 0) :
    masks.foldl (· ||| ·) acc &&& CCSigningNodes ≠ 0 := by
  induction masks generalizing acc with
  | nil => simpa using hsign
  | cons m masks ih =>
    have hsigning : ∀ a ∈ plainMasks, ∀ b ∈ plainMasks,
        (a &&& CCSigningNodes ≠ 0 ∨ b &&& CCSigningNodes ≠ 0) →
          (a ||| b) &&& CCSigningNodes ≠ 0 := forall₂_plainMasks (by decide)
    have hm := h m (by simp)
    refine ih (fun m' hm' => h m' (by simp [hm'])) (or_mem_plainMasks _ hacc _ hm) ?_
    rcases hsign with hacc' | ⟨m', hm', hbit⟩
    · exact Or.inl (hsigning _ hacc _ hm (Or.inl hacc'))
    · rcases mem_cons.1 hm' with rfl | hm'
      · exact Or.inl (hsigning _ hacc _ hm (Or.inr hbit))
      · exact Or.inr ⟨m', hm', hbit⟩

theorem typeMask_mem_plainMasks (hwf : cond.WellFormed) :
    cond.typeMask ∈ plainMasks := by
  induction hwf with
  | secp256k1 _ _ => exact (by decide : CCTypeId.secp256k1.bit ||| 0 ∈ plainMasks)
  | eval code => exact (by decide : CCTypeId.eval.bit ||| 0 ∈ plainMasks)
  | @threshold t size subs hsize hpos hle hsubs ih =>
    have hclear : ∀ a ∈ plainMasks,
        CCTypeId.threshold.bit ||| (a &&& ~~~CCTypeId.threshold.bit) ∈ plainMasks :=
      forall_plainMasks (by decide)
    refine hclear _ (foldl_or_mem_plainMasks ?_ (by decide))
    rw [CC.typeMasks_eq_map, hsize, ← map_take, take_length]
    intro m hm
    obtain ⟨sub, hsub, rfl⟩ := mem_map.1 hm
    exact ih sub hsub

theorem getSubtypes_mem_plainMasks (hwf : cond.WellFormed) :
    cond.getSubtypes ∈ plainMasks := by
  cases hwf with
  | secp256k1 _ _ => exact (by decide : (0 : UInt32) ∈ plainMasks)
  | eval code => exact (by decide : (0 : UInt32) ∈ plainMasks)
  | @threshold t size subs hsize hpos hle hsubs =>
    have hclear : ∀ a ∈ plainMasks, a &&& ~~~CCTypeId.threshold.bit ∈ plainMasks :=
      forall_plainMasks (by decide)
    refine hclear _ (foldl_or_mem_plainMasks ?_ (by decide))
    rw [CC.typeMasks_eq_map, hsize, ← map_take, take_length]
    intro m hm
    obtain ⟨sub, hsub, rfl⟩ := mem_map.1 hm
    exact typeMask_mem_plainMasks (hsubs sub hsub)

/-- What `asnSubtypes` writes `fromAsnSubtypes` reads, for these masks. -/
theorem fromAsnSubtypes_asnSubtypes {mask : UInt32} (h : mask ∈ plainMasks) :
    env.fromAsnSubtypes (asnSubtypes mask) = mask := by
  rw [fromAsnSubtypes_eq (length_asnSubtypes_le mask)]
  exact forall_plainMasks (P := fun mask => (range ((asnSubtypes mask).buf.length * 8)).foldl
    (fun m i => if (asnSubtypes mask).testBit i then m ||| 1 <<< UInt32.ofNat i else m) 0 = mask)
    (by decide) mask h

/-- Costs within `2 ^ 31` of each other are compared as they are. -/
theorem cmpCostDesc_eq {a b : ℕ} (hab : a < b + 2 ^ 31) (hba : b < a + 2 ^ 31) :
    cmpCostDesc a b = (b : ℤ) - a := by
  unfold cmpCostDesc
  exact Int.bmod_eq_of_le (by omega) (by omega)

theorem cmpCostDesc_consistent {l : List ℕ} (h : ∀ a ∈ l, ∀ b ∈ l, a < b + 2 ^ 31) :
    Consistent cmpCostDesc l := by
  constructor
  · intro a ha b hb
    rw [cmpCostDesc_eq (h a ha b hb) (h b hb a ha), cmpCostDesc_eq (h b hb a ha) (h a ha b hb)]
    omega
  · intro a ha b hb c hc
    rw [cmpCostDesc_eq (h a ha b hb) (h b hb a ha), cmpCostDesc_eq (h b hb c hc) (h c hc b hb),
      cmpCostDesc_eq (h a ha c hc) (h c hc a ha)]
    omega

/-- The cost of a threshold node does not depend on the order of its
subconditions, as long as their costs can be compared. -/
theorem thresholdCost_perm {l l' : List ℕ} (hperm : l.Perm l')
    (hsize : size.toNat = l.length) (h : ∀ a ∈ l, ∀ b ∈ l, a < b + 2 ^ 31) :
    env.thresholdCost t size l = env.thresholdCost t size l' := by
  have h' : ∀ a ∈ l', ∀ b ∈ l', a < b + 2 ^ 31 := fun a ha b hb =>
    h a (hperm.mem_iff.2 ha) b (hperm.mem_iff.2 hb)
  have hge : ∀ {l : List ℕ}, (∀ a ∈ l, ∀ b ∈ l, a < b + 2 ^ 31) →
      (env.qsort cmpCostDesc l).Pairwise (· ≥ ·) := by
    intro l h
    refine (env.qsort_sorted _ _ (cmpCostDesc_consistent h)).imp_of_mem ?_
    intro a b ha hb hcmp
    have ha := (env.qsort_perm _ _).mem_iff.1 ha
    have hb := (env.qsort_perm _ _).mem_iff.1 hb
    rw [cmpCostDesc_eq (h a ha b hb) (h b hb a ha)] at hcmp
    omega
  have hsorted : env.qsort cmpCostDesc l = env.qsort cmpCostDesc l' :=
    (((env.qsort_perm _ l).trans hperm).trans (env.qsort_perm _ l').symm).eq_of_pairwise'
      (hge h) (hge h')
  rw [thresholdCost, thresholdCost, hsize, take_length, hperm.length_eq, take_length, hsorted]

/-! ### Pruned trees -/

/-- `shown` has the condition of `cond`, field by field. -/
structure Represents (env : CryptoEnv) (cond shown : CC) : Prop where
  typeId : shown.typeId = cond.typeId
  subtypes : shown.getSubtypes = cond.getSubtypes
  cost : env.getCost shown = env.getCost cond
  fingerprint : env.fingerprint shown = env.fingerprint cond

theorem Represents.typeMask {cond shown : CC} (h : env.Represents cond shown) :
    shown.typeMask = cond.typeMask := by
  rw [CC.typeMask, CC.typeMask, h.typeId, h.subtypes]

theorem Represents.asnCondition {cond shown : CC} (h : env.Represents cond shown) :
    env.asnCondition shown = env.asnCondition cond := by
  rw [CryptoEnv.asnCondition, CryptoEnv.asnCondition, h.typeId, h.subtypes, h.cost, h.fingerprint]

theorem fromAsnSubtypes_canon (hwf : cond.WellFormed) :
    env.fromAsnSubtypes (env.asnCondition cond).canon.subtypes = cond.getSubtypes := by
  cases hwf with
  | secp256k1 _ _ => rfl
  | eval code => rfl
  | threshold hsize hpos hle hsubs =>
    exact fromAsnSubtypes_asnSubtypes
      (getSubtypes_mem_plainMasks (.threshold hsize hpos hle hsubs))

theorem mkAnon_canon (hwf : cond.WellFormed) :
    ∃ hidden, env.mkAnon (env.asnCondition cond).canon = some hidden ∧
      env.Represents cond hidden ∧ ∃ type fp st cost, hidden = .anon type fp st cost := by
  have h32 := env.length_fingerprint_wellFormed hwf
  have hcopy : env.memcpy (env.fingerprint cond) 32 = env.fingerprint cond := by
    rw [env.memcpy_eq_take (by omega), take_of_length_le (by omega)]
  have htype : getTypeByAsnEnum (env.asnCondition cond).canon.present = some cond.typeId := by
    rw [AsnCondition.canon_present]
    exact getTypeByAsnEnum_asnType cond.typeId
  refine ⟨.anon cond.typeId (env.fingerprint cond) cond.getSubtypes (env.getCost cond), ?_,
    ⟨rfl, rfl, rfl, rfl⟩, _, _, _, _, rfl⟩
  rw [mkAnon, htype]
  simp only [AsnCondition.canon_fingerprint, AsnCondition.canon_cost, fromAsnSubtypes_canon hwf]
  rw [asnCondition, hcopy]

theorem take_size {α : Type} {l : List α} (h : size.toNat = l.length) :
    l.take size.toNat = l := by
  rw [h, take_length]

theorem map_eq_of_represents {β : Type} {g : CC → β} {l l' : List CC}
    (hrep : List.Forall₂ env.Represents l l') (hg : ∀ a b, env.Represents a b → g b = g a) :
    l'.map g = l.map g := by
  induction hrep with
  | nil => rfl
  | cons hab _ ih => rw [map_cons, map_cons, hg _ _ hab, ih]

/-- Two threshold nodes whose subconditions represent each other up to order
represent each other. -/
theorem represents_threshold {subs subs' l l' : List CC}
    (hsize : size.toNat = subs.length) (hsubs : subs.Perm l) (hsubs' : subs'.Perm l')
    (hrep : List.Forall₂ env.Represents l l')
    (hcost : ∀ a ∈ subs, ∀ b ∈ subs, env.getCost a < env.getCost b + 2 ^ 31) :
    env.Represents (.threshold t size subs) (.threshold t size subs') := by
  have hmap : ∀ {β : Type} (g : CC → β),
      (∀ a b, env.Represents a b → g b = g a) → (subs'.map g).Perm (subs.map g) := by
    intro β g hg
    exact (hsubs'.map g).trans (map_eq_of_represents hrep hg ▸ (hsubs.map g).symm)
  have hsize' : size.toNat = subs'.length := by
    rw [hsize, hsubs.length_eq, hsubs'.length_eq, hrep.length_eq]
  have htake : ∀ {β : Type} (g : CC → β), (subs.map g).take size.toNat = subs.map g :=
    fun g => take_size (by rw [hsize, length_map])
  have htake' : ∀ {β : Type} (g : CC → β), (subs'.map g).take size.toNat = subs'.map g :=
    fun g => take_size (by rw [hsize', length_map])
  refine ⟨rfl, ?_, ?_, ?_⟩
  · simp only [CC.getSubtypes, CC.typeMasks_eq_map]
    rw [htake, htake', (hmap CC.typeMask fun _ _ h => h.typeMask).foldl_eq']
    intro x _ y _ z
    rw [UInt32.or_assoc, UInt32.or_comm x y, ← UInt32.or_assoc]
  · simp only [getCost, getCosts_eq_map]
    have hperm := hmap env.getCost fun _ _ h => h.cost
    refine (thresholdCost_perm hperm.symm (by rw [hsize, length_map]) ?_).symm
    intro a ha b hb
    obtain ⟨sub, hsub, rfl⟩ := mem_map.1 ha
    obtain ⟨sub', hsub', rfl⟩ := mem_map.1 hb
    exact hcost sub hsub sub' hsub'
  · rw [fingerprint_threshold, fingerprint_threshold, thresholdContents, thresholdContents, htake,
      htake']
    refine congrArg env.hashFingerprintContents (derThresholdContents_perm t ?_)
    refine ((env.qsort_perm _ _).map _).trans (.trans ?_ ((env.qsort_perm _ _).map _).symm)
    exact (hmap env.asnCondition fun _ _ h => h.asnCondition).map _

/-- `shown` is what the fulfillment of `cond` reveals: it represents `cond`, is
fulfilled, and what it reveals verifies. -/
structure Pruned (env : CryptoEnv) (sighash : Bytes) (cond shown : CC) : Prop where
  represents : env.Represents cond shown
  fulfilled : shown.isFulfilled
  signed : shown.hasSignature → shown.isSigned
  signing : shown.hasSignature → shown.typeMask &&& CCSigningNodes ≠ 0
  ed25519 : shown.visitAll env.ed25519Visit sighash
  secp256k1 : shown.visitAll (env.secp256k1Visit sighash) []
  eval : shown.visitAll env.evalVisit []

theorem mapM_of_forall₂ {α β : Type} {g : α → Option β} {l : List α} {r : List β}
    (h : List.Forall₂ (fun a b => g a = some b) l r) : l.mapM g = some r := by
  induction h with
  | nil => rfl
  | cons hab _ ih =>
    rw [mapM_cons, hab, ih]
    rfl

/-- Elements found for a list are found, in another order, for a reordering. -/
theorem exists_mapM_inSetOrder {α β γ : Type} (der : α → Bytes) (g : α → Option β) (k : γ → α)
    (R : γ → β → Prop) {l : List γ} (h : ∀ c ∈ l, ∃ b, g (k c) = some b ∧ R c b) :
    ∃ found found', (Fulfillment.inSetOrder der (l.map k)).mapM g = some found ∧
      found.Perm found' ∧ List.Forall₂ R l found' ∧ ∀ b ∈ found, ∃ c ∈ l, R c b := by
  have hall : ∃ found', List.Forall₂ (fun a b => g a = some b) (l.map k) found' ∧
      List.Forall₂ R l found' ∧ ∀ b ∈ found', ∃ c ∈ l, R c b := by
    induction l with
    | nil => exact ⟨[], .nil, .nil, by simp⟩
    | cons c l ih =>
      obtain ⟨b, hb, hR⟩ := h c (by simp)
      obtain ⟨found', hfound, hRs, hmem⟩ := ih fun c' hc' => h c' (by simp [hc'])
      refine ⟨b :: found', .cons hb hfound, .cons hR hRs, ?_⟩
      intro b' hb'
      rcases mem_cons.1 hb' with rfl | hb'
      · exact ⟨c, by simp, hR⟩
      · obtain ⟨c', hc', hR'⟩ := hmem b' hb'
        exact ⟨c', mem_cons_of_mem _ hc', hR'⟩
  obtain ⟨found', hfound, hR, hmem⟩ := hall
  obtain ⟨found, hsorted, hperm⟩ :=
    perm_comp_forall₂ (Fulfillment.inSetOrder_perm der (l.map k)) hfound
  exact ⟨found, found', mapM_of_forall₂ hsorted, hperm, hR, fun b hb => hmem b (hperm.mem_iff.1 hb)⟩

variable {sighash : Bytes}

/-- A threshold node of revealed and hidden subconditions, as many of them
revealed as the threshold says. -/
theorem pruned_threshold {subs shown hidden : List CC}
    (hwf : (CC.threshold t size subs).WellFormed) (hcount : shown.length = t)
    (hsize : size.toNat = (shown ++ hidden).length)
    (hrep : env.Represents (.threshold t size subs) (.threshold t size (shown ++ hidden)))
    (hmasks : ∀ sub ∈ shown ++ hidden, sub.typeMask ∈ plainMasks)
    (hshown : ∀ sub ∈ shown, ∃ cond, env.Pruned sighash cond sub)
    (hhidden : ∀ sub ∈ hidden, ∃ type fp st cost, sub = .anon type fp st cost) :
    env.Pruned sighash (.threshold t size subs) (.threshold t size (shown ++ hidden)) := by
  have hpos : 0 < t := by
    cases hwf with
    | threshold _ hpos _ _ => exact hpos
  have hfulfilled : (CC.threshold t size (shown ++ hidden)).isFulfilled := by
    rw [CC.isFulfilled, CC.areFulfilled_eq_map, take_size (by rw [hsize, length_map]),
      countFulfilled_iff hpos, map_append, count_append]
    have hall : (shown.map CC.isFulfilled).count true = (shown.map CC.isFulfilled).length := by
      refine count_eq_length.2 fun b hb => ?_
      obtain ⟨sub, hsub, rfl⟩ := mem_map.1 hb
      obtain ⟨cond, hpruned⟩ := hshown sub hsub
      exact hpruned.fulfilled.symm
    rw [hall, length_map]
    omega
  -- a signature is in a revealed subcondition, an anonymous one has none
  have hwhere : (CC.threshold t size (shown ++ hidden)).hasSignature →
      ∃ sub ∈ shown, sub.hasSignature := by
    intro h
    simp only [CC.hasSignature, CC.haveSignature_eq_map, any_map, any_eq_true] at h
    obtain ⟨sub, hsub, hsig⟩ := h
    rcases mem_append.1 hsub with hsub | hsub
    · exact ⟨sub, hsub, hsig⟩
    · obtain ⟨_, _, _, _, rfl⟩ := hhidden sub hsub
      simp [CC.hasSignature] at hsig
  have hvisit : ∀ (visitor : Bytes → CC → Bool) (msg : Bytes),
      (∀ t size subs, visitor msg (.threshold t size subs)) →
      (∀ type fp st cost, visitor msg (.anon type fp st cost)) →
      (∀ sub ∈ shown, sub.visitAll visitor msg) →
      (CC.threshold t size (shown ++ hidden)).visitAll visitor msg := by
    intro visitor msg hthr hanon hsubs
    rw [CC.visitAll, CC.visitAlls_eq_map, take_size (by rw [hsize, length_map]), hthr,
      Bool.true_and, all_map, all_eq_true]
    intro sub hsub
    rcases mem_append.1 hsub with hsub | hsub
    · exact hsubs sub hsub
    · obtain ⟨_, _, _, _, rfl⟩ := hhidden sub hsub
      exact hanon _ _ _ _
  refine ⟨hrep, hfulfilled, ?_, ?_, ?_, ?_, ?_⟩
  · intro h
    obtain ⟨sub, hsub, hsig⟩ := hwhere h
    obtain ⟨cond, hpruned⟩ := hshown sub hsub
    rw [CC.isSigned, hfulfilled, CC.areSigned_eq_map, take_size (by rw [hsize, length_map]),
      Bool.true_and, any_map, any_eq_true]
    exact ⟨sub, mem_append_left _ hsub, hpruned.signed hsig⟩
  · intro h
    obtain ⟨sub, hsub, hsig⟩ := hwhere h
    obtain ⟨cond, hpruned⟩ := hshown sub hsub
    have hclear : ∀ a ∈ plainMasks, a &&& CCSigningNodes ≠ 0 →
        (CCTypeId.threshold.bit ||| (a &&& ~~~CCTypeId.threshold.bit)) &&& CCSigningNodes ≠ 0 :=
      forall_plainMasks (by decide)
    have hall : ∀ m ∈ (shown ++ hidden).map CC.typeMask, m ∈ plainMasks := by
      intro m hm
      obtain ⟨sub', hsub', rfl⟩ := mem_map.1 hm
      exact hmasks sub' hsub'
    rw [CC.typeMask, CC.getSubtypes, CC.typeMasks_eq_map, take_size (by rw [hsize, length_map])]
    refine hclear _ (foldl_or_mem_plainMasks hall (by decide))
      (foldl_or_signing hall (by decide) (Or.inr ⟨sub.typeMask, ?_, hpruned.signing hsig⟩))
    exact mem_map_of_mem (mem_append_left _ hsub)
  · refine hvisit _ _ (fun _ _ _ => rfl) (fun _ _ _ _ => rfl) fun sub hsub => ?_
    obtain ⟨cond, hpruned⟩ := hshown sub hsub
    exact hpruned.ed25519
  · refine hvisit _ _ (fun _ _ _ => rfl) (fun _ _ _ _ => rfl) fun sub hsub => ?_
    obtain ⟨cond, hpruned⟩ := hshown sub hsub
    exact hpruned.secp256k1
  · refine hvisit _ _ (fun _ _ _ => rfl) (fun _ _ _ _ => rfl) fun sub hsub => ?_
    obtain ⟨cond, hpruned⟩ := hshown sub hsub
    exact hpruned.eval

/-- The step of `exists_pruned` at a threshold node. -/
theorem exists_pruned_threshold {subs : List CC}
    (hwf : (CC.threshold t size subs).WellFormed)
    (hcost : ∀ a ∈ subs, ∀ b ∈ subs, env.getCost a < env.getCost b + 2 ^ 31)
    (ih : ∀ sub ∈ subs, ∀ f, env.toFulfillment sub = some f →
      ∃ shown, env.fulfillmentToCC f.canon = some shown ∧ env.Pruned sighash sub shown)
    {f : Fulfillment} (hf : env.toFulfillment (.threshold t size subs) = some f) :
    ∃ shown, env.fulfillmentToCC f.canon = some shown ∧
      env.Pruned sighash (.threshold t size subs) shown := by
  obtain ⟨hsize, hsubs⟩ : size.toNat = subs.length ∧ ∀ sub ∈ subs, sub.WellFormed := by
    cases hwf with
    | threshold hsize _ _ hsubs => exact ⟨hsize, hsubs⟩
  obtain ⟨taken, rest, hperm, htaken, hsome, hnone⟩ := toFulfillment_threshold env hsize
  obtain ⟨hlen, hff⟩ := hsome (by
    by_contra hlt
    rw [hnone (by omega)] at hf
    simp at hf)
  obtain rfl := Option.some.inj (hff.symm.trans hf)
  have hin : ∀ p ∈ taken, p.1 ∈ subs := fun p hp =>
    hperm.mem_iff.2 (mem_append_left _ (mem_map_of_mem hp))
  have hin' : ∀ sub ∈ rest, sub ∈ subs := fun sub hsub =>
    hperm.mem_iff.2 (mem_append_right _ hsub)
  -- the revealed subconditions, by induction, and the others under their conditions
  obtain ⟨shown, shown', hreadS, hpermS, hshown, hmemS⟩ :=
    exists_mapM_inSetOrder Fulfillment.der env.fulfillmentToCC
      (fun p : CC × Fulfillment => p.2.canon) (fun p sub => env.Pruned sighash p.1 sub)
      fun p hp => ih p.1 (hin p hp) p.2 (htaken p hp)
  obtain ⟨hidden, hidden', hreadH, hpermH, hhidden, hmemH⟩ :=
    exists_mapM_inSetOrder AsnCondition.der env.mkAnon (fun sub => (env.asnCondition sub).canon)
      (fun cond sub => env.Represents cond sub ∧ ∃ type fp st cost, sub = .anon type fp st cost)
      fun sub hsub => mkAnon_canon (hsubs sub (hin' sub hsub))
  have hlenS : shown.length = t := by
    rw [hpermS.length_eq, ← hshown.length_eq, hlen]
  have hlenH : hidden.length = rest.length := by
    rw [hpermH.length_eq, ← hhidden.length_eq]
  have hlenT : size.toNat = (shown ++ hidden).length := by
    rw [hsize, hperm.length_eq, length_append, length_append, length_map, hlen, hlenS, hlenH]
  have hrepS : List.Forall₂ env.Represents (taken.map Prod.fst) shown' :=
    forall₂_map_left_iff.2 (hshown.imp fun _ _ h => h.represents)
  have hrep : env.Represents (.threshold t size subs) (.threshold t size (shown ++ hidden)) :=
    represents_threshold hsize hperm (hpermS.append hpermH)
      (rel_append hrepS (hhidden.imp fun _ _ h => h.1)) hcost
  refine ⟨.threshold t size (shown ++ hidden), ?_,
    pruned_threshold hwf hlenS hlenT hrep ?_ ?_ fun sub hsub => ?_⟩
  · have hsize8 : UInt8.ofNat (t + rest.length) = size := by
      rw [← hlenS, ← hlenH, ← length_append, ← hlenT]
      exact UInt8.ofNat_toNat
    have hcountF := (Fulfillment.inSetOrder_perm Fulfillment.der
      (taken.map fun p => p.2.canon)).length_eq
    have hcountC := (Fulfillment.inSetOrder_perm AsnCondition.der
      (rest.map fun sub => (env.asnCondition sub).canon)).length_eq
    rw [length_map] at hcountF hcountC
    simp only [Fulfillment.canon, Fulfillment.canonList_eq_map, fulfillmentToCC,
      fulfillmentsToCC_eq_mapM, map_map]
    simp only [Function.comp_def, hreadS, hreadH, hcountF, hcountC, hlen, hsize8]
  · intro sub hsub
    rcases mem_append.1 hsub with hsub | hsub
    · obtain ⟨p, hp, hpruned⟩ := hmemS sub hsub
      rw [hpruned.represents.typeMask]
      exact typeMask_mem_plainMasks (hsubs _ (hin p hp))
    · obtain ⟨cond, hcond, hrepH, -⟩ := hmemH sub hsub
      rw [hrepH.typeMask]
      exact typeMask_mem_plainMasks (hsubs _ (hin' cond hcond))
  · intro sub hsub
    obtain ⟨p, -, hpruned⟩ := hmemS sub hsub
    exact ⟨p.1, hpruned⟩
  · obtain ⟨-, -, -, hanon⟩ := hmemH sub hsub
    exact hanon

/-- **What the fulfillment of a signed tree reveals.** -/
theorem exists_pruned (hwf : cond.WellFormed)
    (hcosts : env.CostsComparable cond) (hplaced : env.Placed sighash cond) {f : Fulfillment}
    (hf : env.toFulfillment cond = some f) :
    ∃ shown, env.fulfillmentToCC f.canon = some shown ∧ env.Pruned sighash cond shown := by
  induction hwf generalizing f with
  | @secp256k1 pk sig hpk hsig =>
    obtain ⟨s, rfl, rfl⟩ := Option.map_eq_some_iff.1 hf
    obtain ⟨hparse, hverify⟩ : env.pubkeyParse pk ∧ env.ecdsaVerify s sighash pk := by
      cases hplaced with
      | secp256k1 h => exact h s rfl
    have hpk' : env.memcpy pk 33 = pk := by
      rw [env.memcpy_eq_take (by omega), take_of_length_le (by omega)]
    have hs : env.memcpy s 64 = s := by
      have := hsig s rfl
      rw [env.memcpy_eq_take (by omega), take_of_length_le (by omega)]
    refine ⟨.secp256k1 pk (some s), ?_, ⟨⟨rfl, rfl, rfl, rfl⟩, rfl, fun _ => ?_, fun _ => ?_, rfl, ?_,
      rfl⟩⟩
    · simp [Fulfillment.canon, fulfillmentToCC, secp256k1FromFulfillment, hpk', hs, hparse]
    · exact (by decide : (true && decide (CCTypeId.secp256k1.bit &&& CCSigningNodes ≠ 0)) = true)
    · exact (by decide : (CCTypeId.secp256k1.bit ||| 0) &&& CCSigningNodes ≠ 0)
    · simp [CC.visitAll, secp256k1Visit, hparse, hverify]
  | eval code =>
    cases hf
    cases hplaced with
    | eval hcheck =>
      exact ⟨.eval code, rfl, ⟨⟨rfl, rfl, rfl, rfl⟩, rfl, fun h => by simp [CC.hasSignature] at h,
        fun h => by simp [CC.hasSignature] at h, rfl, rfl, hcheck⟩⟩
  | threshold hsize hpos hle hsubs ih =>
    cases hplaced with
    | threshold hplaced =>
      cases hcosts with
      | threshold hcost hcosts =>
        exact exists_pruned_threshold (.threshold hsize hpos hle hsubs) hcost
          (fun sub hsub f hf => ih sub hsub (hcosts sub hsub) (hplaced sub hsub) hf) hf

/-! ### Acceptance -/

def MAX_SCRIPT_CRYPTOCONDITION_FULFILLMENT_SIZE : ℕ := 2048

/-- A pruned tree with a signature passes every check. -/
theorem accepts_of_pruned {cond shown : CC} (hwf : cond.WellFormed)
    (hpruned : env.Pruned sighash cond shown) (hsig : shown.hasSignature)
    {nHashType : UInt8} (hhash : env.signatureHash (env.ccPubKey cond) nHashType = some sighash) :
    env.Accepts shown nHashType sighash (env.conditionBinary cond) := by
  have hmask := hpruned.represents.typeMask ▸ typeMask_mem_plainMasks hwf
  have hbinary : env.conditionBinary shown = env.conditionBinary cond := by
    rw [conditionBinary, conditionBinary, hpruned.represents.asnCondition]
  have henabled : ∀ m ∈ plainMasks, m &&& ~~~CCEnabledTypes = 0 :=
    forall_plainMasks (by decide)
  have hprefix : ∀ m ∈ plainMasks, m &&& CCTypeId.prefixed.bit = 0 :=
    forall_plainMasks (by decide)
  refine ⟨?_, hpruned.signed hsig, ?_, ?_⟩
  · simp [isSupportedCryptoCondition, henabled _ hmask, hpruned.signing hsig]
  · rw [ccPubKey, hbinary]
    exact hhash
  · simp only [ccVerify, secp256k1VerifyTreeMsg32, hbinary, hprefix _ hmask, hpruned.ed25519,
      hpruned.secp256k1, hpruned.eval]
    rw [env.memcpy_eq_take le_rfl, take_length]
    simp

/-- **The fulfillment of a signed tree is accepted for its condition,** when the
pruned tree has a signature. -/
theorem check_ccSigVec (hwf : cond.WellFormed)
    (hcosts : env.CostsComparable cond)
    (hhash : env.signatureHash (env.ccPubKey cond) 1 = some sighash)
    (hplaced : env.Placed sighash cond) (hfulfilled : cond.isFulfilled)
    (hread : env.ReadsBack cond) {pruned : CC} (hprune : env.ccPrune cond = some pruned)
    (hsig : pruned.hasSignature) :
    ∃ ffillBin, env.ccSigVec cond = some ffillBin ∧
      env.checkCryptoCondition (env.conditionBinary cond) ffillBin = 1 := by
  obtain ⟨f, hf⟩ := Option.isSome_iff_exists.1 ((isSome_toFulfillment hwf).trans hfulfilled)
  obtain ⟨shown, hshown, hpruned⟩ := exists_pruned hwf hcosts hplaced hf
  have hbytes : env.readFulfillmentBinary f.der = some shown := by
    simp [readFulfillmentBinary, hread f hf, f.der_canon, hshown]
  obtain ⟨ffillBin, hvec⟩ : ∃ ffillBin, env.ccSigVec cond = some ffillBin := by
    unfold ccPrune at hprune
    split at hprune
    · exact ⟨_, ‹_›⟩
    · simp at hprune
  obtain rfl : ffillBin = f.der ++ [1] := by
    simp only [ccSigVec, hf] at hvec
    split_ifs at hvec
    exact (Option.some.inj hvec).symm
  obtain rfl : shown = pruned := by
    simp only [ccPrune, hvec, dropLast_concat, hbytes] at hprune
    exact Option.some.inj hprune
  refine ⟨_, hvec, env.checkCryptoCondition_eq_one.2 ⟨1, shown, sighash, ?_, ?_, ?_⟩⟩
  · exact getLast?_concat
  · rw [dropLast_concat, hbytes]
  · exact accepts_of_pruned hwf hpruned hsig hhash

end CryptoEnv

end Komodo
