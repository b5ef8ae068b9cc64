/-
# What the order of the subconditions decides

`thresholdCost`, `thresholdFingerprint` and `thresholdToFulfillment` of
`src/src/cryptoconditions/src/threshold.c` sort the subconditions with `qsort`, so that all nodes
compute the same condition and the same fulfillment of a tree, however it is listed.  The comparison
functions do not order what they compare.  `cmpCostDesc` and `cmpConditionCost` cut the difference
of two costs to an `int`.  `cmpConditionBin` returns 0 for two conditions with different bytes, and
1 for two with the same (`cmpConditionBin_eq`).

A `Run` is a sorting algorithm and what lies behind the objects in memory.  A threshold node is
`OrderFree` when no run and no order of its subconditions makes a difference, and it costs and
reveals what it should; `Settled` says this by the costs and the comparisons of its subconditions.
-/

import Komodo.CryptoConditions.Acceptance

namespace Komodo

open Der Selection List Nat

/-! ### Trees as they are built -/

namespace CC

/-- A tree as the decoders build it: the size of a threshold is the eight-bit count of its
subconditions, and an anonymous node has a fingerprint of 32 bytes. -/
inductive Built : CC → Prop
  | preimage (p : Bytes) : Built (.preimage p)
  | prefixed {pre : Bytes} {len : ℕ} {sub : CC} (hsub : Built sub) : Built (.prefixed pre len sub)
  | threshold {t : ℕ} {size : UInt8} {subs : List CC} (hsize : size = UInt8.ofNat subs.length)
      (hsubs : ∀ sub ∈ subs, Built sub) : Built (.threshold t size subs)
  | ed25519 (pk : Bytes) (sig : Option Bytes) : Built (.ed25519 pk sig)
  | secp256k1 (pk : Bytes) (sig : Option Bytes) : Built (.secp256k1 pk sig)
  | eval (code : Bytes) : Built (.eval code)
  | anon {type : CCTypeId} {fp : Bytes} {st : UInt32} {cost : ℕ} (hfp : fp.length = 32) :
      Built (.anon type fp st cost)

/-- `Within node cond`: `node` is a node of the tree `cond`. -/
inductive Within (node : CC) : CC → Prop
  | self : Within node node
  | prefixed {pre : Bytes} {len : ℕ} {sub : CC} (h : Within node sub) :
      Within node (.prefixed pre len sub)
  | threshold {t : ℕ} {size : UInt8} {subs : List CC} {sub : CC} (hmem : sub ∈ subs)
      (h : Within node sub) : Within node (.threshold t size subs)

end CC

/-- What is an order in the sense of `qsort` is one on different places. -/
theorem Consistent.orders {α : Type} {cmp : α → α → ℤ} {l : List α} (h : Consistent cmp l) :
    Orders cmp l where
  symm a b hab := h.symm a (hab.subset (by simp)) b (hab.subset (by simp))
  trans a b c habc :=
    h.trans a (habc.subset (by simp)) b (habc.subset (by simp)) c (habc.subset (by simp))

namespace CryptoEnv

/-- What `fulfillmentToCC` builds is built so. -/
theorem built_of_fulfillmentToCC {env : CryptoEnv} {f : Fulfillment} {cond : CC}
    (h : env.fulfillmentToCC f = some cond) : cond.Built := by
  induction f using Fulfillment.induct generalizing cond with
  | preimage p =>
    cases h
    exact .preimage p
  | prefixed pre len sub ih =>
    obtain ⟨sub', hsub, rfl⟩ := Option.map_eq_some_iff.1 h
    exact .prefixed (ih hsub)
  | threshold fs cs ih =>
    rw [fulfillmentToCC, fulfillmentsToCC_eq_mapM] at h
    split at h
    case h_1 revealed hidden hfs hcs =>
      cases h
      have hlen := (forall₂_of_mapM hfs).length_eq
      have hlen' := (forall₂_of_mapM hcs).length_eq
      refine .threshold (by rw [length_append, hlen, hlen']) fun sub hsub => ?_
      rcases mem_append.1 hsub with hsub | hsub
      · obtain ⟨f, hf, hfsub⟩ := exists_of_mem_mapM hfs hsub
        exact ih f hf hfsub
      · obtain ⟨c, -, hcsub⟩ := exists_of_mem_mapM hcs hsub
        rw [mkAnon] at hcsub
        split at hcsub
        · cases hcsub
        · cases hcsub
          exact .anon (env.length_memcpy _ _)
    case h_2 => cases h
  | rsa m s => cases h
  | ed25519 pk s =>
    cases h
    exact .ed25519 _ _
  | secp256k1 pk s =>
    simp only [fulfillmentToCC, secp256k1FromFulfillment] at h
    split at h
    · cases h
      exact .secp256k1 _ _
    · cases h
  | eval code =>
    cases h
    exact .eval code

theorem length_fingerprint_built (env : CryptoEnv) {cond : CC} (h : cond.Built) :
    (env.fingerprint cond).length = 32 := by
  cases h with
  | preimage p => exact env.sha256_length p
  | prefixed _ => exact env.length_hashFingerprintContents _
  | threshold _ _ =>
    rw [fingerprint_threshold]
    exact env.length_hashFingerprintContents _
  | ed25519 pk sig => exact env.length_hashFingerprintContents _
  | secp256k1 pk sig => exact env.length_hashFingerprintContents _
  | eval code => exact env.sha256_length code
  | anon hfp => exact hfp

/-! ### Runs -/

/-- What may differ between two nodes that compute the same. -/
structure Run where
  sorting : Sorting
  beyond : Beyond

/-- The library in this run. -/
def on (env : CryptoEnv) (r : Run) : CryptoEnv :=
  { env with
    qsort := r.sorting.sort
    qsort_perm := fun cmp l => (r.sorting.arrangement cmp l).perm
    qsort_sorted := fun cmp l h => (r.sorting.arrangement cmp l).sorted h.orders
    beyond := r.beyond }

/-- Whether `asnFulfillmentNew` gives a fulfillment. -/
def fulfilled (env : CryptoEnv) (sub : CC) : Bool := (env.toFulfillment sub).isSome

/-- What is seen of a subcondition in a fulfillment: its bytes where it is revealed, and the bytes
of its condition. -/
def key (env : CryptoEnv) (sub : CC) : Option Bytes × Bytes :=
  ((env.toFulfillment sub).map Fulfillment.der, (env.asnCondition sub).der)

/-! ### Comparisons -/

theorem cmpCostDesc_self (a : ℕ) : cmpCostDesc a a = 0 := by simp [cmpCostDesc]

/-- **Conditions compare as equal when their bytes differ,** and as greater when they are the
same. -/
theorem cmpConditionBin_eq {a b : AsnCondition} (ha : a.der.length < 256 ^ 8)
    (hb : b.der.length < 256 ^ 8) : cmpConditionBin a b = if a.der = b.der then 1 else 0 := by
  unfold cmpConditionBin
  by_cases heq : a.der = b.der
  · rw [heq]
    simp
  · rw [if_neg heq]
    refine if_neg fun htake => heq ?_
    -- neither encoding begins the other
    have hbody : a.body.length < 256 ^ 8 := (length_lt_length_tlv _ _).trans ha
    have hbody' : b.body.length < 256 ^ 8 := (length_lt_length_tlv _ _).trans hb
    have hinj : ∀ r s : Bytes, a.der ++ r = b.der ++ s → a.der = b.der := by
      intro r s h
      obtain ⟨htag, hval, -⟩ := tlv_append_inj hbody hbody' h
      rw [AsnCondition.der, AsnCondition.der, htag, hval]
    rcases le_total a.der.length b.der.length with hle | hle
    · rw [min_eq_left hle, take_length] at htake
      refine hinj (b.der.drop a.der.length) [] ?_
      conv_lhs => lhs; rw [htake]
      rw [take_append_drop, append_nil]
    · rw [min_eq_right hle, take_length] at htake
      refine hinj [] (a.der.drop b.der.length) ?_
      conv_rhs => lhs; rw [← htake]
      rw [take_append_drop, append_nil]

section
variable {env : CryptoEnv} {a b : CC}

theorem cmpConditionBin_nonneg (env : CryptoEnv) (ha : a.Built) (hb : b.Built) :
    0 ≤ cmpConditionBin (env.asnCondition a) (env.asnCondition b) := by
  have hlen : ∀ {c : CC}, c.Built → (env.asnCondition c).der.length < 256 ^ 8 := fun hc =>
    lt_of_le_of_lt (env.length_der_asnCondition_le (env.length_fingerprint_built hc)) (by norm_num)
  rw [cmpConditionBin_eq (hlen ha) (hlen hb)]
  split_ifs <;> omega

theorem cmpConditionCost_of_cost_eq (h : env.getCost a = env.getCost b) :
    env.cmpConditionCost a b = cmpConditionBin (env.asnCondition a) (env.asnCondition b) := by
  simp [cmpConditionCost, h]

theorem cmpConditionCost_self_nonneg (ha : a.Built) : 0 ≤ env.cmpConditionCost a a := by
  rw [cmpConditionCost_of_cost_eq rfl]
  exact cmpConditionBin_nonneg env ha ha

theorem cmpConditionCost_swap {subs : List CC} (ha : a.Built) (hb : b.Built)
    (hsub : [a, b].Subperm subs) (hord : Orders env.cmpConditionCost subs)
    (hcost : env.getCost a = env.getCost b) : env.cmpConditionCost b a ≤ 0 := by
  have hsymm := hord.symm a b hsub
  have hle := cmpConditionBin_nonneg env ha hb
  rw [← cmpConditionCost_of_cost_eq hcost] at hle
  omega

end

/-! ### The fulfillment of a threshold node -/

/-- What the loop of `thresholdToFulfillment` takes, and what it leaves. -/
theorem pickFulfillments_map (env : CryptoEnv) (needed : ℕ) (l : List CC) : ∃ hidden : List CC,
    env.pickFulfillments needed (l.map fun sub => (sub, env.toFulfillment sub))
      = (needed - l.countP env.fulfilled,
        ((l.filter env.fulfilled).take needed).filterMap env.toFulfillment,
        hidden.map env.asnCondition)
    ∧ hidden.Perm ((l.filter env.fulfilled).drop needed
        ++ l.filter fun sub => !env.fulfilled sub) := by
  induction l generalizing needed with
  | nil => exact ⟨[], by simp [pickFulfillments], by simp⟩
  | cons sub l ih =>
    rw [map_cons]
    cases hf : env.toFulfillment sub with
    | none =>
      have hnot : env.fulfilled sub = false := by simp [fulfilled, hf]
      obtain ⟨hidden, hpick, hperm⟩ := ih needed
      refine ⟨sub :: hidden, ?_, ?_⟩
      · rw [pickFulfillments, hpick, countP_cons_of_neg (by simp [hnot]),
          filter_cons_of_neg (by simp [hnot]), map_cons]
        exact fun _ _ _ h => by cases h
      · rw [filter_cons_of_neg (by simp [hnot]), filter_cons_of_pos (by simp [hnot])]
        exact (hperm.cons sub).trans perm_middle.symm
    | some f =>
      have hpos : env.fulfilled sub = true := by simp [fulfilled, hf]
      cases needed with
      | zero =>
        obtain ⟨hidden, hpick, hperm⟩ := ih 0
        refine ⟨sub :: hidden, ?_, ?_⟩
        · rw [pickFulfillments, hpick]
          · simp
          · exact fun _ _ h => by cases h
        · rw [filter_cons_of_pos hpos, filter_cons_of_neg (by simp [hpos])]
          simpa using hperm.cons sub
      | succ needed =>
        obtain ⟨hidden, hpick, hperm⟩ := ih needed
        refine ⟨hidden, ?_, ?_⟩
        · rw [pickFulfillments, hpick, countP_cons_of_pos hpos, filter_cons_of_pos hpos,
            take_succ_cons, filterMap_cons_some hf, Nat.add_sub_add_right]
        · rwa [filter_cons_of_pos hpos, filter_cons_of_neg (by simp [hpos]), drop_succ_cons]

section
variable {env : CryptoEnv} {t : ℕ} {size : UInt8} {subs l : List CC}

/-- The fulfillment of a threshold node, once its subconditions are sorted. -/
theorem toFulfillment_of_sorted (hsize : size.toNat = subs.length)
    (hsorted : env.qsort (fun a b => env.cmpConditionCost a.1 b.1)
      (subs.map fun sub => (sub, env.toFulfillment sub))
        = l.map fun sub => (sub, env.toFulfillment sub)) :
    ∃ hidden : List CC, hidden.Perm ((l.filter env.fulfilled).drop t
        ++ l.filter fun sub => !env.fulfilled sub)
      ∧ env.toFulfillment (.threshold t size subs) =
        if t ≤ l.countP env.fulfilled then
          some (.threshold (((l.filter env.fulfilled).take t).filterMap env.toFulfillment)
            (hidden.map env.asnCondition))
        else none := by
  obtain ⟨hidden, hpick, hperm⟩ := env.pickFulfillments_map t l
  refine ⟨hidden, hperm, ?_⟩
  rw [toFulfillment, withFulfillments_eq_map, take_size (by rw [hsize, length_map]), hsorted, hpick]
  split_ifs with hle
  · rw [Nat.sub_eq_zero_of_le hle]
    rfl
  · obtain ⟨n, hn⟩ : ∃ n, t - l.countP env.fulfilled = n + 1 :=
      ⟨t - l.countP env.fulfilled - 1, by omega⟩
    rw [hn]
    rfl

theorem exists_sorted (env : CryptoEnv) (r : Run) (subs : List CC) :
    ∃ l, Arrangement (env.on r).cmpConditionCost subs l
      ∧ (env.on r).qsort (fun a b => (env.on r).cmpConditionCost a.1 b.1)
        (subs.map fun sub => (sub, (env.on r).toFulfillment sub))
          = l.map fun sub => (sub, (env.on r).toFulfillment sub) := by
  have harr := r.sorting.arrangement
    (fun a b : CC × Option Fulfillment => (env.on r).cmpConditionCost a.1 b.1)
    (subs.map fun sub => (sub, (env.on r).toFulfillment sub))
  have hfst : Arrangement (env.on r).cmpConditionCost _ _ :=
    harr.map (f := Prod.fst) fun _ _ _ _ => rfl
  rw [map_map, show Prod.fst ∘ (fun sub => (sub, (env.on r).toFulfillment sub)) = id from rfl,
    map_id] at hfst
  refine ⟨_, hfst, ?_⟩
  rw [map_map]
  refine (map_id _).symm.trans (map_congr_left fun p hp => ?_)
  obtain ⟨sub, -, rfl⟩ := mem_map.1 (harr.perm.mem_iff.1 hp)
  rfl

end

end CryptoEnv

/-! ### Nodes without a choice -/

/-- The sets of a threshold fulfillment: what is revealed and the other conditions, by their
bytes. -/
def Fulfillment.sets : Fulfillment → Multiset Bytes × Multiset Bytes
  | .threshold fs cs => (fs.map der, cs.map AsnCondition.der)
  | _ => (0, 0)

namespace CryptoEnv

/-- A threshold node whose condition and fulfillment do not depend on the run or on the order of its
subconditions, with the cost that it should have and a cheapest fulfillment. -/
structure OrderFree (env : CryptoEnv) (t : ℕ) (size : UInt8) (subs : List CC) : Prop where
  cost : ∀ r r' subs', subs'.Perm subs → (env.on r').getCost (.threshold t size subs')
    = (env.on r).getCost (.threshold t size subs)
  fingerprint : ∀ r r' subs', subs'.Perm subs → (env.on r').fingerprint (.threshold t size subs')
    = (env.on r).fingerprint (.threshold t size subs)
  binary : ∀ r r' subs', subs'.Perm subs → (env.on r').conditionBinary (.threshold t size subs')
    = (env.on r).conditionBinary (.threshold t size subs)
  cost_eq : ∀ r, (env.on r).getCost (.threshold t size subs)
    = largest t (subs.map (env.on r).getCost) + 1024 * subs.length
  reveals : ∀ r, ((env.on r).toFulfillment (.threshold t size subs)).isSome
    ↔ t ≤ subs.countP (env.on r).fulfilled
  revealed : ∀ r r' subs', subs'.Perm subs →
    ((env.on r').toFulfillment (.threshold t size subs')).map Fulfillment.sets
      = ((env.on r).toFulfillment (.threshold t size subs)).map Fulfillment.sets
  cheapest : ∀ r f, (env.on r).toFulfillment (.threshold t size subs) = some f →
    ∃ taken hidden : List CC, f = .threshold (taken.filterMap (env.on r).toFulfillment)
        (hidden.map (env.on r).asnCondition)
      ∧ subs.Perm (taken ++ hidden) ∧ taken.length = t
      ∧ (∀ sub ∈ taken, (env.on r).fulfilled sub)
      ∧ ∀ others rest : List CC, subs.Perm (others ++ rest) → others.length = t →
        (∀ sub ∈ others, (env.on r).fulfilled sub) →
        (taken.map (env.on r).getCost).sum ≤ (others.map (env.on r).getCost).sum

/-- Taking `a` and leaving `b` is a wrong choice, or one of two equally good ones. -/
def Doubtful (env : CryptoEnv) (a b : CC) : Prop :=
  env.getCost b < env.getCost a ∨ env.getCost a = env.getCost b ∧ env.key a ≠ env.key b

/-- **The threshold nodes that the comparisons settle.** There are as many subconditions as the
threshold asks for, and as an eight-bit count can count; the cost fits `unsigned long`; no smaller
cost can come before a larger one where the costs that count end; and of two fulfilled
subconditions, none can be taken in doubt where the revealed ones end. -/
structure Settled (env : CryptoEnv) (t : ℕ) (subs : List CC) : Prop where
  le : t ≤ subs.length
  counted : subs.length < 256
  fits : largest t (subs.map env.getCost) + 1024 * subs.length < 2 ^ 64
  costs : ∀ a ∈ subs.map env.getCost, ∀ b ∈ subs.map env.getCost, a < b →
    ¬ Separable (fun _ => true) t a b cmpCostDesc (subs.map env.getCost)
  choices : ∀ a ∈ subs, ∀ b ∈ subs, env.fulfilled a → env.fulfilled b → env.Doubtful a b →
    ¬ Separable env.fulfilled t a b env.cmpConditionCost subs

/-- The same condition and the same bytes in every run. -/
structure Steady (env : CryptoEnv) (cond : CC) : Prop where
  cost : ∀ r r', (env.on r').getCost cond = (env.on r).getCost cond
  fingerprint : ∀ r r', (env.on r').fingerprint cond = (env.on r).fingerprint cond
  bytes : ∀ r r', ((env.on r').toFulfillment cond).map Fulfillment.der
    = ((env.on r).toFulfillment cond).map Fulfillment.der

section
variable {env : CryptoEnv} {t : ℕ} {size : UInt8} {subs subs' : List CC}

variable {cond a b : CC}

theorem Steady.asnCondition (h : env.Steady cond) (r r' : Run) :
    (env.on r').asnCondition cond = (env.on r).asnCondition cond := by
  rw [CryptoEnv.asnCondition, CryptoEnv.asnCondition, h.cost r r', h.fingerprint r r']

theorem Steady.fulfilled (h : env.Steady cond) (r r' : Run) :
    (env.on r').fulfilled cond = (env.on r).fulfilled cond := by
  have hsome := congrArg Option.isSome (h.bytes r r')
  simpa [CryptoEnv.fulfilled] using hsome

theorem Steady.key (h : env.Steady cond) (r r' : Run) :
    (env.on r').key cond = (env.on r).key cond := by
  rw [CryptoEnv.key, CryptoEnv.key, h.bytes r r', h.asnCondition r r']

theorem Steady.cmpConditionCost (ha : env.Steady a) (hb : env.Steady b) (r r' : Run) :
    (env.on r').cmpConditionCost a b = (env.on r).cmpConditionCost a b := by
  rw [CryptoEnv.cmpConditionCost, CryptoEnv.cmpConditionCost, ha.cost r r', hb.cost r r',
    ha.asnCondition r r', hb.asnCondition r r']

/-! ### Costs -/

theorem map_getD_range {l : List ℕ} {f : ℕ → ℕ} (h : t ≤ l.length) :
    (range t).map (fun i => l.getD i (f i)) = l.take t := by
  apply ext_getElem
  · simp [h]
  · intro i hi hi'
    have hlt : i < l.length := by
      rw [length_map, length_range] at hi
      omega
    simp [hlt]

theorem getCost_threshold (h : t ≤ size.toNat) (hsize : size.toNat ≤ subs.length) :
    env.getCost (.threshold t size subs)
      = (((env.qsort cmpCostDesc ((subs.map env.getCost).take size.toNat)).take t).sum
        + 1024 * size.toNat) % 2 ^ 64 := by
  rw [getCost, getCosts_eq_map, thresholdCost]
  rw [map_getD_range]
  rw [(env.qsort_perm _ _).length_eq, length_take, length_map]
  omega

/-- A threshold beyond the size reads the costs past the end of the array. -/
theorem getCost_ne_of_lt (h : size.toNat < t) (hsubs : ∀ sub ∈ subs, env.Steady sub)
    (sorting : Sorting) : ∃ b b' : Beyond,
      (env.on ⟨sorting, b⟩).getCost (.threshold t size subs)
        ≠ (env.on ⟨sorting, b'⟩).getCost (.threshold t size subs) := by
  obtain ⟨n, rfl⟩ : ∃ n, t = n + 1 := ⟨t - 1, by omega⟩
  let b : Beyond := ⟨fun _ _ => 0, fun _ _ => 0, fun _ => 0⟩
  let b' : Beyond := ⟨fun _ _ => 0, fun _ i => if i = n then 1 else 0, fun _ => 0⟩
  have hcosts : subs.map (env.on ⟨sorting, b'⟩).getCost = subs.map (env.on ⟨sorting, b⟩).getCost :=
    map_congr_left fun sub hsub => (hsubs sub hsub).cost _ _
  refine ⟨b, b', fun heq => ?_⟩
  rw [getCost, getCost, getCosts_eq_map, getCosts_eq_map, hcosts, thresholdCost,
    thresholdCost] at heq
  have hqsort : (env.on ⟨sorting, b'⟩).qsort cmpCostDesc
      = (env.on ⟨sorting, b⟩).qsort cmpCostDesc := rfl
  rw [hqsort] at heq
  have hlength : ((env.on ⟨sorting, b⟩).qsort cmpCostDesc
      ((subs.map (env.on ⟨sorting, b⟩).getCost).take size.toNat)).length ≤ n := by
    rw [((env.on ⟨sorting, b⟩).qsort_perm _ _).length_eq, length_take]
    omega
  generalize (env.on ⟨sorting, b⟩).qsort cmpCostDesc
    ((subs.map (env.on ⟨sorting, b⟩).getCost).take size.toNat) = costs at heq hlength
  have hsame : (range n).map
        (fun i => costs.getD i ((env.on ⟨sorting, b'⟩).beyond.cost costs i))
      = (range n).map
        (fun i => costs.getD i ((env.on ⟨sorting, b⟩).beyond.cost costs i)) := by
    refine map_congr_left fun i hi => ?_
    have hne : i ≠ n := (mem_range.1 hi).ne
    simp [on, b, b', hne]
  have hlast : costs.getD n ((env.on ⟨sorting, b'⟩).beyond.cost costs n) = 1 := by
    simp [on, b', hlength]
  have hlast' : costs.getD n ((env.on ⟨sorting, b⟩).beyond.cost costs n) = 0 := by
    simp [on, b, hlength]
  simp only [range_succ, map_append, map_cons, map_nil, sum_append_nat,
    sum_cons, sum_nil, hsame, hlast, hlast'] at heq
  omega

/-- The cost is not enough for all subconditions when the eight bits do not count them. -/
theorem size_eq_of_cost_eq (hle : t ≤ size.toNat) (hsize : size.toNat ≤ subs.length)
    (h : env.getCost (.threshold t size subs)
      = largest t (subs.map env.getCost) + 1024 * subs.length) : size.toNat = subs.length := by
  rw [getCost_threshold hle hsize] at h
  generalize hcosts : subs.map env.getCost = costs at h
  have hlength : costs.length = subs.length := by rw [← hcosts, length_map]
  have hperm := env.qsort_perm cmpCostDesc (costs.take size.toNat)
  generalize env.qsort cmpCostDesc (costs.take size.toNat) = sorted at h hperm
  have hall : (sorted ++ costs.drop size.toNat).Perm costs := by
    refine (hperm.append_right _).trans (List.Perm.of_eq ?_)
    exact take_append_drop _ _
  have hsum := sum_take_le_largest t hall
  have hshort : t ≤ sorted.length := by
    rw [hperm.length_eq, length_take]
    omega
  rw [take_append_of_le_length hshort] at hsum
  have hmod := mod_le ((sorted.take t).sum + 1024 * size.toNat) (2 ^ 64)
  omega

/-- **The cost of a settled node.** -/
theorem getCost_of_settled {r r' : Run} (hsize : size.toNat = subs.length)
    (hsubs : ∀ sub ∈ subs, env.Steady sub) (h : (env.on r).Settled t subs)
    (hperm : subs'.Perm subs) : (env.on r').getCost (.threshold t size subs')
      = largest t (subs.map (env.on r).getCost) + 1024 * subs.length := by
  have hcosts : (subs'.map (env.on r').getCost).Perm (subs.map (env.on r).getCost) := by
    refine (hperm.map _).trans (List.Perm.of_eq (map_congr_left fun sub hsub => ?_))
    exact (hsubs sub hsub).cost r r'
  have hsize' : size.toNat = subs'.length := by rw [hsize, hperm.length_eq]
  have harr := (r'.sorting.arrangement cmpCostDesc (subs'.map (env.on r').getCost)).of_perm hcosts
  have hle : t ≤ size.toNat := hsize ▸ h.le
  rw [getCost_threshold hle (by omega), take_size (by rw [hsize', length_map])]
  have hfirst : (((env.on r').qsort cmpCostDesc (subs'.map (env.on r').getCost)).take t).sum
      = largest t (subs.map (env.on r).getCost) := by
    refine (sum_take_eq_largest_iff harr.perm).2 fun a ha b hb => ?_
    by_contra hlt
    have ha' := harr.perm.mem_iff.1 (mem_of_mem_take ha)
    have hb' := harr.perm.mem_iff.1 (mem_of_mem_drop hb)
    refine h.costs a ha' b hb' (by omega) (separable_of_parted rfl rfl ?_ ?_ harr
      (parted_of_mem (by simpa using ha) (by simpa using hb)))
    · exact (cmpCostDesc_self a).ge
    · exact (cmpCostDesc_self b).ge
  rw [hfirst, hsize]
  exact mod_eq_of_lt h.fits

variable {r : Run}

/-- Costs that come apart in the wrong order are counted too low. -/
theorem not_separable_of_cost_eq (hle : t ≤ size.toNat)
    (hsize : size.toNat = subs.length) (hsubs : ∀ sub ∈ subs, env.Steady sub)
    (h : ∀ r', (env.on r').getCost (.threshold t size subs)
      = largest t (subs.map (env.on r').getCost) + 1024 * subs.length)
    {a b : ℕ} (ha : a ∈ subs.map (env.on r).getCost) (hb : b ∈ subs.map (env.on r).getCost)
    (hlt : a < b) :
    ¬ Separable (fun _ => true) t a b cmpCostDesc (subs.map (env.on r).getCost) := by
  intro hsep
  obtain ⟨l, harr, hparted⟩ := exists_parted rfl rfl ha hb hlt.ne hsep
  obtain ⟨places, rfl⟩ := exists_permute fun x hx => harr.perm.mem_iff.1 hx
  -- the run that brings them in this order
  have hcosts : subs.map (env.on ⟨.placing places, r.beyond⟩).getCost
      = subs.map (env.on r).getCost :=
    map_congr_left fun sub hsub => (hsubs sub hsub).cost _ _
  have hcost := h ⟨.placing places, r.beyond⟩
  rw [getCost_threshold hle hsize.le, take_size (by rw [hsize, length_map]), hcosts,
    show (env.on ⟨.placing places, r.beyond⟩).qsort cmpCostDesc (subs.map (env.on r).getCost)
      = permute places (subs.map (env.on r).getCost) from Sorting.sort_placing harr, hsize] at hcost
  have hmod := mod_lt
    (((permute places (subs.map (env.on r).getCost)).take t).sum + 1024 * subs.length)
    (show 2 ^ 64 > 0 by norm_num)
  have hmost := sum_take_le_largest t harr.perm
  rw [mod_eq_of_lt (by omega), add_right_cancel_iff, sum_take_eq_largest_iff harr.perm] at hcost
  obtain ⟨l₁, l₂, l₃, hl, hbefore, hbehind⟩ := hparted
  obtain ⟨before, between, after, rest, ⟨htake, hdrop⟩, -⟩ :=
    take_drop_of_parted a b l₃ (by rfl) (by rfl) hbefore hbehind
  rw [← hl, filter_true] at htake hdrop
  have hge := hcost a (by rw [htake]; simp) b (by rw [hdrop]; simp)
  omega

/-! ### Fulfillments -/

/-- The sets of a fulfillment that takes some subconditions and not the others. -/
def setsOf (env : CryptoEnv) (taken hidden : List CC) : Multiset Bytes × Multiset Bytes :=
  (((taken : Multiset CC).map env.key).filterMap Prod.fst,
    ((hidden : Multiset CC).map env.key).map Prod.snd)

theorem sets_threshold (env : CryptoEnv) (taken hidden : List CC) :
    (Fulfillment.threshold (taken.filterMap env.toFulfillment)
      (hidden.map env.asnCondition)).sets = env.setsOf taken hidden := by
  simp [Fulfillment.sets, setsOf, map_filterMap, filterMap_map, key, Function.comp_def]

theorem setsOf_congr {env env' : CryptoEnv} {taken hidden : List CC}
    (h : ∀ sub ∈ taken ++ hidden, env'.key sub = env.key sub) :
    env'.setsOf taken hidden = env.setsOf taken hidden := by
  unfold setsOf
  rw [Multiset.map_congr rfl fun sub hsub => h sub (mem_append_left hidden hsub),
    Multiset.map_congr (s := (hidden : Multiset CC)) rfl fun sub hsub =>
      h sub (mem_append_right taken hsub)]

theorem take_append_perm (p : CC → Bool) {hidden l : List CC} (h : hidden.Perm
    ((l.filter p).drop t ++ l.filter fun sub => !p sub)) :
    ((l.filter p).take t ++ hidden).Perm l := by
  refine (h.append_left _).trans ?_
  rw [← append_assoc, take_append_drop]
  exact filter_append_perm p l

variable {l : List CC}

/-- The sets of a fulfillment in one run, by what is seen in another. -/
theorem sets_of_sorted {r r' : Run} (hsubs : ∀ sub ∈ subs, env.Steady sub)
    (hsize : size.toNat = subs'.length) (hl : l.Perm subs)
    (hsorted : (env.on r').qsort (fun a b => (env.on r').cmpConditionCost a.1 b.1)
      (subs'.map fun sub => (sub, (env.on r').toFulfillment sub))
        = l.map fun sub => (sub, (env.on r').toFulfillment sub)) :
    ∃ hidden : List CC, hidden.Perm ((l.filter (env.on r).fulfilled).drop t
        ++ l.filter fun sub => !(env.on r).fulfilled sub)
      ∧ ((env.on r').toFulfillment (.threshold t size subs')).map Fulfillment.sets =
        if t ≤ subs.countP (env.on r).fulfilled then
          some ((env.on r).setsOf ((l.filter (env.on r).fulfilled).take t) hidden)
        else none := by
  have hsteady : ∀ sub ∈ l, env.Steady sub := fun sub hsub => hsubs sub (hl.mem_iff.1 hsub)
  have hfulfilled : ∀ sub ∈ l, (env.on r').fulfilled sub = (env.on r).fulfilled sub :=
    fun sub hsub => (hsteady sub hsub).fulfilled r r'
  have hnot : (l.filter fun sub => !(env.on r').fulfilled sub)
      = l.filter fun sub => !(env.on r).fulfilled sub :=
    filter_congr fun sub hsub => congrArg _ (hfulfilled sub hsub)
  have hcount : l.countP (env.on r').fulfilled = subs.countP (env.on r).fulfilled := by
    rw [countP_eq_length_filter, filter_congr hfulfilled, ← countP_eq_length_filter, hl.countP_eq]
  obtain ⟨hidden, hhidden, hf⟩ := toFulfillment_of_sorted (t := t) hsize hsorted
  rw [filter_congr hfulfilled, hnot] at hhidden
  refine ⟨hidden, hhidden, ?_⟩
  have hall := take_append_perm _ hhidden
  rw [hf, hcount, filter_congr hfulfilled]
  split_ifs
  · rw [Option.map_some, sets_threshold, setsOf_congr fun sub hsub =>
      (hsteady sub (hall.mem_iff.1 hsub)).key r r']
  · rfl

theorem take_add_drop (t : ℕ) (l : List CC) :
    ((l.take t : List CC) : Multiset CC) + (l.drop t : List CC) = (l : Multiset CC) := by
  rw [Multiset.coe_add, take_append_drop]

theorem Settled.not_doubtful (h : (env.on r).Settled t subs)
    (hbuilt : ∀ sub ∈ subs, sub.Built)
    (harr : Arrangement (env.on r).cmpConditionCost subs l)
    (ha : a ∈ (l.filter (env.on r).fulfilled).take t)
    (hb : b ∈ (l.filter (env.on r).fulfilled).drop t) : ¬ (env.on r).Doubtful a b := by
  intro hdoubt
  obtain ⟨hal, hfa⟩ := mem_filter.1 (mem_of_mem_take ha)
  obtain ⟨hbl, hfb⟩ := mem_filter.1 (mem_of_mem_drop hb)
  have hal := harr.perm.mem_iff.1 hal
  have hbl := harr.perm.mem_iff.1 hbl
  exact h.choices a hal b hbl hfa hfb hdoubt (separable_of_parted hfa hfb
    (cmpConditionCost_self_nonneg (hbuilt a hal)) (cmpConditionCost_self_nonneg (hbuilt b hbl)) harr
    (parted_of_mem ha hb))

/-- In a settled node two arrangements take the same. -/
theorem Settled.setsOf_eq (h : (env.on r).Settled t subs)
    (hbuilt : ∀ sub ∈ subs, sub.Built) {l l' hidden hidden' : List CC}
    (harr : Arrangement (env.on r).cmpConditionCost subs l)
    (harr' : Arrangement (env.on r).cmpConditionCost subs l')
    (hhidden : hidden.Perm ((l.filter (env.on r).fulfilled).drop t
      ++ l.filter fun sub => !(env.on r).fulfilled sub))
    (hhidden' : hidden'.Perm ((l'.filter (env.on r).fulfilled).drop t
      ++ l'.filter fun sub => !(env.on r).fulfilled sub)) :
    (env.on r).setsOf ((l'.filter (env.on r).fulfilled).take t) hidden'
      = (env.on r).setsOf ((l.filter (env.on r).fulfilled).take t) hidden := by
  have hll' := harr'.perm.trans harr.perm.symm
  have hfilter := hll'.filter (env.on r).fulfilled
  have hdoubt : ∀ {k : List CC}, Arrangement (env.on r).cmpConditionCost subs k →
      ∀ x ∈ (k.filter (env.on r).fulfilled).take t, ∀ y ∈ (k.filter (env.on r).fulfilled).drop t,
        (env.on r).getCost x < (env.on r).getCost y
          ∨ (env.on r).getCost x = (env.on r).getCost y
            ∧ (env.on r).key x = (env.on r).key y := by
    intro k hk x hx y hy
    have hnot := h.not_doubtful hbuilt hk hx hy
    unfold Doubtful at hnot
    by_cases hkey : (env.on r).key x = (env.on r).key y
    · simp only [hkey, ne_eq, not_true_eq_false, and_false, or_false, and_true] at hnot ⊢
      omega
    · simp only [hkey, ne_eq, not_false_eq_true, and_false, or_false, and_true] at hnot ⊢
      omega
  have htaken : (((l'.filter (env.on r).fulfilled).take t : List CC) : Multiset CC).map
      (env.on r).key = (((l.filter (env.on r).fulfilled).take t : List CC) : Multiset CC).map
        (env.on r).key := by
    have hparts := (take_add_drop t (l'.filter (env.on r).fulfilled)).trans
      ((Multiset.coe_eq_coe.2 hfilter).trans (take_add_drop t (l.filter (env.on r).fulfilled)).symm)
    exact map_eq_of_exchange (env.on r).getCost (env.on r).key hparts
      (by simp [hfilter.length_eq]) (hdoubt harr') (hdoubt harr)
  have hall : (((l'.filter (env.on r).fulfilled).take t : List CC) : Multiset CC) + hidden'
      = ((l.filter (env.on r).fulfilled).take t : List CC) + hidden := by
    rw [Multiset.coe_add, Multiset.coe_add, Multiset.coe_eq_coe]
    exact ((take_append_perm _ hhidden').trans hll').trans (take_append_perm _ hhidden).symm
  have hrest : (hidden' : Multiset CC).map (env.on r).key
      = (hidden : Multiset CC).map (env.on r).key := by
    have hkeys := congrArg (Multiset.map (env.on r).key) hall
    rw [Multiset.map_add, Multiset.map_add, htaken] at hkeys
    exact Multiset.add_right_inj.1 hkeys
  rw [setsOf, setsOf, htaken, hrest]

/-- **A settled node reveals the same in every run.** -/
theorem Settled.revealed {r r' : Run} (h : (env.on r).Settled t subs)
    (hbuilt : ∀ sub ∈ subs, sub.Built) (hsize : size.toNat = subs.length)
    (hsubs : ∀ sub ∈ subs, env.Steady sub) (hperm : subs'.Perm subs) :
    ((env.on r').toFulfillment (.threshold t size subs')).map Fulfillment.sets
      = ((env.on r).toFulfillment (.threshold t size subs)).map Fulfillment.sets := by
  obtain ⟨l, harr, hsorted⟩ := env.exists_sorted r subs
  obtain ⟨l', harr₀, hsorted'⟩ := env.exists_sorted r' subs'
  have harr' : Arrangement (env.on r).cmpConditionCost subs l' :=
    (harr₀.congr fun a ha b hb => (hsubs a (hperm.mem_iff.1 ha)).cmpConditionCost
      (hsubs b (hperm.mem_iff.1 hb)) r' r).of_perm hperm
  obtain ⟨hidden, hhidden, hf⟩ := sets_of_sorted (r := r) (t := t) hsubs hsize harr.perm hsorted
  obtain ⟨hidden', hhidden', hf'⟩ := sets_of_sorted (r := r) (t := t) hsubs
    (hsize.trans hperm.length_eq.symm) harr'.perm hsorted'
  rw [hf, hf', h.setsOf_eq hbuilt harr harr' hhidden hhidden']

/-- **A settled node reveals a cheapest set.** -/
theorem Settled.cheapest (h : (env.on r).Settled t subs)
    (hbuilt : ∀ sub ∈ subs, sub.Built) (hsize : size.toNat = subs.length) {f : Fulfillment}
    (hf : (env.on r).toFulfillment (.threshold t size subs) = some f) :
    ∃ taken hidden : List CC, f = .threshold (taken.filterMap (env.on r).toFulfillment)
        (hidden.map (env.on r).asnCondition)
      ∧ subs.Perm (taken ++ hidden) ∧ taken.length = t
      ∧ (∀ sub ∈ taken, (env.on r).fulfilled sub)
      ∧ ∀ others rest : List CC, subs.Perm (others ++ rest) → others.length = t →
        (∀ sub ∈ others, (env.on r).fulfilled sub) →
        (taken.map (env.on r).getCost).sum ≤ (others.map (env.on r).getCost).sum := by
  obtain ⟨l, harr, hsorted⟩ := env.exists_sorted r subs
  obtain ⟨hidden, hhidden, heq⟩ := toFulfillment_of_sorted (t := t) hsize hsorted
  rw [heq] at hf
  split_ifs at hf with hle
  cases hf
  have hlength : ((l.filter (env.on r).fulfilled).take t).length = t :=
    length_take_of_le (by rwa [← countP_eq_length_filter])
  refine ⟨_, hidden, rfl, harr.perm.symm.trans (take_append_perm _ hhidden).symm, hlength,
    fun sub hsub => (mem_filter.1 (mem_of_mem_take hsub)).2, ?_⟩
  intro others rest hperm hothers hfulfilled
  have hfilter : (others ++ rest.filter (env.on r).fulfilled).Perm
      (l.filter (env.on r).fulfilled) := by
    have hall := (hperm.symm.trans harr.perm.symm).filter (env.on r).fulfilled
    rwa [filter_append, filter_eq_self.2 hfulfilled] at hall
  have hparts := (take_add_drop t (l.filter (env.on r).fulfilled)).trans
    ((Multiset.coe_eq_coe.2 hfilter.symm).trans (Multiset.coe_add _ _).symm)
  have hsum := sum_le_of_exchange (env.on r).getCost hparts
    (by rw [Multiset.coe_card, Multiset.coe_card, hlength, hothers])
    fun x hx y hy => by
      have hnot := h.not_doubtful hbuilt harr hx hy
      unfold Doubtful at hnot
      omega
  simpa using hsum

/-! ### What an arrangement reveals -/

/-- Every arrangement is the one of some run. -/
theorem exists_run (hsubs : ∀ sub ∈ subs, env.Steady sub)
    (harr : Arrangement (env.on r).cmpConditionCost subs l) : ∃ r' : Run,
      (env.on r').qsort (fun a b => (env.on r').cmpConditionCost a.1 b.1)
        (subs.map fun sub => (sub, (env.on r').toFulfillment sub))
          = l.map fun sub => (sub, (env.on r').toFulfillment sub) := by
  obtain ⟨places, rfl⟩ := exists_permute fun x hx => harr.perm.mem_iff.1 hx
  refine ⟨⟨.placing places, r.beyond⟩, ?_⟩
  generalize hr' : (⟨.placing places, r.beyond⟩ : Run) = r'
  have harr₀ := harr.congr fun a ha b hb => (hsubs a ha).cmpConditionCost (hsubs b hb) r r'
  have harr' : Arrangement
      (fun a b : CC × Option Fulfillment => (env.on r').cmpConditionCost a.1 b.1) _ _ :=
    harr₀.map (f := fun sub => (sub, (env.on r').toFulfillment sub)) fun _ _ _ _ => rfl
  rw [← permute_map] at harr' ⊢
  have hsort := Sorting.sort_placing harr'
  subst hr'
  exact hsort

/-- A cheaper fulfilled subcondition is not left behind. -/
theorem OrderFree.not_separable_of_lt (h : env.OrderFree t size subs)
    (hsize : size.toNat = subs.length) (hsubs : ∀ sub ∈ subs, env.Steady sub)
    (ha : a ∈ subs) (hb : b ∈ subs) (hfa : (env.on r).fulfilled a) (hfb : (env.on r).fulfilled b)
    (hlt : (env.on r).getCost b < (env.on r).getCost a) :
    ¬ Separable (env.on r).fulfilled t a b (env.on r).cmpConditionCost subs := by
  intro hsep
  have hne : a ≠ b := fun heq => by rw [heq] at hlt; omega
  obtain ⟨l, harr, l₁, l₂, l₃, rfl, hbefore, hbehind⟩ := exists_parted hfa hfb ha hb hne hsep
  obtain ⟨before, between, after, rest, ⟨htake, hdrop⟩, -⟩ :=
    take_drop_of_parted a b l₃ hfa hfb hbefore hbehind
  obtain ⟨r', hsorted⟩ := exists_run hsubs harr
  obtain ⟨hidden, hhidden, hf⟩ := toFulfillment_of_sorted (t := t) hsize hsorted
  generalize hl : l₁ ++ a :: (l₂ ++ b :: l₃) = l at harr htake hdrop hsorted hhidden hf
  have hfulfilled : ∀ sub ∈ l, (env.on r').fulfilled sub = (env.on r).fulfilled sub :=
    fun sub hsub => (hsubs sub (harr.perm.mem_iff.1 hsub)).fulfilled r r'
  have hcost : ∀ sub ∈ subs, (env.on r').getCost sub = (env.on r).getCost sub :=
    fun sub hsub => (hsubs sub hsub).cost r r'
  have henough : t ≤ (l.filter (env.on r).fulfilled).length := by
    have hlt := hsep.lt
    rw [← harr.perm.countP_eq, countP_eq_length_filter] at hlt
    exact hlt.le
  have hcount : t ≤ l.countP (env.on r').fulfilled := by
    rwa [countP_eq_length_filter, filter_congr hfulfilled]
  have hall := take_append_perm _ hhidden
  rw [if_pos hcount] at hf
  obtain ⟨taken, hidden', heq, hperm, htaken, -, hcheapest⟩ := h.cheapest r' _ hf
  rw [filter_congr hfulfilled, htake] at hall
  rw [filter_congr hfulfilled, hdrop] at hhidden
  -- what is left behind tells what the taken ones cost
  have hhiddenCost : (hidden'.map (env.on r').getCost).sum
      = (hidden.map (env.on r').getCost).sum := by
    have hcosts := congrArg (map AsnCondition.cost) (Fulfillment.threshold.inj heq).2
    simp only [map_map] at hcosts
    exact (congrArg sum hcosts).symm
  have hsum := (hperm.map (env.on r').getCost).sum_eq
  have hsum' := ((hall.trans harr.perm).map (env.on r').getCost).sum_eq
  -- with `b` taken for `a`, they would cost less
  have hswap : subs.Perm ((before ++ b :: between) ++ ((after ++ a :: rest)
      ++ l.filter fun sub => !(env.on r').fulfilled sub)) := by
    refine (harr.perm.symm.trans (hall.symm.trans (hhidden.append_left _))).trans ?_
    simpa using (perm_swap a b before (between ++ after)
      (rest ++ l.filter fun sub => !(env.on r').fulfilled sub)).symm
  have hlength : (before ++ b :: between).length = t := by
    rw [← length_take_of_le henough, htake]
    simp
  have hless := hcheapest _ _ hswap hlength ?_
  · simp only [map_append, map_cons, sum_append_nat, sum_cons] at hsum hsum' hless
    rw [hcost a ha] at hsum'
    rw [hcost b hb] at hless
    omega
  · intro sub hsub
    have hcases : sub = b ∨ sub ∈ before ++ a :: between := by
      simp only [mem_append, mem_cons] at hsub ⊢
      tauto
    rcases hcases with rfl | hsub
    · rw [(hsubs sub hb).fulfilled r r']
      exact hfb
    · rw [← htake] at hsub
      obtain ⟨hsubl, hfsub⟩ := mem_filter.1 (mem_of_mem_take hsub)
      rw [hfulfilled sub hsubl]
      exact hfsub

theorem exists_sets (hsize : size.toNat = subs.length)
    (hsubs : ∀ sub ∈ subs, env.Steady sub)
    (harr : Arrangement (env.on r).cmpConditionCost subs l)
    (henough : t ≤ subs.countP (env.on r).fulfilled) :
    ∃ (r' : Run) (hidden : List CC), hidden.Perm ((l.filter (env.on r).fulfilled).drop t
        ++ l.filter fun sub => !(env.on r).fulfilled sub)
      ∧ ((env.on r').toFulfillment (.threshold t size subs)).map Fulfillment.sets
        = some ((env.on r).setsOf ((l.filter (env.on r).fulfilled).take t) hidden) := by
  obtain ⟨r', hsorted⟩ := exists_run hsubs harr
  obtain ⟨hidden, hhidden, hf⟩ := sets_of_sorted (r := r) (t := t) hsubs hsize harr.perm hsorted
  rw [if_pos henough] at hf
  exact ⟨r', hidden, hhidden, hf⟩

/-- Of two different subconditions at one cost, both or none are revealed. -/
theorem OrderFree.not_separable_of_eq (h : env.OrderFree t size subs)
    (hsize : size.toNat = subs.length) (hbuilt : ∀ sub ∈ subs, sub.Built)
    (hsubs : ∀ sub ∈ subs, env.Steady sub)
    (ha : a ∈ subs) (hb : b ∈ subs) (hfa : (env.on r).fulfilled a) (hfb : (env.on r).fulfilled b)
    (hcost : (env.on r).getCost a = (env.on r).getCost b)
    (hkey : (env.on r).key a ≠ (env.on r).key b) :
    ¬ Separable (env.on r).fulfilled t a b (env.on r).cmpConditionCost subs := by
  intro hsep
  have hne : a ≠ b := fun heq => hkey (heq ▸ rfl)
  obtain ⟨l, harr, l₁, l₂, l₃, rfl, hbefore, hbehind⟩ := exists_parted hfa hfb ha hb hne hsep
  -- the two can change places
  have hsub : [a, b].Subperm subs :=
    (nodup_cons.2 ⟨by simpa using hne, by simp⟩ : [a, b].Nodup).subperm (by simp [ha, hb])
  have harr' := harr.swap fun hord =>
    cmpConditionCost_swap (hbuilt a ha) (hbuilt b hb) hsub hord hcost
  obtain ⟨before, between, after, rest, ⟨htake, hdrop⟩, htake', hdrop'⟩ :=
    take_drop_of_parted a b l₃ hfa hfb hbefore hbehind
  obtain ⟨r₁, hidden, hhidden, hf⟩ := exists_sets (t := t) hsize hsubs harr hsep.lt.le
  obtain ⟨r₂, hidden', hhidden', hf'⟩ := exists_sets (t := t) hsize hsubs harr' hsep.lt.le
  have hsame := h.revealed r₁ r₂ subs (List.Perm.refl subs)
  rw [hf, hf', Option.some.injEq, htake, htake'] at hsame
  obtain ⟨hshown, hleft⟩ := Prod.mk.inj hsame
  have hmiddle : ∀ (k k' : List CC) (x : CC), ((k ++ x :: k' : List CC) : Multiset CC)
      = x ::ₘ (k ++ k' : List CC) := fun k k' x => by
    rw [Multiset.cons_coe, Multiset.coe_eq_coe]
    exact perm_middle
  have hfirst : ((env.on r).key a).1 = ((env.on r).key b).1 := by
    obtain ⟨fa, hka⟩ := Option.isSome_iff_exists.1 hfa
    obtain ⟨fb, hkb⟩ := Option.isSome_iff_exists.1 hfb
    rw [hmiddle, hmiddle, Multiset.map_cons, Multiset.map_cons,
      Multiset.filterMap_cons_some (b := fb.der) _ _ _ (by simp [key, hkb]),
      Multiset.filterMap_cons_some (b := fa.der) _ _ _ (by simp [key, hka]),
      Multiset.cons_inj_left] at hshown
    simp [key, hka, hkb, hshown]
  have hsecond : ((env.on r).key a).2 = ((env.on r).key b).2 := by
    have hsameRest := (perm_swap a b l₁ l₂ l₃).filter fun sub => !(env.on r).fulfilled sub
    rw [hdrop, append_assoc, cons_append] at hhidden
    rw [hdrop', append_assoc, cons_append] at hhidden'
    have hhidden'' := hhidden'.trans
      ((((hsameRest.append_left rest)).cons a).append_left after)
    rw [Multiset.coe_eq_coe.2 hhidden, Multiset.coe_eq_coe.2 hhidden'', hmiddle, hmiddle,
      Multiset.map_cons, Multiset.map_cons, Multiset.map_cons, Multiset.map_cons,
      Multiset.cons_inj_left] at hleft
    exact hleft
  exact hkey (Prod.ext hfirst hsecond)

/-! ### Settled nodes and order-free nodes -/

theorem Settled.run (h : (env.on r).Settled t subs)
    (hsubs : ∀ sub ∈ subs, env.Steady sub) (r' : Run) : (env.on r').Settled t subs := by
  have hcosts : subs.map (env.on r').getCost = subs.map (env.on r).getCost :=
    map_congr_left fun sub hsub => (hsubs sub hsub).cost r r'
  refine ⟨h.le, h.counted, hcosts ▸ h.fits, hcosts ▸ h.costs, ?_⟩
  intro a ha b hb hfa hfb hdoubt hsep
  rw [(hsubs a ha).fulfilled r r'] at hfa
  rw [(hsubs b hb).fulfilled r r'] at hfb
  unfold Doubtful at hdoubt
  rw [(hsubs a ha).cost r r', (hsubs b hb).cost r r', (hsubs a ha).key r r',
    (hsubs b hb).key r r'] at hdoubt
  exact h.choices a ha b hb hfa hfb hdoubt (hsep.congr ha hb
    (fun sub hsub => (hsubs sub hsub).fulfilled r' r)
    fun x hx y hy => (hsubs x hx).cmpConditionCost (hsubs y hy) r' r)

theorem settled_of_orderFree (h : env.OrderFree t size subs)
    (hsize : size = UInt8.ofNat subs.length) (hbuilt : ∀ sub ∈ subs, sub.Built)
    (hsubs : ∀ sub ∈ subs, env.Steady sub) (r : Run) : (env.on r).Settled t subs := by
  have hmod : size.toNat = subs.length % 2 ^ 8 := by rw [hsize, UInt8.toNat_ofNat']
  have hshort : size.toNat ≤ subs.length := hmod ▸ mod_le _ _
  have hle : t ≤ size.toNat := by
    by_contra hlt
    obtain ⟨b, b', hne⟩ := getCost_ne_of_lt (Nat.lt_of_not_le hlt) hsubs r.sorting
    exact hne (h.cost _ _ subs (List.Perm.refl subs))
  have hlength := size_eq_of_cost_eq hle hshort (h.cost_eq r)
  have hfits : largest t (subs.map (env.on r).getCost) + 1024 * subs.length < 2 ^ 64 := by
    rw [← h.cost_eq r, getCost_threshold hle hshort]
    exact mod_lt _ (by norm_num)
  refine ⟨hlength ▸ hle, by omega, hfits,
    fun a ha b hb hlt => not_separable_of_cost_eq hle hlength hsubs h.cost_eq ha hb hlt, ?_⟩
  rintro a ha b hb hfa hfb (hlt | ⟨hcost, hkey⟩)
  · exact h.not_separable_of_lt hlength hsubs ha hb hfa hfb hlt
  · exact h.not_separable_of_eq hlength hbuilt hsubs ha hb hfa hfb hcost hkey

theorem getSubtypes_perm (hperm : subs'.Perm subs) (hsize : size.toNat = subs.length) :
    (CC.threshold t size subs').getSubtypes = (CC.threshold t size subs).getSubtypes := by
  have htypes := hperm.map CC.typeMask
  have hsize' : size.toNat = subs'.length := hsize.trans hperm.length_eq.symm
  simp only [CC.getSubtypes, CC.typeMasks_eq_map]
  rw [take_size (by rw [hsize', length_map]), take_size (by rw [hsize, length_map]),
    htypes.foldl_eq']
  intro x _ y _ z
  rw [UInt32.or_assoc, UInt32.or_comm x y, ← UInt32.or_assoc]

theorem fingerprint_perm {r r' : Run} (hperm : subs'.Perm subs) (hsize : size.toNat = subs.length)
    (hsubs : ∀ sub ∈ subs, env.Steady sub) : (env.on r').fingerprint (.threshold t size subs')
      = (env.on r).fingerprint (.threshold t size subs) := by
  have hsize' : size.toNat = subs'.length := hsize.trans hperm.length_eq.symm
  rw [fingerprint_threshold, fingerprint_threshold, thresholdContents, thresholdContents,
    take_size (by rw [hsize', length_map]), take_size (by rw [hsize, length_map])]
  refine congrArg env.hashFingerprintContents (derThresholdContents_perm t (List.Perm.map _ ?_))
  have hconditions : subs.map (env.on r').asnCondition = subs.map (env.on r).asnCondition :=
    map_congr_left fun sub hsub => (hsubs sub hsub).asnCondition r r'
  have hsorted := (env.on r').qsort_perm cmpConditionBin (subs'.map (env.on r').asnCondition)
  exact (hsorted.trans ((hperm.map _).trans (List.Perm.of_eq hconditions))).trans
    ((env.on r).qsort_perm _ _).symm

theorem orderFree_of_settled (h : (env.on r).Settled t subs)
    (hsize : size = UInt8.ofNat subs.length) (hbuilt : ∀ sub ∈ subs, sub.Built)
    (hsubs : ∀ sub ∈ subs, env.Steady sub) : env.OrderFree t size subs := by
  have hlength : size.toNat = subs.length := by
    rw [hsize, UInt8.toNat_ofNat']
    exact mod_eq_of_lt h.counted
  have hcost : ∀ r₁ r₂ subs', subs'.Perm subs → (env.on r₂).getCost (.threshold t size subs')
      = (env.on r₁).getCost (.threshold t size subs) := fun r₁ r₂ subs' hperm => by
    rw [getCost_of_settled hlength hsubs h hperm,
      getCost_of_settled hlength hsubs h (List.Perm.refl subs)]
  have hfp : ∀ r₁ r₂ subs', subs'.Perm subs → (env.on r₂).fingerprint (.threshold t size subs')
      = (env.on r₁).fingerprint (.threshold t size subs) :=
    fun r₁ r₂ subs' hperm => fingerprint_perm hperm hlength hsubs
  refine ⟨hcost, hfp, fun r₁ r₂ subs' hperm => ?_, fun r₁ => ?_, fun r₁ => ?_,
    fun r₁ r₂ subs' hperm => (h.run hsubs r₁).revealed hbuilt hlength hsubs hperm,
    fun r₁ f hf => (h.run hsubs r₁).cheapest hbuilt hlength hf⟩
  · rw [conditionBinary, conditionBinary, asnCondition, asnCondition, hcost r₁ r₂ subs' hperm,
      hfp r₁ r₂ subs' hperm, getSubtypes_perm hperm hlength]
    rfl
  · exact getCost_of_settled hlength hsubs (h.run hsubs r₁) (List.Perm.refl subs)
  · obtain ⟨l, harr, hsorted⟩ := env.exists_sorted r₁ subs
    obtain ⟨hidden, -, hf⟩ := toFulfillment_of_sorted (t := t) hlength hsorted
    rw [hf, harr.perm.countP_eq]
    split_ifs with hle <;> simp [hle]

theorem der_eq_of_sets {fs fs' : List Fulfillment} {cs cs' : List AsnCondition}
    (h : (Fulfillment.threshold fs cs).sets = (Fulfillment.threshold fs' cs').sets) :
    (Fulfillment.threshold fs cs).der = (Fulfillment.threshold fs' cs').der := by
  obtain ⟨hfs, hcs⟩ := Prod.mk.inj h
  rw [Fulfillment.der, Fulfillment.der, Fulfillment.derList_eq_map, Fulfillment.derList_eq_map,
    setOf_perm (Multiset.coe_eq_coe.1 hfs), setOf_perm (Multiset.coe_eq_coe.1 hcs)]

theorem exists_threshold_of_toFulfillment {f : Fulfillment}
    (h : env.toFulfillment (.threshold t size subs) = some f) :
    ∃ fs cs, f = .threshold fs cs := by
  rw [toFulfillment] at h
  split at h
  · exact ⟨_, _, (Option.some.inj h).symm⟩
  · cases h

theorem steady_of_orderFree (h : env.OrderFree t size subs) :
    env.Steady (.threshold t size subs) := by
  refine ⟨fun r r' => h.cost r r' subs (List.Perm.refl subs),
    fun r r' => h.fingerprint r r' subs (List.Perm.refl subs), fun r r' => ?_⟩
  have hsets := h.revealed r r' subs (List.Perm.refl subs)
  cases hf : (env.on r).toFulfillment (.threshold t size subs) with
  | none =>
    rw [hf, Option.map_none, Option.map_eq_none_iff] at hsets
    rw [hsets, Option.map_none]
  | some f =>
    rw [hf, Option.map_some, Option.map_eq_some_iff] at hsets
    obtain ⟨f', hf', hsets⟩ := hsets
    obtain ⟨fs, cs, rfl⟩ := exists_threshold_of_toFulfillment hf
    obtain ⟨fs', cs', rfl⟩ := exists_threshold_of_toFulfillment hf'
    rw [hf', Option.map_some, Option.map_some, der_eq_of_sets hsets]

end

/-! ### Trees -/

/-- Every threshold node of the tree is order-free. -/
def OrderFreeWithin (env : CryptoEnv) (cond : CC) : Prop :=
  ∀ t size subs, CC.Within (.threshold t size subs) cond → env.OrderFree t size subs

/-- Every threshold node of the tree is settled. -/
def SettledWithin (env : CryptoEnv) (cond : CC) : Prop :=
  ∀ t size subs, CC.Within (.threshold t size subs) cond → env.Settled t subs

section
variable {env : CryptoEnv} {cond : CC}

/-- A tree whose threshold nodes are order-free is the same in every run. -/
theorem steady_of_orderFreeWithin (h : env.OrderFreeWithin cond) : env.Steady cond := by
  induction cond using CC.induct with
  | threshold t size subs _ => exact steady_of_orderFree (h t size subs .self)
  | prefixed pre len sub ih =>
    have hsub := ih fun t size subs hwithin => h t size subs (.prefixed hwithin)
    refine ⟨fun r r' => ?_, fun r r' => ?_, fun r r' => ?_⟩
    · rw [getCost, getCost, hsub.cost r r']
    · rw [fingerprint, fingerprint, hsub.fingerprint r r', hsub.cost r r']
      rfl
    · have hder : ∀ x : Option Fulfillment,
          (x.map (Fulfillment.prefixed pre len)).map Fulfillment.der
            = (x.map Fulfillment.der).map fun bytes =>
              tlv 0xa1 (tlv 0x80 pre ++ tlv 0x81 (integer len) ++ tlv 0xa2 bytes) := fun x => by
        cases x <;> simp [Fulfillment.der]
      rw [toFulfillment, toFulfillment, hder, hder, hsub.bytes r r']
  | preimage p => exact ⟨fun _ _ => rfl, fun _ _ => rfl, fun _ _ => rfl⟩
  | ed25519 pk sig => exact ⟨fun _ _ => rfl, fun _ _ => rfl, fun _ _ => rfl⟩
  | secp256k1 pk sig => exact ⟨fun _ _ => rfl, fun _ _ => rfl, fun _ _ => rfl⟩
  | eval code => exact ⟨fun _ _ => rfl, fun _ _ => rfl, fun _ _ => rfl⟩
  | anon type fp st cost => exact ⟨fun _ _ => rfl, fun _ _ => rfl, fun _ _ => rfl⟩

theorem settledWithin_of_orderFreeWithin (hbuilt : cond.Built) (h : env.OrderFreeWithin cond)
    (r : Run) : (env.on r).SettledWithin cond := by
  induction cond using CC.induct with
  | threshold t size subs ih =>
    cases hbuilt with
    | threshold hsize hsubs =>
      have hwithin : ∀ sub ∈ subs, env.OrderFreeWithin sub := fun sub hsub t' size' subs' hw =>
        h t' size' subs' (.threshold hsub hw)
      intro t' size' subs' hw
      cases hw with
      | self =>
        exact settled_of_orderFree (h t size subs .self) hsize hsubs
          (fun sub hsub => steady_of_orderFreeWithin (hwithin sub hsub)) r
      | threshold hmem hw => exact ih _ hmem (hsubs _ hmem) (hwithin _ hmem) t' size' subs' hw
  | prefixed pre len sub ih =>
    cases hbuilt with
    | prefixed hsub =>
      intro t' size' subs' hw
      cases hw with
      | prefixed hw => exact ih hsub (fun t size subs hw => h t size subs (.prefixed hw)) _ _ _ hw
  | _ => rintro t' size' subs' ⟨⟩

theorem orderFreeWithin_of_settledWithin {r : Run} (hbuilt : cond.Built)
    (h : (env.on r).SettledWithin cond) : env.OrderFreeWithin cond := by
  induction cond using CC.induct with
  | threshold t size subs ih =>
    cases hbuilt with
    | threshold hsize hsubs =>
      have hwithin : ∀ sub ∈ subs, env.OrderFreeWithin sub := fun sub hsub =>
        ih sub hsub (hsubs sub hsub) fun t' size' subs' hw => h t' size' subs' (.threshold hsub hw)
      intro t' size' subs' hw
      cases hw with
      | self =>
        exact orderFree_of_settled (h t size subs .self) hsize hsubs
          fun sub hsub => steady_of_orderFreeWithin (hwithin sub hsub)
      | threshold hmem hw => exact hwithin _ hmem t' size' subs' hw
  | prefixed pre len sub ih =>
    cases hbuilt with
    | prefixed hsub =>
      intro t' size' subs' hw
      cases hw with
      | prefixed hw => exact ih hsub (fun t size subs hw => h t size subs (.prefixed hw)) _ _ _ hw
  | _ => rintro t' size' subs' ⟨⟩

/-- **The threshold nodes of a tree are order-free exactly when they are all settled.** -/
theorem orderFree_iff (r : Run) (hbuilt : cond.Built) :
    env.OrderFreeWithin cond ↔ (env.on r).SettledWithin cond :=
  ⟨fun h => settledWithin_of_orderFreeWithin hbuilt h r, orderFreeWithin_of_settledWithin hbuilt⟩

end

theorem settled_of_length_eq {env : CryptoEnv} {t : ℕ} {subs : List CC} (ht : t = subs.length)
    (hcounted : subs.length < 256)
    (hfits : largest t (subs.map env.getCost) + 1024 * subs.length < 2 ^ 64) :
    env.Settled t subs := by
  refine ⟨ht.le, hcounted, hfits, fun a _ b _ _ hsep => ?_, fun a _ b _ _ _ _ hsep => ?_⟩
  · have hlt := hsep.lt
    have hle := (subs.map env.getCost).countP_le_length (p := fun _ => true)
    rw [length_map] at hle
    omega
  · have hlt := hsep.lt
    have hle := subs.countP_le_length (p := env.fulfilled)
    omega

/-- Sorting by insertion, with zeros behind the objects. -/
def insertionRun : Run := ⟨.insertion, ⟨fun _ _ => 0, fun _ _ => 0, fun _ => 0⟩⟩

namespace Sample

theorem contractCond_built : contractCond.Built := by
  refine .threshold rfl ?_
  simp only [mem_cons, not_mem_nil, or_false, forall_eq_or_imp, forall_eq]
  refine ⟨.eval _, .threshold rfl ?_⟩
  simp only [mem_cons, not_mem_nil, or_false, forall_eq]
  exact .secp256k1 _ _

theorem contractCond_settled : (contractEnv.on insertionRun).SettledWithin contractCond := by
  intro t size subs hw
  cases hw with
  | self => exact settled_of_length_eq rfl (by decide) (by decide)
  | threshold hmem hw =>
    simp only [mem_cons, not_mem_nil, or_false] at hmem
    rcases hmem with rfl | rfl
    · cases hw
    · cases hw with
      | self => exact settled_of_length_eq rfl (by decide) (by decide)
      | threshold hmem hw =>
        rw [mem_singleton.1 hmem] at hw
        cases hw

/-- One signature of two, and both are there. -/
def eitherSigned : List CC := [.secp256k1 pk1 (some sig1), .secp256k1 pk2 (some sig2)]

end Sample

/-- The condition of a contract is order-free. -/
theorem contractCond_orderFree : Sample.contractEnv.OrderFreeWithin Sample.contractCond :=
  (orderFree_iff insertionRun Sample.contractCond_built).2 Sample.contractCond_settled

/-- **Of two signatures, the one that is listed first is revealed.** Both cost the same, and their
conditions compare as equal. -/
theorem eitherSigned_not_orderFree : ¬ ∀ (env : CryptoEnv) (t : ℕ) (size : UInt8) (subs : List CC),
    (CC.threshold t size subs).Built → env.OrderFree t size subs := by
  intro hall
  have hbuilt : (CC.threshold 1 2 Sample.eitherSigned).Built := by
    refine .threshold rfl ?_
    simp only [Sample.eitherSigned, mem_cons, not_mem_nil, or_false, forall_eq_or_imp,
      forall_eq]
    exact ⟨.secp256k1 _ _, .secp256k1 _ _⟩
  have hsame := (hall Sample.contractEnv 1 2 Sample.eitherSigned hbuilt).revealed insertionRun
    insertionRun Sample.eitherSigned.reverse (reverse_perm _)
  have hfirst : ((Sample.contractEnv.on insertionRun).toFulfillment
      (.threshold 1 2 Sample.eitherSigned)).map (fun f => f.sets.1)
        = some {(Fulfillment.secp256k1 Sample.pk1 Sample.sig1).der} := rfl
  have hsecond : ((Sample.contractEnv.on insertionRun).toFulfillment
      (.threshold 1 2 Sample.eitherSigned.reverse)).map (fun f => f.sets.1)
        = some {(Fulfillment.secp256k1 Sample.pk2 Sample.sig2).der} := rfl
  have hsets := congrArg (Option.map Prod.fst) hsame
  rw [Option.map_map, Option.map_map] at hsets
  have heq := (hsecond.symm.trans hsets).trans hfirst
  rw [Option.some.injEq, Multiset.singleton_inj] at heq
  exact absurd heq (by decide)

end CryptoEnv

end Komodo
