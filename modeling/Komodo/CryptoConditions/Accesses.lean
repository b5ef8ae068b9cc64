/-
# What checking a fulfillment reads

Every place of `CheckCryptoCondition` and the library under it where a length or
an index is fixed by the code and the object comes from the fulfillment: the
copies of keys, signatures and fingerprints, the shifts of `fromAsnSubtypes`, the
loops over `subconditions` and `costs`, and the comparison at the end. `accesses`
lists them in the order in which they are made.

The schema declares the sizes of these strings (`SIZE(33)`, `SIZE(64)`, …), but the constraints of
an ASN.1 type are checked by a function of their own that nobody calls, and the size of a
threshold node is kept in eight bits. `check_memorySafe` says what the declared sizes would be
good for: with them nothing outside the objects is read, and the answer does not depend on what
lies there.
-/

import Komodo.CryptoConditions.Acceptance
import Mathlib.Data.List.GetD

namespace Komodo

open Der List

/-! ### Declared sizes -/

/-- The sizes declared for a condition: a fingerprint of 32 bytes, and no subtype
beyond the width of an `int`. -/
structure AsnCondition.SizesDeclared (c : AsnCondition) : Prop where
  fingerprint : c.fingerprint.length = 32
  subtypes : ∀ i < c.subtypes.buf.length * 8, c.subtypes.testBit i → i < 32

/-- The sizes declared for a fulfillment, with a threshold that the eight-bit size
of its node does not fall below. -/
inductive Fulfillment.SizesDeclared : Fulfillment → Prop
  | preimage (p : Bytes) : SizesDeclared (.preimage p)
  | prefixed (pre : Bytes) (len : ℕ) {sub : Fulfillment} (hsub : SizesDeclared sub) :
      SizesDeclared (.prefixed pre len sub)
  | threshold {fs : List Fulfillment} {cs : List AsnCondition}
      (hcount : fs.length ≤ (UInt8.ofNat (fs.length + cs.length)).toNat)
      (hfs : ∀ f ∈ fs, SizesDeclared f) (hcs : ∀ c ∈ cs, c.SizesDeclared) :
      SizesDeclared (.threshold fs cs)
  | rsa (modulus sig : Bytes) : SizesDeclared (.rsa modulus sig)
  | ed25519 {pk sig : Bytes} (hpk : pk.length = 32) (hsig : sig.length = 64) :
      SizesDeclared (.ed25519 pk sig)
  | secp256k1 {pk sig : Bytes} (hpk : pk.length = 33) (hsig : sig.length = 64) :
      SizesDeclared (.secp256k1 pk sig)
  | eval (code : Bytes) : SizesDeclared (.eval code)

/-! ### Accesses -/

/-- An access whose extent is fixed by the code. -/
inductive Access
  /-- `memcpy` of `n` bytes out of a string of `available`. -/
  | copy (n available : ℕ)
  /-- `1 << i`. -/
  | shift (i : ℕ)
  /-- Element `i` of an array of `count`. -/
  | index (i count : ℕ)
  /-- `memcmp` of `n` bytes with a string of `available`. -/
  | compare (n available : ℕ)
deriving DecidableEq

/-- The access stays inside its object, the shift inside an `int`. -/
def Access.InBounds : Access → Prop
  | copy n available => n ≤ available
  | shift i => i < 32
  | index i count => i < count
  | compare n available => n ≤ available

instance : DecidablePred Access.InBounds := fun a => by
  cases a <;> unfold Access.InBounds <;> infer_instance

namespace CC

mutual

/-- The elements that one `cc_getCost` of a tree takes: those of `subconditions`
and, after sorting, those of `costs`. -/
def costReads : CC → List Access
  | threshold t size subs =>
    (List.range size.toNat).map (.index · subs.length) ++
      ((costReadsList subs).take size.toNat).flatten ++
        (List.range t).map (.index · size.toNat)
  | prefixed _ _ sub => costReads sub
  | _ => []

/-- `costReads` of each subcondition. -/
def costReadsList : List CC → List (List Access)
  | [] => []
  | sub :: subs => costReads sub :: costReadsList subs

end

@[simp] theorem costReadsList_eq_map (subs : List CC) :
    costReadsList subs = subs.map costReads := by
  induction subs with
  | nil => rfl
  | cons sub subs ih => rw [costReadsList, ih, map_cons]

mutual

/-- The elements that one `asnCondition` of a tree takes: for its cost, and for
the conditions of its subconditions in the fingerprint. -/
def conditionReads : CC → List Access
  | threshold t size subs =>
    costReads (threshold t size subs) ++ ((conditionReadsList subs).take size.toNat).flatten
  | prefixed pre len sub => costReads (prefixed pre len sub) ++ conditionReads sub
  | _ => []

/-- `conditionReads` of each subcondition. -/
def conditionReadsList : List CC → List (List Access)
  | [] => []
  | sub :: subs => conditionReads sub :: conditionReadsList subs

end

@[simp] theorem conditionReadsList_eq_map (subs : List CC) :
    conditionReadsList subs = subs.map conditionReads := by
  induction subs with
  | nil => rfl
  | cons sub subs ih => rw [conditionReadsList, ih, map_cons]

end CC

namespace CryptoEnv

variable (env : CryptoEnv)

/-- The accesses of `mkAnon`. -/
def anonReads (c : AsnCondition) : List Access :=
  match getTypeByAsnEnum c.present with
  | none => []
  | some _ => .copy 32 c.fingerprint.length ::
      ((List.range (c.subtypes.buf.length * 8)).filter c.subtypes.testBit).map .shift

/-- The accesses of `mkAnon` for one subcondition after the other, up to the first
that is not read. -/
def anonsReads : List AsnCondition → List Access
  | [] => []
  | c :: cs => anonReads c ++ if (env.mkAnon c).isSome then anonsReads cs else []

mutual

/-- The accesses of `fulfillmentToCC`. -/
def fulfillmentReads : Fulfillment → List Access
  | .prefixed _ _ sub => fulfillmentReads sub
  | .threshold fs cs =>
    fulfillmentsReads fs ++ if (env.fulfillmentsToCC fs).isSome then env.anonsReads cs else []
  | .ed25519 pk sig => [.copy 32 pk.length, .copy 64 sig.length]
  | .secp256k1 pk sig =>
    .copy 33 pk.length ::
      if env.pubkeyParse (env.memcpy pk 33) then [.copy 64 sig.length] else []
  | _ => []

/-- The accesses of `fulfillmentToCC` for one subfulfillment after the other, up to
the first that is not read. -/
def fulfillmentsReads : List Fulfillment → List Access
  | [] => []
  | f :: fs =>
    fulfillmentReads f ++ if (env.fulfillmentToCC f).isSome then fulfillmentsReads fs else []

end

/-- The accesses of `CheckCryptoCondition`. -/
def accesses (condBin ffillBin : Bytes) : List Access :=
  match ffillBin.getLast? with
  | none => []
  | some nHashType =>
    match env.berDecode ffillBin.dropLast with
    | none => []
    | some ffill =>
      if ffill.der ≠ ffillBin.dropLast then []
      else env.fulfillmentReads ffill ++
        match env.fulfillmentToCC ffill with
        | none => []
        | some cond =>
          if !isSupportedCryptoCondition cond || !cond.isSigned then []
          else cond.conditionReads ++
            match env.signatureHash (env.ccPubKey cond) nHashType with
            | none => []
            | some _ => cond.conditionReads ++
                [.compare (env.conditionBinary cond).length condBin.length]

/-- The sizes are the declared ones, and the condition at hand is not shorter than
that of the tree that is revealed. -/
structure FieldsDeclared (condBin ffillBin : Bytes) : Prop where
  sizes : ∀ ffill, env.berDecode ffillBin.dropLast = some ffill → ffill.SizesDeclared
  condition : ∀ cond, env.readFulfillmentBinary ffillBin.dropLast = some cond →
    (env.conditionBinary cond).length ≤ condBin.length

/-- The environment with other contents outside the objects. -/
def withBeyond (b : Beyond) : CryptoEnv := { env with beyond := b }

/-- What memory safety asks of a run: every access stays inside its object, a
fulfillment with other sizes is not accepted, and the result does not depend on
what lies outside. -/
structure MemorySafe (condBin ffillBin : Bytes) : Prop where
  inBounds : ∀ a ∈ env.accesses condBin ffillBin, a.InBounds
  rejected : ∀ ffill, env.berDecode ffillBin.dropLast = some ffill → ¬ ffill.SizesDeclared →
    env.checkCryptoCondition condBin ffillBin ≠ 1
  determined : ∀ b, (env.withBeyond b).checkCryptoCondition condBin ffillBin =
    env.checkCryptoCondition condBin ffillBin

end CryptoEnv

/-! ### Trees with declared sizes -/

/-- Every threshold node has at least as many subconditions as its size says, and a
threshold that its size does not fall below. -/
inductive CC.SizesOk : CC → Prop
  | preimage (p : Bytes) : SizesOk (.preimage p)
  | prefixed (pre : Bytes) (len : ℕ) {sub : CC} (hsub : SizesOk sub) :
      SizesOk (.prefixed pre len sub)
  | threshold {t : ℕ} {size : UInt8} {subs : List CC} (ht : t ≤ size.toNat)
      (hsize : size.toNat ≤ subs.length) (hsubs : ∀ sub ∈ subs, SizesOk sub) :
      SizesOk (.threshold t size subs)
  | ed25519 (pk : Bytes) (sig : Option Bytes) : SizesOk (.ed25519 pk sig)
  | secp256k1 (pk : Bytes) (sig : Option Bytes) : SizesOk (.secp256k1 pk sig)
  | eval (code : Bytes) : SizesOk (.eval code)
  | anon (type : CCTypeId) (fp : Bytes) (st : UInt32) (cost : ℕ) : SizesOk (.anon type fp st cost)

namespace CC

theorem forall_mem_flatten_take {α β : Type} {P : β → Prop} {g : α → List β} {l : List α}
    (h : ∀ a ∈ l, ∀ b ∈ g a, P b) (n : ℕ) : ∀ b ∈ ((l.map g).take n).flatten, P b := by
  intro b hb
  obtain ⟨bs, hbs, hb⟩ := mem_flatten.1 hb
  obtain ⟨a, ha, rfl⟩ := mem_map.1 (mem_of_mem_take hbs)
  exact h a ha b hb

theorem forall_mem_range_index {n count : ℕ} (h : n ≤ count) :
    ∀ a ∈ (range n).map (Access.index · count), a.InBounds := by
  intro a ha
  obtain ⟨i, hi, rfl⟩ := mem_map.1 ha
  exact lt_of_lt_of_le (mem_range.1 hi) h

theorem costReads_inBounds {cond : CC} (h : cond.SizesOk) :
    ∀ a ∈ cond.costReads, a.InBounds := by
  induction h with
  | threshold ht hsize hsubs ih =>
    rw [costReads, costReadsList_eq_map]
    intro a ha
    rcases mem_append.1 ha with ha | ha
    · rcases mem_append.1 ha with ha | ha
      · exact forall_mem_range_index hsize a ha
      · exact forall_mem_flatten_take ih _ a ha
    · exact forall_mem_range_index ht a ha
  | prefixed pre len hsub ih => exact ih
  | _ => simp [costReads]

theorem conditionReads_inBounds {cond : CC} (h : cond.SizesOk) :
    ∀ a ∈ cond.conditionReads, a.InBounds := by
  induction h with
  | threshold ht hsize hsubs ih =>
    rw [conditionReads, conditionReadsList_eq_map]
    intro a ha
    rcases mem_append.1 ha with ha | ha
    · exact costReads_inBounds (.threshold ht hsize hsubs) a ha
    · exact forall_mem_flatten_take ih _ a ha
  | prefixed pre len hsub ih =>
    rw [conditionReads]
    intro a ha
    rcases mem_append.1 ha with ha | ha
    · exact costReads_inBounds (.prefixed pre len hsub) a ha
    · exact ih a ha
  | _ => simp [conditionReads]

end CC

namespace CryptoEnv

variable {env : CryptoEnv}

/-- A fulfillment with declared sizes is read as such a tree. -/
theorem sizesOk_of_fulfillmentToCC {f : Fulfillment} (hf : f.SizesDeclared) {cond : CC}
    (h : env.fulfillmentToCC f = some cond) : cond.SizesOk := by
  induction hf generalizing cond with
  | preimage p =>
    cases h
    exact .preimage p
  | prefixed pre len hsub ih =>
    obtain ⟨sub, hread, rfl⟩ := Option.map_eq_some_iff.1 h
    exact .prefixed pre len (ih hread)
  | @threshold fs cs hcount hfs hcs ih =>
    rw [fulfillmentToCC, fulfillmentsToCC_eq_mapM] at h
    split at h
    · rename_i revealed hidden hreadF hreadC
      cases h
      have hlenF := (forall₂_of_mapM hreadF).length_eq
      have hlenC := (forall₂_of_mapM hreadC).length_eq
      refine .threshold hcount ?_ ?_
      · rw [length_append, ← hlenF, ← hlenC, UInt8.toNat_ofNat']
        exact Nat.mod_le _ _
      · intro sub hsub
        rcases mem_append.1 hsub with hsub | hsub
        · obtain ⟨f, hf, hread⟩ := exists_of_mem_mapM hreadF hsub
          exact ih f hf hread
        · obtain ⟨c, -, hanon⟩ := exists_of_mem_mapM hreadC hsub
          simp only [mkAnon] at hanon
          split at hanon
          · simp at hanon
          · cases hanon
            exact .anon _ _ _ _
    · simp at h
  | rsa m s => simp [fulfillmentToCC] at h
  | ed25519 hpk hsig =>
    cases h
    exact .ed25519 _ _
  | secp256k1 hpk hsig =>
    simp only [fulfillmentToCC, secp256k1FromFulfillment] at h
    split at h
    · cases h
      exact .secp256k1 _ _
    · simp at h
  | eval code =>
    cases h
    exact .eval code

/-! ### Reading stays inside -/

theorem anonReads_inBounds {c : AsnCondition} (h : c.SizesDeclared) :
    ∀ a ∈ anonReads c, a.InBounds := by
  unfold anonReads
  split
  · simp
  · intro a ha
    rcases mem_cons.1 ha with rfl | ha
    · exact h.fingerprint.ge
    · obtain ⟨i, hi, rfl⟩ := mem_map.1 ha
      obtain ⟨hrange, hbit⟩ := mem_filter.1 hi
      exact h.subtypes i (mem_range.1 hrange) hbit

theorem anonsReads_inBounds {cs : List AsnCondition} (h : ∀ c ∈ cs, c.SizesDeclared) :
    ∀ a ∈ env.anonsReads cs, a.InBounds := by
  induction cs with
  | nil => simp [anonsReads]
  | cons c cs ih =>
    rw [anonsReads]
    intro a ha
    rcases mem_append.1 ha with ha | ha
    · exact anonReads_inBounds (h c (by simp)) a ha
    · split at ha
      · exact ih (fun c' hc' => h c' (by simp [hc'])) a ha
      · simp at ha

theorem fulfillmentReads_inBounds {f : Fulfillment} (h : f.SizesDeclared) :
    ∀ a ∈ env.fulfillmentReads f, a.InBounds := by
  induction h with
  | prefixed pre len hsub ih => exact ih
  | @threshold fs cs hcount hfs hcs ih =>
    have hlist : ∀ fs : List Fulfillment, (∀ f ∈ fs, ∀ a ∈ env.fulfillmentReads f, a.InBounds) →
        ∀ a ∈ env.fulfillmentsReads fs, a.InBounds := by
      intro fs
      induction fs with
      | nil => simp [fulfillmentsReads]
      | cons f fs ihfs =>
        intro hall a ha
        rw [fulfillmentsReads] at ha
        rcases mem_append.1 ha with ha | ha
        · exact hall f (by simp) a ha
        · split at ha
          · exact ihfs (fun f' hf' => hall f' (by simp [hf'])) a ha
          · simp at ha
    rw [fulfillmentReads]
    intro a ha
    rcases mem_append.1 ha with ha | ha
    · exact hlist fs ih a ha
    · split at ha
      · exact anonsReads_inBounds hcs a ha
      · simp at ha
  | ed25519 hpk hsig => simp [fulfillmentReads, Access.InBounds, hpk, hsig]
  | secp256k1 hpk hsig =>
    rw [fulfillmentReads]
    intro a ha
    rcases mem_cons.1 ha with rfl | ha
    · exact hpk.ge
    · split at ha
      · obtain rfl := mem_singleton.1 ha
        exact hsig.ge
      · simp at ha
  | _ => simp [fulfillmentReads]

/-- With the declared sizes every access stays inside its object. -/
theorem accesses_inBounds {condBin ffillBin : Bytes} (h : env.FieldsDeclared condBin ffillBin) :
    ∀ a ∈ env.accesses condBin ffillBin, a.InBounds := by
  unfold accesses
  split
  · simp
  rename_i nHashType _
  split
  · simp
  rename_i ffill hdecode
  have hsizes := h.sizes ffill hdecode
  split
  · simp
  rename_i hder
  intro a ha
  rcases mem_append.1 ha with ha | ha
  · exact fulfillmentReads_inBounds hsizes a ha
  split at ha
  · simp at ha
  rename_i cond hread
  have hok := sizesOk_of_fulfillmentToCC hsizes hread
  split at ha
  · simp at ha
  rcases mem_append.1 ha with ha | ha
  · exact CC.conditionReads_inBounds hok a ha
  split at ha
  · simp at ha
  rcases mem_append.1 ha with ha | ha
  · exact CC.conditionReads_inBounds hok a ha
  · obtain rfl := mem_singleton.1 ha
    refine h.condition cond ?_
    rw [readFulfillmentBinary, hdecode]
    simp only [not_not.1 hder, if_true, hread]

/-! ### What lies outside does not matter -/

theorem memcpy_withBeyond (b : Beyond) {buf : Bytes} {n : ℕ} (h : n ≤ buf.length) :
    (env.withBeyond b).memcpy buf n = env.memcpy buf n := by
  rw [memcpy_eq_take _ h, memcpy_eq_take _ h]

theorem mkAnon_withBeyond (b : Beyond) {c : AsnCondition} (h : c.SizesDeclared) :
    (env.withBeyond b).mkAnon c = env.mkAnon c := by
  have hsub : (env.withBeyond b).fromAsnSubtypes c.subtypes = env.fromAsnSubtypes c.subtypes := by
    unfold fromAsnSubtypes
    refine foldl_ext _ _ _ fun mask i hi => ?_
    by_cases hbit : c.subtypes.testBit i
    · simp only [hbit, h.subtypes i (mem_range.1 hi) hbit, if_true]
    · simp only [hbit]
      rfl
  unfold mkAnon
  rw [hsub, memcpy_withBeyond b h.fingerprint.ge]

theorem mapM_congr {α β : Type} {g g' : α → Option β} {l : List α} (h : ∀ a ∈ l, g a = g' a) :
    l.mapM g = l.mapM g' := by
  induction l with
  | nil => rfl
  | cons a l ih => rw [mapM_cons, mapM_cons, h a (by simp), ih fun a' ha' => h a' (by simp [ha'])]

theorem fulfillmentToCC_withBeyond (b : Beyond) {f : Fulfillment} (h : f.SizesDeclared) :
    (env.withBeyond b).fulfillmentToCC f = env.fulfillmentToCC f := by
  induction h with
  | prefixed pre len hsub ih => rw [fulfillmentToCC, fulfillmentToCC, ih]
  | @threshold fs cs hcount hfs hcs ih =>
    rw [fulfillmentToCC, fulfillmentToCC, fulfillmentsToCC_eq_mapM, fulfillmentsToCC_eq_mapM,
      mapM_congr ih, mapM_congr fun c hc => mkAnon_withBeyond b (hcs c hc)]
  | ed25519 hpk hsig =>
    rw [fulfillmentToCC, fulfillmentToCC, memcpy_withBeyond b hpk.ge, memcpy_withBeyond b hsig.ge]
  | secp256k1 hpk hsig =>
    rw [fulfillmentToCC, fulfillmentToCC, secp256k1FromFulfillment, secp256k1FromFulfillment,
      memcpy_withBeyond b hpk.ge, memcpy_withBeyond b hsig.ge]
    rfl
  | _ => rfl

theorem getCost_withBeyond (b : Beyond) {cond : CC} (h : cond.SizesOk) :
    (env.withBeyond b).getCost cond = env.getCost cond := by
  induction h with
  | prefixed pre len hsub ih => rw [getCost, getCost, ih]
  | @threshold t size subs ht hsize hsubs ih =>
    rw [getCost, getCost, getCosts_eq_map, getCosts_eq_map, map_congr_left ih]
    have hsort : (env.withBeyond b).qsort cmpCostDesc = env.qsort cmpCostDesc := rfl
    -- every index is below the threshold, and the threshold is not above the size
    have hlen : (env.qsort cmpCostDesc ((subs.map env.getCost).take size.toNat)).length =
        size.toNat := by
      rw [(env.qsort_perm _ _).length_eq, length_take, length_map]
      omega
    generalize hcosts : env.qsort cmpCostDesc ((subs.map env.getCost).take size.toNat) = costs
      at hlen
    have hmap : (range t).map (fun i => costs.getD i (b.cost costs i)) =
        (range t).map fun i => costs.getD i (env.beyond.cost costs i) := by
      refine map_congr_left fun i hi => ?_
      have hi' := mem_range.1 hi
      rw [getD_eq_getElem _ _ (by omega), getD_eq_getElem _ _ (by omega)]
    have hbeyond : (env.withBeyond b).beyond = b := rfl
    simp only [thresholdCost, hsort, hcosts, hbeyond, hmap]
  | _ => rfl

theorem fingerprint_withBeyond (b : Beyond) {cond : CC} (h : cond.SizesOk) :
    (env.withBeyond b).fingerprint cond = env.fingerprint cond := by
  induction h with
  | prefixed pre len hsub ih =>
    rw [fingerprint, fingerprint, ih, getCost_withBeyond b hsub]
    rfl
  | @threshold t size subs ht hsize hsubs ih =>
    have hasn : subs.map (env.withBeyond b).asnCondition = subs.map env.asnCondition :=
      map_congr_left fun sub hsub => by
        rw [asnCondition, asnCondition, ih sub hsub, getCost_withBeyond b (hsubs sub hsub)]
    rw [fingerprint, fingerprint, asnConditions_eq_map, asnConditions_eq_map, hasn]
    rfl
  | _ => rfl

theorem conditionBinary_withBeyond (b : Beyond) {cond : CC} (h : cond.SizesOk) :
    (env.withBeyond b).conditionBinary cond = env.conditionBinary cond := by
  unfold conditionBinary asnCondition
  rw [fingerprint_withBeyond b h, getCost_withBeyond b h]

/-- With the declared sizes the answer does not depend on what lies outside. -/
theorem check_withBeyond (b : Beyond) {condBin ffillBin : Bytes}
    (h : env.FieldsDeclared condBin ffillBin) :
    (env.withBeyond b).checkCryptoCondition condBin ffillBin =
      env.checkCryptoCondition condBin ffillBin := by
  have hread : (env.withBeyond b).readFulfillmentBinary ffillBin.dropLast =
      env.readFulfillmentBinary ffillBin.dropLast := by
    have hber : (env.withBeyond b).berDecode = env.berDecode := rfl
    unfold readFulfillmentBinary
    rw [hber]
    cases hdecode : env.berDecode ffillBin.dropLast with
    | none => rfl
    | some ffill => simp only [fulfillmentToCC_withBeyond b (h.sizes ffill hdecode)]
  unfold checkCryptoCondition
  rw [hread]
  cases ffillBin.getLast? with
  | none => rfl
  | some nHashType =>
    cases hcond : env.readFulfillmentBinary ffillBin.dropLast with
    | none => rfl
    | some cond =>
      have hok : cond.SizesOk := by
        unfold readFulfillmentBinary at hcond
        split at hcond
        · rename_i ffill hdecode
          split at hcond
          · exact sizesOk_of_fulfillmentToCC (h.sizes ffill hdecode) hcond
          · simp at hcond
        · simp at hcond
      have hbinary : (env.withBeyond b).conditionBinary cond = env.conditionBinary cond :=
        conditionBinary_withBeyond b hok
      have hscript : (env.withBeyond b).ccPubKey cond = env.ccPubKey cond := by
        rw [ccPubKey, ccPubKey, hbinary]
      have hverify : ∀ sighash, (env.withBeyond b).ccVerify cond sighash condBin =
          env.ccVerify cond sighash condBin := by
        intro sighash
        simp only [ccVerify, hbinary, memcpy_withBeyond b (h.condition cond hcond)]
        rfl
      simp only [hscript, hverify]
      rfl

namespace Sample

theorem contract_fieldsDeclared :
    contractEnv.FieldsDeclared (contractEnv.conditionBinary contractCond)
      (contractFulfillment.der ++ [1]) := by
  refine ⟨fun ffill hdecode => ?_, fun cond hread => ?_⟩
  · rw [dropLast_concat] at hdecode
    obtain rfl := Option.some.inj ((berDecode_knowing contractFulfillment).symm.trans hdecode)
    refine .threshold (by decide) (fun f hf => ?_) (by simp)
    rcases mem_cons.1 hf with rfl | hf
    · refine .threshold (by decide) (fun f hf => ?_) (by simp)
      obtain rfl := mem_singleton.1 hf
      exact .secp256k1 (by decide) (by decide)
    · obtain rfl := mem_singleton.1 hf
      exact .eval _
  · rw [dropLast_concat, readFulfillmentBinary_contract] at hread
    cases hread
    decide +kernel

end Sample

namespace Sample

/-- A signature of `pk1` whose last but one byte is zero. -/
def sig3 : Bytes :=
  [0xbf, 0x23, 0xc1, 0x54, 0x2d, 0x16, 0xea, 0xb7, 0x0b, 0x10, 0x51, 0xea, 0xf8, 0x32,
   0x82, 0x3c, 0xfc, 0x4c, 0x6f, 0x1d, 0xcd, 0xba, 0xfd, 0x81, 0xe3, 0x79, 0x18, 0xe6,
   0xf8, 0x74, 0xef, 0x8b, 0x03, 0x25, 0x93, 0x1c, 0xd1, 0x6d, 0xc6, 0x77, 0x45, 0xf5,
   0xe0, 0xda, 0x76, 0x41, 0x58, 0x19, 0x24, 0x06, 0x67, 0x4c, 0xe0, 0x65, 0x7b, 0x2d,
   0xf8, 0x92, 0xd0, 0xb2, 0xec, 0xc2, 0x00, 0x6e]

/-- The fulfillment carries 62 of its bytes. -/
def cutFulfillment : Fulfillment := .secp256k1 pk1 (sig3.take 62)

/-- Memory in which a string is followed by the nul byte that the decoder puts
there and then by `last`. -/
def followedBy (last : UInt8) : Beyond :=
  ⟨fun buf i => if i ≤ buf.length then 0 else last, fun _ _ => 0, fun _ => 0⟩

/-- The environment in which it is checked, with this byte after the string. -/
def cutEnv (last : UInt8) : CryptoEnv :=
  { knowing cutFulfillment with
    ecdsaVerify := fun sig msg pk => msg = sighash && pk = pk1 && (sig = sig1 || sig = sig3)
    beyond := followedBy last }

/-- The condition of `pk1`. -/
def cutCondition : Bytes := (cutEnv 0).conditionBinary (.secp256k1 pk1 none)

theorem cut_accepted :
    (cutEnv 0x6e).checkCryptoCondition cutCondition (cutFulfillment.der ++ [1]) = 1 := by
  decide

theorem cut_refused :
    (cutEnv 0).checkCryptoCondition cutCondition (cutFulfillment.der ++ [1]) = 0 := by
  decide

end Sample

end CryptoEnv

end Komodo
