/-
# An accepted fulfillment satisfies the condition

What a condition tree asks for is `Satisfies`: a revealed tree meets it when at
every threshold node that is revealed at least `threshold` of the subconditions
are met by revealed ones, down to signatures and eval codes that verify.

`CheckCryptoCondition` does not see the tree of the condition. It sees the
encoded condition, that is the type, the fingerprint, the cost and the subtypes
of the root, and compares them with those of the tree that the fulfillment
reveals. `satisfies_of_fingerprint` carries this comparison from the root down: a
fingerprint fixes the subconditions up to order, so every revealed node stands
for a node of the tree.

Two things are needed for it. `NoCollision` says that `sha256` does not hash the strings at hand
together; `Fits` says that the fingerprint contents of every threshold node of the tree fit the
buffer of `hashFingerprintContents`.
-/

import Komodo.CryptoConditions.Check

namespace Komodo

open Der List

/-! ### What a tree asks for -/

/-- A condition tree of signatures, eval codes and thresholds, each threshold
between one and the number of its subconditions. -/
inductive CC.WellFormed : CC → Prop
  | secp256k1 {pk : Bytes} {sig : Option Bytes} (hpk : pk.length = 33)
      (hsig : ∀ s ∈ sig, s.length = 64) : WellFormed (.secp256k1 pk sig)
  | eval (code : Bytes) : WellFormed (.eval code)
  | threshold {t : ℕ} {size : UInt8} {subs : List CC} (hsize : size.toNat = subs.length)
      (hpos : 1 ≤ t) (hle : t ≤ subs.length) (hsubs : ∀ sub ∈ subs, WellFormed sub) :
      WellFormed (.threshold t size subs)

namespace CryptoEnv

variable (env : CryptoEnv)

/-- `Satisfies env sighash cond shown`: the revealed tree `shown` meets `cond`. A
threshold is met when at least that many of its subconditions are matched, one to
one, with revealed subconditions that meet them. -/
inductive Satisfies (sighash : Bytes) : CC → CC → Prop
  | secp256k1 {pk sig : Bytes} {placed : Option Bytes} (hparse : env.pubkeyParse pk)
      (hverify : env.ecdsaVerify sig sighash pk) :
      Satisfies sighash (.secp256k1 pk placed) (.secp256k1 pk (some sig))
  | eval {code : Bytes} (hcheck : env.checkEvalCondition code) :
      Satisfies sighash (.eval code) (.eval code)
  | threshold {t t' : ℕ} {size size' : UInt8} {subs subs' : List CC} (met : List (CC × CC))
      (rest : List CC) (hperm : subs.Perm (met.map Prod.fst ++ rest)) (hcount : t ≤ met.length)
      (hshown : (met.map Prod.snd).Sublist subs') (hmet : ∀ p ∈ met, Satisfies sighash p.1 p.2) :
      Satisfies sighash (.threshold t size subs) (.threshold t' size' subs')

/-! ### Hashed strings -/

/-- The fingerprint contents of a threshold node. -/
def thresholdContents (threshold : ℕ) (size : UInt8) (subs : List CC) : Bytes :=
  derThresholdContents threshold
    (env.qsort cmpConditionBin ((subs.map env.asnCondition).take size.toNat))

theorem fingerprint_threshold (t : ℕ) (size : UInt8) (subs : List CC) :
    env.fingerprint (.threshold t size subs) =
      env.hashFingerprintContents (env.thresholdContents t size subs) := by
  rw [fingerprint, asnConditions_eq_map, thresholdContents]

mutual

/-- The strings that are hashed for the fingerprint of a tree of signatures, eval
codes, thresholds and anonymous nodes. -/
def hashInputs : CC → List Bytes
  | .threshold threshold size subs =>
    let contents := env.thresholdContents threshold size subs
    (if contents.length ≤ BUF_SIZE then [contents] else []) ++
      ((hashInputsList subs).take size.toNat).flatten
  | .secp256k1 publicKey _ => [derPublicKeyContents publicKey]
  | .eval code => [code]
  | _ => []

/-- `hashInputs` of each subcondition. -/
def hashInputsList : List CC → List (List Bytes)
  | [] => []
  | sub :: subs => hashInputs sub :: hashInputsList subs

end

@[simp] theorem hashInputsList_eq_map (subs : List CC) :
    env.hashInputsList subs = subs.map env.hashInputs := by
  induction subs with
  | nil => rfl
  | cons sub subs ih => rw [hashInputsList, ih, map_cons]

theorem hashInputs_sub {t : ℕ} {size : UInt8} {subs : List CC} {sub : CC}
    (h : sub ∈ subs.take size.toNat) {b : Bytes} (hb : b ∈ env.hashInputs sub) :
    b ∈ env.hashInputs (.threshold t size subs) := by
  rw [hashInputs, hashInputsList_eq_map, ← map_take]
  exact mem_append_right _ (mem_flatten.2 ⟨_, mem_map_of_mem h, hb⟩)

theorem thresholdContents_mem_hashInputs {t : ℕ} {size : UInt8} {subs : List CC}
    (h : (env.thresholdContents t size subs).length ≤ BUF_SIZE) :
    env.thresholdContents t size subs ∈ env.hashInputs (.threshold t size subs) := by
  rw [hashInputs]
  simp [h]

/-- No string hashed for `cond` has the hash of another one hashed for `shown`,
nor the fingerprint of 32 zeros. -/
structure NoCollision (cond shown : CC) : Prop where
  inj : ∀ a ∈ env.hashInputs cond, ∀ b ∈ env.hashInputs shown, env.sha256 a = env.sha256 b → a = b
  ne_zero : ∀ a ∈ env.hashInputs cond, env.sha256 a ≠ List.replicate 32 0

/-- The fingerprint contents of every threshold node fit their buffer. -/
inductive Fits : CC → Prop
  | secp256k1 (pk : Bytes) (sig : Option Bytes) : Fits (.secp256k1 pk sig)
  | eval (code : Bytes) : Fits (.eval code)
  | threshold {t : ℕ} {size : UInt8} {subs : List CC}
      (hfit : (env.thresholdContents t size subs).length ≤ BUF_SIZE)
      (hsubs : ∀ sub ∈ subs, Fits sub) : Fits (.threshold t size subs)

/-! ### Sizes -/

theorem length_asnSubtypes_le (mask : UInt32) : (asnSubtypes mask).buf.length ≤ 4 := by
  have hmodify : ∀ (l : List ℕ) (buf : Bytes),
      (l.foldl (fun buf i => buf.modify (i / 8) (· ||| UInt8.ofNat (2 ^ (7 - i % 8)))) buf).length =
        buf.length := by
    intro l
    induction l with
    | nil => intro buf; rfl
    | cons i l ih =>
      intro buf
      rw [foldl_cons, ih, length_modify]
  unfold asnSubtypes
  rw [length_take, hmodify]
  exact Nat.min_le_right _ _

variable {cond : CC}

theorem length_der_asnCondition_le (h : (env.fingerprint cond).length = 32) :
    (env.asnCondition cond).der.length ≤ 100 :=
  AsnCondition.length_der_le h (length_asnSubtypes_le cond.getSubtypes)

theorem length_fingerprint_wellFormed (h : cond.WellFormed) :
    (env.fingerprint cond).length = 32 := by
  cases h with
  | secp256k1 _ _ => exact env.length_hashFingerprintContents _
  | eval code => exact env.sha256_length code
  | threshold _ _ _ _ =>
    rw [fingerprint_threshold]
    exact env.length_hashFingerprintContents _

variable {shown : CC}

/-- What a fulfillment reveals is not anonymous, so its fingerprint is computed. -/
theorem length_fingerprint_revealed {f : Fulfillment}
    (h : env.fulfillmentToCC f = some shown) : (env.fingerprint shown).length = 32 := by
  cases f with
  | preimage p =>
    cases h
    exact env.sha256_length p
  | prefixed pre len sub =>
    obtain ⟨sub', -, rfl⟩ := Option.map_eq_some_iff.1 h
    exact env.length_hashFingerprintContents _
  | threshold fs cs =>
    rw [fulfillmentToCC] at h
    split at h
    · cases h
      rw [fingerprint_threshold]
      exact env.length_hashFingerprintContents _
    · simp at h
  | rsa m s => simp [fulfillmentToCC] at h
  | ed25519 pk s =>
    cases h
    exact env.length_hashFingerprintContents _
  | secp256k1 pk s =>
    simp only [fulfillmentToCC, secp256k1FromFulfillment] at h
    split at h
    · cases h
      exact env.length_hashFingerprintContents _
    · simp at h
  | eval code =>
    cases h
    exact env.sha256_length code

/-! ### What a fulfillment reveals -/

variable {env}

theorem forall₂_of_mapM {α β : Type} {g : α → Option β} {l : List α} {r : List β}
    (h : l.mapM g = some r) : List.Forall₂ (fun a b => g a = some b) l r := by
  induction l generalizing r with
  | nil =>
    cases h
    exact .nil
  | cons a l ih =>
    rw [mapM_cons] at h
    obtain ⟨b, hb, h⟩ := Option.bind_eq_some_iff.1 h
    obtain ⟨bs, hbs, h⟩ := Option.bind_eq_some_iff.1 h
    cases h
    exact .cons hb (ih hbs)

theorem exists_of_mem_mapM {α β : Type} {g : α → Option β} {l : List α} {r : List β}
    (h : l.mapM g = some r) {b : β} (hb : b ∈ r) : ∃ a ∈ l, g a = some b := by
  have hall := forall₂_of_mapM h
  obtain ⟨i, hi, rfl⟩ := mem_iff_getElem.1 hb
  have hi' : i < l.length := hall.length_eq ▸ hi
  exact ⟨l.get ⟨i, hi'⟩, get_mem l _, hall.get hi' hi⟩

theorem fulfillmentsToCC_eq_mapM (fs : List Fulfillment) :
    env.fulfillmentsToCC fs = fs.mapM env.fulfillmentToCC := by
  induction fs with
  | nil => rfl
  | cons f fs ih =>
    rw [fulfillmentsToCC, mapM_cons, ← ih]
    cases env.fulfillmentToCC f with
    | none => rfl
    | some cond => cases env.fulfillmentsToCC fs <;> rfl

/-- What a fulfillment reveals: a signature, an eval code, a threshold node whose
threshold is the number of its revealed subconditions and whose eight-bit size
does not exceed the number of them all, or a node of another type. -/
theorem fulfillmentToCC_cases {f : Fulfillment}
    (h : env.fulfillmentToCC f = some shown) :
    (∃ pk sig, shown = .secp256k1 pk (some sig) ∧ pk.length = 33) ∨ (∃ code, shown = .eval code) ∨
      (∃ revealed hidden size, shown = .threshold revealed.length size (revealed ++ hidden) ∧
        size.toNat ≤ (revealed ++ hidden).length ∧
        ∀ sub ∈ revealed, ∃ f', env.fulfillmentToCC f' = some sub) ∨
      shown.typeId ∈ [.preimage, .prefixed, .ed25519] := by
  cases f with
  | secp256k1 pk s =>
    simp only [fulfillmentToCC, secp256k1FromFulfillment] at h
    split at h
    · cases h
      exact Or.inl ⟨_, _, rfl, env.length_memcpy pk 33⟩
    · simp at h
  | eval code => exact Or.inr (Or.inl ⟨code, (Option.some.inj h).symm⟩)
  | threshold fs cs =>
    rw [fulfillmentToCC, fulfillmentsToCC_eq_mapM] at h
    split at h
    · rename_i revealed hidden hfs hcs
      cases h
      have hlen := (forall₂_of_mapM hfs).length_eq
      have hlen' := (forall₂_of_mapM hcs).length_eq
      refine Or.inr (Or.inr (Or.inl ⟨revealed, hidden, _, by rw [hlen], ?_, ?_⟩))
      · rw [UInt8.toNat_ofNat', length_append, ← hlen, ← hlen']
        exact Nat.mod_le _ _
      · intro sub hsub
        obtain ⟨f', -, hf'⟩ := exists_of_mem_mapM hfs hsub
        exact ⟨f', hf'⟩
    · simp at h
  | prefixed pre len sub =>
    obtain ⟨sub', -, rfl⟩ := Option.map_eq_some_iff.1 h
    simp [CC.typeId]
  | rsa m s => simp [fulfillmentToCC] at h
  | preimage p =>
    cases h
    simp [CC.typeId]
  | ed25519 pk s =>
    cases h
    simp [CC.typeId]

/-! ### From the root down -/

/-- The encoded condition of a node. -/
def conditionDer (env : CryptoEnv) (cond : CC) : Bytes := (env.asnCondition cond).der

/-- Equal threshold contents: the same threshold, and subconditions with the same
encodings up to order. -/
theorem thresholdContents_inj {t t' : ℕ} {size size' : UInt8} {subs subs' : List CC}
    (hfit : (env.thresholdContents t size subs).length ≤ BUF_SIZE)
    (h : env.thresholdContents t size subs = env.thresholdContents t' size' subs') :
    t % 2 ^ 64 = t' % 2 ^ 64 ∧
      ((subs.take size.toNat).map env.conditionDer).Perm
        ((subs'.take size'.toNat).map env.conditionDer) := by
  have hlt : (env.thresholdContents t size subs).length < 256 ^ 8 :=
    lt_of_le_of_lt hfit (by decide)
  obtain ⟨ht, hperm⟩ := derThresholdContents_inj hlt h
  -- `qsort` and the order of the set move elements only
  have hsorted : ∀ (size : UInt8) (subs : List CC),
      ((env.qsort cmpConditionBin ((subs.map env.asnCondition).take size.toNat)).map
        AsnCondition.der).Perm ((subs.take size.toNat).map env.conditionDer) := by
    intro size subs
    refine ((env.qsort_perm _ _).map _).trans (List.Perm.of_eq ?_)
    rw [← map_take, map_map]
    rfl
  exact ⟨ht, (hsorted size subs).symm.trans (hperm.trans (hsorted size' subs'))⟩

theorem conditionDer_inj {cond shown : CC} (h32 : (env.fingerprint cond).length = 32)
    (h : env.conditionDer cond = env.conditionDer shown) :
    shown.typeId = cond.typeId ∧ env.fingerprint shown = env.fingerprint cond := by
  have hlen : (env.conditionDer cond).length < 256 ^ 8 :=
    lt_of_le_of_lt (env.length_der_asnCondition_le h32) (by decide)
  have hlen' : (env.conditionDer shown).length < 256 ^ 8 := h ▸ hlen
  have happ : env.conditionDer cond ++ [] = env.conditionDer shown ++ [] := by rw [h]
  obtain ⟨hpresent, hfp⟩ := AsnCondition.der_append_inj hlen hlen' happ
  exact ⟨(CCTypeId.asnType_inj hpresent).symm, hfp.symm⟩

/-- Of two lists with the same encodings up to order, the first `t` of one are
matched with members of the other. -/
theorem exists_matching {visited subs : List CC} (t : ℕ)
    (h : (visited.map env.conditionDer).Perm (subs.map env.conditionDer)) :
    ∃ (met : List (CC × CC)) (rest : List CC), subs.Perm (met.map Prod.fst ++ rest) ∧
      met.map Prod.snd = visited.take t ∧
      ∀ p ∈ met, env.conditionDer p.1 = env.conditionDer p.2 := by
  have hcomp := (congrFun (congrFun (eq_map_comp_perm env.conditionDer)
    (visited.map env.conditionDer)) subs).mpr h
  obtain ⟨subs', heq, hperm⟩ := hcomp
  have hlen : visited.length = subs'.length := by simpa using congrArg List.length heq
  refine ⟨(subs'.zip visited).take t, subs'.drop t, ?_, ?_, ?_⟩
  · rw [map_take, map_fst_zip (by omega), take_append_drop]
    exact hperm.symm
  · rw [map_take, map_snd_zip (by omega)]
  · intro p hp
    obtain ⟨i, hi, rfl⟩ := mem_iff_getElem.1 (mem_of_mem_take hp)
    have hi' : i < visited.length := by
      rw [length_zip] at hi
      omega
    have hget : (visited.map env.conditionDer)[i]? = (subs'.map env.conditionDer)[i]? := by rw [heq]
    simpa [getElem?_eq_getElem hi', getElem?_eq_getElem (hlen ▸ hi')] using hget.symm

theorem visitAll_threshold {visitor : Bytes → CC → Bool} {msg : Bytes} {t : ℕ} {size : UInt8}
    {subs : List CC} (h : CC.visitAll visitor msg (.threshold t size subs)) :
    ∀ sub ∈ subs.take size.toNat, sub.visitAll visitor msg := by
  intro sub hsub
  simp only [CC.visitAll, CC.visitAlls_eq_map, ← map_take, Bool.and_eq_true,
    all_map, all_eq_true] at h
  exact h.2 sub hsub

theorem thresholdContents_eq {cond shown : CC} {t t' : ℕ} {size size' : UInt8}
    {subs subs' : List CC} (hcond : cond = .threshold t size subs)
    (hshown : shown = .threshold t' size' subs')
    (hfit : (env.thresholdContents t size subs).length ≤ BUF_SIZE)
    (hcol : env.NoCollision cond shown) (hfp : env.fingerprint shown = env.fingerprint cond) :
    env.thresholdContents t size subs = env.thresholdContents t' size' subs' := by
  subst hcond hshown
  have hin := env.thresholdContents_mem_hashInputs hfit
  rw [fingerprint_threshold, fingerprint_threshold, hashFingerprintContents,
    hashFingerprintContents, if_pos hfit] at hfp
  split at hfp
  · rename_i hfit'
    exact hcol.inj _ hin _ (env.thresholdContents_mem_hashInputs hfit') hfp.symm
  · exact absurd hfp.symm (hcol.ne_zero _ hin)

/-- **A revealed tree with the fingerprint of a condition, whose signatures and
eval codes verify, satisfies the condition.** -/
theorem satisfies_of_fingerprint {sighash : Bytes} (hwf : cond.WellFormed)
    (hfits : env.Fits cond) {f : Fulfillment}
    (hf : env.fulfillmentToCC f = some shown) (htype : shown.typeId = cond.typeId)
    (hfp : env.fingerprint shown = env.fingerprint cond) (hcol : env.NoCollision cond shown)
    (hsecp : shown.visitAll (env.secp256k1Visit sighash) [])
    (heval : shown.visitAll env.evalVisit []) : env.Satisfies sighash cond shown := by
  induction hwf generalizing f shown with
  | @secp256k1 pk sig hpk hsig =>
    obtain ⟨pk', sig', rfl, hpk'⟩ | ⟨code, rfl⟩ | ⟨_, _, _, rfl, -, -⟩ | hother :=
      fulfillmentToCC_cases hf
    · have hshort : ∀ b : Bytes, b.length = 33 → (derPublicKeyContents b).length ≤ BUF_SIZE := by
        intro b hb
        rw [derPublicKeyContents, length_tlv_short _ (by rw [length_tlv_short _] <;> omega),
          length_tlv_short _ (by omega), hb]
        decide
      have hcontents : derPublicKeyContents pk = derPublicKeyContents pk' := by
        simp only [fingerprint, hashFingerprintContents, if_pos (hshort _ hpk),
          if_pos (hshort _ hpk')] at hfp
        exact hcol.inj _ (by simp [hashInputs]) _ (by simp [hashInputs]) hfp.symm
      obtain rfl := derPublicKeyContents_inj (by omega) (by omega) hcontents
      simp only [CC.visitAll, secp256k1Visit, Bool.and_eq_true] at hsecp
      exact .secp256k1 hsecp.1 hsecp.2
    · simp [CC.typeId] at htype
    · simp [CC.typeId] at htype
    · rw [htype] at hother
      simp [CC.typeId] at hother
  | eval code =>
    obtain ⟨_, _, rfl, -⟩ | ⟨code', rfl⟩ | ⟨_, _, _, rfl, -, -⟩ | hother :=
      fulfillmentToCC_cases hf
    · simp [CC.typeId] at htype
    · obtain rfl : code = code' :=
        hcol.inj _ (by simp [hashInputs]) _ (by simp [hashInputs]) hfp.symm
      exact .eval heval
    · simp [CC.typeId] at htype
    · rw [htype] at hother
      simp [CC.typeId] at hother
  | @threshold t size subs hsize hpos hle hsubs ih =>
    obtain ⟨_, _, rfl, -⟩ | ⟨_, rfl⟩ | ⟨revealed, hidden, size', rfl, hsize', hrevealed⟩ | hother :=
      fulfillmentToCC_cases hf
    · simp [CC.typeId] at htype
    · simp [CC.typeId] at htype
    · obtain ⟨hfit, hfits⟩ : (env.thresholdContents t size subs).length ≤ BUF_SIZE ∧
          ∀ sub ∈ subs, env.Fits sub := by
        cases hfits with
        | threshold hfit hfits => exact ⟨hfit, hfits⟩
      have hcontents := thresholdContents_eq rfl rfl hfit hcol hfp
      obtain ⟨ht, hperm⟩ := thresholdContents_inj hfit hcontents
      rw [hsize, take_length] at hperm
      -- as many are visited as the condition has, and the first `t` of them are revealed
      have hvisited : ((revealed ++ hidden).take size'.toNat).length = subs.length := by
        simpa using hperm.length_eq.symm
      have hsize8 := size.toNat_lt
      have hcount : t ≤ revealed.length := by
        rw [Nat.mod_eq_of_lt (by omega)] at ht
        exact ht ▸ Nat.mod_le _ _
      have htake : ((revealed ++ hidden).take size'.toNat).take t = revealed.take t := by
        rw [length_take] at hvisited
        rw [take_take, Nat.min_eq_left (by omega), take_append_of_le_length hcount]
      obtain ⟨met, rest, hmatch, hsnd, hder⟩ := exists_matching t hperm.symm
      rw [htake] at hsnd
      refine .threshold met rest hmatch ?_ ?_ ?_
      · have := congrArg List.length hsnd
        rw [length_map, length_take] at this
        omega
      · rw [hsnd]
        exact (take_sublist _ _).trans (sublist_append_left _ _)
      · intro p hp
        have hfst : p.1 ∈ subs :=
          hmatch.mem_iff.2 (mem_append_left _ (mem_map_of_mem hp))
        have hshown : p.2 ∈ revealed.take t := hsnd ▸ mem_map_of_mem hp
        have hmem : p.2 ∈ (revealed ++ hidden).take size'.toNat :=
          mem_of_mem_take (htake ▸ hshown)
        obtain ⟨f', hf'⟩ := hrevealed p.2 (mem_of_mem_take hshown)
        obtain ⟨htype', hfp'⟩ :=
          conditionDer_inj (env.length_fingerprint_wellFormed (hsubs _ hfst)) (hder p hp)
        have hmem' : p.1 ∈ subs.take size.toNat := by rwa [hsize, take_length]
        refine ih p.1 hfst (hfits _ hfst) hf' htype' hfp' ⟨?_, ?_⟩
          (visitAll_threshold hsecp _ hmem) (visitAll_threshold heval _ hmem)
        · intro a ha b hb
          exact hcol.inj a (env.hashInputs_sub hmem' ha) b (env.hashInputs_sub hmem hb)
        · intro a ha
          exact hcol.ne_zero a (env.hashInputs_sub hmem' ha)
    · rw [htype] at hother
      simp [CC.typeId] at hother

/-! ### At the root -/

/-- A copy of `n` bytes and the string it was made from begin alike. -/
theorem exists_memcpy_append (buf : Bytes) (n : ℕ) :
    ∃ r s, env.memcpy buf n ++ r = buf ++ s := by
  rcases le_total n buf.length with hle | hge
  · exact ⟨buf.drop n, [], by rw [env.memcpy_eq_take hle, take_append_drop, append_nil]⟩
  · refine ⟨[], (env.memcpy buf n).drop buf.length, ?_⟩
    have hbuf : (env.memcpy buf n).take buf.length = buf := by
      apply ext_getElem
      · simp [memcpy, hge]
      · intro i hi hi'
        simp [memcpy, hi']
    rw [append_nil]
    exact (hbuf ▸ take_append_drop buf.length (env.memcpy buf n)).symm

theorem conditionBinary_eq (h : (env.fingerprint cond).length = 32) :
    env.conditionBinary cond = env.conditionDer cond := by
  have := env.length_der_asnCondition_le h
  exact if_pos (by omega)

/-- The comparison of `cc_verify` finds the whole condition, although it takes its
length from one side. -/
theorem conditionDer_eq_of_memcpy {cond shown : CC} (hcond : (env.fingerprint cond).length = 32)
    (hshown : (env.fingerprint shown).length = 32)
    (h : env.memcpy (env.conditionBinary cond) (env.conditionBinary shown).length =
      env.conditionBinary shown) : env.conditionDer cond = env.conditionDer shown := by
  rw [conditionBinary_eq hcond, conditionBinary_eq hshown] at h
  obtain ⟨r, s, happ⟩ : ∃ r s, env.conditionDer shown ++ r = env.conditionDer cond ++ s :=
    h ▸ exists_memcpy_append (env.conditionDer cond) (env.conditionDer shown).length
  have hlen : ∀ c, (env.fingerprint c).length = 32 →
      (env.asnCondition c).body.length < 256 ^ 8 := by
    intro c hc
    exact lt_of_lt_of_le (length_lt_length_tlv (env.asnCondition c).present.tag _)
      ((env.length_der_asnCondition_le hc).trans (by decide))
  obtain ⟨htag, hbody, -⟩ := tlv_append_inj (hlen _ hshown) (hlen _ hcond) happ
  rw [conditionDer, conditionDer, AsnCondition.der, AsnCondition.der, htag, hbody]

/-- **An accepted fulfillment satisfies the condition,** with signatures for the
hash of this input under the script of the condition itself. -/
theorem satisfies_of_check (hwf : cond.WellFormed) (hfits : env.Fits cond)
    {ffillBin : Bytes}
    (hread : env.readFulfillmentBinary ffillBin.dropLast = some shown)
    (hcol : env.NoCollision cond shown)
    (h : env.checkCryptoCondition (env.conditionBinary cond) ffillBin = 1) :
    ∃ nHashType sighash, ffillBin.getLast? = some nHashType ∧
      env.signatureHash (env.ccPubKey cond) nHashType = some sighash ∧
      env.Satisfies sighash cond shown := by
  obtain ⟨nHashType, shown', sighash, hlast, hread', hacc⟩ := env.checkCryptoCondition_eq_one.1 h
  obtain rfl : shown = shown' := Option.some.inj (hread.symm.trans hread')
  obtain ⟨f, hf⟩ : ∃ f, env.fulfillmentToCC f = some shown := by
    unfold readFulfillmentBinary at hread
    split at hread
    · split at hread
      · exact ⟨_, hread⟩
      · simp at hread
    · simp at hread
  have hcond32 := env.length_fingerprint_wellFormed hwf
  have hshown32 := env.length_fingerprint_revealed hf
  have hverified := hacc.verified
  simp only [ccVerify, secp256k1VerifyTreeMsg32, Bool.and_eq_true, decide_eq_true_eq] at hverified
  obtain ⟨⟨⟨hmemcmp, -⟩, -, hsecp⟩, heval⟩ := hverified
  have hder := conditionDer_eq_of_memcpy hcond32 hshown32 hmemcmp
  obtain ⟨htype, hfp⟩ := conditionDer_inj hcond32 hder
  have hscript : env.ccPubKey shown = env.ccPubKey cond := by
    rw [ccPubKey, ccPubKey, conditionBinary_eq hcond32, conditionBinary_eq hshown32, hder]
  exact ⟨nHashType, sighash, hlast, hscript ▸ hacc.sighash_eq,
    satisfies_of_fingerprint hwf hfits hf htype hfp hcol hsecp heval⟩

end CryptoEnv

end Komodo
