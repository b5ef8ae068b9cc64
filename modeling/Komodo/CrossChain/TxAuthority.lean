/-
# The signers of a notarisation

`CrossChain::CheckTxAuthority` of `src/src/crosschain.cpp`.

Every input has to spend the output of a notary that no earlier input is counted for.  The first
such notary is taken, which loses nothing: two positions that an input can be counted for hold the
same key (`assigns_cons_iff`).

`tx.vout.size() < txIn.prevout.n` is the bound check of the output that is spent, so that the output
behind the last one is read where the two are equal (`PastEnd`).
-/

import Komodo.Notary.NotaryPay

namespace Komodo
namespace TxAuthority

open List

open NotaryPay (BadAccess payScript isPubkeyScript)

/-- `CrosschainAuthority`, with one notary at least. -/
structure CrosschainAuthority where
  notaries : List Bytes
  size : ℕ
  /-- An `int8_t`. -/
  requiredSigs : ℤ
  length_notaries : notaries.length = 64
  width : ∀ key ∈ notaries, key.length = 33
  size_pos : 0 < size
  size_le : size ≤ 64
  requiredSigs_range : -128 ≤ requiredSigs ∧ requiredSigs < 128

/-- `auth.notaries[i]`. -/
def CrosschainAuthority.notary (auth : CrosschainAuthority) (i : ℕ) : Bytes :=
  auth.notaries.getD i []

theorem CrosschainAuthority.length_notary (auth : CrosschainAuthority) {i : ℕ} (h : i < auth.size) :
    (auth.notary i).length = 33 := by
  have hi : i < auth.notaries.length := by
    rw [auth.length_notaries]
    exact h.trans_le auth.size_le
  rw [CrosschainAuthority.notary, getD_eq_getElem?_getD, getElem?_eq_getElem hi]
  exact auth.width _ (getElem_mem hi)

/-- The authority, and the answers of `Eval::GetTxUnconfirmed`. -/
structure Env where
  auth : CrosschainAuthority
  getTxUnconfirmed : Uint256 → Option CTransaction

namespace Env

/-- One round of the loop over the inputs, with the positions that `seen` marks: the notary that is
found, and none where `false` is returned. -/
def findNotary (env : Env) (seen : List ℕ) (txIn : CTxIn) : Except BadAccess (Option ℕ) :=
  match env.getTxUnconfirmed txIn.prevout.hash with
  | none => .ok none
  | some tx =>
    if tx.vout.length < txIn.prevout.n then .ok none
    else match tx.vout[txIn.prevout.n]? with
      | none => .error .vout
      | some out =>
        if isPubkeyScript out.scriptPubKey then
          .ok ((List.range env.auth.size).find? fun i =>
            i ∉ seen ∧ (out.scriptPubKey.drop 1).take 33 = env.auth.notary i)
        else .ok none

/-- The loop over the inputs. -/
def checkVins (env : Env) : List CTxIn → (seen : List ℕ) → Except BadAccess Bool
  | [], _ => .ok true
  | txIn :: vin, seen =>
    match env.findNotary seen txIn with
    | .error e => .error e
    | .ok none => .ok false
    | .ok (some i) => env.checkVins vin (i :: seen)

/-- `CheckTxAuthority`. The number of signatures is compared as a `size_t`. -/
def checkTxAuthority (env : Env) (tx : CTransaction) : Except BadAccess Bool :=
  if tx.vin.length < (env.auth.requiredSigs % 2 ^ 64).toNat then .ok false
  else env.checkVins tx.vin []

/-! ### What an input spends -/

/-- The input spends the output of this notary. -/
def Spends (env : Env) (txIn : CTxIn) (i : ℕ) : Prop :=
  i < env.auth.size ∧ ∃ prev out, env.getTxUnconfirmed txIn.prevout.hash = some prev
    ∧ prev.vout[txIn.prevout.n]? = some out ∧ out.scriptPubKey = payScript (env.auth.notary i)

/-- The input spends the output behind the last one. -/
def PastEnd (env : Env) (txIn : CTxIn) : Prop :=
  ∃ prev, env.getTxUnconfirmed txIn.prevout.hash = some prev ∧ prev.vout.length = txIn.prevout.n

/-- The inputs can be assigned to different notaries that are not in `seen`. -/
def Assigns (env : Env) (vin : List CTxIn) (seen : List ℕ) : Prop :=
  ∃ notaries : List ℕ, notaries.Nodup ∧ notaries.Disjoint seen
    ∧ List.Forall₂ env.Spends vin notaries

variable {env : Env} {seen : List ℕ} {txIn : CTxIn} {vin : List CTxIn}

/-- What a round says about its input. -/
theorem findNotary_spec (env : Env) (seen : List ℕ) (txIn : CTxIn) :
    match env.findNotary seen txIn with
    | .error _ => env.PastEnd txIn
    | .ok none => ¬ env.PastEnd txIn ∧ ∀ i, env.Spends txIn i → i ∈ seen
    | .ok (some i) => ¬ env.PastEnd txIn ∧ env.Spends txIn i ∧ i ∉ seen := by
  unfold findNotary
  cases htx : env.getTxUnconfirmed txIn.prevout.hash with
  | none => simp [PastEnd, Spends, htx]
  | some tx =>
    have hpast : env.PastEnd txIn ↔ tx.vout.length = txIn.prevout.n := by simp [PastEnd, htx]
    simp only [hpast]
    cases hout : tx.vout[txIn.prevout.n]? with
    | none =>
      have hle := getElem?_eq_none_iff.1 hout
      by_cases hlt : tx.vout.length < txIn.prevout.n
      · rw [if_pos hlt]
        exact ⟨hlt.ne, by simp [Spends, htx, hout]⟩
      · rw [if_neg hlt]
        exact le_antisymm hle (Nat.le_of_not_lt hlt)
    | some out =>
      obtain ⟨hlt, -⟩ := List.getElem?_eq_some_iff.1 hout
      have hspends : ∀ i, env.Spends txIn i ↔ i < env.auth.size ∧
          isPubkeyScript out.scriptPubKey = true
            ∧ (out.scriptPubKey.drop 1).take 33 = env.auth.notary i := by
        intro i
        refine and_congr_right fun hi => ?_
        simp only [htx, Option.some.injEq, exists_and_left, exists_eq_left', hout]
        rw [← NotaryPay.paysKey_iff (env.auth.length_notary hi), NotaryPay.paysKey,
          decide_eq_true_iff]
      simp only [hspends]
      rw [if_neg hlt.not_gt]
      by_cases hpub : isPubkeyScript out.scriptPubKey = true
      · simp only [if_pos hpub]
        cases hfind : (range env.auth.size).find? fun i => decide
            (i ∉ seen ∧ (out.scriptPubKey.drop 1).take 33 = env.auth.notary i) with
        | none =>
          refine ⟨hlt.ne', ?_⟩
          rintro i ⟨hi, -, hkey⟩
          have hnot := find?_eq_none.1 hfind i (mem_range.2 hi)
          by_contra hseen
          exact hnot (decide_eq_true ⟨hseen, hkey⟩)
        | some i =>
          have hi := mem_range.1 (mem_of_find?_eq_some hfind)
          obtain ⟨hseen, hkey⟩ := of_decide_eq_true (find?_some
            (p := fun i => decide (i ∉ seen ∧ _ = env.auth.notary i)) hfind)
          exact ⟨hlt.ne', ⟨hi, hpub, hkey⟩, hseen⟩
      · simp only [if_neg hpub]
        refine ⟨hlt.ne', ?_⟩
        rintro i ⟨-, h, -⟩
        exact absurd h hpub

/-! ### Assignments -/

theorem assigns_nil (env : Env) (seen : List ℕ) : env.Assigns [] seen :=
  ⟨[], nodup_nil, disjoint_nil_left _, .nil⟩

/-- Two notaries of one input hold one key, so they stand for each other. -/
theorem Spends.swap {i j k : ℕ} {txIn' : CTxIn} (hi : env.Spends txIn i) (hj : env.Spends txIn j)
    (h : env.Spends txIn' k) : env.Spends txIn' (Equiv.swap i j k) := by
  obtain ⟨hi, _, _, htx, hout, hscript⟩ := hi
  obtain ⟨hj, _, _, htx', hout', hscript'⟩ := hj
  rw [htx] at htx'
  cases htx'
  rw [hout] at hout'
  cases hout'
  rw [hscript] at hscript'
  have hkey : env.auth.notary i = env.auth.notary j :=
    append_cancel_right (cons.inj hscript').2
  rw [Equiv.swap_apply_def]
  split_ifs with hki hkj
  · subst hki
    exact ⟨hj, hkey ▸ h.2⟩
  · subst hkj
    exact ⟨hi, hkey ▸ h.2⟩
  · exact h

/-- **The choice of the notary does not matter.** -/
theorem assigns_cons_iff {i : ℕ} (hi : env.Spends txIn i) (hseen : i ∉ seen) :
    env.Assigns (txIn :: vin) seen ↔ env.Assigns vin (i :: seen) := by
  constructor
  · rintro ⟨notaries, hnodup, hdisjoint, hspends⟩
    obtain _ | @⟨_, j, _, notaries, hj, hspends⟩ := hspends
    rw [nodup_cons] at hnodup
    rw [disjoint_cons_left] at hdisjoint
    -- the notary of the first input and `i` change places
    refine ⟨notaries.map (Equiv.swap i j), hnodup.2.map (Equiv.injective _), ?_, ?_⟩
    · rw [disjoint_cons_right]
      refine ⟨fun hmem => hnodup.1 ?_, fun k hmem hk => ?_⟩
      · obtain ⟨k, hk, hswap⟩ := mem_map.1 hmem
        rw [Equiv.swap_apply_eq_iff, Equiv.swap_apply_left] at hswap
        exact hswap ▸ hk
      · obtain ⟨l, hl, rfl⟩ := mem_map.1 hmem
        rw [Equiv.swap_apply_def] at hk
        split_ifs at hk with hli hlj
        · exact hdisjoint.1 hk
        · exact hseen hk
        · exact hdisjoint.2 hl hk
    · rw [forall₂_map_right_iff]
      exact hspends.imp fun _ _ h => hi.swap hj h
  · rintro ⟨notaries, hnodup, hdisjoint, hspends⟩
    rw [disjoint_cons_right] at hdisjoint
    exact ⟨i :: notaries, nodup_cons.2 ⟨hdisjoint.1, hnodup⟩,
      disjoint_cons_left.2 ⟨hseen, hdisjoint.2⟩, .cons hi hspends⟩

theorem assigns_of_checkVins (h : env.checkVins vin seen = .ok true) : env.Assigns vin seen := by
  induction vin generalizing seen with
  | nil => exact assigns_nil env seen
  | cons txIn vin ih =>
    have hspec := findNotary_spec env seen txIn
    unfold checkVins at h
    cases hfind : env.findNotary seen txIn with
    | error e =>
      rw [hfind] at h
      cases h
    | ok found =>
      rw [hfind] at h hspec
      cases found with
      | none => cases h
      | some i => exact (assigns_cons_iff hspec.2.1 hspec.2.2).2 (ih h)

/-- The loop reads past the end at the first input that spends behind the last output, where it
comes that far. -/
theorem checkVins_isOk_iff : (∃ b, env.checkVins vin seen = .ok b) ↔
    ¬ ∃ before txIn after, vin = before ++ txIn :: after ∧ env.Assigns before seen
      ∧ env.PastEnd txIn := by
  induction vin generalizing seen with
  | nil => simp [checkVins]
  | cons txIn vin ih =>
    have hspec := findNotary_spec env seen txIn
    unfold checkVins
    cases hfind : env.findNotary seen txIn with
    | error e =>
      rw [hfind] at hspec
      simp only [reduceCtorEq, exists_false, false_iff, not_not]
      exact ⟨[], txIn, vin, rfl, assigns_nil env seen, hspec⟩
    | ok found =>
      rw [hfind] at hspec
      cases found with
      | none =>
        refine iff_of_true ⟨false, rfl⟩ ?_
        rintro ⟨_ | ⟨_, before⟩, txIn', after, heq, hassigns, hpast⟩
        · exact hspec.1 ((cons.inj heq).1 ▸ hpast)
        · obtain ⟨_, -, hdisjoint, hspends⟩ := hassigns
          obtain _ | @⟨_, j, _, _, hj, _⟩ := hspends
          rw [← (cons.inj heq).1] at hj
          exact hdisjoint mem_cons_self (hspec.2 j hj)
      | some i =>
        simp only []
        rw [ih, not_iff_not]
        constructor
        · rintro ⟨before, txIn', after, rfl, hassigns, hpast⟩
          exact ⟨txIn :: before, txIn', after, rfl,
            (assigns_cons_iff hspec.2.1 hspec.2.2).2 hassigns, hpast⟩
        · rintro ⟨_ | ⟨_, before⟩, txIn', after, heq, hassigns, hpast⟩
          · exact absurd ((cons.inj heq).1 ▸ hpast) hspec.1
          · obtain ⟨rfl, rfl⟩ := cons.inj heq
            exact ⟨before, txIn', after, rfl, (assigns_cons_iff hspec.2.1 hspec.2.2).1 hassigns,
              hpast⟩

/-- **What `CheckTxAuthority` accepts is signed by different notaries**, and it reads no output that
is not there, unless it comes to an input that spends the output behind the last one. -/
theorem checkTxAuthority_sound_iff (env : Env) (tx : CTransaction) :
    (∃ b, env.checkTxAuthority tx = .ok b ∧ (b = true →
      env.auth.requiredSigs ≤ tx.vin.length ∧ env.Assigns tx.vin [])) ↔
      ¬ ((env.auth.requiredSigs % 2 ^ 64).toNat ≤ tx.vin.length ∧ ∃ before txIn after,
        tx.vin = before ++ txIn :: after ∧ env.Assigns before [] ∧ env.PastEnd txIn) := by
  have hrange := env.auth.requiredSigs_range
  unfold checkTxAuthority
  by_cases hlength : tx.vin.length < (env.auth.requiredSigs % 2 ^ 64).toNat
  · rw [if_pos hlength]
    exact iff_of_true ⟨false, rfl, nofun⟩ fun h => by omega
  · rw [if_neg hlength, not_and, ← checkVins_isOk_iff]
    constructor
    · rintro ⟨b, hb, -⟩ -
      exact ⟨b, hb⟩
    · intro h
      obtain ⟨b, hb⟩ := h (by omega)
      refine ⟨b, hb, ?_⟩
      rintro rfl
      exact ⟨by omega, assigns_of_checkVins hb⟩

end Env

/-- An authority of one notary, and a transaction with one output. -/
def sampleEnv : Env where
  auth :=
    { notaries := List.replicate 64 (List.replicate 33 2)
      size := 1
      requiredSigs := 1
      length_notaries := List.length_replicate
      width := fun key h => by rw [List.eq_of_mem_replicate h, List.length_replicate]
      size_pos := Nat.one_pos
      size_le := by decide
      requiredSigs_range := by decide }
  getTxUnconfirmed _ := some { hash := 5, vin := [], vout := [⟨10000, [OP_RETURN]⟩] }

/-- The second output of the transaction with one output is read. -/
theorem past_end_read : ¬ ∀ (env : Env) (tx : CTransaction), ∃ b, env.checkTxAuthority tx = .ok b
    ∧ (b = true → env.auth.requiredSigs ≤ tx.vin.length ∧ env.Assigns tx.vin []) := by
  intro h
  obtain ⟨b, hb, -⟩ := h sampleEnv { hash := 6, vin := [{ prevout := ⟨5, 1⟩ }], vout := [] }
  cases hb

end TxAuthority
end Komodo
