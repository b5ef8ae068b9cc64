/-
# What a signature covers

Two calls of `SignatureHash` with one hash type that return one hash agree on what the hash type
covers (`covered_of_signatureHash_eq`), if the hash functions neither collide on the messages of
the two calls nor send one of them to the null hash, which stands for a list that is not hashed.

The format before Overwinter covers less (`not_covered_sproutCall`): not the amount, and with an
empty script code not which input is signed.
-/

import Komodo.Script.SignatureOverwinter
import Komodo.Script.SignatureSprout

namespace Komodo
namespace Wire

open Streams Unserialize

namespace SignatureHashCall

variable {H : Hasher} {nHashType : HashType} {consensusBranchId : ℕ} {c d : SignatureHashCall}

theorem signatureMessage_eq_ok {m : HashInput}
    (h : c.signatureMessage H nHashType consensusBranchId = .ok m) :
    c.HasInput ∧ match signatureHashVersion c.txTo with
      | .sprout => c.sproutMessage nHashType = .ok m
      | .overwinter => c.overwinterMessage H nHashType consensusBranchId false = .ok m
      | .sapling => c.overwinterMessage H nHashType consensusBranchId true = .ok m := by
  unfold signatureMessage at h
  split_ifs at h with hrange
  refine ⟨?_, ?_⟩
  · by_cases hne : c.nIn = NOT_AN_INPUT
    · exact Or.inr hne
    · exact Or.inl (Nat.lt_of_not_le fun hle => hrange ⟨hle, hne⟩)
  · cases hv : signatureHashVersion c.txTo <;> rw [hv] at h <;> exact h

theorem signatureHash_eq_ok {h : Uint256}
    (heq : c.signatureHash H nHashType consensusBranchId = .ok h) :
    ∃ m, c.signatureMessage H nHashType consensusBranchId = .ok m ∧ H.hash m = h := by
  unfold signatureHash at heq
  cases hm : c.signatureMessage H nHashType consensusBranchId with
  | error e =>
    rw [hm] at heq
    cases heq
  | ok m =>
    rw [hm] at heq
    exact ⟨m, rfl, Except.ok.inj heq⟩

theorem Covered.of_uncached (h : Covered nHashType c.uncached d.uncached) :
    Covered nHashType c d :=
  { header := h.header
    nVersionGroupId := h.nVersionGroupId
    nLockTime := h.nLockTime
    nExpiryHeight := h.nExpiryHeight
    valueBalance := h.valueBalance
    vShieldedSpend := h.vShieldedSpend
    vShieldedOutput := h.vShieldedOutput
    vjoinsplit := h.vjoinsplit
    prevouts := h.prevouts
    sequences := h.sequences
    outputs := h.outputs
    output := h.output
    input := h.input
    scriptCode := h.scriptCode
    amount := h.amount }

/-- Transactions that were read hold the defaults where their format has no field. -/
theorem Covered.sameParts (h : Covered nHashType c d)
    (hversion : signatureHashVersion c.txTo = signatureHashVersion d.txTo)
    (hc : CMutableTransaction.Fits {} c.txTo.toCMutableTransaction)
    (hd : CMutableTransaction.Fits {} d.txTo.toCMutableTransaction) :
    SameParts c.txTo.toCMutableTransaction d.txTo.toCMutableTransaction := by
  obtain ⟨-, hover, hn⟩ := CMutableTransaction.getHeader_iff.2 ⟨hc.nVersion, rfl⟩
  obtain ⟨-, hover', hn'⟩ := CMutableTransaction.getHeader_iff.2 ⟨hd.nVersion, rfl⟩
  have hheader : getHeader c.txTo.fOverwintered c.txTo.nVersion
      = getHeader d.txTo.fOverwintered d.txTo.nVersion := h.header
  rw [hheader] at hover hn
  have hn := hn.symm.trans hn'
  have hover := hover.symm.trans hover'
  have hnosapling : ∀ {tx : CTransaction}, signatureHashVersion tx ≠ .sapling → tx.v4 = false := by
    intro tx hv
    rw [CMutableTransaction.v4, isSaplingV4, Bool.eq_false_iff]
    intro hv4
    simp only [Bool.and_eq_true, beq_iff_eq] at hv4
    exact hv (by rw [signatureHashVersion, if_pos hv4.1.1, if_pos hv4.1.2])
  have hexpiry : c.txTo.nExpiryHeight = d.txTo.nExpiryHeight := by
    by_cases ho : c.txTo.fOverwintered
    · exact h.nExpiryHeight ho
    · have hnone : ∀ {tx : CTransaction}, ¬ tx.fOverwintered → (tx.v3 || tx.v4) = false := by
        intro tx ho
        simp [CMutableTransaction.v3, CMutableTransaction.v4, isOverwinterV3, isSaplingV4, ho]
      have hec := hc.nExpiryHeight
      have hed := hd.nExpiryHeight
      rw [hnone ho, if_neg Bool.false_ne_true] at hec
      rw [hnone (hover ▸ ho), if_neg Bool.false_ne_true] at hed
      rw [hec, hed]
  have hshielded : c.txTo.valueBalance = d.txTo.valueBalance
      ∧ c.txTo.vShieldedSpend.map SpendDescription.unsigned
        = d.txTo.vShieldedSpend.map SpendDescription.unsigned
      ∧ c.txTo.vShieldedOutput = d.txTo.vShieldedOutput := by
    by_cases hv : signatureHashVersion c.txTo = .sapling
    · exact ⟨h.valueBalance hv, h.vShieldedSpend hv, h.vShieldedOutput hv⟩
    · have hnone : ∀ {tx : CTransaction}, CMutableTransaction.Fits {} tx.toCMutableTransaction →
          signatureHashVersion tx ≠ .sapling →
          tx.valueBalance = 0 ∧ tx.vShieldedSpend = [] ∧ tx.vShieldedOutput = [] := by
        intro tx hf hv
        have hb := hf.valueBalance
        have hs := hf.vShieldedSpend
        have ho := hf.vShieldedOutput
        rw [hnosapling hv, if_neg Bool.false_ne_true] at hb hs ho
        exact ⟨hb, hs, ho⟩
      obtain ⟨hb, hs, ho⟩ := hnone hc hv
      obtain ⟨hb', hs', ho'⟩ := hnone hd (hversion ▸ hv)
      exact ⟨hb.trans hb'.symm, by rw [hs, hs'], ho.trans ho'.symm⟩
  have hjoin : c.txTo.vjoinsplit = d.txTo.vjoinsplit
      ∧ (c.txTo.vjoinsplit ≠ [] → c.txTo.joinSplitPubKey = d.txTo.joinSplitPubKey) := by
    by_cases hj : c.HasJoinSplits
    · exact h.vjoinsplit hj
    · have hless : ¬ 2 ≤ c.txTo.nVersion := fun hle => hj (Or.inr hle)
      have hjc := hc.vjoinsplit
      have hjd := hd.vjoinsplit
      rw [if_neg (by simpa using hless)] at hjc
      rw [if_neg (by rw [← hn]; simpa using hless)] at hjd
      exact ⟨hjc.trans hjd.symm, fun hne => absurd hjc hne⟩
  have hkey : c.txTo.joinSplitPubKey = d.txTo.joinSplitPubKey := by
    by_cases hnil : c.txTo.vjoinsplit = []
    · have hnone : ∀ {tx : CTransaction}, tx.vjoinsplit = [] → tx.hasJoinSplits = false := by
        intro tx hnil
        simp [CMutableTransaction.hasJoinSplits, hnil]
      have hkc := hc.joinSplitPubKey
      have hkd := hd.joinSplitPubKey
      rw [hnone hnil, if_neg Bool.false_ne_true] at hkc
      rw [hnone (hjoin.1 ▸ hnil), if_neg Bool.false_ne_true] at hkd
      rw [hkc, hkd]
    · exact hjoin.2 hnil
  exact ⟨hn, hexpiry, hshielded.1, hshielded.2.1, hshielded.2.2, hjoin.1, hkey⟩

/-- **Equal hashes come from calls that agree on what the hash type covers.** -/
theorem covered_of_signatureHash_eq
    (hS : H.CollisionFree (c.queries H nHashType consensusBranchId
      ++ d.queries H nHashType consensusBranchId))
    (hc : c.Sized) (hd : d.Sized) (hcc : c.CacheOk H) (hdc : d.CacheOk H)
    (hversion : signatureHashVersion c.txTo = signatureHashVersion d.txTo) {h : Uint256}
    (heq : c.signatureHash H nHashType consensusBranchId = .ok h)
    (heq' : d.signatureHash H nHashType consensusBranchId = .ok h) :
    Covered nHashType c d ∧ (CMutableTransaction.Fits {} c.txTo.toCMutableTransaction →
      CMutableTransaction.Fits {} d.txTo.toCMutableTransaction →
      SameParts c.txTo.toCMutableTransaction d.txTo.toCMutableTransaction) := by
  suffices hcovered : Covered nHashType c d from
    ⟨hcovered, fun hc hd => hcovered.sameParts hversion hc hd⟩
  obtain ⟨m, hm, hhash⟩ := signatureHash_eq_ok heq
  obtain ⟨m', hm', hhash'⟩ := signatureHash_eq_ok heq'
  obtain rfl := hS.inj m (List.mem_append_left _ (by simp [queries, hm, Except.toOption]))
    m' (List.mem_append_right _ (by simp [queries, hm', Except.toOption]))
    (hhash.trans hhash'.symm)
  have hqueries : ∀ {c : SignatureHashCall}, c.CacheOk H →
      c.uncached.queries H nHashType consensusBranchId
        = c.queries H nHashType consensusBranchId := by
    intro c hcc
    unfold queries
    rw [← signatureMessage_uncached hcc]
    rfl
  have hsized : ∀ {c : SignatureHashCall}, c.Sized → c.uncached.Sized :=
    fun hc => ⟨hc.txTo, hc.scriptCode, hc.nIn, hc.amount⟩
  rw [← hqueries hcc, ← hqueries hdc] at hS
  rw [signatureMessage_uncached hcc] at hm
  rw [signatureMessage_uncached hdc] at hm'
  obtain ⟨hin, hm⟩ := signatureMessage_eq_ok hm
  obtain ⟨hin', hm'⟩ := signatureMessage_eq_ok hm'
  change signatureHashVersion c.uncached.txTo = signatureHashVersion d.uncached.txTo at hversion
  rw [← hversion] at hm'
  have hover : ∀ {tx : CTransaction}, signatureHashVersion tx = .sprout → ¬ tx.fOverwintered := by
    intro tx hv hover
    unfold signatureHashVersion at hv
    rw [if_pos hover] at hv
    split_ifs at hv
  apply Covered.of_uncached
  cases hv : signatureHashVersion c.uncached.txTo with
  | sprout =>
    rw [hv] at hm hm'
    exact sprout_cover (hsized hc) (hsized hd) (hover hv) (hover (hversion.symm.trans hv)) hin hin'
      hm hm'
  | overwinter =>
    rw [hv] at hm hm'
    exact overwinter_cover hS (hsized hc) (hsized hd) rfl rfl (List.subset_append_left _ _)
      (List.subset_append_right _ _) (fun hsapling => absurd (hv.symm.trans hsapling) (by decide))
      hm hm'
  | sapling =>
    rw [hv] at hm hm'
    exact overwinter_cover hS (hsized hc) (hsized hd) rfl rfl (List.subset_append_left _ _)
      (List.subset_append_right _ _) (fun _ => rfl) hm hm'

/-! ### Two inputs and one output -/

namespace TwoInputs

def inputs (scriptSig : CScript) : List CTxIn :=
  [{ prevout := ⟨1, 0⟩ }, { prevout := ⟨2, 0⟩, scriptSig }]

/-- A transaction in the format before Overwinter. -/
def sproutTx : CTransaction where
  vin := inputs []
  vout := [⟨5, [0x51]⟩]

/-- The same in the format of Sapling, whose second input may be signed already. -/
def saplingTx (scriptSig : CScript) : CTransaction where
  fOverwintered := true
  nVersion := 4
  nVersionGroupId := SAPLING_VERSION_GROUP_ID
  vin := inputs scriptSig
  vout := [⟨5, [0x51]⟩]

def branchId : ℕ := 0x76b809bb

/-- `SIGHASH_ALL` for an input of a given script code and amount. -/
def sproutCall (scriptCode : CScript) (nIn : ℕ) (amount : ℤ) : SignatureHashCall :=
  { scriptCode, txTo := sproutTx, nIn, amount }

/-- The message of the first input of `saplingTx`. -/
def saplingBytes : Bytes :=
  leBytes 4 0x80000004 ++ leBytes 4 SAPLING_VERSION_GROUP_ID
    ++ uint256Bytes 0x482aa51ef1d15cd79590cba8dc1ca79eebc57329b08c64a3fbf87e4c40d86a59
    ++ uint256Bytes 0xcbb49b7832f66ee9c665b15650dcca22ce7857d816f892cbac313ab172532215
    ++ uint256Bytes 0x4f493b0a495ecd17b497e0f45c5204aacc89cfe35ff15cbf90908fe0a0f4e901
    ++ uint256Bytes 0 ++ uint256Bytes 0 ++ uint256Bytes 0 ++ leBytes 4 0 ++ leBytes 4 0
    ++ intBytes 8 0 ++ leBytes 4 1 ++ outPointBytes ⟨1, 0⟩ ++ vectorBytes [0x51] ++ intBytes 8 7
    ++ leBytes 4 0xffffffff

/-- The messages with their BLAKE2b and SHA-256 hashes. -/
def hashes : List (HashInput × Uint256) := [
  (prevoutMessage sproutTx, 0x482aa51ef1d15cd79590cba8dc1ca79eebc57329b08c64a3fbf87e4c40d86a59),
  (sequenceMessage sproutTx, 0xcbb49b7832f66ee9c665b15650dcca22ce7857d816f892cbac313ab172532215),
  (outputsMessage sproutTx.vout,
    0x4f493b0a495ecd17b497e0f45c5204aacc89cfe35ff15cbf90908fe0a0f4e901),
  (.blake2b ZCASH_JOINSPLITS_HASH_PERSONALIZATION (uint256Bytes 0),
    0x950ffd3ef48936edb04059e67bf7c45aca8450e020243754e9c80e7965b1f33b),
  (shieldedSpendsMessage sproutTx,
    0x51e0f39790a3fdebd94eb707c81294e7d02c3f2cd0dbabf45db85411b91fd73b),
  (shieldedOutputsMessage sproutTx,
    0x731591cbe1c2946d7bddc873d6b44f16a1a16041f3a5a521f4989eb54d170b40),
  (.blake2b (personalization branchId) saplingBytes,
    0x7047ffd2d1cac14fad4a8207a102b0ebc80030c522d03df4964664bde7690be9),
  (.sha256d ((sproutCall [0x51] 0 0).sproutBytes HashType.SIGHASH_ALL
    [{ prevout := ⟨1, 0⟩, scriptSig := [0x51] }, { prevout := ⟨2, 0⟩ }] sproutTx.vout []),
    0x120aacbbd58065b40fe9c374c1e359a76c8d474d3848fd39769179a3141470b8),
  (.sha256d ((sproutCall [] 0 0).sproutBytes HashType.SIGHASH_ALL (inputs []) sproutTx.vout []),
    0x3971ad9f5fe6c737b753f9d075ec5478b8eef25a07b89b72d398e5a6f120be72)]

/-- The hash functions, at these messages. -/
def hasher : Hasher where
  hash m := (hashes.lookup m).getD 0 % 2 ^ 256
  hash_lt _ := Nat.mod_lt _ (by norm_num)

/-- The first input of the Sapling transaction. -/
def saplingCall (scriptSig : CScript) (cache : Option PrecomputedTransactionData) :
    SignatureHashCall :=
  { scriptCode := [0x51], txTo := saplingTx scriptSig, nIn := 0, amount := 7, cache }

/-- What is computed once for the transaction. -/
def saplingCache : Option PrecomputedTransactionData :=
  (PrecomputedTransactionData.ofTx hasher (saplingTx [0x51])).toOption

/-- It is a transaction that can be read. -/
theorem saplingTx_fits {scriptSig : CScript} (h : scriptSig.length ≤ maxSize) :
    CMutableTransaction.Fits {} (saplingTx scriptSig).toCMutableTransaction where
  nVersion := ⟨by norm_num [saplingTx], by norm_num [saplingTx]⟩
  nVersionGroupId := (by norm_num [SAPLING_VERSION_GROUP_ID] : SAPLING_VERSION_GROUP_ID < 256 ^ 4)
  format := (by decide : ¬ unknownFormat true SAPLING_VERSION_GROUP_ID 4)
  vin := by
    refine ⟨by norm_num [saplingTx, inputs, maxSize], fun i hi => ?_⟩
    simp only [saplingTx, inputs, List.mem_cons, List.not_mem_nil, or_false] at hi
    rcases hi with rfl | rfl
    exacts [⟨by norm_num, by norm_num, Nat.zero_le _, by norm_num⟩,
      ⟨by norm_num, by norm_num, h, by norm_num⟩]
  vout := by
    refine ⟨by norm_num [saplingTx, maxSize], fun o ho => ?_⟩
    obtain rfl := List.mem_singleton.1 ho
    exact ⟨⟨by norm_num, by norm_num⟩, by norm_num [maxSize]⟩
  nLockTime := by norm_num [saplingTx]
  nExpiryHeight := (by norm_num : (0 : ℕ) < 256 ^ 4)
  valueBalance := (⟨by norm_num, by norm_num⟩ : IntRange 8 0)
  vShieldedSpend := (⟨Nat.zero_le _, List.forall_mem_nil _⟩ :
    ([] : List SpendDescription).length ≤ maxSize ∧ ∀ d ∈ [], SpendDescription.Fits d)
  vShieldedOutput := (⟨Nat.zero_le _, List.forall_mem_nil _⟩ :
    ([] : List OutputDescription).length ≤ maxSize ∧ ∀ d ∈ [], OutputDescription.Fits d)
  vjoinsplit := (⟨Nat.zero_le _, List.forall_mem_nil _⟩ : ([] : List JSDescription).length ≤ maxSize
      ∧ ∀ d ∈ [], JSDescription.Fits (saplingTx scriptSig).header d)
  joinSplitPubKey := rfl
  joinSplitSig := rfl
  bindingSig := rfl

theorem saplingCall_sized {scriptSig : CScript} (h : scriptSig.length ≤ maxSize)
    (cache : Option PrecomputedTransactionData) : (saplingCall scriptSig cache).Sized :=
  ⟨(saplingTx_fits h).sized, by norm_num [saplingCall], by norm_num [saplingCall],
    ⟨by norm_num [saplingCall], by norm_num [saplingCall]⟩⟩

/-- Before and after the second input is signed, with and without the cache. -/
theorem covered_saplingCall :
    Covered HashType.SIGHASH_ALL (saplingCall [] none) (saplingCall [0x51] saplingCache)
      ∧ SameParts (saplingTx []).toCMutableTransaction (saplingTx [0x51]).toCMutableTransaction := by
  have hS : hasher.CollisionFree
      ((saplingCall [] none).queries hasher HashType.SIGHASH_ALL branchId
        ++ (saplingCall [0x51] saplingCache).queries hasher HashType.SIGHASH_ALL branchId) := by
    decide +kernel
  have hhash : ∀ c ∈ [saplingCall [] none, saplingCall [0x51] saplingCache],
      c.signatureHash hasher HashType.SIGHASH_ALL branchId
        = .ok 0x7047ffd2d1cac14fad4a8207a102b0ebc80030c522d03df4964664bde7690be9 := by
    decide +kernel
  obtain ⟨hc, hd⟩ := List.forall_mem_cons.1 hhash
  have hcache : (saplingCall [0x51] saplingCache).CacheOk hasher := by
    intro cache h
    cases h
    rfl
  obtain ⟨hcovered, hsame⟩ := covered_of_signatureHash_eq hS (saplingCall_sized (by norm_num) _)
    (saplingCall_sized (by norm_num [maxSize]) _) nofun hcache rfl hc (List.forall_mem_cons.1 hd).1
  exact ⟨hcovered, hsame (saplingTx_fits (by norm_num)) (saplingTx_fits (by norm_num [maxSize]))⟩

/-- **The format before Overwinter hashes neither the amount nor, with an empty script code, which
input is signed.** -/
theorem not_covered_sproutCall :
    hasher.CollisionFree ((sproutCall [0x51] 0 0).queries hasher HashType.SIGHASH_ALL branchId
      ++ (sproutCall [0x51] 0 1).queries hasher HashType.SIGHASH_ALL branchId)
    ∧ (sproutCall [0x51] 0 0).signatureHash hasher HashType.SIGHASH_ALL branchId
      = (sproutCall [0x51] 0 1).signatureHash hasher HashType.SIGHASH_ALL branchId
    ∧ (sproutCall [0x51] 0 0).signatureHash hasher HashType.SIGHASH_ALL branchId
      = .ok 0x120aacbbd58065b40fe9c374c1e359a76c8d474d3848fd39769179a3141470b8
    ∧ (sproutCall [0x51] 0 0).amount ≠ (sproutCall [0x51] 0 1).amount
    ∧ hasher.CollisionFree ((sproutCall [] 0 0).queries hasher HashType.SIGHASH_ALL branchId
      ++ (sproutCall [] 1 0).queries hasher HashType.SIGHASH_ALL branchId)
    ∧ (sproutCall [] 0 0).signatureHash hasher HashType.SIGHASH_ALL branchId
      = (sproutCall [] 1 0).signatureHash hasher HashType.SIGHASH_ALL branchId
    ∧ (sproutCall [] 0 0).signatureHash hasher HashType.SIGHASH_ALL branchId
      = .ok 0x3971ad9f5fe6c737b753f9d075ec5478b8eef25a07b89b72d398e5a6f120be72
    ∧ (sproutCall [] 0 0).signedInput ≠ (sproutCall [] 1 0).signedInput := by
  decide

end TwoInputs

end SignatureHashCall

end Wire
end Komodo
