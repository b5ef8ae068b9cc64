/-
# What two signature hashes have in common

The pieces of a transaction that `SignatureHash` hashes by themselves are lists of values without
their lengths; equal messages come from equal lists (`prevouts_eq` to `joinSplits_eq`).  A cache
that was built from the transaction changes nothing (`signatureMessage_uncached`).  `Covered` lists
what two calls of `SignatureHash` with one hash type agree on when their hashes are equal.
-/

import Komodo.Script.SignatureBytes

namespace Komodo
namespace Wire

open Streams Unserialize List

/-- No two of the messages have one hash, and none has the null hash. -/
structure Hasher.CollisionFree (H : Hasher) (S : List HashInput) : Prop where
  ne_zero : ∀ m ∈ S, H.hash m ≠ 0
  inj : ∀ m ∈ S, ∀ n ∈ S, H.hash m = H.hash n → m = n

instance (H : Hasher) (S : List HashInput) : Decidable (H.CollisionFree S) :=
  decidable_of_iff ((∀ m ∈ S, H.hash m ≠ 0) ∧ ∀ m ∈ S, ∀ n ∈ S, H.hash m = H.hash n → m = n)
    ⟨fun h => ⟨h.1, h.2⟩, fun h => ⟨h.1, h.2⟩⟩

/-! ### The same pieces have the same fields -/

section
variable {tx tx' : CTransaction}

theorem prevouts_eq (h : tx.Sized) (h' : tx'.Sized) (heq : prevoutMessage tx = prevoutMessage tx') :
    tx.vin.map CTxIn.prevout = tx'.vin.map CTxIn.prevout := by
  have hsized : ∀ {tx : CTransaction}, tx.Sized → ∀ o ∈ tx.vin.map CTxIn.prevout, o.Sized := by
    intro tx h o ho
    obtain ⟨i, hi, rfl⟩ := mem_map.1 ho
    exact (h.vin.2 i hi).1
  have hne : ∀ o : COutPoint, o.Sized → outPointBytes o ≠ [] := by
    intro o _ hnil
    have hlen := congrArg length hnil
    simp only [outPointBytes, length_append, length_leBytes, length_nil] at hlen
    omega
  obtain ⟨-, hbytes⟩ := HashInput.blake2b.inj heq
  refine (separates_outPoint.flatMap hne (hsized h) (hsized h') (s := []) (t := []) rfl ?_).1
  simpa only [flatMap_map, append_nil] using hbytes

theorem sequences_eq (h : tx.Sized) (h' : tx'.Sized)
    (heq : sequenceMessage tx = sequenceMessage tx') :
    tx.vin.map CTxIn.nSequence = tx'.vin.map CTxIn.nSequence := by
  have hsized : ∀ {tx : CTransaction}, tx.Sized → ∀ n ∈ tx.vin.map CTxIn.nSequence, n < 256 ^ 4 := by
    intro tx h n hn
    obtain ⟨i, hi, rfl⟩ := mem_map.1 hn
    exact (h.vin.2 i hi).2.2
  have hne : ∀ n, n < 256 ^ 4 → leBytes 4 n ≠ [] := by
    intro n _ hnil
    have hlen := congrArg length hnil
    simp only [length_leBytes, length_nil] at hlen
    omega
  obtain ⟨-, hbytes⟩ := HashInput.blake2b.inj heq
  refine (Separates.flatMap (codec_uint 4).separates hne (hsized h) (hsized h') (s := []) (t := []) rfl ?_).1
  simpa only [flatMap_map, append_nil] using hbytes

theorem outputs_eq {l m : List CTxOut} (h : ∀ o ∈ l, o.Sized) (h' : ∀ o ∈ m, o.Sized)
    (heq : outputsMessage l = outputsMessage m) : l = m := by
  have hne : ∀ o : CTxOut, o.Sized → CTxOut.serialize o ≠ [] := by
    intro o _ hnil
    have hlen := congrArg length hnil
    simp only [CTxOut.serialize, intBytes, length_append, length_leBytes, length_nil] at hlen
    omega
  obtain ⟨-, hbytes⟩ := HashInput.blake2b.inj heq
  refine (separates_txOut.flatMap hne h h' (s := []) (t := []) rfl ?_).1
  simpa only [append_nil] using hbytes

theorem shieldedSpends_eq (h : tx.Sized) (h' : tx'.Sized)
    (heq : shieldedSpendsMessage tx = shieldedSpendsMessage tx') :
    tx.vShieldedSpend.map SpendDescription.unsigned
      = tx'.vShieldedSpend.map SpendDescription.unsigned := by
  have hsized : ∀ {tx : CTransaction}, tx.Sized →
      ∀ d ∈ tx.vShieldedSpend.map SpendDescription.unsigned,
        d.Fits ∧ d.spendAuthSig = ByteArr.zero 64 := by
    intro tx h d hd
    obtain ⟨d, hmem, rfl⟩ := mem_map.1 hd
    exact ⟨h.vShieldedSpend d hmem, rfl⟩
  have hne : ∀ d : SpendDescription, d.Fits ∧ d.spendAuthSig = ByteArr.zero 64 →
      d.signedBytes ≠ [] := by
    intro d _ hnil
    have hlen := congrArg length hnil
    simp only [SpendDescription.signedBytes, length_append, d.zkproof.2, length_nil] at hlen
    omega
  obtain ⟨-, hbytes⟩ := HashInput.blake2b.inj heq
  refine (separates_signedBytes.flatMap hne (hsized h) (hsized h') (s := []) (t := []) rfl ?_).1
  simpa only [flatMap_map, append_nil, SpendDescription.signedBytes_unsigned] using hbytes

theorem shieldedOutputs_eq (h : tx.Sized) (h' : tx'.Sized)
    (heq : shieldedOutputsMessage tx = shieldedOutputsMessage tx') :
    tx.vShieldedOutput = tx'.vShieldedOutput := by
  have hne : ∀ d : OutputDescription, d.Fits → d.serialize ≠ [] := by
    intro d _ hnil
    have hlen := congrArg length hnil
    simp only [OutputDescription.serialize, length_append, d.zkproof.2, length_nil] at hlen
    omega
  obtain ⟨-, hbytes⟩ := HashInput.blake2b.inj heq
  refine (Separates.flatMap OutputDescription.codec.separates hne h.vShieldedOutput h'.vShieldedOutput
    (s := []) (t := []) rfl ?_).1
  simpa only [append_nil] using hbytes

/-- The JoinSplits and their key. -/
theorem joinSplits_eq (h : tx.Sized) (h' : tx'.Sized) (hheader : tx.header = tx'.header)
    {m : HashInput} (hm : joinSplitsMessage tx = .ok m) (hm' : joinSplitsMessage tx' = .ok m) :
    tx.vjoinsplit = tx'.vjoinsplit ∧ tx.joinSplitPubKey = tx'.joinSplitPubKey := by
  have hwritten : ∀ {tx : CTransaction}, joinSplitsMessage tx = .ok m → ∃ bss,
      tx.vjoinsplit.mapM (JSDescription.serialize tx.header) = some bss ∧
        m = .blake2b ZCASH_JOINSPLITS_HASH_PERSONALIZATION
          (bss.flatten ++ uint256Bytes tx.joinSplitPubKey) := by
    intro tx hm
    unfold joinSplitsMessage at hm
    split at hm
    · rename_i bss hbss
      exact ⟨bss, hbss, (Except.ok.inj hm).symm⟩
    · cases hm
  obtain ⟨bss, hbss, hm⟩ := hwritten hm
  obtain ⟨css, hcss, hm'⟩ := hwritten hm'
  obtain ⟨hflat, hfits⟩ := joinSplits_written hbss h.vjoinsplit.2
  rw [← hheader] at hcss
  obtain ⟨hflat', hfits'⟩ := joinSplits_written hcss h'.vjoinsplit.2
  obtain ⟨-, hbytes⟩ := HashInput.blake2b.inj (hm.symm.trans hm')
  rw [hflat, hflat'] at hbytes
  obtain ⟨hjs, hkey⟩ := Separates.flatMap (JSDescription.codec tx.header).separates
    (fun _ => JSDescription.serialize_ne_nil) hfits hfits'
    (by simp only [uint256Bytes, length_map]) hbytes
  exact ⟨hjs, Separates.inj codec_uint256.separates h.joinSplitPubKey h'.joinSplitPubKey hkey⟩

end

/-! ### The cache -/

namespace SignatureHashCall

variable {H : Hasher} {nHashType : HashType} {consensusBranchId : ℕ} {c d : SignatureHashCall}

/-- The cache is left out or was built from the transaction. -/
def CacheOk (H : Hasher) (c : SignatureHashCall) : Prop :=
  ∀ cache, c.cache = some cache → PrecomputedTransactionData.ofTx H c.txTo = .ok cache

/-- The same call without a cache. -/
def uncached (c : SignatureHashCall) : SignatureHashCall := { c with cache := none }

/-- **A cache that was built from the transaction changes nothing.** -/
theorem signatureMessage_uncached (h : c.CacheOk H) :
    c.signatureMessage H nHashType consensusBranchId
      = c.uncached.signatureMessage H nHashType consensusBranchId := by
  obtain ⟨script, tx, nIn, amount, cache⟩ := c
  cases cache with
  | none => rfl
  | some cache =>
    have hbuilt : PrecomputedTransactionData.ofTx H tx = .ok cache := h cache rfl
    unfold PrecomputedTransactionData.ofTx at hbuilt
    cases hjs : getJoinSplitsHash H tx with
    | error e =>
      rw [hjs] at hbuilt
      cases hbuilt
    | ok js =>
      rw [hjs] at hbuilt
      cases hbuilt
      have hjoinSplits : getJoinSplitsHash H tx = pure js := hjs
      simp only [signatureMessage, overwinterMessage, uncached, hashJoinSplits, hjoinSplits]
      rfl

/-! ### What is covered -/

/-- The input that is signed: what it spends and its sequence. -/
def signedInput (c : SignatureHashCall) : Option (COutPoint × ℕ) :=
  (c.txTo.vin[c.nIn]?).map fun i => (i.prevout, i.nSequence)

/-- The hash tells which input is signed.  In the format before Overwinter the other inputs are
told from it by their empty scripts, unless it is the only one or the outputs end at its index. -/
def TellsInput (nHashType : HashType) (c : SignatureHashCall) : Prop :=
  c.txTo.fOverwintered ∨ c.scriptCode ≠ [] ∨ nHashType.anyoneCanPay ∨ nHashType.hashSingle

/-- The JoinSplits are part of what is hashed. -/
def HasJoinSplits (c : SignatureHashCall) : Prop := c.txTo.fOverwintered ∨ 2 ≤ c.txTo.nVersion

/-- The two calls agree on what the hash type covers, as far as the format has it. -/
structure Covered (nHashType : HashType) (c d : SignatureHashCall) : Prop where
  header : c.txTo.header = d.txTo.header
  nVersionGroupId : c.txTo.fOverwintered → c.txTo.nVersionGroupId = d.txTo.nVersionGroupId
  nLockTime : c.txTo.nLockTime = d.txTo.nLockTime
  nExpiryHeight : c.txTo.fOverwintered → c.txTo.nExpiryHeight = d.txTo.nExpiryHeight
  valueBalance : signatureHashVersion c.txTo = .sapling → c.txTo.valueBalance = d.txTo.valueBalance
  vShieldedSpend : signatureHashVersion c.txTo = .sapling →
    c.txTo.vShieldedSpend.map SpendDescription.unsigned
      = d.txTo.vShieldedSpend.map SpendDescription.unsigned
  vShieldedOutput : signatureHashVersion c.txTo = .sapling →
    c.txTo.vShieldedOutput = d.txTo.vShieldedOutput
  vjoinsplit : c.HasJoinSplits → c.txTo.vjoinsplit = d.txTo.vjoinsplit
    ∧ (c.txTo.vjoinsplit ≠ [] → c.txTo.joinSplitPubKey = d.txTo.joinSplitPubKey)
  prevouts : ¬ nHashType.anyoneCanPay →
    c.txTo.vin.map CTxIn.prevout = d.txTo.vin.map CTxIn.prevout
  sequences : ¬ nHashType.anyoneCanPay → ¬ nHashType.hashSingle → ¬ nHashType.hashNone →
    c.txTo.vin.map CTxIn.nSequence = d.txTo.vin.map CTxIn.nSequence
  outputs : ¬ nHashType.hashSingle → ¬ nHashType.hashNone → c.txTo.vout = d.txTo.vout
  output : nHashType.hashSingle → c.txTo.vout[c.nIn]? = d.txTo.vout[d.nIn]?
  input : c.nIn ≠ NOT_AN_INPUT → c.TellsInput nHashType →
    d.nIn ≠ NOT_AN_INPUT ∧ c.signedInput = d.signedInput
  scriptCode : c.nIn ≠ NOT_AN_INPUT → d.nIn ≠ NOT_AN_INPUT → c.scriptCode = d.scriptCode
  amount : c.nIn ≠ NOT_AN_INPUT → c.txTo.fOverwintered → c.amount = d.amount

/-- The two transactions agree on the parts that a format may lack. -/
structure SameParts (tx tx' : CMutableTransaction) : Prop where
  nVersion : tx.nVersion = tx'.nVersion
  nExpiryHeight : tx.nExpiryHeight = tx'.nExpiryHeight
  valueBalance : tx.valueBalance = tx'.valueBalance
  vShieldedSpend : tx.vShieldedSpend.map SpendDescription.unsigned
    = tx'.vShieldedSpend.map SpendDescription.unsigned
  vShieldedOutput : tx.vShieldedOutput = tx'.vShieldedOutput
  vjoinsplit : tx.vjoinsplit = tx'.vjoinsplit
  joinSplitPubKey : tx.joinSplitPubKey = tx'.joinSplitPubKey

/-- The arguments are of their types. -/
structure Sized (c : SignatureHashCall) : Prop where
  txTo : c.txTo.Sized
  scriptCode : c.scriptCode.length < 2 ^ 64
  nIn : c.nIn < 2 ^ 32
  amount : IntRange 8 c.amount

/-- The messages that the call may hash. -/
def queries (H : Hasher) (nHashType : HashType) (consensusBranchId : ℕ) (c : SignatureHashCall) :
    List HashInput :=
  [prevoutMessage c.txTo, sequenceMessage c.txTo, outputsMessage c.txTo.vout,
    shieldedSpendsMessage c.txTo, shieldedOutputsMessage c.txTo]
  ++ ((c.txTo.vout[c.nIn]?).map fun out => outputsMessage [out]).toList
  ++ (joinSplitsMessage c.txTo).toOption.toList
  ++ (c.signatureMessage H nHashType consensusBranchId).toOption.toList

end SignatureHashCall

end Wire
end Komodo
