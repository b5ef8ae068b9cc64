/-
# The bytes that are hashed tell the fields

The writers that the messages of `SignatureHash` are made of, each with `Separates`: the bytes of a
value tell the value and where it ends.  A size above `MAX_SIZE` is not read back, so inputs,
outputs and scripts are treated up to the sizes that memory allows.  Spends are told up to their
authorisation, which is not written.
-/

import Komodo.Lib.Separates
import Komodo.Script.SignatureHash

namespace Komodo

open Streams Unserialize List

/-! ### Sizes of any length -/

/-- A size of 64 bits can be told from what is written for it. -/
theorem reads_size {n : ℕ} (h : n < 2 ^ 64) :
    Reads (uint8 >>= fun b => sizeTail b.toNat) (compactSizeBytes n) n := by
  intro s
  have htail : ∀ (b : UInt8) (written : Bytes), sizeTail b.toNat (written ++ s) = some (n, s) →
      (uint8 >>= fun b => sizeTail b.toNat) (b :: written ++ s) = some (n, s) := by
    intro b written ht
    rw [cons_append, bind_apply, uint8_cons]
    exact ht
  unfold compactSizeBytes
  split_ifs with h₁ h₂ h₃
  · have hto : (UInt8.ofNat n).toNat = n := by rw [UInt8.toNat_ofNat']; omega
    exact htail _ [] (by rw [hto, sizeTail, if_pos h₁]; rfl)
  · have h253 : sizeTail (UInt8.toNat 253) = uintFrom 2 253 := rfl
    exact htail _ _ (by rw [h253]; exact uintFrom_leBytes (by omega) (by omega) s)
  · have h254 : sizeTail (UInt8.toNat 254) = uintFrom 4 0x10000 := rfl
    exact htail _ _ (by rw [h254]; exact uintFrom_leBytes (by omega) (by omega) s)
  · have h255 : sizeTail (UInt8.toNat 255) = uintFrom 8 0x100000000 := rfl
    exact htail _ _ (by rw [h255]; exact uintFrom_leBytes (by omega) (by omega) s)

theorem separates_size : Separates compactSizeBytes (· < 2 ^ 64) := separates_of_reads reads_size

theorem separates_vector : Separates vectorBytes (·.length < 2 ^ 64) := by
  intro v w s t hv hw heq
  rw [vectorBytes, vectorBytes, append_assoc, append_assoc] at heq
  obtain ⟨hlen, hrest⟩ := separates_size hv hw heq
  exact append_inj hrest hlen

theorem separates_list {α : Type} {write : α → Bytes} {Ok : α → Prop} (h : Separates write Ok) :
    Separates (listBytes write) (fun as => as.length < 2 ^ 64 ∧ ∀ a ∈ as, Ok a) := by
  intro l m s t hl hm heq
  rw [listBytes, listBytes, append_assoc, append_assoc] at heq
  obtain ⟨hlen, hrest⟩ := separates_size hl.1 hm.1 heq
  rw [← flatMap_def, ← flatMap_def] at hrest
  exact h.flatMap_of_length hl.2 hm.2 hlen hrest

/-! ### Inputs and outputs -/

/-- The numbers are of their types. -/
def COutPoint.Sized (o : COutPoint) : Prop := o.hash < 2 ^ 256 ∧ o.n < 256 ^ 4

/-- The numbers are of their types, and the script is in memory. -/
def CTxIn.Sized (i : CTxIn) : Prop :=
  i.prevout.Sized ∧ i.scriptSig.length < 2 ^ 64 ∧ i.nSequence < 256 ^ 4

def CTxOut.Sized (o : CTxOut) : Prop := IntRange 8 o.nValue ∧ o.scriptPubKey.length < 2 ^ 64

namespace Wire

theorem separates_outPoint : Separates outPointBytes COutPoint.Sized := by
  intro o p s t ho hp heq
  simp only [outPointBytes, append_assoc] at heq
  obtain ⟨hhash, heq⟩ := codec_uint256.separates ho.1 hp.1 heq
  obtain ⟨hn, hst⟩ := (codec_uint 4).separates ho.2 hp.2 heq
  cases o
  cases p
  exact ⟨by simp_all, hst⟩

theorem separates_txIn : Separates CTxIn.serialize CTxIn.Sized := by
  intro i j s t hi hj heq
  have houtPoint : ∀ i : CTxIn, CTxIn.serialize i =
      outPointBytes i.prevout ++ vectorBytes i.scriptSig ++ leBytes 4 i.nSequence := by
    intro i
    simp only [CTxIn.serialize, outPointBytes, append_assoc]
  rw [houtPoint, houtPoint] at heq
  simp only [append_assoc] at heq
  obtain ⟨hprevout, heq⟩ := separates_outPoint hi.1 hj.1 heq
  obtain ⟨hsig, heq⟩ := separates_vector hi.2.1 hj.2.1 heq
  obtain ⟨hseq, hst⟩ := (codec_uint 4).separates hi.2.2 hj.2.2 heq
  cases i
  cases j
  exact ⟨by simp_all, hst⟩

theorem separates_txOut : Separates CTxOut.serialize CTxOut.Sized := by
  intro o p s t ho hp heq
  simp only [CTxOut.serialize, append_assoc] at heq
  obtain ⟨hvalue, heq⟩ := (codec_int (show 0 < 8 by omega)).separates ho.1 hp.1 heq
  obtain ⟨hscript, hst⟩ := separates_vector ho.2 hp.2 heq
  cases o
  cases p
  exact ⟨by simp_all, hst⟩

/-! ### Shielded parts -/

/-- The spend without its authorisation. -/
def SpendDescription.unsigned (d : SpendDescription) : SpendDescription :=
  { d with spendAuthSig := ByteArr.zero 64 }

@[simp] theorem SpendDescription.signedBytes_unsigned (d : SpendDescription) :
    d.unsigned.signedBytes = d.signedBytes := rfl

theorem separates_signedBytes : Separates SpendDescription.signedBytes
    (fun d => d.Fits ∧ d.spendAuthSig = ByteArr.zero 64) := by
  rintro d e s t ⟨⟨hcv, ha, hn, hr⟩, hd⟩ ⟨⟨hcv', ha', hn', hr'⟩, he⟩ heq
  simp only [SpendDescription.signedBytes, append_assoc] at heq
  obtain ⟨h₁, heq⟩ := codec_uint256.separates hcv hcv' heq
  obtain ⟨h₂, heq⟩ := codec_uint256.separates ha ha' heq
  obtain ⟨h₃, heq⟩ := codec_uint256.separates hn hn' heq
  obtain ⟨h₄, heq⟩ := codec_uint256.separates hr hr' heq
  obtain ⟨h₅, hst⟩ := (codec_array 192).separates trivial trivial heq
  cases d
  cases e
  exact ⟨by simp_all, hst⟩

/-- The numbers are of their types. -/
def JSDescription.Sized (d : JSDescription) : Prop :=
  IntRange 8 d.vpub_old ∧ IntRange 8 d.vpub_new ∧ d.anchor < 2 ^ 256
    ∧ (d.nullifiers.1 < 2 ^ 256 ∧ d.nullifiers.2 < 2 ^ 256)
    ∧ (d.commitments.1 < 2 ^ 256 ∧ d.commitments.2 < 2 ^ 256) ∧ d.ephemeralKey < 2 ^ 256
    ∧ d.randomSeed < 2 ^ 256 ∧ (d.macs.1 < 2 ^ 256 ∧ d.macs.2 < 2 ^ 256)

theorem JSDescription.fits_iff {header : ℕ} {d : JSDescription} :
    d.Fits header ↔ d.Sized ∧ (d.proof.serialize (useGroth header)).isSome := by
  simp only [JSDescription.Fits, JSDescription.Sized, and_assoc]

/-- The JoinSplits that are written one by one are of the kind that is written. -/
theorem joinSplits_written {header : ℕ} {ds : List JSDescription} {bss : List Bytes}
    (h : ds.mapM (JSDescription.serialize header) = some bss) (hd : ∀ d ∈ ds, d.Sized) :
    bss.flatten = ds.flatMap (fun d => (JSDescription.serialize header d).getD [])
      ∧ ∀ d ∈ ds, d.Fits header := by
  induction ds generalizing bss with
  | nil =>
    cases h
    exact ⟨rfl, forall_mem_nil _⟩
  | cons d ds ih =>
    rw [mapM_cons] at h
    obtain ⟨bs, hbs, h⟩ := Option.bind_eq_some_iff.1 h
    obtain ⟨rest, hrest, heq⟩ := Option.bind_eq_some_iff.1 h
    cases heq
    obtain ⟨hd, hds⟩ := forall_mem_cons.1 hd
    obtain ⟨hflat, hfits⟩ := ih hrest hds
    refine ⟨by rw [flatten_cons, hflat, flatMap_cons, hbs, Option.getD_some], ?_⟩
    refine forall_mem_cons.2 ⟨?_, hfits⟩
    obtain ⟨proof, hproof, -⟩ := Option.bind_eq_some_iff.1 hbs
    exact JSDescription.fits_iff.2 ⟨hd, Option.isSome_iff_exists.2 ⟨proof, hproof⟩⟩

theorem JSDescription.serialize_ne_nil {header : ℕ} {d : JSDescription} (h : d.Fits header) :
    (JSDescription.serialize header d).getD [] ≠ [] := by
  obtain ⟨proof, hproof⟩ := JSDescription.isSome_serialize h
  intro hnil
  have hlen := congrArg length hnil
  simp only [JSDescription.serialize, hproof, Option.bind_eq_bind, Option.bind_some,
    Option.pure_def, Option.getD_some, length_append, intBytes, length_leBytes, length_nil] at hlen
  omega

/-! ### Transactions in memory -/

/-- The numbers of a transaction are of their types and its vectors have at most as many elements
as an `unsigned int` can count. -/
structure CMutableTransaction.Sized (tx : CMutableTransaction) : Prop where
  nVersion : IntRange 4 tx.nVersion
  nVersionGroupId : tx.nVersionGroupId < 256 ^ 4
  vin : tx.vin.length < 2 ^ 32 ∧ ∀ i ∈ tx.vin, i.Sized
  vout : tx.vout.length < 2 ^ 32 ∧ ∀ o ∈ tx.vout, o.Sized
  nLockTime : tx.nLockTime < 256 ^ 4
  nExpiryHeight : tx.nExpiryHeight < 256 ^ 4
  valueBalance : IntRange 8 tx.valueBalance
  vShieldedSpend : ∀ d ∈ tx.vShieldedSpend, d.Fits
  vShieldedOutput : ∀ d ∈ tx.vShieldedOutput, d.Fits
  vjoinsplit : tx.vjoinsplit.length < 2 ^ 32 ∧ ∀ d ∈ tx.vjoinsplit, d.Sized
  joinSplitPubKey : tx.joinSplitPubKey < 2 ^ 256

/-- So are those of every transaction that is read into a new object. -/
theorem CMutableTransaction.Fits.sized {tx : CMutableTransaction} (h : Fits {} tx) : tx.Sized := by
  have hmax : maxSize = 0x02000000 := rfl
  have hsmall : ∀ n, n ≤ maxSize → n < 2 ^ 32 := by intro n hn; omega
  obtain ⟨hversion, hgroup, -, hvin, hvout, hlock, hexpiry, hbalance, hspends, houtputs, hjs, hkey,
    -, -⟩ := h
  refine ⟨⟨by norm_num; omega, by norm_num; omega⟩, ?_, ⟨hsmall _ hvin.1, ?_⟩,
    ⟨hsmall _ hvout.1, ?_⟩, hlock, ?_, ?_, ?_, ?_, ⟨?_, ?_⟩, ?_⟩
  · split_ifs at hgroup with hover
    · exact hgroup
    · rw [hgroup]; norm_num
  · intro i hi
    obtain ⟨hhash, hn, hsig, hseq⟩ := hvin.2 i hi
    exact ⟨⟨hhash, hn⟩, by omega, hseq⟩
  · intro o ho
    obtain ⟨hvalue, hscript⟩ := hvout.2 o ho
    exact ⟨hvalue, by omega⟩
  · split_ifs at hexpiry
    · exact hexpiry
    · rw [hexpiry]; norm_num
  · split_ifs at hbalance
    · exact hbalance
    · rw [hbalance]; exact ⟨by norm_num, by norm_num⟩
  · split_ifs at hspends
    · exact hspends.2
    · rw [hspends]; exact forall_mem_nil _
  · split_ifs at houtputs
    · exact houtputs.2
    · rw [houtputs]; exact forall_mem_nil _
  · split_ifs at hjs
    · exact hsmall _ hjs.1
    · rw [hjs]; norm_num
  · split_ifs at hjs
    · exact fun d hd => (JSDescription.fits_iff.1 (hjs.2 d hd)).1
    · rw [hjs]; exact forall_mem_nil _
  · split_ifs at hkey
    · exact hkey
    · rw [hkey]; norm_num

end Wire
end Komodo
