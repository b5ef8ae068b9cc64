/-
# The bytes of a transaction

The `SerializationOp`s of `src/src/primitives/transaction.h` and `src/src/zcash/Proof.hpp` below a
transaction: inputs, outputs, descriptions of spends, outputs and JoinSplits, and their proofs.

A writer that throws returns `none`.  Each reader is matched with its writer by a `Codec`: it finds
the values that fit the widths of their fields, in the bytes that are written for them and in no
others.  An array of bytes carries its length.
-/

import Komodo.Script.Serialize

namespace Komodo

open Streams Unserialize

/-- `std::array<unsigned char, n>`. -/
abbrev ByteArr (n : ℕ) := {bs : Bytes // bs.length = n}

/-- `{{0}}`. -/
def ByteArr.zero (n : ℕ) : ByteArr n := ⟨List.replicate n 0, List.length_replicate⟩

namespace Unserialize

/-- `ss >> x` for an array of bytes. -/
def array (n : ℕ) : Unserialize (ByteArr n) := fun s =>
  if h : s.length < n then none
  else some (⟨s.take n, List.length_take_of_le (Nat.not_lt.1 h)⟩, s.drop n)

theorem codec_array (n : ℕ) : Codec (array n) Subtype.val (fun _ => True) where
  reads {a} _ s := by
    obtain ⟨bs, rfl⟩ := a
    have hlong : ¬ (bs ++ s).length < bs.length := by simp
    simp only [array, dif_neg hlong, List.take_left, List.drop_left]
  exact {s a s'} h := by
    unfold array at h
    split_ifs at h
    cases h
    exact ⟨(List.take_append_drop n s).symm, trivial⟩

/-- `ss >> x` for an array of two values. -/
def two {α : Type} (one : Unserialize α) : Unserialize (α × α) := do
  let a ← one
  let b ← one
  pure (a, b)

theorem codec_two {α : Type} {one : Unserialize α} {write : α → Bytes} {Ok : α → Prop}
    (h : Codec one write Ok) :
    Codec (two one) (fun p => write p.1 ++ write p.2) (fun p => Ok p.1 ∧ Ok p.2) :=
  ReadsRest.codec (.field Prod.fst h fun _ => .field Prod.snd h fun _ => .done) (by simp) (by simp)

/-- A field that is read under a condition, and keeps its value `old` otherwise. -/
def readIf {α : Type} (c : Bool) (one : Unserialize α) (old : α) : Unserialize α :=
  if c then one else pure old

theorem codec_readIf {α : Type} {one : Unserialize α} {write : α → Bytes} {Ok : α → Prop}
    (h : Codec one write Ok) (c : Bool) (old : α) :
    Codec (readIf c one old) (fun a => if c then write a else [])
      (fun a => if c then Ok a else a = old) := by
  cases c with
  | true => exact h
  | false =>
    refine Codec.of_eq_some fun s s' a => ?_
    simp only [readIf, pure_apply, Option.some.injEq, Prod.mk.injEq, Bool.false_eq_true, if_false,
      List.nil_append]
    exact ⟨fun ⟨ha, hs⟩ => ⟨ha.symm, hs⟩, fun ⟨ha, hs⟩ => ⟨ha.symm, hs⟩⟩

theorem guard_bind_eq_some {α : Type} {p : Prop} [Decidable p] {r : Unserialize α}
    {s : Bytes} {o : α × Bytes} :
    (guard p >>= fun _ => r) s = some o ↔ p ∧ r s = some o := by
  rw [guard_bind_apply]
  split_ifs with h
  · exact ⟨fun hr => ⟨h, hr⟩, And.right⟩
  · exact ⟨nofun, fun hr => absurd hr.1 h⟩

end Unserialize

/-! ### Inputs and outputs -/

def CTxIn.serialize (i : CTxIn) : Bytes :=
  uint256Bytes i.prevout.hash ++ leBytes 4 i.prevout.n ++ vectorBytes i.scriptSig
    ++ leBytes 4 i.nSequence

def CTxIn.unserialize : Unserialize CTxIn := do
  let hash ← uint256
  let n ← uint 4
  let scriptSig ← vector
  let nSequence ← uint 4
  pure { prevout := ⟨hash, n⟩, scriptSig, nSequence }

/-- The fields fit their widths. -/
def CTxIn.Fits (i : CTxIn) : Prop :=
  i.prevout.hash < 2 ^ 256 ∧ i.prevout.n < 256 ^ 4 ∧ i.scriptSig.length ≤ maxSize
    ∧ i.nSequence < 256 ^ 4

theorem CTxIn.codec : Codec CTxIn.unserialize CTxIn.serialize CTxIn.Fits :=
  ReadsRest.codec
    (.field (·.prevout.hash) codec_uint256 fun _ => .field (·.prevout.n) (codec_uint _) fun _ =>
      .field CTxIn.scriptSig codec_vector fun _ =>
      .field CTxIn.nSequence (codec_uint _) fun _ => .done (by rintro ⟨⟨⟩⟩; simp [and_assoc]))
    (by simp [CTxIn.serialize]) (by simp [CTxIn.Fits])

def CTxOut.serialize (o : CTxOut) : Bytes := intBytes 8 o.nValue ++ vectorBytes o.scriptPubKey

def CTxOut.unserialize : Unserialize CTxOut := do
  let nValue ← int 8
  let scriptPubKey ← vector
  pure { nValue, scriptPubKey }

def CTxOut.Fits (o : CTxOut) : Prop := IntRange 8 o.nValue ∧ o.scriptPubKey.length ≤ maxSize

theorem CTxOut.codec : Codec CTxOut.unserialize CTxOut.serialize CTxOut.Fits :=
  ReadsRest.codec
    (.field CTxOut.nValue (codec_int (by omega)) fun _ =>
      .field CTxOut.scriptPubKey codec_vector fun _ => .done)
    (by simp [CTxOut.serialize]) (by simp [CTxOut.Fits])

/-! ### Descriptions of shielded spends and outputs -/

namespace Wire

abbrev GrothProof := ByteArr 192

structure SpendDescription where
  cv : Uint256
  anchor : Uint256
  nullifier : Uint256
  rk : Uint256
  zkproof : GrothProof
  spendAuthSig : ByteArr 64
deriving DecidableEq

namespace SpendDescription

def serialize (d : SpendDescription) : Bytes :=
  uint256Bytes d.cv ++ uint256Bytes d.anchor ++ uint256Bytes d.nullifier ++ uint256Bytes d.rk
    ++ d.zkproof.1 ++ d.spendAuthSig.1

def unserialize : Unserialize SpendDescription := do
  let cv ← uint256
  let anchor ← uint256
  let nullifier ← uint256
  let rk ← uint256
  let zkproof ← array 192
  let spendAuthSig ← array 64
  pure { cv, anchor, nullifier, rk, zkproof, spendAuthSig }

def Fits (d : SpendDescription) : Prop :=
  d.cv < 2 ^ 256 ∧ d.anchor < 2 ^ 256 ∧ d.nullifier < 2 ^ 256 ∧ d.rk < 2 ^ 256

theorem codec : Codec unserialize serialize Fits :=
  ReadsRest.codec
    (.field cv codec_uint256 fun _ => .field anchor codec_uint256 fun _ =>
      .field nullifier codec_uint256 fun _ => .field rk codec_uint256 fun _ =>
      .field zkproof (codec_array _) fun _ => .field spendAuthSig (codec_array _) fun _ => .done)
    (by simp [serialize]) (by simp [Fits])

end SpendDescription

structure OutputDescription where
  cv : Uint256
  cm : Uint256
  ephemeralKey : Uint256
  encCiphertext : ByteArr 580
  outCiphertext : ByteArr 80
  zkproof : GrothProof
deriving DecidableEq

namespace OutputDescription

def serialize (d : OutputDescription) : Bytes :=
  uint256Bytes d.cv ++ uint256Bytes d.cm ++ uint256Bytes d.ephemeralKey ++ d.encCiphertext.1
    ++ d.outCiphertext.1 ++ d.zkproof.1

def unserialize : Unserialize OutputDescription := do
  let cv ← uint256
  let cm ← uint256
  let ephemeralKey ← uint256
  let encCiphertext ← array 580
  let outCiphertext ← array 80
  let zkproof ← array 192
  pure { cv, cm, ephemeralKey, encCiphertext, outCiphertext, zkproof }

def Fits (d : OutputDescription) : Prop :=
  d.cv < 2 ^ 256 ∧ d.cm < 2 ^ 256 ∧ d.ephemeralKey < 2 ^ 256

theorem codec : Codec unserialize serialize Fits :=
  ReadsRest.codec
    (.field cv codec_uint256 fun _ => .field cm codec_uint256 fun _ =>
      .field ephemeralKey codec_uint256 fun _ => .field encCiphertext (codec_array _) fun _ =>
      .field outCiphertext (codec_array _) fun _ => .field zkproof (codec_array _) fun _ =>
      .done)
    (by simp [serialize]) (by simp [Fits])

end OutputDescription

/-! ### Proofs of JoinSplits -/

/-- `libzcash::CompressedG1` (`n = 32`) and `libzcash::CompressedG2` (`n = 64`): the last bit of
the lead byte and the coordinate. -/
structure CompressedPoint (n : ℕ) where
  lastBit : Bool
  x : ByteArr n
deriving DecidableEq

namespace CompressedPoint

def serialize (mask : UInt8) {n : ℕ} (p : CompressedPoint n) : Bytes :=
  (if p.lastBit then mask ||| 1 else mask) :: p.x.1

def unserialize (mask : UInt8) (n : ℕ) : Unserialize (CompressedPoint n) := do
  let leadingByte ← uint8
  guard (leadingByte &&& 0xfe = mask)
  let x ← array n
  pure { lastBit := leadingByte &&& 1 ≠ 0, x }

/-- `G1_PREFIX_MASK` and `G2_PREFIX_MASK`, which end in a zero bit. -/
theorem leadingByte_iff {mask : UInt8} (hmask : mask = 0x02 ∨ mask = 0x0a) (b : UInt8) (bit : Bool) :
    b &&& 0xfe = mask ∧ decide (b &&& 1 ≠ 0) = bit ↔ b = if bit then mask ||| 1 else mask := by
  have hall : ∀ n < 256,
      UInt8.ofNat n &&& 0xfe = mask ∧ decide (UInt8.ofNat n &&& 1 ≠ 0) = bit ↔
        UInt8.ofNat n = if bit then mask ||| 1 else mask := by
    rcases hmask with rfl | rfl <;> cases bit <;> decide +kernel
  have hb := hall b.toNat b.toNat_lt
  rwa [UInt8.ofNat_toNat] at hb

theorem codec {mask : UInt8} (hmask : mask = 0x02 ∨ mask = 0x0a) (n : ℕ) :
    Codec (unserialize mask n) (serialize mask) (fun _ => True) := by
  refine Codec.of_eq_some fun s s' p => ?_
  simp only [unserialize, codec_uint8.bind_eq_some, guard_bind_eq_some, (codec_array _).bind_eq_some,
    pure_apply, Option.some.injEq, Prod.mk.injEq, serialize, true_and]
  constructor
  · rintro ⟨b, _, rfl, hb, x, _, rfl, rfl, rfl⟩
    rw [← (leadingByte_iff hmask b _).1 ⟨hb, rfl⟩]
    rfl
  · rintro rfl
    obtain ⟨hb, hbit⟩ := (leadingByte_iff hmask _ p.lastBit).2 rfl
    exact ⟨_, _, rfl, hb, p.x, _, rfl, by rw [hbit], rfl⟩

end CompressedPoint

structure PHGRProof where
  g_A : CompressedPoint 32
  g_A_prime : CompressedPoint 32
  g_B : CompressedPoint 64
  g_B_prime : CompressedPoint 32
  g_C : CompressedPoint 32
  g_C_prime : CompressedPoint 32
  g_K : CompressedPoint 32
  g_H : CompressedPoint 32
deriving DecidableEq

namespace PHGRProof

def serialize (p : PHGRProof) : Bytes :=
  p.g_A.serialize 0x02 ++ p.g_A_prime.serialize 0x02 ++ p.g_B.serialize 0x0a
    ++ p.g_B_prime.serialize 0x02 ++ p.g_C.serialize 0x02 ++ p.g_C_prime.serialize 0x02
    ++ p.g_K.serialize 0x02 ++ p.g_H.serialize 0x02

def unserialize : Unserialize PHGRProof := do
  let g_A ← CompressedPoint.unserialize 0x02 32
  let g_A_prime ← CompressedPoint.unserialize 0x02 32
  let g_B ← CompressedPoint.unserialize 0x0a 64
  let g_B_prime ← CompressedPoint.unserialize 0x02 32
  let g_C ← CompressedPoint.unserialize 0x02 32
  let g_C_prime ← CompressedPoint.unserialize 0x02 32
  let g_K ← CompressedPoint.unserialize 0x02 32
  let g_H ← CompressedPoint.unserialize 0x02 32
  pure { g_A, g_A_prime, g_B, g_B_prime, g_C, g_C_prime, g_K, g_H }

theorem codec : Codec unserialize serialize (fun _ => True) :=
  have h₁ := CompressedPoint.codec (Or.inl rfl) 32
  have h₂ := CompressedPoint.codec (Or.inr rfl) 64
  ReadsRest.codec
    (.field g_A h₁ fun _ => .field g_A_prime h₁ fun _ => .field g_B h₂ fun _ =>
      .field g_B_prime h₁ fun _ => .field g_C h₁ fun _ => .field g_C_prime h₁ fun _ =>
      .field g_K h₁ fun _ => .field g_H h₁ fun _ => .done)
    (by simp [serialize]) (by simp)

end PHGRProof

inductive SproutProof
  | phgr (proof : PHGRProof)
  | groth (proof : GrothProof)
deriving DecidableEq

namespace SproutProof

/-- `SproutProofSerializer`: a proof of the other kind throws. -/
def serialize (useGroth : Bool) : SproutProof → Option Bytes
  | phgr proof => if useGroth then none else some proof.serialize
  | groth proof => if useGroth then some proof.1 else none

/-- `SerReadWriteSproutProof` for reading. -/
def unserialize (useGroth : Bool) : Unserialize SproutProof :=
  if useGroth then do
    let grothProof ← array 192
    pure (groth grothProof)
  else do
    let pghrProof ← PHGRProof.unserialize
    pure (phgr pghrProof)

theorem codec (useGroth : Bool) :
    Codec (unserialize useGroth) (fun p => (p.serialize useGroth).getD [])
      (fun p => (p.serialize useGroth).isSome) := by
  refine Codec.of_eq_some fun s s' p => ?_
  cases useGroth with
  | true =>
    simp only [unserialize, if_true, (codec_array _).bind_eq_some, pure_apply, Option.some.injEq,
      Prod.mk.injEq]
    cases p with
    | phgr p => simp [serialize]
    | groth p => simp [serialize, eq_comm]
  | false =>
    simp only [unserialize, Bool.false_eq_true, if_false, PHGRProof.codec.bind_eq_some, pure_apply,
      Option.some.injEq, Prod.mk.injEq]
    cases p with
    | phgr p => simp [serialize, eq_comm]
    | groth p => simp [serialize]

end SproutProof

/-! ### JoinSplits -/

abbrev Ciphertext := ByteArr 601

structure JSDescription where
  vpub_old : ℤ
  vpub_new : ℤ
  anchor : Uint256
  nullifiers : Uint256 × Uint256
  commitments : Uint256 × Uint256
  ephemeralKey : Uint256
  ciphertexts : Ciphertext × Ciphertext
  randomSeed : Uint256
  macs : Uint256 × Uint256
  proof : SproutProof
deriving DecidableEq

namespace JSDescription

/-- `useGroth`, from the version of the stream, which is the header of the transaction. -/
def useGroth (header : ℕ) : Bool := 2 ^ 31 ≤ header && 4 ≤ header % 2 ^ 31

def twoBytes {α : Type} (write : α → Bytes) (p : α × α) : Bytes := write p.1 ++ write p.2

def serialize (header : ℕ) (d : JSDescription) : Option Bytes := do
  let proof ← d.proof.serialize (useGroth header)
  pure (intBytes 8 d.vpub_old ++ intBytes 8 d.vpub_new ++ uint256Bytes d.anchor
    ++ twoBytes uint256Bytes d.nullifiers ++ twoBytes uint256Bytes d.commitments
    ++ uint256Bytes d.ephemeralKey ++ uint256Bytes d.randomSeed ++ twoBytes uint256Bytes d.macs
    ++ proof ++ twoBytes Subtype.val d.ciphertexts)

def unserialize (header : ℕ) : Unserialize JSDescription := do
  let vpub_old ← int 8
  let vpub_new ← int 8
  let anchor ← uint256
  let nullifiers ← two uint256
  let commitments ← two uint256
  let ephemeralKey ← uint256
  let randomSeed ← uint256
  let macs ← two uint256
  let proof ← SproutProof.unserialize (useGroth header)
  let ciphertexts ← two (array 601)
  pure { vpub_old, vpub_new, anchor, nullifiers, commitments, ephemeralKey, ciphertexts, randomSeed
         macs, proof }

def Fits (header : ℕ) (d : JSDescription) : Prop :=
  IntRange 8 d.vpub_old ∧ IntRange 8 d.vpub_new ∧ d.anchor < 2 ^ 256
    ∧ (d.nullifiers.1 < 2 ^ 256 ∧ d.nullifiers.2 < 2 ^ 256)
    ∧ (d.commitments.1 < 2 ^ 256 ∧ d.commitments.2 < 2 ^ 256) ∧ d.ephemeralKey < 2 ^ 256
    ∧ d.randomSeed < 2 ^ 256 ∧ (d.macs.1 < 2 ^ 256 ∧ d.macs.2 < 2 ^ 256)
    ∧ (d.proof.serialize (useGroth header)).isSome

theorem isSome_serialize {header : ℕ} {d : JSDescription} (h : d.Fits header) :
    ∃ proof, d.proof.serialize (useGroth header) = some proof := Option.isSome_iff_exists.1
  h.2.2.2.2.2.2.2.2

theorem codec (header : ℕ) :
    Codec (unserialize header) (fun d => (d.serialize header).getD []) (Fits header) := by
  refine ReadsRest.codec
    (.field vpub_old (codec_int (by omega)) fun _ => .field vpub_new (codec_int (by omega)) fun _ =>
      .field anchor codec_uint256 fun _ => .field nullifiers (codec_two codec_uint256) fun _ =>
      .field commitments (codec_two codec_uint256) fun _ =>
      .field ephemeralKey codec_uint256 fun _ =>
      .field randomSeed codec_uint256 fun _ => .field macs (codec_two codec_uint256) fun _ =>
      .field proof (SproutProof.codec _) fun _ =>
      .field ciphertexts (codec_two (codec_array _)) fun _ => .done (by rintro ⟨⟩; simp; tauto))
    (fun d hd => ?_) (by simp [Fits])
  obtain ⟨proof, hproof⟩ := isSome_serialize hd
  simp [serialize, hproof, twoBytes]

end JSDescription

end Wire
end Komodo
