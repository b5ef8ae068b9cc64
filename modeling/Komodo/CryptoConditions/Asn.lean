/-
# The ASN.1 values of the crypto-conditions library

`src/src/cryptoconditions/src/asn/CryptoConditions.asn` as `asn1c` compiles it:
`Condition_t`, `Fulfillment_t` and the fingerprint contents, with the bytes that
`der_encode_to_buffer` writes for each. The module has automatic tags, so the
fields of a sequence are `[0]`, `[1]`, … and the choices carry the tags that the
schema gives them.

The encoder does not check the sizes that the schema declares, nor does the
decoder: an octet string here has any length.

A set is written in the order of its elements' bytes and read in the order in
which it is written. `Fulfillment.canon` is the value that the decoder builds
from the bytes of a fulfillment; `der_canon` says that it has the same bytes.
-/

import Komodo.CC.Contract
import Komodo.Lib.Der

namespace Komodo

open Der List

/-- `Condition_PR` and `Fulfillment_PR`, less `NOTHING`. -/
inductive ConditionPR
  | preimageSha256
  | prefixSha256
  | thresholdSha256
  | rsaSha256
  | ed25519Sha256
  | secp256k1Sha256
  | evalSha256
deriving DecidableEq, Repr

/-- The tag byte of a choice: context class, constructed. -/
def ConditionPR.tag : ConditionPR → UInt8
  | preimageSha256 => 0xa0
  | prefixSha256 => 0xa1
  | thresholdSha256 => 0xa2
  | rsaSha256 => 0xa3
  | ed25519Sha256 => 0xa4
  | secp256k1Sha256 => 0xa5
  | evalSha256 => 0xaf

theorem ConditionPR.tag_inj {p q : ConditionPR} (h : p.tag = q.tag) : p = q := by
  cases p <;> cases q <;> first | rfl | exact absurd h (by decide)

/-- Whether the choice is a `CompoundSha256Condition`, which has subtypes. -/
def ConditionPR.compound : ConditionPR → Bool
  | prefixSha256 => true
  | thresholdSha256 => true
  | _ => false

/-- `BIT_STRING_t`. -/
structure BitString where
  buf : Bytes
  bitsUnused : ℕ
deriving DecidableEq, Repr

/-- `Condition_t`. A simple condition has subtypes in memory, not in its bytes. -/
structure AsnCondition where
  present : ConditionPR
  fingerprint : Bytes
  cost : ℕ
  subtypes : BitString
deriving DecidableEq, Repr

/-- `Fulfillment_t`. -/
inductive Fulfillment
  | preimage (preimage : Bytes)
  | prefixed (pre : Bytes) (maxMessageLength : ℕ) (subfulfillment : Fulfillment)
  | threshold (subfulfillments : List Fulfillment) (subconditions : List AsnCondition)
  | rsa (modulus signature : Bytes)
  | ed25519 (publicKey signature : Bytes)
  | secp256k1 (publicKey signature : Bytes)
  | eval (code : Bytes)

/-! ### Conditions -/

/-- The contents of a BIT STRING as `OCTET_STRING_encode_der` writes them: three
bits of `bits_unused`, and the last byte without its unused bits. -/
def BitString.der (b : BitString) : Bytes :=
  let unused := b.bitsUnused % 8
  UInt8.ofNat unused ::
    match b.buf.getLast? with
    | some last =>
      if unused = 0 then b.buf
      else b.buf.dropLast ++ [last &&& UInt8.ofNat (255 * 2 ^ b.bitsUnused)]
    | none => []

theorem BitString.length_der (b : BitString) : b.der.length = 1 + b.buf.length := by
  obtain ⟨buf, unused⟩ := b
  rcases eq_nil_or_concat buf with rfl | ⟨init, last, rfl⟩
  · rfl
  · simp only [der, concat_eq_append, getLast?_concat, dropLast_concat]
    split <;> simp only [length_cons, length_append, length_nil] <;> omega

/-- The fields of a condition: fingerprint, cost and, in a compound one, the
subtypes. -/
def AsnCondition.body (c : AsnCondition) : Bytes :=
  tlv 0x80 c.fingerprint ++ tlv 0x81 (integer c.cost) ++
    if c.present.compound then tlv 0x82 c.subtypes.der else []

/-- The bytes of a condition. -/
def AsnCondition.der (c : AsnCondition) : Bytes := tlv c.present.tag c.body

theorem AsnCondition.length_der_le {c : AsnCondition} (hfp : c.fingerprint.length = 32)
    (htypes : c.subtypes.buf.length ≤ 4) : c.der.length ≤ 100 := by
  have hint := length_integer_le c.cost
  have hbits := c.subtypes.length_der
  have hbody : c.body.length ≤ 51 := by
    simp only [body, length_append]
    rw [length_tlv_short _ (by omega), length_tlv_short _ (by omega)]
    split
    · rw [length_tlv_short _ (by omega)]
      omega
    · rw [length_nil]
      omega
  rw [der, length_tlv_short _ (by omega)]
  omega

/-- The condition that is read from the bytes of `c`. -/
def AsnCondition.canon (c : AsnCondition) : AsnCondition :=
  if c.present.compound then c else { c with subtypes := ⟨[], 0⟩ }

@[simp] theorem AsnCondition.canon_present (c : AsnCondition) : c.canon.present = c.present := by
  unfold canon
  split <;> rfl

@[simp] theorem AsnCondition.canon_fingerprint (c : AsnCondition) :
    c.canon.fingerprint = c.fingerprint := by
  unfold canon
  split <;> rfl

@[simp] theorem AsnCondition.canon_cost (c : AsnCondition) : c.canon.cost = c.cost := by
  unfold canon
  split <;> rfl

@[simp] theorem AsnCondition.der_canon (c : AsnCondition) : c.canon.der = c.der := by
  unfold canon
  split
  · rfl
  · simp_all [der, body]

/-- **The bytes of a condition name its type and its fingerprint,** whatever
follows them. -/
theorem AsnCondition.der_append_inj {c d : AsnCondition} {r s : Bytes}
    (hc : c.der.length < 256 ^ 8) (hd : d.der.length < 256 ^ 8) (h : c.der ++ r = d.der ++ s) :
    c.present = d.present ∧ c.fingerprint = d.fingerprint := by
  have hbody := length_lt_length_tlv c.present.tag c.body
  have hbody' := length_lt_length_tlv d.present.tag d.body
  obtain ⟨htag, heq, -⟩ := tlv_append_inj (hbody.trans hc) (hbody'.trans hd) h
  have hfp : c.fingerprint.length < c.body.length := by
    have := length_lt_length_tlv 0x80 c.fingerprint
    simp only [body, length_append]
    omega
  have hfp' : d.fingerprint.length < d.body.length := by
    have := length_lt_length_tlv 0x80 d.fingerprint
    simp only [body, length_append]
    omega
  simp only [body, append_assoc] at heq
  obtain ⟨-, hfing, -⟩ :=
    tlv_append_inj (hfp.trans (hbody.trans hc)) (hfp'.trans (hbody'.trans hd)) heq
  exact ⟨ConditionPR.tag_inj htag, hfing⟩

/-! ### Fingerprint contents -/

/-- `Secp256k1FingerprintContents` and `Ed25519FingerprintContents`. -/
def derPublicKeyContents (publicKey : Bytes) : Bytes := tlv 0x30 (tlv 0x80 publicKey)

/-- `PrefixFingerprintContents`; a choice as a field is tagged explicitly. -/
def derPrefixContents (pre : Bytes) (maxMessageLength : ℕ) (subcondition : AsnCondition) : Bytes :=
  tlv 0x30 (tlv 0x80 pre ++ tlv 0x81 (integer maxMessageLength) ++ tlv 0xa2 subcondition.der)

/-- `ThresholdFingerprintContents`. -/
def derThresholdContents (threshold : ℕ) (subconditions2 : List AsnCondition) : Bytes :=
  tlv 0x30 (tlv 0x80 (integer threshold) ++ tlv 0xa1 (setOf (subconditions2.map AsnCondition.der)))

theorem derPublicKeyContents_inj {pk pk' : Bytes} (hpk : pk.length < 256 ^ 7)
    (hpk' : pk'.length < 256 ^ 7) (h : derPublicKeyContents pk = derPublicKeyContents pk') :
    pk = pk' := by
  have hlen : ∀ b : Bytes, b.length < 256 ^ 7 → (tlv 0x80 b).length < 256 ^ 8 := by
    intro b hb
    have := length_length_le b.length
    rw [length_tlv]
    omega
  obtain ⟨-, h'⟩ := tlv_inj (hlen _ hpk) (hlen _ hpk') h
  exact (tlv_inj (by omega) (by omega) h').2

theorem derThresholdContents_perm (t : ℕ) {l l' : List AsnCondition}
    (h : (l.map AsnCondition.der).Perm (l'.map AsnCondition.der)) :
    derThresholdContents t l = derThresholdContents t l' := by
  rw [derThresholdContents, derThresholdContents, setOf_perm h]

theorem isTlv_der {c : AsnCondition} (h : c.der.length < 256 ^ 8) : IsTlv c.der :=
  ⟨_, _, (length_lt_length_tlv _ _).trans h, rfl⟩

/-- **Threshold contents name the threshold and the subconditions,** the
subconditions up to order. -/
theorem derThresholdContents_inj {t t' : ℕ} {l l' : List AsnCondition}
    (hl : (derThresholdContents t l).length < 256 ^ 8)
    (h : derThresholdContents t l = derThresholdContents t' l') :
    t % 2 ^ 64 = t' % 2 ^ 64 ∧ (l.map AsnCondition.der).Perm (l'.map AsnCondition.der) := by
  -- every part is shorter than the whole
  have hparts : ∀ (t : ℕ) (l : List AsnCondition), (derThresholdContents t l).length < 256 ^ 8 →
      (integer t).length < 256 ^ 8 ∧
        (setOf (l.map AsnCondition.der)).length < 256 ^ 8 ∧
          (tlv 0x80 (integer t) ++ tlv 0xa1 (setOf (l.map AsnCondition.der))).length < 256 ^ 8 := by
    intro t l hlt
    have h1 := length_lt_length_tlv 0x30
      (tlv 0x80 (integer t) ++ tlv 0xa1 (setOf (l.map AsnCondition.der)))
    have h2 := length_lt_length_tlv 0x80 (integer t)
    have h3 := length_lt_length_tlv 0xa1 (setOf (l.map AsnCondition.der))
    unfold derThresholdContents at hlt
    rw [length_append] at h1 ⊢
    exact ⟨by omega, by omega, by omega⟩
  have hmem : ∀ l : List AsnCondition, (setOf (l.map AsnCondition.der)).length < 256 ^ 8 →
      ∀ b ∈ l.map AsnCondition.der, IsTlv b := by
    intro l hset b hb
    obtain ⟨c, hc, rfl⟩ := mem_map.1 hb
    rw [length_setOf] at hset
    exact isTlv_der (lt_of_le_of_lt (le_sum_of_mem (mem_map_of_mem hb)) hset)
  obtain ⟨hint, hset, hbody⟩ := hparts t l hl
  obtain ⟨hint', hset', hbody'⟩ := hparts t' l' (h ▸ hl)
  obtain ⟨-, heq⟩ := tlv_inj hbody hbody' h
  obtain ⟨-, hthr, hrest⟩ := tlv_append_inj hint hint' heq
  obtain ⟨-, hels⟩ := tlv_inj hset hset' hrest
  exact ⟨integer_inj hthr, setOf_inj (hmem l hset) (hmem l' hset') hels⟩

/-! ### Fulfillments -/

namespace Fulfillment

mutual

/-- The bytes of a fulfillment. -/
def der : Fulfillment → Bytes
  | preimage p => tlv 0xa0 (tlv 0x80 p)
  | prefixed pre len sub => tlv 0xa1 (tlv 0x80 pre ++ tlv 0x81 (integer len) ++ tlv 0xa2 (der sub))
  | threshold fs cs =>
    tlv 0xa2 (tlv 0xa0 (setOf (derList fs)) ++ tlv 0xa1 (setOf (cs.map AsnCondition.der)))
  | rsa modulus sig => tlv 0xa3 (tlv 0x80 modulus ++ tlv 0x81 sig)
  | ed25519 pk sig => tlv 0xa4 (tlv 0x80 pk ++ tlv 0x81 sig)
  | secp256k1 pk sig => tlv 0xa5 (tlv 0x80 pk ++ tlv 0x81 sig)
  | eval code => tlv 0xaf (tlv 0x80 code)

/-- The bytes of each subfulfillment. -/
def derList : List Fulfillment → List Bytes
  | [] => []
  | f :: fs => der f :: derList fs

end

@[simp] theorem derList_eq_map (fs : List Fulfillment) : derList fs = fs.map der := by
  induction fs with
  | nil => rfl
  | cons f fs ih => rw [derList, ih, map_cons]

/-- The elements of a set in the order in which their bytes are written. -/
def inSetOrder {α : Type} (der : α → Bytes) (els : List α) : List α :=
  els.insertionSort fun x y => bytesLe (der x) (der y)

theorem inSetOrder_perm {α : Type} (der : α → Bytes) (els : List α) :
    (inSetOrder der els).Perm els :=
  perm_insertionSort _ els

mutual

/-- The fulfillment that `ber_decode` builds from the bytes of `f`: the elements
of each set in the order in which they were written. -/
def canon : Fulfillment → Fulfillment
  | prefixed pre len sub => prefixed pre len (canon sub)
  | threshold fs cs =>
    threshold (inSetOrder der (canonList fs))
      (inSetOrder AsnCondition.der (cs.map AsnCondition.canon))
  | f => f

/-- `canon` of each subfulfillment. -/
def canonList : List Fulfillment → List Fulfillment
  | [] => []
  | f :: fs => canon f :: canonList fs

end

@[simp] theorem canonList_eq_map (fs : List Fulfillment) : canonList fs = fs.map canon := by
  induction fs with
  | nil => rfl
  | cons f fs ih => rw [canonList, ih, map_cons]

theorem induct {P : Fulfillment → Prop} (preimage : ∀ p, P (preimage p))
    (prefixed : ∀ pre len sub, P sub → P (prefixed pre len sub))
    (threshold : ∀ fs cs, (∀ f ∈ fs, P f) → P (threshold fs cs))
    (rsa : ∀ m s, P (rsa m s)) (ed25519 : ∀ pk s, P (ed25519 pk s))
    (secp256k1 : ∀ pk s, P (secp256k1 pk s)) (eval : ∀ code, P (eval code)) :
    ∀ f, P f := by
  refine @Fulfillment.rec P (fun fs => ∀ f ∈ fs, P f) preimage prefixed threshold rsa ed25519
    secp256k1 eval (by simp) ?_
  intro f fs hf hfs
  simpa using ⟨hf, hfs⟩

/-- **Reading a fulfillment and writing it again gives the same bytes.** -/
theorem der_canon (f : Fulfillment) : f.canon.der = f.der := by
  induction f using induct with
  | prefixed pre len sub ih => rw [canon, der, der, ih]
  | threshold fs cs ih =>
    have hfs : ((inSetOrder der (fs.map canon)).map der).Perm (fs.map der) := by
      refine ((inSetOrder_perm der _).map der).trans (List.Perm.of_eq ?_)
      rw [map_map]
      exact map_congr_left ih
    have hcs : ((inSetOrder AsnCondition.der (cs.map AsnCondition.canon)).map AsnCondition.der).Perm
        (cs.map AsnCondition.der) := by
      refine ((inSetOrder_perm _ _).map _).trans (List.Perm.of_eq ?_)
      rw [map_map]
      exact map_congr_left fun c _ => c.der_canon
    rw [canon, der, der]
    simp only [canonList_eq_map, derList_eq_map]
    rw [setOf_perm hfs, setOf_perm hcs]
  | _ => rfl

end Fulfillment

end Komodo
