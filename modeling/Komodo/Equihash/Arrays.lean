/-
# Arrays of groups of bits

`ExpandArray`, `CompressArray`, `EhIndexToArray`, `ArrayToEhIndex`, `GetIndicesFromMinimal` and
`GetMinimalFromIndices` of `src/src/crypto/equihash.cpp`.

Both loops move bits through `acc_value`, a number of 32 bits.  The bits that have been read and not
yet written are its low `acc_bits` bits; there are never more than 32 of them when a group has 25
bits or fewer, and when it has 26, since the number of bits is then even (`Widths`).
-/

import Komodo.Lib.BitStrings
import Komodo.Lib.Der
import Komodo.Script.Script

namespace Komodo
namespace Equihash

open BitStrings Der List Nat

def bitLenMask (bit_len : ℕ) : UInt32 := (1 <<< UInt32.ofNat bit_len) - 1

/-- What `ExpandArray` writes when `acc_bits` bits are left behind an element. -/
def expandedElement (bit_len byte_pad out_width acc_bits : ℕ) (acc_value : UInt32) : Bytes :=
  List.replicate byte_pad 0 ++ (List.range' byte_pad (out_width - byte_pad)).map fun x =>
    ((acc_value >>> UInt32.ofNat (acc_bits + 8 * (out_width - x - 1))) &&&
      ((bitLenMask bit_len >>> UInt32.ofNat (8 * (out_width - x - 1))) &&& 0xFF)).toUInt8

/-- The loop of `ExpandArray`. -/
def expandLoop (bit_len byte_pad out_width : ℕ) : (acc_bits : ℕ) → (acc_value : UInt32) → Bytes →
    Bytes
  | _, _, [] => []
  | acc_bits, acc_value, b :: bytes =>
    let acc_value := (acc_value <<< 8) ||| b.toUInt32
    let acc_bits := acc_bits + 8
    if bit_len ≤ acc_bits then
      expandedElement bit_len byte_pad out_width (acc_bits - bit_len) acc_value
        ++ expandLoop bit_len byte_pad out_width (acc_bits - bit_len) acc_value bytes
    else expandLoop bit_len byte_pad out_width acc_bits acc_value bytes

/-- `ExpandArray`: the bytes that are written to `out`, unless an assertion fails. -/
def expandArray (bytes : Bytes) (out_len bit_len byte_pad : ℕ) : Option Bytes :=
  let out_width := (bit_len + 7) / 8 + byte_pad
  if 8 ≤ bit_len ∧ bit_len ≤ 32 ∧ out_len = 8 * out_width * bytes.length / bit_len then
    some (expandLoop bit_len byte_pad out_width 0 0 bytes)
  else none

/-- What `CompressArray` makes of `acc_value` and the next element. -/
def readElement (bit_len byte_pad in_width : ℕ) (acc_value : UInt32) (bytes : Bytes) : UInt32 :=
  (List.range' byte_pad (in_width - byte_pad)).foldl (fun acc_value x =>
    acc_value ||| (((bytes.getD x 0).toUInt32 &&&
        ((bitLenMask bit_len >>> UInt32.ofNat (8 * (in_width - x - 1))) &&& 0xFF))
      <<< UInt32.ofNat (8 * (in_width - x - 1)))) (acc_value <<< UInt32.ofNat bit_len)

/-- The loop of `CompressArray`. -/
def compressLoop (bit_len byte_pad in_width : ℕ) : (out_len acc_bits : ℕ) → (acc_value : UInt32) →
    Bytes → Bytes
  | 0, _, _, _ => []
  | out_len + 1, acc_bits, acc_value, bytes =>
    if acc_bits < 8 then
      if bytes ≠ [] then
        let acc_value := readElement bit_len byte_pad in_width acc_value bytes
        let acc_bits := acc_bits + bit_len - 8
        ((acc_value >>> UInt32.ofNat acc_bits) &&& 0xFF).toUInt8
          :: compressLoop bit_len byte_pad in_width out_len acc_bits acc_value (bytes.drop in_width)
      else
        let acc_value := acc_value <<< UInt32.ofNat (8 - acc_bits)
        (acc_value &&& 0xFF).toUInt8
          :: compressLoop bit_len byte_pad in_width out_len 0 acc_value bytes
    else
      ((acc_value >>> UInt32.ofNat (acc_bits - 8)) &&& 0xFF).toUInt8
        :: compressLoop bit_len byte_pad in_width out_len (acc_bits - 8) acc_value bytes

/-- `CompressArray`, unless an assertion fails. -/
def compressArray (bytes : Bytes) (out_len bit_len byte_pad : ℕ) : Option Bytes :=
  let in_width := (bit_len + 7) / 8 + byte_pad
  if 8 ≤ bit_len ∧ bit_len ≤ 32 ∧ out_len = (bit_len * bytes.length / in_width + 7) / 8 then
    some (compressLoop bit_len byte_pad in_width out_len 0 0 bytes)
  else none

/-! ### One element -/

theorem toNat_bitLenMask {bit_len : ℕ} (h : bit_len < 32) :
    (bitLenMask bit_len).toNat = 2 ^ bit_len - 1 := by
  have hpow : 2 ^ bit_len < 2 ^ 32 := Nat.pow_lt_pow_right (by decide) h
  have hshift : (1 <<< UInt32.ofNat bit_len : UInt32).toNat = 2 ^ bit_len := by
    rw [UInt32.toNat_shiftLeft, UInt32.toNat_ofNat', mod_eq_of_lt (by omega : bit_len < 2 ^ 32),
      mod_eq_of_lt h, UInt32.toNat_one, one_shiftLeft, mod_eq_of_lt hpow]
  have hone : (1 : UInt32) ≤ 1 <<< UInt32.ofNat bit_len := by
    rw [UInt32.le_iff_toNat_le, hshift, UInt32.toNat_one]
    exact Nat.one_le_two_pow
  rw [bitLenMask, UInt32.toNat_sub_of_le _ _ hone, hshift, UInt32.toNat_one]

variable {bl k n g : ℕ}

theorem toNat_shiftRight_ofNat {a : UInt32} (h : k < 32) :
    (a >>> UInt32.ofNat k).toNat = a.toNat / 2 ^ k := by
  rw [UInt32.toNat_shiftRight, UInt32.toNat_ofNat', mod_eq_of_lt (by omega : k < 2 ^ 32),
    mod_eq_of_lt h, shiftRight_eq_div_pow]

theorem toNat_shiftLeft_ofNat {a : UInt32} (h : k < 32) :
    (a <<< UInt32.ofNat k).toNat = a.toNat * 2 ^ k % 2 ^ 32 := by
  rw [UInt32.toNat_shiftLeft, UInt32.toNat_ofNat', mod_eq_of_lt (by omega : k < 2 ^ 32),
    mod_eq_of_lt h, shiftLeft_eq]

theorem bigEndian_eq_map (w n : ℕ) :
    bigEndian w n = (range w).map fun x => UInt8.ofNat (n / 256 ^ (w - x - 1)) := by
  induction w generalizing n with
  | zero => rfl
  | succ w ih =>
    rw [bigEndian, ih, range_succ, map_append, map_singleton]
    congr 1
    · refine map_congr_left fun x hx => ?_
      have hx := mem_range.1 hx
      rw [Nat.div_div_eq_div_mul, ← pow_succ']
      congr 3
      omega
    · rw [show w + 1 - w - 1 = 0 by omega, pow_zero, Nat.div_one]

theorem masked_byte (n ab bl k : ℕ) :
    (n / 2 ^ (ab + 8 * k) &&& ((2 ^ bl - 1) / 2 ^ (8 * k) &&& 0xFF)) % 256 =
      n / 2 ^ ab % 2 ^ bl / 256 ^ k % 256 := by
  have h256 : (256 : ℕ) ^ k = 2 ^ (8 * k) := by rw [show (256 : ℕ) = 2 ^ 8 from rfl, ← pow_mul]
  have hbyte : (0xFF : ℕ) = 2 ^ 8 - 1 := rfl
  rw [h256, hbyte, show (256 : ℕ) = 2 ^ 8 from rfl]
  refine eq_of_testBit_eq fun i => ?_
  simp only [testBit_mod_two_pow, testBit_and, testBit_div_two_pow, testBit_two_pow_sub_one]
  have hi : i + 8 * k + ab = i + (ab + 8 * k) := by omega
  rw [hi]
  by_cases h₁ : i < 8 <;> by_cases h₂ : i + 8 * k < bl <;> simp [h₁, h₂]

theorem lt_256_pow {bl n : ℕ} (h : n < 2 ^ bl) : n < 256 ^ ((bl + 7) / 8) := by
  have h256 : (256 : ℕ) ^ ((bl + 7) / 8) = 2 ^ (8 * ((bl + 7) / 8)) := by
    rw [show (256 : ℕ) = 2 ^ 8 from rfl, ← pow_mul]
  rw [h256]
  exact h.trans_le (Nat.pow_le_pow_right (by decide) (by omega))

/-- An element is a group of bits as a big-endian number. -/
theorem expandedElement_eq {ab : ℕ} (hbl : bl ≤ 26) (hab : ab < 8) (pad : ℕ) (acc : UInt32) :
    expandedElement bl pad ((bl + 7) / 8 + pad) ab acc =
      bigEndian ((bl + 7) / 8 + pad) (acc.toNat / 2 ^ ab % 2 ^ bl) := by
  have hlt := lt_256_pow (Nat.mod_lt (acc.toNat / 2 ^ ab) (Nat.pow_pos (by decide) : 0 < 2 ^ bl))
  have hrange : range ((bl + 7) / 8 + pad) =
      range pad ++ range' pad ((bl + 7) / 8) := by
    rw [range_eq_range', range_eq_range', add_comm _ pad, ← range'_append, zero_add, one_mul]
  rw [expandedElement, bigEndian_eq_map, hrange, map_append, Nat.add_sub_cancel]
  congr 1
  · -- the bytes before the group are zero
    refine (eq_replicate_iff.2 ⟨by simp, fun b hb => ?_⟩).symm
    obtain ⟨x, hx, rfl⟩ := mem_map.1 hb
    have hx := mem_range.1 hx
    rw [Nat.div_eq_of_lt (hlt.trans_le (Nat.pow_le_pow_right (by decide) (by omega)))]
    rfl
  · refine map_congr_left fun x hx => ?_
    have hx := mem_range'_1.1 hx
    apply UInt8.toNat_inj.1
    rw [UInt32.toNat_toUInt8, UInt32.toNat_and, UInt32.toNat_and, toNat_shiftRight_ofNat (by omega),
      toNat_shiftRight_ofNat (by omega), toNat_bitLenMask (by omega), UInt8.toNat_ofNat']
    exact masked_byte _ _ _ _

/-! ### Expanding -/

/-- The bits of an array. -/
def arrayBits (bytes : Bytes) : List Bool := bytes.flatMap fun b => bits 8 b.toNat

@[simp] theorem length_arrayBits (bytes : Bytes) : (arrayBits bytes).length = 8 * bytes.length := by
  induction bytes with
  | nil => rfl
  | cons b bytes ih =>
    rw [arrayBits] at ih ⊢
    rw [flatMap_cons, length_append, length_bits, ih, length_cons, mul_succ, add_comm]

/-- Groups that 32 bits suffice for: with 26 bits in a group, what is left is even. -/
def Widths (bl : ℕ) : Prop := 8 ≤ bl ∧ (bl ≤ 25 ∨ bl = 26)

/-- The accumulator holds the bits `pending`. -/
def Holds (bl : ℕ) (acc : UInt32) (pending : List Bool) : Prop :=
  acc.toNat % 2 ^ pending.length = value pending ∧ (bl = 26 → pending.length % 2 = 0)

variable {pending : List Bool} {acc : UInt32}

theorem Holds.push (h : Holds bl acc pending)
    (hlen : pending.length + 8 ≤ 32) (b : UInt8) :
    Holds bl ((acc <<< 8) ||| b.toUInt32) (pending ++ bits 8 b.toNat) := by
  have hb := b.toNat_lt
  have hshift : (acc <<< 8).toNat = 2 ^ 8 * (acc.toNat % 2 ^ 24) := by
    rw [show (8 : UInt32) = UInt32.ofNat 8 from rfl, toNat_shiftLeft_ofNat (by omega)]
    omega
  have hacc : ((acc <<< 8) ||| b.toUInt32).toNat = 2 ^ 8 * (acc.toNat % 2 ^ 24) + b.toNat := by
    rw [UInt32.toNat_or, UInt8.toNat_toUInt32, hshift, ← two_pow_add_eq_or_of_lt hb]
  refine ⟨?_, fun h26 => ?_⟩
  · have hpow : 2 ^ pending.length ∣ 2 ^ 24 := pow_dvd_pow 2 (by omega)
    have hmod : acc.toNat % 2 ^ 24 % 2 ^ pending.length = value pending := by
      rw [mod_mod_of_dvd _ hpow, h.1]
    rw [hacc, value_append, value_bits, length_bits, length_append, length_bits, pow_add,
      mul_comm (2 ^ pending.length), mod_eq_of_lt (by omega : b.toNat < 2 ^ 8)]
    rw [mod_mul, mul_add_mod, mod_eq_of_lt hb, mul_add_div (by decide),
      div_eq_of_lt hb, add_zero, hmod]
    omega
  · have heven := h.2 h26
    rw [length_append, length_bits]
    omega

theorem Holds.drop {bl k : ℕ} (h : Holds bl acc pending)
    (hk : bl = 26 → k % 2 = 0) (hle : k ≤ pending.length) : Holds bl acc (pending.drop k) := by
  refine ⟨?_, fun h26 => ?_⟩
  · have hpow : 2 ^ (pending.length - k) ∣ 2 ^ pending.length := pow_dvd_pow 2 (by omega)
    rw [value_drop, length_drop, ← h.1, mod_mod_of_dvd _ hpow]
  · have heven := h.2 h26
    have hk := hk h26
    rw [length_drop]
    omega

theorem Holds.take {bl k : ℕ} (h : Holds bl acc pending)
    (hle : k ≤ pending.length) :
    acc.toNat / 2 ^ (pending.length - k) % 2 ^ k = value (pending.take k) := by
  rw [value_take, ← h.1]
  have hpow : 2 ^ pending.length = 2 ^ (pending.length - k) * 2 ^ k := by
    rw [← pow_add, Nat.sub_add_cancel hle]
  rw [hpow, mod_mul_right_div_self]

/-- **`ExpandArray` writes the groups of `bl` bits of the array**, each as a big-endian number. -/
theorem expandLoop_eq {bl : ℕ} (hbl : Widths bl) (pad : ℕ) (bytes : Bytes)
    (h : Holds bl acc pending) (hlt : pending.length < bl) :
    expandLoop bl pad ((bl + 7) / 8 + pad) pending.length acc bytes =
      (chunks bl ((pending.length + 8 * bytes.length) / bl)
        (pending ++ arrayBits bytes)).flatMap
          fun g => bigEndian ((bl + 7) / 8 + pad) (value g) := by
  obtain ⟨hge, hfits⟩ := hbl
  induction bytes generalizing acc pending with
  | nil =>
    rw [expandLoop, length_nil, mul_zero, add_zero pending.length, div_eq_of_lt hlt]
    rfl
  | cons b bytes ih =>
    have heven := h.2
    have hpush := h.push (by omega) b
    have hlen : (pending ++ bits 8 b.toNat).length = pending.length + 8 := by simp
    have hbits : pending ++ arrayBits (b :: bytes) =
        pending ++ bits 8 b.toNat ++ arrayBits bytes := by
      rw [arrayBits, flatMap_cons, append_assoc]
      rfl
    rw [expandLoop, hbits, length_cons]
    split_ifs with hemit
    · have hdroplen : ((pending ++ bits 8 b.toNat).drop bl).length = pending.length + 8 - bl := by
        rw [length_drop, hlen]
      have htake := hpush.take (k := bl) (by omega)
      rw [hlen] at htake
      have hrest := ih (hpush.drop (k := bl) (by omega) (by omega)) (by omega)
      have hcount : (pending.length + 8 * (bytes.length + 1)) / bl =
          (pending.length + 8 - bl + 8 * bytes.length) / bl + 1 := by
        rw [show pending.length + 8 * (bytes.length + 1) =
          pending.length + 8 - bl + 8 * bytes.length + bl by omega, add_div_right _ (by omega)]
      rw [expandedElement_eq (by omega) (by omega), htake, hcount, chunks, flatMap_cons]
      rw [hdroplen] at hrest
      have hfront : (pending ++ bits 8 b.toNat ++ arrayBits bytes).take bl =
          (pending ++ bits 8 b.toNat).take bl := take_append_of_le_length (by omega)
      have hback : (pending ++ bits 8 b.toNat ++ arrayBits bytes).drop bl =
          (pending ++ bits 8 b.toNat).drop bl ++ arrayBits bytes :=
        drop_append_of_le_length (by omega)
      rw [hrest, hfront, hback]
    · have hrest := ih hpush (by rw [hlen]; omega)
      rw [hlen] at hrest
      rw [hrest, show pending.length + 8 + 8 * bytes.length =
        pending.length + 8 * (bytes.length + 1) by omega]

/-! ### Compressing -/

/-- The bytes of a number from place `k` on. -/
theorem shiftLeft_or_byte (g k : ℕ) :
    (g / 2 ^ (8 * (k + 1))) <<< (8 * (k + 1)) ||| (g / 2 ^ (8 * k) % 2 ^ 8) <<< (8 * k) =
      (g / 2 ^ (8 * k)) <<< (8 * k) := by
  refine eq_of_testBit_eq fun i => ?_
  simp only [testBit_or, testBit_shiftLeft, testBit_mod_two_pow, testBit_div_two_pow]
  by_cases h₁ : 8 * k ≤ i
  · by_cases h₂ : 8 * (k + 1) ≤ i
    · rw [Nat.sub_add_cancel h₂, Nat.sub_add_cancel h₁]
      simp only [ge_iff_le, h₁, h₂, decide_true, Bool.true_and]
      cases g.testBit i <;> simp
    · have hlow : i - 8 * k < 8 := by omega
      simp [h₁, h₂, hlow]
  · have h₂ : ¬ 8 * (k + 1) ≤ i := by omega
    simp [h₁, h₂]

theorem getD_bigEndian {w x : ℕ} (hx : x < w) (g : ℕ) (rest : Bytes) :
    (bigEndian w g ++ rest).getD x 0 = UInt8.ofNat (g / 256 ^ (w - x - 1)) := by
  have hlen : x < (bigEndian w g).length := by rwa [length_bigEndian]
  rw [getD_eq_getElem?_getD, getElem?_append_left hlen, bigEndian_eq_map,
    getElem?_map, getElem?_range hx]
  rfl

/-- One byte of an element, put at its place. -/
theorem toNat_placed_byte (hbl : bl ≤ 26) (hg : g < 2 ^ bl)
    (hk : k < (bl + 7) / 8) :
    (((UInt8.ofNat (g / 256 ^ k)).toUInt32 &&& ((bitLenMask bl >>> UInt32.ofNat (8 * k)) &&& 0xFF))
      <<< UInt32.ofNat (8 * k)).toNat = (g / 2 ^ (8 * k) % 2 ^ 8) <<< (8 * k) := by
  have h256 : (256 : ℕ) ^ k = 2 ^ (8 * k) := by rw [show (256 : ℕ) = 2 ^ 8 from rfl, ← pow_mul]
  have hmask : g / 2 ^ (8 * k) % 2 ^ 8 &&& ((2 ^ bl - 1) / 2 ^ (8 * k) &&& (2 ^ 8 - 1)) =
      g / 2 ^ (8 * k) % 2 ^ 8 := by
    refine eq_of_testBit_eq fun i => ?_
    simp only [testBit_and, testBit_mod_two_pow, testBit_div_two_pow, testBit_two_pow_sub_one]
    by_cases h₁ : i < 8
    · by_cases h₂ : i + 8 * k < bl
      · simp [h₁, h₂]
      · have hzero : g.testBit (i + 8 * k) = false :=
          Nat.testBit_lt_two_pow (hg.trans_le (Nat.pow_le_pow_right (by decide) (by omega)))
        simp [hzero]
    · simp [h₁]
  have hsmall : g / 2 ^ (8 * k) % 2 ^ 8 * 2 ^ (8 * k) < 2 ^ 32 := by
    have hbyte : g / 2 ^ (8 * k) % 2 ^ 8 < 2 ^ 8 := mod_lt _ (by decide)
    have hpow : 2 ^ 8 * 2 ^ (8 * k) ≤ 2 ^ 32 := by
      rw [← pow_add]
      exact Nat.pow_le_pow_right (by decide) (by omega)
    exact (Nat.mul_lt_mul_of_pos_right hbyte (Nat.pow_pos (by decide))).trans_le hpow
  rw [toNat_shiftLeft_ofNat (by omega), UInt32.toNat_and, UInt32.toNat_and, UInt8.toNat_toUInt32,
    UInt8.toNat_ofNat', toNat_shiftRight_ofNat (by omega), toNat_bitLenMask (by omega), h256]
  rw [show UInt32.toNat 0xFF = 2 ^ 8 - 1 from rfl, hmask, shiftLeft_eq, mod_eq_of_lt hsmall]

/-- An element is read behind what the accumulator held. -/
theorem toNat_readElement (hbl : bl ≤ 26) (hg : g < 2 ^ bl) (pad : ℕ) (acc : UInt32)
    (rest : Bytes) :
    (readElement bl pad ((bl + 7) / 8 + pad) acc
      (bigEndian ((bl + 7) / 8 + pad) g ++ rest)).toNat = acc.toNat * 2 ^ bl % 2 ^ 32 + g := by
  obtain ⟨w, hw⟩ : ∃ w, w = (bl + 7) / 8 := ⟨_, rfl⟩
  -- after `m` bytes, the number is there from place `w - m` on
  have hfold : ∀ m ≤ w, ((range' pad m).foldl (fun acc_value x =>
      acc_value ||| ((((bigEndian (w + pad) g ++ rest).getD x 0).toUInt32 &&&
          ((bitLenMask bl >>> UInt32.ofNat (8 * (w + pad - x - 1))) &&& 0xFF))
        <<< UInt32.ofNat (8 * (w + pad - x - 1)))) (acc <<< UInt32.ofNat bl)).toNat =
      acc.toNat * 2 ^ bl % 2 ^ 32 ||| (g / 2 ^ (8 * (w - m))) <<< (8 * (w - m)) := by
    intro m hm
    induction m with
    | zero =>
      have hzero : g / 2 ^ (8 * (w - 0)) = 0 :=
        Nat.div_eq_of_lt (hg.trans_le (Nat.pow_le_pow_right (by decide) (by omega)))
      rw [range'_zero, foldl_nil, toNat_shiftLeft_ofNat (by omega), hzero, zero_shiftLeft, or_zero]
    | succ m ih =>
      have hplace : w + pad - (pad + 1 * m) - 1 = w - (m + 1) := by omega
      have hnext : w - m = w - (m + 1) + 1 := by omega
      rw [range'_concat, foldl_append, foldl_cons, foldl_nil, UInt32.toNat_or,
        ih (by omega), getD_bigEndian (by omega), hplace,
        toNat_placed_byte hbl hg (by omega), hnext, Nat.or_assoc, shiftLeft_or_byte]
  rw [readElement, ← hw, Nat.add_sub_cancel, hfold w le_rfl, Nat.sub_self, Nat.mul_zero, pow_zero,
    Nat.div_one, Nat.shiftLeft_zero]
  have hdvd : 2 ^ bl ∣ acc.toNat * 2 ^ bl % 2 ^ 32 :=
    (dvd_mod_iff (pow_dvd_pow 2 (by omega))).2 (dvd_mul_left _ _)
  obtain ⟨q, hq⟩ := hdvd
  rw [hq, two_pow_add_eq_or_of_lt hg]

theorem Holds.read {acc acc' : UInt32} (h : Holds bl acc pending)
    (hg : g < 2 ^ bl) (hlen : pending.length + bl ≤ 32)
    (hacc : acc'.toNat = acc.toNat * 2 ^ bl % 2 ^ 32 + g) :
    Holds bl acc' (pending ++ bits bl g) := by
  refine ⟨?_, fun h26 => ?_⟩
  · have hpow : 2 ^ (pending.length + bl) ∣ 2 ^ 32 := pow_dvd_pow 2 hlen
    have hlow : (acc.toNat * 2 ^ bl % 2 ^ 32 + g) % 2 ^ (pending.length + bl) =
        (acc.toNat * 2 ^ bl + g) % 2 ^ (pending.length + bl) := by
      rw [add_mod, mod_mod_of_dvd _ hpow, ← add_mod]
    rw [hacc, length_append, length_bits, hlow, value_append, value_bits, length_bits,
      mod_eq_of_lt hg, ← h.1, add_comm pending.length, pow_add, mod_mul,
      mul_comm acc.toNat, mul_add_mod, mod_eq_of_lt hg,
      Nat.mul_add_div (Nat.pow_pos (by decide)), Nat.div_eq_of_lt hg, Nat.add_zero]
    ring
  · have heven := h.2 h26
    rw [length_append, length_bits]
    omega

theorem Holds.lowByte (h : Holds bl acc pending)
    (hge : 8 ≤ pending.length) (hle : pending.length ≤ 32) :
    ((acc >>> UInt32.ofNat (pending.length - 8)) &&& 0xFF).toUInt8 =
      UInt8.ofNat (value (pending.take 8)) := by
  apply UInt8.toNat_inj.1
  rw [UInt32.toNat_toUInt8, UInt32.toNat_and, toNat_shiftRight_ofNat (by omega), UInt8.toNat_ofNat',
    ← h.take hge, show UInt32.toNat 0xFF = 2 ^ 8 - 1 from rfl, and_two_pow_sub_one_eq_mod]

/-- **`CompressArray` writes the bits of the elements in bytes.** -/
theorem compressLoop_eq (hbl : Widths bl) (pad : ℕ) {gs : List ℕ}
    (hgs : ∀ g ∈ gs, g < 2 ^ bl)
    (h : Holds bl acc pending) (hle : pending.length ≤ 32)
    (hn : 8 * n ≤ pending.length + bl * gs.length) :
    compressLoop bl pad ((bl + 7) / 8 + pad) n pending.length acc
        (gs.flatMap (bigEndian ((bl + 7) / 8 + pad))) =
      (chunks 8 n (pending ++ gs.flatMap (bits bl))).map fun c => UInt8.ofNat (value c) := by
  obtain ⟨hge, hfits⟩ := hbl
  induction n generalizing gs acc pending with
  | zero => rfl
  | succ n ih =>
    -- one byte is taken from the front of what is held
    have hbyte : ∀ {acc : UInt32} {held : List Bool} {gs : List ℕ}, (∀ g ∈ gs, g < 2 ^ bl) →
        Holds bl acc held → 8 ≤ held.length → held.length ≤ 32 →
        8 * (n + 1) ≤ held.length + bl * gs.length →
        ((acc >>> UInt32.ofNat (held.length - 8)) &&& 0xFF).toUInt8 ::
          compressLoop bl pad ((bl + 7) / 8 + pad) n (held.length - 8) acc
            (gs.flatMap (bigEndian ((bl + 7) / 8 + pad))) =
        (chunks 8 (n + 1) (held ++ gs.flatMap (bits bl))).map fun c => UInt8.ofNat (value c) := by
      intro acc held gs hgs hheld hlow hhigh hcount
      have hrest := ih hgs (hheld.drop (k := 8) (by omega) hlow) (by rw [length_drop]; omega)
        (by rw [length_drop]; omega)
      have hfront : (held ++ gs.flatMap (bits bl)).take 8 = held.take 8 :=
        take_append_of_le_length hlow
      have hback : (held ++ gs.flatMap (bits bl)).drop 8 = held.drop 8 ++ gs.flatMap (bits bl) :=
        drop_append_of_le_length hlow
      rw [length_drop] at hrest
      rw [hheld.lowByte hlow hhigh, hrest, chunks, map_cons, hfront, hback]
    rw [compressLoop]
    split_ifs with hfew hempty
    · cases gs with
      | nil => exact absurd rfl hempty
      | cons g gs =>
        obtain ⟨hg, hgs⟩ := forall_mem_cons.1 hgs
        have heven := h.2
        have hread := h.read hg (by omega) (toNat_readElement (by omega) hg pad acc
          (gs.flatMap (bigEndian ((bl + 7) / 8 + pad))))
        have hlen : (pending ++ bits bl g).length = pending.length + bl := by simp
        have hrest := hbyte hgs hread (by omega) (by omega)
          (by rw [length_cons, mul_succ bl] at hn; omega)
        rw [hlen] at hrest
        rw [flatMap_cons, flatMap_cons, ← append_assoc, ← hrest, drop_left' (length_bigEndian _ _)]
    · exfalso
      cases gs with
      | nil =>
        rw [length_nil, mul_zero] at hn
        omega
      | cons g gs =>
        have hnil := congrArg List.length (not_not.1 hempty)
        rw [flatMap_cons, length_append, length_bigEndian, length_nil] at hnil
        omega
    · exact hbyte hgs h (by omega) hle hn

/-! ### Indices -/

def ehIndexToArray (i : ℕ) : Bytes := bigEndian 4 i

/-- `ArrayToEhIndex`, of the first four bytes. -/
def arrayToEhIndex (array : Bytes) : ℕ := value (arrayBits (array.take 4))

/-- `GetIndicesFromMinimal`, unless an assertion fails. -/
def getIndicesFromMinimal (minimal : Bytes) (cBitLen : ℕ) : Option (List ℕ) :=
  let lenIndices := 8 * 4 * minimal.length / (cBitLen + 1)
  if (cBitLen + 1 + 7) / 8 ≤ 4 then
    (expandArray minimal lenIndices (cBitLen + 1) (4 - (cBitLen + 1 + 7) / 8)).map fun array =>
      (List.range ((lenIndices + 3) / 4)).map fun i => arrayToEhIndex (array.drop (4 * i))
  else none

/-- `GetMinimalFromIndices`, unless an assertion fails. -/
def getMinimalFromIndices (indices : List ℕ) (cBitLen : ℕ) : Option Bytes :=
  let lenIndices := indices.length * 4
  if (cBitLen + 1 + 7) / 8 ≤ 4 then
    compressArray (indices.flatMap ehIndexToArray) ((cBitLen + 1) * lenIndices / (8 * 4))
      (cBitLen + 1) (4 - (cBitLen + 1 + 7) / 8)
  else none

theorem arrayBits_append (bytes bytes' : Bytes) :
    arrayBits (bytes ++ bytes') = arrayBits bytes ++ arrayBits bytes' := flatMap_append

theorem arrayBits_bigEndian (w n : ℕ) : arrayBits (bigEndian w n) = bits (8 * w) n := by
  induction w generalizing n with
  | zero => rfl
  | succ w ih =>
    have hlast : arrayBits [UInt8.ofNat n] = bits 8 n := by
      rw [arrayBits, flatMap_singleton, UInt8.toNat_ofNat', bits_mod _ _ _ le_rfl]
    rw [bigEndian, arrayBits_append, ih, hlast, mul_succ, bits_add]
    rfl

theorem arrayToEhIndex_bigEndian {v : ℕ} (h : v < 2 ^ 32) : arrayToEhIndex (bigEndian 4 v) = v := by
  have htake : (bigEndian 4 v).take 4 = bigEndian 4 v := take_of_length_le (by simp)
  rw [arrayToEhIndex, htake, arrayBits_bigEndian, value_bits, mod_eq_of_lt h]

theorem ofNat_value_chunks (bytes : Bytes) :
    (chunks 8 bytes.length (arrayBits bytes)).map (fun c => UInt8.ofNat (value c)) = bytes := by
  have hlt : ∀ n ∈ bytes.map UInt8.toNat, n < 2 ^ 8 := by
    intro n hn
    obtain ⟨b, -, rfl⟩ := mem_map.1 hn
    exact b.toNat_lt
  have hread := value_chunks_bits hlt
  rw [length_map, flatMap_map] at hread
  have hmap := congrArg (map UInt8.ofNat) hread
  rw [map_map, map_map] at hmap
  refine hmap.trans ((map_congr_left fun b _ => ?_).trans (map_id _))
  rw [Function.comp_apply, UInt8.ofNat_toNat, id]

theorem arrayBits_ofNat_value {bs : List Bool} (h : 8 * n ≤ bs.length) :
    arrayBits ((chunks 8 n bs).map fun c => UInt8.ofNat (value c)) = bs.take (8 * n) := by
  rw [← bits_value_chunks h, arrayBits, flatMap_map, flatMap_map]
  refine congrArg (fun f => (chunks 8 n bs).flatMap f) (funext fun c => ?_)
  rw [UInt8.toNat_ofNat', bits_mod _ _ _ le_rfl]

section indices
variable {cBitLen : ℕ}

theorem holds_nil (bl : ℕ) : Holds bl 0 [] := ⟨Nat.mod_one _, fun _ => rfl⟩

/-- `GetIndicesFromMinimal` takes the bits in groups. -/
theorem getIndicesFromMinimal_eq (hbl : Widths (cBitLen + 1)) {minimal : Bytes} {n : ℕ}
    (hn : 8 * minimal.length = (cBitLen + 1) * n) :
    getIndicesFromMinimal minimal cBitLen =
      some ((chunks (cBitLen + 1) n (arrayBits minimal)).map value) := by
  obtain ⟨hge, hfits⟩ := hbl
  have hlen : 8 * 4 * minimal.length / (cBitLen + 1) = 4 * n := by
    have hbits : 8 * 4 * minimal.length = (cBitLen + 1) * (4 * n) := by
      rw [mul_left_comm, ← hn]
      omega
    rw [hbits, Nat.mul_div_cancel_left _ (by omega)]
  have hwidth : (cBitLen + 1 + 7) / 8 + (4 - (cBitLen + 1 + 7) / 8) = 4 := by omega
  have hloop := expandLoop_eq ⟨hge, hfits⟩ (4 - (cBitLen + 1 + 7) / 8) minimal
    (holds_nil (cBitLen + 1)) (by rw [length_nil]; omega)
  rw [hwidth, length_nil, Nat.zero_add, hn, Nat.mul_div_cancel_left _ (by omega),
    nil_append] at hloop
  have hvalue : ∀ g ∈ chunks (cBitLen + 1) n (arrayBits minimal), value g < 2 ^ 32 := by
    intro g hg
    have hglen := length_of_mem_chunks (by rw [length_arrayBits, hn]) hg
    exact (value_lt g).trans_le (Nat.pow_le_pow_right (by decide) (by omega))
  have hfour : ∀ l ∈ (chunks (cBitLen + 1) n (arrayBits minimal)).map
      fun g => bigEndian 4 (value g), l.length = 4 := by simp
  have hchunks := chunks_flatten hfour
  rw [length_map, length_chunks, chunks_eq_map_range] at hchunks
  have hindex : ∀ array : Bytes, arrayToEhIndex (array.take 4) = arrayToEhIndex array := by
    intro array
    rw [arrayToEhIndex, arrayToEhIndex, take_take, min_self]
  have hread : ∀ array : Bytes, array = ((chunks (cBitLen + 1) n (arrayBits minimal)).map
      fun g => bigEndian 4 (value g)).flatten →
      ((range n).map fun i => arrayToEhIndex (array.drop (4 * i))) =
        (chunks (cBitLen + 1) n (arrayBits minimal)).map value := by
    rintro array rfl
    have hmap := congrArg (map arrayToEhIndex) hchunks
    simp only [map_map, Function.comp_def, hindex] at hmap
    rw [hmap]
    exact map_congr_left fun g hg => arrayToEhIndex_bigEndian (hvalue g hg)
  rw [getIndicesFromMinimal, if_pos (by omega), expandArray, hwidth, if_pos ⟨hge, by omega, rfl⟩,
    hloop, Option.map_some, hlen, show (4 * n + 3) / 4 = n by omega, hread _ flatMap_def]

/-- `GetMinimalFromIndices` writes the groups one after the other. -/
theorem getMinimalFromIndices_eq (hbl : Widths (cBitLen + 1)) {indices : List ℕ} {m : ℕ}
    (hm : 8 * m = (cBitLen + 1) * indices.length) (hlt : ∀ i ∈ indices, i < 2 ^ (cBitLen + 1)) :
    getMinimalFromIndices indices cBitLen =
      some ((chunks 8 m (indices.flatMap (bits (cBitLen + 1)))).map
        fun c => UInt8.ofNat (value c)) := by
  obtain ⟨hge, hfits⟩ := hbl
  have hlen : (cBitLen + 1) * (indices.length * 4) / (8 * 4) = m := by
    have hbits : (cBitLen + 1) * (indices.length * 4) = m * (8 * 4) := by
      rw [← mul_assoc, ← hm]
      omega
    rw [hbits, Nat.mul_div_cancel _ (by decide)]
  have hwidth : (cBitLen + 1 + 7) / 8 + (4 - (cBitLen + 1 + 7) / 8) = 4 := by omega
  have hbytes : (indices.flatMap ehIndexToArray).length = indices.length * 4 := by
    rw [length_flatMap]
    simp [ehIndexToArray]
  have hout : m = ((cBitLen + 1) * (indices.length * 4) / 4 + 7) / 8 := by
    rw [← Nat.mul_assoc, Nat.mul_div_cancel _ (by decide), ← hm]
    omega
  have hloop := compressLoop_eq ⟨hge, hfits⟩ (4 - (cBitLen + 1 + 7) / 8) hlt
    (holds_nil (cBitLen + 1)) (by simp) (n := m) (by rw [length_nil]; omega)
  rw [hwidth, length_nil, nil_append] at hloop
  rw [getMinimalFromIndices, if_pos (by omega), hlen, compressArray, hwidth, hbytes,
    if_pos ⟨hge, by omega, hout⟩]
  exact congrArg some hloop

/-- **The indices of a minimal solution are found again.** -/
theorem getIndices_getMinimal (hbl : Widths (cBitLen + 1)) {indices : List ℕ} {m : ℕ}
    (hm : 8 * m = (cBitLen + 1) * indices.length) (hlt : ∀ i ∈ indices, i < 2 ^ (cBitLen + 1)) :
    ∃ minimal, getMinimalFromIndices indices cBitLen = some minimal ∧ minimal.length = m ∧
      getIndicesFromMinimal minimal cBitLen = some indices := by
  have hlen : (indices.flatMap (bits (cBitLen + 1))).length = 8 * m := by
    rw [length_flatMap]
    simp [hm, mul_comm]
  refine ⟨_, getMinimalFromIndices_eq hbl hm hlt, by simp, ?_⟩
  rw [getIndicesFromMinimal_eq (n := indices.length) hbl (by simpa using hm),
    arrayBits_ofNat_value (by rw [hlen]), take_of_length_le (by rw [hlen]), value_chunks_bits hlt]

/-- **A minimal solution is written again from its indices.** -/
theorem getMinimal_getIndices (hbl : Widths (cBitLen + 1)) {minimal : Bytes} {n : ℕ}
    (hn : 8 * minimal.length = (cBitLen + 1) * n) :
    ∃ indices, getIndicesFromMinimal minimal cBitLen = some indices ∧ indices.length = n ∧
      (∀ i ∈ indices, i < 2 ^ (cBitLen + 1)) ∧
      getMinimalFromIndices indices cBitLen = some minimal := by
  have hbits : (cBitLen + 1) * n ≤ (arrayBits minimal).length := by rw [length_arrayBits, hn]
  have hlt : ∀ i ∈ (chunks (cBitLen + 1) n (arrayBits minimal)).map value,
      i < 2 ^ (cBitLen + 1) := by
    intro i hi
    obtain ⟨g, hg, rfl⟩ := mem_map.1 hi
    have hglen := length_of_mem_chunks hbits hg
    have hvalue := value_lt g
    rwa [hglen] at hvalue
  refine ⟨_, getIndicesFromMinimal_eq hbl hn, by simp, hlt, ?_⟩
  rw [getMinimalFromIndices_eq (m := minimal.length) hbl (by simpa using hn) hlt,
    bits_value_chunks hbits, take_of_length_le (by rw [length_arrayBits, hn]), ofNat_value_chunks]

end indices

end Equihash
end Komodo
