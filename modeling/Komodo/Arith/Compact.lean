/-
# Compact numbers and the proof of a block

`arith_uint256` with `SetCompact` and `GetCompact` of `src/src/arith_uint256.cpp`, and
`GetBlockProof` of `src/src/pow.cpp`.

The compact form of a number has its size in bytes in the highest byte, a sign bit, and the mantissa
in the 23 bits below.  `SetCompact` gives `number` of these, says when that does not fit 256 bits
(`setCompact_spec`), and `GetCompact` gives the normal form (`getCompact_spec`).

The proof of a block is `2^256 / (target + 1)` although `2^256` does not fit, and neither
`target + 1` nor the quotient wraps (`getBlockProof_spec`).
-/

import Komodo.Arith.BaseUint
import Komodo.Lib.ByteExponent

namespace Komodo

open ByteExponent Nat List

abbrev ArithUint256 := BaseUint 8

namespace ArithUint256

open BaseUint

/-- `base_uint(uint64_t)`. -/
def ofUInt64 (b : UInt64) : ArithUint256 :=
  ⟨b.toUInt32 :: (b >>> 32).toUInt32 :: List.replicate 6 0, rfl⟩

def getLow64 (a : ArithUint256) : UInt64 :=
  (a.pn.getD 0 0).toUInt64 ||| ((a.pn.getD 1 0).toUInt64 <<< 32)

def equalTo (a : ArithUint256) (b : UInt64) : Bool :=
  (a.pn.drop 2).all (· = 0) && (a.pn.getD 1 0).toUInt64 = b >>> 32
    && (a.pn.getD 0 0).toUInt64 = b &&& 0xffffffff

/-! ### Words -/

theorem value_ofUInt64 (b : UInt64) : (ofUInt64 b).value = b.toNat := by
  have hhigh : (b >>> 32).toNat = b.toNat / 2 ^ 32 := by
    rw [UInt64.toNat_shiftRight, shiftRight_eq_div_pow]
    rfl
  have hb := b.toNat_lt
  rw [value, ofUInt64, Limbs.value, Limbs.value, Limbs.value_replicate_zero, UInt64.toNat_toUInt32,
    UInt64.toNat_toUInt32, hhigh]
  omega

theorem exists_pn (a : ArithUint256) : ∃ x y rest, a.pn = x :: y :: rest ∧ rest.length = 6 := by
  obtain ⟨pn, hlength⟩ := a
  match pn, hlength with
  | x :: y :: rest, hlength =>
    refine ⟨x, y, rest, rfl, ?_⟩
    rw [length_cons, length_cons] at hlength
    omega

theorem toNat_getLow64 (a : ArithUint256) : (getLow64 a).toNat = a.value % 2 ^ 64 := by
  obtain ⟨x, y, rest, hpn, -⟩ := exists_pn a
  have hx := x.toNat_lt
  have hy := y.toNat_lt
  have hshift : (y.toUInt64 <<< 32).toNat = y.toNat <<< 32 := by
    rw [UInt64.toNat_shiftLeft, UInt32.toNat_toUInt64]
    show y.toNat <<< 32 % 2 ^ 64 = _
    rw [shiftLeft_eq, mod_eq_of_lt (by omega)]
  rw [getLow64, value, hpn, getD_cons_zero, getD_cons_succ, getD_cons_zero,
    UInt64.toNat_or, hshift, UInt32.toNat_toUInt64, Nat.or_comm, ← Nat.shiftLeft_add_eq_or_of_lt hx,
    Limbs.value, Limbs.value, shiftLeft_eq]
  omega

theorem value_eq_zero {pn : List UInt32} : pn.all (· = 0) = true ↔ Limbs.value pn = 0 := by
  induction pn with
  | nil => simp [Limbs.value]
  | cons x pn ih =>
    rw [all_cons, Bool.and_eq_true, ih, decide_eq_true_iff, Limbs.value, ← UInt32.toNat_inj,
      UInt32.toNat_zero]
    omega

theorem equalTo_iff (a : ArithUint256) (b : UInt64) : equalTo a b = true ↔ a.value = b.toNat := by
  obtain ⟨x, y, rest, hpn, -⟩ := exists_pn a
  have hx := x.toNat_lt
  have hy := y.toNat_lt
  have hb := b.toNat_lt
  have hhigh : (b >>> 32).toNat = b.toNat / 2 ^ 32 := by
    rw [UInt64.toNat_shiftRight, shiftRight_eq_div_pow]
    rfl
  have hlow : (b &&& 0xffffffff).toNat = b.toNat % 2 ^ 32 := by
    rw [UInt64.toNat_and]
    exact and_two_pow_sub_one_eq_mod _ 32
  rw [equalTo, value, hpn, getD_cons_zero, getD_cons_succ, getD_cons_zero,
    Bool.and_eq_true, Bool.and_eq_true, decide_eq_true_iff, decide_eq_true_iff, drop_succ_cons,
    drop_succ_cons, drop_zero, value_eq_zero, ← UInt64.toNat_inj, ← UInt64.toNat_inj,
    UInt32.toNat_toUInt64, UInt32.toNat_toUInt64, hhigh, hlow, Limbs.value, Limbs.value]
  omega

/-! ### Compact form -/

/-- `SetCompact`: the number, whether it is negative, and whether it overflows. -/
def setCompact (nCompact : UInt32) : ArithUint256 × Bool × Bool :=
  let nSize := (nCompact >>> 24).toNat
  let nWord := nCompact &&& 0x007fffff
  let nWord := if nSize ≤ 3 then nWord >>> UInt32.ofNat (8 * (3 - nSize)) else nWord
  let number := ofUInt64 nWord.toUInt64
  let number := if nSize ≤ 3 then number else number.shl (8 * (nSize - 3))
  let fNegative := nWord ≠ 0 ∧ nCompact &&& 0x00800000 ≠ 0
  let fOverflow := nWord ≠ 0 ∧
    (nSize > 34 ∨ (nWord > 0xff ∧ nSize > 33) ∨ (nWord > 0xffff ∧ nSize > 32))
  (number, fNegative, fOverflow)

/-- `GetCompact`; `none` where one of its assertions fails. -/
def getCompact (a : ArithUint256) (fNegative : Bool) : Option UInt32 :=
  let nSize := (a.bits + 7) / 8
  let nCompact :=
    if nSize ≤ 3 then (getLow64 a <<< UInt64.ofNat (8 * (3 - nSize))).toUInt32
    else (getLow64 (a.shr (8 * (nSize - 3)))).toUInt32
  let (nCompact, nSize) :=
    if nCompact &&& 0x00800000 ≠ 0 then (nCompact >>> 8, nSize + 1) else (nCompact, nSize)
  if nCompact &&& ~~~0x007fffff ≠ 0 ∨ ¬ nSize < 256 then none
  else
    let nCompact := nCompact ||| UInt32.ofNat nSize <<< 24
    let sign : UInt32 := if fNegative ∧ nCompact &&& 0x007fffff ≠ 0 then 0x00800000 else 0
    some (nCompact ||| sign)

/-- The size in bytes of a compact form. -/
def compactSize (nCompact : UInt32) : ℕ := nCompact.toNat / 2 ^ 24

/-- Its mantissa. -/
def compactWord (nCompact : UInt32) : ℕ := nCompact.toNat % 2 ^ 23

/-- Its sign bit. -/
def compactSign (nCompact : UInt32) : Bool := nCompact.toNat.testBit 23

theorem toNat_word (c : UInt32) : (c &&& 0x007fffff).toNat = c.toNat % 2 ^ 23 := by
  rw [UInt32.toNat_and]
  exact and_two_pow_sub_one_eq_mod _ 23

theorem sign_ne_zero (c : UInt32) : c &&& 0x00800000 ≠ 0 ↔ compactSign c = true := by
  rw [Ne, ← UInt32.toNat_inj, UInt32.toNat_and, compactSign]
  show ¬ c.toNat &&& 2 ^ 23 = 0 ↔ _
  rw [and_two_pow]
  cases c.toNat.testBit 23 <;> simp

theorem toNat_size (c : UInt32) : (c >>> 24).toNat = compactSize c := by
  rw [UInt32.toNat_shiftRight, compactSize, shiftRight_eq_div_pow]
  rfl

/-- The three places where a mantissa does not fit any more. -/
theorem overflow_iff {M e : ℕ} (hM : M < 2 ^ 23) :
    256 ^ 32 ≤ M * 256 ^ e ↔ M ≠ 0 ∧ (e > 31 ∨ (M > 0xff ∧ e > 30) ∨ (M > 0xffff ∧ e > 29)) := by
  have hpow : ∀ k, 0 < 256 ^ k := fun k => Nat.pow_pos (by decide)
  rcases lt_or_ge e 30 with he | he
  · have hlt : M * 256 ^ e < 256 ^ 3 * 256 ^ 29 :=
      Nat.mul_lt_mul_of_lt_of_le (by omega) (Nat.pow_le_pow_right (by decide) (by omega)) (hpow 29)
    rw [← pow_add] at hlt
    exact iff_of_false (not_le.2 hlt) (by omega)
  obtain ⟨d, rfl⟩ := Nat.exists_eq_add_of_le he
  have hsplit : M * 256 ^ (30 + d) = M * 256 ^ d * 256 ^ 30 := by
    rw [pow_add]
    ring
  rw [show 256 ^ 32 = 256 ^ 2 * 256 ^ 30 from rfl, hsplit, Nat.mul_le_mul_right_iff (hpow 30)]
  rcases lt_or_ge d 2 with hd | hd
  · interval_cases d <;> omega
  · have hle : M * 256 ^ 2 ≤ M * 256 ^ d :=
      Nat.mul_le_mul_left _ (Nat.pow_le_pow_right (by decide) hd)
    constructor
    · intro h
      refine ⟨?_, by omega⟩
      rintro rfl
      rw [zero_mul] at h
      omega
    · rintro ⟨hne, -⟩
      omega

theorem setCompact_spec (c : UInt32) :
    (setCompact c).1.value = number (compactSize c) (compactWord c) % 2 ^ 256 ∧
    (setCompact c).2.1 = (compactSign c ∧ number (compactSize c) (compactWord c) ≠ 0 : Bool) ∧
    (setCompact c).2.2 = decide (2 ^ 256 ≤ number (compactSize c) (compactWord c)) := by
  have hM : compactWord c < 2 ^ 23 := mod_lt _ (by decide)
  have hne : ∀ w : UInt32, w ≠ 0 ↔ w.toNat ≠ 0 := fun w => by
    rw [Ne, ← UInt32.toNat_inj, UInt32.toNat_zero]
  unfold setCompact
  dsimp only
  rw [toNat_size]
  by_cases hS : compactSize c ≤ 3
  · have hword : ((c &&& 0x007fffff) >>> UInt32.ofNat (8 * (3 - compactSize c))).toNat =
        number (compactSize c) (compactWord c) := by
      rw [(toNat_shift (by omega) _).2, toNat_word, shiftRight_eq_div_pow, pow_mul, number_of_le hS]
      rfl
    have hlt : number (compactSize c) (compactWord c) < 2 ^ 256 := by
      rw [number_of_le hS]
      exact (div_le_self _ _).trans_lt (hM.trans (by decide))
    rw [if_pos hS, if_pos hS]
    refine ⟨?_, decide_eq_decide.2 ?_, decide_eq_decide.2 ?_⟩
    · rw [value_ofUInt64, UInt32.toNat_toUInt64, hword, mod_eq_of_lt hlt]
    · rw [hne, hword, sign_ne_zero, and_comm]
    · exact iff_of_false (by omega) (not_le.2 hlt)
  · have hnumber := number_of_ge (M := compactWord c) (show 3 ≤ compactSize c by omega)
    have hword : (c &&& 0x007fffff).toNat = compactWord c := toNat_word c
    have hzero : number (compactSize c) (compactWord c) ≠ 0 ↔ compactWord c ≠ 0 := by
      rw [hnumber, mul_ne_zero_iff]
      exact and_iff_left (Nat.pow_pos (by decide)).ne'
    rw [if_neg hS, if_neg hS]
    refine ⟨?_, decide_eq_decide.2 ?_, decide_eq_decide.2 ?_⟩
    · rw [value_shl, value_ofUInt64, UInt32.toNat_toUInt64, hword, pow_mul, hnumber]
      rfl
    · rw [hne, hword, hzero, sign_ne_zero, and_comm]
    · have hone : c &&& 0x007fffff > 0xff ↔ compactWord c > 0xff := by
        rw [gt_iff_lt, UInt32.lt_iff_toNat_lt, hword]
        rfl
      have htwo : c &&& 0x007fffff > 0xffff ↔ compactWord c > 0xffff := by
        rw [gt_iff_lt, UInt32.lt_iff_toNat_lt, hword]
        rfl
      rw [hne, hnumber, show 2 ^ 256 = 256 ^ 32 from rfl, overflow_iff hM, hword, hone, htwo]
      omega

theorem bytes_spec (v : ℕ) : v < 256 ^ ((v.size + 7) / 8) ∧
    (v ≠ 0 → 0 < (v.size + 7) / 8 ∧ 256 ^ ((v.size + 7) / 8 - 1) ≤ v) ∧
    (v = 0 → (v.size + 7) / 8 = 0) := by
  refine ⟨?_, fun hv => ?_, ?_⟩
  · calc v < 2 ^ v.size := lt_size_self v
      _ ≤ 2 ^ (8 * ((v.size + 7) / 8)) := Nat.pow_le_pow_right (by decide) (by omega)
      _ = 256 ^ ((v.size + 7) / 8) := pow_mul 2 8 _
  · have hpos : 0 < v.size := size_pos.2 (pos_of_ne_zero hv)
    refine ⟨by omega, ?_⟩
    calc 256 ^ ((v.size + 7) / 8 - 1) = 2 ^ (8 * ((v.size + 7) / 8 - 1)) := (pow_mul 2 8 _).symm
      _ ≤ v := lt_size.1 (by omega)
  · rintro rfl
    rfl

/-- The three highest bytes, before the sign bit is looked at. -/
theorem toNat_highBytes (a : ArithUint256) {n : ℕ} (hn : n = (a.bits + 7) / 8) :
    (if n ≤ 3 then (getLow64 a <<< UInt64.ofNat (8 * (3 - n))).toUInt32
      else (getLow64 (a.shr (8 * (n - 3)))).toUInt32).toNat = a.value * 256 ^ 3 / 256 ^ n := by
  have hlt : a.value < 256 ^ n := by
    rw [hn, bits_eq]
    exact (bytes_spec _).1
  split_ifs with hle
  · have hsplit : 256 ^ 3 = 256 ^ (3 - n) * 256 ^ n := by rw [← pow_add, Nat.sub_add_cancel hle]
    have hsmall : a.value < 256 ^ 3 := hlt.trans_le (Nat.pow_le_pow_right (by decide) hle)
    have hproduct : a.value * 256 ^ (3 - n) < 256 ^ 3 := by
      rw [hsplit, mul_comm]
      exact Nat.mul_lt_mul_of_pos_left hlt (Nat.pow_pos (by decide))
    have hshift : (UInt64.ofNat (8 * (3 - n))).toNat = 8 * (3 - n) := by
      rw [UInt64.toNat_ofNat']
      exact mod_eq_of_lt (by omega)
    have hpow : 2 ^ (8 * (3 - n)) = 256 ^ (3 - n) := pow_mul 2 8 _
    rw [UInt64.toNat_toUInt32, UInt64.toNat_shiftLeft, hshift, toNat_getLow64,
      mod_eq_of_lt (show 8 * (3 - n) < 64 by omega), shiftLeft_eq,
      mod_eq_of_lt (hsmall.trans (by decide)), hpow,
      mod_eq_of_lt (hproduct.trans (by decide)), mod_eq_of_lt (hproduct.trans (by decide)),
      hsplit, ← Nat.mul_assoc, Nat.mul_div_cancel _ (Nat.pow_pos (by decide))]
  · obtain ⟨d, rfl⟩ := Nat.exists_eq_add_of_le (Nat.le_of_not_le hle)
    have hquotient : a.value / 256 ^ d < 256 ^ 3 := by
      rw [Nat.div_lt_iff_lt_mul (Nat.pow_pos (by decide)), ← pow_add]
      exact hlt
    have hpow : 2 ^ (8 * d) = 256 ^ d := pow_mul 2 8 _
    rw [Nat.add_sub_cancel_left, UInt64.toNat_toUInt32, toNat_getLow64, value_shr, hpow,
      mod_eq_of_lt (hquotient.trans (by decide)),
      Nat.mod_eq_of_lt (hquotient.trans (by decide)), pow_add, Nat.mul_comm (256 ^ 3), Nat.mul_div_mul_right _ _ (by decide)]

variable {c w : UInt32}

theorem compactSign_of_lt (hlt : w.toNat < 2 ^ 24) :
    compactSign w = true ↔ 2 ^ 23 ≤ w.toNat := by
  rw [compactSign, testBit_eq_decide_div_mod_eq, decide_eq_true_iff]
  omega

theorem and_not_eq_zero (hlt : w.toNat < 2 ^ 23) : w &&& ~~~0x007fffff = 0 := by
  have hself : w &&& 0x007fffff = w := by
    apply UInt32.toNat_inj.1
    rw [toNat_word, mod_eq_of_lt hlt]
  rw [← hself, UInt32.and_assoc, UInt32.and_not_self, UInt32.and_zero]

/-- The parts of a compact form that is put together. -/
theorem compact_or (hw : w.toNat < 2 ^ 23) {S : ℕ} (hS : S < 256) (sign : Bool) :
    (w ||| UInt32.ofNat S <<< 24 ||| (if sign then 0x00800000 else 0)).toNat =
      S * 2 ^ 24 + ((if sign then 2 ^ 23 else 0) + w.toNat) := by
  have hbytes : (UInt32.ofNat S <<< 24).toNat = S <<< 24 := by
    rw [UInt32.toNat_shiftLeft, UInt32.toNat_ofNat', show (24 : UInt32).toNat % 32 = 24 from rfl,
      mod_eq_of_lt (show S < 2 ^ 32 by omega), shiftLeft_eq, mod_eq_of_lt (by omega)]
  have hsign : (if sign then 0x00800000 else 0 : UInt32).toNat ||| w.toNat =
      (if sign then 2 ^ 23 else 0) + w.toNat := by
    cases sign with
    | false => rw [if_neg Bool.false_ne_true, if_neg Bool.false_ne_true, UInt32.toNat_zero,
        zero_or, zero_add]
    | true => exact (two_pow_add_eq_or_of_lt hw 1).symm
  have hlt : (if sign then 2 ^ 23 else 0) + w.toNat < 2 ^ 24 := by
    split_ifs <;> omega
  rw [UInt32.toNat_or, UInt32.toNat_or, hbytes, Nat.or_comm, ← Nat.or_assoc, hsign, Nat.or_comm,
    ← shiftLeft_add_eq_or_of_lt hlt, shiftLeft_eq]

theorem compact_parts {S M : ℕ} {sign : Bool} (hM : M < 2 ^ 23)
    (hc : c.toNat = S * 2 ^ 24 + ((if sign then 2 ^ 23 else 0) + M)) :
    compactSize c = S ∧ compactWord c = M ∧ compactSign c = sign := by
  rw [compactSize, compactWord, compactSign, testBit_eq_decide_div_mod_eq, hc]
  cases sign with
  | false =>
    rw [if_neg Bool.false_ne_true]
    exact ⟨by omega, by omega, decide_eq_false (by omega)⟩
  | true =>
    rw [if_pos rfl]
    exact ⟨by omega, by omega, decide_eq_true (by omega)⟩

/-- The end of `GetCompact`, from the size and the mantissa. -/
theorem compact_of_normal {v : ℕ} {S : ℕ} (h : Normal v S w.toNat) (hS : S < 256)
    (fNegative : Bool) :
    ∃ c, (if w &&& ~~~0x007fffff ≠ 0 ∨ ¬ S < 256 then none
        else some (w ||| UInt32.ofNat S <<< 24 |||
          (if fNegative ∧ (w ||| UInt32.ofNat S <<< 24) &&& 0x007fffff ≠ 0 then 0x00800000
            else 0))) = some c ∧
      Normal v (compactSize c) (compactWord c) ∧
      compactSign c = (fNegative && compactWord c ≠ 0) := by
  obtain ⟨c, hc⟩ : ∃ c, w ||| UInt32.ofNat S <<< 24 = c := ⟨_, rfl⟩
  have hplain := compact_or h.lt hS false
  rw [if_neg Bool.false_ne_true, if_neg Bool.false_ne_true, UInt32.or_zero, hc] at hplain
  have hmantissa : c &&& 0x007fffff ≠ 0 ↔ w.toNat ≠ 0 := by
    rw [Ne, ← UInt32.toNat_inj, toNat_word, UInt32.toNat_zero, hplain, zero_add, mul_comm,
      show 2 ^ 24 = 2 ^ 23 * 2 from rfl, mul_assoc, mul_add_mod, mod_eq_of_lt h.lt]
  obtain ⟨sign, hsign⟩ : ∃ sign : Bool, (fNegative && w.toNat ≠ 0) = sign := ⟨_, rfl⟩
  have hcondition : (fNegative ∧ c &&& 0x007fffff ≠ 0) ↔ sign = true := by
    rw [hmantissa, ← hsign, Bool.and_eq_true, decide_eq_true_iff]
  have hfull := compact_or h.lt hS sign
  rw [hc] at hfull
  obtain ⟨hsize, hword, hbit⟩ := compact_parts h.lt hfull
  rw [if_neg (not_or.2 ⟨not_not.2 (and_not_eq_zero h.lt), not_not.2 hS⟩), hc]
  simp only [hcondition]
  refine ⟨_, rfl, ?_, ?_⟩
  · rw [hsize, hword]
    exact h
  · rw [hbit, hword, hsign]

/-- `GetCompact` gives the normal form, and the sign if there is a mantissa. -/
theorem getCompact_spec (a : ArithUint256) (fNegative : Bool) :
    ∃ c, getCompact a fNegative = some c ∧ Normal a.value (compactSize c) (compactWord c) ∧
      compactSign c = (fNegative && compactWord c ≠ 0) := by
  obtain ⟨n, hn⟩ : ∃ n, (a.bits + 7) / 8 = n := ⟨_, rfl⟩
  have hraw := toNat_highBytes a hn.symm
  have hbound : n ≤ 32 := by
    have := size_le.2 a.value_lt
    rw [← bits_eq] at this
    omega
  unfold getCompact
  rw [hn]
  dsimp only
  generalize (if n ≤ 3 then (getLow64 a <<< UInt64.ofNat (8 * (3 - n))).toUInt32
      else (getLow64 (a.shr (8 * (n - 3)))).toUInt32) = w at hraw ⊢
  obtain ⟨hbytes, hge, hzero⟩ := bytes_spec a.value
  rw [← bits_eq, hn] at hbytes hge hzero
  obtain ⟨hlt, hset, hclear⟩ := normal_of_bytes hbytes hge hzero hraw
  have hbit : w &&& 0x00800000 ≠ 0 ↔ 2 ^ 23 ≤ w.toNat := by
    rw [sign_ne_zero, compactSign_of_lt hlt]
  by_cases hsign : 2 ^ 23 ≤ w.toNat
  · have hshift : (w >>> 8).toNat = w.toNat / 256 := by
      rw [UInt32.toNat_shiftRight, shiftRight_eq_div_pow]
      rfl
    have hnormal := hset hsign
    rw [← hshift] at hnormal
    rw [if_pos (hbit.2 hsign)]
    exact compact_of_normal hnormal (by omega) fNegative
  · rw [if_neg fun h => hsign (hbit.1 h)]
    exact compact_of_normal (hclear (not_le.1 hsign)) (by omega) fNegative

/-! ### There and back -/

theorem eq_of_parts {c' : UInt32} (hsize : compactSize c = compactSize c')
    (hword : compactWord c = compactWord c') (hsign : compactSign c = compactSign c') : c = c' := by
  rw [compactSign, compactSign, testBit_eq_decide_div_mod_eq,
    testBit_eq_decide_div_mod_eq, decide_eq_decide] at hsign
  unfold compactSize at hsize
  unfold compactWord at hword
  apply UInt32.toNat_inj.1
  omega

theorem getCompact_eq_some {a : ArithUint256} {fNegative : Bool} :
    getCompact a fNegative = some c ↔ Normal a.value (compactSize c) (compactWord c) ∧
      compactSign c = (fNegative && compactWord c ≠ 0) := by
  obtain ⟨c', hc', hnormal', hsign'⟩ := getCompact_spec a fNegative
  constructor
  · intro hc
    obtain rfl := Option.some.inj (hc'.symm.trans hc)
    exact ⟨hnormal', hsign'⟩
  · rintro ⟨hnormal, hsign⟩
    obtain ⟨hsize, hword⟩ := hnormal'.unique hnormal
    rw [hc', eq_of_parts hsize hword (by rw [hsign', hsign, hword])]

/-- The bytes of a mantissa: three, or two where the highest bit of a third is that of the sign. -/
def mantissaBytes (nCompact : UInt32) : ℕ := if compactWord nCompact < 2 ^ 16 then 2 else 3

theorem setCompact_getCompact {a : ArithUint256} (h : getCompact a false = some c) :
    IsGreatest {x | x ≤ a.value ∧ ∃ m e, m < 256 ^ mantissaBytes c ∧ x = m * 256 ^ e}
        (setCompact c).1.value ∧ (setCompact c).2 = (false, false) := by
  obtain ⟨hnormal, hsign⟩ := getCompact_eq_some.1 h
  obtain ⟨hvalue, hnegative, hoverflow⟩ := setCompact_spec c
  have hfits : number (compactSize c) (compactWord c) < 2 ^ 256 :=
    hnormal.number_le.trans_lt a.value_lt
  have hlt := hnormal.lt
  have hge := hnormal.ge
  constructor
  · rw [hvalue, mod_eq_of_lt hfits]
    refine hnormal.isGreatest ?_ fun hne => ?_
    · unfold mantissaBytes
      split_ifs <;> omega
    · have := hge hne
      unfold mantissaBytes
      split_ifs <;> omega
  · refine Prod.ext ?_ ?_
    · rw [hnegative, hsign, Bool.false_and]
      rfl
    · rw [hoverflow]
      exact decide_eq_false (not_le.2 hfits)

theorem getCompact_mono {a b : ArithUint256} {c' : UInt32} (h : a.value ≤ b.value)
    (hc : getCompact a false = some c) (hc' : getCompact b false = some c') : c ≤ c' := by
  obtain ⟨hnormal, hsign⟩ := getCompact_eq_some.1 hc
  obtain ⟨hnormal', hsign'⟩ := getCompact_eq_some.1 hc'
  have hmono := hnormal.mono hnormal' h
  rw [Bool.false_and, compactSign, testBit_eq_decide_div_mod_eq, decide_eq_false_iff_not]
    at hsign hsign'
  unfold compactSize compactWord at hmono
  rw [UInt32.le_iff_toNat_le]
  omega

/-- A compact form that is zero, or has no leading byte to spare in its mantissa, stands for a whole
number and fits. -/
def Canonical (nCompact : UInt32) : Prop :=
  nCompact = 0 ∨ (2 ^ 15 ≤ compactWord nCompact ∧
    256 ^ 3 ∣ compactWord nCompact * 256 ^ compactSize nCompact ∧
    number (compactSize nCompact) (compactWord nCompact) < 2 ^ 256)

theorem normal_setCompact (c : UInt32) :
    Normal (setCompact c).1.value (compactSize c) (compactWord c) ↔
      (compactSize c = 0 ∧ compactWord c = 0) ∨ (2 ^ 15 ≤ compactWord c ∧
        256 ^ 3 ∣ compactWord c * 256 ^ compactSize c ∧
        number (compactSize c) (compactWord c) < 2 ^ 256) := by
  have hlt : compactWord c < 2 ^ 23 := mod_lt _ (by decide)
  rw [(setCompact_spec c).1]
  generalize compactSize c = S at *
  generalize compactWord c = M at *
  constructor
  · intro h
    by_cases hzero : number S M % 2 ^ 256 = 0
    · rw [hzero] at h
      exact .inl ⟨h.zero rfl, h.mantissa_eq_zero⟩
    · have hfits : number S M < 2 ^ 256 := h.number_le.trans_lt (mod_lt _ (by decide))
      rw [mod_eq_of_lt hfits] at h hzero
      have hexact : number S M * 256 ^ 3 = M * 256 ^ S :=
        le_antisymm (div_mul_le_self _ _) h.le
      exact .inr ⟨h.ge hzero, ⟨number S M, by rw [← hexact, mul_comm]⟩, hfits⟩
  · rintro (⟨rfl, rfl⟩ | ⟨hM, hexact, hfits⟩)
    · exact ⟨rfl, by decide, fun h => absurd rfl h, fun _ => rfl⟩
    · rw [mod_eq_of_lt hfits]
      exact normal_number hM hlt hexact

theorem eq_zero_iff :
    c = 0 ↔ (compactSize c = 0 ∧ compactWord c = 0) ∧ compactSign c = false := by
  constructor
  · rintro rfl
    exact ⟨⟨rfl, rfl⟩, rfl⟩
  · rintro ⟨⟨hsize, hword⟩, hsign⟩
    exact eq_of_parts hsize hword hsign

/-- The canonical forms come back with their sign. -/
theorem getCompact_setCompact_iff (c : UInt32) :
    getCompact (setCompact c).1 (setCompact c).2.1 = some c ↔ Canonical c := by
  rw [getCompact_eq_some, normal_setCompact, (setCompact_spec c).2.1, Canonical, eq_zero_iff]
  constructor
  · rintro ⟨⟨hsize, hword⟩ | hnormal, hsign⟩
    · rw [hword] at hsign
      exact .inl ⟨⟨hsize, hword⟩, by simpa using hsign⟩
    · exact .inr hnormal
  · rintro (⟨⟨hsize, hword⟩, hsign⟩ | ⟨hM, hexact, hfits⟩)
    · exact ⟨.inl ⟨hsize, hword⟩, by rw [hsign]; simp⟩
    · have hM0 : compactWord c ≠ 0 := by omega
      have hmul := Nat.div_mul_cancel hexact
      have hnumber : number (compactSize c) (compactWord c) ≠ 0 := by
        intro hzero
        rw [← number, hzero, zero_mul] at hmul
        exact Nat.mul_ne_zero hM0 (Nat.pow_pos (by decide)).ne' hmul.symm
      refine ⟨.inr ⟨hM, hexact, hfits⟩, ?_⟩
      simp [hM0, hnumber]

theorem getCompact_setCompact_unsigned_iff (c : UInt32) :
    getCompact (setCompact c).1 false = some c ↔ Canonical c ∧ compactSign c = false := by
  rw [getCompact_eq_some, normal_setCompact, Bool.false_and, Canonical, eq_zero_iff]
  tauto

/-! ### The proof of a block -/

/-- `GetBlockProof`, of the bits of the block. -/
def getBlockProof (nBits : UInt32) : Except String ArithUint256 :=
  let (bnTarget, fNegative, fOverflow) := setCompact nBits
  if fNegative || fOverflow || equalTo bnTarget 0 then .ok (ofUInt64 0)
  else do
    let quotient ← bnTarget.complement.div (bnTarget.add (ofUInt64 1))
    return quotient.add (ofUInt64 1)

theorem number_succ_lt {S M : ℕ} (hM : M < 2 ^ 23) (hfits : number S M < 2 ^ 256) :
    number S M + 1 < 2 ^ 256 := by
  obtain ⟨m, e, hm, hnumber⟩ := exists_number_eq S M
  rcases Nat.eq_zero_or_pos e with rfl | he
  · rw [pow_zero, mul_one] at hnumber
    omega
  · obtain ⟨d, rfl⟩ := exists_eq_succ_of_ne_zero he.ne'
    rw [pow_succ', mul_left_comm] at hnumber
    omega

theorem getBlockProof_spec (nBits : UInt32) :
    ∃ proof, getBlockProof nBits = .ok proof ∧ proof.value =
      if compactSign nBits ∨ 2 ^ 256 ≤ number (compactSize nBits) (compactWord nBits)
        ∨ number (compactSize nBits) (compactWord nBits) = 0 then 0
      else 2 ^ 256 / (number (compactSize nBits) (compactWord nBits) + 1) := by
  obtain ⟨hvalue, hnegative, hoverflow⟩ := setCompact_spec nBits
  have hM : compactWord nBits < 2 ^ 23 := mod_lt _ (by decide)
  generalize compactWord nBits = M at *
  generalize compactSize nBits = S at *
  rcases hset : setCompact nBits with ⟨bnTarget, fNegative, fOverflow⟩
  rw [hset] at hvalue hnegative hoverflow
  dsimp only at hvalue hnegative hoverflow
  have hone : (ofUInt64 1).value = 1 := value_ofUInt64 1
  have hnone : (fNegative || fOverflow || equalTo bnTarget 0) = true ↔
      compactSign nBits ∨ 2 ^ 256 ≤ number S M ∨ number S M = 0 := by
    rw [Bool.or_eq_true, Bool.or_eq_true, hnegative, hoverflow, decide_eq_true_iff,
      decide_eq_true_iff, equalTo_iff, UInt64.toNat_zero, hvalue]
    by_cases hfits : 2 ^ 256 ≤ number S M
    · exact iff_of_true (.inl (.inr hfits)) (.inr (.inl hfits))
    · rw [mod_eq_of_lt (not_le.1 hfits)]
      tauto
  rw [getBlockProof, hset]
  dsimp only
  by_cases h : compactSign nBits ∨ 2 ^ 256 ≤ number S M ∨ number S M = 0
  · rw [if_pos (hnone.2 h), if_pos h]
    exact ⟨_, rfl, value_ofUInt64 0⟩
  · rw [if_neg fun hn => h (hnone.1 hn), if_neg h]
    push Not at h
    obtain ⟨-, hfits, hpos⟩ := h
    have hsucc := number_succ_lt hM hfits
    rw [mod_eq_of_lt hfits] at hvalue
    have hdivisor : (bnTarget.add (ofUInt64 1)).value = number S M + 1 := by
      rw [value_add, hvalue, hone]
      exact mod_eq_of_lt hsucc
    obtain ⟨quotient, hdiv, hquotient⟩ :=
      (value_div bnTarget.complement (bnTarget.add (ofUInt64 1))).2 (by omega)
    rw [hdivisor, value_complement, hvalue] at hquotient
    have hsmall : quotient.value ≤ 2 ^ 256 / 2 := by
      rw [hquotient]
      exact (div_le_div_left (show 2 ≤ number S M + 1 by omega) (by decide)).trans
        (Nat.div_le_div_right (by omega))
    refine ⟨quotient.add (ofUInt64 1), by rw [hdiv]; rfl, ?_⟩
    rw [value_add, hone, mod_eq_of_lt (show quotient.value + 1 < 2 ^ (32 * 8) by omega),
      div_eq_sub_div (succ_pos _) hsucc.le, hquotient]
    congr 2
    omega

/-- **The arithmetic of 256 bits is exact.**  Products and shifts to the left are modulo `2^256`,
quotients and shifts to the right rounded down, and only a division by zero throws.  A number that
goes through its compact form is rounded down to the bytes of its mantissa, the compact form keeps
the order, and the canonical ones come back.  The proof of a block is `2^256 / (target + 1)`, or
zero where the target is negative, overflows or is zero. -/
theorem arith_exact :
    (∀ a b : ArithUint256, (a.mul b).value = a.value * b.value % 2 ^ 256 ∧
      (∀ b32 : UInt32, (a.mulSmall b32).value = a.value * b32.toNat % 2 ^ 256) ∧
      (a.div b = .error "Division by zero" ↔ b.value = 0) ∧
      (0 < b.value → ∃ q, a.div b = .ok q ∧ q.value = a.value / b.value) ∧
      ∀ shift, (a.shl shift).value = a.value * 2 ^ shift % 2 ^ 256 ∧
        (a.shr shift).value = a.value / 2 ^ shift) ∧
    (∀ a : ArithUint256, ∃ c, getCompact a false = some c ∧
      IsGreatest {x | x ≤ a.value ∧ ∃ m e, m < 256 ^ mantissaBytes c ∧ x = m * 256 ^ e}
        (setCompact c).1.value ∧ (setCompact c).2 = (false, false) ∧
      ∀ b c', a.value ≤ b.value → getCompact b false = some c' → c ≤ c') ∧
    (∀ c, (getCompact (setCompact c).1 (setCompact c).2.1 = some c ↔ Canonical c) ∧
      (getCompact (setCompact c).1 false = some c ↔ Canonical c ∧ compactSign c = false)) ∧
    ∀ nBits, ∃ proof, getBlockProof nBits = .ok proof ∧ proof.value =
      if compactSign nBits ∨ 2 ^ 256 ≤ number (compactSize nBits) (compactWord nBits)
        ∨ number (compactSize nBits) (compactWord nBits) = 0 then 0
      else 2 ^ 256 / (number (compactSize nBits) (compactWord nBits) + 1) := by
  refine ⟨fun a b => ⟨value_mul a b, value_mulSmall a, ?_, (value_div a b).2, fun shift =>
    ⟨value_shl a shift, value_shr a shift⟩⟩, fun a => ?_, fun c =>
    ⟨getCompact_setCompact_iff c, getCompact_setCompact_unsigned_iff c⟩, getBlockProof_spec⟩
  · refine ⟨fun herror => ?_, (value_div a b).1⟩
    by_contra hne
    obtain ⟨q, hq, -⟩ := (value_div a b).2 (pos_of_ne_zero hne)
    rw [herror] at hq
    cases hq
  · obtain ⟨c, hc, -⟩ := getCompact_spec a false
    obtain ⟨hgreatest, hflags⟩ := setCompact_getCompact hc
    exact ⟨c, hc, hgreatest, hflags, fun b c' hle hc' => getCompact_mono hle hc hc'⟩

/-- A quotient, and the compact forms of two numbers. -/
theorem arith_exact_seven : (∃ q, (ofUInt64 7).div (ofUInt64 2) = .ok q ∧ q.value = 3) ∧
    (0x01020000 : UInt32) ≤ 0x01070000 := by
  obtain ⟨hlimbs, hcompact, -⟩ := arith_exact
  have htwo : 0 < (ofUInt64 2).value := by
    rw [value_ofUInt64]
    decide
  have hle : (ofUInt64 2).value ≤ (ofUInt64 7).value := by
    rw [value_ofUInt64, value_ofUInt64]
    decide
  obtain ⟨q, hq, hvalue⟩ := (hlimbs (ofUInt64 7) (ofUInt64 2)).2.2.2.1 htwo
  obtain ⟨c, hc, -, -, hmono⟩ := hcompact (ofUInt64 2)
  have hc2 : getCompact (ofUInt64 2) false = some 0x01020000 := by decide
  have hc7 : getCompact (ofUInt64 7) false = some 0x01070000 := by decide
  obtain rfl := Option.some.inj (hc2.symm.trans hc)
  refine ⟨⟨q, hq, ?_⟩, hmono _ _ hle hc7⟩
  rw [hvalue, value_ofUInt64, value_ofUInt64]
  rfl

end ArithUint256
end Komodo
