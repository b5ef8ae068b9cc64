/-
# Distinguished encoding of ASN.1 values

The part of X.690 that a schema of sequences, choices, octet strings, bit
strings, native integers and sets needs: a value is a tag byte, its length and
its contents (`tlv`), an integer is cut to its shortest two's complement
(`derInteger`), and a SET OF lists its elements in the order of their bytes
(`setOf`).

`tlv_append_inj` says that a value can be cut off the front of a byte string in
one way only. From it, a sequence of values is determined by its bytes
(`flatten_inj`) and a set of values up to order (`setOf_inj`); in the other
direction the order in which a set is given does not matter (`setOf_perm`).
-/

import Mathlib.Tactic

namespace Komodo
namespace Der

open List

/-! ### Numbers in bytes -/

/-- The `k` low bytes of `n`, the highest first. -/
def bigEndian : ℕ → ℕ → List UInt8
  | 0, _ => []
  | k + 1, n => bigEndian k (n / 256) ++ [UInt8.ofNat n]

@[simp] theorem length_bigEndian (k n : ℕ) : (bigEndian k n).length = k := by
  induction k generalizing n with
  | zero => rfl
  | succ k ih => simp [bigEndian, ih]

theorem ofNat_inj_mod {a b : ℕ} (h : UInt8.ofNat a = UInt8.ofNat b) : a % 256 = b % 256 := by
  have := congrArg UInt8.toNat h
  simpa using this

/-- The `k` low bytes determine a number modulo `256 ^ k`. -/
theorem bigEndian_inj {k n m : ℕ} (h : bigEndian k n = bigEndian k m) :
    n % 256 ^ k = m % 256 ^ k := by
  induction k generalizing n m with
  | zero => rw [pow_zero, Nat.mod_one, Nat.mod_one]
  | succ k ih =>
    obtain ⟨hhigh, hlow⟩ := append_inj' h rfl
    have hmod := ofNat_inj_mod (singleton_inj.1 hlow)
    rw [pow_succ', Nat.mod_mul, Nat.mod_mul, hmod, ih hhigh]

/-! ### Lengths -/

/-- How many bytes a length of 128 or more takes; at most eight. -/
def lengthSize (n : ℕ) : ℕ :=
  1 + ((List.range' 1 7).takeWhile fun i => n / 256 ^ i ≠ 0).length

theorem lengthSize_le (n : ℕ) : lengthSize n ≤ 8 := by
  have := ((range' 1 7).takeWhile_sublist fun i => n / 256 ^ i ≠ 0).length_le
  rw [length_range'] at this
  unfold lengthSize
  omega

theorem lt_pow_lengthSize {n : ℕ} (h : n < 256 ^ 8) : n < 256 ^ lengthSize n := by
  have h8 : n / 256 ^ 8 = 0 := Nat.div_eq_of_lt h
  simp only [lengthSize, range', takeWhile]
  repeat' split
  all_goals
    simp only [decide_eq_true_eq, decide_eq_false_iff_not, not_not] at *
    simp only [length_nil, length_cons]
    omega

/-- The length octets of a value of `n` bytes. -/
def length (n : ℕ) : List UInt8 :=
  if n ≤ 127 then [UInt8.ofNat n]
  else UInt8.ofNat (128 + lengthSize n) :: bigEndian (lengthSize n) n

theorem length_length_le (n : ℕ) : (length n).length ≤ 9 := by
  have := lengthSize_le n
  unfold length
  split
  · simp
  · simp only [length_cons, length_bigEndian]
    omega

/-- No length is the beginning of another. -/
theorem length_append_inj {n m : ℕ} {r s : List UInt8} (hn : n < 256 ^ 8) (hm : m < 256 ^ 8)
    (h : length n ++ r = length m ++ s) : n = m ∧ r = s := by
  have hkn := lengthSize_le n
  have hkm := lengthSize_le m
  unfold length at h
  split at h <;> split at h
  · obtain ⟨hb, hr⟩ := cons.inj h
    have := ofNat_inj_mod hb
    exact ⟨by omega, hr⟩
  · have := ofNat_inj_mod (cons.inj h).1
    omega
  · have := ofNat_inj_mod (cons.inj h).1
    omega
  · obtain ⟨hb, htail⟩ := cons.inj h
    have hmod := ofNat_inj_mod hb
    have hk : lengthSize n = lengthSize m := by omega
    rw [append_eq] at htail
    obtain ⟨hnm, hr⟩ := append_inj htail (by simp [hk])
    rw [← hk] at hnm
    have hmod' := bigEndian_inj hnm
    rw [Nat.mod_eq_of_lt (lt_pow_lengthSize hn), Nat.mod_eq_of_lt (hk ▸ lt_pow_lengthSize hm)]
      at hmod'
    exact ⟨hmod', hr⟩

/-! ### Values -/

/-- A tag, a length and the contents. -/
def tlv (tag : UInt8) (v : List UInt8) : List UInt8 := tag :: (length v.length ++ v)

theorem length_tlv (tag : UInt8) (v : List UInt8) :
    (tlv tag v).length = 1 + (length v.length).length + v.length := by
  simp only [tlv, length_cons, length_append]
  omega

theorem length_lt_length_tlv (tag : UInt8) (v : List UInt8) :
    v.length < (tlv tag v).length := by
  rw [length_tlv]
  omega

theorem length_tlv_short (tag : UInt8) {v : List UInt8} (h : v.length ≤ 127) :
    (tlv tag v).length = 2 + v.length := by
  rw [length_tlv, length, if_pos h]
  simp

theorem tlv_append_inj {t u : UInt8} {v w r s : List UInt8} (hv : v.length < 256 ^ 8)
    (hw : w.length < 256 ^ 8) (h : tlv t v ++ r = tlv u w ++ s) : t = u ∧ v = w ∧ r = s := by
  obtain ⟨htag, hrest⟩ := cons.inj h
  simp only [append_eq, append_assoc] at hrest
  obtain ⟨hlen, hvw⟩ := length_append_inj hv hw hrest
  exact ⟨htag, append_inj hvw hlen⟩

theorem tlv_inj {t u : UInt8} {v w : List UInt8} (hv : v.length < 256 ^ 8)
    (hw : w.length < 256 ^ 8) (h : tlv t v = tlv u w) : t = u ∧ v = w := by
  have happ : tlv t v ++ [] = tlv u w ++ [] := by rw [h]
  obtain ⟨ht, hvw, -⟩ := tlv_append_inj hv hw happ
  exact ⟨ht, hvw⟩

/-- The bytes of some value. -/
def IsTlv (b : List UInt8) : Prop := ∃ tag v, v.length < 256 ^ 8 ∧ b = tlv tag v

variable {l l' : List (List UInt8)}

/-- **A sequence of values is determined by its bytes.** -/
theorem flatten_inj (hl : ∀ b ∈ l, IsTlv b) (hl' : ∀ b ∈ l', IsTlv b)
    (h : l.flatten = l'.flatten) : l = l' := by
  induction l generalizing l' with
  | nil =>
    cases l' with
    | nil => rfl
    | cons b l' =>
      obtain ⟨tag, v, -, rfl⟩ := hl' b (by simp)
      simp [tlv] at h
  | cons a l ih =>
    obtain ⟨tag, v, hv, rfl⟩ := hl a (by simp)
    cases l' with
    | nil => simp [tlv] at h
    | cons b l' =>
      obtain ⟨tag', w, hw, rfl⟩ := hl' b (by simp)
      rw [flatten_cons, flatten_cons] at h
      obtain ⟨rfl, rfl, hrest⟩ := tlv_append_inj hv hw h
      rw [ih (fun c hc => hl c (by simp [hc])) (fun c hc => hl' c (by simp [hc])) hrest]

/-! ### Integers -/

/-- An integer without its superfluous leading bytes: a zero byte before a clear
top bit, or a byte of ones before a set one. -/
def canonicalize : List UInt8 → List UInt8
  | a :: b :: rest =>
    if (a = 0 ∧ b < 128) ∨ (a = 255 ∧ 128 ≤ b) then canonicalize (b :: rest) else a :: b :: rest
  | bytes => bytes

/-- The byte that repeats the top bit of the first one. -/
def signByte : List UInt8 → UInt8
  | a :: _ => if a < 128 then 0 else 255
  | [] => 0

/-- Repeating the top bit restores what `canonicalize` dropped. -/
theorem canonicalize_spec (a : UInt8) (l : List UInt8) :
    ∃ k, a :: l = replicate k (signByte (canonicalize (a :: l))) ++ canonicalize (a :: l) ∧
      signByte (canonicalize (a :: l)) = signByte (a :: l) := by
  induction l generalizing a with
  | nil => exact ⟨0, rfl, rfl⟩
  | cons b rest ih =>
    obtain ⟨k, heq, hsign⟩ := ih b
    rw [canonicalize]
    split
    · rename_i hdrop
      have hb : signByte (b :: rest) = a := by
        rcases hdrop with ⟨rfl, hlt⟩ | ⟨rfl, hle⟩
        · simp [signByte, hlt]
        · simp [signByte, UInt8.not_lt.2 hle]
      have ha : signByte (a :: b :: rest) = a := by
        rcases hdrop with ⟨rfl, -⟩ | ⟨rfl, -⟩ <;> rfl
      refine ⟨k + 1, ?_, by rw [hsign, hb, ha]⟩
      rw [replicate_succ, cons_append, ← heq, hsign, hb]
    · exact ⟨0, rfl, rfl⟩

/-- Among integers of one width, `canonicalize` loses nothing. -/
theorem canonicalize_inj {x y : List UInt8} (hlen : x.length = y.length)
    (h : canonicalize x = canonicalize y) : x = y := by
  cases x with
  | nil => rw [eq_nil_of_length_eq_zero hlen.symm]
  | cons a x =>
    cases y with
    | nil => simp at hlen
    | cons b y =>
      obtain ⟨k, hx, -⟩ := canonicalize_spec a x
      obtain ⟨m, hy, -⟩ := canonicalize_spec b y
      have hlens := hlen
      rw [hx, hy, h] at hlens
      have hkm : k = m := by simpa using hlens
      rw [hx, hy, h, hkm]

/-- The contents octets of a native 64-bit integer. -/
def integer (n : ℕ) : List UInt8 := canonicalize (bigEndian 8 n)

/-- An encoded integer is known modulo `2 ^ 64`. -/
theorem integer_inj {n m : ℕ} (h : integer n = integer m) : n % 2 ^ 64 = m % 2 ^ 64 :=
  bigEndian_inj (k := 8) (canonicalize_inj (by simp) h)

theorem length_canonicalize_le (l : List UInt8) : (canonicalize l).length ≤ l.length := by
  fun_induction canonicalize l with
  | case1 a b rest _ ih => simp only [length_cons] at ih ⊢; omega
  | case2 => rfl
  | case3 => rfl

theorem length_integer_le (n : ℕ) : (integer n).length ≤ 8 := by
  have := length_canonicalize_le (bigEndian 8 n)
  rwa [length_bigEndian] at this

/-! ### Sets -/

/-- Order of byte strings: by the first byte in which they differ, a string
before its continuations. -/
def bytesLe : List UInt8 → List UInt8 → Bool
  | [], _ => true
  | _ :: _, [] => false
  | a :: as, b :: bs => a < b || (a == b && bytesLe as bs)

theorem bytesLe_total (x y : List UInt8) : bytesLe x y ∨ bytesLe y x := by
  induction x generalizing y with
  | nil => simp [bytesLe]
  | cons a x ih =>
    cases y with
    | nil => simp [bytesLe]
    | cons b y =>
      rcases lt_trichotomy a.toNat b.toNat with hlt | heq | hlt
      · have : a < b := hlt
        simp [bytesLe, this]
      · have hab : a = b := UInt8.toNat_inj.1 heq
        simpa [bytesLe, hab] using ih y
      · have : b < a := hlt
        simp [bytesLe, this]

theorem bytesLe_antisymm {x y : List UInt8} (hxy : bytesLe x y) (hyx : bytesLe y x) : x = y := by
  induction x generalizing y with
  | nil =>
    cases y with
    | nil => rfl
    | cons b y => simp [bytesLe] at hyx
  | cons a x ih =>
    cases y with
    | nil => simp [bytesLe] at hxy
    | cons b y =>
      simp only [bytesLe, Bool.or_eq_true, decide_eq_true_eq, Bool.and_eq_true, beq_iff_eq]
        at hxy hyx
      rcases hxy with hlt | ⟨rfl, hxy⟩
      · rcases hyx with hlt' | ⟨rfl, -⟩
        · exact absurd (UInt8.lt_trans hlt hlt') (UInt8.lt_irrefl a)
        · exact absurd hlt (UInt8.lt_irrefl b)
      · rcases hyx with hlt' | ⟨-, hyx⟩
        · exact absurd hlt' (UInt8.lt_irrefl a)
        · rw [ih hxy hyx]

theorem bytesLe_trans {x y z : List UInt8} (hxy : bytesLe x y) (hyz : bytesLe y z) :
    bytesLe x z := by
  induction x generalizing y z with
  | nil => rfl
  | cons a x ih =>
    cases y with
    | nil => simp [bytesLe] at hxy
    | cons b y =>
      cases z with
      | nil => simp [bytesLe] at hyz
      | cons c z =>
        simp only [bytesLe, Bool.or_eq_true, decide_eq_true_eq, Bool.and_eq_true, beq_iff_eq]
          at hxy hyz ⊢
        rcases hxy with hlt | ⟨rfl, hxy⟩
        · rcases hyz with hlt' | ⟨rfl, -⟩
          · exact Or.inl (UInt8.lt_trans hlt hlt')
          · exact Or.inl hlt
        · rcases hyz with hlt' | ⟨rfl, hyz⟩
          · exact Or.inl hlt'
          · exact Or.inr ⟨rfl, ih hxy hyz⟩

instance : Std.Total fun x y : List UInt8 => (bytesLe x y : Prop) := ⟨bytesLe_total⟩

instance : IsTrans (List UInt8) fun x y => (bytesLe x y : Prop) := ⟨fun _ _ _ => bytesLe_trans⟩

instance : Std.Antisymm fun x y : List UInt8 => (bytesLe x y : Prop) :=
  ⟨fun _ _ => bytesLe_antisymm⟩

/-- The elements of a set in the order in which they are written. -/
def setOrder (els : List (List UInt8)) : List (List UInt8) :=
  els.insertionSort fun x y => bytesLe x y

theorem setOrder_perm (els : List (List UInt8)) : (setOrder els).Perm els :=
  perm_insertionSort _ els

theorem setOrder_eq (h : l.Perm l') : setOrder l = setOrder l' :=
  ((setOrder_perm l).trans (h.trans (setOrder_perm l').symm)).eq_of_pairwise'
    (pairwise_insertionSort _ l) (pairwise_insertionSort _ l')

/-- The contents octets of a SET OF. -/
def setOf (els : List (List UInt8)) : List UInt8 := (setOrder els).flatten

theorem setOf_perm (h : l.Perm l') : setOf l = setOf l' := by
  rw [setOf, setOf, setOrder_eq h]

theorem length_setOf (els : List (List UInt8)) :
    (setOf els).length = (els.map List.length).sum := by
  rw [setOf, length_flatten]
  exact ((setOrder_perm els).map _).sum_nat

/-- **A set of values is determined by its bytes, up to order.** -/
theorem setOf_inj (hl : ∀ b ∈ l, IsTlv b) (hl' : ∀ b ∈ l', IsTlv b)
    (h : setOf l = setOf l') : l.Perm l' := by
  have hsorted := flatten_inj (fun b hb => hl b ((setOrder_perm l).mem_iff.1 hb))
    (fun b hb => hl' b ((setOrder_perm l').mem_iff.1 hb)) h
  exact (setOrder_perm l).symm.trans (hsorted ▸ setOrder_perm l')

end Der
end Komodo
