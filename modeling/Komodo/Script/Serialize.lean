/-
# Writing a data stream

The writing half of `src/src/serialize.h` and `E_MARSHAL` of `src/src/cc/utils.h`:
`ser_writedata`, `WriteCompactSize`, `Serialize` of byte vectors, and the opreturn
script `CScript() << OP_RETURN << vopret`.

Each writer is matched with the reader of `Komodo.Script.Script`: the reader finds
what was written (`reads_uint`, `reads_compactSize`, `reads_vector`), and a size or
a vector is read only from the bytes that would have been written for it
(`compactSize_exact`, `vector_exact`). Of a pushed payload `GetOpReturnData` hands
back as many bytes as the low 32 bits of its length say (`getOpReturnData_opReturnScript`).
-/

import Komodo.Lib.Stream
import Komodo.Script.Script

namespace Komodo

open Streams List UInt8

/-- The `k` low bytes of `n`, the lowest first: `ser_writedata` of a `k`-byte
integer. -/
def leBytes (k n : ℕ) : Bytes := (List.range k).map fun i => UInt8.ofNat (n / 256 ^ i)

@[simp] theorem length_leBytes (k n : ℕ) : (leBytes k n).length = k := by simp [leBytes]

theorem leBytes_succ (k n : ℕ) :
    leBytes (k + 1) n = UInt8.ofNat n :: leBytes k (n / 256) := by
  rw [leBytes, range_succ_eq_map, map_cons, map_map, pow_zero, Nat.div_one]
  congr 1
  refine map_congr_left fun i _ => ?_
  show ofNat (n / 256 ^ (i + 1)) = ofNat (n / 256 / 256 ^ i)
  rw [Nat.div_div_eq_div_mul, pow_succ']

theorem fromLE_leBytes (k n : ℕ) : fromLE (leBytes k n) = n % 256 ^ k := by
  induction k generalizing n with
  | zero => rw [pow_zero, Nat.mod_one]; rfl
  | succ k ih =>
    rw [leBytes_succ, fromLE, ih, pow_succ', Nat.mod_mul, toNat_ofNat']

theorem fromLE_leBytes_of_lt {k n : ℕ} (h : n < 256 ^ k) : fromLE (leBytes k n) = n := by
  rw [fromLE_leBytes, Nat.mod_eq_of_lt h]

theorem fromLE_uint256Bytes {h : Uint256} (hlt : h < 2 ^ 256) : fromLE (uint256Bytes h) = h :=
  fromLE_leBytes_of_lt (k := 32) (by norm_num at hlt ⊢; exact hlt)

@[simp] theorem length_uint256Bytes (h : Uint256) : (uint256Bytes h).length = 32 :=
  length_leBytes 32 h

theorem fromLE_lt (bs : Bytes) : fromLE bs < 256 ^ bs.length := by
  induction bs with
  | nil => decide
  | cons b bs ih =>
    have hb := b.toNat_lt
    rw [fromLE, length_cons, pow_succ']
    omega

theorem leBytes_fromLE (bs : Bytes) : leBytes bs.length (fromLE bs) = bs := by
  induction bs with
  | nil => rfl
  | cons b bs ih =>
    have hb := b.toNat_lt
    rw [length_cons, leBytes_succ, fromLE]
    have hdiv : (b.toNat + 256 * fromLE bs) / 256 = fromLE bs := by omega
    have hmod : ofNat (b.toNat + 256 * fromLE bs) = b := by
      apply UInt8.toNat_inj.1
      rw [UInt8.toNat_ofNat']
      omega
    rw [hdiv, hmod, ih]

theorem splitBytes_append {bs s : Bytes} : splitBytes bs.length (bs ++ s) = some (bs, s) := by
  unfold splitBytes
  rw [if_neg (by simp), take_left, drop_left]

theorem splitBytes_eq_some {n : ℕ} {s bs s' : Bytes} :
    splitBytes n s = some (bs, s') ↔ s = bs ++ s' ∧ bs.length = n := by
  constructor
  · unfold splitBytes
    intro h
    split_ifs at h with hlen
    cases h
    exact ⟨(take_append_drop n s).symm, by rw [length_take]; omega⟩
  · rintro ⟨rfl, rfl⟩
    exact splitBytes_append

/-! ### Integers -/

namespace Unserialize

theorem reads_bytes (bs : Bytes) : Reads (Unserialize.bytes bs.length) bs bs :=
  fun _ => splitBytes_append

theorem extensible_bytes (n : ℕ) : Extensible (Unserialize.bytes n) := by
  intro s bs s' h t
  obtain ⟨rfl, rfl⟩ := splitBytes_eq_some.1 h
  rw [append_assoc]
  exact splitBytes_append

theorem reads_uint {k n : ℕ} (h : n < 256 ^ k) : Reads (Unserialize.uint k) (leBytes k n) n := by
  have hread := (reads_bytes (leBytes k n)).map fromLE
  rwa [length_leBytes, fromLE_leBytes, Nat.mod_eq_of_lt h] at hread

theorem uint_exact {k n : ℕ} {s s' : Bytes} (h : Unserialize.uint k s = some (n, s')) :
    s = leBytes k n ++ s' ∧ n < 256 ^ k := by
  unfold Unserialize.uint at h
  rw [map_apply] at h
  obtain ⟨⟨bs, s₁⟩, hbs, heq⟩ := Option.map_eq_some_iff.1 h
  obtain ⟨rfl, rfl⟩ := Prod.mk.inj heq
  obtain ⟨rfl, rfl⟩ := splitBytes_eq_some.1 hbs
  exact ⟨by rw [leBytes_fromLE], fromLE_lt bs⟩

/-- A signed integer of `n` bytes is read into its range. -/
theorem int_range {n : ℕ} (hn : 0 < n) {s s' : Bytes} {v : ℤ}
    (h : Unserialize.int n s = some (v, s')) :
    -2 ^ (8 * n - 1) ≤ v ∧ v < 2 ^ (8 * n - 1) := by
  unfold Unserialize.int at h
  rw [bind_apply, Option.bind_eq_some_iff] at h
  obtain ⟨⟨u, t⟩, hu, h⟩ := h
  have hlt : (u : ℤ) < 2 * 2 ^ (8 * n - 1) := by
    have := (uint_exact hu).2
    rw [show (256 : ℕ) = 2 ^ 8 from rfl, ← Nat.pow_mul] at this
    rw [← pow_succ', show 8 * n - 1 + 1 = 8 * n by omega]
    exact_mod_cast this
  have hpow : (2 : ℤ) ^ (8 * n) = 2 * 2 ^ (8 * n - 1) := by
    rw [← pow_succ', show 8 * n - 1 + 1 = 8 * n by omega]
  have hcast : ((2 ^ (8 * n - 1) : ℕ) : ℤ) = 2 ^ (8 * n - 1) := by push_cast; rfl
  simp only [pure_apply, Option.some.injEq, Prod.mk.injEq] at h
  obtain ⟨rfl, -⟩ := h
  rw [hpow]
  have hpos : (0 : ℤ) < 2 ^ (8 * n - 1) := by positivity
  split_ifs with hsmall <;> omega

theorem extensible_uint (k : ℕ) : Extensible (Unserialize.uint k) := (extensible_bytes k).map _

theorem reads_uint8 (b : UInt8) : Reads Unserialize.uint8 [b] b := by
  have hread := (reads_uint (k := 1) (n := b.toNat) (by simpa using b.toNat_lt)).map ofNat
  have hbyte : leBytes 1 b.toNat = [b] := by simp [leBytes]
  rwa [hbyte, UInt8.ofNat_toNat] at hread

theorem uint8_cons (b : UInt8) (s : Bytes) : Unserialize.uint8 (b :: s) = some (b, s) :=
  reads_uint8 b s

/-- What `E_UNMARSHAL` accepts. -/
theorem unmarshal_eq_some {α : Type} {s : Bytes} {r : Unserialize α} {a : α} :
    Unserialize.unmarshal s r = some a ↔ r s = some (a, []) := by
  unfold Unserialize.unmarshal
  rcases r s with _ | ⟨b, _ | ⟨x, t⟩⟩ <;> simp

theorem extensible_uint8 : Extensible Unserialize.uint8 := (extensible_uint 1).map _

/-- `ss >> x` finds the `uint256` that was written. -/
theorem reads_uint256 {h : Uint256} (hlt : h < 2 ^ 256) :
    Reads Unserialize.uint256 (uint256Bytes h) h :=
  reads_uint (k := 32) (by norm_num at hlt ⊢; exact hlt)

end Unserialize

/-! ### Sizes and vectors -/

/-- `WriteCompactSize`. -/
def compactSizeBytes (n : ℕ) : Bytes :=
  if n < 253 then [UInt8.ofNat n]
  else if n ≤ 0xffff then 253 :: leBytes 2 n
  else if n ≤ 0xffffffff then 254 :: leBytes 4 n
  else 255 :: leBytes 8 n

/-- `ss << x` for a byte vector or a string. -/
def vectorBytes (v : Bytes) : Bytes := compactSizeBytes v.length ++ v

namespace Unserialize

theorem guard_bind_apply {α : Type} (p : Prop) [Decidable p] (r : Unserialize α) (s : Bytes) :
    (guard p >>= fun _ => r) s = if p then r s else none := by
  unfold guard
  split_ifs <;> rfl

/-- An integer of `k` bytes that is at least `low`. -/
def uintFrom (k low : ℕ) : Unserialize ℕ := fun s =>
  (uint k s).bind fun p => if low ≤ p.1 then some p else none

/-- `ReadCompactSize` after its first byte. -/
def sizeTail (chSize : ℕ) : Unserialize ℕ :=
  if chSize < 253 then pure chSize
  else if chSize = 253 then uintFrom 2 253
  else if chSize = 254 then uintFrom 4 0x10000
  else uintFrom 8 0x100000000

theorem compactSize_cons (b : UInt8) (s : Bytes) :
    compactSize (b :: s) = (sizeTail b.toNat s).bind fun p =>
      if p.1 ≤ maxSize then some p else none := by
  have hread : Unserialize.uint 1 (b :: s) = some (b.toNat, s) := by
    have := reads_uint (k := 1) (n := b.toNat) (by simpa using b.toNat_lt) s
    rwa [show leBytes 1 b.toNat = [b] by simp [leBytes]] at this
  have hwide : ∀ k low, ((do
        let n ← uint k
        guard (low ≤ n)
        guard (n ≤ maxSize)
        pure n : Unserialize ℕ)) s =
      (uintFrom k low s).bind fun p => if p.1 ≤ maxSize then some p else none := by
    intro k low
    rw [uintFrom, bind_apply, Option.bind_assoc]
    refine congrArg _ (funext fun p => ?_)
    rw [guard_bind_apply, guard_bind_apply]
    split_ifs <;> simp_all [pure_apply]
  rw [compactSize, bind_apply, hread, sizeTail]
  simp only [Option.bind_some, pure_bind]
  split_ifs
  · rw [guard_bind_apply]
    rfl
  · exact hwide _ _
  · exact hwide _ _
  · exact hwide _ _

theorem uintFrom_leBytes {k low n : ℕ} (hlow : low ≤ n) (hk : n < 256 ^ k) (s : Bytes) :
    uintFrom k low (leBytes k n ++ s) = some (n, s) := by
  rw [uintFrom, reads_uint hk]
  exact if_pos hlow

theorem uintFrom_exact {k low n : ℕ} {s s' : Bytes} (h : uintFrom k low s = some (n, s')) :
    s = leBytes k n ++ s' ∧ low ≤ n ∧ n < 256 ^ k := by
  obtain ⟨⟨m, s₁⟩, huint, hif⟩ := Option.bind_eq_some_iff.1 h
  obtain ⟨hs, hlt⟩ := uint_exact huint
  by_cases hlow : low ≤ m
  · rw [if_pos hlow] at hif
    cases hif
    exact ⟨hs, hlow, hlt⟩
  · rw [if_neg hlow] at hif
    cases hif

/-- A size that is not too large is read back. -/
theorem reads_compactSize {n : ℕ} (h : n ≤ maxSize) :
    Reads Unserialize.compactSize (compactSizeBytes n) n := by
  intro s
  have hmax : maxSize = 0x02000000 := rfl
  have htail : ∀ (b : UInt8) (written : Bytes), sizeTail b.toNat (written ++ s) = some (n, s) →
      compactSize (b :: written ++ s) = some (n, s) := by
    intro b written ht
    rw [cons_append, compactSize_cons, ht]
    exact if_pos h
  unfold compactSizeBytes
  split_ifs with h₁ h₂ h₃
  · have hto : (ofNat n).toNat = n := by rw [toNat_ofNat']; omega
    exact htail _ [] (by rw [hto, sizeTail, if_pos h₁]; rfl)
  · have h253 : sizeTail (toNat 253) = uintFrom 2 253 := rfl
    exact htail _ _ (by rw [h253]; exact uintFrom_leBytes (by omega) (by omega) s)
  · have h254 : sizeTail (toNat 254) = uintFrom 4 0x10000 := rfl
    exact htail _ _ (by rw [h254]; exact uintFrom_leBytes (by omega) (by omega) s)
  · omega

/-- A size is read only from the bytes that are written for it. -/
theorem compactSize_exact {n : ℕ} {s s' : Bytes} (h : Unserialize.compactSize s = some (n, s')) :
    s = compactSizeBytes n ++ s' ∧ n ≤ maxSize := by
  have hmax : maxSize = 0x02000000 := rfl
  match s with
  | [] => cases h
  | b :: s =>
    rw [compactSize_cons] at h
    obtain ⟨⟨m, s₁⟩, htail, hif⟩ := Option.bind_eq_some_iff.1 h
    by_cases hle : m ≤ maxSize
    swap
    · rw [if_neg hle] at hif
      cases hif
    rw [if_pos hle] at hif
    cases hif
    refine ⟨?_, hle⟩
    unfold sizeTail at htail
    split_ifs at htail with h₁ h₂ h₃
    · cases htail
      rw [compactSizeBytes, if_pos h₁, UInt8.ofNat_toNat]
      rfl
    · obtain ⟨rfl, hlow, hlt⟩ := uintFrom_exact htail
      obtain rfl : b = 253 := UInt8.toNat_inj.1 h₂
      rw [compactSizeBytes, if_neg (by omega), if_pos (by norm_num at hlt; omega)]
      rfl
    · obtain ⟨rfl, hlow, hlt⟩ := uintFrom_exact htail
      obtain rfl : b = 254 := UInt8.toNat_inj.1 h₃
      rw [compactSizeBytes, if_neg (by omega), if_neg (by omega),
        if_pos (by norm_num at hlt; omega)]
      rfl
    · obtain ⟨-, hlow, -⟩ := uintFrom_exact htail
      omega

theorem extensible_compactSize : Extensible Unserialize.compactSize := by
  intro s n s' h t
  obtain ⟨rfl, hn⟩ := compactSize_exact h
  rw [append_assoc]
  exact reads_compactSize hn _

theorem reads_vector {v : Bytes} (h : v.length ≤ maxSize) :
    Reads Unserialize.vector (vectorBytes v) v :=
  (reads_compactSize h).bind (reads_bytes v)

theorem vector_exact {v s s' : Bytes} (h : Unserialize.vector s = some (v, s')) :
    s = vectorBytes v ++ s' ∧ v.length ≤ maxSize := by
  rw [Unserialize.vector, bind_apply] at h
  obtain ⟨⟨n, s₁⟩, hsize, hbytes⟩ := Option.bind_eq_some_iff.1 h
  obtain ⟨rfl, hn⟩ := compactSize_exact hsize
  obtain ⟨rfl, rfl⟩ := splitBytes_eq_some.1 hbytes
  exact ⟨by rw [vectorBytes, append_assoc], hn⟩

end Unserialize

/-! ### Readers with their writers -/

/-- `ss << x` for an `int32_t` or an `int64_t` of `k` bytes, two's complement. -/
def intBytes (k : ℕ) (v : ℤ) : Bytes := leBytes k (v % 2 ^ (8 * k)).toNat

/-- The values of a signed integer of `k` bytes. -/
def IntRange (k : ℕ) (v : ℤ) : Prop := -2 ^ (8 * k - 1) ≤ v ∧ v < 2 ^ (8 * k - 1)

/-- `ss << x` for a vector of values that are not bytes. -/
def listBytes {α : Type} (write : α → Bytes) (as : List α) : Bytes :=
  compactSizeBytes as.length ++ (as.map write).flatten

namespace Unserialize

theorem codec_uint (k : ℕ) : Codec (uint k) (leBytes k) (· < 256 ^ k) where
  reads h := reads_uint h
  exact h := uint_exact h

theorem codec_uint256 : Codec uint256 uint256Bytes (· < 2 ^ 256) where
  reads h := reads_uint256 h
  exact h := by
    obtain ⟨hs, hlt⟩ := uint_exact h
    refine ⟨hs, ?_⟩
    norm_num at hlt ⊢
    exact hlt

theorem codec_uint8 : Codec uint8 (fun b => [b]) (fun _ => True) where
  reads _ := reads_uint8 _
  exact h := by
    rename_i s b s'
    cases s with
    | nil => cases h
    | cons x t =>
      rw [uint8_cons] at h
      cases h
      exact ⟨rfl, trivial⟩

theorem codec_compactSize : Codec compactSize compactSizeBytes (· ≤ maxSize) where
  reads h := reads_compactSize h
  exact h := compactSize_exact h

theorem codec_vector : Codec vector vectorBytes (·.length ≤ maxSize) where
  reads h := reads_vector h
  exact h := vector_exact h

/-- The number that `int` makes of the bits, and the bits of a number. -/
theorem toNat_emod_eq_iff {k u : ℕ} {v : ℤ} (hk : 0 < k) :
    (IntRange k v ∧ u = (v % 2 ^ (8 * k)).toNat)
      ↔ u < 256 ^ k ∧ v = if u < 2 ^ (8 * k - 1) then (u : ℤ) else (u : ℤ) - 2 ^ (8 * k) := by
  have hnat : (256 : ℕ) ^ k = 2 * 2 ^ (8 * k - 1) := by
    rw [show (256 : ℕ) = 2 ^ 8 from rfl, ← Nat.pow_mul, ← pow_succ',
      show 8 * k - 1 + 1 = 8 * k by omega]
  have hint : (2 : ℤ) ^ (8 * k) = 2 * 2 ^ (8 * k - 1) := by
    rw [← pow_succ', show 8 * k - 1 + 1 = 8 * k by omega]
  have hcast : ((2 ^ (8 * k - 1) : ℕ) : ℤ) = 2 ^ (8 * k - 1) := by push_cast; rfl
  have hpos : (0 : ℤ) < 2 ^ (8 * k - 1) := by positivity
  rw [IntRange, hint, hnat]
  generalize (2 : ℤ) ^ (8 * k - 1) = half at *
  generalize 2 ^ (8 * k - 1) = half' at *
  subst hcast
  constructor
  · rintro ⟨⟨hlow, hhigh⟩, rfl⟩
    rcases lt_or_ge v 0 with hneg | hnonneg
    · have hmod : v % (2 * (half' : ℤ)) = v + 2 * half' := by
        rw [← Int.add_emod_right, Int.emod_eq_of_lt (by omega) (by omega)]
      rw [hmod]
      split_ifs <;> omega
    · rw [Int.emod_eq_of_lt hnonneg (by omega)]
      split_ifs <;> omega
  · rintro ⟨hu, rfl⟩
    split_ifs with hsmall
    · rw [Int.emod_eq_of_lt (by omega) (by omega)]
      omega
    · rw [Int.sub_emod_right, Int.emod_eq_of_lt (by omega) (by omega)]
      omega

theorem codec_int {k : ℕ} (hk : 0 < k) : Codec (int k) (intBytes k) (IntRange k) := by
  refine Codec.of_eq_some fun s s' v => ?_
  rw [int, (codec_uint k).bind_eq_some]
  simp only [pure_apply, Option.some.injEq, Prod.mk.injEq]
  constructor
  · rintro ⟨u, hu, t, rfl, rfl, rfl⟩
    obtain ⟨hrange, hbits⟩ := (toNat_emod_eq_iff hk).2 ⟨hu, rfl⟩
    exact ⟨hrange, by rw [intBytes, ← hbits]⟩
  · rintro ⟨hrange, rfl⟩
    obtain ⟨hu, hv⟩ := (toNat_emod_eq_iff hk).1 ⟨hrange, rfl⟩
    exact ⟨_, hu, s', rfl, hv.symm, rfl⟩

/-- As many values as there are. -/
theorem codec_many {α : Type} {one : Unserialize α} {write : α → Bytes} {Ok : α → Prop}
    (h : Codec one write Ok) (n : ℕ) :
    Codec (many one n) (fun as => (as.map write).flatten)
      (fun as => as.length = n ∧ ∀ a ∈ as, Ok a) := by
  refine Codec.of_eq_some ?_
  induction n with
  | zero =>
    intro s s' as
    rw [many, pure_apply, Option.some.injEq, Prod.mk.injEq]
    constructor
    · rintro ⟨rfl, rfl⟩
      simp
    · rintro ⟨⟨hlen, -⟩, rfl⟩
      obtain rfl := length_eq_zero_iff.1 hlen
      exact ⟨rfl, rfl⟩
  | succ n ih =>
    intro s s' as
    rw [many, h.bind_eq_some]
    simp only [bind_apply, Option.bind_eq_some_iff, pure_apply, Option.some.injEq,
      Prod.mk.injEq, Prod.exists, ih]
    constructor
    · rintro ⟨a, ha, t, rfl, rest, s'', ⟨⟨rfl, hall⟩, rfl⟩, rfl, rfl⟩
      refine ⟨⟨rfl, forall_mem_cons.2 ⟨ha, hall⟩⟩, ?_⟩
      rw [map_cons, flatten_cons, append_assoc]
    · rintro ⟨⟨hlen, hall⟩, rfl⟩
      cases as with
      | nil => cases hlen
      | cons a rest =>
        obtain ⟨ha, hrest⟩ := forall_mem_cons.1 hall
        refine ⟨a, ha, (rest.map write).flatten ++ s', ?_, rest, s',
          ⟨⟨Nat.succ.inj hlen, hrest⟩, rfl⟩, rfl, rfl⟩
        rw [map_cons, flatten_cons, append_assoc]

theorem reads_many {α : Type} {one : Unserialize α} {write : α → Bytes} {as : List α}
    (h : ∀ a ∈ as, Reads one (write a) a) :
    Reads (many one as.length) (as.map write).flatten as := by
  induction as with
  | nil => exact reads_pure []
  | cons a as ih =>
    obtain ⟨ha, has⟩ := forall_mem_cons.1 h
    have hrest := ha.bind (f := fun a => many one as.length >>= fun as => pure (a :: as))
      ((ih has).bind (reads_pure (a :: as)))
    rwa [append_nil] at hrest

theorem reads_vectorOf {α : Type} {one : Unserialize α} {write : α → Bytes} {as : List α}
    (hlen : as.length ≤ maxSize) (h : ∀ a ∈ as, Reads one (write a) a) :
    Reads (vectorOf one) (listBytes write as) as :=
  (reads_compactSize hlen).bind (reads_many h)

theorem codec_vectorOf {α : Type} {one : Unserialize α} {write : α → Bytes} {Ok : α → Prop}
    (h : Codec one write Ok) :
    Codec (vectorOf one) (listBytes write) (fun as => as.length ≤ maxSize ∧ ∀ a ∈ as, Ok a) := by
  refine Codec.of_eq_some fun s s' as => ?_
  rw [vectorOf, codec_compactSize.bind_eq_some]
  simp only [(codec_many h _).eq_some, listBytes, append_assoc]
  constructor
  · rintro ⟨n, hn, t, rfl, ⟨rfl, hall⟩, rfl⟩
    exact ⟨⟨hn, hall⟩, rfl⟩
  · rintro ⟨⟨hn, hall⟩, rfl⟩
    exact ⟨as.length, hn, _, rfl, ⟨rfl, hall⟩, rfl⟩

end Unserialize

/-! ### Opreturn scripts -/

/-- `CScript() << OP_RETURN << vopret`. -/
def opReturnScript (vopret : Bytes) : CScript := OP_RETURN :: pushData vopret

/-- A push is read back up to the length that its four-byte form can hold. -/
theorem getOp_pushData (b : Bytes) :
    ∃ opcode pc, getOp (pushData b) = some (opcode, b.take (b.length % 2 ^ 32), pc) := by
  have hsplit : ∀ k, 256 ^ k ≤ 2 ^ 32 → b.length < 256 ^ k ∨ k = 4 → ∀ opcode : UInt8,
      opcode ≤ OP_PUSHDATA4 → (∀ pc, pushSize opcode pc =
        (splitBytes k pc).map fun r => (fromLE r.1, r.2)) →
      ∃ pc, getOp (opcode :: leBytes k b.length ++ b) =
        some (opcode, b.take (b.length % 2 ^ 32), pc) := by
    intro k hk hlen opcode hop hpush
    have hsize : splitBytes k (leBytes k b.length ++ b) = some (leBytes k b.length, b) :=
      splitBytes_eq_some.2 ⟨rfl, length_leBytes _ _⟩
    have hmod : b.length % 256 ^ k = b.length % 2 ^ 32 := by
      rcases hlen with hlen | rfl
      · rw [Nat.mod_eq_of_lt hlen, Nat.mod_eq_of_lt (hlen.trans_le hk)]
      · rfl
    refine ⟨b.drop (b.length % 2 ^ 32), ?_⟩
    rw [cons_append, getOp, if_pos hop, hpush, hsize]
    simp only [Option.map_some, Option.bind_eq_bind, Option.bind_some, fromLE_leBytes, hmod]
    rw [splitBytes, if_neg (not_lt.2 (Nat.mod_le _ _))]
    rfl
  unfold pushData
  simp only
  split_ifs with h₁ h₂ h₃
  · have h76 : OP_PUSHDATA1.toNat = 76 := rfl
    have hto : (ofNat b.length).toNat = b.length := by rw [toNat_ofNat']; omega
    have hop : ofNat b.length < OP_PUSHDATA1 := by rw [lt_iff_toNat_lt, hto]; exact h₁
    have hop' : ofNat b.length ≤ OP_PUSHDATA4 := by
      rw [le_iff_toNat_le, hto]
      exact (h₁.trans (by decide)).le
    refine ⟨ofNat b.length, [], ?_⟩
    rw [getOp, if_pos hop', pushSize, if_pos hop, hto]
    simp only [Option.bind_eq_bind, Option.bind_some]
    rw [splitBytes, if_neg (lt_irrefl _), Nat.mod_eq_of_lt (by omega), drop_length]
    rfl
  · obtain ⟨pc, h⟩ := hsplit 1 (by norm_num) (Or.inl (by omega)) OP_PUSHDATA1 (by decide)
      fun pc => rfl
    exact ⟨_, pc, h⟩
  · obtain ⟨pc, h⟩ := hsplit 2 (by norm_num) (Or.inl (by omega)) OP_PUSHDATA2 (by decide)
      fun pc => rfl
    exact ⟨_, pc, h⟩
  · obtain ⟨pc, h⟩ := hsplit 4 (by norm_num) (Or.inr rfl) OP_PUSHDATA4 (by decide) fun pc => rfl
    exact ⟨_, pc, h⟩

theorem getOpReturnData_opReturnScript (vopret : Bytes) :
    getOpReturnData (opReturnScript vopret) = vopret.take (vopret.length % 2 ^ 32) := by
  obtain ⟨opcode, pc, h⟩ := getOp_pushData vopret
  have hret : getOp (opReturnScript vopret) = some (OP_RETURN, [], pushData vopret) := by
    rw [opReturnScript, getOp, if_neg (by decide)]
  rw [getOpReturnData, hret]
  simp only [if_true, h]

end Komodo
