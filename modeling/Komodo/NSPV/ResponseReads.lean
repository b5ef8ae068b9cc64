/-
# When a response is read within its bounds

`komodo_nSPVresp` of `src/src/komodo_nSPV_superlite.h` against the demand at the top of
`src/src/komodo_nSPV.h` that all vector lengths be checked on receipt.

The readers have no view of how much is left.  How much a reader takes is determined by the counts
and lengths that are in the response (`Takes`); `InBounds` says for every kind that it is there, and
that no length of a transaction or a proof is so large that the reader keeps it without its bytes.
A step from a consistent client is sound exactly then, and so is a run (`sound_iff`).
-/

import Komodo.Lib.StreamSize
import Komodo.NSPV.Superlite

namespace Komodo
namespace NSPV

open Streams Unserialize List

namespace Msg

/-! ### Lengths that stand in a response -/

/-- The `uint16_t` at a position. -/
def countAt (s : Bytes) (i : ℕ) : ℕ := fromLE ((s.drop i).take 2)

/-- The `int32_t` at a position. -/
def int32At (s : Bytes) (i : ℕ) : ℤ := int32 (fromLE ((s.drop i).take 4))

/-- How many bytes `iguana_rwuint8vec` takes behind a length. -/
def dataLen (n : ℤ) : ℕ := if 0 < n ∧ n < MAX_TX_SIZE_AFTER_SAPLING then n.toNat else 0

/-- Two lengths behind position `i` with their bytes, and `rest` bytes behind them: the lengths
are not too large, and everything is there. -/
def PairInBounds (s : Bytes) (i rest : ℕ) : Prop :=
  let first := int32At s i
  let second := int32At s (i + 4 + dataLen first)
  first < MAX_TX_SIZE_AFTER_SAPLING ∧ second < MAX_TX_SIZE_AFTER_SAPLING
    ∧ i + 8 + dataLen first + dataLen second + rest ≤ s.length

/-- The bytes behind the kind are as many as the reader takes. -/
def KindInBounds (kind : UInt8) (s : Bytes) : Prop :=
  if kind = NSPV_INFORESP then 1636 ≤ s.length
  else if kind = NSPV_UTXOSRESP then 96 + 56 * countAt s 0 ≤ s.length
  else if kind = NSPV_TXIDSRESP then 80 + 48 * countAt s 0 ≤ s.length
  else if kind = NSPV_MEMPOOLRESP then 112 + 32 * countAt s 0 ≤ s.length
  else if kind = NSPV_NTZSRESP then 220 ≤ s.length
  else if kind = NSPV_NTZSPROOFRESP then PairInBounds s (88 + 1484 * countAt s 0) 0
  else if kind = NSPV_TXPROOFRESP then PairInBounds s 48 32
  else if kind = NSPV_SPENTINFORESP then PairInBounds s 48 72
  else if kind = NSPV_BROADCASTRESP then 36 ≤ s.length
  else if kind = NSPV_CCMODULEUTXOSRESP then 96 + 56 * countAt s 0 ≤ s.length
  else True

/-- A response that is read at all is read within its bounds. -/
def InBounds (response : Bytes) : Prop :=
  int32 response.length ≤ 0 ∨
    match response with
    | [] => True
    | kind :: s => KindInBounds kind s

/-! ### How much is taken -/

theorem takes_bytes (n : ℕ) : Takes (bytes n) fun _ => n := by
  intro s
  unfold TakesAt bytes splitBytes
  constructor
  · intro hle
    exact ⟨s.take n, if_neg (Nat.not_lt.2 hle)⟩
  · intro hlt
    exact if_pos hlt

theorem takes_uint (n : ℕ) : Takes (uint n) fun _ => n := (takes_bytes n).map fromLE

theorem takes_int (n : ℕ) : Takes (int n) fun _ => n :=
  ((takes_uint n).field fun _ => .pure _ : Takes (int n) _)

theorem takes_uint8 : Takes uint8 fun _ => 1 := (takes_uint 1).map UInt8.ofNat

theorem takes_uint256 : Takes uint256 fun _ => 32 := takes_uint 32

theorem takes_array (n : ℕ) : Takes (array n) fun _ => n := by
  intro s
  unfold TakesAt array
  constructor
  · intro hle
    exact ⟨_, dif_neg (Nat.not_lt.2 hle)⟩
  · intro hlt
    exact dif_pos hlt

theorem takes_many {α : Type} {one : Unserialize α} {k : ℕ} (h : Takes one fun _ => k) (n : ℕ) :
    Takes (many one n) fun _ => k * n := by
  induction n with
  | zero => exact .pure []
  | succ n ih =>
    have hcons : Takes (many one (n + 1)) _ := h.field fun _ => ih.field fun _ => .pure _
    exact hcons.congr fun _ => by ring

variable {s s' : Bytes}

theorem uint_value {n : ℕ} {v : ℕ} (h : uint n s = some (v, s')) :
    v = fromLE (s.take n) := by
  obtain ⟨rfl, hlt⟩ := uint_exact h
  rw [take_left' (length_leBytes n v), fromLE_leBytes, Nat.mod_eq_of_lt hlt]

theorem int_value {v : ℤ} (h : int 4 s = some (v, s')) : v = int32At s 0 := by
  rw [int, bind_apply, Option.bind_eq_some_iff] at h
  obtain ⟨⟨u, t⟩, hu, hpure⟩ := h
  obtain ⟨-, hlt⟩ := uint_exact hu
  have hv := (Prod.mk.inj (Option.some.inj hpure)).1
  rw [int32At, drop_zero, ← uint_value hu, ← hv, int32]
  norm_num at hlt ⊢
  split_ifs with hsmall
  · exact (Int.bmod_eq_of_le (by omega) (by omega)).symm
  · rw [Int.bmod_def]
    omega

theorem takes_vec {α : Type} {one : Unserialize α} {k : ℕ} (h : Takes one fun _ => k) :
    Takes (rwvec one) fun s => 2 + k * countAt s 0 := by
  have hvec : Takes (rwvec one) _ :=
    (takes_uint 2).bind_value (fun h => uint_value h) fun n =>
      (takes_many h n).field fun _ => .pure _
  exact hvec.congr fun s => rfl

theorem takes_uint8vec : Takes rwuint8vec fun s => 4 + dataLen (int32At s 0) := by
  have hvec : Takes rwuint8vec _ :=
    (takes_int 4).bind_value (fun h => int_value h) fun n =>
      (show Takes _ (fun _ => dataLen n) by
        unfold dataLen
        split_ifs with hin
        · exact ((takes_bytes n.toNat).field fun _ => .pure _ : Takes _ _)
        · exact .pure _)
  exact hvec

theorem takes_equihdr : Takes rwequihdr fun _ => 1484 :=
  ((takes_int 4).field fun _ => takes_uint256.field fun _ => takes_uint256.field fun _ =>
    takes_uint256.field fun _ => (takes_uint 4).field fun _ => (takes_uint 4).field fun _ =>
    takes_uint256.field fun _ => (takes_array 1344).field fun _ => .pure _ : Takes rwequihdr _)

theorem takes_ntz : Takes rwntz fun _ => 108 :=
  (takes_uint256.field fun _ => takes_uint256.field fun _ => takes_uint256.field fun _ =>
    (takes_int 4).field fun _ => (takes_int 4).field fun _ => (takes_uint 4).field fun _ =>
    .pure _ : Takes rwntz _)

theorem NtzsResp.takes : Takes NtzsResp.unserialize fun _ => 220 :=
  (takes_ntz.field fun _ => takes_ntz.field fun _ => (takes_int 4).field fun _ => .pure _ :
    Takes NtzsResp.unserialize _)

theorem InfoResp.takes : Takes InfoResp.unserialize fun _ => 1636 :=
  (takes_ntz.field fun _ => takes_uint256.field fun _ => (takes_int 4).field fun _ =>
    (takes_int 4).field fun _ => takes_equihdr.field fun _ => (takes_uint 4).field fun _ =>
    .pure _ : Takes InfoResp.unserialize _)

theorem BroadcastResp.takes : Takes BroadcastResp.unserialize fun _ => 36 :=
  (takes_uint256.field fun _ => (takes_int 4).field fun _ => .pure _ :
    Takes BroadcastResp.unserialize _)

theorem UtxoResp.takes : Takes UtxoResp.unserialize fun _ => 56 :=
  (takes_uint256.field fun _ => (takes_int 8).field fun _ => (takes_int 8).field fun _ =>
    (takes_int 4).field fun _ => (takes_int 4).field fun _ => .pure _ :
    Takes UtxoResp.unserialize _)

theorem TxidResp.takes : Takes TxidResp.unserialize fun _ => 48 :=
  (takes_uint256.field fun _ => (takes_int 8).field fun _ => (takes_int 4).field fun _ =>
    (takes_int 4).field fun _ => .pure _ : Takes TxidResp.unserialize _)

theorem UtxosResp.takes : Takes UtxosResp.unserialize fun s => 96 + 56 * countAt s 0 := by
  have htakes : Takes UtxosResp.unserialize _ :=
    (takes_vec UtxoResp.takes).bind fun _ => (takes_int 8).field fun _ => (takes_int 8).field fun _ =>
      (takes_int 4).field fun _ => (takes_int 4).field fun _ => (takes_uint 2).field fun _ =>
      (takes_int 4).field fun _ => (takes_array 64).field fun _ => .pure _
  exact htakes.congr fun s => by omega

theorem TxidsResp.takes : Takes TxidsResp.unserialize fun s => 80 + 48 * countAt s 0 := by
  have htakes : Takes TxidsResp.unserialize _ :=
    (takes_vec TxidResp.takes).bind fun _ => (takes_int 4).field fun _ => (takes_int 4).field fun _ =>
      (takes_uint 2).field fun _ => (takes_int 4).field fun _ => (takes_array 64).field fun _ =>
      .pure _
  exact htakes.congr fun s => by omega

theorem MempoolResp.takes : Takes MempoolResp.unserialize fun s => 112 + 32 * countAt s 0 := by
  have htakes : Takes MempoolResp.unserialize _ :=
    (takes_vec takes_uint256).bind fun _ => takes_uint256.field fun _ => (takes_int 4).field fun _ =>
      (takes_int 4).field fun _ => (takes_int 4).field fun _ => takes_uint8.field fun _ =>
      takes_uint8.field fun _ => (takes_array 64).field fun _ => .pure _
  exact htakes.congr fun s => by omega

/-- What two lengths with their bytes take. -/
def pairSize (s : Bytes) (i : ℕ) : ℕ :=
  8 + dataLen (int32At s i) + dataLen (int32At s (i + 4 + dataLen (int32At s i)))

theorem int32At_drop (s : Bytes) (k i : ℕ) : int32At (s.drop k) i = int32At s (k + i) := by
  rw [int32At, int32At, drop_drop]

theorem pairSize_drop (s : Bytes) (k : ℕ) : pairSize (s.drop k) 0 = pairSize s k := by
  simp only [pairSize, int32At_drop, Nat.add_zero, Nat.zero_add, Nat.add_assoc]

theorem takes_pair {α : Type} {f : Counted UInt8 → Counted UInt8 → Unserialize α} {rest : ℕ}
    (h : ∀ v w, Takes (f v w) fun _ => rest) :
    Takes (rwuint8vec >>= fun v => rwuint8vec >>= f v) fun s => pairSize s 0 + rest := by
  have htakes : Takes (rwuint8vec >>= fun v => rwuint8vec >>= f v) _ :=
    takes_uint8vec.bind fun v => takes_uint8vec.bind (h v)
  refine htakes.congr fun s => ?_
  rw [pairSize, int32At_drop, Nat.add_zero, Nat.zero_add]
  generalize int32At s 0 = first
  omega

theorem TxProof.takes : Takes TxProof.unserialize fun s => 80 + pairSize s 48 := by
  have htakes : Takes TxProof.unserialize _ :=
    takes_uint256.field fun _ => (takes_int 8).field fun _ => (takes_int 4).field fun _ =>
      (takes_int 4).field fun _ => takes_pair fun _ _ => takes_uint256.field fun _ => .pure _
  refine htakes.congr fun s => ?_
  rw [drop_drop, drop_drop, drop_drop, pairSize_drop]
  show 32 + (8 + (4 + (4 + (pairSize s 48 + (32 + 0))))) = _
  omega

theorem SpentInfo.takes : Takes SpentInfo.unserialize fun s => 120 + pairSize s 48 := by
  have htakes : Takes SpentInfo.unserialize _ :=
    TxProof.takes.bind fun _ => takes_uint256.field fun _ => (takes_int 4).field fun _ =>
      (takes_int 4).field fun _ => .pure _
  exact htakes.congr fun s => by omega

theorem NtzProofShared.takes :
    Takes NtzProofShared.unserialize fun s => 16 + 1484 * countAt s 0 := by
  have htakes : Takes NtzProofShared.unserialize _ :=
    (takes_vec takes_equihdr).bind fun _ => (takes_int 4).field fun _ => (takes_int 4).field fun _ =>
      (takes_int 4).field fun _ => (takes_uint 2).field fun _ => .pure _
  exact htakes.congr fun s => by omega

theorem NtzsProofResp.takes : Takes NtzsProofResp.unserialize
    fun s => 88 + 1484 * countAt s 0 + pairSize s (88 + 1484 * countAt s 0) := by
  have htakes : Takes NtzsProofResp.unserialize _ :=
    NtzProofShared.takes.bind fun _ => takes_uint256.field fun _ => takes_uint256.field fun _ =>
      (takes_int 4).field fun _ => (takes_int 4).field fun _ => takes_pair fun _ _ => .pure _
  refine htakes.congr fun s => ?_
  rw [drop_drop, drop_drop, drop_drop, drop_drop, pairSize_drop]
  generalize countAt s 0 = n
  rw [show 16 + 1484 * n + (32 + (32 + (4 + 4))) = 88 + 1484 * n by omega]
  omega

/-! ### What is read -/

theorem VecFits.consistent {α : Type} {Ok : α → Prop} {v : Counted α} (h : VecFits Ok v) :
    v.Consistent := Or.inr h.1

variable {v : Counted UInt8}

theorem Uint8vecFits.consistent_iff (h : Uint8vecFits v) :
    v.Consistent ↔ v.num < MAX_TX_SIZE_AFTER_SAPLING := by
  obtain ⟨-, hheld⟩ := h
  unfold Counted.Consistent
  unfold MAX_TX_SIZE_AFTER_SAPLING at hheld ⊢
  split_ifs at hheld with hin
  · exact ⟨fun _ => hin.2, fun _ => Or.inr hheld⟩
  · rw [hheld, length_nil]
    omega

theorem length_uint8vecBytes_of_fits (h : Uint8vecFits v) :
    (uint8vecBytes v).length = 4 + dataLen v.num := by
  obtain ⟨-, hheld⟩ := h
  rw [uint8vecBytes, dataLen, length_append, intBytes, length_leBytes]
  split_ifs at hheld ⊢ with hin
  · rw [hheld, Int.toNat_natCast, take_length]
  · rfl

theorem int32At_append {before after : Bytes} {n : ℤ} (h : IntRange 4 n) :
    int32At (before ++ (intBytes 4 n ++ after)) before.length = n := by
  rw [int32At, drop_left]
  have hread : int 4 (intBytes 4 n ++ after) = some (n, after) :=
    (codec_int (show 0 < 4 by omega)).reads h after
  exact (int_value hread).symm

theorem pair_nums (before after : Bytes) {v w : Counted UInt8} (hv : Uint8vecFits v)
    (hw : Uint8vecFits w) :
    let s := before ++ (uint8vecBytes v ++ (uint8vecBytes w ++ after))
    int32At s before.length = v.num ∧ int32At s (before.length + 4 + dataLen v.num) = w.num := by
  constructor
  · simp only [uint8vecBytes, append_assoc]
    exact int32At_append hv.1
  · have hlen : (before ++ uint8vecBytes v).length = before.length + 4 + dataLen v.num := by
      rw [length_append, length_uint8vecBytes_of_fits hv, Nat.add_assoc]
    rw [← hlen, ← append_assoc]
    generalize before ++ uint8vecBytes v = front
    simp only [uint8vecBytes, append_assoc]
    exact int32At_append hw.1

theorem TxProof.nums {P : TxProof} (h : TxProof.unserialize s = some (P, s')) :
    int32At s 48 = P.tx.num ∧ int32At s (48 + 4 + dataLen P.tx.num) = P.txproof.num := by
  obtain ⟨rfl, hfits⟩ := TxProof.codec.exact h
  obtain ⟨-, -, -, -, htx, hproof, -⟩ := hfits
  have hlen : (uint256Bytes P.txid ++ intBytes 8 P.unspentvalue ++ intBytes 4 P.height
      ++ intBytes 4 P.vout).length = 48 := by
    simp only [length_append, length_uint256Bytes, intBytes, length_leBytes]
  have hnums := pair_nums (uint256Bytes P.txid ++ intBytes 8 P.unspentvalue ++ intBytes 4 P.height
    ++ intBytes 4 P.vout) (uint256Bytes P.hashblock ++ s') htx hproof
  rw [hlen] at hnums
  simpa only [TxProof.serialize, append_assoc] using hnums

theorem SpentInfo.nums {I : SpentInfo} (h : SpentInfo.unserialize s = some (I, s')) :
    int32At s 48 = I.spent.tx.num
      ∧ int32At s (48 + 4 + dataLen I.spent.tx.num) = I.spent.txproof.num := by
  obtain ⟨hs, hfits⟩ := SpentInfo.codec.exact h
  rw [SpentInfo.serialize, append_assoc, append_assoc, append_assoc] at hs
  have hspent := TxProof.codec.reads hfits.1 (uint256Bytes I.txid ++ (intBytes 4 I.vout
    ++ (intBytes 4 I.spentvini ++ s')))
  rw [← hs] at hspent
  exact TxProof.nums hspent

theorem countAt_vecBytes {α : Type} {write : α → Bytes} {Ok : α → Prop} {v : Counted α}
    (h : VecFits Ok v) (after : Bytes) : countAt (vecBytes write v ++ after) 0 = v.held.length := by
  obtain ⟨hnum, hlt, -⟩ := h
  rw [vecBytes, hnum, Int.toNat_natCast, append_assoc]
  exact (uint_value (reads_uint hlt _)).symm

theorem NtzsProofResp.nums {P : NtzsProofResp}
    (h : NtzsProofResp.unserialize s = some (P, s')) :
    int32At s (88 + 1484 * countAt s 0) = P.prevntz.num
      ∧ int32At s (88 + 1484 * countAt s 0 + 4 + dataLen P.prevntz.num) = P.nextntz.num := by
  obtain ⟨rfl, hfits⟩ := NtzsProofResp.codec.exact h
  obtain ⟨⟨hhdrs, -⟩, -, -, -, -, hprev, hnext⟩ := hfits
  have hcount : countAt (P.serialize ++ s') 0 = P.common.hdrs.held.length := by
    simp only [NtzsProofResp.serialize, NtzProofShared.serialize, append_assoc]
    exact countAt_vecBytes hhdrs _
  have hlen : (P.common.serialize ++ uint256Bytes P.prevtxid ++ uint256Bytes P.nexttxid
      ++ intBytes 4 P.prevtxidht ++ intBytes 4 P.nexttxidht).length
        = 88 + 1484 * P.common.hdrs.held.length := by
    have hvec := length_vecBytes length_equihdrBytes hhdrs
    rw [hhdrs.1] at hvec
    simp only [NtzProofShared.serialize, length_append, length_uint256Bytes, intBytes,
      length_leBytes]
    omega
  have hnums := pair_nums (P.common.serialize ++ uint256Bytes P.prevtxid ++ uint256Bytes P.nexttxid
    ++ intBytes 4 P.prevtxidht ++ intBytes 4 P.nexttxidht) s' hprev hnext
  rw [hcount]
  rw [hlen] at hnums
  simpa only [NtzsProofResp.serialize, append_assoc] using hnums

/-! ### Copies -/

theorem copyHeld_eq_some {α : Type} {v : Counted α} (h : v.held = [] ∨ v.num = v.held.length) :
    copyHeld v = some v := by
  unfold copyHeld
  split_ifs with hnil hlen
  · rfl
  · have hnum := h.resolve_left hnil
    rw [hnum, Int.toNat_natCast, take_length, ← hnum]
  · have hnum := h.resolve_left hnil
    omega

theorem Uint8vecFits.held (h : Uint8vecFits v) :
    v.held = [] ∨ v.num = v.held.length := by
  obtain ⟨-, hheld⟩ := h
  split_ifs at hheld
  · exact Or.inr hheld
  · exact Or.inl hheld

theorem TxProof.copy_eq {P : TxProof} (h : P.Fits) : P.copy = some P := by
  obtain ⟨-, -, -, -, htx, hproof, -⟩ := h
  unfold TxProof.copy
  rw [copyHeld_eq_some (Uint8vecFits.held htx), copyHeld_eq_some (Uint8vecFits.held hproof)]
  split_ifs <;> rfl

theorem NtzsProofResp.copy_eq {P : NtzsProofResp} (h : P.Fits) : P.copy = some P := by
  obtain ⟨⟨hhdrs, -⟩, -, -, -, -, hprev, hnext⟩ := h
  unfold NtzsProofResp.copy
  rw [copyHeld_eq_some (Or.inr hhdrs.1), copyHeld_eq_some (Uint8vecFits.held hprev),
    copyHeld_eq_some (Uint8vecFits.held hnext)]
  rfl

/-! ### One response -/

namespace Superlite

variable {S : Superlite}

/-- There is a client afterwards, and it is consistent. -/
def Leaves (after : Option Superlite) : Prop := ∃ S', after = some S' ∧ S'.Consistent

theorem leaves_some (hS : S.Consistent) : Leaves (some S) := ⟨S, rfl, hS⟩

variable {size : Bytes → ℕ}

theorem take_iff {α : Type} {one : Unserialize α} {f : α → Option Superlite}
    {s : Bytes} {Q : Prop} (h : Takes one size)
    (hf : ∀ {a s'}, one s = some (a, s') → (Leaves (f a) ↔ Q)) :
    Leaves (take one s f) ↔ Q ∧ size s ≤ s.length := by
  rw [← h.eq_some_iff]
  constructor
  · rintro ⟨S', hS', hcons⟩
    obtain ⟨⟨a, s'⟩, ha, hfa⟩ := Option.bind_eq_some_iff.1 hS'
    exact ⟨(hf ha).1 ⟨S', hfa, hcons⟩, a, s', ha⟩
  · rintro ⟨hQ, a, s', ha⟩
    obtain ⟨S', hfa, hcons⟩ := (hf ha).2 hQ
    exact ⟨S', Option.bind_eq_some_iff.2 ⟨(a, s'), ha, hfa⟩, hcons⟩

theorem take_iff_size {α : Type} {one : Unserialize α} {f : α → Superlite}
    {s : Bytes} (h : Takes one size) (hf : ∀ {a s'}, one s = some (a, s') → (f a).Consistent) :
    Leaves (take one s fun a => some (f a)) ↔ size s ≤ s.length := by
  rw [take_iff (Q := True) h fun ha => iff_true_intro (leaves_some (hf ha))]
  exact true_and _ ▸ Iff.rfl

/-- What `NSPV_TXPROOFRESP` changes: the result, and the cache by the same proof. -/
theorem txproofResp_eq_some (S : Superlite) (rand : ℕ) {P : TxProof} (h : P.Fits) :
    ∃ cache, S.txproofResp rand P = some { S with txproofresult := P, txproofCache := cache }
      ∧ ∀ entry ∈ cache, entry ∈ S.txproofCache ∨ entry = P := by
  have hput : ∀ i, ∀ entry ∈ S.txproofCache.set i P, entry ∈ S.txproofCache ∨ entry = P :=
    fun i entry hentry => mem_or_eq_of_mem_set hentry
  have hkeep : ∀ entry ∈ S.txproofCache, entry ∈ S.txproofCache ∨ entry = P :=
    fun entry hentry => Or.inl hentry
  simp only [txproofResp, txproofAdd, TxProof.copy_eq h, Option.map_some]
  split_ifs
  · split
    · split_ifs
      · exact ⟨_, rfl, hput _⟩
      · exact ⟨_, rfl, hkeep⟩
    · exact ⟨_, rfl, hput _⟩
  · exact ⟨_, rfl, hkeep⟩

theorem txproofResp_iff (hS : S.Consistent) (rand : ℕ) {P : TxProof} (h : P.Fits) :
    Leaves (S.txproofResp rand P)
      ↔ P.tx.num < MAX_TX_SIZE_AFTER_SAPLING ∧ P.txproof.num < MAX_TX_SIZE_AFTER_SAPLING := by
  obtain ⟨-, -, -, -, htx, hproof, -⟩ := id h
  obtain ⟨cache, heq, hcache⟩ := S.txproofResp_eq_some rand h
  rw [← Uint8vecFits.consistent_iff htx, ← Uint8vecFits.consistent_iff hproof]
  constructor
  · rintro ⟨S', hS', hcons⟩
    obtain rfl := Option.some.inj (heq.symm.trans hS')
    exact hcons.txproof
  · intro hP
    refine ⟨_, heq, { hS with txproof := hP, txproofCache := fun entry hentry => ?_ }⟩
    rcases hcache entry hentry with hold | rfl
    · exact hS.txproofCache entry hold
    · exact hP

/-- What `NSPV_NTZSPROOFRESP` changes. -/
theorem ntzsproofResp_eq_some (S : Superlite) (rand : ℕ) {P : NtzsProofResp} (h : P.Fits) :
    ∃ cache,
      S.ntzsproofResp rand P = some { S with ntzsproofresult := P, ntzsproofrespCache := cache }
        ∧ ∀ entry ∈ cache, entry ∈ S.ntzsproofrespCache ∨ entry = P := by
  simp only [ntzsproofResp, ntzsproofAdd, NtzsProofResp.copy_eq h, Option.map_some]
  split_ifs
  · exact ⟨_, rfl, fun entry hentry => mem_or_eq_of_mem_set hentry⟩
  · exact ⟨_, rfl, fun entry hentry => Or.inl hentry⟩

theorem ntzsproofResp_iff (hS : S.Consistent) (rand : ℕ) {P : NtzsProofResp} (h : P.Fits) :
    Leaves (S.ntzsproofResp rand P)
      ↔ P.prevntz.num < MAX_TX_SIZE_AFTER_SAPLING ∧ P.nextntz.num < MAX_TX_SIZE_AFTER_SAPLING := by
  obtain ⟨⟨hhdrs, -⟩, -, -, -, -, hprev, hnext⟩ := id h
  obtain ⟨cache, heq, hcache⟩ := S.ntzsproofResp_eq_some rand h
  rw [← Uint8vecFits.consistent_iff hprev, ← Uint8vecFits.consistent_iff hnext]
  constructor
  · rintro ⟨S', hS', hcons⟩
    obtain rfl := Option.some.inj (heq.symm.trans hS')
    exact hcons.ntzsproof.2
  · intro hP
    refine ⟨_, heq, { hS with
      ntzsproof := ⟨hhdrs.consistent, hP⟩, ntzsproofCache := fun entry hentry => ?_ }⟩
    rcases hcache entry hentry with hold | rfl
    · exact hS.ntzsproofCache entry hold
    · exact ⟨hhdrs.consistent, hP⟩

theorem infoResp_consistent (hS : S.Consistent) (timestamp blocktime : ℕ) (I : InfoResp) :
    (S.infoResp timestamp blocktime I).Consistent := by
  unfold infoResp
  split_ifs
  exacts [hS, { hS with }, { hS with }, { hS with }]

theorem ntzsResp_consistent (hS : S.Consistent) (rand : ℕ) (N : NtzsResp) :
    (S.ntzsResp rand N).Consistent := by
  simp only [ntzsResp, ntzsrespAdd]
  split_ifs
  · exact { hS with }
  · exact { hS with }

theorem spentinfo_iff (hS : S.Consistent) {I : SpentInfo} (h : I.Fits) :
    Leaves (some { S with spentresult := I })
      ↔ I.spent.tx.num < MAX_TX_SIZE_AFTER_SAPLING
        ∧ I.spent.txproof.num < MAX_TX_SIZE_AFTER_SAPLING := by
  obtain ⟨⟨-, -, -, -, htx, hproof, -⟩, -⟩ := h
  rw [← Uint8vecFits.consistent_iff htx, ← Uint8vecFits.consistent_iff hproof]
  constructor
  · rintro ⟨S', hS', hcons⟩
    cases hS'
    exact hcons.spent
  · exact fun hspent => leaves_some { hS with spent := hspent }

theorem take_pair_iff {α : Type} {one : Unserialize α} {f : α → Option Superlite} {s : Bytes}
    {i rest : ℕ} {v w : α → ℤ} (h : Takes one size)
    (hsize : size s = i + pairSize s i + rest)
    (hnums : ∀ {a s'}, one s = some (a, s') →
      int32At s i = v a ∧ int32At s (i + 4 + dataLen (v a)) = w a)
    (hf : ∀ {a s'}, one s = some (a, s') →
      (Leaves (f a) ↔ v a < MAX_TX_SIZE_AFTER_SAPLING ∧ w a < MAX_TX_SIZE_AFTER_SAPLING)) :
    Leaves (take one s f) ↔ PairInBounds s i rest := by
  have htake := take_iff (Q := int32At s i < MAX_TX_SIZE_AFTER_SAPLING
    ∧ int32At s (i + 4 + dataLen (int32At s i)) < MAX_TX_SIZE_AFTER_SAPLING) h fun ha => by
      obtain ⟨hv, hw⟩ := hnums ha
      rw [hf ha, hv, hw]
  rw [htake, hsize, and_assoc, PairInBounds, pairSize]
  simp only [Nat.add_assoc]

theorem leaves_ite {c : Prop} [Decidable c] {x y : Option Superlite} {p q : Prop}
    (h : Leaves x ↔ p) (h' : Leaves y ↔ q) :
    Leaves (if c then x else y) ↔ if c then p else q := by
  by_cases hc : c
  · rwa [if_pos hc, if_pos hc]
  · rwa [if_neg hc, if_neg hc]

/-- One response: it is read within its bounds and leaves the client consistent exactly if what it
claims to hold is there. -/
theorem step_iff (hS : S.Consistent) (r : Reception) :
    Leaves (S.komodoNSPVresp r) ↔ InBounds r.response := by
  unfold komodoNSPVresp InBounds
  by_cases hlen : int32 r.response.length ≤ 0
  · rw [if_pos hlen]
    exact iff_of_true (leaves_some hS) (Or.inl hlen)
  rw [if_neg hlen, or_iff_right hlen]
  cases r.response with
  | nil => exact iff_of_true (leaves_some hS) trivial
  | cons kind s =>
    have hutxos : Leaves (take UtxosResp.unserialize s fun U => some { S with utxosresult := U })
        ↔ 96 + 56 * countAt s 0 ≤ s.length :=
      take_iff_size UtxosResp.takes fun hU =>
        { hS with utxos := (UtxosResp.codec.exact hU).2.1.consistent }
    refine leaves_ite (take_iff_size InfoResp.takes fun _ => infoResp_consistent hS _ _ _) ?_
    refine leaves_ite hutxos ?_
    refine leaves_ite (take_iff_size TxidsResp.takes fun hT =>
      { hS with txids := (TxidsResp.codec.exact hT).2.1.consistent }) ?_
    refine leaves_ite (take_iff_size MempoolResp.takes fun hM =>
      { hS with mempool := (MempoolResp.codec.exact hM).2.1.consistent }) ?_
    refine leaves_ite (take_iff_size NtzsResp.takes fun _ => ntzsResp_consistent hS _ _) ?_
    refine leaves_ite (take_pair_iff NtzsProofResp.takes (Nat.add_zero _).symm NtzsProofResp.nums
      fun hP => ntzsproofResp_iff hS r.rand (NtzsProofResp.codec.exact hP).2) ?_
    refine leaves_ite (take_pair_iff TxProof.takes (by omega) TxProof.nums fun hP =>
      txproofResp_iff hS r.rand (TxProof.codec.exact hP).2) ?_
    refine leaves_ite (take_pair_iff SpentInfo.takes (by omega) SpentInfo.nums fun hI =>
      spentinfo_iff hS (SpentInfo.codec.exact hI).2) ?_
    refine leaves_ite (take_iff_size BroadcastResp.takes fun _ => { hS with }) ?_
    exact leaves_ite hutxos (iff_of_true (leaves_some hS) trivial)

theorem consistent_init : (({} : Superlite)).Consistent := by
  have hempty : ∀ {α : Type}, (({} : Counted α)).Consistent := Or.inl le_rfl
  exact {
    utxos := hempty
    txids := hempty
    mempool := hempty
    spent := ⟨hempty, hempty⟩
    ntzsproof := ⟨hempty, hempty, hempty⟩
    txproof := ⟨hempty, hempty⟩
    ntzsproofCache := fun entry hentry =>
      eq_of_mem_replicate hentry ▸ ⟨hempty, hempty, hempty⟩
    txproofCache := fun entry hentry => eq_of_mem_replicate hentry ▸ ⟨hempty, hempty⟩ }

theorem sound_iff_of_consistent {rs : List Reception} : ∀ {S : Superlite}, S.Consistent →
    (S.Sound rs ↔ ∀ r ∈ rs, InBounds r.response) := by
  induction rs with
  | nil => exact fun _ => iff_of_true trivial fun _ h => absurd h not_mem_nil
  | cons r rs ih =>
    intro S hS
    rw [forall_mem_cons, ← step_iff hS r]
    constructor
    · rintro ⟨S', hstep, hcons, hrest⟩
      exact ⟨⟨S', hstep, hcons⟩, (ih hcons).1 hrest⟩
    · rintro ⟨⟨S', hstep, hcons⟩, hrest⟩
      exact ⟨S', hstep, hcons, (ih hcons).2 hrest⟩

/-- **Responses are read within their bounds exactly where what they claim to hold is there.**  From
the start of the client every response of a run is read within its bounds and leaves all results and
caches consistent if and only if every response of the run holds the vectors that its counts and
lengths promise, and no transaction or proof is too long. -/
theorem sound_iff (rs : List Reception) :
    (({} : Superlite)).Sound rs ↔ ∀ r ∈ rs, InBounds r.response :=
  sound_iff_of_consistent consistent_init

/-- A response of the kind alone is read behind its end; a proof for a transaction of 200000 bytes
is kept with this length and without the bytes. -/
theorem truncated_not_sound :
    ¬ (({} : Superlite)).Sound [{ response := [NSPV_INFORESP] }]
      ∧ ¬ (({} : Superlite)).Sound [{ response :=
        NSPV_TXPROOFRESP :: List.replicate 48 0 ++ intBytes 4 200000 ++ List.replicate 36 0 }] := by
  rw [sound_iff_of_consistent consistent_init, sound_iff_of_consistent consistent_init]
  simp only [forall_mem_singleton]
  constructor
  · rintro (hlen | hkind)
    · exact absurd hlen (by decide)
    · have hlen : 1636 ≤ ([] : Bytes).length := hkind
      exact absurd hlen (by decide)
  · rintro (hlen | hkind)
    · exact absurd hlen (by decide)
    · have hpair : PairInBounds (replicate 48 0 ++ intBytes 4 200000 ++ replicate 36 0)
        48 32 := hkind
      exact absurd hpair.1 (by decide)

end Superlite

end Msg

end NSPV
end Komodo
