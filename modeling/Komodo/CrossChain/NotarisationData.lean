/-
# Notarisation data, written and read back

`NotarisationData` of `src/src/cc/eval.h` and `ParseNotarisationOpReturn` of
`src/src/cc/eval.cpp`.

A notarisation of a chain on KMD names a block of that chain; a back-notarisation, on the
chain itself, also names the KMD transaction, and carries the hash of many notarisations:

| field | bytes | in |
| --- | ---: | --- |
| `blockHash` | 32 | both |
| `height` | 4 | both |
| `txHash` | 32 | back-notarisations |
| `symbol` | up to 64, with a zero byte | both |
| `MoM`, `MoMDepth`, `ccId` | 32, 2, 2 | both, unless the data ends before |
| `MoMoM`, `MoMoMDepth` | 32, 4 | back-notarisations, unless the data ends before |

Nothing in the data says which of the two it is. A writer goes by `txHash`. A reader goes by
its chain: all is back-notarisations but on KMD, where byte 68 has to begin with the symbol
`BTC` or `KMD`. `notarisation_roundTrip` says when the two agree.
-/

import Komodo.Script.Serialize
import Komodo.CC.Checks

namespace Komodo

open Streams Unserialize List

/-- `NotarisationData`; the symbol without its zero byte. -/
structure NotarisationData where
  IsBackNotarisation : ℤ := 2
  blockHash : Uint256 := 0
  height : ℕ := 0
  txHash : Uint256 := 0
  symbol : Bytes := []
  MoM : Uint256 := 0
  MoMDepth : ℕ := 0
  ccId : ℕ := 0
  MoMoM : Uint256 := 0
  MoMoMDepth : ℕ := 0
deriving DecidableEq, Repr

namespace NotarisationData

/-! ### Writing -/

/-- `IsBack` on writing, with `DetectBackNotarisation` for a writer. -/
def isBack (d : NotarisationData) : Bool :=
  if d.IsBackNotarisation = 2 then d.txHash ≠ 0 else d.IsBackNotarisation ≠ 0

/-- The fields up to the symbol. -/
def headBytes (isBack : Bool) (d : NotarisationData) : Bytes :=
  uint256Bytes d.blockHash ++ leBytes 4 d.height
    ++ (if isBack then uint256Bytes d.txHash else []) ++ d.symbol ++ [0]

/-- The fields of the notarised blocks. -/
def momBytes (d : NotarisationData) : Bytes :=
  uint256Bytes d.MoM ++ leBytes 2 d.MoMDepth ++ leBytes 2 d.ccId

/-- The fields of the notarised notarisations. -/
def momomBytes (d : NotarisationData) : Bytes := uint256Bytes d.MoMoM ++ leBytes 4 d.MoMoMDepth

/-- `ss << d` to a stream that holds `s`. The tests of `s.size()` see what was written. -/
def serialize (d : NotarisationData) (s : Bytes) : Bytes :=
  let s := s ++ headBytes d.isBack d
  if s.length = 0 then s
  else
    let s := s ++ momBytes d
    if s.length = 0 then s else if d.isBack then s ++ momomBytes d else s

/-- What is written. -/
def bytes (d : NotarisationData) : Bytes :=
  headBytes d.isBack d ++ momBytes d ++ if d.isBack then momomBytes d else []

/-! ### Reading -/

/-- `DetectBackNotarisation` for a reader of a chain. -/
def detectBackNotarisation (isKMD : Bool) (s : Bytes) : Bool :=
  !isKMD || 72 ≤ s.length &&
    ((s.drop 68).take 4 = stringz "BTC" || (s.drop 68).take 4 = stringz "KMD")
where
  /-- A string literal with its zero byte. -/
  stringz (s : String) : Bytes := s.toList.map (fun c => UInt8.ofNat c.toNat) ++ [0]

/-- `SerSymbol` for a reader: up to the first zero byte, which is one of the next 64. -/
def symbolReader : Unserialize Bytes := fun s =>
  ((s.take 64).idxOf? 0).map fun nullPos => (s.take nullPos, s.drop (nullPos + 1))

/-- The rest of `SerializationOp` for a reader, once it is known what is read. -/
def reader (isBack : Bool) : Unserialize NotarisationData := do
  let blockHash ← uint256
  let height ← uint 4
  let txHash ← if isBack then uint256 else pure 0
  let symbol ← symbolReader
  if ← eof then pure ⟨2, blockHash, height, txHash, symbol, 0, 0, 0, 0, 0⟩
  else
    let MoM ← uint256
    let MoMDepth ← uint 2
    let ccId ← uint 2
    if ← eof then pure ⟨2, blockHash, height, txHash, symbol, MoM, MoMDepth, ccId, 0, 0⟩
    else if isBack then
      let MoMoM ← uint256
      let MoMoMDepth ← uint 4
      pure ⟨2, blockHash, height, txHash, symbol, MoM, MoMDepth, ccId, MoMoM, MoMoMDepth⟩
    else pure ⟨2, blockHash, height, txHash, symbol, MoM, MoMDepth, ccId, 0, 0⟩

/-- `ss >> d` for a `d` as it is constructed. -/
def unserialize (isKMD : Bool) : Unserialize NotarisationData :=
  fun s => reader (detectBackNotarisation isKMD s) s

/-- `ParseNotarisationOpReturn`: the data of the second output. -/
def parseNotarisationOpReturn (isKMD : Bool) (tx : CTransaction) : Option NotarisationData :=
  match tx.vout with
  | _ :: out :: _ => unmarshal (getOpReturnData out.scriptPubKey) (unserialize isKMD)
  | _ => none

/-! ### The readers against the writers -/

theorem serialize_eq (d : NotarisationData) (s : Bytes) : d.serialize s = s ++ d.bytes := by
  have hhead : 0 < (headBytes d.isBack d).length := by
    simp only [headBytes, length_append, length_cons]
    omega
  unfold serialize bytes
  simp only [length_append, append_assoc]
  rw [if_neg (by omega), if_neg (by omega)]
  split_ifs <;> simp

theorem codec_symbol : Codec symbolReader (· ++ [0]) (fun b => b.length < 64 ∧ 0 ∉ b) := by
  refine Codec.of_eq_some fun s s' b => ?_
  simp only [symbolReader, Option.map_eq_some_iff, idxOf?_eq_some_iff, Prod.mk.injEq]
  constructor
  · rintro ⟨n, ⟨hn, hzero, hbefore⟩, rfl, rfl⟩
    rw [length_take] at hn
    have hlen : (s.take n).length = n := by rw [length_take]; omega
    refine ⟨⟨by omega, fun hmem => ?_⟩, ?_⟩
    · obtain ⟨j, hj, hjzero⟩ := mem_iff_getElem.1 hmem
      refine hbefore j (by omega) ?_
      rw [getElem_take] at hjzero ⊢
      rw [hjzero]
    · rw [getElem_take] at hzero
      rw [← hzero, append_assoc, singleton_append, ← drop_eq_getElem_cons, take_append_drop]
  · rintro ⟨⟨hlen, hzero⟩, rfl⟩
    refine ⟨b.length, ⟨?_, ?_, fun j hj hjzero => ?_⟩, ?_, ?_⟩
    · simp only [length_take, length_append, length_cons]
      omega
    · rw [getElem_take]
      simp
    · have hj' : j < (b ++ [0]).length := by
        rw [length_append]
        omega
      rw [getElem_take, getElem_append_left hj', getElem_append_left hj] at hjzero
      exact hzero (hjzero ▸ getElem_mem hj)
    · rw [append_assoc, take_left]
    · exact drop_left' (by simp)

theorem eof_bind_eq_some {α : Type} {ended rest : Unserialize α} {s s' : Bytes} {a : α} :
    (do if ← eof then ended else rest) s = some (a, s') ↔
      s = [] ∧ ended s = some (a, s') ∨ s ≠ [] ∧ rest s = some (a, s') := by
  rw [bind_apply, eof, Option.bind_some]
  cases s <;> simp

/-- The fields have their widths, the symbol fits into its array, and the record is one that
was constructed by default. -/
structure WellFormed (d : NotarisationData) : Prop where
  isBack : d.IsBackNotarisation = 2
  blockHash : d.blockHash < 2 ^ 256
  height : d.height < 256 ^ 4
  txHash : d.txHash < 2 ^ 256
  symbol : d.symbol.length < 64 ∧ 0 ∉ d.symbol
  MoM : d.MoM < 2 ^ 256
  MoMDepth : d.MoMDepth < 256 ^ 2
  ccId : d.ccId < 256 ^ 2
  MoMoM : d.MoMoM < 2 ^ 256
  MoMoMDepth : d.MoMoMDepth < 256 ^ 4

/-- What stands behind the symbol when `d` is found: nothing, or the fields of the blocks and,
in a back-notarisation that goes on, those of the notarisations. -/
def TailRead (isBack : Bool) (d : NotarisationData) (t s' : Bytes) : Prop :=
  t = [] ∧ s' = [] ∧ d.MoM = 0 ∧ d.MoMDepth = 0 ∧ d.ccId = 0 ∧ d.MoMoM = 0 ∧ d.MoMoMDepth = 0 ∨
    ∃ u, t = momBytes d ++ u ∧
      (isBack = true ∧ u = momomBytes d ++ s' ∨
        (isBack = true → u = []) ∧ u = s' ∧ d.MoMoM = 0 ∧ d.MoMoMDepth = 0)

/-- What the reader of a notarisation finds. -/
theorem reader_false_eq_some {s s' : Bytes} {d : NotarisationData} :
    reader false s = some (d, s') ↔
      d.WellFormed ∧ d.txHash = 0 ∧ ∃ t, s = headBytes false d ++ t ∧ TailRead false d t s' := by
  simp only [reader, codec_uint256.bind_eq_some, (codec_uint _).bind_eq_some, eof_bind_eq_some,
    codec_symbol.bind_eq_some, pure_apply, Option.some.injEq, Prod.mk.injEq, if_false,
    Bool.false_eq_true, pure_bind, TailRead, false_and, false_or, false_imp_iff, true_and]
  constructor
  · rintro ⟨b, hb, _, rfl, h, hh, _, rfl, sym, hsym, t, rfl, ⟨rfl, rfl, rfl⟩ |
      ⟨-, m, hm, _, rfl, n, hn, _, rfl, c, hc, u, rfl, hu⟩⟩
    · exact ⟨⟨rfl, hb, hh, by norm_num, hsym, by norm_num, by norm_num, by norm_num, by norm_num,
        by norm_num⟩, rfl, [], by simp [headBytes], Or.inl ⟨rfl, rfl, rfl, rfl, rfl, rfl, rfl⟩⟩
    · obtain ⟨rfl, rfl⟩ : _ = d ∧ u = s' := hu.elim And.right And.right
      exact ⟨⟨rfl, hb, hh, by norm_num, hsym, hm, hn, hc, by norm_num, by norm_num⟩, rfl,
        uint256Bytes m ++ (leBytes 2 n ++ (leBytes 2 c ++ u)), by simp [headBytes],
        Or.inr ⟨u, by simp [momBytes], rfl, rfl, rfl⟩⟩
  · rintro ⟨hd, htx, t, rfl, ht⟩
    obtain ⟨isBack, b, h, tx, sym, m, n, c, mm, mn⟩ := d
    obtain ⟨rfl, hb, hh, -, hsym, hm, hn, hc, -, -⟩ := hd
    obtain rfl : tx = 0 := htx
    refine ⟨b, hb, leBytes 4 h ++ (sym ++ [0] ++ t), by simp [headBytes], h, hh, _, rfl, sym, hsym,
      t, rfl, ?_⟩
    rcases ht with ⟨rfl, rfl, rfl, rfl, rfl, rfl, rfl⟩ | ⟨u, rfl, rfl, rfl, rfl⟩
    · exact Or.inl ⟨rfl, rfl, rfl⟩
    · refine Or.inr ⟨by simp [momBytes, uint256Bytes], m, hm, leBytes 2 n ++ (leBytes 2 c ++ u),
        by simp [momBytes], n, hn, _, rfl, c, hc, u, rfl, ?_⟩
      rcases eq_or_ne u [] with hu | hu
      · exact Or.inl ⟨hu, rfl, rfl⟩
      · exact Or.inr ⟨hu, rfl, rfl⟩

/-- What the reader of a back-notarisation finds. -/
theorem reader_true_eq_some {s s' : Bytes} {d : NotarisationData} :
    reader true s = some (d, s') ↔
      d.WellFormed ∧ ∃ t, s = headBytes true d ++ t ∧ TailRead true d t s' := by
  simp only [reader, codec_uint256.bind_eq_some, (codec_uint _).bind_eq_some, eof_bind_eq_some,
    codec_symbol.bind_eq_some, pure_apply, Option.some.injEq, Prod.mk.injEq, if_true, TailRead,
    true_and, true_imp_iff]
  constructor
  · rintro ⟨b, hb, _, rfl, h, hh, _, rfl, tx, htx, _, rfl, sym, hsym, t, rfl, ⟨rfl, rfl, rfl⟩ |
      ⟨-, m, hm, _, rfl, n, hn, _, rfl, c, hc, _, rfl, ⟨rfl, rfl, rfl⟩ |
        ⟨-, mm, hmm, _, rfl, mn, hmn, u, rfl, rfl, rfl⟩⟩⟩
    · exact ⟨⟨rfl, hb, hh, htx, hsym, by norm_num, by norm_num, by norm_num, by norm_num,
        by norm_num⟩, [], by simp [headBytes], Or.inl ⟨rfl, rfl, rfl, rfl, rfl, rfl, rfl⟩⟩
    · exact ⟨⟨rfl, hb, hh, htx, hsym, hm, hn, hc, by norm_num, by norm_num⟩,
        uint256Bytes m ++ (leBytes 2 n ++ (leBytes 2 c ++ [])), by simp [headBytes],
        Or.inr ⟨[], by simp [momBytes], Or.inr ⟨rfl, rfl, rfl, rfl⟩⟩⟩
    · exact ⟨⟨rfl, hb, hh, htx, hsym, hm, hn, hc, hmm, hmn⟩, uint256Bytes m ++ (leBytes 2 n ++
        (leBytes 2 c ++ (uint256Bytes mm ++ (leBytes 4 mn ++ u)))), by simp [headBytes],
        Or.inr ⟨uint256Bytes mm ++ (leBytes 4 mn ++ u), by simp [momBytes],
          Or.inl (by simp [momomBytes])⟩⟩
  · rintro ⟨hd, t, rfl, ht⟩
    obtain ⟨isBack, b, h, tx, sym, m, n, c, mm, mn⟩ := d
    obtain ⟨rfl, hb, hh, htx, hsym, hm, hn, hc, hmm, hmn⟩ := hd
    refine ⟨b, hb, leBytes 4 h ++ (uint256Bytes tx ++ (sym ++ [0] ++ t)), by simp [headBytes], h,
      hh, _, rfl, tx, htx, _, rfl, sym, hsym, t, rfl, ?_⟩
    rcases ht with ⟨rfl, rfl, rfl, rfl, rfl, rfl, rfl⟩ | ⟨u, rfl, hu⟩
    · exact Or.inl ⟨rfl, rfl, rfl⟩
    · refine Or.inr ⟨by simp [momBytes, uint256Bytes], m, hm, leBytes 2 n ++ (leBytes 2 c ++ u),
        by simp [momBytes], n, hn, _, rfl, c, hc, u, rfl, ?_⟩
      rcases hu with rfl | ⟨rfl, rfl, rfl, rfl⟩
      · exact Or.inr ⟨by simp [momomBytes, uint256Bytes], mm, hmm, leBytes 4 mn ++ s',
          by simp [momomBytes], mn, hmn, s', rfl, rfl, rfl⟩
      · exact Or.inl ⟨rfl, rfl, rfl⟩

/-! ### When the two agree -/

section roundTrip
variable {isKMD isBack : Bool} {d : NotarisationData} {s t : Bytes}

/-- What was written is read back, whatever follows. -/
def RoundTrips (isKMD : Bool) (d : NotarisationData) : Prop :=
  Reads (unserialize isKMD) d.bytes d

/-- The reader of the chain takes the record for what it is: on another chain than KMD it is a
back-notarisation; on KMD it is a back-notarisation for `BTC` or `KMD`, or it is none, has no
field of one, and does not pass for one at byte 68. -/
def Readable (isKMD : Bool) (d : NotarisationData) : Prop :=
  if d.txHash ≠ 0 then isKMD = true → d.symbol = [66, 84, 67] ∨ d.symbol = [75, 77, 68]
  else isKMD = true ∧ d.MoMoM = 0 ∧ d.MoMoMDepth = 0 ∧ detectBackNotarisation true d.bytes = false

instance (isKMD : Bool) (d : NotarisationData) : Decidable (Readable isKMD d) :=
  inferInstanceAs (Decidable (ite _ (_ → _ ∨ _) (_ ∧ _ ∧ _ ∧ _)))

theorem length_headBytes (isBack : Bool) (d : NotarisationData) :
    (headBytes isBack d).length = (if isBack then 69 else 37) + d.symbol.length := by
  cases isBack <;> simp [headBytes, uint256Bytes] <;> omega

theorem length_momBytes (d : NotarisationData) : (momBytes d).length = 36 := by
  simp [momBytes, uint256Bytes]

theorem WellFormed.isBack_eq (h : d.WellFormed) : d.isBack = decide (d.txHash ≠ 0) := by
  rw [NotarisationData.isBack, if_pos h.isBack]

theorem detectBackNotarisation_append (h : 72 ≤ s.length) :
    detectBackNotarisation isKMD (s ++ t) = detectBackNotarisation isKMD s := by
  have htake : ((s ++ t).drop 68).take 4 = (s.drop 68).take 4 := by
    rw [drop_append_of_le_length (by omega), take_append_of_le_length]
    rw [length_drop]
    omega
  have hlen : 72 ≤ (s ++ t).length := by
    rw [length_append]
    omega
  simp only [detectBackNotarisation, htake, h, hlen]

theorem take_symbol_eq_iff {symbol : Bytes} (h : 0 ∉ symbol) {a b c : UInt8} (hc : 0 ∉ [a, b, c]) :
    (symbol ++ [0] ++ t).take 4 = [a, b, c] ++ [0] ↔ symbol = [a, b, c] := by
  constructor
  · intro htake
    match symbol with
    | [] => simp_all
    | [x] => simp_all
    | [x, y] => simp_all
    | [x, y, z] => simpa using htake
    | x :: y :: z :: w :: rest => simp_all
  · rintro rfl
    rfl

/-- Where a reader of KMD looks for the symbol of a back-notarisation. -/
theorem detect_headBytes (h : 0 ∉ d.symbol) (hlen : 72 ≤ (headBytes true d ++ t).length) :
    detectBackNotarisation true (headBytes true d ++ t) = true ↔
      d.symbol = [66, 84, 67] ∨ d.symbol = [75, 77, 68] := by
  have hdrop : (headBytes true d ++ t).drop 68 = d.symbol ++ [0] ++ t := by
    have hsplit : headBytes true d ++ t
        = (uint256Bytes d.blockHash ++ leBytes 4 d.height ++ uint256Bytes d.txHash)
          ++ (d.symbol ++ [0] ++ t) := by
      simp [headBytes]
    rw [hsplit]
    exact drop_left' (by simp [uint256Bytes])
  have hBTC : detectBackNotarisation.stringz "BTC" = [66, 84, 67] ++ [0] := rfl
  have hKMD : detectBackNotarisation.stringz "KMD" = [75, 77, 68] ++ [0] := rfl
  simp only [detectBackNotarisation, Bool.not_true, Bool.false_or, Bool.and_eq_true,
    Bool.or_eq_true, decide_eq_true_eq, hlen, true_and, hdrop, hBTC, hKMD]
  rw [take_symbol_eq_iff h (by decide), take_symbol_eq_iff h (by decide)]

/-- A record is found by the reader of its kind only, and in a notarisation no field of a
back-notarisation. -/
theorem reads_reader_iff (h : d.WellFormed) :
    Reads (reader isBack) d.bytes d ↔
      isBack = d.isBack ∧ (d.isBack = false → d.MoMoM = 0 ∧ d.MoMoMDepth = 0) := by
  have hback := h.isBack_eq
  have hmom := length_momBytes d
  constructor
  · intro hreads
    have hread := hreads.apply
    cases isBack with
    | false =>
      obtain ⟨-, htx, t, hbytes, htail⟩ := reader_false_eq_some.1 hread
      have hfalse : d.isBack = false := by simpa [htx] using hback
      rw [bytes, hfalse] at hbytes
      simp only [Bool.false_eq_true, if_false, append_nil] at hbytes
      obtain rfl := append_cancel_left hbytes
      refine ⟨hfalse.symm, fun _ => ?_⟩
      rcases htail with ⟨-, -, -, -, -, hm, hn⟩ | ⟨u, -, ⟨hnot, -⟩ | ⟨-, -, hm, hn⟩⟩
      · exact ⟨hm, hn⟩
      · exact absurd hnot (by decide)
      · exact ⟨hm, hn⟩
    | true =>
      obtain ⟨-, t, hbytes, htail⟩ := reader_true_eq_some.1 hread
      cases hb : d.isBack with
      | true => exact ⟨rfl, fun hf => absurd hf (by decide)⟩
      | false =>
        -- the reader expects 32 bytes more than were written
        have hlen := congrArg length hbytes
        rw [bytes, hb] at hlen
        simp only [Bool.false_eq_true, if_false, append_nil, length_append,
          length_headBytes, if_true, hmom] at hlen
        rcases htail with ⟨rfl, -⟩ | ⟨u, rfl, -⟩
        · rw [length_nil] at hlen
          omega
        · rw [length_append, hmom] at hlen
          omega
  · rintro ⟨rfl, hnone⟩ s
    cases hb : d.isBack with
    | false =>
      rw [hb] at hback
      refine reader_false_eq_some.2 ⟨h, by simpa using hback.symm, momBytes d ++ s, ?_, ?_⟩
      · simp [bytes, hb]
      · exact Or.inr ⟨s, rfl, Or.inr ⟨by simp, rfl, hnone hb⟩⟩
    | true =>
      refine reader_true_eq_some.2 ⟨h, momBytes d ++ (momomBytes d ++ s), ?_, ?_⟩
      · simp [bytes, hb]
      · exact Or.inr ⟨_, rfl, Or.inl ⟨rfl, rfl⟩⟩

theorem length_bytes (d : NotarisationData) : 73 ≤ d.bytes.length := by
  have hmom := length_momBytes d
  have hhead := length_headBytes d.isBack d
  rw [bytes, length_append, length_append, hhead, hmom]
  split_ifs <;> omega

/-- One record. -/
theorem roundTrips_iff (h : d.WellFormed) : d.RoundTrips isKMD ↔ d.Readable isKMD := by
  have hlen := length_bytes d
  have hdetect : d.RoundTrips isKMD ↔
      Reads (reader (detectBackNotarisation isKMD d.bytes)) d.bytes d := by
    refine forall_congr' fun s => ?_
    rw [unserialize, detectBackNotarisation_append (by omega)]
  rw [hdetect, reads_reader_iff h, Readable]
  have hback := h.isBack_eq
  by_cases htx : d.txHash ≠ 0
  · have hb : d.isBack = true := by simpa [htx] using hback
    rw [if_pos htx, hb]
    simp only [Bool.true_eq_false, false_imp_iff, and_true]
    cases isKMD with
    | false => simp [detectBackNotarisation]
    | true =>
      have hsplit : d.bytes = headBytes true d ++ (momBytes d ++ momomBytes d) := by
        simp [bytes, hb]
      rw [hsplit] at hlen ⊢
      rw [detect_headBytes h.symbol.2 (by omega)]
      simp
  · have hb : d.isBack = false := by simpa [htx] using hback
    rw [if_neg htx, hb]
    cases isKMD with
    | false => simp [detectBackNotarisation]
    | true =>
      simp only [true_imp_iff, true_and]
      rw [and_comm, and_assoc]

theorem wellFormed_of_reader (h : reader isBack s = some (d, t)) : d.WellFormed := by
  cases isBack with
  | false => exact (reader_false_eq_some.1 h).1
  | true => exact (reader_true_eq_some.1 h).1

theorem wellFormed_of_parsed {tx : CTransaction}
    (h : parseNotarisationOpReturn isKMD tx = some d) : d.WellFormed := by
  unfold parseNotarisationOpReturn at h
  split at h
  · rw [unmarshal_eq_some] at h
    exact wellFormed_of_reader h
  · cases h

/-- A record that ends with its symbol, and does so before byte 72, has zeros behind it, one of
them where the third letter would be. -/
theorem detect_of_short {front : Bytes} (hfront : 36 ≤ front.length) (h : front.length ≤ 70) :
    detectBackNotarisation true (front ++ replicate 37 0) = false := by
  have hzero : (front ++ replicate 37 0)[70]? = some (0 : UInt8) := by
    rw [getElem?_append_right h, getElem?_replicate]
    exact if_pos (by omega)
  have hletter : ∀ a b c : UInt8,
      ((front ++ replicate 37 0).drop 68).take 4 = [a, b, c] ++ [0] → c = 0 := by
    intro a b c htake
    have hthird := congrArg (fun s => s[2]?) htake
    simp only [getElem?_take, getElem?_drop, Nat.reduceAdd, hzero] at hthird
    simpa using hthird.symm
  simp only [detectBackNotarisation, Bool.not_true, Bool.false_or, Bool.and_eq_false_iff,
    Bool.or_eq_false_iff, decide_eq_false_iff_not]
  refine Or.inr ⟨fun hBTC => ?_, fun hKMD => ?_⟩
  · exact absurd (hletter 66 84 67 hBTC) (by decide)
  · exact absurd (hletter 75 77 68 hKMD) (by decide)

/-- The record of parsed data, with zeros for the fields that were missing, passes for a
back-notarisation when the data did. -/
theorem detect_bytes_of_parsed {s : Bytes} (h : reader false s = some (d, []))
    (hdetect : detectBackNotarisation true s = false) :
    detectBackNotarisation true d.bytes = false := by
  obtain ⟨hwf, htx, t, rfl, htail⟩ := reader_false_eq_some.1 h
  have hb : d.isBack = false := by simp [hwf.isBack_eq, htx]
  have hbytes : d.bytes = headBytes false d ++ momBytes d := by simp [bytes, hb]
  rcases htail with ⟨rfl, -, hm, hn, hc, -, -⟩ | ⟨u, rfl, ⟨hnot, -⟩ | ⟨-, rfl, -, -⟩⟩
  · rw [append_nil] at hdetect
    rcases Nat.lt_or_ge (headBytes false d).length 72 with hshort | hlong
    · have hlen := length_headBytes false d
      have hzeros : d.bytes = (uint256Bytes d.blockHash ++ leBytes 4 d.height ++ d.symbol)
          ++ replicate 37 0 := by
        have hzero : momBytes d = replicate 36 0 := by
          rw [momBytes, hm, hn, hc]
          decide
        rw [hbytes, hzero, headBytes, if_neg Bool.false_ne_true, append_nil, append_assoc _ [0]]
        rfl
      rw [hzeros]
      have hfront : (uint256Bytes d.blockHash ++ leBytes 4 d.height ++ d.symbol).length
          = 36 + d.symbol.length := by
        simp only [length_append, length_leBytes, uint256Bytes, length_map, length_range]
      simp only [Bool.false_eq_true, if_false] at hlen
      exact detect_of_short (by omega) (by omega)
    · rw [hbytes, detectBackNotarisation_append hlong, hdetect]
  · exact absurd hnot Bool.false_ne_true
  · rw [append_nil] at hdetect
    rw [hbytes, hdetect]

/-- The copy of a parsed record. -/
theorem roundTrips_of_parsed {tx : CTransaction}
    (h : parseNotarisationOpReturn isKMD tx = some d)
    (hback : ∀ out, tx.vout[1]? = some out →
      detectBackNotarisation isKMD (getOpReturnData out.scriptPubKey) = true → d.txHash ≠ 0) :
    d.RoundTrips isKMD := by
  unfold parseNotarisationOpReturn at h
  split at h
  case h_2 => cases h
  rename_i first out rest hvout
  have hback := hback out (by rw [hvout, getElem?_cons_succ, getElem?_cons_zero])
  rw [unmarshal_eq_some] at h
  generalize getOpReturnData out.scriptPubKey = s at h hback
  have hread : reader (detectBackNotarisation isKMD s) s = some (d, []) := h
  refine (roundTrips_iff (wellFormed_of_reader hread)).2 ?_
  cases hdetect : detectBackNotarisation isKMD s with
  | false =>
    have hKMD : isKMD = true := by
      cases isKMD with
      | false => exact absurd hdetect (by simp [detectBackNotarisation])
      | true => rfl
    subst hKMD
    rw [hdetect] at hread
    obtain ⟨-, htx, t, -, htail⟩ := reader_false_eq_some.1 hread
    have hnone : d.MoMoM = 0 ∧ d.MoMoMDepth = 0 := by
      rcases htail with ⟨-, -, -, -, -, hm, hn⟩ | ⟨u, -, ⟨hnot, -⟩ | ⟨-, -, hm, hn⟩⟩
      · exact ⟨hm, hn⟩
      · exact absurd hnot Bool.false_ne_true
      · exact ⟨hm, hn⟩
    rw [Readable, if_neg (by simpa using htx)]
    exact ⟨rfl, hnone.1, hnone.2, detect_bytes_of_parsed hread hdetect⟩
  | true =>
    rw [hdetect] at hread
    rw [Readable, if_pos (hback hdetect)]
    rintro rfl
    obtain ⟨hwf, t, rfl, -⟩ := reader_true_eq_some.1 hread
    refine (detect_headBytes hwf.symbol.2 ?_).1 hdetect
    -- a shorter string does not pass for a back-notarisation
    by_contra hshort
    rw [detectBackNotarisation, decide_eq_false hshort] at hdetect
    exact absurd hdetect (by simp)

end roundTrip

/-! ### The round trip -/

/-- **Writer and reader agree on the records that show what they are.** A record as it is
constructed is read back, whatever follows, exactly when it is `Readable`; and the copy of a
parsed opreturn is the record, unless it was taken for a back-notarisation of the null hash. -/
theorem notarisation_roundTrip (isKMD : Bool) :
    (∀ d : NotarisationData, d.WellFormed → (d.RoundTrips isKMD ↔ d.Readable isKMD)) ∧
      ∀ (tx : CTransaction) (d : NotarisationData), parseNotarisationOpReturn isKMD tx = some d →
        (∀ out, tx.vout[1]? = some out →
          detectBackNotarisation isKMD (getOpReturnData out.scriptPubKey) = true → d.txHash ≠ 0) →
        d.RoundTrips isKMD :=
  ⟨fun _ => roundTrips_iff, fun _ _ => roundTrips_of_parsed⟩

namespace NotarisationSample

/-- A notarisation of `TXSCL`. -/
def notarisation : NotarisationData where
  blockHash := 5
  height := 100
  symbol := [84, 88, 83, 67, 76]
  MoM := 6
  MoMDepth := 20
  ccId := 2

/-- The back-notarisation of it. -/
def backNotarisation : NotarisationData :=
  { notarisation with txHash := 7, MoMoM := 8, MoMoMDepth := 3 }

/-- The transaction with a record. -/
def carrier (d : NotarisationData) : CTransaction where
  hash := 9
  vin := []
  vout := [⟨1000, []⟩, ⟨0, opReturnScript d.bytes⟩]

theorem wellFormed_notarisation : notarisation.WellFormed :=
  ⟨rfl, by decide, by decide, by decide, by decide, by decide, by decide, by decide, by decide,
    by decide⟩

theorem wellFormed_backNotarisation : backNotarisation.WellFormed :=
  ⟨rfl, by decide, by decide, by decide, by decide, by decide, by decide, by decide, by decide,
    by decide⟩

end NotarisationSample

open NotarisationSample

/-- The hypotheses of `notarisation_roundTrip` are satisfiable: a notarisation on KMD, and a
back-notarisation on the chain itself. -/
theorem notarisation_roundTrip_samples :
    (parseNotarisationOpReturn true (carrier notarisation) = some notarisation
        ∧ notarisation.RoundTrips true) ∧
      (backNotarisation.RoundTrips false ↔ backNotarisation.Readable false) := by
  refine ⟨⟨by decide, (notarisation_roundTrip true).2 (carrier notarisation) _
    (by decide) ?_⟩, (notarisation_roundTrip false).1 _ wellFormed_backNotarisation⟩
  rintro out hout hdetect
  obtain rfl : _ = out := Option.some.inj hout
  exact absurd hdetect (by decide)

/-- **Not every record.** On the chain itself the notarisation is not read back, and on KMD not
the back-notarisation. -/
theorem not_read_back :
    (notarisation.WellFormed ∧ ¬ notarisation.RoundTrips false) ∧
      backNotarisation.WellFormed ∧ ¬ backNotarisation.RoundTrips true := by
  refine ⟨⟨wellFormed_notarisation, ?_⟩, wellFormed_backNotarisation, ?_⟩
  · rw [roundTrips_iff wellFormed_notarisation, Readable, if_neg (by decide)]
    exact fun h => absurd h.1 Bool.false_ne_true
  · rw [roundTrips_iff wellFormed_backNotarisation, Readable, if_pos (by decide)]
    exact fun h => absurd (h rfl) (by decide)

end NotarisationData

end Komodo
