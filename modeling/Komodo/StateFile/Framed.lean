/-
# Records that both readers of the state file read alike

`komodo_parsestatefile` against `komodo_parsestatefiledata` of `src/src/komodo.cpp`.

The readers treat alike all records whose size their letter determines.  They part at keys that do
not fit into their array, at a payload that is longer than what is left, and at a list of prices
that is missing, cut off or not of 35 prices: `BodyFramed` leaves out exactly these.

`Together file pos n r r'` says that two readers find the same in the next `n` bytes, and fail where
there are less.  It is kept by a field and what is behind it (`together_read`), so that each
event is treated field by field, and `run_eq_of_framed` goes from record to record.
-/

import Komodo.StateFile.Readers

namespace Komodo
namespace StateFile

open Buffers List Nat

/-! ### Records -/

/-- How many bytes a record takes behind its height, where both readers know it. -/
def bodyLen (func body : Bytes) : Option ℕ :=
  if func = ['P'.toUInt8] then
    body.head?.bind fun num => if num.toNat ≤ 64 then some (1 + 33 * num.toNat) else none
  else if func = ['N'.toUInt8] then some 68
  else if func = ['M'.toUInt8] then some 104
  else if func = ['U'.toUInt8] then some 42
  else if func = ['K'.toUInt8] then some 4
  else if func = ['T'.toUInt8] then some 8
  else if func = ['R'.toUInt8] then some (44 + fromLE ((body.drop 42).take 2))
  else if func = ['D'.toUInt8] then some 0
  else if func = ['V'.toUInt8] then body.head?.map fun num => 1 + 4 * num.toNat
  else if func = ['B'.toUInt8] then some 0
  else none

/-- A list of prices that the slow reader keeps as the fast one does: 35 of them, or only zeros that
the array holds anyhow. -/
def PricesFramed : Bytes → Prop
  | [] => False
  | num :: prices => num.toNat = 35
      ∨ 4 * num.toNat ≤ 35 ∧ 4 * num.toNat ≤ prices.length ∧ ∀ b ∈ prices.take (4 * num.toNat), b = 0

/-- A record that both readers treat alike. -/
def BodyFramed (func body : Bytes) : Prop :=
  (func = ['P'.toUInt8] → ∀ num ∈ body.head?, num.toNat ≤ 64 ∨ body.length ≤ 1 + 64 * 33)
    ∧ (func = ['R'.toUInt8] → 44 ≤ body.length →
      44 + fromLE ((body.drop 42).take 2) ≤ body.length)
    ∧ (func = ['V'.toUInt8] → PricesFramed body)

/-- The record at a position is framed, if it is there up to its height. -/
def FramedAt (file : Bytes) (pos : ℕ) : Prop :=
  pos + 5 ≤ file.length → BodyFramed ((file.drop pos).take 1) (file.drop (pos + 5))

/-- How many bytes the record at a position takes. -/
def recordLen (file : Bytes) (pos : ℕ) : Option ℕ :=
  if pos + 5 ≤ file.length then
    (bodyLen ((file.drop pos).take 1) (file.drop (pos + 5))).map (5 + ·)
  else none

/-- The positions that are reached over framed records. -/
inductive Reached (file : Bytes) : ℕ → Prop
  | start : Reached file 0
  | next {pos n : ℕ} : Reached file pos → FramedAt file pos → recordLen file pos = some n →
      pos + n ≤ file.length → Reached file (pos + n)

/-- Every record that is reached is framed. -/
def Framed (file : Bytes) : Prop := ∀ pos, Reached file pos → FramedAt file pos

/-! ### Reading together -/

def Fails {α : Type} (x : Except Fault α) : Prop := ∃ what, x = .error (.parseError what)

/-- Both readers find the same in the next `n` bytes, and fail when these are not there. -/
def Together {α : Type} (file : Bytes) (pos n : ℕ) (r r' : FileReader α) : Prop :=
  (pos + n ≤ file.length → ∃ a, r file pos = .ok (a, pos + n) ∧ r' file pos = .ok (a, pos + n))
    ∧ (file.length < pos + n → Fails (r file pos) ∧ Fails (r' file pos))

variable {file : Bytes} {pos : ℕ}

theorem together_pure {α : Type} (hpos : pos ≤ file.length) (a : α) :
    Together file pos 0 (pure a) (pure a) :=
  ⟨fun _ => ⟨a, rfl, rfl⟩, fun hlt => absurd hlt (by omega)⟩

theorem map_run {α β : Type} (r : FileReader α) (f : α → β) :
    (f <$> r) file pos = (r file pos).map fun p => (f p.1, p.2) := rfl

theorem map_fails {α β : Type} {r : FileReader α} (f : α → β) (h : Fails (r file pos)) :
    Fails ((f <$> r) file pos) := by
  obtain ⟨what, hw⟩ := h
  exact ⟨what, by rw [map_run, hw]; rfl⟩

variable {n : ℕ}

theorem Together.map {α β : Type} {r r' : FileReader α} (h : Together file pos n r r')
    (f : α → β) : Together file pos n (f <$> r) (f <$> r') := by
  constructor
  · intro hle
    obtain ⟨a, ha, ha'⟩ := h.1 hle
    exact ⟨f a, by rw [map_run, ha]; rfl, by rw [map_run, ha']; rfl⟩
  · intro hlt
    exact ⟨map_fails f (h.2 hlt).1, map_fails f (h.2 hlt).2⟩

theorem memRead_ok (h : pos + n ≤ file.length) :
    memRead n file pos = .ok ((file.drop pos).take n, pos + n) := if_pos h

theorem memRead_fails (h : file.length < pos + n) : Fails (memRead n file pos) :=
  ⟨_, if_neg (not_le.2 h)⟩

theorem freadAll_ok {what : String} (h : pos + n ≤ file.length) :
    freadAll n what file pos = .ok ((file.drop pos).take n, pos + n) := by
  have hlen : ((file.drop pos).take n).length = n := by
    rw [length_take, length_drop]
    omega
  unfold freadAll fread
  rw [bind_run]
  show (if ((file.drop pos).take n).length = n then _ else _ : FileReader Bytes) _ _ = _
  rw [if_pos hlen, hlen]
  rfl

theorem freadAll_fails {what : String} (hpos : pos ≤ file.length)
    (h : file.length < pos + n) : Fails (freadAll n what file pos) := by
  have hlen : ((file.drop pos).take n).length ≠ n := by
    rw [length_take, length_drop]
    omega
  unfold freadAll fread
  rw [bind_run]
  refine ⟨what, ?_⟩
  show (if ((file.drop pos).take n).length = n then _ else _ : FileReader Bytes) _ _ = _
  rw [if_neg hlen]
  rfl

variable {pos' calls : ℕ}

theorem bind_ok {α β : Type} {r : FileReader α} {f : α → FileReader β} {a : α}
    (h : r file pos = .ok (a, pos')) : (r >>= f) file pos = f a file pos' := by
  rw [bind_run, h]
  rfl

theorem bind_fails {α β : Type} {r : FileReader α} (f : α → FileReader β)
    (h : Fails (r file pos)) : Fails ((r >>= f) file pos) := by
  obtain ⟨what, hw⟩ := h
  exact ⟨what, by rw [bind_run, hw]; rfl⟩

theorem together_read {α : Type} {n m : ℕ} {what : String} {f g : Bytes → FileReader α}
    (hpos : pos ≤ file.length) (h : pos + n ≤ file.length →
      Together file (pos + n) m (f ((file.drop pos).take n)) (g ((file.drop pos).take n))) :
    Together file pos (n + m) (freadAll n what >>= f) (memRead n >>= g) := by
  by_cases hfield : pos + n ≤ file.length
  · obtain ⟨hok, hfail⟩ := h hfield
    unfold Together
    rw [bind_ok (freadAll_ok hfield), bind_ok (memRead_ok hfield), ← add_assoc]
    exact ⟨hok, hfail⟩
  · refine ⟨fun hle => absurd hle (by omega), fun _ => ?_⟩
    exact ⟨bind_fails f (freadAll_fails hpos (by omega)), bind_fails g (memRead_fails (by omega))⟩

/-! ### Events -/

theorem together_notarized (hpos : pos ≤ file.length) (ht : ℤ) (dest : Bytes) (includeMoM : Bool) :
    Together file pos (if includeMoM then 104 else 68) (notarizedOfFile ht dest includeMoM)
      (notarizedOfData ht dest includeMoM) := by
  cases includeMoM with
  | true =>
    show Together file pos (4 + (32 + (32 + (32 + (4 + 0))))) _ _
    exact together_read hpos fun h => together_read h fun h => together_read h fun h =>
      together_read h fun h => together_read h fun h => together_pure h _
  | false =>
    show Together file pos (4 + (32 + (32 + 0))) _ _
    exact together_read hpos fun h => together_read h fun h => together_read h fun h =>
      together_pure h _

theorem together_u (hpos : pos ≤ file.length) (ht : ℤ) :
    Together file pos 42 (uOfFile ht) (uOfData ht) := by
  show Together file pos (1 + (1 + (8 + (32 + 0)))) _ _
  exact together_read hpos fun h => together_read h fun h => together_read h fun h =>
    together_read h fun h => together_pure h _

theorem together_kmdheight (hpos : pos ≤ file.length) (ht : ℤ) (includeTimestamp : Bool) :
    Together file pos (if includeTimestamp then 8 else 4) (kmdheightOfFile ht includeTimestamp)
      (kmdheightOfData ht includeTimestamp) := by
  cases includeTimestamp with
  | true =>
    show Together file pos (4 + (4 + 0)) _ _
    exact together_read hpos fun h => together_read h fun h => together_pure h _
  | false =>
    show Together file pos (4 + 0) _ _
    exact together_read hpos fun h => together_pure h _

theorem together_bytesLeft {α : Type} {r : FileReader α} {f : ℕ → FileReader α}
    (h : Together file pos n r (f (file.length - pos))) :
    Together file pos n r (bytesLeft >>= f) := by
  have hleft : (bytesLeft >>= f) file pos = f (file.length - pos) file pos := rfl
  unfold Together
  rw [hleft]
  exact h

/-- A payload that is there. -/
theorem together_opreturn (hpos : pos ≤ file.length) (ht : ℤ)
    (hframed : 44 ≤ (file.drop pos).length →
      44 + fromLE (((file.drop pos).drop 42).take 2) ≤ (file.drop pos).length) :
    Together file pos (44 + fromLE (((file.drop pos).drop 42).take 2)) (opreturnOfFile ht)
      (opreturnOfData ht) := by
  rw [length_drop] at hframed
  rw [drop_drop] at hframed ⊢
  have hsize : 44 + fromLE ((file.drop (pos + 42)).take 2)
      = 32 + (2 + (8 + (2 + (fromLE ((file.drop (pos + 42)).take 2) + 0)))) := by omega
  rw [hsize]
  refine together_read hpos fun h => together_read h fun h => together_read h fun h =>
    together_read h fun h => ?_
  have hleft := hframed (by omega)
  have hoplen : fromLE ((file.drop (pos + 32 + 2 + 8)).take 2) ≤ file.length - (pos + 32 + 2 + 8 + 2) := by
    rw [show pos + 32 + 2 + 8 = pos + 42 by omega]
    omega
  refine together_bytesLeft ?_
  rw [if_pos hoplen]
  exact together_read h fun h => together_pure h _

variable {bs : Bytes}

theorem cons_of_drop {b : UInt8} (h : file.drop pos = b :: bs) :
    pos + 1 ≤ file.length ∧ file[pos]? = some b ∧ bs = file.drop (pos + 1)
      ∧ bs.length = file.length - (pos + 1) := by
  have hlen := congrArg length h
  rw [length_drop, length_cons] at hlen
  refine ⟨by omega, ?_, ?_, by omega⟩
  · rw [← head?_drop, h]
    rfl
  · rw [← tail_drop, h]
    rfl

theorem fgetcByte_cons {b : UInt8} (h : file.drop pos = b :: bs) :
    fgetcByte file pos = .ok (b.toNat, pos + 1) := by
  unfold fgetcByte
  rw [(cons_of_drop h).2.1]

theorem fgetcByte_nil (h : file.drop pos = []) : fgetcByte file pos = .ok (255, pos) := by
  unfold fgetcByte
  rw [← head?_drop, h]
  rfl

theorem memByte_cons {behind b : UInt8} (h : file.drop pos = b :: bs) :
    memByte behind file pos = .ok (b, pos + 1) := by
  unfold memByte
  rw [(cons_of_drop h).2.1]
  rfl

theorem memRead_cons {b : UInt8} (h : file.drop pos = b :: bs) :
    memRead 1 file pos = .ok ([b], pos + 1) := by
  rw [memRead_ok (cons_of_drop h).1, h]
  rfl

theorem pubkeysOfFile_eq {ht : ℤ} {num : ℕ} (h : fgetcByte file pos = .ok (num, pos')) :
    pubkeysOfFile ht file pos =
      let keys := (file.drop pos').take (33 * num)
      if 64 * 33 < keys.length then .error .overflow
      else if keys.length = 33 * num then
        .ok ({ height := ht, num, pubkeys := fill (64 * 33) keys }, pos' + keys.length)
      else .error (.parseError ("Illegal number of keys: " ++ toString num)) := by
  unfold pubkeysOfFile
  rw [bind_ok h, bind_run]
  show (if 64 * 33 < ((file.drop pos').take (33 * num)).length then _
    else if ((file.drop pos').take (33 * num)).length = 33 * num then _ else _ :
      FileReader PubkeysEvent) _ _ = _
  simp only
  split_ifs <;> rfl

theorem pubkeysOfData_eq {ht : ℤ} {behind num : UInt8}
    (h : memByte behind file pos = .ok (num, pos')) :
    pubkeysOfData behind ht file pos =
      if 64 < num.toNat then
        .error (.parseError ("Illegal number of keys: " ++ toString num.toNat))
      else (memRead (33 * num.toNat) >>= fun keys => pure
        { height := ht, num := num.toNat, pubkeys := fill (64 * 33) keys }) file pos' := by
  unfold pubkeysOfData
  rw [bind_ok h]
  split_ifs <;> rfl

variable {num : UInt8}

/-- Keys that fit into their array. -/
theorem together_pubkeys (behind : UInt8) {keys : Bytes} (ht : ℤ)
    (hbody : file.drop pos = num :: keys) (hnum : num.toNat ≤ 64) :
    Together file pos (1 + 33 * num.toNat) (pubkeysOfFile ht) (pubkeysOfData behind ht) := by
  have hpos := (cons_of_drop hbody).1
  have hlen : ((file.drop (pos + 1)).take (33 * num.toNat)).length
      = min (33 * num.toNat) (file.length - (pos + 1)) := by
    rw [length_take, length_drop]
  unfold Together
  rw [pubkeysOfFile_eq (fgetcByte_cons hbody), pubkeysOfData_eq (memByte_cons hbody),
    if_neg (not_lt.2 hnum)]
  simp only [if_neg (show ¬ 64 * 33 < ((file.drop (pos + 1)).take (33 * num.toNat)).length by omega)]
  constructor
  · intro hle
    have hall : ((file.drop (pos + 1)).take (33 * num.toNat)).length = 33 * num.toNat := by omega
    refine ⟨{ height := ht, num := num.toNat
              pubkeys := fill (64 * 33) ((file.drop (pos + 1)).take (33 * num.toNat)) }, ?_, ?_⟩
    · rw [if_pos hall, hall, add_assoc]
    · rw [bind_ok (memRead_ok (by omega)), add_assoc]
      rfl
  · intro hlt
    refine ⟨⟨_, if_neg (by omega)⟩, bind_fails _ (memRead_fails (by omega))⟩

/-- Too many keys, or none, and not more bytes than the array holds. -/
theorem pubkeys_fail (behind : UInt8) (ht : ℤ) (hpos : pos ≤ file.length)
    (hnum : ∀ num ∈ (file.drop pos).head?, 64 < num.toNat)
    (hlen : (file.drop pos).length ≤ 1 + 64 * 33) :
    Fails (pubkeysOfFile ht file pos) ∧ Fails (pubkeysOfData behind ht file pos) := by
  rcases hbody : file.drop pos with _ | ⟨num, keys⟩
  · -- the number is `EOF` for one reader and the byte behind the data for the other
    have hend : file.length ≤ pos := drop_eq_nil_iff.1 hbody
    have hbyte : memByte behind file pos = .ok (behind, pos + 1) := by
      unfold memByte
      rw [getElem?_eq_none hend]
      rfl
    rw [pubkeysOfFile_eq (fgetcByte_nil hbody), pubkeysOfData_eq hbyte]
    constructor
    · rw [hbody]
      exact ⟨_, rfl⟩
    · split_ifs
      · exact ⟨_, rfl⟩
      · exact bind_fails _ (memRead_fails (by omega))
  · have hnum' : 64 < num.toNat := hnum num (by rw [hbody]; rfl)
    obtain ⟨-, -, hkeys, hkeyslen⟩ := cons_of_drop hbody
    rw [hbody, length_cons] at hlen
    rw [pubkeysOfFile_eq (fgetcByte_cons hbody), pubkeysOfData_eq (memByte_cons hbody),
      if_pos hnum']
    have hshort : ((file.drop (pos + 1)).take (33 * num.toNat)).length ≤ 64 * 33 := by
      rw [← hkeys, length_take]
      omega
    refine ⟨?_, ⟨_, rfl⟩⟩
    simp only
    rw [if_neg (by omega), if_neg (by omega)]
    exact ⟨_, rfl⟩

theorem pubkeys_overflow (behind : UInt8) {keys : Bytes} (ht : ℤ)
    (hbody : file.drop pos = num :: keys) (hnum : 64 < num.toNat) (hlen : 64 * 33 < keys.length) :
    pubkeysOfFile ht file pos = .error .overflow ∧ Fails (pubkeysOfData behind ht file pos) := by
  obtain ⟨-, -, hkeys, -⟩ := cons_of_drop hbody
  have hmany : 64 * 33 < ((file.drop (pos + 1)).take (33 * num.toNat)).length := by
    rw [← hkeys, length_take]
    omega
  rw [pubkeysOfFile_eq (fgetcByte_cons hbody), pubkeysOfData_eq (memByte_cons hbody), if_pos hnum]
  exact ⟨if_pos hmany, ⟨_, rfl⟩⟩

/-! ### Prices -/

theorem pricefeedOfFile_eq {ht : ℤ} {num : ℕ} (h : fgetcByte file pos = .ok (num, pos')) :
    pricefeedOfFile ht file pos =
      if 4 * num ≤ 4 * 35 then
        (freadAll (4 * num) "Unable to parse price feed" >>= fun prices => pure
          { height := ht, num, prices := prices ++ replicate (35 - prices.length) 0 }) file pos'
      else .ok ({ height := ht, num }, pos') := by
  unfold pricefeedOfFile
  rw [bind_ok h]
  split_ifs <;> rfl

theorem pricefeedOfData_eq {ht : ℤ} {prices : Bytes}
    (h : file.drop pos = num :: prices) :
    pricefeedOfData ht file pos =
      if num.toNat = 35 then
        (memRead (4 * num.toNat) >>= fun prices => pure
          { height := ht, num := num.toNat, prices }) file (pos + 1)
      else .ok ({ height := ht, num := num.toNat }, pos + 1 + 4 * num.toNat) := by
  have hnum : fromLE [num] = num.toNat := by simp [fromLE]
  unfold pricefeedOfData
  rw [bind_ok (memRead_cons h), hnum]
  split_ifs <;> rfl

/-- 35 prices, or zeros that are there. -/
theorem together_pricefeed {prices : Bytes} (ht : ℤ)
    (hbody : file.drop pos = num :: prices) (hframed : PricesFramed (num :: prices)) :
    Together file pos (1 + 4 * num.toNat) (pricefeedOfFile ht) (pricefeedOfData ht) := by
  obtain ⟨hpos, -, rfl, hlen⟩ := cons_of_drop hbody
  unfold Together
  rw [pricefeedOfFile_eq (fgetcByte_cons hbody), pricefeedOfData_eq hbody, ← add_assoc]
  rcases hframed with hnum | ⟨hfew, hthere, hzero⟩
  · rw [if_pos (by omega), if_pos hnum, hnum]
    constructor
    · intro hle
      have hall : ((file.drop (pos + 1)).take (4 * 35)).length = 4 * 35 := by
        rw [length_take, length_drop]
        omega
      rw [bind_ok (freadAll_ok hle), bind_ok (memRead_ok hle), hall]
      exact ⟨{ height := ht, num := 35, prices := (file.drop (pos + 1)).take (4 * 35) },
        congrArg (fun bs => Except.ok (PricefeedEvent.mk ht 35 bs, pos + 1 + 4 * 35))
          (append_nil _), rfl⟩
    · intro hlt
      exact ⟨bind_fails _ (freadAll_fails hpos hlt), bind_fails _ (memRead_fails hlt)⟩
  · rw [if_pos (by omega), if_neg (by omega)]
    have hle : pos + 1 + 4 * num.toNat ≤ file.length := by omega
    have htaken : ((file.drop (pos + 1)).take (4 * num.toNat)).length = 4 * num.toNat := by
      rw [length_take, hlen]
      omega
    have hclear : (file.drop (pos + 1)).take (4 * num.toNat)
        ++ replicate (35 - ((file.drop (pos + 1)).take (4 * num.toNat)).length) 0
          = replicate 35 0 := by
      rw [eq_replicate_iff.2 ⟨htaken, hzero⟩, length_replicate, ← replicate_add]
      congr 1
      omega
    refine ⟨fun _ => ?_, fun hlt => absurd hlt (by omega)⟩
    rw [bind_ok (freadAll_ok hle)]
    exact ⟨{ height := ht, num := num.toNat },
      congrArg (fun bs => Except.ok (PricefeedEvent.mk ht num.toNat bs, pos + 1 + 4 * num.toNat))
        hclear, rfl⟩

/-! ### Framed records -/

variable {behind : UInt8} {dest func : Bytes} {ht : ℤ}

/-- Both readers take as many bytes as they agree on, or fail both where they agree on none. -/
def TogetherOr {α : Type} (file : Bytes) (pos : ℕ) (size : Option ℕ) (r r' : FileReader α) : Prop :=
  match size with
  | some n => Together file pos n r r'
  | none => Fails (r file pos) ∧ Fails (r' file pos)

theorem TogetherOr.map {α β : Type} {size : Option ℕ} {r r' : FileReader α}
    (h : TogetherOr file pos size r r') (f : α → β) :
    TogetherOr file pos size (f <$> r) (f <$> r') := by
  cases size with
  | some n => exact Together.map h f
  | none => exact ⟨map_fails f h.1, map_fails f h.2⟩

theorem togetherOr_pubkeys (ht : ℤ) (hpos : pos ≤ file.length)
    (hframed : ∀ num ∈ (file.drop pos).head?,
      num.toNat ≤ 64 ∨ (file.drop pos).length ≤ 1 + 64 * 33) :
    TogetherOr file pos
      ((file.drop pos).head?.bind fun num =>
        if num.toNat ≤ 64 then some (1 + 33 * num.toNat) else none)
      (pubkeysOfFile ht) (pubkeysOfData behind ht) := by
  rcases hbody : file.drop pos with _ | ⟨num, keys⟩
  · refine pubkeys_fail behind ht hpos (fun num hnum => ?_) ?_ <;> rw [hbody] at *
    · cases hnum
    · exact zero_le _
  · have hcons := hframed num (by rw [hbody]; rfl)
    by_cases hnum : num.toNat ≤ 64
    · have htogether := together_pubkeys behind ht hbody hnum
      rw [head?_cons, Option.bind_some, if_pos hnum]
      exact htogether
    · have hfail := pubkeys_fail behind ht hpos (fun n hn => ?_)
        (hcons.resolve_left hnum)
      · rw [head?_cons, Option.bind_some, if_neg hnum]
        exact hfail
      · rw [hbody] at hn
        cases hn
        omega

theorem togetherOr_pricefeed (ht : ℤ) (hframed : PricesFramed (file.drop pos)) :
    TogetherOr file pos ((file.drop pos).head?.map fun num => 1 + 4 * num.toNat)
      (pricefeedOfFile ht) (pricefeedOfData ht) := by
  rcases hbody : file.drop pos with _ | ⟨num, prices⟩
  · rw [hbody] at hframed
    exact hframed.elim
  · rw [hbody] at hframed
    exact together_pricefeed ht hbody hframed

/-- A framed record is read by both readers, as far as it is there. -/
theorem togetherOr_record (behind : UInt8) (dest : Bytes) (ht : ℤ) (hpos : pos ≤ file.length)
    (hframed : BodyFramed func (file.drop pos)) :
    TogetherOr file pos (bodyLen func (file.drop pos)) (recordOfFile dest func ht)
      (recordOfData behind dest func ht) := by
  obtain ⟨hkeys, hpayload, hprices⟩ := hframed
  unfold bodyLen recordOfFile recordOfData
  by_cases hP : func = ['P'.toUInt8]
  · simp only [if_pos hP]
    exact ((togetherOr_pubkeys ht hpos (hkeys hP)).map Event.pubkeys).map some
  simp only [if_neg hP]
  by_cases hN : func = ['N'.toUInt8]
  · simp only [if_pos hN]
    exact ((together_notarized hpos ht dest false).map Event.notarized).map some
  simp only [if_neg hN]
  by_cases hM : func = ['M'.toUInt8]
  · simp only [if_pos hM]
    exact ((together_notarized hpos ht dest true).map Event.notarized).map some
  simp only [if_neg hM]
  by_cases hU : func = ['U'.toUInt8]
  · simp only [if_pos hU]
    exact ((together_u hpos ht).map Event.u).map some
  simp only [if_neg hU]
  by_cases hK : func = ['K'.toUInt8]
  · simp only [if_pos hK]
    exact ((together_kmdheight hpos ht false).map Event.kmdheight).map some
  simp only [if_neg hK]
  by_cases hT : func = ['T'.toUInt8]
  · simp only [if_pos hT]
    exact ((together_kmdheight hpos ht true).map Event.kmdheight).map some
  simp only [if_neg hT]
  by_cases hR : func = ['R'.toUInt8]
  · simp only [if_pos hR]
    exact ((together_opreturn hpos ht (hpayload hR)).map Event.opreturn).map some
  simp only [if_neg hR]
  by_cases hD : func = ['D'.toUInt8]
  · simp only [if_pos hD]
    exact together_pure hpos none
  simp only [if_neg hD]
  by_cases hV : func = ['V'.toUInt8]
  · simp only [if_pos hV]
    exact ((togetherOr_pricefeed ht (hprices hV)).map Event.pricefeed).map some
  simp only [if_neg hV]
  by_cases hB : func = ['B'.toUInt8]
  · simp only [if_pos hB]
    exact together_pure hpos none
  simp only [if_neg hB]
  exact ⟨⟨_, rfl⟩, ⟨_, rfl⟩⟩

theorem fread_one_ok (h : pos < file.length) :
    fread 1 file pos = .ok ((file.drop pos).take 1, pos + 1) := by
  have hlen : ((file.drop pos).take 1).length = 1 := by
    rw [length_take, length_drop]
    omega
  unfold fread
  rw [hlen]

theorem parseStateFile_eq (h : pos + 5 ≤ file.length) :
    parseStateFile dest file pos = recordOfFile dest ((file.drop pos).take 1)
      (int32Of ((file.drop (pos + 1)).take 4)) file (pos + 5) := by
  unfold parseStateFile
  rw [bind_ok (fread_one_ok (by omega)), bind_ok (freadAll_ok (by omega))]

theorem parseStateFileData_eq (h : pos + 5 ≤ file.length) :
    parseStateFileData behind dest file pos = recordOfData behind dest ((file.drop pos).take 1)
      (int32Of ((file.drop (pos + 1)).take 4)) file (pos + 5) := by
  unfold parseStateFileData
  rw [bind_ok (memRead_ok (by omega)), bind_ok (memRead_ok (by omega))]

theorem parse_fail (hpos : pos < file.length) (h : file.length < pos + 5) :
    Fails (parseStateFile dest file pos) ∧ Fails (parseStateFileData behind dest file pos) := by
  unfold parseStateFile parseStateFileData
  rw [bind_ok (fread_one_ok hpos), bind_ok (memRead_ok (by omega))]
  exact ⟨bind_fails _ (freadAll_fails (by omega) (by omega)),
    bind_fails _ (memRead_fails (by omega))⟩

/-- **Framed records are read together.** -/
theorem togetherOr_parse (behind : UInt8) (dest : Bytes) (hpos : pos < file.length)
    (hframed : FramedAt file pos) :
    TogetherOr file pos (recordLen file pos) (parseStateFile dest)
      (parseStateFileData behind dest) := by
  unfold recordLen
  by_cases hheight : pos + 5 ≤ file.length
  · have hrecord := togetherOr_record behind dest (int32Of ((file.drop (pos + 1)).take 4))
      hheight (hframed hheight)
    rw [if_pos hheight]
    cases hlen : bodyLen ((file.drop pos).take 1) (file.drop (pos + 5)) with
    | none =>
      rw [hlen] at hrecord
      show Fails _ ∧ Fails _
      rwa [parseStateFile_eq hheight, parseStateFileData_eq hheight]
    | some n =>
      rw [hlen] at hrecord
      show Together file pos (5 + n) _ _
      unfold Together
      rwa [parseStateFile_eq hheight, parseStateFileData_eq hheight, ← add_assoc]
  · rw [if_neg hheight]
    exact parse_fail hpos (by omega)

/-! ### Where every record is framed -/

theorem run_fails {parse : FileReader (Option Event)} (hpos : pos < file.length)
    (h : Fails (parse file pos)) :
    run parse (calls + 1) file pos = some { events := [], stop := .parseError pos } := by
  obtain ⟨what, hw⟩ := h
  rw [run, if_neg (not_le.2 hpos), hw]

theorem run_ok {parse : FileReader (Option Event)} {evt : Option Event}
    (hpos : pos < file.length) (h : parse file pos = .ok (evt, pos')) :
    run parse (calls + 1) file pos = (run parse calls file pos').map fun r =>
      { r with events := evt.toList ++ r.events } := by
  rw [run, if_neg (not_le.2 hpos), h]

theorem five_le_recordLen (h : recordLen file pos = some n) :
    5 ≤ n ∧ pos + 5 ≤ file.length := by
  unfold recordLen at h
  by_cases hheight : pos + 5 ≤ file.length
  · rw [if_pos hheight] at h
    obtain ⟨len, -, rfl⟩ := Option.map_eq_some_iff.1 h
    exact ⟨le_add_right 5 len, hheight⟩
  · rw [if_neg hheight] at h
    cases h

/-- From a position that is reached on. -/
theorem run_eq_of_framed (behind : UInt8) (dest : Bytes) (h : Framed file) : ∀ {pos : ℕ}, Reached file pos →
    file.length - pos < calls → ∃ r, run (parseStateFile dest) calls file pos = some r
      ∧ run (parseStateFileData behind dest) calls file pos = some r := by
  induction calls with
  | zero => exact fun _ hcalls => absurd hcalls (not_lt_zero _)
  | succ calls ih =>
    intro pos hreached hcalls
    by_cases hend : file.length ≤ pos
    · exact ⟨{ events := [], stop := .ended pos }, by rw [run, if_pos hend], by
        rw [run, if_pos hend]⟩
    have hpos : pos < file.length := Nat.lt_of_not_le hend
    have htogether := togetherOr_parse behind dest hpos (h pos hreached)
    cases hlen : recordLen file pos with
    | none =>
      rw [hlen] at htogether
      exact ⟨_, run_fails hpos htogether.1, run_fails hpos htogether.2⟩
    | some n =>
      rw [hlen] at htogether
      by_cases hrecord : pos + n ≤ file.length
      · obtain ⟨evt, hslow, hfast⟩ := htogether.1 hrecord
        have hn := five_le_recordLen hlen
        obtain ⟨r, hr, hr'⟩ := ih (hreached.next (h pos hreached) hlen hrecord) (by omega)
        refine ⟨{ r with events := evt.toList ++ r.events }, ?_, ?_⟩
        · rw [run_ok hpos hslow, hr]
          rfl
        · rw [run_ok hpos hfast, hr']
          rfl
      · obtain ⟨hslow, hfast⟩ := htogether.2 (Nat.lt_of_not_le hrecord)
        exact ⟨_, run_fails hpos hslow, run_fails hpos hfast⟩

end StateFile
end Komodo
