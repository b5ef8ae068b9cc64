/-
# The formats of oracle data

`oracle_format` and `oracle_parse_data_format` of `src/src/cc/oracles.cpp`.

A format has a letter for each field: a string or bytes behind a length of one or two bytes, an
integer, or a hash.  `oracle_parse_data_format` says whether data has the format of its oracle, and
`oracle_format` reads one field of it.

Both read the bytes of a length before anything is compared with the size of the data.  A string may
hold a DEL, empty data is never accepted, and `oracle_format` has no value for a field of the length
zero or of more than 10000 bytes.  `agrees_iff` says when the two are right together.

A byte that is read outside of the data and an `int` that overflows leave the program without a
meaning.  A format has less than `2 ^ 31` letters.
-/

import Komodo.CC.ImportCoin
import Komodo.KV.Store

namespace Komodo
namespace Oracles

open List Nat

open KV (IGUANA_MAXSCRIPTSIZE wrap32)

/-- What ends a reading. -/
inductive ReadStop
  | undefined
  | rejected
deriving DecidableEq

/-- What a letter stands for. -/
inductive Field
  | string (lengthBytes : ℕ)
  | binary (lengthBytes : ℕ)
  | signed (len : ℕ)
  | unsigned (len : ℕ)
  | hash
deriving DecidableEq

/-- The `switch` of both functions. -/
def switch : List (UInt8 × Field) := [
  (fid 's', .string 1), (fid 'S', .string 2), (fid 'd', .binary 1), (fid 'D', .binary 2),
  (fid 'c', .signed 1), (fid 'C', .unsigned 1), (fid 't', .signed 2), (fid 'T', .unsigned 2),
  (fid 'i', .signed 4), (fid 'I', .unsigned 4), (fid 'l', .signed 8), (fid 'L', .unsigned 8),
  (fid 'h', .hash)]

/-- The field of a letter; `none` for the default. -/
def fieldOf (fmt : UInt8) : Option Field := (switch.find? (·.1 = fmt)).map Prod.snd

namespace Field

/-- The bytes of the length, the lowest first. -/
def lengthBytes : Field → ℕ
  | string n | binary n => n
  | _ => 0

/-- The length of the field behind these bytes. -/
def len (lengthBytes : Bytes) : Field → ℕ
  | string _ | binary _ => fromLE lengthBytes
  | signed len | unsigned len => len
  | hash => 32

def isString : Field → Bool
  | string _ => true
  | _ => false

/-- `len = data[offset++]`, and the same for a second byte. -/
def readLength (field : Field) (data : Bytes) (offset : ℕ) : Except ReadStop ℕ :=
  if data.length < offset + field.lengthBytes then .error .undefined
  else .ok (field.len ((data.drop offset).take field.lengthBytes))

end Field

/-! ### Checking a format -/

/-- A byte that passes for one of a string. -/
def passes (c : UInt8) : Bool := ¬ (c < 32 ∨ c > 127)

/-- The loop over the bytes of a string, with an `int` for the position. -/
def checkString (data : Bytes) (offset len : ℕ) : Except ReadStop Unit :=
  if offset + len < 2 ^ 31 then
    if ((data.drop offset).take len).all passes then .ok () else .error .rejected
  else if offset < 2 ^ 31 ∧ ((data.drop offset).take (2 ^ 31 - offset)).any (!passes ·) then
    .error .rejected
  else .error .undefined

/-- The rest of a round, behind the length.  The length has been read inside the data, so that
`data.size()-offset` does not wrap around. -/
def checkBody (field : Field) (data : Bytes) (offset len : ℕ) : Except ReadStop ℕ :=
  if data.length - offset < len then .error .rejected
  else if field.isString then (checkString data offset len).map fun _ => offset + len
  else .ok (offset + len)

/-- A round of `oracle_parse_data_format`. -/
def parseField (data : Bytes) (offset : ℕ) (fmt : UInt8) : Except ReadStop ℕ :=
  match fieldOf fmt with
  | none => .error .rejected
  | some field => do
    let len ← field.readLength data offset
    checkBody field data (offset + field.lengthBytes) len

/-- `oracle_parse_data_format`; `none` where it has no meaning. -/
def parseDataFormat (data format : Bytes) : Option ℤ :=
  match format.foldlM (parseField data) 0 with
  | .error .undefined => none
  | .error .rejected => some 0
  | .ok offset => some (if offset ≠ data.length then 0 else wrap32 offset)

/-! ### Reading a field -/

/-- What `oracle_format` gives back; `str` is the text, where there is a buffer for it. -/
structure FormatResult where
  offset : ℤ
  hash : Uint256 := 0
  val : ℤ := 0
  str : Bytes := []
deriving DecidableEq

/-- `return(-1)`. -/
def FormatResult.failed : FormatResult := { offset := -1 }

/-- `%02x`. -/
def hexByte (b : UInt8) : Bytes := [Nat.digitChar (b.toNat / 16), Nat.digitChar (b.toNat % 16)].map fid

/-- A signed integer of some bytes. -/
def signedLE (bytes : Bytes) : ℤ := (fromLE bytes : ℤ).bmod (2 ^ (8 * bytes.length))

/-- The bytes of a field behind a length. -/
def formatBytes (str : Bool) (text : Bytes → Bytes) (data : Bytes) (offset len : ℕ) (datalen : ℤ) :
    Except ReadStop FormatResult :=
  if len = 0 then .ok .failed
  else if !str then .ok { offset := offset }
  else if len < IGUANA_MAXSCRIPTSIZE then
    if 2 ^ 31 ≤ offset + len then .error .undefined
    else if (offset + len : ℤ) ≤ datalen then
      if data.length < offset + len then .error .undefined
      else .ok { offset := offset + len, str := text ((data.drop offset).take len) }
    else .ok .failed
  else .ok .failed

/-- A field of a fixed length. -/
def formatFixed (str : Bool) (value : Bytes → Uint256 × ℤ × Bytes) (data : Bytes) (offset len : ℕ)
    (datalen : ℤ) : Except ReadStop FormatResult :=
  if 2 ^ 31 ≤ offset + len then .error .undefined
  else if (len + offset : ℤ) ≤ datalen then
    if data.length < offset + len then .error .undefined
    else
      let (hash, val, text) := value ((data.drop offset).take len)
      .ok { offset := offset + len, hash, val, str := if str then text else [] }
  else .ok .failed

/-- What `oracle_format` does with a field of a length. -/
def formatBody (str : Bool) (data : Bytes) (offset len : ℕ) (datalen : ℤ) :
    Field → Except ReadStop FormatResult
  | .string _ => formatBytes str id data offset len datalen
  | .binary _ => formatBytes str (·.flatMap hexByte) data offset len datalen
  | .signed _ => formatFixed str (fun bytes =>
      (0, signedLE bytes, stringBytes (toString (signedLE bytes)))) data offset len datalen
  | .unsigned _ => formatFixed str (fun bytes =>
      (0, toInt64 (fromLE bytes), stringBytes (toString (fromLE bytes)))) data offset len datalen
  | .hash => formatFixed str (fun bytes => (fromLE bytes, 0, bytes.reverse.flatMap hexByte))
      data offset len datalen

/-- `oracle_format`; `str` says that there is a buffer for the text. -/
def oracleFormat (str : Bool) (fmt : UInt8) (data : Bytes) (offset : ℕ) (datalen : ℤ) :
    Except ReadStop FormatResult :=
  match fieldOf fmt with
  | none => .ok .failed
  | some field => do
    let len ← field.readLength data offset
    formatBody str data (offset + field.lengthBytes) len datalen field

/-- A field with its text, where the one before has not failed. -/
def formatStep (data : Bytes) (offset : ℕ) (fmt : UInt8) : Except ReadStop ℕ := do
  let result ← oracleFormat true fmt data offset (wrap32 data.length)
  if result.offset < 0 then .error .rejected else pure result.offset.toNat

/-- `oracle_format` field by field: where the last one ends. -/
def formatAll (data format : Bytes) : Except ReadStop ℕ := format.foldlM (formatStep data) 0

/-! ### What the data should be -/

/-- A printable character. -/
def isPrintable (c : UInt8) : Bool := 32 ≤ c ∧ c ≤ 126

/-- A field of a letter: the bytes of its length, and as many bytes as they say; those of a string
pass a test. -/
def IsField (test : UInt8 → Bool) (fmt : UInt8) (bytes : Bytes) : Prop :=
  ∃ field lengthBytes body, fieldOf fmt = some field ∧ bytes = lengthBytes ++ body
    ∧ lengthBytes.length = field.lengthBytes ∧ body.length = field.len lengthBytes
    ∧ (field.isString = true → body.all test = true)

/-- The data is one field for each letter, one behind the other. -/
def WellFormed (test : UInt8 → Bool) (format data : Bytes) : Prop :=
  ∃ fields, List.Forall₂ (IsField test) format fields ∧ data = fields.flatten

/-- The bytes from `offset` on have no byte for the length, or are a string that goes on to the last
`int`. -/
def Unreadable (fmt : UInt8) (offset : ℕ) (rest : Bytes) : Prop :=
  ∃ field, fieldOf fmt = some field ∧ (rest.length < field.lengthBytes
    ∨ field.isString = true
      ∧ field.len (rest.take field.lengthBytes) ≤ (rest.drop field.lengthBytes).length
      ∧ 2 ^ 31 ≤ offset + field.lengthBytes + field.len (rest.take field.lengthBytes)
      ∧ ((rest.drop field.lengthBytes).take (2 ^ 31 - (offset + field.lengthBytes))).all passes)

/-- The two functions are right on a format and data. -/
structure Agrees (format data : Bytes) : Prop where
  inside : parseDataFormat data format ≠ none
  accepts : ∀ result, parseDataFormat data format = some result →
    (result ≠ 0 ↔ WellFormed isPrintable format data)
  formats : WellFormed isPrintable format data → formatAll data format = .ok data.length

/-! ### A round of the check -/

section
variable {data rest bytes : Bytes} {offset next : ℕ} {fmt : UInt8} {field : Field}

theorem parseField_eq (hfield : fieldOf fmt = some field) (hoffset : offset ≤ data.length) :
    parseField data offset fmt =
      if (data.drop offset).length < field.lengthBytes then .error .undefined
      else checkBody field data (offset + field.lengthBytes)
        (field.len ((data.drop offset).take field.lengthBytes)) := by
  unfold parseField Field.readLength
  simp only [hfield, length_drop]
  by_cases hshort : data.length - offset < field.lengthBytes
  · rw [if_pos hshort, if_pos (by omega)]
    rfl
  · rw [if_neg hshort, if_neg (by omega)]
    rfl

/-- The loop over a string gets to its end, or to the last `int`. -/
theorem checkString_eq (len : ℕ) :
    checkString data offset len =
      if ((data.drop offset).take (min len (2 ^ 31 - offset))).all passes = true then
        if offset + len < 2 ^ 31 then .ok () else .error .undefined
      else .error .rejected := by
  unfold checkString
  by_cases hint : offset + len < 2 ^ 31
  · rw [if_pos hint, min_eq_left (by omega)]
    simp only [if_pos hint]
  · rw [if_neg hint, min_eq_right (by omega), if_neg hint]
    by_cases hoffset : offset < 2 ^ 31
    · by_cases hall : ((data.drop offset).take (2 ^ 31 - offset)).all passes = true
      · rw [if_pos hall, if_neg]
        rintro ⟨-, hany⟩
        obtain ⟨c, hc, hbad⟩ := any_eq_true.1 hany
        simp [all_eq_true.1 hall c hc] at hbad
      · rw [if_neg hall, if_pos ⟨hoffset, by simpa using hall⟩]
    · rw [if_neg fun h => hoffset h.1, Nat.sub_eq_zero_of_le (by omega)]
      rfl

theorem checkBody_undefined_iff {len : ℕ} :
    checkBody field data offset len = .error .undefined ↔ field.isString = true
      ∧ len ≤ (data.drop offset).length ∧ 2 ^ 31 ≤ offset + len
      ∧ ((data.drop offset).take (2 ^ 31 - offset)).all passes = true := by
  unfold checkBody
  rw [← length_drop]
  by_cases hlong : (data.drop offset).length < len
  · rw [if_pos hlong]
    exact ⟨nofun, fun h => absurd h.2.1 (not_le.2 hlong)⟩
  · rw [if_neg hlong]
    cases field.isString with
    | false => exact ⟨nofun, fun h => nomatch h.1⟩
    | true =>
      rw [if_pos rfl, checkString_eq]
      by_cases hint : offset + len < 2 ^ 31
      · rw [if_pos hint]
        refine ⟨fun h => ?_, fun h => absurd h.2.2.1 (not_le.2 hint)⟩
        split_ifs at h <;> cases h
      · rw [if_neg hint, min_eq_right (by omega)]
        by_cases hall : ((data.drop offset).take (2 ^ 31 - offset)).all passes = true
        · rw [if_pos hall]
          exact ⟨fun _ => ⟨rfl, Nat.le_of_not_lt hlong, Nat.le_of_not_lt hint, hall⟩, fun _ => rfl⟩
        · rw [if_neg hall]
          exact ⟨nofun, fun h => absurd h.2.2.2 hall⟩

theorem checkBody_ok {len : ℕ} (h : checkBody field data offset len = .ok next) :
    next = offset + len ∧ len ≤ (data.drop offset).length
      ∧ (field.isString = true → ((data.drop offset).take len).all passes = true) := by
  unfold checkBody at h
  rw [← length_drop] at h
  by_cases hlong : (data.drop offset).length < len
  · rw [if_pos hlong] at h
    cases h
  · rw [if_neg hlong] at h
    cases hstring : field.isString with
    | false =>
      rw [hstring] at h
      exact ⟨(Except.ok.inj h).symm, Nat.le_of_not_lt hlong, nofun⟩
    | true =>
      rw [hstring, if_pos rfl, checkString_eq] at h
      split_ifs at h with hall hint
      · rw [min_eq_left (by omega)] at hall
        exact ⟨(Except.ok.inj h).symm, Nat.le_of_not_lt hlong, fun _ => hall⟩
      · cases h
      · cases h

theorem checkBody_complete {len : ℕ} (hlen : len ≤ (data.drop offset).length)
    (hstring : field.isString = true → ((data.drop offset).take len).all passes = true) :
    checkBody field data offset len = .ok (offset + len)
      ∨ checkBody field data offset len = .error .undefined := by
  unfold checkBody
  rw [← length_drop, if_neg (not_lt.2 hlen)]
  cases hkind : field.isString with
  | false => exact .inl rfl
  | true =>
    rw [if_pos rfl, checkString_eq, if_pos]
    · split_ifs
      · exact .inl rfl
      · exact .inr rfl
    · rw [min_comm, ← take_take]
      exact all_eq_true.2 fun c hc =>
        all_eq_true.1 (hstring hkind) c (mem_of_mem_take hc)

/-- **A round has no meaning where its letter cannot be read.** -/
theorem parseField_undefined_iff (hoffset : offset ≤ data.length) :
    parseField data offset fmt = .error .undefined ↔ Unreadable fmt offset (data.drop offset) := by
  cases hfield : fieldOf fmt with
  | none => simp [parseField, Unreadable, hfield]
  | some field =>
    simp only [Unreadable, hfield, Option.some.injEq, exists_eq_left', parseField_eq hfield hoffset]
    by_cases hshort : (data.drop offset).length < field.lengthBytes
    · rw [if_pos hshort]
      exact ⟨fun _ => .inl hshort, fun _ => rfl⟩
    · rw [if_neg hshort, or_iff_right hshort, checkBody_undefined_iff, drop_drop]

/-- A round that goes on has read a field. -/
theorem parseField_sound (hoffset : offset ≤ data.length)
    (h : parseField data offset fmt = .ok next) :
    ∃ bytes, IsField passes fmt bytes ∧ data.drop offset = bytes ++ data.drop next
      ∧ next = offset + bytes.length ∧ next ≤ data.length := by
  cases hfield : fieldOf fmt with
  | none => simp [parseField, hfield] at h
  | some field =>
    rw [parseField_eq hfield hoffset] at h
    by_cases hshort : (data.drop offset).length < field.lengthBytes
    · rw [if_pos hshort] at h
      cases h
    · rw [if_neg hshort] at h
      obtain ⟨hnext, hlen, hstring⟩ := checkBody_ok h
      set lengthBytes := (data.drop offset).take field.lengthBytes with hlengthBytes
      have hcount : lengthBytes.length = field.lengthBytes :=
        length_take_of_le (Nat.le_of_not_lt hshort)
      set body := (data.drop (offset + field.lengthBytes)).take (field.len lengthBytes) with hbody
      have hbodylen : body.length = field.len lengthBytes := length_take_of_le hlen
      refine ⟨lengthBytes ++ body, ⟨field, lengthBytes, body, hfield, rfl, hcount, hbodylen, hstring⟩,
        ?_, ?_, ?_⟩
      · rw [hnext, append_assoc, ← drop_drop, hbody, take_append_drop,
          ← drop_drop, hlengthBytes, take_append_drop]
      · rw [hnext, length_append, hcount, hbodylen, add_assoc]
      · rw [length_drop] at hlen hshort
        omega

/-- The bytes of a field tell the length of it. -/
theorem parseField_complete {test : UInt8 → Bool} (htest : ∀ c, test c = true → passes c = true)
    (hoffset : offset ≤ data.length) (hbytes : IsField test fmt bytes)
    (hrest : data.drop offset = bytes ++ rest) :
    parseField data offset fmt = .ok (offset + bytes.length)
      ∨ parseField data offset fmt = .error .undefined := by
  obtain ⟨field, lengthBytes, body, hfield, rfl, hcount, hbody, hstring⟩ := hbytes
  have htake : (data.drop offset).take field.lengthBytes = lengthBytes := by
    rw [hrest, append_assoc, ← hcount, take_left]
  have hdrop : data.drop (offset + field.lengthBytes) = body ++ rest := by
    rw [← drop_drop, hrest, append_assoc, ← hcount, drop_left]
  rw [parseField_eq hfield hoffset, htake, if_neg (by rw [hrest, ← hcount]; simp), length_append,
    hcount, ← add_assoc, hbody]
  refine checkBody_complete (by rw [hdrop, ← hbody]; simp) fun hkind => ?_
  rw [hdrop, ← hbody, take_left]
  exact all_eq_true.2 fun c hc => htest c (all_eq_true.1 (hstring hkind) c hc)

end

/-! ### The whole check -/

section
variable {data format rest : Bytes} {fields : List Bytes} {offset next : ℕ}

theorem foldlM_parseField_sound (hoffset : offset ≤ data.length)
    (h : format.foldlM (parseField data) offset = .ok next) :
    ∃ fields, List.Forall₂ (IsField passes) format fields
      ∧ data.drop offset = fields.flatten ++ data.drop next
      ∧ next = offset + fields.flatten.length ∧ next ≤ data.length := by
  induction format generalizing offset with
  | nil =>
    cases h
    exact ⟨[], .nil, rfl, rfl, hoffset⟩
  | cons fmt format ih =>
    rw [foldlM_cons] at h
    cases hround : parseField data offset fmt with
    | error stop =>
      rw [hround] at h
      cases h
    | ok middle =>
      rw [hround] at h
      obtain ⟨bytes, hbytes, hdrop, hmiddle, hle⟩ := parseField_sound hoffset hround
      obtain ⟨fields, hfields, hdrop', hnext, hnextle⟩ := ih hle h
      refine ⟨bytes :: fields, .cons hbytes hfields, ?_, ?_, hnextle⟩
      · rw [hdrop, hdrop', flatten_cons, append_assoc]
      · rw [hnext, hmiddle, flatten_cons, length_append, add_assoc]

theorem le_length_of_drop {bytes : Bytes} (hoffset : offset ≤ data.length)
    (hrest : data.drop offset = bytes ++ rest) : offset + bytes.length ≤ data.length := by
  have hlength := congrArg length hrest
  rw [length_drop, length_append] at hlength
  omega

theorem drop_of_drop {bytes : Bytes} (hrest : data.drop offset = bytes ++ rest) :
    data.drop (offset + bytes.length) = rest := by
  rw [← drop_drop, hrest, drop_left]

theorem foldlM_parseField_complete {test : UInt8 → Bool}
    (htest : ∀ c, test c = true → passes c = true) (hoffset : offset ≤ data.length)
    (hfields : List.Forall₂ (IsField test) format fields)
    (hrest : data.drop offset = fields.flatten ++ rest) :
    format.foldlM (parseField data) offset = .ok (offset + fields.flatten.length)
      ∨ format.foldlM (parseField data) offset = .error .undefined := by
  induction hfields generalizing offset with
  | nil => exact .inl rfl
  | @cons fmt bytes format fields hbytes _ ih =>
    rw [flatten_cons, append_assoc] at hrest
    rw [foldlM_cons, flatten_cons, length_append, ← add_assoc]
    rcases parseField_complete htest hoffset hbytes hrest with hround | hround
    · rw [hround]
      exact ih (le_length_of_drop hoffset hrest) (drop_of_drop hrest)
    · rw [hround]
      exact .inr rfl

/-- **The check has no meaning where fields for the first letters are followed by bytes that the
next letter cannot read.** -/
theorem foldlM_parseField_undefined_iff (hoffset : offset ≤ data.length) :
    format.foldlM (parseField data) offset = .error .undefined
      ↔ ∃ letters fmt later fields rest, format = letters ++ fmt :: later
        ∧ List.Forall₂ (IsField passes) letters fields
        ∧ data.drop offset = fields.flatten ++ rest
        ∧ Unreadable fmt (offset + fields.flatten.length) rest := by
  constructor
  · intro h
    induction format generalizing offset with
    | nil => cases h
    | cons fmt format ih =>
      rw [foldlM_cons] at h
      cases hround : parseField data offset fmt with
      | error stop =>
        rw [hround] at h
        obtain rfl : stop = .undefined := Except.error.inj h
        exact ⟨[], fmt, format, [], _, rfl, .nil, rfl, (parseField_undefined_iff hoffset).1 hround⟩
      | ok middle =>
        rw [hround] at h
        obtain ⟨bytes, hbytes, hdrop, hmiddle, hle⟩ := parseField_sound hoffset hround
        obtain ⟨letters, fmt', later, fields, rest, hformat, hfields, hrest, hunreadable⟩ := ih hle h
        refine ⟨fmt :: letters, fmt', later, bytes :: fields, rest, by rw [hformat, cons_append],
          .cons hbytes hfields, ?_, ?_⟩
        · rw [hdrop, hrest, flatten_cons, append_assoc]
        · rwa [flatten_cons, length_append, ← add_assoc, ← hmiddle]
  · rintro ⟨letters, fmt, later, fields, rest, rfl, hfields, hrest, hunreadable⟩
    rw [foldlM_append]
    rcases foldlM_parseField_complete (fun _ h => h) hoffset hfields hrest with hletters | hletters
    · have hround := (parseField_undefined_iff (le_length_of_drop hoffset hrest)).2
        ((drop_of_drop hrest).symm ▸ hunreadable)
      rw [hletters]
      simp only [foldlM_cons, bind, Except.bind, hround]
    · rw [hletters]
      rfl

end

/-! ### Reading field by field -/

section
variable {data format bytes rest : Bytes} {fields : List Bytes} {offset next : ℕ} {fmt : UInt8}

theorem wrap32_eq (h : data.length < 2 ^ 31) : wrap32 data.length = data.length := by
  unfold wrap32
  rw [Int.bmod_eq_of_le] <;> omega

/-- A field with a length has a byte at least, and as many as fit the buffer. -/
def Usual (fmt : UInt8) (bytes : Bytes) : Prop :=
  ∀ field, fieldOf fmt = some field → 0 < field.lengthBytes →
    field.lengthBytes < bytes.length ∧ bytes.length < field.lengthBytes + IGUANA_MAXSCRIPTSIZE

instance (fmt : UInt8) (bytes : Bytes) : Decidable (Usual fmt bytes) :=
  match hfield : fieldOf fmt with
  | none => .isTrue fun _ h => nomatch hfield.symm.trans h
  | some field => decidable_of_iff (0 < field.lengthBytes →
      field.lengthBytes < bytes.length ∧ bytes.length < field.lengthBytes + IGUANA_MAXSCRIPTSIZE)
    ⟨fun h _ hsome => Option.some.inj (hfield.symm.trans hsome) ▸ h, fun h => h field hfield⟩

theorem lengthBytes_pos {field : Field} (hfield : fieldOf fmt = some field) (n : ℕ)
    (hn : field = .string n ∨ field = .binary n) : 0 < n := by
  obtain ⟨letter, hletter, rfl⟩ := Option.map_eq_some_iff.1 hfield
  have hswitch : ∀ letter ∈ switch, letter.2 ≠ .string 0 ∧ letter.2 ≠ .binary 0 := by decide
  obtain ⟨hstring, hbinary⟩ := hswitch letter (mem_of_find?_eq_some hletter)
  refine pos_of_ne_zero ?_
  rintro rfl
  exact hn.elim hstring hbinary

/-- What is left of a step: where the field ends. -/
def endOf (result : Except ReadStop FormatResult) : Except ReadStop ℕ :=
  result.bind fun result => if result.offset < 0 then .error .rejected else .ok result.offset.toNat

theorem endOf_ok {n : ℕ} {hash : Uint256} {val : ℤ} {str : Bytes} :
    endOf (.ok { offset := n, hash, val, str }) = .ok n := rfl

theorem endOf_formatBytes {text : Bytes → Bytes} {len : ℕ} (hlen : offset + len ≤ data.length)
    (hint : data.length < 2 ^ 31) :
    endOf (formatBytes true text data offset len data.length) =
      if 0 < len ∧ len < IGUANA_MAXSCRIPTSIZE then .ok (offset + len) else .error .rejected := by
  unfold formatBytes
  by_cases hzero : len = 0
  · rw [if_pos hzero, if_neg (by omega)]
    rfl
  · rw [if_neg hzero, if_neg (by decide)]
    by_cases hfits : len < IGUANA_MAXSCRIPTSIZE
    · rw [if_pos hfits, if_neg (by omega), if_pos (by omega), if_neg (by omega), if_pos (by omega)]
      exact endOf_ok
    · rw [if_neg hfits, if_neg (by omega)]
      rfl

theorem endOf_formatFixed {value : Bytes → Uint256 × ℤ × Bytes} {len : ℕ}
    (hlen : offset + len ≤ data.length) (hint : data.length < 2 ^ 31) :
    endOf (formatFixed true value data offset len data.length) = .ok (offset + len) := by
  unfold formatFixed
  rw [if_neg (by omega), if_pos (by omega), if_neg (by omega)]
  exact endOf_ok

/-- **A field is read to its end if it is a usual one**, in data that an `int` can count. -/
theorem formatStep_field {test : UInt8 → Bool} (hint : data.length < 2 ^ 31)
    (hoffset : offset ≤ data.length) (hbytes : IsField test fmt bytes)
    (hrest : data.drop offset = bytes ++ rest) :
    formatStep data offset fmt =
      if Usual fmt bytes then .ok (offset + bytes.length) else .error .rejected := by
  have hle := le_length_of_drop hoffset hrest
  obtain ⟨field, lengthBytes, body, hfield, rfl, hcount, hbody, -⟩ := hbytes
  have htake : (data.drop offset).take field.lengthBytes = lengthBytes := by
    rw [hrest, append_assoc, ← hcount, take_left]
  have hread : field.readLength data offset = .ok body.length := by
    unfold Field.readLength
    rw [htake, hbody, if_neg]
    rw [length_append] at hle
    omega
  have hstep : formatStep data offset fmt = endOf (formatBody true data (offset + field.lengthBytes)
      body.length data.length field) := by
    unfold formatStep oracleFormat
    simp only [hfield, hread, wrap32_eq hint]
    rfl
  have husual : Usual fmt (lengthBytes ++ body) ↔ (0 < field.lengthBytes →
      0 < body.length ∧ body.length < IGUANA_MAXSCRIPTSIZE) := by
    unfold Usual
    simp only [hfield, Option.some.injEq, forall_eq', length_append, hcount]
    omega
  rw [length_append, hcount, ← add_assoc] at hle ⊢
  rw [hstep]
  have hpos := lengthBytes_pos hfield
  cases field with
  | string n =>
    rw [formatBody, endOf_formatBytes hle hint]
    simp only [husual, hpos n (.inl rfl), Field.lengthBytes, forall_const]
  | binary n =>
    rw [formatBody, endOf_formatBytes hle hint]
    simp only [husual, hpos n (.inr rfl), Field.lengthBytes, forall_const]
  | signed n => rw [formatBody, endOf_formatFixed hle hint, if_pos (husual.2 nofun)]
  | unsigned n => rw [formatBody, endOf_formatFixed hle hint, if_pos (husual.2 nofun)]
  | hash => rw [formatBody, endOf_formatFixed hle hint, if_pos (husual.2 nofun)]

/-- Fields that are all usual are read to the end, and others are not. -/
theorem foldlM_formatStep {test : UInt8 → Bool} (hint : data.length < 2 ^ 31)
    (hoffset : offset ≤ data.length) (hfields : List.Forall₂ (IsField test) format fields)
    (hrest : data.drop offset = fields.flatten ++ rest) :
    format.foldlM (formatStep data) offset =
      if List.Forall₂ Usual format fields then .ok (offset + fields.flatten.length)
      else .error .rejected := by
  induction hfields generalizing offset with
  | nil => exact (if_pos .nil).symm
  | @cons fmt bytes format fields hbytes _ ih =>
    rw [flatten_cons, append_assoc] at hrest
    rw [foldlM_cons, formatStep_field hint hoffset hbytes hrest]
    by_cases husual : Usual fmt bytes
    · rw [if_pos husual]
      refine (ih (le_length_of_drop hoffset hrest) (drop_of_drop hrest)).trans ?_
      simp only [forall₂_cons, husual, true_and, flatten_cons, length_append, add_assoc]
    · rw [if_neg husual, if_neg fun h => husual (forall₂_cons.1 h).1]
      rfl

theorem endOf_formatBytes_le {text : Bytes → Bytes} {len : ℕ} {datalen : ℤ}
    (h : endOf (formatBytes true text data offset len datalen) = .ok next) :
    (next : ℤ) ≤ datalen := by
  unfold formatBytes at h
  simp only [Bool.not_true, Bool.false_eq_true, if_false] at h
  split_ifs at h
  all_goals cases h
  show ((offset + len : ℤ).toNat : ℤ) ≤ datalen
  omega

theorem endOf_formatFixed_le {value : Bytes → Uint256 × ℤ × Bytes} {len : ℕ} {datalen : ℤ}
    (h : endOf (formatFixed true value data offset len datalen) = .ok next) :
    (next : ℤ) ≤ datalen := by
  unfold formatFixed at h
  simp only [if_true] at h
  split_ifs at h
  all_goals cases h
  show ((offset + len : ℤ).toNat : ℤ) ≤ datalen
  omega

theorem endOf_formatBody_le {len : ℕ} {datalen : ℤ} {field : Field}
    (h : endOf (formatBody true data offset len datalen field) = .ok next) :
    (next : ℤ) ≤ datalen := by
  unfold formatBody at h
  cases field with
  | string n => exact endOf_formatBytes_le h
  | binary n => exact endOf_formatBytes_le h
  | signed n => exact endOf_formatFixed_le h
  | unsigned n => exact endOf_formatFixed_le h
  | hash => exact endOf_formatFixed_le h

/-- No step goes on behind the length that it is given. -/
theorem formatStep_le (h : formatStep data offset fmt = .ok next) :
    (next : ℤ) ≤ wrap32 data.length := by
  unfold formatStep oracleFormat at h
  cases hfield : fieldOf fmt with
  | none =>
    rw [hfield] at h
    cases h
  | some field =>
    simp only [hfield] at h
    cases hread : field.readLength data offset with
    | error stop =>
      rw [hread] at h
      cases h
    | ok len =>
      rw [hread] at h
      exact endOf_formatBody_le h

theorem foldlM_formatStep_le (h : format.foldlM (formatStep data) offset = .ok next) :
    next = offset ∨ (next : ℤ) ≤ wrap32 data.length := by
  induction format generalizing offset with
  | nil => exact .inl (Except.ok.inj h).symm
  | cons fmt format ih =>
    rw [foldlM_cons] at h
    cases hstep : formatStep data offset fmt with
    | error stop =>
      rw [hstep] at h
      cases h
    | ok middle =>
      rw [hstep] at h
      rcases ih h with rfl | hle
      · exact .inr (formatStep_le hstep)
      · exact .inr hle

end

/-! ### The two together -/

theorem passes_of_isPrintable (c : UInt8) (h : isPrintable c = true) : passes c = true := by
  unfold isPrintable at h
  unfold passes
  simp only [decide_eq_true_eq, UInt8.le_iff_toNat_le, UInt8.lt_iff_toNat_lt, gt_iff_lt,
    UInt8.reduceToNat] at h ⊢
  omega

theorem IsField.unique {test test' : UInt8 → Bool} {fmt : UInt8} {bytes bytes' rest rest' : Bytes}
    (h : IsField test fmt bytes) (h' : IsField test' fmt bytes')
    (heq : bytes ++ rest = bytes' ++ rest') : bytes = bytes' ∧ rest = rest' := by
  obtain ⟨field, lengthBytes, body, hfield, rfl, hcount, hbody, -⟩ := h
  obtain ⟨field', lengthBytes', body', hfield', rfl, hcount', hbody', -⟩ := h'
  obtain rfl := Option.some.inj (hfield.symm.trans hfield')
  rw [append_assoc, append_assoc] at heq
  obtain ⟨rfl, hrest⟩ := append_inj heq (hcount.trans hcount'.symm)
  obtain ⟨rfl, rfl⟩ := append_inj hrest (hbody.trans hbody'.symm)
  exact ⟨rfl, rfl⟩

theorem fields_unique {test test' : UInt8 → Bool} {format : Bytes} {fields fields' : List Bytes}
    (h : List.Forall₂ (IsField test) format fields)
    (h' : List.Forall₂ (IsField test') format fields') (heq : fields.flatten = fields'.flatten) :
    fields = fields' := by
  induction h generalizing fields' with
  | nil =>
    cases h'
    rfl
  | cons hbytes _ ih =>
    cases h' with
    | cons hbytes' hfields' =>
      rw [flatten_cons, flatten_cons] at heq
      obtain ⟨rfl, hrest⟩ := hbytes.unique hbytes' heq
      rw [ih hfields' hrest]

/-- What the two functions leave open. -/
structure Met (format data : Bytes) : Prop where
  /-- Behind fields for the first letters the next letter can be read. -/
  readable : ∀ letters fmt later fields rest, format = letters ++ fmt :: later →
    List.Forall₂ (IsField passes) letters fields → data = fields.flatten ++ rest →
      ¬ Unreadable fmt fields.flatten.length rest
  /-- No string holds a DEL, unless the size is no `int` but zero. -/
  printable : ∀ fields, List.Forall₂ (IsField passes) format fields → data = fields.flatten →
    ¬ List.Forall₂ (IsField isPrintable) format fields → 2 ^ 32 ∣ data.length
  /-- Well-formed data is not empty, an `int` counts it, and its fields are usual. -/
  usual : ∀ fields, List.Forall₂ (IsField isPrintable) format fields → data = fields.flatten →
    0 < data.length ∧ data.length < 2 ^ 31 ∧ List.Forall₂ Usual format fields

section
variable {format data : Bytes} {fields : List Bytes}

theorem parseDataFormat_of_fields (hinside : parseDataFormat data format ≠ none)
    {test : UInt8 → Bool} (htest : ∀ c, test c = true → passes c = true)
    (hfields : List.Forall₂ (IsField test) format fields) (hdata : data = fields.flatten) :
    parseDataFormat data format = some (wrap32 data.length) := by
  unfold parseDataFormat at hinside ⊢
  rcases foldlM_parseField_complete htest (zero_le _) hfields
    (show data.drop 0 = fields.flatten ++ [] by rw [append_nil, ← hdata]; rfl) with hok | hundefined
  · rw [hok]
    simp [← hdata]
  · rw [hundefined] at hinside
    exact absurd rfl hinside

theorem wrap32_eq_zero_iff {n : ℕ} : wrap32 n = 0 ↔ 2 ^ 32 ∣ n := by
  unfold wrap32
  rw [← Int.dvd_iff_bmod_eq_zero]
  exact Int.natCast_dvd_natCast

theorem drop_zero_of_eq (hdata : data = fields.flatten) : data.drop 0 = fields.flatten ++ [] := by
  rw [append_nil, ← hdata, drop_zero]

theorem parseDataFormat_eq_none :
    parseDataFormat data format = none ↔ format.foldlM (parseField data) 0 = .error .undefined := by
  unfold parseDataFormat
  cases format.foldlM (parseField data) 0 with
  | ok next => exact ⟨nofun, nofun⟩
  | error stop => cases stop <;> simp

/-- A result that is not zero has come from fields that fill the data. -/
theorem fields_of_parseDataFormat {result : ℤ} (h : parseDataFormat data format = some result)
    (hne : result ≠ 0) : result = wrap32 data.length ∧ ∃ fields,
      List.Forall₂ (IsField passes) format fields ∧ data = fields.flatten := by
  unfold parseDataFormat at h
  cases hcheck : format.foldlM (parseField data) 0 with
  | error stop =>
    rw [hcheck] at h
    cases stop with
    | undefined => cases h
    | rejected => exact absurd (Option.some.inj h).symm hne
  | ok next =>
    rw [hcheck] at h
    by_cases hend : next = data.length
    · obtain ⟨fields, hfields, hdrop, -, -⟩ := foldlM_parseField_sound (zero_le _) hcheck
      rw [drop_zero, hend, drop_length, append_nil] at hdrop
      refine ⟨?_, fields, hfields, hdrop⟩
      rw [← Option.some.inj h, if_neg (not_not.2 hend), hend]
    · exact absurd ((Option.some.inj h).symm.trans (if_pos hend)) hne

theorem Agrees.readable (h : Agrees format data) {letters later rest : Bytes} {fmt : UInt8}
    (hformat : format = letters ++ fmt :: later)
    (hfields : List.Forall₂ (IsField passes) letters fields) (hdata : data = fields.flatten ++ rest) :
    ¬ Unreadable fmt fields.flatten.length rest := by
  intro hunreadable
  refine h.inside (parseDataFormat_eq_none.2 ?_)
  exact (foldlM_parseField_undefined_iff (zero_le _)).2
    ⟨letters, fmt, later, fields, rest, hformat, hfields, hdata, by rwa [zero_add]⟩

theorem Agrees.printable (h : Agrees format data)
    (hfields : List.Forall₂ (IsField passes) format fields) (hdata : data = fields.flatten)
    (hprintable : ¬ List.Forall₂ (IsField isPrintable) format fields) : 2 ^ 32 ∣ data.length := by
  have hresult := parseDataFormat_of_fields h.inside (fun _ h => h) hfields hdata
  rw [← wrap32_eq_zero_iff]
  by_contra hne
  obtain ⟨fields', hfields', hdata'⟩ := (h.accepts _ hresult).1 hne
  obtain rfl := fields_unique hfields hfields' (hdata.symm.trans hdata')
  exact hprintable hfields'

theorem Agrees.usual (h : Agrees format data)
    (hfields : List.Forall₂ (IsField isPrintable) format fields) (hdata : data = fields.flatten) :
    0 < data.length ∧ data.length < 2 ^ 31 ∧ List.Forall₂ Usual format fields := by
  have hwell : WellFormed isPrintable format data := ⟨fields, hfields, hdata⟩
  have hresult := parseDataFormat_of_fields h.inside passes_of_isPrintable hfields hdata
  have hformats := h.formats hwell
  have hpos : 0 < data.length := by
    refine pos_of_ne_zero fun hzero => (h.accepts _ hresult).2 hwell ?_
    rw [wrap32_eq_zero_iff, hzero]
    exact dvd_zero _
  have hint : data.length < 2 ^ 31 := by
    have hlt := Int.bmod_lt (x := data.length) (m := 2 ^ 32) (by decide)
    have hle := (foldlM_formatStep_le hformats).resolve_left hpos.ne'
    unfold wrap32 at hle
    omega
  refine ⟨hpos, hint, ?_⟩
  by_contra husual
  rw [formatAll, foldlM_formatStep hint (zero_le _) hfields (drop_zero_of_eq hdata),
    if_neg husual] at hformats
  cases hformats

theorem Met.inside (h : Met format data) : parseDataFormat data format ≠ none := by
  intro hnone
  obtain ⟨letters, fmt, later, fields, rest, hformat, hfields, hrest, hunreadable⟩ :=
    (foldlM_parseField_undefined_iff (zero_le _)).1 (parseDataFormat_eq_none.1 hnone)
  rw [zero_add] at hunreadable
  exact h.readable letters fmt later fields rest hformat hfields hrest hunreadable

theorem Met.accepts (h : Met format data) {result : ℤ}
    (hresult : parseDataFormat data format = some result) :
    result ≠ 0 ↔ WellFormed isPrintable format data := by
  constructor
  · intro hne
    obtain ⟨hsize, fields, hfields, hdata⟩ := fields_of_parseDataFormat hresult hne
    by_cases hprintable : List.Forall₂ (IsField isPrintable) format fields
    · exact ⟨fields, hprintable, hdata⟩
    · have hzero := wrap32_eq_zero_iff.2 (h.printable fields hfields hdata hprintable)
      exact absurd (hsize.trans hzero) hne
  · rintro ⟨fields, hfields, hdata⟩
    obtain ⟨hpos, hint, -⟩ := h.usual fields hfields hdata
    have hsize := parseDataFormat_of_fields h.inside passes_of_isPrintable hfields hdata
    rw [← Option.some.inj (hsize.symm.trans hresult), wrap32_eq hint]
    omega

theorem Met.formats (h : Met format data) (hwell : WellFormed isPrintable format data) :
    formatAll data format = .ok data.length := by
  obtain ⟨fields, hfields, hdata⟩ := hwell
  obtain ⟨-, hint, husual⟩ := h.usual fields hfields hdata
  rw [formatAll, foldlM_formatStep hint (zero_le _) hfields (drop_zero_of_eq hdata),
    if_pos husual, zero_add, ← hdata]

end

/-- **The two functions agree if and only if every letter can be read, no string holds a DEL, and
the fields are usual.** -/
theorem agrees_iff (format data : Bytes) : Agrees format data ↔ Met format data :=
  ⟨fun h => {
      readable := fun _ _ _ _ _ hformat hfields hdata => h.readable hformat hfields hdata
      printable := fun _ hfields hdata hprintable => h.printable hfields hdata hprintable
      usual := fun _ hfields hdata => h.usual hfields hdata },
    fun h => { inside := h.inside, accepts := fun _ hresult => h.accepts hresult, formats := h.formats }⟩

/-- **The length of a string is read behind the end of the data**, which is empty. -/
theorem length_read_outside : ¬ ∀ format data : Bytes, Agrees format data :=
  fun hall => (hall [fid 's'] []).inside (by decide)

end Oracles
end Komodo
