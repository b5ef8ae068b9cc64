/-
# What is read of an `OP_RETURN`

Which bytes `komodo_voutupdate` of `src/src/komodo.cpp` reads.

The name of the chain and the push are read within the script whatever it holds, and each block
of the data behind a check of what is left.  Only the check of the pairs can be passed with too many
of them: eight bytes for each are counted in 32 bits, so that `2 ^ 29` pairs count for nothing
(`Overcounts`).
-/

import Komodo.Notary.VoutUpdate

namespace Komodo
namespace Notary

open List Option

open StateFile (int32Of)

variable {script : Bytes}

/-- What an `int32_t` becomes. -/
theorem bmod_eq_iff {x c : ℤ} : x.bmod (2 ^ 32) = c
    ↔ -2147483648 ≤ c ∧ c < 2147483648 ∧ (4294967296 : ℤ) ∣ c - x :=
  Int.bmod_eq_iff (by decide)

theorem ok_bind {ε α β : Type} (x : α) (f : α → Except ε β) : (Except.ok x >>= f) = f x := rfl

/-! ### Bytes -/

theorem byteAt_ok {i : ℕ} (h : i < script.length) : byteAt script i = .ok script[i] := by
  unfold byteAt
  rw [getElem?_eq_getElem h]
  rfl

theorem bytesAt_ok {i n : ℕ} (h : i + n ≤ script.length) :
    bytesAt script i n = .ok ((script.drop i).take n) := if_pos h

theorem bytesAt_error {i n : ℕ} (h : script.length < i + n) :
    bytesAt script i n = .error ⟨max i script.length⟩ := if_neg (Nat.not_le.2 h)

/-! ### Names -/

/-- Whether a name stands at an offset, with a zero behind it. -/
def chainNameAt (chainPattern script : Bytes) (offset : ℕ) : Bool :=
  chainPattern.isPrefixOf (script.drop offset) && script[offset + chainPattern.length]? = some 0

/-- The characters at an offset, up to a zero and not more than 65. -/
def nameAt (script : Bytes) (offset : ℕ) : Bytes :=
  ((script.drop offset).takeWhile (· ≠ 0)).take 65

theorem equalAt_eq {pattern : Bytes} {i : ℕ} (h : i + pattern.length ≤ script.length) :
    equalAt script pattern i = .ok (pattern.isPrefixOf (script.drop i)) := by
  induction pattern generalizing i with
  | nil => rfl
  | cons c pattern ih =>
    rw [length_cons] at h
    have hi : i < script.length := by omega
    unfold equalAt
    rw [byteAt_ok hi, drop_eq_getElem_cons hi, isPrefixOf_cons_cons]
    show (if script[i] = c then _ else _) = _
    by_cases hc : script[i] = c
    · rw [if_pos hc, ih (by omega), hc, beq_self_eq_true, Bool.true_and]
    · rw [if_neg hc, beq_eq_false_iff_ne.2 (Ne.symm hc)]
      rfl

theorem checkChainNameInScript_eq (chainPattern script : Bytes) (offset : ℕ) :
    checkChainNameInScript chainPattern script offset
      = .ok (chainNameAt chainPattern script offset) := by
  unfold checkChainNameInScript chainNameAt
  by_cases hfit : offset + chainPattern.length < script.length
  · rw [if_pos hfit, equalAt_eq (by omega), getElem?_eq_getElem hfit]
    show (if chainPattern.isPrefixOf (script.drop offset) = true then _ else _) = _
    by_cases hname : chainPattern.isPrefixOf (script.drop offset) = true
    · rw [if_pos hname, byteAt_ok hfit, hname, Bool.true_and]
      exact congrArg Except.ok (decide_eq_decide.2 some_inj.symm)
    · rw [if_neg hname, Bool.eq_false_iff.2 hname]
      rfl
  · rw [if_neg hfit, getElem?_eq_none (by omega), decide_eq_false (by simp), Bool.and_false]
    rfl

theorem chainNameLoop_eq (room offset : ℕ) :
    chainNameLoop script room offset
      = .ok (((script.drop offset).takeWhile (· ≠ 0)).take room) := by
  induction room generalizing offset with
  | zero => rfl
  | succ room ih =>
    unfold chainNameLoop
    by_cases hfit : offset < script.length
    · rw [if_pos hfit, byteAt_ok hfit, drop_eq_getElem_cons hfit]
      show (if script[offset] = 0 then _ else _) = _
      by_cases hc : script[offset] = 0
      · rw [if_pos hc, takeWhile_cons_of_neg (by simpa using hc)]
        rfl
      · rw [if_neg hc, ih, takeWhile_cons_of_pos (by simpa using hc)]
        rfl
    · rw [if_neg hfit, drop_eq_nil_iff.2 (Nat.le_of_not_lt hfit)]
      rfl

theorem getChainNameFromScript_eq (offset : ℕ) :
    getChainNameFromScript script offset = .ok (nameAt script offset) := chainNameLoop_eq 65 offset

/-! ### The push -/

/-- The push behind `OP_RETURN`: where its data begins and how long it is said to be. -/
def headerOf (script : Bytes) : Option (ℕ × ℕ) :=
  let operand n := fromLE ((script.drop 2).take n)
  match script[1]? with
  | none => none
  | some opcode =>
    if opcode < OP_PUSHDATA1 then some (2, opcode.toNat)
    else if opcode = OP_PUSHDATA1 then if 3 ≤ script.length then some (3, operand 1) else none
    else if opcode = OP_PUSHDATA2 then if 4 ≤ script.length then some (4, operand 2) else none
    else if opcode = OP_PUSHDATA4 then if 6 ≤ script.length then some (6, operand 4) else none
    else none

/-- The data behind `OP_RETURN`, when it is there and has 34 bytes at least. -/
def dataAt (script : Bytes) : Option (ℕ × ℕ) :=
  (headerOf script).filter fun data => data.1 + data.2 ≤ script.length ∧ 34 ≤ data.2

theorem fromLE_take_lt (bs : Bytes) (n : ℕ) : fromLE (bs.take n) < 256 ^ n :=
  lt_of_lt_of_le (fromLE_lt _) (Nat.pow_le_pow_right (by omega) (length_take_le ..))

theorem headerOf_bounds {opoffset opretlen : ℕ} (h : headerOf script = some (opoffset, opretlen)) :
    opoffset ≤ script.length ∧ opretlen < 2 ^ 32 := by
  unfold headerOf at h
  by_cases hlen : script.length < 1 + 1
  · rw [getElem?_eq_none (by omega)] at h
    cases h
  rw [getElem?_eq_getElem (by omega)] at h
  have hbyte := script[1].toNat_lt
  have h1 := fromLE_take_lt (script.drop 2) 1
  have h2 := fromLE_take_lt (script.drop 2) 2
  have h4 := fromLE_take_lt (script.drop 2) 4
  simp only at h
  split_ifs at h <;> obtain ⟨rfl, rfl⟩ := Prod.mk.inj (some.inj h) <;> omega

/-- A length below `2 ^ 16` is not changed by the conversion. -/
theorem bmod_small {n : ℕ} (h : n < 256 ^ 2) : (n : ℤ).bmod (2 ^ 32) = n := by
  rw [Int.bmod_eq_of_le] <;> omega

theorem pushHeader_eq : pushHeader script
    = .ok ((headerOf script).map fun data => (data.1, (data.2 : ℤ).bmod (2 ^ 32))) := by
  unfold pushHeader headerOf
  by_cases hlen : script.length < 1 + 1
  · rw [if_pos hlen, getElem?_eq_none (by omega)]
    rfl
  rw [if_neg hlen, byteAt_ok (by omega), getElem?_eq_getElem (by omega)]
  show (if script[1] < OP_PUSHDATA1 then _ else _) = _
  simp only
  by_cases hdirect : script[1] < OP_PUSHDATA1
  · rw [if_pos hdirect, if_pos hdirect, map_some,
      bmod_small (lt_trans script[1].toNat_lt (by omega))]
    rfl
  rw [if_neg hdirect, if_neg hdirect]
  by_cases h1 : script[1] = OP_PUSHDATA1
  · rw [if_pos h1, if_pos h1]
    by_cases hfit : 3 ≤ script.length
    · have hbyte : fromLE ((script.drop 2).take 1) = script[2].toNat := by
        rw [drop_eq_getElem_cons hfit]
        exact Nat.add_zero _
      rw [if_neg (by omega), if_pos hfit, byteAt_ok (by omega), map_some, hbyte,
        bmod_small (lt_trans script[2].toNat_lt (by omega))]
      rfl
    · rw [if_pos (by omega), if_neg hfit]
      rfl
  rw [if_neg h1, if_neg h1]
  by_cases h2 : script[1] = OP_PUSHDATA2
  · rw [if_pos h2, if_pos h2]
    by_cases hfit : 4 ≤ script.length
    · rw [if_neg (by omega), if_pos hfit, bytesAt_ok (by omega), map_some,
        bmod_small (fromLE_take_lt ..)]
      rfl
    · rw [if_pos (by omega), if_neg hfit]
      rfl
  rw [if_neg h2, if_neg h2]
  by_cases h4 : script[1] = OP_PUSHDATA4
  · rw [if_pos h4, if_pos h4]
    by_cases hfit : 6 ≤ script.length
    · rw [if_neg (by omega), if_pos hfit, bytesAt_ok (by omega), map_some]
      rfl
    · rw [if_pos (by omega), if_neg hfit]
      rfl
  rw [if_neg h4, if_neg h4]
  rfl

theorem opReturn_eq (node : Node) (a : VoutArgs) (s : VoutState)
    (hlen : a.scriptbuf.length < 2 ^ 31) :
    opReturn node a s = match dataAt a.scriptbuf with
      | none => .ok (s, 0)
      | some (opoffset, opretlen) => opReturnData node a s opoffset opretlen := by
  unfold opReturn dataAt
  rw [pushHeader_eq]
  cases hheader : headerOf a.scriptbuf with
  | none => rfl
  | some data =>
    obtain ⟨o, n⟩ := data
    obtain ⟨ho, hn⟩ := headerOf_bounds hheader
    have hmod : ((n : ℤ).bmod (2 ^ 32)) % 2 ^ 32 = n := by
      have hemod : (n : ℤ).bmod (2 ^ 32) % ((2 ^ 32 : ℕ) : ℤ) = n % ((2 ^ 32 : ℕ) : ℤ) :=
        Int.bmod_emod ..
      rw [Nat.cast_pow, Nat.cast_ofNat] at hemod
      rw [hemod, Int.emod_eq_of_lt] <;> omega
    show (if a.scriptbuf.length < o ∨ ((a.scriptbuf.length - o : ℕ) : ℤ)
      < ((n : ℤ).bmod (2 ^ 32)) % 2 ^ 32 then _ else _ : Except BadRead _) = _
    rw [hmod]
    by_cases hfit : o + n ≤ a.scriptbuf.length
    · have hsmall : (n : ℤ).bmod (2 ^ 32) = n := by
        rw [Int.bmod_eq_of_le] <;> omega
      rw [if_neg (by omega), hsmall]
      by_cases hshort : n < 34
      · rw [if_pos (by omega), filter_some_neg (by simp; omega)]
        rfl
      · rw [if_neg (by omega), filter_some_pos (by simp; omega)]
    · rw [if_pos (by omega), filter_some_neg (by simp; omega)]
      rfl

/-! ### The pairs -/

theorem readPairs_ok_iff {n len : ℕ} :
    readPairs script n len = .ok () ↔ n = 0 ∨ len + 8 * n ≤ script.length := by
  induction n generalizing len with
  | zero => exact ⟨fun _ => .inl rfl, fun _ => rfl⟩
  | succ n ih =>
    unfold readPairs
    by_cases hfit : len + 8 ≤ script.length
    · rw [bytesAt_ok (by omega), bytesAt_ok (by omega)]
      show readPairs script n (len + 8) = .ok () ↔ _
      rw [ih]
      omega
    · have herror : ∃ bad, readPairs script (n + 1) len = .error bad := by
        unfold readPairs
        by_cases hfour : len + 4 ≤ script.length
        · rw [bytesAt_ok hfour, bytesAt_error (by omega)]
          exact ⟨_, rfl⟩
        · rw [bytesAt_error (by omega)]
          exact ⟨_, rfl⟩
      obtain ⟨bad, hbad⟩ := herror
      unfold readPairs at hbad
      rw [hbad]
      exact ⟨fun h => (by cases h), fun h => absurd h (by omega)⟩

/-- A number of pairs that counts for what is left of the data, though there are `2 ^ 29` or more of
them; `len` is where the pairs begin. -/
def Overcounts (script : Bytes) (opoffset opretlen len : ℕ) : Prop :=
  let numpairs := fromLE ((script.drop (len - 4)).take 4)
  2 ^ 29 ≤ numpairs ∧ numpairs < 2 ^ 31
    ∧ len + 8 * (numpairs % 2 ^ 29) = opoffset + opretlen

/-- Whether all reads were in the script, and not more pairs than fit into it were filled. -/
def InScript (script : Bytes) (pairs : Except BadRead ℕ) : Prop :=
  ∃ n, pairs = .ok n ∧ n ≤ script.length / 8

variable {a : VoutArgs} {opoffset opretlen len : ℕ}

/-- The check of the pairs is right up to `2 ^ 29` of them. -/
theorem counted_iff (numpairs : ℕ) (hlen : opoffset ≤ len)
    (hfit : len ≤ opoffset + opretlen) (hsmall : opretlen < 2 ^ 31) :
    ((len : ℤ) + numpairs * 8 - opoffset).bmod (2 ^ 32) = opretlen
      ↔ len + 8 * (numpairs % 2 ^ 29) = opoffset + opretlen := by
  rw [bmod_eq_iff]
  omega

theorem readCounted_inScript {numpairs : ℕ} (hlt : numpairs < 2 ^ 32) (hlen : opoffset ≤ len)
    (hfit : len ≤ opoffset + opretlen) (hdata : opoffset + opretlen ≤ a.scriptbuf.length)
    (hmax : a.scriptbuf.length ≤ 10001) :
    InScript a.scriptbuf
        (readCounted a opoffset opretlen len ((numpairs : ℤ).bmod (2 ^ 32)))
      ↔ ¬ (2 ^ 29 ≤ numpairs ∧ numpairs < 2 ^ 31
        ∧ len + 8 * (numpairs % 2 ^ 29) = opoffset + opretlen) := by
  unfold readCounted
  by_cases hneg : 2 ^ 31 ≤ numpairs
  · -- a negative number: nothing is allocated and nothing is read
    have hbmod : (numpairs : ℤ).bmod (2 ^ 32) = numpairs - 4294967296 := bmod_eq_iff.2 (by omega)
    rw [hbmod, Int.toNat_of_nonpos (by omega)]
    refine ⟨fun _ h => absurd h.2.1 (by omega), fun _ => ?_⟩
    split_ifs
    · exact ⟨0, rfl, Nat.zero_le _⟩
    · exact ⟨0, rfl, Nat.zero_le _⟩
  · have hbmod : (numpairs : ℤ).bmod (2 ^ 32) = numpairs := by
      rw [Int.bmod_eq_of_le] <;> omega
    have hcount := counted_iff numpairs hlen hfit (by omega)
    rw [hbmod, Int.toNat_natCast]
    by_cases hcounted : len + 8 * (numpairs % 2 ^ 29) = opoffset + opretlen
    · rw [if_pos (hcount.2 hcounted)]
      constructor
      · rintro ⟨n, hok, -⟩ ⟨hmany, -, -⟩
        cases hread : readPairs a.scriptbuf numpairs len with
        | ok u =>
          have hall := readPairs_ok_iff.1 hread
          omega
        | error bad =>
          rw [hread] at hok
          cases hok
      · intro hfew
        have hread : readPairs a.scriptbuf numpairs len = .ok () := readPairs_ok_iff.2 (by omega)
        rw [hread]
        exact ⟨numpairs, rfl, by omega⟩
    · rw [if_neg fun h => hcounted (hcount.1 h)]
      exact ⟨fun _ h => hcounted h.2.2, fun _ => ⟨0, rfl, Nat.zero_le _⟩⟩

theorem readMoMoM_inScript (hlen : opoffset ≤ len)
    (hfit : len + 48 ≤ opoffset + opretlen) (hdata : opoffset + opretlen ≤ a.scriptbuf.length)
    (hmax : a.scriptbuf.length ≤ 10001) :
    InScript a.scriptbuf (readMoMoM a opoffset opretlen len)
      ↔ ¬ Overcounts a.scriptbuf opoffset opretlen (len + 48) := by
  unfold readMoMoM
  rw [bytesAt_ok (by omega), bytesAt_ok (by omega), bytesAt_ok (by omega), bytesAt_ok (by omega),
    bytesAt_ok (by omega), ok_bind, ok_bind, ok_bind, ok_bind, ok_bind]
  have hlt := fromLE_take_lt (a.scriptbuf.drop (len + 44)) 4
  have hcounted := readCounted_inScript (a := a) (lt_of_lt_of_le hlt (by omega))
    (show opoffset ≤ len + 48 by omega) hfit hdata hmax
  unfold Overcounts
  rw [show len + 48 - 4 = len + 44 by omega]
  exact hcounted

variable {node : Node} {name : Bytes}

theorem inScript_zero : InScript script (pure 0) := ⟨0, rfl, Nat.zero_le _⟩

theorem isKMD_iff : node.isKMD = true ↔ node.symbol = [] := decide_eq_true_iff

/-- The pairs are read where there is room for a MoMoM and this chain is named. -/
theorem readCCid_inScript (hlen : opoffset ≤ len) (hdata : opoffset + opretlen ≤ a.scriptbuf.length)
    (hmax : a.scriptbuf.length ≤ 10001) :
    InScript a.scriptbuf (readCCid node a name opoffset opretlen len)
      ↔ ¬ (node.symbol ≠ [] ∧ name = node.symbol ∧ len + 52 ≤ opoffset + opretlen
        ∧ Overcounts a.scriptbuf opoffset opretlen (len + 52)) := by
  unfold readCCid
  by_cases hCCid : (len : ℤ) + 4 - opoffset ≤ opretlen
  · rw [if_pos hCCid, bytesAt_ok (by omega), ok_bind]
    by_cases hKMD : node.symbol = []
    · rw [if_pos (isKMD_iff.2 hKMD)]
      exact ⟨fun _ h => h.1 hKMD, fun _ => inScript_zero⟩
    · rw [if_neg fun h => hKMD (isKMD_iff.1 h)]
      by_cases hroom : (len : ℤ) + 4 + 48 - opoffset ≤ opretlen ∧ name = node.symbol
      · rw [if_pos hroom, readMoMoM_inScript (by omega) (by omega) hdata hmax]
        have hfit : len + 52 ≤ opoffset + opretlen := by omega
        exact ⟨fun h hall => h hall.2.2.2, fun h hall => h ⟨hKMD, hroom.2, hfit, hall⟩⟩
      · rw [if_neg hroom]
        exact ⟨fun _ h => hroom ⟨by omega, h.2.1⟩, fun _ => inScript_zero⟩
  · rw [if_neg hCCid]
    exact ⟨fun _ h => by omega, fun _ => inScript_zero⟩

/-! ### The call -/

/-- The pairs of a call. -/
def pairsOf {α : Type} (call : Except BadRead (α × ℕ)) : Except BadRead ℕ := call.map Prod.snd

theorem readMoM_inScript {notarizedheight : ℤ} (hlen : opoffset ≤ len)
    (hdata : opoffset + opretlen ≤ a.scriptbuf.length) (hmax : a.scriptbuf.length ≤ 10001) :
    InScript a.scriptbuf
        ((readMoM node a name notarizedheight opoffset opretlen len).map MoMRecord.pairs)
      ↔ ¬ (node.symbol ≠ [] ∧ name = node.symbol ∧ len + 88 ≤ opoffset + opretlen
        ∧ Overcounts a.scriptbuf opoffset opretlen (len + 88)) := by
  unfold readMoM
  by_cases hMoM : (len : ℤ) + 36 - opoffset ≤ opretlen
  · rw [if_pos hMoM, bytesAt_ok (by omega), bytesAt_ok (by omega), ok_bind, ok_bind,
      ← readCCid_inScript (show opoffset ≤ len + 36 by omega) hdata hmax]
    cases readCCid node a name opoffset opretlen (len + 36) with
    | error bad => exact Iff.rfl
    | ok pairs =>
      rw [ok_bind]
      split_ifs <;> rfl
  · rw [if_neg hMoM]
    exact ⟨fun _ h => by omega, fun _ => inScript_zero⟩

/-- The beginning of the data, as it is read. -/
def notarisationAt (script : Bytes) (matched : Bool) (opoffset : ℕ) : Notarisation where
  srchash := fromLE ((script.drop opoffset).take 32)
  notarizedheight := int32Of ((script.drop (opoffset + 32)).take 4)
  desttxid := if matched then fromLE ((script.drop (opoffset + 36)).take 32) else 0

theorem readNotarisation_eq {matched : Bool} (hlong : (if matched then 68 else 36) ≤ opretlen)
    (hdata : opoffset + opretlen ≤ a.scriptbuf.length) :
    readNotarisation a matched opoffset = .ok (notarisationAt a.scriptbuf matched opoffset) := by
  unfold readNotarisation
  cases matched with
  | false =>
    have h36 : 36 ≤ opretlen := hlong
    rw [bytesAt_ok (by omega), bytesAt_ok (by omega), ok_bind, ok_bind]
    exact if_neg Bool.false_ne_true
  | true =>
    have h68 : 68 ≤ opretlen := hlong
    rw [bytesAt_ok (by omega), bytesAt_ok (by omega), bytesAt_ok (by omega), ok_bind, ok_bind]
    simp only [if_true, ok_bind, notarisationAt]
    rfl

/-- What a notarization must be for its MoM to be read. -/
def Counts (node : Node) (a : VoutArgs) (matched : Bool) (name : Bytes) (opoffset : ℕ) : Prop :=
  let ntz := notarisationAt a.scriptbuf matched opoffset
  ¬ (a.fJustCheck = true ∧ matched = true) ∧ counts a matched name = true
    ∧ (matched = true → node.validateChain ntz.srchash ntz.notarizedheight = true)

theorem notarisation_inScript {s : VoutState} {matched : Bool}
    (hlong : (if matched then 68 else 36) ≤ opretlen)
    (hdata : opoffset + opretlen ≤ a.scriptbuf.length) (hmax : a.scriptbuf.length ≤ 10001) :
    InScript a.scriptbuf (pairsOf (notarisation node a s matched name opoffset opretlen))
      ↔ ¬ (Counts node a matched name opoffset ∧ node.symbol ≠ [] ∧ name = node.symbol
        ∧ opoffset + (if matched then 68 else 36) + (name.length + 1) + 88 ≤ opoffset + opretlen
        ∧ Overcounts a.scriptbuf opoffset opretlen
          (opoffset + (if matched then 68 else 36) + (name.length + 1) + 88)) := by
  unfold notarisation
  rw [readNotarisation_eq hlong hdata, ok_bind]
  generalize hlen : opoffset + (if matched = true then 68 else 36) + (name.length + 1) = len
  have hlen' : opoffset ≤ len := by omega
  by_cases hjust : a.fJustCheck = true ∧ matched = true
  · simp only [if_pos hjust]
    exact ⟨fun _ h => h.1.1 hjust, fun _ => inScript_zero⟩
  simp only [if_neg hjust]
  by_cases hcounts : counts a matched name = true ∧ (matched = true → node.validateChain
      (notarisationAt a.scriptbuf matched opoffset).srchash
      (notarisationAt a.scriptbuf matched opoffset).notarizedheight = true)
  · simp only [if_pos hcounts]
    have hMoM : InScript a.scriptbuf ((readMoM node a name
        (notarisationAt a.scriptbuf matched opoffset).notarizedheight opoffset opretlen len).map
          MoMRecord.pairs) ↔ _ := readMoM_inScript hlen' hdata hmax
    have hcounted : Counts node a matched name opoffset := ⟨hjust, hcounts⟩
    rw [and_iff_right hcounted, ← hMoM]
    cases readMoM node a name (notarisationAt a.scriptbuf matched opoffset).notarizedheight
      opoffset opretlen len <;> exact Iff.rfl
  · simp only [if_neg hcounts]
    exact ⟨fun _ h => hcounts h.1.2, fun _ => inScript_zero⟩

theorem allZero_ok {n i : ℕ} (h : i + n ≤ script.length) : ∃ b, allZero script n i = .ok b := by
  induction n generalizing i with
  | zero => exact ⟨true, rfl⟩
  | succ n ih =>
    unfold allZero
    rw [byteAt_ok (by omega), ok_bind]
    by_cases hbyte : script[i] ≠ 0
    · rw [if_pos hbyte]
      exact ⟨false, rfl⟩
    · rw [if_neg hbyte]
      exact ih (by omega)

theorem ratification_ok {s : VoutState} (hdata : opoffset + opretlen ≤ a.scriptbuf.length) :
    ∃ s', ratification node a s opoffset opretlen = .ok s' := by
  unfold ratification
  rw [checkChainNameInScript_eq, ok_bind]
  by_cases hlong : (68 : ℤ) ≤ opretlen
    ∧ chainNameAt node.chainName a.scriptbuf (opoffset + 68) = true
  · obtain ⟨b, hb⟩ := allZero_ok (show opoffset + 32 ≤ a.scriptbuf.length by omega)
    rw [if_pos hlong, hb, ok_bind]
    split_ifs <;> exact ⟨_, rfl⟩
  · rw [if_neg hlong]
    exact ⟨_, rfl⟩

theorem payToPubkey_ok {s : VoutState} : ∃ s', payToPubkey node a s = .ok s' := by
  unfold payToPubkey
  by_cases hlen : a.scriptbuf.length = 35
  · rw [if_pos hlen, byteAt_ok (by omega), byteAt_ok (by omega), bytesAt_ok (by omega), ok_bind,
      ok_bind, ok_bind]
    generalize (a.scriptbuf.drop 1).take 33 = pubkey33
    by_cases hpay : a.scriptbuf[0] = 33 ∧ a.scriptbuf[34] = 0xac
    · rw [if_pos hpay]
      by_cases hall : pubkey33 = crypto777
      · rw [if_pos hall]
        exact ⟨_, rfl⟩
      · rw [if_neg hall]
        cases node.chosennotary a.height pubkey33 a.timestamp with
        | none => exact ⟨_, rfl⟩
        | some nid =>
          simp only
          split_ifs <;> exact ⟨_, rfl⟩
    · rw [if_neg hpay]
      exact ⟨_, rfl⟩
  · rw [if_neg hlen]
    exact ⟨_, rfl⟩

/-- The number of pairs is passed by the check though there are `2 ^ 29` or more: in the second
output, behind the name of this chain in a notarization whose MoM is read. -/
def Overcounted (node : Node) (a : VoutArgs) (opoffset opretlen : ℕ) : Prop :=
  let matched := chainNameAt node.chainName a.scriptbuf (opoffset + 68)
  let offset := if matched then 68 else 36
  let name := nameAt a.scriptbuf (opoffset + offset)
  let len := opoffset + offset + (name.length + 1) + 88
  a.j = 1 ∧ Counts node a matched name opoffset ∧ node.symbol ≠ [] ∧ name = node.symbol
    ∧ len ≤ opoffset + opretlen ∧ Overcounts a.scriptbuf opoffset opretlen len

theorem opReturnData_inScript {s : VoutState}
    (hdata : opoffset + opretlen ≤ a.scriptbuf.length) (hmax : a.scriptbuf.length ≤ 10001) :
    InScript a.scriptbuf (pairsOf (opReturnData node a s opoffset opretlen))
      ↔ ¬ Overcounted node a opoffset opretlen := by
  unfold opReturnData Overcounted
  rw [checkChainNameInScript_eq, ok_bind]
  simp only [getChainNameFromScript_eq, ok_bind]
  generalize chainNameAt node.chainName a.scriptbuf (opoffset + 68) = matched
  generalize hname :
    nameAt a.scriptbuf (opoffset + (if matched = true then 68 else 36)) = name
  by_cases hempty : name = []
  · simp only [if_pos hempty]
    exact ⟨fun _ h => h.2.2.1 (h.2.2.2.1 ▸ hempty), fun _ => inScript_zero⟩
  simp only [if_neg hempty]
  by_cases hntz : a.j = 1 ∧ ((if matched = true then 68 else 36 : ℕ) : ℤ) ≤ opretlen
  · simp only [if_pos hntz]
    rw [notarisation_inScript (by omega) hdata hmax, and_iff_right hntz.1]
  · simp only [if_neg hntz]
    have hnot : ¬ (a.j = 1 ∧ opoffset + (if matched = true then 68 else 36) + (name.length + 1) + 88
        ≤ opoffset + opretlen) := fun h => hntz ⟨h.1, by omega⟩
    refine ⟨fun _ h => hnot ⟨h.1, h.2.2.2.2.1⟩, fun _ => ?_⟩
    obtain ⟨s', hs'⟩ : ∃ s', ratification node a s opoffset opretlen = .ok s' :=
      ratification_ok hdata
    rw [hs', ok_bind]
    split_ifs <;> exact inScript_zero

theorem dataAt_bounds (h : dataAt script = some (opoffset, opretlen)) :
    opoffset + opretlen ≤ script.length := by
  have hfilter := (filter_eq_some_iff.1 h).2
  exact (of_decide_eq_true hfilter).1

/-- **What is read is in the script, unless the number of pairs is passed though it is too large.** -/
theorem voutupdate_inScript_iff (node : Node) (a : VoutArgs) (s : VoutState)
    (hmin : 4 ≤ a.scriptbuf.length) (hmax : a.scriptbuf.length ≤ 10001) :
    InScript a.scriptbuf (pairsOf (voutupdate node a s)) ↔ ¬ (a.scriptbuf.head? = some 0x6a
      ∧ ∃ opoffset opretlen, dataAt a.scriptbuf = some (opoffset, opretlen)
        ∧ Overcounted node a opoffset opretlen) := by
  unfold voutupdate
  obtain ⟨s', hs'⟩ : ∃ s', payToPubkey node a s = .ok s' := payToPubkey_ok
  rw [hs', ok_bind, byteAt_ok (by omega), ok_bind, head?_eq_getElem?,
    getElem?_eq_getElem (by omega), Option.some_inj]
  by_cases hreturn : a.scriptbuf[0] = 0x6a
  · rw [if_pos hreturn, opReturn_eq node a s' (by omega), and_iff_right hreturn]
    cases hdata : dataAt a.scriptbuf with
    | none => exact ⟨fun _ ⟨_, _, h, _⟩ => (nomatch h), fun _ => inScript_zero⟩
    | some data =>
      obtain ⟨o, n⟩ := data
      show InScript a.scriptbuf (pairsOf (opReturnData node a s' o n)) ↔ _
      rw [opReturnData_inScript (dataAt_bounds hdata) hmax]
      refine not_congr ⟨fun h => ⟨o, n, rfl, h⟩, ?_⟩
      rintro ⟨o', n', heq, h⟩
      obtain ⟨rfl, rfl⟩ := Prod.mk.inj (Option.some.inj heq)
      exact h
  · rw [if_neg hreturn]
    exact ⟨fun _ h => hreturn h.1, fun _ => inScript_zero⟩

/-- An `OP_RETURN` of two bytes. -/
theorem voutupdate_inScript_short : InScript [0x6a, 2, 0, 0] (pairsOf (voutupdate { symbol := [] }
    { scriptbuf := [0x6a, 2, 0, 0], height := 1, i := 0, j := 1, notarized := true, signedmask := 0 }
    { sp := {} })) := by
  refine (voutupdate_inScript_iff _ _ _ (by decide) (by decide)).2 ?_
  rintro ⟨-, o, n, hdata, -⟩
  have hnone : dataAt [0x6a, 2, 0, 0] = none := by decide
  rw [hnone] at hdata
  cases hdata

/-- A notarization in the second output, with a MoMoM that says `2 ^ 29` pairs and none behind it. -/
def overcountedArgs : VoutArgs where
  scriptbuf := [0x6a, 0x4c, 126] ++ List.replicate 36 0 ++ ascii "A" ++ List.replicate 85 0
    ++ [0, 0, 0, 0x20]
  height := 100
  i := 1
  j := 1
  notarized := true
  signedmask := 0

theorem overcounted_reads : ¬ ∀ node a s, 4 ≤ a.scriptbuf.length → a.scriptbuf.length ≤ 10001 →
    InScript a.scriptbuf (pairsOf (voutupdate node a s)) := by
  intro h
  obtain ⟨n, hread, -⟩ := h { symbol := ascii "A" } overcountedArgs { sp := {} }
    (by decide +kernel) (by decide +kernel)
  have hbad : voutupdate { symbol := ascii "A" } overcountedArgs { sp := {} } = .error ⟨129⟩ := by
    decide +kernel
  rw [hbad] at hread
  cases hread

end Notary
end Komodo
