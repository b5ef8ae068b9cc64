/-
# Script bytes and data streams

`CScript::GetOp2`, `GetBalancedData`, `IsPayToCryptoCondition` and
`operator<<` (`src/src/script/script.h`, `script.cpp`), `GetOpReturnData`
(`src/src/script/cc.cpp`), and the part of `src/src/serialize.h` and
`src/src/cc/utils.h` with which the contracts read their opreturns:
`ReadCompactSize`, `Unserialize` of bytes, vectors and `uint256`, `E_UNMARSHAL`.

A script iterator is the list of the bytes that are left. A read from a
`CDataStream` is a `StateT` computation over the bytes that are left, `none`
being the exception thrown at the end of the data or at a malformed size.
-/

import Komodo.Primitives.Transaction

namespace Komodo

/-- `std::vector<unsigned char>`. -/
abbrev Bytes := List UInt8

instance : LawfulBEq Bytes := inferInstance

def OP_PUSHDATA1 : UInt8 := 0x4c
def OP_PUSHDATA2 : UInt8 := 0x4d
def OP_PUSHDATA4 : UInt8 := 0x4e
def OP_1 : UInt8 := 0x51
def OP_16 : UInt8 := 0x60
def OP_DROP : UInt8 := 0x75
def OP_CHECKCRYPTOCONDITION : UInt8 := 0xcc

/-- The number whose little-endian bytes are given: `ReadLE16`, `ReadLE32`,
and the value of a `uint256` by its `data`. -/
def fromLE : Bytes → ℕ
  | [] => 0
  | b :: bs => b.toNat + 256 * fromLE bs

/-- The first `n` bytes and what is left; `none` if there are fewer. -/
def splitBytes (n : ℕ) (bs : Bytes) : Option (Bytes × Bytes) :=
  if bs.length < n then none else some (bs.take n, bs.drop n)

/-! ### Script operations -/

/-- The operand length that `CScript::GetOp2` reads after a push opcode. -/
def pushSize (opcode : UInt8) (pc : CScript) : Option (ℕ × CScript) :=
  let ofBytes := Option.map fun r : Bytes × Bytes => (fromLE r.1, r.2)
  if opcode < OP_PUSHDATA1 then some (opcode.toNat, pc)
  else if opcode = OP_PUSHDATA1 then ofBytes (splitBytes 1 pc)
  else if opcode = OP_PUSHDATA2 then ofBytes (splitBytes 2 pc)
  else ofBytes (splitBytes 4 pc)

/-- `CScript::GetOp2`: the opcode, its operand and the advanced iterator. -/
def getOp : CScript → Option (UInt8 × Bytes × CScript)
  | [] => none
  | opcode :: pc =>
    if opcode ≤ OP_PUSHDATA4 then do
      let (nSize, pc) ← pushSize opcode pc
      let (data, pc) ← splitBytes nSize pc
      return (opcode, data, pc)
    else some (opcode, [], pc)

/-- The loop of `CScript::GetBalancedData`. `fuel` bounds the rounds by the
length of the script: every round consumes an opcode. -/
def getBalancedDataLoop : (fuel : ℕ) → (netPushes : ℕ) → List Bytes → CScript →
    Option (List Bytes)
  | _, netPushes, vSolutions, [] => if netPushes = 0 then some vSolutions else none
  | 0, _, _, _ => none
  | fuel + 1, netPushes, vSolutions, pc => do
    let (opcode, data, pc) ← getOp pc
    if opcode = OP_DROP then
      if netPushes = 0 then none else getBalancedDataLoop fuel (netPushes - 1) vSolutions pc
    else if opcode = OP_0 then
      getBalancedDataLoop fuel (netPushes + 1) (vSolutions ++ [[0]]) pc
    else if OP_1 ≤ opcode ∧ opcode ≤ OP_16 then
      getBalancedDataLoop fuel (netPushes + 1) (vSolutions ++ [[opcode - OP_1 + 1]]) pc
    else if opcode ≤ OP_PUSHDATA4 ∧ data ≠ [] then
      getBalancedDataLoop fuel (netPushes + 1) (vSolutions ++ [data]) pc
    else none

/-- `CScript::GetBalancedData`: every push up to the end is dropped again. -/
def getBalancedData (pc : CScript) : Option (List Bytes) :=
  getBalancedDataLoop pc.length 0 [] pc

/-- `CScript::IsPayToCryptoCondition` with the parameters it collects. -/
def payToCryptoCondition (s : CScript) : Option (List Bytes) := do
  let (opcode, _, pc) ← getOp s
  guard (OP_0 < opcode ∧ opcode < OP_PUSHDATA1)
  let (opcode, _, pc) ← getOp pc
  guard (opcode = OP_CHECKCRYPTOCONDITION)
  getBalancedData pc

/-- `CScript::IsPayToCryptoCondition()`. -/
def isPayToCryptoCondition (s : CScript) : Bool := (payToCryptoCondition s).isSome

/-- `CScript::operator<<(const std::vector<unsigned char>&)`: the bytes pushed. -/
def pushData (b : Bytes) : CScript :=
  let le (k : ℕ) : Bytes := (List.range k).map fun i => UInt8.ofNat (b.length / 256 ^ i)
  if b.length < OP_PUSHDATA1.toNat then UInt8.ofNat b.length :: b
  else if b.length ≤ 0xff then OP_PUSHDATA1 :: le 1 ++ b
  else if b.length ≤ 0xffff then OP_PUSHDATA2 :: le 2 ++ b
  else OP_PUSHDATA4 :: le 4 ++ b

/-- `GetOpReturnData`: the operand of the push that follows `OP_RETURN`. Its
callers ignore the returned flag and read the vector, which is empty unless
the push was read. -/
def getOpReturnData (s : CScript) : Bytes :=
  match getOp s with
  | some (opcode, _, pc) =>
    if opcode = OP_RETURN then
      match getOp pc with
      | some (_, data, _) => data
      | none => []
    else []
  | none => []

theorem isPayToCryptoCondition_of_opReturnData {s : CScript} (h : getOpReturnData s ≠ []) :
    isPayToCryptoCondition s = false := by
  unfold getOpReturnData at h
  unfold isPayToCryptoCondition payToCryptoCondition
  rcases hget : getOp s with _ | ⟨opcode, data, pc⟩
  · rfl
  · have hop : opcode = OP_RETURN := by
      by_cases hop : opcode = OP_RETURN
      · exact hop
      · simp [hget, hop] at h
    have hguard : ¬ (OP_0 < opcode ∧ opcode < OP_PUSHDATA1) := by
      rw [hop]
      decide
    simp [guard, hguard]

/-! ### Reading a data stream -/

/-- A read from a `CDataStream`. -/
abbrev Unserialize := StateT Bytes Option

namespace Unserialize

/-- `CDataStream::read`: throws when fewer bytes are left. -/
def bytes (n : ℕ) : Unserialize Bytes := fun s => splitBytes n s

/-- `ss >> x` for a fixed-width unsigned integer or a `uint256` of `n` bytes. -/
def uint (n : ℕ) : Unserialize ℕ := fromLE <$> bytes n

/-- `ss >> x` for a `uint8_t`. -/
def uint8 : Unserialize UInt8 := UInt8.ofNat <$> uint 1

/-- `ss >> x` for a `uint256`. -/
def uint256 : Unserialize Uint256 := uint 32

def eof : Unserialize Bool := fun s => some (s.isEmpty, s)

/-- `MAX_SIZE` of `serialize.h`. -/
def maxSize : ℕ := 0x02000000

/-- `ReadCompactSize`: non-canonical and oversized lengths throw. -/
def compactSize : Unserialize ℕ := do
  let chSize ← uint 1
  let nSizeRet ←
    if chSize < 253 then pure chSize
    else if chSize = 253 then do let n ← uint 2; guard (253 ≤ n); pure n
    else if chSize = 254 then do let n ← uint 4; guard (0x10000 ≤ n); pure n
    else do let n ← uint 8; guard (0x100000000 ≤ n); pure n
  guard (nSizeRet ≤ maxSize)
  pure nSizeRet

/-- `ss >> x` for a byte vector or a string. -/
def vector : Unserialize Bytes := do bytes (← compactSize)

/-- `ss >> x` for an `int32_t` or an `int64_t` of `n` bytes, two's complement. -/
def int (n : ℕ) : Unserialize ℤ := do
  let u ← uint n
  pure (if u < 2 ^ (8 * n - 1) then u else (u : ℤ) - 2 ^ (8 * n))

/-- `n` values in a row. -/
def many {α : Type} (one : Unserialize α) : ℕ → Unserialize (List α)
  | 0 => pure []
  | n + 1 => do
    let a ← one
    let as ← many one n
    pure (a :: as)

/-- `ss >> x` for a vector of values that are not bytes. -/
def vectorOf {α : Type} (one : Unserialize α) : Unserialize (List α) := do
  many one (← compactSize)

/-- `E_UNMARSHAL`: the reads succeed and use up the data. -/
def unmarshal {α : Type} (params : Bytes) (body : Unserialize α) : Option α :=
  match body params with
  | some (a, []) => some a
  | _ => none

end Unserialize

/-- The 32 bytes of a `uint256`, least significant first. -/
def uint256Bytes (h : Uint256) : Bytes :=
  (List.range 32).map fun i => UInt8.ofNat (h / 256 ^ i)

/-- `revuint256`: the bytes in the opposite order. -/
def revuint256 (h : Uint256) : Uint256 := fromLE (uint256Bytes h).reverse

end Komodo
