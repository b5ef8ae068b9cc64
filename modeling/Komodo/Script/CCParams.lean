/-
# Pushed data and the parameters of an output with a condition

`CScript::GetPushedData` of `src/src/script/script.cpp` and `COptCCParams` of
`src/src/script/standard.cpp`.
-/

import Komodo.CC.Contract

namespace Komodo

/-! ### Pushed data -/

/-- Where `GetOp2` leaves the iterator when it fails: behind the opcode, and the length if there is
one. -/
def failedOp : CScript → CScript
  | [] => []
  | opcode :: pc =>
    match pushSize opcode pc with
    | some (_, pc) => pc
    | none => pc

/-- The loop of `CScript::GetPushedData`; every round consumes an opcode. -/
def getPushedDataLoop : (fuel : ℕ) → List Bytes → CScript → Option (List Bytes)
  | _, vData, [] => some vData
  | 0, _, _ => none
  | fuel + 1, vData, pc =>
    match getOp pc with
    | none => getPushedDataLoop fuel vData (failedOp pc)
    | some (opcode, data, pc) =>
      if opcode = OP_0 then getPushedDataLoop fuel (vData ++ [[0]]) pc
      else if OP_1 ≤ opcode ∧ opcode ≤ OP_16 then
        getPushedDataLoop fuel (vData ++ [[opcode - OP_1 + 1]]) pc
      else if opcode ≤ OP_PUSHDATA4 ∧ data ≠ [] then getPushedDataLoop fuel (vData ++ [data]) pc
      else none

/-- `CScript::GetPushedData`: the pushed data, if there is nothing else and some. -/
def getPushedData (s : CScript) : Option (List Bytes) :=
  (getPushedDataLoop s.length [] s).filter (· ≠ [])

/-! ### Parameters -/

/-- `COptCCParams`.  The constructor from bytes leaves numbers without a value, which are zero
here. -/
structure COptCCParams where
  version : UInt8 := 0
  evalCode : UInt8 := 0
  m : UInt8 := 0
  n : UInt8 := 0
  vKeys : List CPubKey := []
  vData : List Bytes := []
deriving DecidableEq, Repr

namespace COptCCParams

def VERSION : UInt8 := 1

/-- The keys up to the first that is not valid, which is the last one. -/
def readKeys : List Bytes → List CPubKey
  | [] => []
  | b :: bs =>
    let key := pubkey2pk b
    if key.isValid then key :: readKeys bs else [key]

/-- The rest of the constructor, for the pushed data. -/
def ofPushed : List Bytes → COptCCParams
  | [version, evalCode, m, n] :: data =>
    if version ≠ VERSION ∨ m ≠ 1 ∨ (n ≠ 1 ∧ n ≠ 2) ∨ data.length + 1 ≤ n.toNat then { evalCode, m, n }
    else
      let vKeys := readKeys (data.take n.toNat)
      if vKeys.all CPubKey.isValid then
        { version, evalCode, m, n, vKeys, vData := data.drop n.toNat }
      else { evalCode, m, n, vKeys }
  | _ => {}

/-- `COptCCParams(vch)`. -/
def ofBytes (vch : Bytes) : COptCCParams :=
  if vch.length ≤ 1 then {}
  else
    match getPushedData vch with
    | some data => ofPushed data
    | none => {}

end COptCCParams

end Komodo
