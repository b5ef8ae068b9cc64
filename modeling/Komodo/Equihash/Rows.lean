/-
# The rows of a solution

The parameters of `Equihash<N, K>`, `StepRow`, `FullStepRow`, `HasCollision`, `IndicesBefore` and
`IsValidSolution` of `src/src/crypto/equihash.h` and `equihash.cpp`, with `DistinctIndices` of
`equihash.tcc`.

A row is an array of fixed width: the collision groups of a hash, one after the other in whole
bytes, and behind them the indices of which it is the hash.  When two rows are merged the first
group is trimmed, and the array keeps what it held behind the indices; a new row holds there what
its memory held.  `none` is an assertion that fails.
-/

import Komodo.Equihash.Arrays

namespace Komodo
namespace Equihash

def getSizeInBytes (N : ℕ) : ℕ := (N + 7) / 8 % 256

/-- The instantiations of `Equihash<N, K>`. -/
inductive Params
  | eh200_9
  | eh150_5
  | eh144_5
  | eh96_5
  | eh48_5
  | eh210_9
deriving DecidableEq

namespace Params

def N : Params → ℕ
  | eh200_9 => 200
  | eh150_5 => 150
  | eh144_5 => 144
  | eh96_5 => 96
  | eh48_5 => 48
  | eh210_9 => 210

def K : Params → ℕ
  | eh200_9 => 9
  | eh150_5 => 5
  | eh144_5 => 5
  | eh96_5 => 5
  | eh48_5 => 5
  | eh210_9 => 9

variable (p : Params)

def indicesPerHashOutput : ℕ := 512 / p.N
def hashOutput : ℕ := p.indicesPerHashOutput * getSizeInBytes p.N
def collisionBitLength : ℕ := p.N / (p.K + 1)
def collisionByteLength : ℕ := (p.collisionBitLength + 7) / 8
def hashLength : ℕ := (p.K + 1) * p.collisionByteLength
def finalFullWidth : ℕ := 2 * p.collisionByteLength + 4 * 2 ^ p.K
def solutionWidth : ℕ := 2 ^ p.K * (p.collisionBitLength + 1) / 8

end Params

/-- `GenerateHash` with a state: any function to arrays of `HashOutput` bytes. -/
structure HashOracle (p : Params) where
  generateHash : ℕ → Bytes
  length_eq : ∀ g, (generateHash g).length = p.hashOutput

/-- The `n` bytes from `pos` on. -/
def slice (bytes : Bytes) (pos n : ℕ) : Bytes := (bytes.drop pos).take n

/-- The array after `bytes` have been written to it from `pos` on. -/
def writeAt (array : Bytes) (pos : ℕ) (bytes : Bytes) : Bytes :=
  array.take pos ++ bytes ++ array.drop (pos + bytes.length)

structure FullStepRow where
  hash : Bytes

namespace FullStepRow

/-- `IndicesBefore`: `memcmp` compares bytes in the order of lists. -/
def indicesBefore (a b : FullStepRow) (len lenIndices : ℕ) : Bool :=
  slice a.hash len lenIndices < slice b.hash len lenIndices

def isZero (a : FullStepRow) (len : ℕ) : Bool := (a.hash.take len).all (· = 0)

/-- The constructor from a hash, in an object whose array holds `memory`. -/
def ofHash (p : Params) (memory hashIn : Bytes) (i : ℕ) : Option FullStepRow :=
  if p.hashLength ≤ p.finalFullWidth then
    (expandArray hashIn p.hashLength p.collisionBitLength 0).map fun out =>
      ⟨writeAt (writeAt memory 0 out) p.hashLength (ehIndexToArray i)⟩
  else none

/-- The constructor from two rows. -/
def merge (p : Params) (a b : FullStepRow) (len lenIndices trim : ℕ) : Option FullStepRow :=
  if len + lenIndices ≤ p.finalFullWidth ∧ len - trim + 2 * lenIndices ≤ p.finalFullWidth then
    let hash := writeAt a.hash 0
      (List.zipWith (· ^^^ ·) (slice a.hash trim (len - trim)) (slice b.hash trim (len - trim)))
    if a.indicesBefore b len lenIndices then
      some ⟨writeAt (writeAt hash (len - trim) (slice a.hash len lenIndices))
        (len - trim + lenIndices) (slice b.hash len lenIndices)⟩
    else
      some ⟨writeAt (writeAt hash (len - trim) (slice b.hash len lenIndices))
        (len - trim + lenIndices) (slice a.hash len lenIndices)⟩
  else none

end FullStepRow

def hasCollision (a b : FullStepRow) (l : ℕ) : Bool := a.hash.take l = b.hash.take l

def distinctIndices (a b : FullStepRow) (len lenIndices : ℕ) : Bool :=
  (List.range ((lenIndices + 3) / 4)).all fun i => (List.range ((lenIndices + 3) / 4)).all fun j =>
    slice a.hash (len + 4 * i) 4 ≠ slice b.hash (len + 4 * j) 4

/-! ### The check -/

variable (p : Params)

/-- The loop over the pairs of one round; `some none` is `return false`. -/
def mergePairs (hashLen lenIndices : ℕ) : List FullStepRow → Option (Option (List FullStepRow))
  | [] => some (some [])
  | [_] => none
  | a :: b :: X =>
    if !hasCollision a b p.collisionByteLength then some none
    else if b.indicesBefore a hashLen lenIndices then some none
    else if !distinctIndices a b hashLen lenIndices then some none
    else do
      let c ← FullStepRow.merge p a b hashLen lenIndices p.collisionByteLength
      let Xc ← mergePairs hashLen lenIndices X
      pure (Xc.map (c :: ·))

/-- The loop `while (X.size() > 1)` and the end of `IsValidSolution`. `fuel` bounds the rounds:
every round halves the rows. -/
def rounds : (fuel hashLen lenIndices : ℕ) → List FullStepRow → Option Bool
  | 0, _, _, _ => none
  | fuel + 1, hashLen, lenIndices, X =>
    if 1 < X.length then
      match mergePairs p hashLen lenIndices X with
      | none => none
      | some none => some false
      | some (some Xc) => rounds fuel (hashLen - p.collisionByteLength) (lenIndices * 2) Xc
    else
      match X with
      | [x] => some (x.isZero hashLen)
      | _ => none

/-- What is hashed for an index: its part of an output of `GenerateHash`. -/
def hashIn {p : Params} (oracle : HashOracle p) (i : ℕ) : Bytes :=
  slice (oracle.generateHash (i / p.indicesPerHashOutput))
    (i % p.indicesPerHashOutput * getSizeInBytes p.N) (getSizeInBytes p.N)

/-- The rows of the indices, the first of them at place `j` of `X`. -/
def firstRows {p : Params} (oracle : HashOracle p) (memory : ℕ → Bytes) : (j : ℕ) → List ℕ →
    Option (List FullStepRow)
  | _, [] => some []
  | j, i :: indices => do
    let row ← FullStepRow.ofHash p (memory j) (hashIn oracle i) i
    let X ← firstRows oracle memory (j + 1) indices
    pure (row :: X)

def isValidSolution {p : Params} (oracle : HashOracle p) (memory : ℕ → Bytes) (soln : Bytes) :
    Option Bool :=
  if soln.length ≠ p.solutionWidth then some false
  else do
    let indices ← getIndicesFromMinimal soln p.collisionBitLength
    let X ← firstRows oracle memory 0 indices
    rounds p X.length p.hashLength 4 X

end Equihash
end Komodo
