/-
# The coins record of a transaction

`CCoins` of `src/src/coins.h` and `CCoins::Spend` of `src/src/coins.cpp`: the
unspent outputs of one transaction with its height, version and coinbase flag.
A spent output is null; nulls at the end of `vout` are dropped by `Cleanup`.

Two records are equal for `operator==` when they are the same or when both are
pruned (`CCoins.Eqv`, the relation `≈`).
-/

import Komodo.Primitives.Transaction
import Mathlib.Data.List.DropRight

namespace Komodo

/-- `CCoins`; the default is the value of the empty constructor. -/
structure CCoins where
  fCoinBase : Bool := false
  vout : List CTxOut := []
  nHeight : ℤ := 0
  nVersion : ℤ := 0
deriving DecidableEq, Repr

namespace CCoins

/-- `CCoins::IsPruned`: every output is spent. -/
def isPruned (c : CCoins) : Bool := c.vout.all CTxOut.isNull

/-- `CCoins::Cleanup`: drop the spent outputs at the end of `vout`. -/
def cleanup (c : CCoins) : CCoins := { c with vout := c.vout.rdropWhile CTxOut.isNull }

def clearUnspendable (c : CCoins) : CCoins :=
  cleanup { c with
    vout := c.vout.map fun o => if isUnspendable o.scriptPubKey then CTxOut.null else o }

/-- `CCoins::Clear`: every field back to its default. -/
def clear (_ : CCoins) : CCoins := {}

def fromTx (tx : CTransaction) (nHeight : ℤ) : CCoins :=
  clearUnspendable
    { fCoinBase := tx.isCoinBase, vout := tx.vout, nHeight := nHeight, nVersion := tx.nVersion }

def isAvailable (c : CCoins) (nPos : ℕ) : Bool :=
  match c.vout[nPos]? with
  | some o => !o.isNull
  | none => false

/-- `CCoins::Spend`: the record after spending output `nPos`, `none` when the
output does not exist or is spent already. -/
def spend (c : CCoins) (nPos : ℕ) : Option CCoins :=
  if c.isAvailable nPos then some (cleanup { c with vout := c.vout.set nPos CTxOut.null })
  else none

/-- The change that `AddImportTombstone` of `src/src/importcoin.cpp` makes to the
record of a burn transaction. -/
def addTombstone (nHeight : ℤ) (c : CCoins) : CCoins :=
  { c with nHeight := nHeight, nVersion := 4, vout := c.vout ++ [⟨0, [OP_0]⟩] }

/-- `operator==` on `CCoins`: empty records are always equal. -/
def Eqv (a b : CCoins) : Prop := (a.isPruned ∧ b.isPruned) ∨ a = b

instance : DecidableRel Eqv := fun a b =>
  inferInstanceAs (Decidable ((a.isPruned ∧ b.isPruned) ∨ a = b))

instance instSetoid : Setoid CCoins where
  r := Eqv
  iseqv :=
    { refl := fun _ => Or.inr rfl
      symm := by
        rintro a b (⟨ha, hb⟩ | rfl)
        · exact Or.inl ⟨hb, ha⟩
        · exact Or.inr rfl
      trans := by
        rintro a b c (⟨ha, hb⟩ | rfl) hbc
        · rcases hbc with ⟨_, hc⟩ | rfl
          · exact Or.inl ⟨ha, hc⟩
          · exact Or.inl ⟨ha, hb⟩
        · exact hbc }

instance (a b : CCoins) : Decidable (a ≈ b) := inferInstanceAs (Decidable (Eqv a b))

theorem eqv_of_isPruned {a b : CCoins} (ha : a.isPruned) (hb : b.isPruned) : a ≈ b :=
  Or.inl ⟨ha, hb⟩

theorem isPruned_congr {a b : CCoins} (h : a ≈ b) : a.isPruned = b.isPruned := by
  rcases h with ⟨ha, hb⟩ | rfl
  · rw [ha, hb]
  · rfl

theorem eq_of_eqv {a b : CCoins} (h : a ≈ b) (ha : ¬ a.isPruned) : a = b := by
  rcases h with ⟨ha', _⟩ | rfl
  · exact absurd ha' ha
  · rfl

@[simp] theorem isPruned_default : isPruned {} = true := rfl

@[simp] theorem isPruned_clear (c : CCoins) : (clear c).isPruned = true := rfl

@[simp] theorem isPruned_cleanup (c : CCoins) : c.cleanup.isPruned = c.isPruned := by
  unfold isPruned cleanup
  induction c.vout using List.reverseRecOn with
  | nil => rfl
  | append_singleton l x ih =>
    by_cases hx : x.isNull
    · rw [List.rdropWhile_concat_pos _ _ x hx, List.all_append, ih]
      simp [hx]
    · rw [List.rdropWhile_concat_neg _ _ x hx]

theorem cleanup_eqv {a b : CCoins} (h : a ≈ b) : a.cleanup ≈ b.cleanup := by
  rcases h with ⟨ha, hb⟩ | rfl
  · exact eqv_of_isPruned (by simpa using ha) (by simpa using hb)
  · exact Setoid.refl _

end CCoins

end Komodo
