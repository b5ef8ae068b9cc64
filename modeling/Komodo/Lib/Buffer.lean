/-
# Reading from a buffer at a position

A reader of a buffer that stays as it is, with the position as its state and errors for what cannot
be read.  `ReadsAt r written a` says that where `written` stands in the buffer, whatever is around
it, `r` finds `a` and moves on by what was written.  It is kept by sequencing (`ReadsAt.bind`), so
that a record is treated field by field, and a sequence of records record by record.
-/

import Mathlib.Tactic

namespace Komodo
namespace Buffers

variable {ε B α β : Type}

/-- A reader of a buffer of `B`. -/
abbrev BufReader (ε B : Type) := ReaderT (List B) (StateT ℕ (Except ε))

theorem bind_run (r : BufReader ε B α) (f : α → BufReader ε B β) (data : List B) (pos : ℕ) :
    (r >>= f) data pos = (r data pos).bind fun p => f p.1 data p.2 := rfl

/-- Where `written` stands, `r` finds `a` and moves behind it. -/
def ReadsAt (r : BufReader ε B α) (written : List B) (a : α) : Prop :=
  ∀ before after,
    r (before ++ (written ++ after)) before.length = .ok (a, before.length + written.length)

theorem readsAt_pure (a : α) : ReadsAt (pure a : BufReader ε B α) [] a := fun _ _ => rfl

theorem ReadsAt.bind {r : BufReader ε B α} {f : α → BufReader ε B β} {written written' : List B}
    {a : α} {b : β} (h : ReadsAt r written a) (h' : ReadsAt (f a) written' b) :
    ReadsAt (r >>= f) (written ++ written') b := by
  intro before after
  have hnext := h' (before ++ written) after
  rw [List.append_assoc, List.length_append] at hnext
  rw [bind_run, List.append_assoc, h]
  show f a _ _ = _
  rw [hnext, List.length_append, Nat.add_assoc]

theorem ReadsAt.bind_pure {r : BufReader ε B α} {written : List B} {a : α}
    (h : ReadsAt r written a) (f : α → β) :
    ReadsAt (r >>= fun a => pure (f a)) written (f a) := by
  have hbind : ReadsAt (r >>= fun a => pure (f a)) (written ++ []) (f a) :=
    h.bind (readsAt_pure (f a))
  rwa [List.append_nil] at hbind

theorem ReadsAt.map {r : BufReader ε B α} {written : List B} {a : α} (h : ReadsAt r written a)
    (f : α → β) : ReadsAt (f <$> r) written (f a) := by
  intro before after
  rw [← h.bind_pure f before after]
  rfl

end Buffers
end Komodo
