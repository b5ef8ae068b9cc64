/-
# How much a reader takes

`TakesAt r n s` says that `r` takes `n` items off the front of `s`, and that there is no value where
`s` is shorter.  `Takes r size` says so for every stream, with a number that the stream determines.
Sequencing adds the sizes, the second one taken where the first reader has stopped (`Takes.bind`);
where the second size depends on the value that was found, `Takes.bind_value` needs this value.
-/

import Komodo.Lib.Stream

namespace Komodo
namespace Streams

variable {B α β : Type}

/-- `r` takes `n` items off the front of `s`, and has no value where there are fewer. -/
def TakesAt (r : Reader B α) (n : ℕ) (s : List B) : Prop :=
  (n ≤ s.length → ∃ a, r s = some (a, s.drop n)) ∧ (s.length < n → r s = none)

/-- `r` takes `size s` items off the front of every `s`. -/
def Takes (r : Reader B α) (size : List B → ℕ) : Prop := ∀ s, TakesAt r (size s) s

theorem TakesAt.bind {r : Reader B α} {f : α → Reader B β} {n m : ℕ} {s : List B}
    (h : TakesAt r n s) (h' : ∀ a, r s = some (a, s.drop n) → TakesAt (f a) m (s.drop n)) :
    TakesAt (r >>= f) (n + m) s := by
  have hlen : (s.drop n).length = s.length - n := List.length_drop
  unfold TakesAt
  rw [bind_apply]
  by_cases hle : n ≤ s.length
  · obtain ⟨a, ha⟩ := h.1 hle
    obtain ⟨hsome, hnone⟩ := h' a ha
    rw [ha, Option.bind_some]
    constructor
    · intro hsum
      obtain ⟨b, hb⟩ := hsome (by omega)
      exact ⟨b, by rw [hb, List.drop_drop]⟩
    · intro hlt
      exact hnone (by omega)
  · rw [h.2 (by omega)]
    exact ⟨fun hsum => absurd hsum (by omega), fun _ => rfl⟩

namespace Takes

variable {r : Reader B α} {f : α → Reader B β} {size size' : List B → ℕ}

theorem congr (h : Takes r size) (hsize : ∀ s, size s = size' s) : Takes r size' :=
  (funext hsize : size = size') ▸ h

theorem pure (a : α) : Takes (pure a : Reader B α) fun _ => 0 := fun _ =>
  ⟨fun _ => ⟨a, rfl⟩, fun h => absurd h (Nat.not_lt_zero _)⟩

theorem bind (h : Takes r size) (h' : ∀ a, Takes (f a) size') :
    Takes (r >>= f) fun s => size s + size' (s.drop (size s)) :=
  fun s => (h s).bind fun a _ => h' a _

theorem bind_value {value : List B → α} {size' : α → List B → ℕ} (h : Takes r size)
    (hvalue : ∀ {s a s'}, r s = some (a, s') → a = value s) (h' : ∀ a, Takes (f a) (size' a)) :
    Takes (r >>= f) fun s => size s + size' (value s) (s.drop (size s)) :=
  fun s => (h s).bind fun a ha => hvalue ha ▸ h' a _

theorem field {n : ℕ} (h : Takes r fun _ => n) (h' : ∀ a, Takes (f a) size') :
    Takes (r >>= f) fun s => n + size' (s.drop n) := h.bind h'

theorem map (h : Takes r size) (g : α → β) : Takes (g <$> r) size := by
  intro s
  unfold TakesAt
  rw [map_apply]
  constructor
  · intro hle
    obtain ⟨a, ha⟩ := (h s).1 hle
    exact ⟨g a, by rw [ha]; rfl⟩
  · intro hlt
    rw [(h s).2 hlt]
    rfl

theorem eq_some_iff (h : Takes r size) {s : List B} :
    (∃ a s', r s = some (a, s')) ↔ size s ≤ s.length := by
  constructor
  · rintro ⟨a, s', ha⟩
    refine Nat.not_lt.1 fun hlt => ?_
    rw [(h s).2 hlt] at ha
    cases ha
  · intro hle
    obtain ⟨a, ha⟩ := (h s).1 hle
    exact ⟨a, _, ha⟩

end Takes

end Streams
end Komodo
