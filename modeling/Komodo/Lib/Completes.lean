/-
# Runs that end with a value

A computation in `Except` that reads arrays and follows pointers ends with a value or with the
fault that it meets.  `Completes` says that it ends with a value.  The rules take a run apart at its
steps: a sequence completes when its first part does and the rest does from the value that the first
part has, and a branch when the side that is taken does.
-/

import Mathlib.Tactic

namespace Komodo
namespace Runs

variable {ε α β : Type}

/-- The run ends with a value. -/
def Completes (x : Except ε α) : Prop := ∃ a, x = .ok a

theorem completes_ok (a : α) : Completes (.ok a : Except ε α) := ⟨a, rfl⟩

theorem completes_pure (a : α) : Completes (pure a : Except ε α) := ⟨a, rfl⟩

theorem not_completes_error (e : ε) : ¬ Completes (.error e : Except ε α) := nofun

theorem not_completes_throw (e : ε) : ¬ Completes (throw e : Except ε α) := nofun

variable {x : Except ε α} {f : α → Except ε β}

theorem completes_bind :
    Completes (x >>= f) ↔ Completes x ∧ ∀ a, x = .ok a → Completes (f a) := by
  cases x with
  | error e => exact ⟨nofun, fun h => absurd h.1 (not_completes_error e)⟩
  | ok a =>
    constructor
    · intro h
      refine ⟨completes_ok a, fun a' ha => ?_⟩
      cases ha
      exact h
    · exact fun h => h.2 a rfl

theorem bind_of_eq_ok {a : α} (h : x = .ok a) :
    x >>= f = f a := by
  rw [h]
  rfl

theorem bind_eq_ok {b : β} :
    x >>= f = .ok b ↔ ∃ a, x = .ok a ∧ f a = .ok b := by
  cases x with
  | error e => exact ⟨nofun, fun ⟨_, h, _⟩ => nomatch h⟩
  | ok a => exact ⟨fun h => ⟨a, rfl, h⟩, fun ⟨_, ha, h⟩ => Except.ok.inj ha ▸ h⟩

theorem completes_bind_of {a : α}
    (h : Completes x → x = .ok a) : Completes (x >>= f) ↔ Completes x ∧ Completes (f a) := by
  rw [completes_bind]
  refine and_congr_right fun hx => ?_
  rw [h hx]
  simp only [Except.ok.injEq, forall_eq']

theorem completes_map {f : α → β} : Completes (f <$> x) ↔ Completes x := by
  cases x with
  | error e => exact ⟨nofun, nofun⟩
  | ok a => exact ⟨fun _ => completes_ok a, fun _ => completes_ok (f a)⟩

theorem completes_ite {p : Prop} [Decidable p] {x y : Except ε α} :
    Completes (if p then x else y) ↔ (p → Completes x) ∧ (¬ p → Completes y) := by
  split_ifs with hp
  · exact ⟨fun h => ⟨fun _ => h, fun hn => absurd hp hn⟩, fun h => h.1 hp⟩
  · exact ⟨fun h => ⟨fun h' => absurd h' hp, fun _ => h⟩, fun h => h.2 hp⟩

end Runs
end Komodo
