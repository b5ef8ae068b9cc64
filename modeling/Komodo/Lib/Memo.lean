/-
# The last answer, kept with its question

The answer to a question depends on the world.  The last answer is kept, and is given again when the
same question comes next.  In between the world may change, and a restart brings back what is kept at
first.

Every answer of a run is right if and only if the run is steady (`right_iff_steady`): where a question
is repeated its answer has not changed since the time before, and what is kept at first is no wrong
answer to the first question.
-/

import Mathlib.Tactic

namespace Komodo
namespace Memo

variable {W K R : Type}

inductive Event (W K : Type)
  | ask (k : K)
  | change (w : W)
  | restart (w : W)

structure State (W K R : Type) where
  world : W
  key : K
  answer : R

/-- The state after a start. -/
def start (init : K × R) (w : W) : State W K R := { world := w, key := init.1, answer := init.2 }

variable [DecidableEq K] (f : W → K → R) (init : K × R)

def State.ask (s : State W K R) (k : K) : R × State W K R :=
  if k = s.key then (s.answer, s)
  else (f s.world k, { s with key := k, answer := f s.world k })

/-- The answers of a run, each with the right one. -/
def answers : State W K R → List (Event W K) → List (R × R)
  | _, [] => []
  | s, .ask k :: events => ((s.ask f k).1, f s.world k) :: answers (s.ask f k).2 events
  | s, .change w :: events => answers { s with world := w } events
  | _, .restart w :: events => answers (start init w) events

/-- A question that repeats the last one has the answer that it had then. -/
def Steady : (last : K × R) → W → List (Event W K) → Prop
  | _, _, [] => True
  | last, w, .ask k :: events => (k = last.1 → last.2 = f w k) ∧ Steady (k, f w k) w events
  | last, _, .change w :: events => Steady last w events
  | _, _, .restart w :: events => Steady init w events

variable {f init}

theorem ask_right_iff {s : State W K R} {k : K} :
    (s.ask f k).1 = f s.world k ↔ (k = s.key → s.answer = f s.world k) := by
  unfold State.ask
  by_cases hkey : k = s.key
  · rw [if_pos hkey]
    exact ⟨fun h _ => h, fun h => h hkey⟩
  · rw [if_neg hkey]
    exact ⟨fun _ h => absurd h hkey, fun _ => rfl⟩

theorem ask_state {s : State W K R} {k : K} (h : (s.ask f k).1 = f s.world k) :
    (s.ask f k).2 = { s with key := k, answer := f s.world k } := by
  unfold State.ask at h ⊢
  by_cases hkey : k = s.key
  · rw [if_pos hkey] at h ⊢
    subst hkey
    rw [← h]
  · rw [if_neg hkey]

/-- **The answers of a run are right if and only if it is steady.** -/
theorem right_iff_steady {s : State W K R} {events : List (Event W K)} :
    (∀ p ∈ answers f init s events, p.1 = p.2)
      ↔ Steady f init (s.key, s.answer) s.world events := by
  induction events generalizing s with
  | nil => exact ⟨fun _ => trivial, fun _ _ h => nomatch h⟩
  | cons event events ih =>
    cases event with
    | ask k =>
      unfold answers Steady
      rw [List.forall_mem_cons, ← ask_right_iff]
      refine and_congr_right fun hright => ?_
      rw [ih, ask_state hright]
    | change w => exact ih
    | restart w => exact ih

end Memo
end Komodo
