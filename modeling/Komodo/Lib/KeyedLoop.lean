/-
# Loops over the entries of a finite map

A loop `for (it = map.begin(); it != map.end(); ++it)` whose body touches only
the part of the state that belongs to the key `it->first` treats every key on
its own: the order of the entries does not matter, and what the loop leaves at
a key is a function of what was there and of the entry of that key.

`sweep` is such a loop, `sweepM` one whose body may abort. `sweep_look` and
`sweepM_look` say what they leave behind at a key, for any reading `look` of
the state that the body changes only at its own key (`KeyLocal`).
-/

import Mathlib.Tactic
import Mathlib.Data.List.AList

namespace Komodo

open List

variable {K V S R : Type}

/-- A finite map from `K` to `V`. -/
abbrev Dict (K V : Type) := AList fun _ : K => V

/-- Run `body` on every entry of `d`. -/
def sweep (body : K → V → S → S) (d : Dict K V) (s : S) : S :=
  d.entries.foldl (fun s e => body e.1 e.2 s) s

/-- Run `body` on every entry of `d`; the run aborts when one body aborts. -/
def sweepM (body : K → V → S → Option S) (d : Dict K V) (s : S) : Option S :=
  d.entries.foldlM (fun s e => body e.1 e.2 s) s

/-- What a loop leaves at a key: the update of the old reading by the entry of
that key, or the old reading when the map has no such entry. -/
def swept (upd : V → R → R) (entry : Option V) (r : R) : R :=
  match entry with
  | some v => upd v r
  | none => r

@[simp] theorem swept_none (upd : V → R → R) (r : R) : swept upd none r = r := rfl

@[simp] theorem swept_some (upd : V → R → R) (v : V) (r : R) :
    swept upd (some v) r = upd v r := rfl

/-- `s'` is `s` with the reading of key `k` updated by `v` and every other
reading unchanged. -/
def KeyLocal (look : S → K → R) (upd : V → R → R) (k : K) (v : V) (s s' : S) : Prop :=
  look s' k = upd v (look s k) ∧ ∀ k', k' ≠ k → look s' k' = look s k'

variable [DecidableEq K]

variable {look : S → K → R} {upd : V → R → R}

theorem swept_dlookup_cons {s s' : S}
    {e : Σ _ : K, V} {l : List (Σ _ : K, V)} (hnd : (e :: l).NodupKeys)
    (hloc : KeyLocal look upd e.1 e.2 s s') (k : K) :
    swept upd (l.dlookup k) (look s' k) = swept upd ((e :: l).dlookup k) (look s k) := by
  obtain ⟨k₀, v⟩ := e
  by_cases hk : k = k₀
  · subst hk
    have hnone : l.dlookup k = none :=
      dlookup_eq_none.2 (notMem_keys_of_nodupKeys_cons hnd)
    rw [hnone, dlookup_cons_eq, swept_none, swept_some]
    exact hloc.1
  · rw [dlookup_cons_ne l ⟨k₀, v⟩ hk, hloc.2 k hk]

/-- **A loop with local bodies updates every key by its own entry.** -/
theorem sweep_look {body : K → V → S → S}
    (hbody : ∀ k v s, KeyLocal look upd k v s (body k v s)) (d : Dict K V) (s : S) (k : K) :
    look (sweep body d s) k = swept upd (d.lookup k) (look s k) := by
  obtain ⟨l, hnd⟩ := d
  unfold sweep AList.lookup
  induction l generalizing s with
  | nil => rfl
  | cons e l ih =>
    rw [foldl_cons, ih (body e.1 e.2 s) (nodupKeys_of_nodupKeys_cons hnd)]
    exact swept_dlookup_cons hnd (hbody e.1 e.2 s) k

/-- **A loop with local bodies that may abort.**  If the body succeeds on every
entry whose key still has its first reading (`ok`), the loop succeeds, and it
updates every key by its own entry. -/
theorem sweepM_look {ok : V → R → Prop}
    {body : K → V → S → Option S}
    (hbody : ∀ k v s, ok v (look s k) → ∃ s', body k v s = some s' ∧ KeyLocal look upd k v s s')
    (d : Dict K V) (s : S) (hok : ∀ k v, d.lookup k = some v → ok v (look s k)) :
    ∃ s', sweepM body d s = some s' ∧
      ∀ k, look s' k = swept upd (d.lookup k) (look s k) := by
  obtain ⟨l, hnd⟩ := d
  unfold sweepM
  unfold AList.lookup at hok ⊢
  induction l generalizing s with
  | nil => exact ⟨s, rfl, fun _ => rfl⟩
  | cons e l ih =>
    have htail := nodupKeys_of_nodupKeys_cons hnd
    obtain ⟨s₁, hs₁, hloc⟩ :=
      hbody e.1 e.2 s (hok e.1 e.2 (dlookup_cons_eq l e.1 e.2))
    -- the head key is not in the tail, so the tail's readings are still the first ones
    have hok₁ : ∀ k v, l.dlookup k = some v → ok v (look s₁ k) := by
      intro k v hv
      have hk : k ≠ e.1 := by
        rintro rfl
        have := dlookup_eq_none.2 (notMem_keys_of_nodupKeys_cons hnd)
        rw [this] at hv
        cases hv
      rw [hloc.2 k hk]
      exact hok k v (by rw [dlookup_cons_ne l e hk]; exact hv)
    obtain ⟨s', hs', hlook⟩ := ih s₁ htail hok₁
    refine ⟨s', ?_, fun k => ?_⟩
    · simp only [foldlM_cons, hs₁]
      exact hs'
    · rw [hlook k]
      exact swept_dlookup_cons hnd hloc k

end Komodo
