/-
# Counting different signers

A list of ballots is gone through once, and a ballot counts where one of the keys that have signed it
has not been counted before.  `tally` is the list of the keys that are counted.

It is sound whatever the ballots are (`exists_signed_tally`): it counts that many ballots, under
different keys.  Where no ballot is signed by two keys it counts every key (`length_le_tally`), so
that no other choice of ballots has more.
-/

import Mathlib.Tactic

namespace Komodo
namespace Quorum

open List

variable {α κ : Type}

/-- `quorum` of the ballots have been signed by different keys. -/
def Signed (test : α → κ → Prop) (quorum : ℕ) (ballots : List α) : Prop :=
  ∃ signed : List (α × κ), (signed.map Prod.fst).Subperm ballots ∧ quorum ≤ signed.length
    ∧ (signed.map Prod.snd).Nodup ∧ ∀ p ∈ signed, test p.1 p.2

section
variable [DecidableEq κ] (signers : α → List κ)

/-- A ballot with these signers is counted under the first key that is not in `used`. -/
def count (keys used : List κ) : List κ :=
  match keys.find? (· ∉ used) with
  | some key => used ++ [key]
  | none => used

/-- The keys that are counted, after those in `used`. -/
def tally : List α → (used : List κ) → List κ
  | [], used => used
  | a :: ballots, used => tally ballots (count (signers a) used)

variable {signers} {quorum : ℕ} {ballots : List α} {used : List κ}

theorem tally_cons (a : α) : tally signers (a :: ballots) used =
    tally signers ballots (count (signers a) used) := rfl

/-- The keys that are counted have signed as many ballots. -/
theorem exists_signed_tally (signers : α → List κ) (ballots : List α) (used : List κ) :
    ∃ signed : List (α × κ), (signed.map Prod.fst).Sublist ballots
      ∧ tally signers ballots used = used ++ signed.map Prod.snd
      ∧ ∀ p ∈ signed, p.2 ∈ signers p.1 := by
  induction ballots generalizing used with
  | nil => exact ⟨[], List.Sublist.refl [], (append_nil used).symm, nofun⟩
  | cons a ballots ih =>
    rw [tally_cons, count]
    cases hfind : (signers a).find? (· ∉ used) with
    | none =>
      obtain ⟨signed, hsub, heq, hsigners⟩ := ih used
      exact ⟨signed, hsub.cons a, heq, hsigners⟩
    | some key =>
      obtain ⟨signed, hsub, heq, hsigners⟩ := ih (used ++ [key])
      refine ⟨(a, key) :: signed, hsub.cons_cons a, ?_, ?_⟩
      · simpa using heq
      · rintro p (_ | ⟨_, hp⟩)
        · exact mem_of_find?_eq_some hfind
        · exact hsigners p hp

theorem nodup_tally (hnodup : used.Nodup) : (tally signers ballots used).Nodup := by
  induction ballots generalizing used with
  | nil => exact hnodup
  | cons a ballots ih =>
    rw [tally_cons, count]
    cases hfind : (signers a).find? (· ∉ used) with
    | none => exact ih hnodup
    | some key =>
      have hnew : key ∉ used := by simpa using find?_some hfind
      refine ih (nodup_append.2 ⟨hnodup, nodup_singleton key, ?_⟩)
      rintro k hk _ hkey rfl
      exact hnew (mem_singleton.1 hkey ▸ hk)

/-- **A tally that reaches the quorum has the ballots for it.** -/
theorem Signed.of_tally (h : quorum ≤ (tally signers ballots []).length) :
    Signed (fun a key => key ∈ signers a) quorum ballots := by
  obtain ⟨signed, hsub, heq, hsigners⟩ := exists_signed_tally signers ballots []
  have hnodup : (tally signers ballots []).Nodup := nodup_tally nodup_nil
  rw [heq, nil_append] at h hnodup
  exact ⟨signed, hsub.subperm, by simpa using h, hnodup, hsigners⟩

theorem mem_tally_of_used {key : κ} (h : key ∈ used) : key ∈ tally signers ballots used := by
  obtain ⟨signed, -, heq, -⟩ := exists_signed_tally signers ballots used
  rw [heq]
  exact mem_append_left _ h

/-- Where a ballot has one signer at most, every signer is counted. -/
theorem mem_tally (hone : ∀ a ∈ ballots, ∀ key ∈ signers a, ∀ key' ∈ signers a, key = key')
    {a : α} {key : κ} (ha : a ∈ ballots) (hkey : key ∈ signers a) :
    key ∈ tally signers ballots used := by
  induction ballots generalizing used with
  | nil => cases ha
  | cons b ballots ih =>
    have hrest := fun a ha => hone a (mem_cons_of_mem b ha)
    rw [tally_cons, count]
    cases hfind : (signers b).find? (· ∉ used) with
    | none =>
      rcases mem_cons.1 ha with rfl | ha
      · have hused : key ∈ used := by simpa using find?_eq_none.1 hfind key hkey
        exact mem_tally_of_used hused
      · exact ih hrest ha
    | some key' =>
      rcases mem_cons.1 ha with rfl | ha
      · obtain rfl := hone a (mem_cons_self ..) key hkey key'
          (mem_of_find?_eq_some hfind)
        exact mem_tally_of_used (mem_append_right _ (mem_singleton_self key))
      · exact ih hrest ha

/-- **No other choice of ballots has more different signers**, where a ballot has one at most. -/
theorem Signed.le_tally (hone : ∀ a ∈ ballots, ∀ key ∈ signers a, ∀ key' ∈ signers a, key = key')
    (h : Signed (fun a key => key ∈ signers a) quorum ballots) :
    quorum ≤ (tally signers ballots []).length := by
  obtain ⟨signed, hsub, hlong, hnodup, htest⟩ := h
  have hsubset : signed.map Prod.snd ⊆ tally signers ballots [] := by
    intro key hkey
    obtain ⟨p, hp, rfl⟩ := mem_map.1 hkey
    exact mem_tally hone (hsub.subset (mem_map_of_mem hp)) (htest p hp)
  have hle := (hnodup.subperm hsubset).length_le
  rw [length_map] at hle
  exact Nat.le_trans hlong hle

end

end Quorum
end Komodo
