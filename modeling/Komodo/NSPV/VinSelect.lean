/-
# Which output `CC_vinselect` selects

The loop keeps an output above the value and one below it, with their gaps, and a gap of zero stands
for none (`Sees`).  The output that its callers take covers the value, or none has a larger value
(`chosen_vinselect`); outputs without a value are passed over.
-/

import Komodo.Lib.Gather
import Komodo.NSPV.AddressQueries

namespace Komodo
namespace NSPV
namespace Server

open Gather List Option

/-- What the loop has kept after some outputs, none of which has the value itself. -/
structure Sees (value : ℤ) (seen : List CCUtxo) (st : Nearest) : Prop where
  aboveNone : st.abovei = none → st.above = 0
    ∧ ∀ u ∈ seen, 0 < u.nValue → u.nValue < value
  aboveSome : ∀ j, st.abovei = some j →
    ∃ u, seen[j]? = some u ∧ 0 < u.nValue ∧ value ≤ u.nValue
  belowNone : st.belowi = none → st.below = 0 ∧ ∀ u ∈ seen, 0 < u.nValue → value ≤ u.nValue
  belowSome : ∀ j, st.belowi = some j → ∃ u, seen[j]? = some u ∧ 0 < u.nValue
    ∧ st.below = value - u.nValue ∧ 0 < st.below
    ∧ ∀ w ∈ seen, w.nValue < value → w.nValue ≤ u.nValue

/-- The position is the one of an output that covers the value, or of a largest one. -/
def Chosen (value : ℤ) (utxos : List CCUtxo) : Option ℕ → Prop
  | none => ∀ u ∈ utxos, u.nValue ≤ 0
  | some ind => ∃ u, utxos[ind]? = some u ∧ 0 < u.nValue
    ∧ (value ≤ u.nValue ∨ ∀ w ∈ utxos, w.nValue ≤ u.nValue)

variable {value : ℤ} {seen : List CCUtxo} {st : Nearest} {utxo : CCUtxo}

theorem Sees.chosen (h : Sees value seen st) : Chosen value seen (st.abovei.or st.belowi) := by
  cases habove : st.abovei with
  | some j =>
    obtain ⟨u, hu, hpos, hle⟩ := h.aboveSome j habove
    exact ⟨u, hu, hpos, .inl hle⟩
  | none =>
    obtain ⟨-, hbelow⟩ := h.aboveNone habove
    rw [none_or]
    cases hbelowi : st.belowi with
    | some j =>
      obtain ⟨u, hu, hpos, -, -, hlargest⟩ := h.belowSome j hbelowi
      refine ⟨u, hu, hpos, .inr fun w hw => ?_⟩
      by_cases hwpos : 0 < w.nValue
      · exact hlargest w hw (hbelow w hw hwpos)
      · omega
    | none =>
      intro u hu
      by_contra hpos
      have hlt := hbelow u hu (by omega)
      have hge := (h.belowNone hbelowi).2 u hu (by omega)
      omega

theorem getElem?_append_of_some {j : ℕ} {u : CCUtxo} (h : seen[j]? = some u) :
    (seen ++ [utxo])[j]? = some u := by
  rw [List.getElem?_append_left (List.getElem?_eq_some_iff.1 h).1, h]

theorem forall_mem_concat {p : CCUtxo → Prop} :
    (∀ u ∈ seen ++ [utxo], p u) ↔ (∀ u ∈ seen, p u) ∧ p utxo := by
  rw [forall_mem_append, forall_mem_singleton]

/-- An output without a value. -/
theorem Sees.skip (h : Sees value seen st) (hvalue : utxo.nValue ≤ 0) :
    Sees value (seen ++ [utxo]) st where
  aboveNone hnone := by
    obtain ⟨hzero, hall⟩ := h.aboveNone hnone
    exact ⟨hzero, forall_mem_concat.2 ⟨hall, fun hpos => by omega⟩⟩
  aboveSome j hj := by
    obtain ⟨u, hu, hrest⟩ := h.aboveSome j hj
    exact ⟨u, getElem?_append_of_some hu, hrest⟩
  belowNone hnone := by
    obtain ⟨hzero, hall⟩ := h.belowNone hnone
    exact ⟨hzero, forall_mem_concat.2 ⟨hall, fun hpos => by omega⟩⟩
  belowSome j hj := by
    obtain ⟨u, hu, hpos, hgap, hbelow, hlargest⟩ := h.belowSome j hj
    exact ⟨u, getElem?_append_of_some hu, hpos, hgap, hbelow,
      forall_mem_concat.2 ⟨hlargest, fun _ => by omega⟩⟩

theorem getElem?_concat_self : (seen ++ [utxo])[seen.length]? = some utxo :=
  getElem?_concat_length

/-- An output above the value. -/
theorem Sees.takeAbove (h : Sees value seen st) (hpos : 0 < utxo.nValue)
    (hlt : value < utxo.nValue) :
    Sees value (seen ++ [utxo]) (if st.above = 0 ∨ utxo.nValue - value < st.above then
      { st with above := utxo.nValue - value, abovei := some seen.length } else st) := by
  have hnone : st.belowi = none → st.below = 0
      ∧ ∀ u ∈ seen ++ [utxo], 0 < u.nValue → value ≤ u.nValue := by
    intro hnone
    obtain ⟨hzero, hall⟩ := h.belowNone hnone
    exact ⟨hzero, forall_mem_concat.2 ⟨hall, fun _ => hlt.le⟩⟩
  have hsome : ∀ j, st.belowi = some j → ∃ u, (seen ++ [utxo])[j]? = some u ∧ 0 < u.nValue
      ∧ st.below = value - u.nValue ∧ 0 < st.below
      ∧ ∀ w ∈ seen ++ [utxo], w.nValue < value → w.nValue ≤ u.nValue := by
    intro j hj
    obtain ⟨u, hu, hupos, hgap, hbelow, hlargest⟩ := h.belowSome j hj
    exact ⟨u, getElem?_append_of_some hu, hupos, hgap, hbelow,
      forall_mem_concat.2 ⟨hlargest, fun hbelow => by omega⟩⟩
  split_ifs with hset
  · refine ⟨nofun, fun j hj => ?_, hnone, hsome⟩
    cases hj
    exact ⟨utxo, getElem?_concat_self, hpos, hlt.le⟩
  · refine ⟨fun habove => absurd (.inl (h.aboveNone habove).1) hset, fun j hj => ?_, hnone, hsome⟩
    obtain ⟨u, hu, hrest⟩ := h.aboveSome j hj
    exact ⟨u, getElem?_append_of_some hu, hrest⟩

/-- An output below the value. -/
theorem Sees.takeBelow (h : Sees value seen st) (hpos : 0 < utxo.nValue)
    (hlt : utxo.nValue < value) :
    Sees value (seen ++ [utxo]) (if st.below = 0 ∨ value - utxo.nValue < st.below then
      { st with below := value - utxo.nValue, belowi := some seen.length } else st) := by
  have hnone : st.abovei = none → st.above = 0
      ∧ ∀ u ∈ seen ++ [utxo], 0 < u.nValue → u.nValue < value := by
    intro hnone
    obtain ⟨hzero, hall⟩ := h.aboveNone hnone
    exact ⟨hzero, forall_mem_concat.2 ⟨hall, fun _ => hlt⟩⟩
  have hsome : ∀ j, st.abovei = some j →
      ∃ u, (seen ++ [utxo])[j]? = some u ∧ 0 < u.nValue ∧ value ≤ u.nValue := by
    intro j hj
    obtain ⟨u, hu, hrest⟩ := h.aboveSome j hj
    exact ⟨u, getElem?_append_of_some hu, hrest⟩
  split_ifs with hset
  · refine ⟨hnone, hsome, nofun, fun j hj => ?_⟩
    cases hj
    refine ⟨utxo, getElem?_concat_self, hpos, rfl, Int.sub_pos_of_lt hlt,
      forall_mem_concat.2 ⟨fun w hw hbelow => ?_, fun _ => le_refl _⟩⟩
    cases hbelowi : st.belowi with
    | none =>
      -- there is no output below the value yet
      have hall := (h.belowNone hbelowi).2 w hw
      omega
    | some j =>
      obtain ⟨u, -, -, hgap, hbelow0, hlargest⟩ := h.belowSome j hbelowi
      have hle := hlargest w hw hbelow
      omega
  · refine ⟨hnone, hsome, fun hbelow => absurd (.inl (h.belowNone hbelow).1) hset, fun j hj => ?_⟩
    obtain ⟨u, hu, hupos, hgap, hbelow, hlargest⟩ := h.belowSome j hj
    exact ⟨u, getElem?_append_of_some hu, hupos, hgap, hbelow,
      forall_mem_concat.2 ⟨hlargest, fun _ => by omega⟩⟩

theorem chosen_vinselectLoop (h : Sees value seen st) (utxos : List CCUtxo) :
    Chosen value (seen ++ utxos) ((vinselectLoop value seen.length st utxos).abovei.or
      (vinselectLoop value seen.length st utxos).belowi) := by
  induction utxos generalizing seen st with
  | nil =>
    rw [append_nil]
    exact h.chosen
  | cons utxo utxos ih =>
    have happend : seen ++ utxo :: utxos = (seen ++ [utxo]) ++ utxos := by simp
    have hlen : seen.length + 1 = (seen ++ [utxo]).length := by simp
    rw [vinselectLoop]
    split_ifs with hvalue heq hlt
    · rw [happend, hlen]
      exact ih (h.skip hvalue)
    · refine ⟨utxo, ?_, by omega, .inl heq.ge⟩
      rw [getElem?_append_right (Nat.le_refl _), Nat.sub_self]
      rfl
    · rw [happend, hlen]
      exact ih (h.takeAbove (by omega) hlt)
    · rw [happend, hlen]
      exact ih (h.takeBelow (by omega) (by omega))

/-- **The output that is selected.** -/
theorem chosen_vinselect (utxos : List CCUtxo) (value : ℤ) :
    Chosen value utxos (vinselect utxos value) := by
  have hempty : Sees value [] {} := ⟨fun _ => ⟨rfl, forall_mem_nil _⟩, nofun,
    fun _ => ⟨rfl, forall_mem_nil _⟩, nofun⟩
  exact chosen_vinselectLoop hempty utxos

variable {α : Type} {cc : α → CCUtxo}

/-- The entry whose output is selected and the other entries, the last of which takes its place. -/
def takeNearest (cc : α → CCUtxo) (utxos : List α) (value : ℤ) : Option (α × List α) :=
  (vinselect (utxos.map cc) value).bind fun ind =>
    utxos[ind]?.map fun utxo => (utxo, swapRemove utxos ind)

theorem exists_select_of_takeNearest {utxos rest : List α} {value : ℤ} {utxo : α}
    (h : takeNearest cc utxos value = some (utxo, rest)) :
    ∃ ind last, vinselect (utxos.map cc) value = some ind ∧ utxos[ind]? = some utxo
      ∧ utxos.getLast? = some last ∧ (utxos.set ind last).dropLast = rest := by
  obtain ⟨ind, hselect, hmap⟩ := bind_eq_some_iff.1 h
  obtain ⟨u, hu, heq⟩ := map_eq_some_iff.1 hmap
  obtain ⟨rfl, rfl⟩ := Prod.mk.inj heq
  have hne : utxos ≠ [] := fun hnil => by simp [hnil] at hu
  have hlast := getLast?_eq_some_getLast hne
  refine ⟨ind, utxos.getLast hne, hselect, hu, hlast, ?_⟩
  rw [swapRemove, hlast]

theorem exists_of_takeNearest {utxos rest : List α} {value : ℤ} {utxo : α}
    (h : takeNearest cc utxos value = some (utxo, rest)) :
    utxos.Perm (utxo :: rest) ∧ 0 < (cc utxo).nValue
      ∧ (value ≤ (cc utxo).nValue ∨ ∀ w ∈ utxos, (cc w).nValue ≤ (cc utxo).nValue) := by
  obtain ⟨ind, hselect, hmap⟩ := bind_eq_some_iff.1 h
  obtain ⟨u, hu, heq⟩ := map_eq_some_iff.1 hmap
  obtain ⟨rfl, rfl⟩ := Prod.mk.inj heq
  have hchosen := chosen_vinselect (utxos.map cc) value
  rw [hselect] at hchosen
  obtain ⟨w, hw, hpos, hnearest⟩ := hchosen
  rw [getElem?_map, hu, map_some] at hw
  cases hw
  refine ⟨perm_swapRemove hu, hpos, hnearest.imp_right fun hlargest w hw => ?_⟩
  exact hlargest (cc w) (mem_map_of_mem hw)

theorem takeNearest_eq_none_iff {utxos : List α} {value : ℤ} :
    takeNearest cc utxos value = none ↔ vinselect (utxos.map cc) value = none := by
  have hchosen := chosen_vinselect (utxos.map cc) value
  cases hselect : vinselect (utxos.map cc) value with
  | none => exact iff_of_true (by rw [takeNearest, hselect]; rfl) rfl
  | some ind =>
    rw [hselect] at hchosen
    obtain ⟨u, hu, -⟩ := hchosen
    rw [getElem?_map] at hu
    obtain ⟨utxo, hutxo, -⟩ := map_eq_some_iff.1 hu
    refine iff_of_false ?_ nofun
    rw [takeNearest, hselect, bind_some, hutxo]
    exact nofun

theorem takesNearest_takeNearest : TakesNearest (fun a => (cc a).nValue) (takeNearest cc) where
  none utxos value h := by
    have hchosen := chosen_vinselect (utxos.map cc) value
    rw [takeNearest_eq_none_iff.1 h] at hchosen
    exact fun a ha => hchosen (cc a) (mem_map_of_mem ha)
  perm utxos value utxo rest h := (exists_of_takeNearest h).1
  pos utxos value utxo rest h := (exists_of_takeNearest h).2.1
  nearest utxos value utxo rest h := (exists_of_takeNearest h).2.2

end Server
end NSPV
end Komodo
