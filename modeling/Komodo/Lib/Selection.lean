/-
# Taking the first few of a sorted list

A list is sorted with a comparison function, as `qsort` is called, and the first `count` of its
elements that pass a test are taken.  What is taken need not be determined by the list: elements
that compare as equal come in any order, and a function that is no order on the list may leave it in
any order at all (`Arrangement`).

`separable_iff` says which elements `a` and `b` can come apart, `a` being taken and `b` not, by the
comparisons alone.  For a quantity that is to be as large or as small as possible it is enough that
no two elements come apart the wrong way (`sum_take_eq_largest_iff`, `sum_le_of_exchange`); and what
is taken is the same in all arrangements if no two elements come apart that differ and are equally
good (`map_eq_of_exchange`).
-/

import Mathlib.Tactic

namespace Komodo
namespace Selection

open List

variable {α β : Type}

/-! ### Arrangements -/

/-- `cmp` is an order on the elements at different places of `l`. -/
structure Orders (cmp : α → α → ℤ) (l : List α) : Prop where
  symm : ∀ a b, [a, b].Subperm l → (cmp a b < 0 ↔ 0 < cmp b a)
  trans : ∀ a b c, [a, b, c].Subperm l → cmp a b ≤ 0 → cmp b c ≤ 0 → cmp a c ≤ 0

/-- A list that sorting may make of `l`. -/
structure Arrangement (cmp : α → α → ℤ) (l l' : List α) : Prop where
  perm : l'.Perm l
  sorted : Orders cmp l → l'.Pairwise fun a b => cmp a b ≤ 0

section
variable {cmp : α → α → ℤ} {l l' : List α}

theorem Orders.of_perm (h : Orders cmp l) (hperm : l.Perm l') : Orders cmp l' where
  symm a b hab := h.symm a b (hab.trans hperm.symm.subperm)
  trans a b c habc := h.trans a b c (habc.trans hperm.symm.subperm)

theorem subperm_map {k : List α} (f : α → β) (h : k.Subperm l) :
    (k.map f).Subperm (l.map f) := by
  obtain ⟨s, hperm, hsub⟩ := h
  exact ⟨s.map f, hperm.map f, hsub.map f⟩

theorem Orders.of_map {f : α → β} {cmp' : β → β → ℤ}
    (hcmp : ∀ a ∈ l, ∀ b ∈ l, cmp' (f a) (f b) = cmp a b) (h : Orders cmp' (l.map f)) :
    Orders cmp l where
  symm a b hab := by
    have ha : a ∈ l := hab.subset (by simp)
    have hb : b ∈ l := hab.subset (by simp)
    rw [← hcmp a ha b hb, ← hcmp b hb a ha]
    exact h.symm _ _ (subperm_map f hab)
  trans a b c habc := by
    have ha : a ∈ l := habc.subset (by simp)
    have hb : b ∈ l := habc.subset (by simp)
    have hc : c ∈ l := habc.subset (by simp)
    rw [← hcmp a ha b hb, ← hcmp b hb c hc, ← hcmp a ha c hc]
    exact h.trans _ _ _ (subperm_map f habc)

theorem Arrangement.of_perm (h : Arrangement cmp l l') {k : List α} (hperm : l.Perm k) :
    Arrangement cmp k l' :=
  ⟨h.perm.trans hperm, fun hord => h.sorted (hord.of_perm hperm.symm)⟩

theorem Arrangement.map {f : α → β} {cmp' : β → β → ℤ}
    (hcmp : ∀ a ∈ l, ∀ b ∈ l, cmp' (f a) (f b) = cmp a b) (h : Arrangement cmp l l') :
    Arrangement cmp' (l.map f) (l'.map f) where
  perm := h.perm.map f
  sorted hord := by
    refine pairwise_map.2 ((h.sorted (hord.of_map hcmp)).imp_of_mem ?_)
    intro a b ha hb hab
    rwa [hcmp a (h.perm.mem_iff.1 ha) b (h.perm.mem_iff.1 hb)]

theorem Arrangement.congr {cmp' : α → α → ℤ} (hcmp : ∀ a ∈ l, ∀ b ∈ l, cmp' a b = cmp a b)
    (h : Arrangement cmp l l') : Arrangement cmp' l l' := by
  simpa using h.map (f := id) hcmp

theorem perm_swap (a b : α) (l₁ l₂ l₃ : List α) :
    (l₁ ++ b :: (l₂ ++ a :: l₃)).Perm (l₁ ++ a :: (l₂ ++ b :: l₃)) := by
  have hforth : (b :: l₂ ++ a :: l₃).Perm (a :: (b :: l₂ ++ l₃)) := perm_middle
  have hback : (l₂ ++ b :: l₃).Perm (b :: (l₂ ++ l₃)) := perm_middle
  exact (hforth.trans (hback.symm.cons a)).append_left l₁

/-- Two elements can change places if the second can also stand before the first. -/
theorem Arrangement.swap {a b : α} {l₁ l₂ l₃ : List α}
    (h : Arrangement cmp l (l₁ ++ a :: (l₂ ++ b :: l₃))) (hba : Orders cmp l → cmp b a ≤ 0) :
    Arrangement cmp l (l₁ ++ b :: (l₂ ++ a :: l₃)) := by
  refine ⟨(perm_swap a b l₁ l₂ l₃).trans h.perm, fun hord => ?_⟩
  have hord' := hord.of_perm h.perm.symm
  obtain ⟨h₁, hrest, h₁rest⟩ := pairwise_append.1 (h.sorted hord)
  obtain ⟨ha, hrest⟩ := pairwise_cons.1 hrest
  obtain ⟨h₂, h₃, h₂rest⟩ := pairwise_append.1 hrest
  obtain ⟨hb, h₃⟩ := pairwise_cons.1 h₃
  have hbetween : ∀ x ∈ l₂, cmp b x ≤ 0 ∧ cmp x a ≤ 0 := by
    intro x hx
    have hsub : [a, x, b].Subperm (l₁ ++ a :: (l₂ ++ b :: l₃)) := by
      refine List.Sublist.subperm ((List.Sublist.cons_cons a ?_).trans (sublist_append_right l₁ _))
      exact (singleton_sublist.2 hx).append (singleton_sublist.2 mem_cons_self)
    have hax := ha x (mem_append_left _ hx)
    have hxb := h₂rest x hx b mem_cons_self
    have hrotate : ([b] ++ [a, x]).Perm ([a, x] ++ [b]) := perm_append_comm
    have hrotate' : ([x, b] ++ [a]).Perm ([a] ++ [x, b]) := perm_append_comm
    exact ⟨hord'.trans b a x (hrotate.subperm.trans hsub) (hba hord) hax,
      hord'.trans x b a (hrotate'.subperm.trans hsub) hxb (hba hord)⟩
  have hab := ha b (by simp)
  have hafter : ∀ x ∈ l₃, cmp a x ≤ 0 := fun x hx => ha x (by simp [hx])
  refine pairwise_append.2 ⟨h₁, pairwise_cons.2 ⟨fun x hx => ?_, ?_⟩, fun x hx y hy => ?_⟩
  · rcases mem_append.1 hx with hx | hx
    · exact (hbetween x hx).1
    · rcases mem_cons.1 hx with rfl | hx
      · exact hba hord
      · exact hb x hx
  · refine pairwise_append.2 ⟨h₂, pairwise_cons.2 ⟨hafter, h₃⟩, fun x hx y hy => ?_⟩
    rcases mem_cons.1 hy with rfl | hy
    · exact (hbetween x hx).2
    · exact h₂rest x hx y (mem_cons_of_mem b hy)
  · exact h₁rest x hx y (by
      simp only [mem_cons, mem_append] at hy ⊢
      tauto)

end

/-! ### Sorting by insertion -/

section
variable {r : α → α → Prop} [DecidableRel r]

theorem pairwise_orderedInsert {a : α} {s : List α} (hs : s.Pairwise r)
    (htotal : ∀ b ∈ s, r a b ∨ r b a)
    (htrans : ∀ b c, [b, c].Subperm s → r a b → r b c → r a c) :
    (s.orderedInsert r a).Pairwise r := by
  induction s with
  | nil => simp
  | cons b s ih =>
    obtain ⟨hb, hs'⟩ := pairwise_cons.1 hs
    by_cases hab : r a b
    · rw [orderedInsert_cons_of_le r s hab]
      refine pairwise_cons.2 ⟨fun x hx => ?_, hs⟩
      rcases mem_cons.1 hx with rfl | hx
      · exact hab
      · have hsub : [b, x].Subperm (b :: s) :=
          (subperm_cons b).2 (singleton_subperm_iff.2 hx)
        exact htrans b x hsub hab (hb x hx)
    · rw [orderedInsert_of_not_le r s hab]
      refine pairwise_cons.2 ⟨fun x hx => ?_, ?_⟩
      · rcases (mem_orderedInsert r).1 hx with rfl | hx
        · exact (htotal b mem_cons_self).resolve_left hab
        · exact hb x hx
      · exact ih hs' (fun c hc => htotal c (mem_cons_of_mem b hc))
          fun c d hcd => htrans c d (hcd.cons_right b)

/-- Insertion puts a list in order if the relation is total and transitive on it. -/
theorem pairwise_insertionSort_of {l : List α}
    (htotal : ∀ a b, [a, b].Subperm l → r a b ∨ r b a)
    (htrans : ∀ a b c, [a, b, c].Subperm l → r a b → r b c → r a c) :
    (l.insertionSort r).Pairwise r := by
  induction l with
  | nil => exact List.Pairwise.nil
  | cons a l ih =>
    have hperm := perm_insertionSort r l
    rw [insertionSort_cons]
    refine pairwise_orderedInsert (ih ?_ ?_) (fun b hb => ?_) fun b c hbc => ?_
    · exact fun b c hbc => htotal b c (hbc.cons_right a)
    · exact fun b c d hbcd => htrans b c d (hbcd.cons_right a)
    · exact htotal a b ((subperm_cons a).2 (singleton_subperm_iff.2 (hperm.mem_iff.1 hb)))
    · exact htrans a b c ((subperm_cons a).2 (hbc.trans hperm.subperm))

end

section
variable {cmp : α → α → ℤ} {l : List α}

theorem Orders.symm' (h : Orders cmp l) {a b : α} (hab : [a, b].Subperm l) :
    cmp b a < 0 ↔ 0 < cmp a b :=
  h.symm b a ((List.Perm.swap a b []).subperm.trans hab)

theorem Orders.total (h : Orders cmp l) {a b : α} (hab : [a, b].Subperm l) :
    cmp a b ≤ 0 ∨ cmp b a ≤ 0 := by
  have hsymm := h.symm' hab
  omega

theorem pairwise_insertionSort (h : Orders cmp l) :
    (l.insertionSort fun a b => cmp a b ≤ 0).Pairwise fun a b => cmp a b ≤ 0 :=
  pairwise_insertionSort_of (fun _ _ => h.total) h.trans

end

/-! ### Sorting algorithms -/

/-- A sorting algorithm: it moves the elements, and sorts what the comparison orders. -/
structure Sorting where
  sort : {α : Type} → (α → α → ℤ) → List α → List α
  arrangement : ∀ {α : Type} (cmp : α → α → ℤ) (l : List α), Arrangement cmp l (sort cmp l)

/-- Sorting by insertion, which leaves equal elements in their order. -/
def Sorting.insertion : Sorting where
  sort cmp l := l.insertionSort fun a b => cmp a b ≤ 0
  arrangement _ _ := ⟨List.perm_insertionSort _ _, pairwise_insertionSort⟩

/-- The elements at these places. -/
def permute (places : List ℕ) (l : List α) : List α := places.filterMap (l[·]?)

theorem permute_map (places : List ℕ) (f : α → β) (l : List α) :
    permute places (l.map f) = (permute places l).map f := by
  simp [permute, map_filterMap]

theorem exists_permute {l l' : List α} (h : ∀ x ∈ l', x ∈ l) : ∃ places, permute places l = l' := by
  induction l' with
  | nil => exact ⟨[], rfl⟩
  | cons a l' ih =>
    obtain ⟨places, hplaces⟩ := ih fun x hx => h x (mem_cons_of_mem a hx)
    obtain ⟨i, hi⟩ := mem_iff_getElem?.1 (h a mem_cons_self)
    refine ⟨i :: places, ?_⟩
    rw [permute, filterMap_cons_some hi]
    exact congrArg (a :: ·) hplaces

open Classical in
/-- The algorithm that moves the elements to these places wherever that sorts them. -/
noncomputable def Sorting.placing (places : List ℕ) : Sorting where
  sort cmp l :=
    if Arrangement cmp l (permute places l) then permute places l else insertion.sort cmp l
  arrangement cmp l := by
    split_ifs with h
    · exact h
    · exact insertion.arrangement cmp l

theorem Sorting.sort_placing {cmp : α → α → ℤ} {places : List ℕ} {l : List α}
    (h : Arrangement cmp l (permute places l)) :
    (placing places).sort cmp l = permute places l :=
  if_pos h

/-! ### What can come apart -/

section
variable (taken : α → Bool) (count : ℕ) (a b : α)

/-- Of the elements that can be taken, `a` is one of the first `count` in this list, and a `b`
behind it is not. -/
def Parted (l : List α) : Prop :=
  ∃ l₁ l₂ l₃, l = l₁ ++ a :: (l₂ ++ b :: l₃) ∧ l₁.countP taken < count
    ∧ count ≤ l₁.countP taken + 1 + l₂.countP taken

/-- `a` and `b` can come apart, as far as the comparisons tell. -/
structure Separable (cmp : α → α → ℤ) (l : List α) : Prop where
  pos : 0 < count
  lt : count < l.countP taken
  le : Orders cmp l → cmp a b ≤ 0
  ahead : Orders cmp l → l.countP (fun x => taken x && decide (cmp x a < 0)) < count
  behind : Orders cmp l →
    count + l.countP (fun x => taken x && decide (cmp b x < 0)) < l.countP taken

end

section
variable {taken : α → Bool} {cmp : α → α → ℤ} {l : List α} {count : ℕ} {a b : α}

/-- Elements that compare as equal can be put in the order of any rank. -/
theorem exists_ranked (h : Orders cmp l) (rank : α → ℕ) : ∃ l', Arrangement cmp l l' ∧
    l'.Pairwise fun a b => cmp a b < 0 ∨ cmp a b ≤ 0 ∧ rank a ≤ rank b := by
  have hranked := pairwise_insertionSort_of
    (r := fun a b => cmp a b < 0 ∨ cmp a b ≤ 0 ∧ rank a ≤ rank b) (l := l) ?_ ?_
  · refine ⟨_, ⟨perm_insertionSort _ l, fun _ => hranked.imp fun hab => ?_⟩, hranked⟩
    omega
  · intro a b hab
    have hsymm := h.symm a b hab
    have hsymm' := h.symm' hab
    omega
  · intro a b c habc hab hbc
    have hle := h.trans a b c habc (by omega) (by omega)
    have hrotate : ([b, c] ++ [a]).Perm ([a] ++ [b, c]) := perm_append_comm
    have hrotate' : ([c] ++ [a, b]).Perm ([a, b] ++ [c]) := perm_append_comm
    -- where `c` compares as equal to `a`, so does `b` to both
    have hba := h.trans b c a (hrotate.subperm.trans habc)
    have hcb := h.trans c a b (hrotate'.subperm.trans habc)
    have hpart : ∀ {k : List α}, k.Sublist [a, b, c] → k.Subperm l :=
      fun hk => hk.subperm.trans habc
    have hac : [a, c].Subperm l := hpart (by simp)
    have hsymm := h.symm a b (hpart (by simp))
    have hsymm' := h.symm b c (hpart (by simp))
    have hsymm₁ := h.symm a c hac
    have hsymm₂ := h.symm' hac
    omega

theorem parted_of_mem {l : List α} (ha : a ∈ (l.filter taken).take count)
    (hb : b ∈ (l.filter taken).drop count) : Parted taken count a b l := by
  have hfull : ((l.filter taken).take count).length = count :=
    length_take_of_le (by
      have hpos := length_pos_of_mem hb
      rw [length_drop] at hpos
      omega)
  obtain ⟨f₁, f₂, htake⟩ := append_of_mem ha
  obtain ⟨f₃, f₄, hdrop⟩ := append_of_mem hb
  have hfilter : l.filter taken = f₁ ++ (a :: (f₂ ++ f₃ ++ b :: f₄)) := by
    rw [← take_append_drop count (l.filter taken), htake, hdrop]
    simp
  obtain ⟨l₁, r₁, rfl, hf₁, hr₁⟩ := filter_eq_append_iff.1 hfilter
  obtain ⟨l₂, r₂, rfl, hl₂, -, hr₂⟩ := filter_eq_cons_iff.1 hr₁
  obtain ⟨l₃, r₃, rfl, hf₃, hr₃⟩ := filter_eq_append_iff.1 hr₂
  obtain ⟨l₄, l₅, rfl, hl₄, -, -⟩ := filter_eq_cons_iff.1 hr₃
  have hlength : f₁.length + 1 + f₂.length = count := by
    rw [htake, length_append, length_cons] at hfull
    omega
  have hnone : ∀ {k : List α}, (∀ x ∈ k, ¬ taken x) → k.countP taken = 0 :=
    fun h => countP_eq_zero.2 h
  refine ⟨l₁ ++ l₂, l₃ ++ l₄, l₅, by simp, ?_, ?_⟩
  · rw [countP_append, hnone hl₂, countP_eq_length_filter, hf₁]
    omega
  · rw [countP_append, hnone hl₂, countP_append, hnone hl₄,
      countP_eq_length_filter, hf₁, countP_eq_length_filter, hf₃, length_append]
    omega

/-- What is taken and what is left, when `a` and `b` come apart; they can change places. -/
theorem take_drop_of_parted {l₁ l₂ : List α} (a b : α) (l₃ : List α) (ha : taken a) (hb : taken b)
    (hlt : l₁.countP taken < count) (hle : count ≤ l₁.countP taken + 1 + l₂.countP taken) :
    ∃ before between after rest : List α,
      (((l₁ ++ a :: (l₂ ++ b :: l₃)).filter taken).take count = before ++ a :: between
        ∧ ((l₁ ++ a :: (l₂ ++ b :: l₃)).filter taken).drop count = after ++ b :: rest)
      ∧ ((l₁ ++ b :: (l₂ ++ a :: l₃)).filter taken).take count = before ++ b :: between
        ∧ ((l₁ ++ b :: (l₂ ++ a :: l₃)).filter taken).drop count = after ++ a :: rest := by
  rw [countP_eq_length_filter] at hlt
  rw [countP_eq_length_filter, countP_eq_length_filter] at hle
  have hsplit : ∀ x y : α, taken x → taken y →
      ((l₁ ++ x :: (l₂ ++ y :: l₃)).filter taken)
        = (l₁.filter taken ++ x :: (l₂.filter taken).take (count - (l₁.filter taken).length - 1))
          ++ ((l₂.filter taken).drop (count - (l₁.filter taken).length - 1)
            ++ y :: l₃.filter taken) := by
    intro x y hx hy
    have hparts := take_append_drop (count - (l₁.filter taken).length - 1) (l₂.filter taken)
    simp only [filter_append, filter_cons_of_pos hx, filter_cons_of_pos hy,
      append_assoc, cons_append]
    rw [← append_assoc (take _ _), hparts]
  have hlength : ∀ x : α, (l₁.filter taken
      ++ x :: (l₂.filter taken).take (count - (l₁.filter taken).length - 1)).length = count := by
    intro x
    rw [length_append, length_cons, length_take]
    omega
  refine ⟨l₁.filter taken, (l₂.filter taken).take (count - (l₁.filter taken).length - 1),
    (l₂.filter taken).drop (count - (l₁.filter taken).length - 1), l₃.filter taken,
    ⟨?_, ?_⟩, ?_, ?_⟩
  · rw [hsplit a b ha hb, take_left' (hlength a)]
  · rw [hsplit a b ha hb, drop_left' (hlength a)]
  · rw [hsplit b a hb ha, take_left' (hlength b)]
  · rw [hsplit b a hb ha, drop_left' (hlength b)]

/-- In an ordered list, what comes before an element is not behind it. -/
theorem countP_ahead_le (taken : α → Bool) {l₁ l₃ : List α} (haa : 0 ≤ cmp a a)
    (hord : Orders cmp (l₁ ++ a :: l₃)) (hsorted : ∀ x ∈ l₃, cmp a x ≤ 0) :
    (l₁ ++ a :: l₃).countP (fun x => taken x && decide (cmp x a < 0)) ≤ l₁.countP taken := by
  have hnone : (a :: l₃).countP (fun x => taken x && decide (cmp x a < 0)) = 0 := by
    refine countP_eq_zero.2 fun x hx => ?_
    simp only [Bool.and_eq_true, decide_eq_true_eq, not_and, not_lt]
    rintro -
    rcases mem_cons.1 hx with rfl | hx
    · exact haa
    · have hsub : [a, x].Subperm (l₁ ++ a :: l₃) :=
        ((subperm_cons a).2 (singleton_subperm_iff.2 hx)).trans
          (sublist_append_right l₁ (a :: l₃)).subperm
      have hsymm := hord.symm' hsub
      have hax := hsorted x hx
      omega
  rw [countP_append, hnone, Nat.add_zero]
  exact countP_mono_left fun x _ h => by simp_all

theorem countP_behind_le (taken : α → Bool) {l₁ l₃ : List α} (hbb : 0 ≤ cmp b b)
    (hord : Orders cmp (l₁ ++ b :: l₃)) (hsorted : ∀ x ∈ l₁, cmp x b ≤ 0) :
    (l₁ ++ b :: l₃).countP (fun x => taken x && decide (cmp b x < 0)) ≤ l₃.countP taken := by
  have hnone : ∀ x ∈ l₁ ++ [b], ¬ (taken x && decide (cmp b x < 0)) := by
    intro x hx
    simp only [Bool.and_eq_true, decide_eq_true_eq, not_and, not_lt]
    rintro -
    rcases mem_append.1 hx with hx | hx
    · have hsub : [x, b].Subperm (l₁ ++ b :: l₃) :=
        ((singleton_sublist.2 hx).append (singleton_sublist.2 (mem_cons_self
          (a := b) (l := l₃)))).subperm
      have hsymm := hord.symm' hsub
      have hxb := hsorted x hx
      omega
    · rw [mem_singleton.1 hx]
      exact hbb
  rw [append_cons, countP_append, countP_eq_zero.2 hnone, Nat.zero_add]
  exact countP_mono_left fun x _ h => by simp_all

/-- What can come apart is a matter of the list. -/
theorem Separable.congr {taken' : α → Bool} {cmp' : α → α → ℤ} (hal : a ∈ l) (hbl : b ∈ l)
    (htaken : ∀ x ∈ l, taken' x = taken x) (hcmp : ∀ x ∈ l, ∀ y ∈ l, cmp' x y = cmp x y)
    (h : Separable taken count a b cmp l) : Separable taken' count a b cmp' l := by
  have hord : Orders cmp' l → Orders cmp l := fun hord => by
    refine Orders.of_map (f := id) (fun x hx y hy => hcmp x hx y hy) ?_
    rwa [map_id]
  have hcount : l.countP taken' = l.countP taken :=
    countP_congr fun x hx => by rw [htaken x hx]
  have hahead : l.countP (fun x => taken' x && decide (cmp' x a < 0))
      = l.countP (fun x => taken x && decide (cmp x a < 0)) :=
    countP_congr fun x hx => by rw [htaken x hx, hcmp x hx a hal]
  have hbehind : l.countP (fun x => taken' x && decide (cmp' b x < 0))
      = l.countP (fun x => taken x && decide (cmp b x < 0)) :=
    countP_congr fun x hx => by rw [htaken x hx, hcmp b hbl x hx]
  refine ⟨h.pos, hcount ▸ h.lt, fun h' => ?_, fun h' => ?_, fun h' => ?_⟩
  · rw [hcmp a hal b hbl]
    exact h.le (hord h')
  · rw [hahead]
    exact h.ahead (hord h')
  · rw [hbehind, hcount]
    exact h.behind (hord h')

theorem countP_parts (l₁ l₂ l₃ : List α) (ha : taken a) (hb : taken b) :
    (l₁ ++ a :: (l₂ ++ b :: l₃)).countP taken
      = l₁.countP taken + 1 + l₂.countP taken + 1 + l₃.countP taken := by
  rw [countP_append, countP_cons_of_pos ha, countP_append, countP_cons_of_pos hb]
  omega

theorem separable_of_parted (ha : taken a) (hb : taken b) (haa : 0 ≤ cmp a a) (hbb : 0 ≤ cmp b b)
    {l' : List α} (harr : Arrangement cmp l l') (hparted : Parted taken count a b l') :
    Separable taken count a b cmp l := by
  obtain ⟨l₁, l₂, l₃, rfl, hlt, hle⟩ := hparted
  have hcount := countP_parts l₁ l₂ l₃ ha hb
  rw [harr.perm.countP_eq] at hcount
  have hsorted : Orders cmp l → (∀ x ∈ l₂ ++ b :: l₃, cmp a x ≤ 0)
      ∧ ∀ x ∈ l₁ ++ a :: l₂, cmp x b ≤ 0 := by
    intro hord
    have hpair := harr.sorted hord
    refine ⟨fun x hx => ?_, fun x hx => ?_⟩
    · exact (pairwise_cons.1 (pairwise_append.1 hpair).2.1).1 x hx
    · rw [← cons_append, ← append_assoc] at hpair
      exact (pairwise_append.1 hpair).2.2 x hx b mem_cons_self
  refine ⟨by omega, by omega, fun hord => ?_, fun hord => ?_, fun hord => ?_⟩
  · exact (hsorted hord).1 b (by simp)
  · have hord' := hord.of_perm harr.perm.symm
    have hahead := countP_ahead_le taken haa hord' (hsorted hord).1
    rw [harr.perm.countP_eq] at hahead
    omega
  · have hord' := hord.of_perm harr.perm.symm
    rw [← cons_append, ← append_assoc] at hord'
    have hbehind := countP_behind_le taken hbb hord' (hsorted hord).2
    rw [append_assoc, cons_append, harr.perm.countP_eq] at hbehind
    omega

theorem exists_parted (ha : taken a) (hb : taken b) (hal : a ∈ l) (hbl : b ∈ l) (hne : a ≠ b)
    (h : Separable taken count a b cmp l) :
    ∃ l', Arrangement cmp l l' ∧ Parted taken count a b l' := by
  classical
  by_cases hord : Orders cmp l
  · -- `a` before its equals, `b` behind them
    obtain ⟨l', harr, hranked⟩ :=
      exists_ranked hord fun x => if x = a then 0 else if x = b then 2 else 1
    have hab := h.le hord
    have hsub : [a, b].Subperm l :=
      (nodup_cons.2 ⟨by simpa using hne, by simp⟩ : [a, b].Nodup).subperm (by simp [hal, hbl])
    have hsymm := hord.symm' hsub
    obtain ⟨l₁, r₁, rfl, ha₁⟩ := eq_append_cons_of_mem (harr.perm.mem_iff.2 hal)
    obtain ⟨-, hr₁, hl₁⟩ := pairwise_append.1 hranked
    have hahead : ∀ x ∈ l₁, cmp x a < 0 := by
      intro x hx
      have hxa : x ≠ a := fun heq => ha₁ (heq ▸ hx)
      have hrank := hl₁ x hx a mem_cons_self
      simp only [hxa, if_false, if_true] at hrank
      split_ifs at hrank <;> omega
    have hbr : b ∈ r₁ := by
      rcases mem_append.1 (harr.perm.mem_iff.2 hbl) with hb₁ | hb₁
      · have := hahead b hb₁
        omega
      · exact (mem_cons.1 hb₁).resolve_left hne.symm
    obtain ⟨r₂, r₃, hr₂, hb₂⟩ := eq_append_cons_of_mem (mem_reverse.2 hbr)
    obtain rfl : r₁ = r₃.reverse ++ b :: r₂.reverse := by
      rw [← reverse_reverse r₁, hr₂]
      simp
    have hbehind : ∀ x ∈ r₂.reverse, cmp b x < 0 := by
      intro x hx
      have hxb : x ≠ b := fun heq => hb₂ (heq ▸ mem_reverse.1 hx)
      have hrank := (pairwise_cons.1 (pairwise_append.1 (pairwise_cons.1 hr₁).2).2.1).1 x hx
      simp only [hne.symm, hxb, if_false, if_true] at hrank
      split_ifs at hrank <;> omega
    have hcount := countP_parts l₁ r₃.reverse r₂.reverse ha hb
    have h₁ : l₁.countP taken ≤ l.countP (fun x => taken x && decide (cmp x a < 0)) := by
      rw [← harr.perm.countP_eq, countP_append]
      have hle := countP_mono_left (p := taken)
        (q := fun x => taken x && decide (cmp x a < 0)) (l := l₁)
        fun x hx htaken => by simp [htaken, hahead x hx]
      omega
    have h₃ : r₂.reverse.countP taken ≤ l.countP (fun x => taken x && decide (cmp b x < 0)) := by
      rw [← harr.perm.countP_eq, append_cons, ← append_assoc, append_cons, countP_append]
      have hle := countP_mono_left (p := taken)
        (q := fun x => taken x && decide (cmp b x < 0)) (l := r₂.reverse)
        fun x hx htaken => by simp [htaken, hbehind x hx]
      omega
    have hlt := h.ahead hord
    have hgt := h.behind hord
    rw [harr.perm.countP_eq] at hcount
    exact ⟨_, harr, l₁, r₃.reverse, r₂.reverse, rfl, by omega, by omega⟩
  · -- anything goes: `a` first, `b` last
    have hba : b ∈ l.erase a := (mem_erase_of_ne hne.symm).2 hbl
    have hperm : l.Perm (a :: (l.erase a).erase b ++ [b]) :=
      (perm_cons_erase hal).trans
        (((perm_cons_erase hba).trans (perm_append_singleton b _).symm).cons a)
    have hcount := countP_parts [] ((l.erase a).erase b) [] ha hb
    have hlt := h.lt
    have hpos := h.pos
    rw [hperm.countP_eq] at hlt
    simp only [nil_append, countP_nil, cons_append] at hcount hlt
    refine ⟨_, ⟨hperm.symm, fun h => absurd h hord⟩, [], (l.erase a).erase b, [], rfl, hpos, ?_⟩
    rw [countP_nil]
    omega

end

/-! ### Exchanging what is taken -/

section
variable {κ : Type} {R H R' H' : Multiset α}

/-- Two selections of the same size differ by an exchange. -/
theorem exists_exchange (h : R + H = R' + H') (hcard : R.card = R'.card) :
    ∃ C D D', R = C + D ∧ R' = C + D' ∧ D.card = D'.card ∧ D ≤ H' ∧ D' ≤ H := by
  classical
  have hR : R = R ∩ R' + (R - R') := by rw [add_comm, Multiset.sub_add_inter]
  have hR' : R' = R ∩ R' + (R' - R) := by
    rw [Multiset.inter_comm, add_comm, Multiset.sub_add_inter]
  refine ⟨R ∩ R', R - R', R' - R, hR, hR', ?_, ?_, ?_⟩
  · have hcardR := congrArg Multiset.card hR
    have hcardR' := congrArg Multiset.card hR'
    rw [Multiset.card_add] at hcardR hcardR'
    omega
  · rw [Multiset.sub_le_iff_le_add, add_comm, ← h]
    exact Multiset.le_add_right R H
  · rw [Multiset.sub_le_iff_le_add, add_comm, h]
    exact Multiset.le_add_right R' H'

theorem sum_map_le_of_forall {D D' : Multiset α} (w : α → ℕ) (hcard : D.card = D'.card)
    (h : ∀ x ∈ D, ∀ y ∈ D', w x ≤ w y) : (D.map w).sum ≤ (D'.map w).sum := by
  induction D using Multiset.induction_on generalizing D' with
  | empty => simp
  | cons x D ih =>
    obtain ⟨y, hy⟩ := Multiset.card_pos_iff_exists_mem.1 (show 0 < D'.card by
      rw [← hcard, Multiset.card_cons]
      omega)
    obtain ⟨D'', rfl⟩ := Multiset.exists_cons_of_mem hy
    rw [Multiset.map_cons, Multiset.map_cons, Multiset.sum_cons, Multiset.sum_cons]
    refine Nat.add_le_add (h x (Multiset.mem_cons_self x D) y hy) (ih (by simpa using hcard) ?_)
    exact fun u hu v hv => h u (Multiset.mem_cons_of_mem hu) v (Multiset.mem_cons_of_mem hv)

theorem sum_le_of_exchange (w : α → ℕ) (h : R + H = R' + H') (hcard : R.card = R'.card)
    (hle : ∀ x ∈ R, ∀ y ∈ H, w x ≤ w y) : (R.map w).sum ≤ (R'.map w).sum := by
  obtain ⟨C, D, D', rfl, rfl, hD, -, hD'⟩ := exists_exchange h hcard
  have hsum := sum_map_le_of_forall w hD fun x hx y hy =>
    hle x (Multiset.mem_add.2 (.inr hx)) y (Multiset.mem_of_le hD' hy)
  simp only [Multiset.map_add, Multiset.sum_add]
  omega

theorem sum_ge_of_exchange (w : α → ℕ) (h : R + H = R' + H') (hcard : R.card = R'.card)
    (hge : ∀ x ∈ R, ∀ y ∈ H, w y ≤ w x) : (R'.map w).sum ≤ (R.map w).sum := by
  obtain ⟨C, D, D', rfl, rfl, hD, -, hD'⟩ := exists_exchange h hcard
  have hsum := sum_map_le_of_forall w hD.symm fun y hy x hx =>
    hge x (Multiset.mem_add.2 (.inr hx)) y (Multiset.mem_of_le hD' hy)
  simp only [Multiset.map_add, Multiset.sum_add]
  omega

/-- **Two selections without a wrong exchange look the same.** -/
theorem map_eq_of_exchange (w : α → ℕ) (key : α → κ) (h : R + H = R' + H')
    (hcard : R.card = R'.card)
    (hR : ∀ x ∈ R, ∀ y ∈ H, w x < w y ∨ w x = w y ∧ key x = key y)
    (hR' : ∀ x ∈ R', ∀ y ∈ H', w x < w y ∨ w x = w y ∧ key x = key y) :
    R.map key = R'.map key := by
  obtain ⟨C, D, D', rfl, rfl, hD, hDH', hD'H⟩ := exists_exchange h hcard
  have hkey : ∀ x ∈ D, ∀ y ∈ D', key x = key y := by
    intro x hx y hy
    have hxy := hR x (Multiset.mem_add.2 (.inr hx)) y (Multiset.mem_of_le hD'H hy)
    have hyx := hR' y (Multiset.mem_add.2 (.inr hy)) x (Multiset.mem_of_le hDH' hx)
    rcases hxy with hlt | ⟨-, heq⟩
    · omega
    · exact heq
  rw [Multiset.map_add, Multiset.map_add]
  congr 1
  rcases Multiset.empty_or_exists_mem D with rfl | ⟨x, hx⟩
  · rw [Multiset.card_zero, eq_comm, Multiset.card_eq_zero] at hD
    rw [hD]
  · obtain ⟨y, hy⟩ := Multiset.card_pos_iff_exists_mem.1 (hD ▸ Multiset.card_pos_iff_exists_mem.2
      ⟨x, hx⟩)
    have hconst : ∀ z ∈ D, key z = key x := fun z hz => (hkey z hz y hy).trans (hkey x hx y hy).symm
    rw [Multiset.map_congr rfl hconst, Multiset.map_congr rfl fun z hz => (hkey x hx z hz).symm,
      Multiset.map_const', Multiset.map_const', hD]

end

/-! ### The sum of the largest -/

/-- The sum of the `count` largest. -/
def largest (count : ℕ) (l : List ℕ) : ℕ := ((l.insertionSort (· ≥ ·)).take count).sum

section
variable {l l' : List ℕ} {count : ℕ}

theorem sum_take_le_of_perm (h : l'.Perm l) (hge : ∀ x ∈ l.take count, ∀ y ∈ l.drop count, y ≤ x) :
    (l'.take count).sum ≤ (l.take count).sum := by
  have hparts : ((l.take count : List ℕ) : Multiset ℕ) + (l.drop count : List ℕ)
      = (l'.take count : List ℕ) + (l'.drop count : List ℕ) := by
    rw [Multiset.coe_add, Multiset.coe_add, take_append_drop, take_append_drop,
      Multiset.coe_eq_coe.2 h]
  have hle := sum_ge_of_exchange id hparts (by simp [h.length_eq]) (by simpa using hge)
  simpa using hle

theorem sum_take_le_largest (count : ℕ) (h : l'.Perm l) :
    (l'.take count).sum ≤ largest count l := by
  refine sum_take_le_of_perm (h.trans (perm_insertionSort _ l).symm) ?_
  have hsorted := List.pairwise_insertionSort (· ≥ ·) l
  rw [← take_append_drop count (l.insertionSort (· ≥ ·))] at hsorted
  exact (pairwise_append.1 hsorted).2.2

/-- **The first ones are the largest** exactly when no larger one comes behind them. -/
theorem sum_take_eq_largest_iff (h : l'.Perm l) : (l'.take count).sum = largest count l
    ↔ ∀ x ∈ l'.take count, ∀ y ∈ l'.drop count, y ≤ x := by
  constructor
  · intro heq x hx y hy
    by_contra hlt
    have hparted : Parted (fun _ => true) count x y l' :=
      parted_of_mem (by simpa using hx) (by simpa using hy)
    obtain ⟨l₁, l₂, l₃, rfl, hbefore, hbehind⟩ := hparted
    obtain ⟨before, between, after, rest, ⟨htake, -⟩, htake', -⟩ :=
      take_drop_of_parted x y l₃ (by rfl) (by rfl) hbefore hbehind
    have hle := sum_take_le_largest count ((perm_swap x y l₁ l₂ l₃).trans h)
    simp only [filter_true] at htake htake'
    rw [htake, sum_append, sum_cons] at heq
    rw [htake', sum_append, sum_cons] at hle
    omega
  · intro hge
    refine le_antisymm (sum_take_le_largest count h) ?_
    exact sum_take_le_of_perm ((perm_insertionSort _ l).trans h.symm) hge

end

end Selection
end Komodo
