/-
# Signed arithmetic that must not overflow

`int64_t` arithmetic whose result is undefined outside of the range of the type, and sums of
amounts of which every one, and every sum on the way, has to lie between zero and a limit
(`InRange`).

A computation in `Except` either overflows, or ends otherwise; `Ensures` says that it does not
overflow and that what it returns is as it should be, and composes over `bind` and over a loop.
A loop that adds an amount before it looks at it (`addFirst`) overflows at the first amount that
takes a sum in range out of `int64_t`, and only there (`foldlM_addFirst_ne_over`).
-/

import Mathlib.Tactic

namespace Komodo
namespace Overflow

open List

/-- A result of `int64_t` arithmetic; `none` when it overflows. -/
def int64 (n : ℤ) : Option ℤ := if -2 ^ 63 ≤ n ∧ n < 2 ^ 63 then some n else none

variable {sum n : ℤ}

theorem int64_of_range (hlow : -2 ^ 63 ≤ n) (hhigh : n < 2 ^ 63) : int64 n = some n :=
  if_pos ⟨hlow, hhigh⟩

theorem int64_eq_none (h : 2 ^ 63 ≤ n) : int64 n = none :=
  if_neg fun hrange => absurd hrange.2 (Int.not_lt.2 h)

/-! ### Computations that do not overflow -/

section Ensures

variable {ε α β : Type} {fault : ε}

/-- The computation does not end with `fault`, and what it returns satisfies `P`. -/
def Ensures (fault : ε) (x : Except ε α) (P : α → Prop) : Prop :=
  match x with
  | .ok a => P a
  | .error e => e ≠ fault

variable {x : Except ε α}

theorem Ensures.ne {P : α → Prop} (h : Ensures fault x P) : x ≠ .error fault := by
  rintro rfl
  exact h rfl

theorem Ensures.of_eq_ok {P : α → Prop} {a : α} (h : Ensures fault x P)
    (hx : x = .ok a) : P a := by
  subst hx
  exact h

theorem Ensures.mono {P Q : α → Prop} (h : Ensures fault x P)
    (himp : ∀ a, P a → Q a) : Ensures fault x Q := by
  cases x with
  | error e => exact h
  | ok a => exact himp a h

theorem Ensures.bind {f : α → Except ε β} {P : α → Prop} {Q : β → Prop}
    (h : Ensures fault x P) (hf : ∀ a, P a → Ensures fault (f a) Q) :
    Ensures fault (x >>= f) Q := by
  cases x with
  | error e => exact h
  | ok a => exact hf a h

theorem bind_congr_ok {f g : α → Except ε β} (h : ∀ a, x = .ok a → f a = g a) :
    x >>= f = x >>= g := by
  cases x with
  | error e => rfl
  | ok a => exact h a rfl

/-- **A loop keeps what holds of the part that it has gone through.** -/
theorem ensures_foldlM_from (I : List α → β → Prop) {step : β → α → Except ε β} {as : List α}
    (hstep : ∀ front, ∀ a ∈ as, ∀ b, I front b → Ensures fault (step b a) (I (front ++ [a])))
    {front : List α} {b : β} (h : I front b) :
    Ensures fault (as.foldlM step b) (I (front ++ as)) := by
  induction as generalizing front b with
  | nil =>
    rw [append_nil]
    exact h
  | cons a as ih =>
    rw [foldlM_cons]
    refine (hstep front a mem_cons_self b h).bind fun b' hb' => ?_
    have hrest := ih (fun front a ha => hstep front a (mem_cons_of_mem _ ha)) hb'
    rwa [append_assoc] at hrest

theorem ensures_foldlM (I : List α → β → Prop) {step : β → α → Except ε β} {as : List α} {b : β}
    (hstep : ∀ front, ∀ a ∈ as, ∀ b, I front b → Ensures fault (step b a) (I (front ++ [a])))
    (h : I [] b) : Ensures fault (as.foldlM step b) (I as) :=
  ensures_foldlM_from I hstep h

end Ensures

/-! ### Sums in range -/

variable {limit : ℤ}

/-- Between zero and the limit. -/
def Within (limit n : ℤ) : Prop := 0 ≤ n ∧ n ≤ limit

instance (limit n : ℤ) : Decidable (Within limit n) := inferInstanceAs (Decidable (_ ∧ _))

/-- The amounts and the sums on the way, from `sum` on, are within the limit. -/
def InRange (limit : ℤ) : (sum : ℤ) → List ℤ → Prop
  | _, [] => True
  | sum, n :: ns => Within limit n ∧ Within limit (sum + n) ∧ InRange limit (sum + n) ns

theorem inRange_append {front rest : List ℤ} :
    InRange limit sum (front ++ rest) ↔
      InRange limit sum front ∧ InRange limit (sum + front.sum) rest := by
  induction front generalizing sum with
  | nil => simp [InRange]
  | cons n front ih =>
    rw [cons_append, InRange, InRange, ih, sum_cons, Int.add_assoc, and_assoc, and_assoc]

variable {ns : List ℤ}

/-- **Only the total counts**, so amounts may be added in any order. -/
theorem inRange_iff (hsum : 0 ≤ sum) :
    InRange limit sum ns ↔ (∀ n ∈ ns, 0 ≤ n) ∧ (ns = [] ∨ sum + ns.sum ≤ limit) := by
  induction ns generalizing sum with
  | nil => simp [InRange]
  | cons n ns ih =>
    simp only [InRange, forall_mem_cons, sum_cons, reduceCtorEq, false_or]
    constructor
    · rintro ⟨hn, hnext, hrest⟩
      obtain ⟨hall, htotal⟩ := (ih hnext.1).1 hrest
      refine ⟨⟨hn.1, hall⟩, ?_⟩
      rcases htotal with rfl | htotal
      · rw [sum_nil, add_zero]
        exact hnext.2
      · omega
    · rintro ⟨⟨hn, hall⟩, htotal⟩
      have hrest : 0 ≤ ns.sum := sum_nonneg hall
      refine ⟨⟨hn, by omega⟩, ⟨by omega, by omega⟩, (ih (by omega)).2 ⟨hall, Or.inr (by omega)⟩⟩

theorem inRange_perm {ns ms : List ℤ} (hperm : ns.Perm ms) :
    InRange limit 0 ns ↔ InRange limit 0 ms := by
  have hempty : ns = [] ↔ ms = [] := by
    rw [← length_eq_zero_iff, hperm.length_eq, length_eq_zero_iff]
  rw [inRange_iff le_rfl, inRange_iff le_rfl, hempty, hperm.sum_eq]
  simp only [hperm.mem_iff]

theorem InRange.sum_bounds {cap : ℤ} (h : InRange limit 0 ns) (hcap : limit ≤ cap)
    (hpos : 0 ≤ cap) : 0 ≤ ns.sum ∧ ns.sum ≤ cap := by
  obtain ⟨hall, htotal⟩ := (inRange_iff le_rfl).1 h
  refine ⟨sum_nonneg hall, ?_⟩
  rcases htotal with rfl | htotal
  · exact hpos
  · omega

/-- A running sum of amounts in range. -/
structure Added (limit : ℤ) (ns : List ℤ) (sum : ℤ) : Prop where
  inRange : InRange limit 0 ns
  sum_eq : sum = ns.sum

theorem Added.nil : Added limit [] 0 := ⟨trivial, rfl⟩

variable {sum n : ℤ}

theorem Added.snoc (h : Added limit ns sum) (hn : Within limit n)
    (hnext : Within limit (sum + n)) : Added limit (ns ++ [n]) (sum + n) where
  inRange := by
    rw [inRange_append, Int.zero_add, ← h.sum_eq]
    exact ⟨h.inRange, hn, hnext, trivial⟩
  sum_eq := by rw [sum_append, sum_singleton, h.sum_eq]

/-! ### Adding first -/

variable {ε : Type} {fault outOfRange : ε}

/-- Add an amount to a sum and look at both afterwards. -/
def addFirst (fault outOfRange : ε) (limit sum n : ℤ) : Except ε ℤ :=
  match int64 (sum + n) with
  | none => .error fault
  | some total => if Within limit n ∧ Within limit total then .ok total else .error outOfRange

/-- No amount takes a sum in range out of `int64_t`. -/
def Safe (limit sum : ℤ) (ns : List ℤ) : Prop :=
  ∀ front n rest, ns = front ++ n :: rest → InRange limit sum front → sum + front.sum + n < 2 ^ 63

theorem safe_nil : Safe limit sum [] := fun _ _ _ h => by simp at h

theorem safe_cons :
    Safe limit sum (n :: ns) ↔ sum + n < 2 ^ 63 ∧
      (Within limit n → Within limit (sum + n) → Safe limit (sum + n) ns) := by
  constructor
  · intro h
    refine ⟨by simpa using h [] n ns rfl trivial, fun hn hnext front m rest hns hfront => ?_⟩
    have := h (n :: front) m rest (by rw [hns, cons_append]) ⟨hn, hnext, hfront⟩
    rw [sum_cons] at this
    omega
  · rintro ⟨hn, hrest⟩ front m rest hns hfront
    cases front with
    | nil =>
      obtain ⟨rfl, rfl⟩ := cons.inj hns
      simpa using hn
    | cons k front =>
      rw [cons_append] at hns
      obtain ⟨rfl, htail⟩ := cons.inj hns
      have := hrest hfront.1 hfront.2.1 front m rest htail hfront.2.2
      rw [sum_cons]
      omega

theorem addFirst_of_within (hlimit : limit < 2 ^ 63) (hn : Within limit n)
    (hnext : Within limit (sum + n)) : addFirst fault outOfRange limit sum n = .ok (sum + n) := by
  unfold Within at hnext
  unfold addFirst
  rw [int64_of_range (by omega) (by omega)]
  exact if_pos ⟨hn, hnext⟩

theorem addFirst_of_not_within (hlow : -2 ^ 63 ≤ sum + n) (hhigh : sum + n < 2 ^ 63)
    (h : ¬ (Within limit n ∧ Within limit (sum + n))) :
    addFirst fault outOfRange limit sum n = .error outOfRange := by
  unfold addFirst
  rw [int64_of_range hlow hhigh]
  exact if_neg h

theorem addFirst_of_over (h : 2 ^ 63 ≤ sum + n) :
    addFirst fault outOfRange limit sum n = .error fault := by
  unfold addFirst
  rw [int64_eq_none h]

theorem addFirst_nonneg {total : ℤ}
    (h : addFirst fault outOfRange limit sum n = .ok total) : 0 ≤ total := by
  unfold addFirst at h
  split at h
  · cases h
  · split_ifs at h with hwithin
    rw [← Except.ok.inj h]
    exact hwithin.2.1

theorem foldlM_addFirst_nonneg {total : ℤ} (hsum : 0 ≤ sum)
    (h : ns.foldlM (addFirst fault outOfRange limit) sum = .ok total) : 0 ≤ total := by
  induction ns generalizing sum with
  | nil => exact Except.ok.inj h ▸ hsum
  | cons n ns ih =>
    rw [foldlM_cons] at h
    cases hnext : addFirst fault outOfRange limit sum n with
    | error e =>
      rw [hnext] at h
      cases h
    | ok next =>
      rw [hnext] at h
      exact ih (addFirst_nonneg hnext) h

/-- **Amounts in range have their sum.** -/
theorem foldlM_addFirst (hlimit : limit < 2 ^ 63)
    (h : InRange limit sum ns) :
    ns.foldlM (addFirst fault outOfRange limit) sum = .ok (sum + ns.sum) := by
  induction ns generalizing sum with
  | nil => exact congrArg Except.ok (add_zero sum).symm
  | cons n ns ih =>
    rw [foldlM_cons, addFirst_of_within hlimit h.1 h.2.1, sum_cons, ← add_assoc]
    exact ih h.2.2

/-- **Adding first overflows if and only if an amount takes a sum in range out of `int64_t`.** -/
theorem foldlM_addFirst_ne_over (hne : outOfRange ≠ fault) (hlimit : limit < 2 ^ 63)
    (hsum : 0 ≤ sum) (hns : ∀ n ∈ ns, -2 ^ 63 ≤ n) :
    ns.foldlM (addFirst fault outOfRange limit) sum ≠ .error fault ↔ Safe limit sum ns := by
  induction ns generalizing sum with
  | nil => exact iff_of_true (fun h => (nomatch h)) safe_nil
  | cons n ns ih =>
    obtain ⟨hn, hrest⟩ := forall_mem_cons.1 hns
    rw [foldlM_cons, safe_cons]
    rcases Int.lt_or_le (sum + n) (2 ^ 63) with hlt | hover
    · rw [and_iff_right hlt]
      by_cases hwithin : Within limit n ∧ Within limit (sum + n)
      · rw [addFirst_of_within hlimit hwithin.1 hwithin.2]
        exact (ih hwithin.2.1 hrest).trans ⟨fun h _ _ => h, fun h => h hwithin.1 hwithin.2⟩
      · rw [addFirst_of_not_within (by omega) hlt hwithin]
        refine iff_of_true (fun h => hne (Except.error.inj h)) fun h₁ h₂ => ?_
        exact absurd ⟨h₁, h₂⟩ hwithin
    · rw [addFirst_of_over hover]
      exact iff_of_false (fun h => h rfl) fun h => absurd h.1 (Int.not_lt.2 hover)

end Overflow
end Komodo
