/-
# What is written tells what was meant

A writer of values as lists of items. `Separates write Ok` says that the items
written for a value with `Ok` tell the value, and where it ends, whatever follows:
of two values and what follows each, equal lists come from equal values with
equal continuations. Every writer with a reader does (`Codec.separates`).

A record is taken apart field by field with it. A list of values does too when
its length is known (`Separates.flatMap_of_length`), and without its length when
no value is written as nothing and what follows has a known length
(`Separates.flatMap`).
-/

import Komodo.Lib.Stream

namespace Komodo
namespace Streams

open List

variable {B α β : Type}

/-- The items written for a value tell the value and where it ends. -/
def Separates (write : α → List B) (Ok : α → Prop) : Prop :=
  ∀ {a b : α} {s t : List B}, Ok a → Ok b → write a ++ s = write b ++ t → a = b ∧ s = t

theorem separates_of_reads {r : Reader B α} {write : α → List B} {Ok : α → Prop}
    (h : ∀ {a}, Ok a → Reads r (write a) a) : Separates write Ok := by
  intro a b s t ha hb heq
  have hread := h ha s
  rw [heq, h hb t] at hread
  cases hread
  exact ⟨rfl, rfl⟩

theorem Codec.separates {r : Reader B α} {write : α → List B} {Ok : α → Prop}
    (h : Codec r write Ok) : Separates write Ok := separates_of_reads h.reads

namespace Separates

variable {write : α → List B} {Ok : α → Prop}

theorem inj (h : Separates write Ok) {a b : α} (ha : Ok a) (hb : Ok b) (heq : write a = write b) :
    a = b :=
  (h (s := []) (t := []) ha hb (by rw [heq])).1

theorem ite (h : Separates write Ok) {c : Bool} {a b : α} {s t : List B} (ha : c → Ok a)
    (hb : c → Ok b) (heq : (if c then write a else []) ++ s = (if c then write b else []) ++ t) :
    (c → a = b) ∧ s = t := by
  cases c with
  | true =>
    obtain ⟨hab, hst⟩ := h (ha rfl) (hb rfl) heq
    exact ⟨fun _ => hab, hst⟩
  | false => exact ⟨nofun, heq⟩

/-- As many values as there are. -/
theorem flatMap_of_length (h : Separates write Ok) {l m : List α} (hl : ∀ a ∈ l, Ok a)
    (hm : ∀ a ∈ m, Ok a) (hlen : l.length = m.length) {s t : List B}
    (heq : l.flatMap write ++ s = m.flatMap write ++ t) : l = m ∧ s = t := by
  induction l generalizing m with
  | nil =>
    obtain rfl := length_eq_zero_iff.1 hlen.symm
    exact ⟨rfl, heq⟩
  | cons a l ih =>
    cases m with
    | nil => cases hlen
    | cons b m =>
      obtain ⟨ha, hl⟩ := forall_mem_cons.1 hl
      obtain ⟨hb, hm⟩ := forall_mem_cons.1 hm
      rw [flatMap_cons, flatMap_cons, append_assoc, append_assoc] at heq
      obtain ⟨hab, hrest⟩ := h ha hb heq
      obtain ⟨hlm, hst⟩ := ih hl hm (by simpa using hlen) hrest
      exact ⟨by rw [hab, hlm], hst⟩

/-- Any number of values before something of a known length. -/
theorem flatMap (h : Separates write Ok) (hne : ∀ a, Ok a → write a ≠ []) {l m : List α}
    (hl : ∀ a ∈ l, Ok a) (hm : ∀ a ∈ m, Ok a) {s t : List B} (hlen : s.length = t.length)
    (heq : l.flatMap write ++ s = m.flatMap write ++ t) : l = m ∧ s = t := by
  -- a list that goes on is longer than one that has ended
  have hlonger : ∀ {a : α} {l : List α} {s t : List B}, Ok a → s.length = t.length →
      t ≠ (a :: l).flatMap write ++ s := by
    intro a l s t ha hlen heq
    have hcount := congrArg length heq
    have hpos := length_pos_iff.2 (hne a ha)
    rw [flatMap_cons, length_append, length_append] at hcount
    omega
  induction l generalizing m with
  | nil =>
    cases m with
    | nil => exact ⟨rfl, heq⟩
    | cons b m => exact absurd heq (hlonger (forall_mem_cons.1 hm).1 hlen.symm)
  | cons a l ih =>
    cases m with
    | nil => exact absurd heq.symm (hlonger (forall_mem_cons.1 hl).1 hlen)
    | cons b m =>
      obtain ⟨ha, hl⟩ := forall_mem_cons.1 hl
      obtain ⟨hb, hm⟩ := forall_mem_cons.1 hm
      rw [flatMap_cons, flatMap_cons, append_assoc, append_assoc] at heq
      obtain ⟨hab, hrest⟩ := h ha hb heq
      obtain ⟨hlm, hst⟩ := ih hl hm hrest
      exact ⟨by rw [hab, hlm], hst⟩

end Separates

end Streams
end Komodo
