/-
# Reading values off a stream

A reader takes a value off the front of a list of items and leaves the rest; it
is a `StateT` computation over `Option`. `Reads r written a` says that `r` takes
exactly `written` and finds `a`, whatever follows. `Extensible r` says that `r`
does not look past what it takes: more items behind do not change what it finds.

Both are kept by sequencing (`Reads.bind`, `Extensible.bind`), so that a reader
of a record is treated field by field. `Reads.eq_nil_of_prefix` combines them: of
what was written no strict prefix is read.

`Codec r write Ok` says that the values that satisfy `Ok` are read from what is
written for them and from nothing else; `Codec.bind_eq_some` takes one field off a
record. `RoundTrips r write Ok` asks for less: what else `r` finds those values in is left open.
-/

import Mathlib.Tactic

namespace Komodo
namespace Streams

variable {B α β : Type}

/-- A reader of values of `α` off a stream of `B`. -/
abbrev Reader (B α : Type) := StateT (List B) Option α

theorem bind_apply (r : Reader B α) (f : α → Reader B β) (s : List B) :
    (r >>= f) s = (r s).bind fun p => f p.1 p.2 := rfl

theorem pure_apply (a : α) (s : List B) : (pure a : Reader B α) s = some (a, s) := rfl

theorem map_apply (f : α → β) (r : Reader B α) (s : List B) :
    (f <$> r) s = (r s).map fun p => (f p.1, p.2) := by
  rcases h : r s with _ | ⟨a, s'⟩ <;> simp [Functor.map, StateT.map, h]

/-! ### Reading what was written -/

/-- `r` takes `written` off the front and finds `a`. -/
def Reads (r : Reader B α) (written : List B) (a : α) : Prop :=
  ∀ s, r (written ++ s) = some (a, s)

theorem reads_pure (a : α) : Reads (pure a : Reader B α) [] a := fun _ => rfl

variable {r : Reader B α}

theorem Reads.bind {f : α → Reader B β} {written written' : List B} {a : α}
    {b : β} (h : Reads r written a) (h' : Reads (f a) written' b) :
    Reads (r >>= f) (written ++ written') b := by
  intro s
  rw [List.append_assoc, bind_apply, h]
  exact h' s

theorem Reads.map {written : List B} {a : α} (h : Reads r written a)
    (f : α → β) : Reads (f <$> r) written (f a) := by
  intro s
  rw [map_apply, h]
  rfl

theorem Reads.apply {written : List B} {a : α} (h : Reads r written a) :
    r written = some (a, []) := by
  simpa using h []

/-! ### Not looking ahead -/

/-- `r` does not look past what it takes. -/
def Extensible (r : Reader B α) : Prop :=
  ∀ s a s', r s = some (a, s') → ∀ t, r (s ++ t) = some (a, s' ++ t)

theorem extensible_pure (a : α) : Extensible (pure a : Reader B α) := by
  rintro s b s' h t
  cases h
  rfl

theorem Extensible.bind {f : α → Reader B β} (h : Extensible r)
    (h' : ∀ a, Extensible (f a)) : Extensible (r >>= f) := by
  intro s b s' hs t
  rw [bind_apply] at hs ⊢
  obtain ⟨⟨a, s₁⟩, hr, hf⟩ := Option.bind_eq_some_iff.1 hs
  rw [h s a s₁ hr t]
  exact h' a s₁ b s' hf t

theorem Extensible.map (h : Extensible r) (f : α → β) :
    Extensible (f <$> r) := by
  intro s b s' hs t
  rw [map_apply] at hs ⊢
  obtain ⟨⟨a, s₁⟩, hr, hf⟩ := Option.map_eq_some_iff.1 hs
  obtain ⟨rfl, rfl⟩ := Prod.mk.inj hf
  rw [h s a s₁ hr t]
  rfl

theorem Reads.eq_nil_of_prefix {a b : α} {before after s' : List B}
    (h : Reads r (before ++ after) a) (hr : Extensible r) (hs : r before = some (b, s')) :
    after = [] := by
  have heq := (hr before b s' hs after).symm.trans h.apply
  exact (List.append_eq_nil_iff.1 (Prod.mk.inj (Option.some.inj heq)).2).2

/-! ### Readers with a writer -/

/-- `r` finds `a` at the front of what `write a` wrote and nowhere else, for the values with `Ok`
and for no others. -/
structure Codec (r : Reader B α) (write : α → List B) (Ok : α → Prop) : Prop where
  reads : ∀ {a}, Ok a → Reads r (write a) a
  exact : ∀ {s a s'}, r s = some (a, s') → s = write a ++ s' ∧ Ok a

namespace Codec

variable {r : Reader B α} {write : α → List B} {Ok : α → Prop}

theorem eq_some (h : Codec r write Ok) {s s' : List B} {a : α} :
    r s = some (a, s') ↔ Ok a ∧ s = write a ++ s' := by
  constructor
  · intro hr
    obtain ⟨hs, ha⟩ := h.exact hr
    exact ⟨ha, hs⟩
  · rintro ⟨ha, rfl⟩
    exact h.reads ha s'

theorem of_eq_some (h : ∀ s s' a, r s = some (a, s') ↔ Ok a ∧ s = write a ++ s') :
    Codec r write Ok :=
  ⟨fun ha s => (h _ s _).2 ⟨ha, rfl⟩, fun hr => ((h _ _ _).1 hr).symm⟩

theorem bind_eq_some (h : Codec r write Ok) {f : α → Reader B β} {s s' : List B} {b : β} :
    (r >>= f) s = some (b, s') ↔ ∃ a, Ok a ∧ ∃ t, s = write a ++ t ∧ f a t = some (b, s') := by
  rw [bind_apply, Option.bind_eq_some_iff]
  constructor
  · rintro ⟨⟨a, t⟩, hr, hf⟩
    obtain ⟨ha, hs⟩ := h.eq_some.1 hr
    exact ⟨a, ha, t, hs, hf⟩
  · rintro ⟨a, ha, t, rfl, hf⟩
    exact ⟨(a, t), h.reads ha t, hf⟩

end Codec

/-! ### Readers of records, field by field -/

/-- What is left of the reader of a record once the fields that `Known` speaks of are read: it finds
what `write` writes of the record, and `Ok` says which values that may have. -/
def ReadsRest (r : Reader B β) (write : β → List B) (Known Ok : β → Prop) : Prop :=
  ∀ s s' b, r s = some (b, s') ↔ (Known b ∧ Ok b) ∧ s = write b ++ s'

namespace ReadsRest

variable {write : β → List B} {Known Ok : β → Prop}

theorem field (get : β → α) {r : Reader B α} {writeField : α → List B} {OkField : α → Prop}
    (h : Codec r writeField OkField) {f : α → Reader B β}
    (hf : ∀ a, ReadsRest (f a) write (fun b => Known b ∧ a = get b) Ok) :
    ReadsRest (r >>= f) (fun b => writeField (get b) ++ write b) Known
      (fun b => OkField (get b) ∧ Ok b) := by
  intro s s' b
  rw [h.bind_eq_some]
  constructor
  · rintro ⟨a, ha, t, rfl, hrest⟩
    obtain ⟨⟨⟨hknown, rfl⟩, hok⟩, rfl⟩ := (hf a _ _ _).1 hrest
    exact ⟨⟨hknown, ha, hok⟩, (List.append_assoc _ _ _).symm⟩
  · rintro ⟨⟨hknown, ha, hok⟩, rfl⟩
    exact ⟨get b, ha, _, List.append_assoc _ _ _, (hf _ _ _ _).2 ⟨⟨⟨hknown, rfl⟩, hok⟩, rfl⟩⟩

theorem done {a : β} (h : ∀ b, Known b ↔ a = b := by rintro ⟨⟩; simp [and_assoc]) :
    ReadsRest (pure a : Reader B β) (fun _ => []) Known fun _ => True := by
  intro s s' b
  rw [pure_apply, Option.some.injEq, Prod.mk.injEq, h, and_true, List.nil_append]

theorem codec {r : Reader B β} {write' : β → List B} {Ok' : β → Prop}
    (h : ReadsRest r write (fun _ => True) Ok) (hwrite : ∀ b, Ok' b → write' b = write b)
    (hok : ∀ b, Ok' b ↔ Ok b) : Codec r write' Ok' := by
  refine Codec.of_eq_some fun s s' b => ?_
  rw [h s s' b, true_and, ← hok]
  exact and_congr_right fun hb => by rw [hwrite b hb]

end ReadsRest

/-! ### Reading back -/

/-- `r` finds `a` in what `write a` wrote, and leaves the rest, for the values with `Ok` and for no
others. What else it finds `a` in is left open. -/
def RoundTrips (r : Reader B α) (write : α → List B) (Ok : α → Prop) : Prop :=
  ∀ a s s', r (write a ++ s) = some (a, s') ↔ Ok a ∧ s' = s

section
variable {r : Reader B α} {write : α → List B} {Ok : α → Prop}

theorem Codec.roundTrips (h : Codec r write Ok) : RoundTrips r write Ok := by
  intro a s s'
  rw [h.eq_some, List.append_cancel_left_eq, eq_comm]

theorem Codec.extensible (h : Codec r write Ok) : Extensible r := by
  intro s a s' hs t
  obtain ⟨rfl, ha⟩ := h.exact hs
  rw [List.append_assoc]
  exact h.reads ha _

/-- The first field of a record `b`, of which the rest is read by `f`. -/
theorem RoundTrips.bind_eq_some (h : RoundTrips r write Ok) {f : α → Reader B β} (field : β → α)
    (hf : ∀ a t b s', f a t = some (b, s') → field b = a) {b : β} {t s' : List B} :
    (r >>= f) (write (field b) ++ t) = some (b, s') ↔
      Ok (field b) ∧ f (field b) t = some (b, s') := by
  rw [bind_apply, Option.bind_eq_some_iff]
  constructor
  · rintro ⟨⟨a, t'⟩, hr, hrest⟩
    obtain rfl := hf a t' b s' hrest
    obtain ⟨ha, rfl⟩ := (h _ _ _).1 hr
    exact ⟨ha, hrest⟩
  · rintro ⟨ha, hrest⟩
    exact ⟨(field b, t), (h _ _ _).2 ⟨ha, rfl⟩, hrest⟩

end

end Streams
end Komodo
