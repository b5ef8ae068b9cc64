/-
# Rewinding the events

`komodo_event_undo` and `komodo_event_rewind` of `src/src/komodo_events.cpp`.

The events behind a height are undone and taken off, the newest first.  `komodo_event_undo` is a
template with a specialisation for `event_kmdheight`, which takes `SAVEDHEIGHT` back.  The loop
calls it with a reference to the base class `event`, so the specialisation never runs and
`SAVEDHEIGHT` stays (`rewindLoop_eq`).  That is right exactly when the oldest of the heights that
would have taken it back is the one that is saved (`rewound_iff`).
-/

import Komodo.StateFile.Events

namespace Komodo
namespace StateFile

open List

/-- The height of an event. -/
def Event.height : Event → ℤ
  | .pubkeys evt => evt.height
  | .notarized evt => evt.height
  | .u evt => evt.height
  | .kmdheight evt => evt.height
  | .opreturn evt => evt.height
  | .pricefeed evt => evt.height
  | .rewind evt => evt.height

/-- `komodo_state`; `rest` are the fields that are not named here. -/
structure KomodoState (σ : Type) where
  SAVEDHEIGHT : ℤ
  CURRENT_HEIGHT : ℤ
  SAVEDTIMESTAMP : ℕ
  events : List Event
  rest : σ
deriving DecidableEq

/-- `chainName.isKMD()`, `KOMODO_LASTMINED` and `prevKOMODO_LASTMINED`. -/
structure Mined where
  isKMD : Bool
  lastMined : ℤ
  prevLastMined : ℤ
deriving DecidableEq

variable {σ : Type}

/-- `komodo_event_undo<T>` for any other class, the base class `event` among them. -/
def komodoEventUndo (sp : KomodoState σ) (_ : Event) : KomodoState σ := sp

/-- The loop of `komodo_event_rewind`, along the events from the newest on. -/
def rewindLoop (height : ℤ) : List Event → KomodoState σ → KomodoState σ
  | [], sp => { sp with events := [] }
  | ev :: older, sp =>
    if ev.height < height then { sp with events := (ev :: older).reverse }
    else rewindLoop height older (komodoEventUndo sp ev)

def komodoEventRewind (mined : Mined) (sp : KomodoState σ) (height : ℤ) :
    Mined × KomodoState σ :=
  let mined :=
    if mined.isKMD ∧ height ≤ mined.lastMined ∧ mined.prevLastMined ≠ 0 then
      { mined with lastMined := mined.prevLastMined, prevLastMined := 0 }
    else mined
  (mined, rewindLoop height sp.events.reverse sp)

/-- The events that the loop undoes, each with `SAVEDHEIGHT` at that moment. -/
def undone (height : ℤ) : List Event → KomodoState σ → List (Event × ℤ)
  | [], _ => []
  | ev :: older, sp =>
    if ev.height < height then []
    else (ev, sp.SAVEDHEIGHT) :: undone height older (komodoEventUndo sp ev)

/-! ### What a rewind should do -/

/-- The height of an `event_kmdheight` that is undone, where it is at most `SAVEDHEIGHT`. -/
def takenBack : Event × ℤ → Option ℤ
  | (.kmdheight ev, saved) => if ev.height ≤ saved then some ev.height else none
  | _ => none

/-- The events are those up to the last one below the height, `SAVEDHEIGHT` is the last height that
was taken back, and nothing else has changed. -/
structure Rewound (mined : Mined) (sp : KomodoState σ) (height : ℤ) : Prop where
  front : (komodoEventRewind mined sp height).2.events <+: sp.events
  below : ∀ ev ∈ (komodoEventRewind mined sp height).2.events.getLast?, ev.height < height
  longest : ∀ events, events <+: sp.events → (∀ ev ∈ events.getLast?, ev.height < height) →
    events <+: (komodoEventRewind mined sp height).2.events
  saved : (komodoEventRewind mined sp height).2.SAVEDHEIGHT =
    (((undone height sp.events.reverse sp).filterMap takenBack).getLast?).getD sp.SAVEDHEIGHT
  mined_eq : (komodoEventRewind mined sp height).1 = mined
  others : (komodoEventRewind mined sp height).2.CURRENT_HEIGHT = sp.CURRENT_HEIGHT ∧
    (komodoEventRewind mined sp height).2.SAVEDTIMESTAMP = sp.SAVEDTIMESTAMP ∧
    (komodoEventRewind mined sp height).2.rest = sp.rest

/-! ### What it does -/

/-- The events behind a height, from the newest on. -/
def removed (height : ℤ) (events : List Event) : List Event :=
  events.reverse.takeWhile (height ≤ ·.height)

theorem rewindLoop_eq (height : ℤ) (events : List Event) (sp : KomodoState σ) :
    rewindLoop height events sp =
      { sp with events := (events.dropWhile (height ≤ ·.height)).reverse } := by
  induction events with
  | nil => rfl
  | cons ev older ih =>
    rw [rewindLoop]
    by_cases hbelow : ev.height < height
    · rw [if_pos hbelow, dropWhile_cons_of_neg (by simpa using hbelow)]
    · rw [if_neg hbelow, dropWhile_cons_of_pos (by simpa using hbelow)]
      exact ih

theorem undone_eq (height : ℤ) (events : List Event) (sp : KomodoState σ) :
    undone height events sp =
      (events.takeWhile (height ≤ ·.height)).map fun ev => (ev, sp.SAVEDHEIGHT) := by
  induction events with
  | nil => rfl
  | cons ev older ih =>
    rw [undone]
    by_cases hbelow : ev.height < height
    · rw [if_pos hbelow, takeWhile_cons_of_neg (by simpa using hbelow), map_nil]
    · rw [if_neg hbelow, takeWhile_cons_of_pos (by simpa using hbelow), map_cons]
      exact congrArg _ ih

theorem suffix_dropWhile {α : Type} {p : α → Bool} {suf l : List α} (h : suf <:+ l)
    (hhead : ∀ a ∈ suf.head?, p a = false) : suf <:+ l.dropWhile p := by
  induction l with
  | nil => exact h
  | cons a l ih =>
    cases hp : p a with
    | false => rwa [dropWhile_cons_of_neg (by simp [hp])]
    | true =>
      rw [dropWhile_cons_of_pos hp]
      rcases suffix_cons_iff.1 h with rfl | h
      · exact absurd (hhead a rfl) (by simp [hp])
      · exact ih h

section chain
variable {mined : Mined} (hchain : mined.isKMD = false) (sp : KomodoState σ) (height : ℤ)
include hchain

theorem komodoEventRewind_eq :
    komodoEventRewind mined sp height =
      (mined, { sp with
        events := (sp.events.reverse.dropWhile (height ≤ ·.height)).reverse }) := by
  have hnot : ¬ (mined.isKMD = true ∧ height ≤ mined.lastMined ∧ mined.prevLastMined ≠ 0) := by
    simp [hchain]
  rw [komodoEventRewind, if_neg hnot, rewindLoop_eq]

theorem rewind_front : (komodoEventRewind mined sp height).2.events <+: sp.events := by
  rw [komodoEventRewind_eq hchain, ← reverse_suffix, reverse_reverse]
  exact dropWhile_suffix _

theorem rewind_below :
    ∀ ev ∈ (komodoEventRewind mined sp height).2.events.getLast?, ev.height < height := by
  intro ev hev
  rw [komodoEventRewind_eq hchain, getLast?_reverse] at hev
  have hfails := head?_dropWhile_not (fun ev => decide (height ≤ ev.height)) sp.events.reverse
  rw [Option.mem_def.1 hev] at hfails
  simpa using hfails

theorem rewind_longest {events : List Event} (hfront : events <+: sp.events)
    (hbelow : ∀ ev ∈ events.getLast?, ev.height < height) :
    events <+: (komodoEventRewind mined sp height).2.events := by
  rw [komodoEventRewind_eq hchain, ← reverse_suffix, reverse_reverse]
  refine suffix_dropWhile (List.reverse_suffix.2 hfront) fun ev hev => ?_
  rw [head?_reverse] at hev
  simpa using hbelow ev hev

end chain

/-- **A rewind is right if and only if** the oldest of the heights behind it that are at most
`SAVEDHEIGHT` is `SAVEDHEIGHT`. -/
theorem rewound_iff {mined : Mined} (hchain : mined.isKMD = false) (sp : KomodoState σ)
    (height : ℤ) :
    Rewound mined sp height ↔
      ∀ kmdheight, ((removed height sp.events).filterMap fun ev =>
        takenBack (ev, sp.SAVEDHEIGHT)).getLast? = some kmdheight →
          kmdheight = sp.SAVEDHEIGHT := by
  have hundone : (undone height sp.events.reverse sp).filterMap takenBack =
      (removed height sp.events).filterMap fun ev => takenBack (ev, sp.SAVEDHEIGHT) := by
    rw [undone_eq, List.filterMap_map]
    rfl
  constructor
  · intro h kmdheight hlast
    have hsaved := h.saved
    rw [hundone, hlast, komodoEventRewind_eq hchain] at hsaved
    exact hsaved.symm
  · intro hlast
    refine ⟨rewind_front hchain sp height, rewind_below hchain sp height,
      fun _ => rewind_longest hchain sp height, ?_, ?_, ?_⟩
    · rw [hundone, komodoEventRewind_eq hchain]
      cases hcase : ((removed height sp.events).filterMap fun ev =>
          takenBack (ev, sp.SAVEDHEIGHT)).getLast? with
      | none => rfl
      | some kmdheight => exact (hlast kmdheight hcase).symm
    · rw [komodoEventRewind_eq hchain]
    · rw [komodoEventRewind_eq hchain]
      exact ⟨rfl, rfl, rfl⟩

/-- An asset chain that has seen height 100 of KMD, in its own blocks 10 and 60. -/
def twoHeights : KomodoState Unit where
  SAVEDHEIGHT := 100
  CURRENT_HEIGHT := 100
  SAVEDTIMESTAMP := 0
  events := [.kmdheight ⟨10, 90, 0⟩, .kmdheight ⟨60, 100, 0⟩]
  rest := ()

def assetChain : Mined := ⟨false, 0, 0⟩

/-- Nothing lies behind height 70. -/
theorem rewound_nothing : Rewound assetChain twoHeights 70 :=
  (rewound_iff rfl twoHeights 70).2 fun kmdheight hlast =>
    nomatch (show (none : Option ℤ) = some kmdheight from hlast)

/-- The height of block 60 is taken off and `SAVEDHEIGHT` stays. -/
theorem not_rewound_kept : ¬ ∀ (mined : Mined) (sp : KomodoState Unit) (height : ℤ),
    mined.isKMD = false → Rewound mined sp height := by
  intro hall
  have hsaved := (hall assetChain twoHeights 50 rfl).saved
  exact absurd hsaved (by decide)

end StateFile
end Komodo
