/-
# The status word of a block

`BlockStatus`, `CBlockIndex::IsValid` and `RaiseValidity` of `src/src/chain.h`, and what
`AddToBlockIndex`, `AcceptBlockHeader`, `AcceptBlock`, `ReceivedBlockTransactions` and `ConnectBlock`
of `src/src/main.cpp` write to `nStatus`.

The low three bits of the word are an ordered level, from `BLOCK_VALID_HEADER` to
`BLOCK_VALID_SCRIPTS`.  The flag `BLOCK_VALID_CONTEXT` is 6, two of these bits.  Nothing but a
successful `ContextualCheckBlock` sets both (`status_run`), but with both set the level is above
`BLOCK_VALID_SCRIPTS`, so a block that came with a successful check in `AcceptBlock` passes for one
whose scripts were verified (`not_scriptsValid`).

What the checks say of a block is given with each call.  A flag says whether `ConnectBlock` ever
accepted the block with `fJustCheck` false, and another whether `ContextualCheckBlock` ever succeeded.
-/

import Komodo.Primitives.Transaction

namespace Komodo
namespace StatusWord

open Option

/-- `nStatus`. -/
abbrev Word := BitVec 32

def BLOCK_VALID_HEADER : Word := 1
def BLOCK_VALID_TREE : Word := 2
def BLOCK_VALID_TRANSACTIONS : Word := 3
def BLOCK_VALID_CHAIN : Word := 4
def BLOCK_VALID_SCRIPTS : Word := 5
def BLOCK_VALID_CONTEXT : Word := 6

def BLOCK_VALID_MASK : Word :=
  BLOCK_VALID_HEADER ||| BLOCK_VALID_TREE ||| BLOCK_VALID_TRANSACTIONS ||| BLOCK_VALID_CHAIN |||
    BLOCK_VALID_SCRIPTS

def BLOCK_HAVE_DATA : Word := 8
def BLOCK_HAVE_UNDO : Word := 16
def BLOCK_FAILED_VALID : Word := 32
def BLOCK_FAILED_CHILD : Word := 64
def BLOCK_FAILED_MASK : Word := BLOCK_FAILED_VALID ||| BLOCK_FAILED_CHILD
def BLOCK_ACTIVATES_UPGRADE : Word := 128
def BLOCK_IN_TMPFILE : Word := 256

/-- `nStatus & flag`, as a condition. -/
def has (nStatus flag : Word) : Bool := nStatus &&& flag != 0

def isValid (nStatus nUpTo : Word) : Bool :=
  !has nStatus BLOCK_FAILED_MASK && decide (nStatus &&& BLOCK_VALID_MASK ≥ nUpTo)

def raiseValidity (nUpTo nStatus : Word) : Word :=
  if has nStatus BLOCK_FAILED_MASK then nStatus
  else if nStatus &&& BLOCK_VALID_MASK < nUpTo then (nStatus &&& ~~~BLOCK_VALID_MASK) ||| nUpTo
  else nStatus

/-- All bits of `BLOCK_VALID_CONTEXT` are set. -/
def hasContext (nStatus : Word) : Bool := nStatus &&& BLOCK_VALID_CONTEXT == BLOCK_VALID_CONTEXT

/-- An entry of `mapBlockIndex`: its status, whether `ConnectBlock` accepted the block, and whether
`ContextualCheckBlock` succeeded for it. -/
structure Entry where
  nStatus : Word := 0
  connected : Bool := false
  contextual : Bool := false

/-- `mapBlockIndex`. -/
abbrev BlockMap := Uint256 → Option Entry

/-- Change the status word. -/
def Entry.setStatus (pindex : Entry) (f : Word → Word) : Entry :=
  { pindex with nStatus := f pindex.nStatus }

/-- What does not change during a run. -/
structure Params where
  hashGenesisBlock : Uint256
  ASSETCHAINS_CC : ℕ

/-! ### The writers -/

/-- `AddToBlockIndex`, for a block that is not in the map. -/
def addToBlockIndex (m : BlockMap) (hash : Uint256) : BlockMap :=
  Function.update m hash (some { nStatus := raiseValidity BLOCK_VALID_TREE 0 })

def receivedBlockTransactions (pindexNew : Entry) : Entry :=
  pindexNew.setStatus fun nStatus => raiseValidity BLOCK_VALID_TRANSACTIONS (nStatus ||| BLOCK_HAVE_DATA)

/-- What `AcceptBlockHeader` meets; `futureblock` is `*futureblockp` after `CheckBlockHeader`. -/
structure HeaderChecks where
  checkBlockHeader : Bool := true
  futureblock : Bool := false
  contextualCheckBlockHeader : Bool := true

/-- `AcceptBlockHeader`: what it returns, `*futureblockp`, and the map. -/
def acceptBlockHeader (params : Params) (m : BlockMap) (hash hashPrevBlock : Uint256)
    (checks : HeaderChecks) (futureblock : Bool) : Bool × Bool × BlockMap :=
  match m hash with
  | some pindex =>
    if has pindex.nStatus BLOCK_FAILED_MASK then
      if params.ASSETCHAINS_CC = 0 then (false, futureblock, m)
      else
        (true, futureblock,
          Function.update m hash (some (pindex.setStatus (· &&& ~~~BLOCK_FAILED_MASK))))
    else (true, futureblock, m)
  | none =>
    let futureblock := checks.futureblock
    if !checks.checkBlockHeader && !futureblock then (false, futureblock, m)
    else if hash = params.hashGenesisBlock then
      if checks.contextualCheckBlockHeader then (true, futureblock, addToBlockIndex m hash)
      else (false, futureblock, m)
    else
      match m hashPrevBlock with
      | none => (false, futureblock, m)
      | some prev =>
        if has prev.nStatus BLOCK_FAILED_MASK then (false, futureblock, m)
        else if checks.contextualCheckBlockHeader then (true, futureblock, addToBlockIndex m hash)
        else (false, futureblock, m)

/-- What `AcceptBlock` meets: whether the block is requested, or new, with more work and not too far
ahead; what `ContextualCheckBlock` and `CheckBlock` say; `*futureblockp` after them and after the test
for Sapling; whether the block is invalid, not just corrupt; and whether it could be stored. -/
structure BlockChecks where
  wanted : Bool := true
  contextualCheckBlock : Bool := true
  checkBlock : Bool := true
  futureblock : Bool := false
  invalid : Bool := true
  stored : Bool := true

/-- `AcceptBlock` past the header, for a block that is wanted and not there yet. -/
def acceptBlockData (pindex : Entry) (checks : BlockChecks) : Bool × Entry :=
  let pindex := { pindex with contextual := pindex.contextual || checks.contextualCheckBlock }
  if (!checks.checkBlock || !checks.contextualCheckBlock) && !checks.futureblock then
    (false, if checks.invalid then pindex.setStatus (· ||| BLOCK_FAILED_VALID) else pindex)
  else
    let pindex := if checks.contextualCheckBlock then pindex.setStatus (· ||| BLOCK_VALID_CONTEXT)
      else pindex
    if checks.stored then (!checks.futureblock, receivedBlockTransactions pindex) else (false, pindex)

def acceptBlock (params : Params) (m : BlockMap) (hash hashPrevBlock : Uint256)
    (header : HeaderChecks) (checks : BlockChecks) (futureblock : Bool) : Bool × BlockMap :=
  match acceptBlockHeader params m hash hashPrevBlock header futureblock with
  | (ok, futureblock, m) =>
    if !ok && !futureblock then (false, m)
    else
      match m hash with
      | none => (false, m)
      | some pindex =>
        if has pindex.nStatus BLOCK_HAVE_DATA || !checks.wanted then (true, m)
        else
          match acceptBlockData pindex checks with
          | (ok, pindex) => (ok, Function.update m hash (some pindex))

/-- What `ConnectBlock` meets: `-nspv`, a stop height, `CheckBlock`, `ContextualCheckBlock`, a block
from before 15 January 2019, the checks of the notary pay, the move out of the temporary file, the best
block of the view, all other checks, the writing of the undo data, whether an upgrade activates, and the
writing of the indexes. -/
structure ConnectChecks where
  superlite : Bool := false
  stopAt : Bool := false
  checkBlock : Bool := true
  contextualCheckBlock : Bool := true
  grandfathered : Bool := false
  notaryPay : Bool := true
  moved : Bool := true
  bestBlock : Bool := true
  valid : Bool := true
  undoWritten : Bool := true
  activates : Bool := false
  indexesWritten : Bool := true

/-- `ConnectBlock` up to the contextual check, which it makes if that was not made before; and whether
it goes on. -/
def connectContext (pindex : Entry) (fCheckPOW : Bool) (checks : ConnectChecks) : Bool × Entry :=
  if fCheckPOW && !hasContext pindex.nStatus then
    if checks.contextualCheckBlock then
      (true, { pindex with nStatus := pindex.nStatus ||| BLOCK_VALID_CONTEXT, contextual := true })
    else (checks.grandfathered, pindex)
  else (true, pindex)

/-- `ConnectBlock` from there up to the writing of the undo data: `none` when it goes on to that. -/
def connectChecks (params : Params) (hash : Uint256) (pindex : Entry) (fJustCheck : Bool)
    (checks : ConnectChecks) : Option Bool × Entry :=
  if !checks.notaryPay then (some false, pindex)
  else if has pindex.nStatus BLOCK_IN_TMPFILE && !checks.moved then (some false, pindex)
  else
    let pindex := if has pindex.nStatus BLOCK_IN_TMPFILE then
      receivedBlockTransactions (pindex.setStatus (· &&& ~~~BLOCK_IN_TMPFILE)) else pindex
    if !checks.bestBlock then (some false, pindex)
    else if hash = params.hashGenesisBlock then (some true, pindex)
    else if !checks.valid then (some false, pindex)
    else if fJustCheck then (some true, pindex)
    else (none, pindex)

/-- The end of `ConnectBlock`. -/
def connectWrite (pindex : Entry) (checks : ConnectChecks) : Bool × Entry :=
  if !has pindex.nStatus BLOCK_HAVE_UNDO && !checks.undoWritten then (false, pindex)
  else
    let pindex :=
      if !has pindex.nStatus BLOCK_HAVE_UNDO || !isValid pindex.nStatus BLOCK_VALID_SCRIPTS then
        let pindex := if has pindex.nStatus BLOCK_HAVE_UNDO then pindex
          else pindex.setStatus (· ||| BLOCK_HAVE_UNDO)
        let pindex := if checks.activates then pindex.setStatus (· ||| BLOCK_ACTIVATES_UPGRADE)
          else pindex
        pindex.setStatus (raiseValidity BLOCK_VALID_SCRIPTS)
      else pindex
    (checks.indexesWritten, pindex)

def connectBlock (params : Params) (hash : Uint256) (pindex : Entry) (fJustCheck fCheckPOW : Bool)
    (checks : ConnectChecks) : Bool × Entry :=
  if checks.superlite then (true, pindex)
  else if checks.stopAt then (false, pindex)
  else if !checks.checkBlock then (false, pindex)
  else
    match connectContext pindex fCheckPOW checks with
    | (false, pindex) => (false, pindex)
    | (true, pindex) =>
      match connectChecks params hash pindex fJustCheck checks with
      | (some ok, pindex) => (ok, pindex)
      | (none, pindex) => connectWrite pindex checks

/-! ### Calls -/

/-- A call of one of the functions. -/
inductive Call
  | acceptBlockHeader (hash hashPrevBlock : Uint256) (checks : HeaderChecks) (futureblock : Bool)
  | acceptBlock (hash hashPrevBlock : Uint256) (header : HeaderChecks) (checks : BlockChecks)
      (futureblock : Bool)
  | receivedBlockTransactions (hash : Uint256)
  | connectBlock (hash : Uint256) (fJustCheck fCheckPOW : Bool) (checks : ConnectChecks)

/-- The map after a call on entries of the map; a block that `ConnectBlock` accepts with `fJustCheck`
false is marked. -/
def call (params : Params) (m : BlockMap) : Call → BlockMap
  | .acceptBlockHeader hash hashPrevBlock checks futureblock =>
    (acceptBlockHeader params m hash hashPrevBlock checks futureblock).2.2
  | .acceptBlock hash hashPrevBlock header checks futureblock =>
    (acceptBlock params m hash hashPrevBlock header checks futureblock).2
  | .receivedBlockTransactions hash =>
    Function.update m hash ((m hash).map receivedBlockTransactions)
  | .connectBlock hash fJustCheck fCheckPOW checks =>
    Function.update m hash ((m hash).map fun pindex =>
      match connectBlock params hash pindex fJustCheck fCheckPOW checks with
      | (ok, pindex) => { pindex with connected := pindex.connected || (ok && !fJustCheck) })

/-- Calls in order. -/
def calls (params : Params) (m : BlockMap) (cs : List Call) : BlockMap := cs.foldl (call params) m

/-- The map after `InitBlockIndex`: the genesis block, received. -/
def start (params : Params) : BlockMap :=
  call params (addToBlockIndex (fun _ => none) params.hashGenesisBlock)
    (.receivedBlockTransactions params.hashGenesisBlock)

/-! ### Levels -/

section
variable {w f g v : Word}

theorem level_or (hf : f &&& BLOCK_VALID_MASK = 0#32) :
    (w ||| f) &&& BLOCK_VALID_MASK = w &&& BLOCK_VALID_MASK := by
  rw [BitVec.and_or_distrib_right, hf, BitVec.or_zero]

theorem level_and_not (hf : ~~~f &&& BLOCK_VALID_MASK = BLOCK_VALID_MASK) :
    (w &&& ~~~f) &&& BLOCK_VALID_MASK = w &&& BLOCK_VALID_MASK := by
  rw [BitVec.and_assoc, hf]

/-- The level after `RaiseValidity`. -/
theorem level_raiseValidity (hv : v &&& BLOCK_VALID_MASK = v) :
    raiseValidity v w &&& BLOCK_VALID_MASK = w &&& BLOCK_VALID_MASK ∨
      w &&& BLOCK_VALID_MASK < v ∧ raiseValidity v w &&& BLOCK_VALID_MASK = v := by
  unfold raiseValidity
  split_ifs with hfailed hlt
  · exact Or.inl rfl
  · refine Or.inr ⟨hlt, ?_⟩
    have hclear : ~~~BLOCK_VALID_MASK &&& BLOCK_VALID_MASK = 0#32 := by decide
    rw [BitVec.and_or_distrib_right, BitVec.and_assoc, hclear, BitVec.and_zero, BitVec.zero_or, hv]
  · exact Or.inl rfl

theorem hasContext_congr (h : w &&& BLOCK_VALID_MASK = v &&& BLOCK_VALID_MASK) :
    hasContext w = hasContext v := by
  have hbits : BLOCK_VALID_CONTEXT = BLOCK_VALID_MASK &&& BLOCK_VALID_CONTEXT := by decide
  rw [hasContext, hasContext, hbits, ← BitVec.and_assoc, ← BitVec.and_assoc, h]

theorem hasContext_raiseValidity (hv : v &&& BLOCK_VALID_MASK = v) (hno : hasContext v = false)
    (h : hasContext (raiseValidity v w) = true) : hasContext w = true := by
  rcases level_raiseValidity (w := w) hv with hsame | ⟨-, hlevel⟩
  · rwa [hasContext_congr hsame] at h
  · rw [hasContext_congr (hlevel.trans hv.symm), hno] at h
    cases h

theorem has_or (hf : f &&& g = 0#32) : has (w ||| f) g = has w g := by
  rw [has, has, BitVec.and_or_distrib_right, hf, BitVec.or_zero]

theorem has_and_not (hf : ~~~f &&& g = g) : has (w &&& ~~~f) g = has w g := by
  rw [has, has, BitVec.and_assoc, hf]

theorem has_raiseValidity (hv : v &&& g = 0#32) (hg : ~~~BLOCK_VALID_MASK &&& g = g) :
    has (raiseValidity v w) g = has w g := by
  unfold raiseValidity
  split_ifs
  · rfl
  · rw [has_or hv, has_and_not hg]
  · rfl

end

/-! ### One entry -/

/-- Every entry has the property. -/
def All (P : Entry → Prop) (m : BlockMap) : Prop := ∀ hash e, m hash = some e → P e

theorem All.update {P : Entry → Prop} {m : BlockMap} (h : All P m) {hash : Uint256}
    {new : Option Entry} (hnew : ∀ e, new = some e → P e) : All P (Function.update m hash new) := by
  intro hash' e' he'
  by_cases heq : hash' = hash
  · subst heq
    rw [Function.update_self] at he'
    exact hnew e' he'
  · rw [Function.update_of_ne heq] at he'
    exact h hash' e' he'

/-- Both bits of the flag are set only where `ContextualCheckBlock` succeeded. -/
def Entry.ContextOk (e : Entry) : Prop := hasContext e.nStatus = true → e.contextual = true

/-- A block that `ConnectBlock` did not accept is not above `BLOCK_VALID_TRANSACTIONS`. -/
def Entry.LevelOk (e : Entry) : Prop :=
  e.connected = false → e.nStatus &&& BLOCK_VALID_MASK ≤ BLOCK_VALID_TRANSACTIONS

/-- A word with at most the level of the entry, but for a raise to `BLOCK_VALID_TRANSACTIONS`. -/
def Lower (w w' : Word) : Prop :=
  (hasContext w' = true → hasContext w = true) ∧
    (w &&& BLOCK_VALID_MASK ≤ BLOCK_VALID_TRANSACTIONS →
      w' &&& BLOCK_VALID_MASK ≤ BLOCK_VALID_TRANSACTIONS)

theorem Lower.of_eq {w w' : Word} (h : w' &&& BLOCK_VALID_MASK = w &&& BLOCK_VALID_MASK) :
    Lower w w' := ⟨fun hc => hasContext_congr h ▸ hc, fun hl => h ▸ hl⟩

theorem Lower.trans {w w' w'' : Word} (h : Lower w w') (h' : Lower w' w'') : Lower w w'' :=
  ⟨h.1 ∘ h'.1, h'.2 ∘ h.2⟩

theorem Lower.raise (w : Word) : Lower w (raiseValidity BLOCK_VALID_TRANSACTIONS w) := by
  have hv : BLOCK_VALID_TRANSACTIONS &&& BLOCK_VALID_MASK = BLOCK_VALID_TRANSACTIONS := by decide
  refine ⟨hasContext_raiseValidity hv (by decide), fun hl => ?_⟩
  rcases level_raiseValidity (w := w) hv with hsame | ⟨-, hlevel⟩
  · rwa [hsame]
  · rw [hlevel]
    exact BitVec.le_refl _

theorem Lower.received (w : Word) :
    Lower w (raiseValidity BLOCK_VALID_TRANSACTIONS (w ||| BLOCK_HAVE_DATA)) :=
  (Lower.of_eq (level_or (by decide))).trans (Lower.raise _)

/-- A property that is kept where no level is raised above `BLOCK_VALID_TRANSACTIONS`. -/
structure Stable (P : Entry → Prop) : Prop where
  lower : ∀ e : Entry, P e → ∀ f : Word → Word, Lower e.nStatus (f e.nStatus) → P (e.setStatus f)
  contextual : ∀ e : Entry, P e → ∀ b : Bool, P { e with contextual := e.contextual || b }
  connected : ∀ e : Entry, P e → ∀ b : Bool, P { e with connected := e.connected || b }
  new : P { nStatus := raiseValidity BLOCK_VALID_TREE 0 }

theorem contextOk_stable : Stable Entry.ContextOk where
  lower _ h _ hl hc := h (hl.1 hc)
  contextual e h b hc := by
    show (e.contextual || b) = true
    rw [h hc, Bool.true_or]
  connected _ h _ := h
  new hc := absurd hc (by decide)

theorem levelOk_stable : Stable Entry.LevelOk where
  lower _ h _ hl hno := hl.2 (h hno)
  contextual _ h _ := h
  connected _ h _ hno := h (Bool.or_eq_false_iff.mp hno).1
  new _ := by decide

variable {P : Entry → Prop} {params : Params} {m : BlockMap}

theorem Stable.received (hP : Stable P) {e : Entry} (h : P e) : P (receivedBlockTransactions e) :=
  hP.lower e h _ (Lower.received e.nStatus)

theorem Stable.or (hP : Stable P) {e : Entry} (h : P e) {f : Word}
    (hf : f &&& BLOCK_VALID_MASK = 0#32) : P (e.setStatus (· ||| f)) :=
  hP.lower e h _ (Lower.of_eq (level_or hf))

theorem Stable.and_not (hP : Stable P) {e : Entry} (h : P e) {f : Word}
    (hf : ~~~f &&& BLOCK_VALID_MASK = BLOCK_VALID_MASK) : P (e.setStatus (· &&& ~~~f)) :=
  hP.lower e h _ (Lower.of_eq (level_and_not hf))

variable (params) in
/-- What `AcceptBlockHeader` leaves at the hash: the entry, with its failure flags taken back or not,
or a new one, or none. -/
theorem acceptBlockHeader_spec (hP : Stable P) (h : All P m) (hash hashPrevBlock : Uint256)
    (checks : HeaderChecks) (futureblock : Bool) :
    All P (acceptBlockHeader params m hash hashPrevBlock checks futureblock).2.2 ∧
      ∀ e, m hash = some e →
        ∃ e', (acceptBlockHeader params m hash hashPrevBlock checks futureblock).2.2 hash = some e' ∧
          e'.connected = e.connected := by
  unfold acceptBlockHeader
  cases hm : m hash with
  | some pindex =>
    refine ⟨?_, fun e he => ?_⟩
    · dsimp only
      split_ifs
      · exact h
      · refine h.update fun e he => ?_
        cases he
        exact hP.and_not (h hash pindex hm) (by decide)
      · exact h
    · cases he
      dsimp only
      split_ifs
      · exact ⟨pindex, hm, rfl⟩
      · exact ⟨_, Function.update_self .., rfl⟩
      · exact ⟨pindex, hm, rfl⟩
  | none =>
    refine ⟨?_, nofun⟩
    have hadd : All P (addToBlockIndex m hash) := h.update fun e he => some.inj he ▸ hP.new
    dsimp only
    split
    · exact h
    · split
      · split
        · exact hadd
        · exact h
      · split
        · exact h
        · split
          · exact h
          · split
            · exact hadd
            · exact h

variable {pindex : Entry}

/-- `AcceptBlock` past the header keeps the property, if the flag that it sets does. -/
theorem acceptBlockData_spec (hP : Stable P) (h : P pindex) (checks : BlockChecks)
    (hmark : checks.contextualCheckBlock = true → (checks.checkBlock || checks.futureblock) = true →
      P { pindex with nStatus := pindex.nStatus ||| BLOCK_VALID_CONTEXT, contextual := true }) :
    P (acceptBlockData pindex checks).2 := by
  have hrecord := hP.contextual pindex h checks.contextualCheckBlock
  unfold acceptBlockData
  dsimp only
  by_cases hfail : ((!checks.checkBlock || !checks.contextualCheckBlock) && !checks.futureblock) = true
  · rw [if_pos hfail]
    dsimp only
    split
    · exact hP.or hrecord (by decide)
    · exact hrecord
  · rw [if_neg hfail]
    have hset : P (if checks.contextualCheckBlock = true then
        Entry.setStatus { pindex with contextual := pindex.contextual || checks.contextualCheckBlock }
          (· ||| BLOCK_VALID_CONTEXT)
        else { pindex with contextual := pindex.contextual || checks.contextualCheckBlock }) := by
      split
      · next hcontext =>
        rw [hcontext, Bool.or_true]
        refine hmark hcontext ?_
        cases hb : checks.checkBlock <;> cases hf : checks.futureblock <;> simp_all
      · exact hrecord
    split
    · exact hP.received hset
    · exact hset

/-! ### What a call comes to -/

/-- `AcceptBlock` comes to set `BLOCK_VALID_CONTEXT`. -/
def marksContext (params : Params) (m : BlockMap) (hash hashPrevBlock : Uint256)
    (header : HeaderChecks) (checks : BlockChecks) (futureblock : Bool) : Bool :=
  match acceptBlockHeader params m hash hashPrevBlock header futureblock with
  | (ok, futureblock, m) =>
    (ok || futureblock) && (m hash).any (fun pindex => !has pindex.nStatus BLOCK_HAVE_DATA) &&
      checks.wanted && checks.contextualCheckBlock && (checks.checkBlock || checks.futureblock)

namespace ConnectChecks

variable (checks : ConnectChecks) (params : Params) (hash : Uint256) (nStatus : Word)
  (fJustCheck fCheckPOW : Bool)

/-- `ConnectBlock` comes to the contextual check. -/
def entered : Bool := !checks.superlite && !checks.stopAt && checks.checkBlock

/-- It makes the check and sets `BLOCK_VALID_CONTEXT`. -/
def marks : Bool := checks.entered && (fCheckPOW && !hasContext nStatus) && checks.contextualCheckBlock

/-- The checks up to the one of the view hold. -/
def holds : Bool :=
  checks.notaryPay && (!has nStatus BLOCK_IN_TMPFILE || checks.moved) && checks.bestBlock

/-- There is undo data in the end. -/
def undone : Bool := has nStatus BLOCK_HAVE_UNDO || checks.undoWritten

/-- It comes to raise the level to `BLOCK_VALID_SCRIPTS`. -/
def raises : Bool :=
  checks.entered && (!(fCheckPOW && !hasContext nStatus) || checks.contextualCheckBlock ||
    checks.grandfathered) && checks.holds nStatus && decide (hash ≠ params.hashGenesisBlock) &&
      checks.valid && !fJustCheck && checks.undone nStatus

/-- Past the contextual check, nothing keeps it from accepting the block. -/
def accepts : Bool :=
  checks.holds nStatus && (decide (hash = params.hashGenesisBlock) ||
    checks.valid && checks.undone nStatus && checks.indexesWritten) && !fJustCheck

end ConnectChecks

/-- A call sets the flag or raises the level only of a block that `ConnectBlock` accepted before, or
that it accepts in this call. -/
def Meets (params : Params) (m : BlockMap) : Call → Prop
  | .acceptBlock hash hashPrevBlock header checks futureblock =>
    marksContext params m hash hashPrevBlock header checks futureblock = true →
      ∃ pindex, m hash = some pindex ∧ pindex.connected = true
  | .connectBlock hash fJustCheck fCheckPOW checks =>
    ∀ pindex, m hash = some pindex → pindex.connected = true ∨
      (checks.marks pindex.nStatus fCheckPOW = true →
        checks.accepts params hash pindex.nStatus fJustCheck = true) ∧
      (checks.raises params hash pindex.nStatus fJustCheck fCheckPOW = true →
        checks.indexesWritten = true)
  | _ => True

/-- Every call of a run meets the condition. -/
def MeetsAll (params : Params) (m : BlockMap) : List Call → Prop
  | [] => True
  | c :: cs => Meets params m c ∧ MeetsAll params (call params m c) cs

/-! ### Each function -/

theorem acceptBlock_spec (hP : Stable P) (h : All P m) (hash hashPrevBlock : Uint256)
    (header : HeaderChecks) (checks : BlockChecks) (futureblock : Bool)
    (hmark : marksContext params m hash hashPrevBlock header checks futureblock = true →
      ∀ e, (acceptBlockHeader params m hash hashPrevBlock header futureblock).2.2 hash = some e →
        P e → P { e with nStatus := e.nStatus ||| BLOCK_VALID_CONTEXT, contextual := true }) :
    All P (acceptBlock params m hash hashPrevBlock header checks futureblock).2 := by
  obtain ⟨hall, -⟩ := acceptBlockHeader_spec params hP h hash hashPrevBlock header
    futureblock
  unfold acceptBlock
  unfold marksContext at hmark
  rcases hhead : acceptBlockHeader params m hash hashPrevBlock header futureblock with ⟨ok, fb, m'⟩
  rw [hhead] at hall hmark
  dsimp only at hall hmark ⊢
  split
  · exact hall
  · next hgo =>
    have hok : (ok || fb) = true := by cases ok <;> cases fb <;> simp_all
    cases hm' : m' hash with
    | none => exact hall
    | some pindex =>
      dsimp only
      split
      · exact hall
      · next hdata =>
        rw [Bool.or_eq_true, not_or, Bool.not_eq_true, Bool.not_eq_true, Bool.not_eq_false'] at hdata
        refine hall.update fun e he => some.inj he ▸
          acceptBlockData_spec hP (hall hash pindex hm') checks fun hcontext hcheck => ?_
        refine hmark ?_ pindex hm' (hall hash pindex hm')
        simp [hok, hm', hdata.1, hdata.2, hcontext, hcheck]

theorem has_connectContext (pindex : Entry) (fCheckPOW : Bool) (checks : ConnectChecks) {g : Word}
    (hg : BLOCK_VALID_CONTEXT &&& g = 0#32) :
    has (connectContext pindex fCheckPOW checks).2.nStatus g = has pindex.nStatus g := by
  unfold connectContext
  split
  · split
    · exact has_or hg
    · rfl
  · rfl

variable (params) in
/-- How the checks end, and that the undo flag is as before. -/
theorem connectChecks_spec (hash : Uint256) (pindex : Entry) (fJustCheck : Bool)
    (checks : ConnectChecks) :
    (connectChecks params hash pindex fJustCheck checks).1 =
      (if checks.holds pindex.nStatus = true then
        if hash = params.hashGenesisBlock then some true
        else if checks.valid = true then if fJustCheck = true then some true else none
        else some false
      else some false) ∧
    has (connectChecks params hash pindex fJustCheck checks).2.nStatus BLOCK_HAVE_UNDO =
      has pindex.nStatus BLOCK_HAVE_UNDO := by
  have hundo : has (receivedBlockTransactions
      (pindex.setStatus (· &&& ~~~BLOCK_IN_TMPFILE))).nStatus BLOCK_HAVE_UNDO =
        has pindex.nStatus BLOCK_HAVE_UNDO := by
    show has (raiseValidity BLOCK_VALID_TRANSACTIONS
      (pindex.nStatus &&& ~~~BLOCK_IN_TMPFILE ||| BLOCK_HAVE_DATA)) BLOCK_HAVE_UNDO = _
    rw [has_raiseValidity (by decide) (by decide), has_or (by decide), has_and_not (by decide)]
  unfold connectChecks ConnectChecks.holds
  by_cases htmp : has pindex.nStatus BLOCK_IN_TMPFILE = true <;>
    cases checks.notaryPay <;> cases checks.moved <;> cases checks.bestBlock <;>
    by_cases hgenesis : hash = params.hashGenesisBlock <;>
    cases checks.valid <;> cases fJustCheck <;> simp [htmp, hgenesis, hundo]

theorem connectContext_spec (h : P pindex) (fCheckPOW : Bool)
    (checks : ConnectChecks)
    (hmark : (fCheckPOW && !hasContext pindex.nStatus) = true → checks.contextualCheckBlock = true →
      P { pindex with nStatus := pindex.nStatus ||| BLOCK_VALID_CONTEXT, contextual := true }) :
    P (connectContext pindex fCheckPOW checks).2 := by
  unfold connectContext
  split
  · next hask =>
    split
    · next hcontext => exact hmark hask hcontext
    · exact h
  · exact h

variable (params) in
theorem connectChecks_stable (hP : Stable P) (h : P pindex) (hash : Uint256)
    (fJustCheck : Bool) (checks : ConnectChecks) :
    P (connectChecks params hash pindex fJustCheck checks).2 := by
  have hmoved : P (if has pindex.nStatus BLOCK_IN_TMPFILE = true then
      receivedBlockTransactions (pindex.setStatus (· &&& ~~~BLOCK_IN_TMPFILE)) else pindex) := by
    split
    · exact hP.received (hP.and_not h (by decide))
    · exact h
  unfold connectChecks
  dsimp only
  split
  · exact h
  · split
    · exact h
    · split
      · exact hmoved
      · split
        · exact hmoved
        · split
          · exact hmoved
          · split <;> exact hmoved

theorem connectWrite_stable (hP : Stable P) (h : P pindex) (checks : ConnectChecks)
    (hraise : checks.undone pindex.nStatus = true →
      ∀ e, P e → P (e.setStatus (raiseValidity BLOCK_VALID_SCRIPTS))) :
    P (connectWrite pindex checks).2 := by
  unfold connectWrite
  split
  · exact h
  · next hundo =>
    have hundone : checks.undone pindex.nStatus = true := by
      rw [ConnectChecks.undone]
      cases hu : has pindex.nStatus BLOCK_HAVE_UNDO <;> cases hw : checks.undoWritten <;>
        simp [hu, hw] at hundo ⊢
    dsimp only
    split
    · refine hraise hundone _ ?_
      have hflag : P (if has pindex.nStatus BLOCK_HAVE_UNDO = true then pindex
          else pindex.setStatus (· ||| BLOCK_HAVE_UNDO)) := by
        split
        · exact h
        · exact hP.or h (by decide)
      split
      · exact hP.or hflag (by decide)
      · exact hflag
    · exact h

/-- `ConnectBlock` keeps the property, if the flag that it sets and the level that it raises to do. -/
theorem connectBlock_stable (hP : Stable P) (h : P pindex) (hash : Uint256)
    (fJustCheck fCheckPOW : Bool) (checks : ConnectChecks)
    (hmark : checks.marks pindex.nStatus fCheckPOW = true →
      P { pindex with nStatus := pindex.nStatus ||| BLOCK_VALID_CONTEXT, contextual := true })
    (hraise : checks.raises params hash pindex.nStatus fJustCheck fCheckPOW = true →
      ∀ e, P e → P (e.setStatus (raiseValidity BLOCK_VALID_SCRIPTS))) :
    P (connectBlock params hash pindex fJustCheck fCheckPOW checks).2 := by
  unfold connectBlock
  split
  · exact h
  · next hlite =>
    split
    · exact h
    · next hstop =>
      split
      · exact h
      · next hcheck =>
        have hentered : checks.entered = true := by simp_all [ConnectChecks.entered]
        have hcontext := connectContext_spec h fCheckPOW checks fun hask hok =>
          hmark (by simp [ConnectChecks.marks, hentered, hask, hok])
        have hbits := fun g hg => has_connectContext pindex fCheckPOW checks (g := g) hg
        split
        · next heq => exact heq ▸ hcontext
        · next p₁ heq =>
          rw [heq] at hcontext hbits
          have hgo : (!(fCheckPOW && !hasContext pindex.nStatus) || checks.contextualCheckBlock ||
              checks.grandfathered) = true := by
            unfold connectContext at heq
            cases hask : (fCheckPOW && !hasContext pindex.nStatus) <;>
              cases hok : checks.contextualCheckBlock <;> simp_all
          have hchecks := connectChecks_stable params hP hcontext hash fJustCheck checks
          obtain ⟨hend, hundo⟩ := connectChecks_spec params hash p₁ fJustCheck checks
          split
          · next heq₂ =>
            rw [heq₂] at hchecks
            exact hchecks
          · next p₂ heq₂ =>
            rw [heq₂] at hchecks hend hundo
            refine connectWrite_stable hP hchecks checks fun hundone => hraise ?_
            have hholds : checks.holds p₁.nStatus = checks.holds pindex.nStatus := by
              rw [ConnectChecks.holds, ConnectChecks.holds, hbits _ (by decide)]
            have hundone' : checks.undone pindex.nStatus = true := by
              rw [ConnectChecks.undone, ← hbits _ (by decide), ← hundo]
              exact hundone
            rw [hholds] at hend
            rw [ConnectChecks.raises, hentered, hgo, hundone']
            split_ifs at hend <;> simp_all

variable (params) in
/-- No function takes the mark of a connected block back. -/
theorem connectBlock_connected (hash : Uint256) (pindex : Entry) (fJustCheck fCheckPOW : Bool)
    (checks : ConnectChecks) :
    (connectBlock params hash pindex fJustCheck fCheckPOW checks).2.connected = pindex.connected := by
  have hcontext : (connectContext pindex fCheckPOW checks).2.connected = pindex.connected := by
    unfold connectContext
    split
    · split <;> rfl
    · rfl
  have hchecks : ∀ p : Entry, (connectChecks params hash p fJustCheck checks).2.connected =
      p.connected := by
    intro p
    unfold connectChecks
    dsimp only
    split_ifs <;> rfl
  have hwrite : ∀ p : Entry, (connectWrite p checks).2.connected = p.connected := by
    intro p
    unfold connectWrite
    dsimp only
    split_ifs <;> rfl
  unfold connectBlock
  split_ifs
  · rfl
  · rfl
  · rfl
  · split
    · next heq => rw [← hcontext, heq]
    · next p heq =>
      rw [heq] at hcontext
      split
      · next heq₂ =>
        have hp := hchecks p
        rw [heq₂] at hp
        exact hp.trans hcontext
      · next heq₂ =>
        have hp := hchecks p
        rw [heq₂] at hp
        exact (hwrite _).trans (hp.trans hcontext)

/-- Past the contextual check a block that nothing keeps from it is accepted. -/
theorem connectBlock_accepts (hash : Uint256) {fJustCheck fCheckPOW : Bool}
    {checks : ConnectChecks} (hentered : checks.entered = true)
    (hgo : (!(fCheckPOW && !hasContext pindex.nStatus) || checks.contextualCheckBlock ||
      checks.grandfathered) = true)
    (h : checks.accepts params hash pindex.nStatus fJustCheck = true) :
    (connectBlock params hash pindex fJustCheck fCheckPOW checks).1 = true ∧ fJustCheck = false := by
  have hbits := fun g hg => has_connectContext pindex fCheckPOW checks (g := g) hg
  simp only [ConnectChecks.entered, Bool.and_eq_true, Bool.not_eq_true'] at hentered
  simp only [ConnectChecks.accepts, Bool.and_eq_true, Bool.or_eq_true, Bool.not_eq_true',
    decide_eq_true_eq] at h
  refine ⟨?_, h.2⟩
  unfold connectBlock
  rw [if_neg (by simp [hentered.1.1]), if_neg (by simp [hentered.1.2]), if_neg (by simp [hentered.2])]
  have hfst : (connectContext pindex fCheckPOW checks).1 = true := by
    unfold connectContext
    cases hask : (fCheckPOW && !hasContext pindex.nStatus) <;>
      cases hok : checks.contextualCheckBlock <;> simp_all
  rcases heq : connectContext pindex fCheckPOW checks with ⟨ok, p₁⟩
  rw [heq] at hfst hbits
  obtain rfl : ok = true := hfst
  dsimp only
  have hholds : checks.holds p₁.nStatus = true := by
    rw [ConnectChecks.holds, hbits _ (by decide)]
    exact h.1.1
  obtain ⟨hend, hundo⟩ := connectChecks_spec params hash p₁ fJustCheck checks
  rcases hchecks : connectChecks params hash p₁ fJustCheck checks with ⟨r, p₂⟩
  rw [hchecks] at hend hundo
  rw [if_pos hholds] at hend
  rcases h.1.2 with hgenesis | ⟨⟨hvalid, hundone⟩, hwritten⟩
  · rw [if_pos hgenesis] at hend
    obtain rfl : r = some true := hend
    rfl
  · split_ifs at hend with hgenesis hjust
    · obtain rfl : r = some true := hend
      rfl
    · rw [h.2] at hjust
      cases hjust
    · obtain rfl : r = none := hend
      have hundone₂ : checks.undone p₂.nStatus = true := by
        rw [ConnectChecks.undone, hundo, hbits _ (by decide)]
        exact hundone
      show (connectWrite p₂ checks).1 = true
      unfold connectWrite
      rw [ConnectChecks.undone] at hundone₂
      rw [if_neg (by cases hu : has p₂.nStatus BLOCK_HAVE_UNDO <;> simp_all)]
      exact hwritten

/-! ### Runs -/

/-- The step lemma for the flag: no call sets it but with a successful check. -/
theorem call_contextOk (h : All Entry.ContextOk m) (c : Call) :
    All Entry.ContextOk (call params m c) := by
  have hP := contextOk_stable
  cases c with
  | acceptBlockHeader hash hashPrevBlock checks futureblock =>
    exact (acceptBlockHeader_spec params hP h hash hashPrevBlock checks futureblock).1
  | acceptBlock hash hashPrevBlock header checks futureblock =>
    exact acceptBlock_spec hP h hash hashPrevBlock header checks futureblock fun _ _ _ _ _ => rfl
  | receivedBlockTransactions hash =>
    refine h.update fun e he => ?_
    obtain ⟨pindex, hpindex, rfl⟩ := map_eq_some_iff.mp he
    exact hP.received (h hash pindex hpindex)
  | connectBlock hash fJustCheck fCheckPOW checks =>
    refine h.update fun e he => ?_
    obtain ⟨pindex, hpindex, rfl⟩ := map_eq_some_iff.mp he
    refine hP.connected _ (connectBlock_stable hP (h hash pindex hpindex) hash fJustCheck fCheckPOW
      checks (fun _ _ => rfl) fun _ e he hcontext => he ?_) _
    exact hasContext_raiseValidity (by decide) (by decide) hcontext

/-- The step lemma for the level. -/
theorem call_levelOk (h : All Entry.LevelOk m) {c : Call} (hc : Meets params m c) :
    All Entry.LevelOk (call params m c) := by
  have hP := levelOk_stable
  cases c with
  | acceptBlockHeader hash hashPrevBlock checks futureblock =>
    exact (acceptBlockHeader_spec params hP h hash hashPrevBlock checks futureblock).1
  | acceptBlock hash hashPrevBlock header checks futureblock =>
    refine acceptBlock_spec hP h hash hashPrevBlock header checks futureblock
      fun hmark e he _ hno => ?_
    -- the flag is set only of a block that was connected
    obtain ⟨pindex, hpindex, hconnected⟩ := hc hmark
    obtain ⟨e', he', hsame⟩ := (acceptBlockHeader_spec params hP h hash hashPrevBlock
      header futureblock).2 pindex hpindex
    obtain rfl := some.inj (he.symm.trans he')
    rw [show e.connected = true from hsame.trans hconnected] at hno
    cases hno
  | receivedBlockTransactions hash =>
    refine h.update fun e he => ?_
    obtain ⟨pindex, hpindex, rfl⟩ := map_eq_some_iff.mp he
    exact hP.received (h hash pindex hpindex)
  | connectBlock hash fJustCheck fCheckPOW checks =>
    refine h.update fun e he => ?_
    obtain ⟨pindex, hpindex, rfl⟩ := map_eq_some_iff.mp he
    rcases hc pindex hpindex with hconnected | ⟨hmarks, hraises⟩
    · -- the mark is kept
      have hkept := connectBlock_connected params hash pindex fJustCheck fCheckPOW checks
      intro hno
      rw [Bool.or_eq_false_iff, hkept, hconnected] at hno
      cases hno.1
    · -- a block that is accepted is marked
      have accepted : ∀ {e : Entry}, (connectBlock params hash pindex fJustCheck fCheckPOW checks).1 =
          true ∧ fJustCheck = false → e.connected = (pindex.connected || (
            (connectBlock params hash pindex fJustCheck fCheckPOW checks).1 && !fJustCheck)) →
          e.LevelOk := by
        intro e hok he hno
        rw [he, hok.1, hok.2, Bool.not_false, Bool.and_true, Bool.or_true] at hno
        cases hno
      have hkept := connectBlock_connected params hash pindex fJustCheck fCheckPOW checks
      by_cases hmark : checks.marks pindex.nStatus fCheckPOW = true
      · have haccepts := hmarks hmark
        simp only [ConnectChecks.marks, Bool.and_eq_true] at hmark
        refine accepted (connectBlock_accepts hash hmark.1.1 ?_ haccepts)
          (congrArg (· || _) hkept)
        rw [hmark.2, Bool.or_true, Bool.true_or]
      · by_cases hraise : checks.raises params hash pindex.nStatus fJustCheck fCheckPOW = true
        · have hwritten := hraises hraise
          simp only [ConnectChecks.raises, Bool.and_eq_true, decide_eq_true_eq] at hraise
          obtain ⟨⟨⟨⟨⟨⟨hentered, hgo⟩, hholds⟩, hgenesis⟩, hvalid⟩, hjust⟩, hundone⟩ := hraise
          refine accepted (connectBlock_accepts hash hentered hgo ?_)
            (congrArg (· || _) hkept)
          simp [ConnectChecks.accepts, hholds, hvalid, hundone, hwritten, hjust]
        · exact hP.connected _ (connectBlock_stable hP (h hash pindex hpindex) hash fJustCheck
            fCheckPOW checks (fun h => absurd h hmark) fun h => absurd h hraise) _

theorem start_spec (params : Params) : All Entry.ContextOk (start params) ∧
    All Entry.LevelOk (start params) := by
  have hnew : ∀ {P : Entry → Prop}, Stable P →
      All P (addToBlockIndex (fun _ => none) params.hashGenesisBlock) := fun hP =>
    All.update (fun _ _ h => nomatch h) fun e he => some.inj he ▸ hP.new
  exact ⟨call_contextOk (hnew contextOk_stable) _, call_levelOk (hnew levelOk_stable) trivial⟩

theorem calls_contextOk (cs : List Call) (h : All Entry.ContextOk m) :
    All Entry.ContextOk (calls params m cs) := by
  induction cs generalizing m with
  | nil => exact h
  | cons c cs ih => exact ih (call_contextOk h c)

theorem calls_levelOk {cs : List Call} (h : All Entry.LevelOk m) (hcs : MeetsAll params m cs) :
    All Entry.LevelOk (calls params m cs) := by
  induction cs generalizing m with
  | nil => exact h
  | cons c cs ih => exact ih (call_levelOk h hcs.1) hcs.2

/-- **Both bits of `BLOCK_VALID_CONTEXT` are set only where `ContextualCheckBlock` has succeeded**, in
every run; **and a block passes for one with valid scripts only where `ConnectBlock` has accepted it**,
in a run in which the flag is set, and the level raised, only on such blocks. -/
theorem status_run (params : Params) (cs : List Call) :
    (∀ hash e, calls params (start params) cs hash = some e →
        hasContext e.nStatus = true → e.contextual = true) ∧
      (MeetsAll params (start params) cs → ∀ hash e, calls params (start params) cs hash = some e →
        isValid e.nStatus BLOCK_VALID_SCRIPTS = true → e.connected = true) := by
  obtain ⟨hcontext, hlevel⟩ := start_spec params
  refine ⟨calls_contextOk cs hcontext, fun hcs hash e he hvalid => ?_⟩
  by_contra hno
  have hle := calls_levelOk hlevel hcs hash e he (by simpa using hno)
  have hge : BLOCK_VALID_SCRIPTS ≤ e.nStatus &&& BLOCK_VALID_MASK := by
    simp only [isValid, Bool.and_eq_true, decide_eq_true_eq] at hvalid
    exact hvalid.2
  exact absurd (BitVec.le_trans hge hle) (by decide)

/-- A block that arrives without a contextual check, from the future, and is connected later. -/
theorem status_run_connected :
    let params : Params := ⟨1, 0⟩
    let cs := [Call.acceptBlock 2 1 {} { contextualCheckBlock := false, futureblock := true } false,
      Call.connectBlock 2 false true {}]
    MeetsAll params (start params) cs ∧
      ∃ e, calls params (start params) cs 2 = some e ∧
        isValid e.nStatus BLOCK_VALID_SCRIPTS = true ∧ e.connected = true := by
  intro params cs
  have hmeets : MeetsAll params (start params) cs := by
    refine ⟨fun h => absurd h (by decide), fun pindex h => ?_, trivial⟩
    obtain rfl := Option.some.inj h
    exact Or.inr ⟨fun _ => by decide, fun _ => rfl⟩
  exact ⟨hmeets, _, rfl, by decide,
    (status_run params cs).2 hmeets 2 _ rfl (by decide)⟩

/-- **A block that was never connected passes for one with valid scripts**: it arrived, and the
contextual check succeeded. -/
theorem not_scriptsValid :
    let params : Params := ⟨1, 0⟩
    ∃ e, calls params (start params) [Call.acceptBlock 2 1 {} {} false] 2 = some e ∧
      isValid e.nStatus BLOCK_VALID_SCRIPTS = true ∧ e.connected = false :=
  ⟨_, rfl, by decide, rfl⟩

end StatusWord
end Komodo
