/-
# A queue of tasks and the workers that empty it

A producer takes tasks from an input, one at a time, and puts them at the end of a queue.  Workers
take tasks from the front; what a worker does with its task it does alone, but the tasks that several
workers hold are done in any order.  When the producer is done, it tells so, and a worker that then
finds the queue empty returns.

With one worker the tasks are done in the order of the input, with more in some order
(`finished_spec`); any one of them may be done last (`exists_delayed`).  With no worker none is done,
and the producer notices nothing (`exists_idle`).
-/

import Mathlib.Tactic

namespace Komodo
namespace WorkQueue

open List

variable {C D S : Type}

/-- A worker waits for a task, holds one, or has returned. -/
inductive Worker (D : Type)
  | waiting
  | holding (d : D)
  | returned

/-- The task that a worker holds. -/
def Worker.task : Worker D → Option D
  | .holding d => some d
  | _ => none

/-- The tasks that workers hold. -/
def tasks (ws : List (Worker D)) : List D := ws.filterMap Worker.task

@[simp] theorem tasks_nil : tasks ([] : List (Worker D)) = [] := rfl

@[simp] theorem tasks_waiting (ws : List (Worker D)) : tasks (.waiting :: ws) = tasks ws := rfl

@[simp] theorem tasks_holding (d : D) (ws : List (Worker D)) :
    tasks (.holding d :: ws) = d :: tasks ws := rfl

@[simp] theorem tasks_returned (ws : List (Worker D)) : tasks (.returned :: ws) = tasks ws := rfl

@[simp] theorem tasks_append (ws ws' : List (Worker D)) : tasks (ws ++ ws') = tasks ws ++ tasks ws' :=
  filterMap_append

theorem tasks_eq_nil {ws : List (Worker D)} (h : ∀ w ∈ ws, w.task = none) : tasks ws = [] :=
  filterMap_eq_nil_iff.2 h

/-- The input that is left, the queue, the workers, what the producer reports once it is done, and
the state that the tasks change. -/
structure Pool (C D S : Type) where
  input : C
  queue : List D := []
  workers : List (Worker D)
  done : Option Bool := none
  state : S

/-- `next` takes a task from the input or ends the loop of the producer with its report; `body` does
a task, and aborts where it has no result. -/
inductive Step (next : C → Except Bool (D × C)) (body : D → S → Option S) :
    Pool C D S → Pool C D S → Prop
  | push {c c' : C} {q : List D} {ws : List (Worker D)} {s : S} {d : D} :
      next c = .ok (d, c') → Step next body ⟨c, q, ws, none, s⟩ ⟨c', q ++ [d], ws, none, s⟩
  | finish {c : C} {q : List D} {ws : List (Worker D)} {s : S} {r : Bool} :
      next c = .error r → Step next body ⟨c, q, ws, none, s⟩ ⟨c, q, ws, some r, s⟩
  | giveUp {c : C} {q : List D} {ws : List (Worker D)} {s : S} :
      Step next body ⟨c, q, ws, none, s⟩ ⟨c, q, ws, some false, s⟩
  | take {c : C} {q : List D} {done : Option Bool} {s : S} {d : D} (ws ws' : List (Worker D)) :
      Step next body ⟨c, d :: q, ws ++ .waiting :: ws', done, s⟩
        ⟨c, q, ws ++ .holding d :: ws', done, s⟩
  | work {c : C} {q : List D} {done : Option Bool} {s s' : S} {d : D} (ws ws' : List (Worker D)) :
      body d s = some s' → Step next body ⟨c, q, ws ++ .holding d :: ws', done, s⟩
        ⟨c, q, ws ++ .waiting :: ws', done, s'⟩
  | leave {c : C} {r : Bool} {s : S} (ws ws' : List (Worker D)) :
      Step next body ⟨c, [], ws ++ .waiting :: ws', some r, s⟩
        ⟨c, [], ws ++ .returned :: ws', some r, s⟩

/-- `n` workers wait for the first task. -/
def start (n : ℕ) (c : C) (s : S) : Pool C D S :=
  { input := c, workers := List.replicate n .waiting, state := s }

/-- The producer has reported `r`, and every worker has returned. -/
def Pool.Finished (p : Pool C D S) (r : Bool) : Prop :=
  p.done = some r ∧ ∀ w ∈ p.workers, w = .returned

/-- Tasks done one after the other. -/
def doAll (body : D → S → Option S) (ds : List D) (s : S) : Option S := ds.foldlM (fun s d => body d s) s

/-- The producer has pushed `ds`, and `c'` is left of the input. -/
inductive Pushed (next : C → Except Bool (D × C)) (c : C) : List D → C → Prop
  | nil : Pushed next c [] c
  | snoc {ds : List D} {c' c'' : C} {d : D} :
      Pushed next c ds c' → next c' = .ok (d, c'') → Pushed next c (ds ++ [d]) c''

/-- The tasks of the whole input, and the report. -/
def Produced (next : C → Except Bool (D × C)) (c : C) (ds : List D) (r : Bool) : Prop :=
  ∃ c', Pushed next c ds c' ∧ next c' = .error r

variable {next : C → Except Bool (D × C)} {body : D → S → Option S} {c₀ : C} {s₀ : S}

theorem doAll_append (ds ds' : List D) (s : S) :
    doAll body (ds ++ ds') s = (doAll body ds s).bind (doAll body ds') := by
  simp only [doAll, foldlM_append]
  rfl

theorem doAll_snoc {ds : List D} {d : D} {s s' s'' : S} (h : doAll body ds s = some s')
    (hd : body d s' = some s'') : doAll body (ds ++ [d]) s = some s'' := by
  rw [doAll_append, h]
  simpa [doAll] using hd

/-! ### The input is read in one way -/

theorem Pushed.cons {c c' c'' : C} {d : D} {ds : List D} (h : next c = .ok (d, c'))
    (hds : Pushed next c' ds c'') : Pushed next c (d :: ds) c'' := by
  induction hds with
  | nil => exact .snoc .nil h
  | snoc _ hnext ih => exact .snoc ih hnext

theorem Pushed.first {c c₁ c' : C} {d : D} {ds : List D} (h : next c = .ok (d, c₁))
    (hds : Pushed next c ds c') :
    ds = [] ∧ c' = c ∨ ∃ rest, ds = d :: rest ∧ Pushed next c₁ rest c' := by
  induction hds with
  | nil => exact Or.inl ⟨rfl, rfl⟩
  | @snoc ds c₂ c₃ d₂ _ hnext ih =>
    refine Or.inr ?_
    rcases ih with ⟨rfl, rfl⟩ | ⟨rest, rfl, hrest⟩
    · obtain ⟨rfl, rfl⟩ := Prod.mk.inj (Except.ok.inj (h.symm.trans hnext))
      exact ⟨[], rfl, .nil⟩
    · exact ⟨rest ++ [d₂], rfl, .snoc hrest hnext⟩

theorem produced_of_error {c : C} {r r' : Bool} {ds : List D} (h : next c = .error r) :
    Produced next c ds r' ↔ ds = [] ∧ r' = r := by
  constructor
  · rintro ⟨c', hpushed, hend⟩
    have hnil : ds = [] ∧ c' = c := by
      clear hend
      induction hpushed with
      | nil => exact ⟨rfl, rfl⟩
      | snoc _ hnext ih =>
        obtain ⟨-, rfl⟩ := ih
        rw [h] at hnext
        cases hnext
    obtain ⟨rfl, rfl⟩ := hnil
    exact ⟨rfl, Except.error.inj (hend.symm.trans h)⟩
  · rintro ⟨rfl, rfl⟩
    exact ⟨c, .nil, h⟩

theorem produced_of_ok {c c₁ : C} {d : D} {r : Bool} {ds : List D} (h : next c = .ok (d, c₁)) :
    Produced next c ds r ↔ ∃ rest, ds = d :: rest ∧ Produced next c₁ rest r := by
  constructor
  · rintro ⟨c', hpushed, hend⟩
    rcases hpushed.first h with ⟨rfl, rfl⟩ | ⟨rest, rfl, hrest⟩
    · rw [h] at hend
      cases hend
    · exact ⟨rest, rfl, c', hrest, hend⟩
  · rintro ⟨rest, rfl, c', hrest, hend⟩
    exact ⟨c', hrest.cons h, hend⟩

/-! ### What every run keeps -/

/-- The tasks that were done, held and queued are those that were pushed; a worker returns only when
nothing is queued and nothing more will be. -/
structure Inv (next : C → Except Bool (D × C)) (body : D → S → Option S) (c₀ : C) (s₀ : S)
    (p : Pool C D S) (log ds : List D) : Prop where
  pushed : Pushed next c₀ ds p.input
  did : doAll body log s₀ = some p.state
  perm : (log ++ tasks p.workers ++ p.queue).Perm ds
  fifo : p.workers.length = 1 → log ++ tasks p.workers ++ p.queue = ds
  done : p.done = some true → next p.input = .error true
  returned : .returned ∈ p.workers → p.queue = [] ∧ p.done.isSome

theorem inv_start (n : ℕ) : Inv next body c₀ s₀ (start n c₀ s₀) [] [] := by
  have htasks : tasks (replicate n (Worker.waiting : Worker D)) = [] :=
    tasks_eq_nil fun w hw => eq_of_mem_replicate hw ▸ rfl
  refine ⟨.nil, rfl, ?_, fun _ => ?_, nofun, fun h => ?_⟩
  · simp [start, htasks]
  · simp [start, htasks]
  · cases eq_of_mem_replicate h

theorem returned_of_split {ws ws' : List (Worker D)} {w w' : Worker D} (hw' : w'.task.isSome ∨ w' = .waiting)
    (h : .returned ∈ ws ++ w' :: ws') : .returned ∈ ws ++ w :: ws' := by
  simp only [mem_append, mem_cons] at h ⊢
  rcases h with h | rfl | h
  · exact Or.inl h
  · rcases hw' with hw' | hw' <;> cases hw'
  · exact Or.inr (Or.inr h)

theorem alone {ws ws' : List (Worker D)} {w : Worker D} (h : (ws ++ w :: ws').length = 1) :
    ws = [] ∧ ws' = [] := by
  rw [length_append, length_cons] at h
  exact ⟨length_eq_zero_iff.1 (by omega), length_eq_zero_iff.1 (by omega)⟩

/-- The step lemma. -/
theorem inv_step {p p' : Pool C D S} {log ds : List D} (h : Inv next body c₀ s₀ p log ds)
    (hstep : Step next body p p') : ∃ log' ds', Inv next body c₀ s₀ p' log' ds' := by
  obtain ⟨hpushed, hlog, hperm, hfifo, hdone, hret⟩ := h
  cases hstep with
  | push hnext =>
    refine ⟨log, ds ++ [_], .snoc hpushed hnext, hlog, ?_, fun h1 => ?_, nofun, fun h => ?_⟩
    · rw [← append_assoc]
      exact hperm.append_right _
    · rw [← append_assoc, hfifo h1]
    · cases (hret h).2
  | finish hnext =>
    refine ⟨log, ds, hpushed, hlog, hperm, hfifo, fun h => ?_, fun h => ⟨(hret h).1, rfl⟩⟩
    cases h
    exact hnext
  | giveUp => exact ⟨log, ds, hpushed, hlog, hperm, hfifo, nofun, fun h => ⟨(hret h).1, rfl⟩⟩
  | @take c q done s d ws ws' =>
    simp only [tasks_append, tasks_waiting] at hperm hfifo
    refine ⟨log, ds, hpushed, hlog, ?_, fun h1 => ?_, hdone, fun h => ?_⟩
    · refine List.Perm.trans ?_ hperm
      simp only [tasks_append, tasks_holding, append_assoc, cons_append]
      exact List.Perm.append_left _ (List.Perm.append_left _ perm_middle.symm)
    · obtain ⟨rfl, rfl⟩ := alone h1
      simpa using hfifo rfl
    · cases (hret (returned_of_split (Or.inl rfl) h)).1
  | @work c q done s s' d ws ws' hbody =>
    simp only [tasks_append, tasks_holding] at hperm hfifo
    refine ⟨log ++ [d], ds, hpushed, doAll_snoc hlog hbody, ?_, fun h1 => ?_, hdone, fun h => ?_⟩
    · refine List.Perm.trans ?_ hperm
      simp only [tasks_append, tasks_waiting, append_assoc, cons_append, nil_append]
      exact List.Perm.append_left _ perm_middle.symm
    · obtain ⟨rfl, rfl⟩ := alone h1
      simpa using hfifo rfl
    · exact hret (returned_of_split (Or.inr rfl) h)
  | leave ws ws' =>
    simp only [tasks_append, tasks_waiting] at hperm hfifo
    refine ⟨log, ds, hpushed, hlog, ?_, fun h1 => ?_, hdone, fun _ => ⟨rfl, rfl⟩⟩
    · simpa only [tasks_append, tasks_returned] using hperm
    · obtain ⟨rfl, rfl⟩ := alone h1
      simpa using hfifo rfl

theorem length_step {p p' : Pool C D S} (hstep : Step next body p p') :
    p'.workers.length = p.workers.length := by
  cases hstep <;> simp

theorem inv_run {n : ℕ} {p : Pool C D S}
    (h : Relation.ReflTransGen (Step next body) (start n c₀ s₀) p) :
    p.workers.length = n ∧ ∃ log ds, Inv next body c₀ s₀ p log ds := by
  induction h with
  | refl => exact ⟨length_replicate, [], [], inv_start n⟩
  | tail _ hstep ih =>
    obtain ⟨hlength, log, ds, hinv⟩ := ih
    exact ⟨(length_step hstep).trans hlength, inv_step hinv hstep⟩

/-- **What some workers have done at the end**: every task, in some order, and one worker alone in
the order of the input. -/
theorem finished_spec {n : ℕ} (hn : n ≠ 0) {p : Pool C D S}
    (h : Relation.ReflTransGen (Step next body) (start n c₀ s₀) p) (hp : p.Finished true) :
    ∃ ds log, Produced next c₀ ds true ∧ log.Perm ds ∧ (n = 1 → log = ds) ∧
      doAll body log s₀ = some p.state := by
  obtain ⟨hlength, log, ds, hinv⟩ := inv_run h
  have htasks : tasks p.workers = [] := tasks_eq_nil fun w hw => hp.2 w hw ▸ rfl
  have hreturned : .returned ∈ p.workers := by
    obtain ⟨w, hw⟩ := exists_mem_of_length_pos (by omega : 0 < p.workers.length)
    exact hp.2 w hw ▸ hw
  have hqueue := (hinv.returned hreturned).1
  refine ⟨ds, log, ⟨p.input, hinv.pushed, hinv.done hp.1⟩, ?_, fun h1 => ?_, hinv.did⟩
  · simpa [htasks, hqueue] using hinv.perm
  · simpa [htasks, hqueue] using hinv.fifo (hlength.trans h1)

/-! ### Runs that exist -/

theorem run_pushed {ds : List D} {c : C} (h : Pushed next c₀ ds c) (ws : List (Worker D)) (s : S) :
    Relation.ReflTransGen (Step next body) ⟨c₀, [], ws, none, s⟩ ⟨c, ds, ws, none, s⟩ := by
  induction h with
  | nil => exact .refl
  | snoc _ hnext ih => exact ih.tail (.push hnext)

theorem run_drain {c : C} {done : Option Bool} (ws ws' : List (Worker D)) {ds : List D} (q : List D)
    {s s' : S} (h : doAll body ds s = some s') :
    Relation.ReflTransGen (Step next body) ⟨c, ds ++ q, ws ++ .waiting :: ws', done, s⟩
      ⟨c, q, ws ++ .waiting :: ws', done, s'⟩ := by
  induction ds generalizing s with
  | nil =>
    cases h
    exact .refl
  | cons d ds ih =>
    obtain ⟨s₁, hd, hrest⟩ := Option.bind_eq_some_iff.mp h
    exact .head (.take ws ws') (.head (.work ws ws' hd) (ih hrest))

theorem run_leave {c : C} {r : Bool} {s : S} (ws : List (Worker D)) (n : ℕ) :
    Relation.ReflTransGen (Step next body) ⟨c, [], ws ++ replicate n .waiting, some r, s⟩
      ⟨c, [], ws ++ replicate n .returned, some r, s⟩ := by
  induction n generalizing ws with
  | zero => exact .refl
  | succ n ih =>
    have hrest := ih (ws ++ [.returned])
    simp only [append_assoc, singleton_append] at hrest
    exact .head (.leave ws (replicate n .waiting)) hrest

theorem exists_idle {ds : List D} {r : Bool} (h : Produced next c₀ ds r) :
    ∃ p : Pool C D S, Relation.ReflTransGen (Step next body) (start 0 c₀ s₀) p ∧ p.Finished r ∧
      p.state = s₀ := by
  obtain ⟨c, hpushed, hend⟩ := h
  exact ⟨_, (run_pushed hpushed [] s₀).tail (.finish hend), ⟨rfl, nofun⟩, rfl⟩

/-- **Two workers or more can do any one task last.** -/
theorem exists_delayed {n : ℕ} (hn : 2 ≤ n) {ds ds' : List D} {d : D} {r : Bool}
    (h : Produced next c₀ (ds ++ d :: ds') r) {s : S}
    (hall : doAll body (ds ++ ds' ++ [d]) s₀ = some s) :
    ∃ p : Pool C D S, Relation.ReflTransGen (Step next body) (start n c₀ s₀) p ∧ p.Finished r ∧
      p.state = s := by
  obtain ⟨c, hpushed, hend⟩ := h
  obtain ⟨m, rfl⟩ := Nat.exists_eq_add_of_le hn
  rw [doAll_append, doAll_append] at hall
  obtain ⟨s₂, hall, hlast⟩ := Option.bind_eq_some_iff.mp hall
  obtain ⟨s₁, hfirst, hrest⟩ := Option.bind_eq_some_iff.mp hall
  let ws : List (Worker D) := replicate m .waiting
  have hstart : (start (2 + m) c₀ s₀ : Pool C D S) = ⟨c₀, [], .waiting :: .waiting :: ws, none, s₀⟩ := by
    rw [start, Nat.add_comm, replicate_succ, replicate_succ]
  -- the first worker takes the task, and the second does all others before it goes on
  have hrun : Relation.ReflTransGen (Step next body) (start (2 + m) c₀ s₀)
      ⟨c, [], .waiting :: .waiting :: ws, some r, s⟩ := by
    rw [hstart]
    refine ((run_pushed hpushed _ s₀).tail (.finish hend)).trans ?_
    refine (run_drain [.waiting] ws (d :: ds') hfirst).trans ?_
    refine .head (.take [] (.waiting :: ws)) ?_
    have hdrain := @run_drain _ _ _ next _ c (some r) [.holding d] ws _ [] _ _ hrest
    rw [append_nil] at hdrain
    refine hdrain.tail (.work [] (.waiting :: ws) ?_)
    simpa [doAll] using hlast
  have hleave := @run_leave _ _ _ next body c r s [] (2 + m)
  rw [Nat.add_comm 2 m, replicate_succ, replicate_succ] at hleave
  refine ⟨_, hrun.trans hleave, ⟨rfl, fun w hw => ?_⟩, rfl⟩
  exact eq_of_mem_replicate (n := m + 2) hw

end WorkQueue
end Komodo
