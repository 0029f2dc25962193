import Dotchat.Library.Program
import Mathlib.Data.List.Perm.Basic

/-!
Programs that run side by side on one store. A pool is a list of threads and the
store they share; a step starts a thread or makes the next call of one of them,
and each thread keeps the trace of its calls with their answers. Two rules lift
facts about single programs to every interleaving. `Meets` is a proof outline
against interference: the calls of the program keep a discipline, and what it
relies on survives every change the discipline allows. The ledger rule adds up
what the calls of all threads have put into the store.
-/
namespace Threads

variable {C : Type} {Ans : C → Type} {E W α β L : Type}

/-- A call with its answer. -/
abbrev Event (C : Type) (Ans : C → Type) (E : Type) := (c : C) × Except E (Ans c)

/-- What a thread was started for, what is left of its program, and its calls so
far, oldest first. -/
structure Thread (L C : Type) (Ans : C → Type) (E α : Type) where
  label : L
  program : Program C Ans E α
  trace : List (Event C Ans E) := []

structure Pool (L C : Type) (Ans : C → Type) (E α W : Type) where
  threads : List (Thread L C Ans E α) := []
  store : W

inductive Step (perform : Program.Store C Ans E W) (start : L → Program C Ans E α) :
    Pool L C Ans E α W → Pool L C Ans E α W → Prop
  | spawn (pool : Pool L C Ans E α W) (l : L) : Step perform start pool
      { pool with threads := pool.threads ++ [{ label := l, program := start l }] }
  | call (before after : List (Thread L C Ans E α)) (l : L) (c : C)
      (next : Except E (Ans c) → Program C Ans E α) (trace : List (Event C Ans E)) (w : W) :
      Step perform start ⟨before ++ ⟨l, .call c next, trace⟩ :: after, w⟩
        ⟨before ++ ⟨l, next (perform c w).1, trace ++ [⟨c, (perform c w).1⟩]⟩ :: after,
          (perform c w).2⟩

/-- The pools that steps reach from a store without threads. -/
inductive Reached (perform : Program.Store C Ans E W) (start : L → Program C Ans E α) (w : W) :
    Pool L C Ans E α W → Prop
  | init : Reached perform start w { store := w }
  | step {pool pool' : Pool L C Ans E α W} (h : Reached perform start w pool)
      (hstep : Step perform start pool pool') : Reached perform start w pool'

/-- What every call of every thread keeps: an invariant of the store, and an
order in which the store only grows. -/
structure Discipline (W : Type) where
  Inv : W → Prop
  Grows : W → W → Prop
  refl : ∀ w, Grows w w
  trans : ∀ {w v u}, Grows w v → Grows v u → Grows w u

/-- The calls of the program keep the discipline, and it ends with `Q`, if other
threads may change the store within the discipline between any two calls. -/
def Meets (perform : Program.Store C Ans E W) (D : Discipline W)
    (Q : Outcome E α → List (Event C Ans E) → W → Prop) :
    Program C Ans E α → List (Event C Ans E) → W → Prop
  | .done o, trace, w => ∀ v, D.Grows w v → D.Inv v → Q o trace v
  | .call c next, trace, w => ∀ v, D.Grows w v → D.Inv v →
      D.Inv (perform c v).2 ∧ D.Grows v (perform c v).2 ∧
        Meets perform D Q (next (perform c v).1) (trace ++ [⟨c, (perform c v).1⟩]) (perform c v).2

section Rules

variable {perform : Program.Store C Ans E W} {D : Discipline W}
  {Q : Outcome E α → List (Event C Ans E) → W → Prop} {p : Program C Ans E α}
  {trace : List (Event C Ans E)} {w v : W}

theorem Meets.stable (h : Meets perform D Q p trace w) (hv : D.Grows w v) :
    Meets perform D Q p trace v := by
  cases p with
  | done o =>
    intro u hu
    exact h u (D.trans hv hu)
  | call c next =>
    intro u hu
    exact h u (D.trans hv hu)

/-- The invariant may be assumed, and so may any change before the first call. -/
theorem Meets.of_grown (h : ∀ v, D.Grows w v → D.Inv v → Meets perform D Q p trace v) :
    Meets perform D Q p trace w := by
  cases p with
  | done o =>
    intro v hv hinv
    exact h v hv hinv v (D.refl v) hinv
  | call c next =>
    intro v hv hinv
    exact h v hv hinv v (D.refl v) hinv

theorem Meets.weaken {Q' : Outcome E α → List (Event C Ans E) → W → Prop}
    (h : Meets perform D Q p trace w)
    (hQ : ∀ o trace v, D.Inv v → Q o trace v → Q' o trace v) :
    Meets perform D Q' p trace w := by
  induction p generalizing trace w with
  | done o =>
    intro v hv hinv
    exact hQ o trace v hinv (h v hv hinv)
  | call c next ih =>
    intro v hv hinv
    obtain ⟨hcall, hgrows, hnext⟩ := h v hv hinv
    exact ⟨hcall, hgrows, ih _ hnext⟩

/-- The end is a growth of every store before the program. -/
theorem Meets.remember {u : W} (h : Meets perform D Q p trace w) (hu : D.Grows u w) :
    Meets perform D (fun o trace v => D.Grows u v ∧ Q o trace v) p trace w := by
  induction p generalizing trace w with
  | done o =>
    intro v hv hinv
    exact ⟨D.trans hu hv, h v hv hinv⟩
  | call c next ih =>
    intro v hv hinv
    obtain ⟨hcall, hgrows, hnext⟩ := h v hv hinv
    exact ⟨hcall, hgrows, ih _ hnext (D.trans hu (D.trans hv hgrows))⟩

/-- How the rest of a program goes on from the outcome of its beginning. -/
def Continues (perform : Program.Store C Ans E W) (D : Discipline W)
    (Q : Outcome E β → List (Event C Ans E) → W → Prop) (f : α → Program C Ans E β) :
    Outcome E α → List (Event C Ans E) → W → Prop
  | .returned a, trace, w => Meets perform D Q (f a) trace w
  | .threw e, trace, w => Q (.threw e) trace w
  | .running, trace, w => Q .running trace w

theorem Meets.bind {f : α → Program C Ans E β} {Q : Outcome E β → List (Event C Ans E) → W → Prop}
    (h : Meets perform D (Continues perform D Q f) p trace w) :
    Meets perform D Q (p >>= f) trace w := by
  induction p generalizing trace w with
  | done o =>
    cases o with
    | returned a => exact Meets.of_grown h
    | threw e => exact h
    | running => exact h
  | call c next ih =>
    intro v hv hinv
    obtain ⟨hcall, hgrows, hnext⟩ := h v hv hinv
    exact ⟨hcall, hgrows, ih _ hnext⟩

/-- How a handler goes on from the outcome of the program it guards. -/
def Recovers (perform : Program.Store C Ans E W) (D : Discipline W)
    (Q : Outcome E α → List (Event C Ans E) → W → Prop) (handler : E → Program C Ans E α) :
    Outcome E α → List (Event C Ans E) → W → Prop
  | .returned a, trace, w => Q (.returned a) trace w
  | .threw e, trace, w => Meets perform D Q (handler e) trace w
  | .running, trace, w => Q .running trace w

theorem Meets.tryCatch {handler : E → Program C Ans E α}
    (h : Meets perform D (Recovers perform D Q handler) p trace w) :
    Meets perform D Q (p.tryCatch handler) trace w := by
  induction p generalizing trace w with
  | done o =>
    cases o with
    | returned a => exact h
    | threw e => exact Meets.of_grown h
    | running => exact h
  | call c next ih =>
    intro v hv hinv
    obtain ⟨hcall, hgrows, hnext⟩ := h v hv hinv
    exact ⟨hcall, hgrows, ih _ hnext⟩

/-- The outcome of a call that nothing follows. -/
def outcomeOf {c : C} : Except E (Ans c) → Outcome E (Ans c)
  | .ok a => .returned a
  | .error e => .threw e

theorem Meets.invoke {c : C} {Q : Outcome E (Ans c) → List (Event C Ans E) → W → Prop}
    (h : ∀ v, D.Grows w v → D.Inv v → D.Inv (perform c v).2 ∧ D.Grows v (perform c v).2 ∧
      ∀ u, D.Grows (perform c v).2 u → D.Inv u →
        Q (outcomeOf (perform c v).1) (trace ++ [⟨c, (perform c v).1⟩]) u) :
    Meets perform D Q (Program.invoke c) trace w := by
  intro v hv hinv
  obtain ⟨hcall, hgrows, hend⟩ := h v hv hinv
  refine ⟨hcall, hgrows, ?_⟩
  cases hans : (perform c v).1 with
  | ok a =>
    rw [hans] at hend
    exact hend
  | error e =>
    rw [hans] at hend
    exact hend

end Rules

section Pools

variable {perform : Program.Store C Ans E W} {start : L → Program C Ans E α} {w : W}
  {pool : Pool L C Ans E α W}

/-- Programs that keep the discipline keep it in every interleaving. -/
theorem Reached.meets {D : Discipline W}
    {Q : L → Outcome E α → List (Event C Ans E) → W → Prop} (hw : D.Inv w)
    (hstart : ∀ l v, D.Inv v → Meets perform D (Q l) (start l) [] v)
    (h : Reached perform start w pool) :
    D.Inv pool.store ∧ D.Grows w pool.store ∧
      ∀ t ∈ pool.threads, Meets perform D (Q t.label) t.program t.trace pool.store := by
  induction h with
  | init => exact ⟨hw, D.refl w, by simp⟩
  | step _ hstep ih =>
    obtain ⟨hinv, hgrown, hthreads⟩ := ih
    cases hstep with
    | spawn pool l =>
      refine ⟨hinv, hgrown, ?_⟩
      intro t ht
      rcases List.mem_append.mp ht with ht | ht
      · exact hthreads t ht
      · rw [List.mem_singleton.mp ht]
        exact hstart l _ hinv
    | call before after l c next trace v =>
      have hcalling := hthreads ⟨l, .call c next, trace⟩ (by simp)
      obtain ⟨hcall, hgrows, hnext⟩ := hcalling v (D.refl v) hinv
      refine ⟨hcall, D.trans hgrown hgrows, ?_⟩
      intro t ht
      have hother : t ∈ before ++ ⟨l, .call c next, trace⟩ :: after →
          Meets perform D (Q t.label) t.program t.trace (perform c v).2 :=
        fun ht => (hthreads t ht).stable hgrows
      simp only [List.mem_append, List.mem_cons] at ht hother
      rcases ht with ht | rfl | ht
      · exact hother (.inl ht)
      · exact hnext
      · exact hother (.inr (.inr ht))

/-- What has been put into the store is what the calls of the threads have put
into it. -/
theorem Reached.ledger {X : Type} (items : W → List X) (book : Event C Ans E → List X)
    (h : Reached perform start w pool)
    (hbook : ∀ c v, items (perform c v).2 = items v ++ book ⟨c, (perform c v).1⟩) :
    (items pool.store).Perm
      (items w ++ pool.threads.flatMap fun t => t.trace.flatMap book) := by
  induction h with
  | init => simp
  | step _ hstep ih =>
    cases hstep with
    | spawn pool l => simpa using ih
    | call before after l c next trace v =>
      rw [hbook c v]
      simp only [List.flatMap_append, List.flatMap_cons, List.flatMap_nil, List.append_nil,
        List.append_assoc] at ih ⊢
      refine (ih.append_right _).trans ?_
      simp only [List.append_assoc]
      refine .append_left _ (.append_left _ (.append_left _ ?_))
      exact List.perm_append_comm

/-- The same threads under other labels. -/
def Pool.relabel {L' : Type} (f : L' → L) (pool : Pool L' C Ans E α W) : Pool L C Ans E α W where
  threads := pool.threads.map fun t => ⟨f t.label, t.program, t.trace⟩
  store := pool.store

theorem Reached.relabel {L' : Type} {f : L' → L} {pool : Pool L' C Ans E α W}
    (h : Reached perform (fun l => start (f l)) w pool) :
    Reached perform start w (pool.relabel f) := by
  induction h with
  | init => exact .init
  | @step first _ _ hstep ih =>
    refine .step ih ?_
    cases hstep with
    | spawn _ l =>
      have hspawn : Step perform start (first.relabel f) _ := .spawn (first.relabel f) (f l)
      simpa only [Pool.relabel, List.map_append, List.map_singleton] using hspawn
    | call before after l c next trace v =>
      have hcall : Step perform start _ _ :=
        .call (before.map fun t => ⟨f t.label, t.program, t.trace⟩)
          (after.map fun t => ⟨f t.label, t.program, t.trace⟩) (f l) c next trace v
      simpa only [Pool.relabel, List.map_append, List.map_cons] using hcall

end Pools

/-- What a scheduler can choose: start a thread, or let the next call of a thread
happen. -/
inductive Move (L : Type)
  | spawn (l : L)
  | call (index : ℕ)

section Schedules

variable (perform : Program.Store C Ans E W) (start : L → Program C Ans E α)

/-- A call of a thread that has ended, or is not there, changes nothing. -/
def advance (pool : Pool L C Ans E α W) : Move L → Pool L C Ans E α W
  | .spawn l => { pool with threads := pool.threads ++ [{ label := l, program := start l }] }
  | .call index =>
      match pool.threads[index]? with
      | some ⟨l, .call c next, trace⟩ =>
          { threads := pool.threads.set index
              ⟨l, next (perform c pool.store).1, trace ++ [⟨c, (perform c pool.store).1⟩]⟩
            store := (perform c pool.store).2 }
      | _ => pool

/-- The pool after the moves of a schedule. -/
def schedule (pool : Pool L C Ans E α W) (moves : List (Move L)) : Pool L C Ans E α W :=
  moves.foldl (advance perform start) pool

variable {perform start} {w : W} {pool : Pool L C Ans E α W}

theorem Reached.advance (h : Reached perform start w pool) (m : Move L) :
    Reached perform start w (advance perform start pool m) := by
  cases m with
  | spawn l => exact .step h (.spawn pool l)
  | call index =>
    obtain ⟨threads, v⟩ := pool
    cases hthread : threads[index]? with
    | none => simpa only [Threads.advance, hthread] using h
    | some t =>
      obtain ⟨l, p, trace⟩ := t
      cases p with
      | done o => simpa only [Threads.advance, hthread] using h
      | call c next =>
        obtain ⟨hlt, hget⟩ := List.getElem?_eq_some_iff.mp hthread
        have hsplit : threads.take index ++ ⟨l, .call c next, trace⟩ :: threads.drop (index + 1) =
            threads := by
          rw [← hget, List.getElem_cons_drop, List.take_append_drop]
        have hstep : Step perform start _ _ := .call (threads.take index)
          (threads.drop (index + 1)) l c next trace v
        rw [hsplit] at hstep
        simp only [Threads.advance, hthread, List.set_eq_take_append_cons_drop, if_pos hlt]
        exact .step h hstep

/-- Schedules only reach what steps reach. -/
theorem Reached.schedule (h : Reached perform start w pool) (moves : List (Move L)) :
    Reached perform start w (schedule perform start pool moves) := by
  induction moves generalizing pool with
  | nil => exact h
  | cons m moves ih => exact ih (h.advance m)

end Schedules
end Threads
