import Mathlib.Logic.Basic

/-!
Programs that interact with a store through typed calls. A program either ends
or makes a call and goes on with its answer, which may be a failure; so a
handler written as a program says which calls it makes in which order, and a
store says what each call does. `run` executes a program alone on a store. The
rules below run programs step by step, lift an invariant of the single calls to
every run, tell the programs that only read from those that write only when
they return, and compare the runs of one program on two related stores.
-/

/-- How a program ends: with a value, with an exception, or not within the
number of loop turns it was given. -/
inductive Outcome (E α : Type)
  | returned (a : α)
  | threw (e : E)
  | running
  deriving DecidableEq

def Outcome.map {E α β : Type} (f : α → β) : Outcome E α → Outcome E β
  | .returned a => .returned (f a)
  | .threw e => .threw e
  | .running => .running

inductive Program (C : Type) (Ans : C → Type) (E α : Type)
  | done (o : Outcome E α)
  | call (c : C) (next : Except E (Ans c) → Program C Ans E α)

namespace Program

variable {C : Type} {Ans : C → Type} {E W α β : Type}

def bind : Program C Ans E α → (α → Program C Ans E β) → Program C Ans E β
  | done (.returned a), f => f a
  | done (.threw e), _ => done (.threw e)
  | done .running, _ => done .running
  | call c next, f => call c fun r => (next r).bind f

instance : Monad (Program C Ans E) where
  pure a := done (.returned a)
  bind := bind

theorem pure_bind (a : α) (f : α → Program C Ans E β) : (pure a : Program C Ans E α).bind f = f a :=
  rfl

def throw (e : E) : Program C Ans E α := done (.threw e)

/-- A handler that rethrows what it does not treat. -/
def tryCatch : Program C Ans E α → (E → Program C Ans E α) → Program C Ans E α
  | done (.threw e), handler => handler e
  | done o, _ => done o
  | call c next, handler => call c fun r => (next r).tryCatch handler

/-- Make a call and return its answer, or throw its failure. -/
def invoke (c : C) : Program C Ans E (Ans c) :=
  call c fun
    | .ok a => done (.returned a)
    | .error e => done (.threw e)

def ofExcept : Except E α → Program C Ans E α
  | .ok a => done (.returned a)
  | .error e => done (.threw e)

/-- What a store answers to a call, and the store it leaves. -/
abbrev Store (C : Type) (Ans : C → Type) (E W : Type) := (c : C) → W → Except E (Ans c) × W

def run (perform : Store C Ans E W) : Program C Ans E α → W → Outcome E α × W
  | done o, w => (o, w)
  | call c next, w => (next (perform c w).1).run perform (perform c w).2

def ended : Program C Ans E α → Bool
  | done _ => true
  | call _ _ => false

theorem ended_iff {p : Program C Ans E α} : p.ended = true ↔ ∃ o, p = done o := by
  cases p with
  | done o => exact iff_of_true rfl ⟨o, rfl⟩
  | call c next =>
    apply iff_of_false
    · exact Bool.false_ne_true
    · rintro ⟨o, ho⟩
      cases ho

section Run

variable (perform : Store C Ans E W)

theorem run_invoke (c : C) (w : W) : run perform (invoke c) w =
    (match (perform c w).1 with | .ok a => .returned a | .error e => .threw e,
      (perform c w).2) := by
  simp only [invoke, run]
  cases (perform c w).1 <;> rfl

theorem run_bind (p : Program C Ans E α) (f : α → Program C Ans E β) (w : W) :
    run perform (p >>= f) w =
      match run perform p w with
      | (.returned a, w') => run perform (f a) w'
      | (.threw e, w') => (.threw e, w')
      | (.running, w') => (.running, w') := by
  induction p generalizing w with
  | done o => cases o <;> rfl
  | call c next ih => exact ih _ _

theorem run_map (f : α → β) {p : Program C Ans E α} {w w' : W} {o : Outcome E α}
    (h : run perform p w = (o, w')) : run perform (f <$> p) w = (o.map f, w') := by
  have hbind : run perform (p >>= fun a => pure (f a)) w = (o.map f, w') := by
    rw [run_bind, h]
    cases o <;> rfl
  exact hbind

theorem run_tryCatch (p : Program C Ans E α) (handler : E → Program C Ans E α) (w : W) :
    run perform (p.tryCatch handler) w =
      match run perform p w with
      | (.threw e, w') => run perform (handler e) w'
      | (.returned a, w') => (.returned a, w')
      | (.running, w') => (.running, w') := by
  induction p generalizing w with
  | done o => cases o <;> rfl
  | call c next ih => exact ih _ _

variable {perform} {p : Program C Ans E α} {f : α → Program C Ans E β} {w w' : W}

theorem run_invoke_of_ok {c : C} {a : Ans c} (h : perform c w = (.ok a, w')) :
    run perform (invoke c) w = (.returned a, w') := by
  rw [run_invoke, h]

theorem run_invoke_of_error {c : C} {e : E} (h : perform c w = (.error e, w')) :
    run perform (invoke c) w = (.threw e, w') := by
  rw [run_invoke, h]

theorem run_bind_of_returned {a : α} (h : run perform p w = (.returned a, w')) :
    run perform (p >>= f) w = run perform (f a) w' := by
  rw [run_bind, h]

theorem run_bind_of_threw {e : E} (h : run perform p w = (.threw e, w')) :
    run perform (p >>= f) w = (.threw e, w') := by
  rw [run_bind, h]

end Run

section Rules

variable {perform : Store C Ans E W}

/-- An invariant of every single call is one of every run. -/
theorem run_keeps {I : W → Prop} (hI : ∀ c w, I w → I (perform c w).2) (p : Program C Ans E α)
    {w : W} (hw : I w) : I (run perform p w).2 := by
  induction p generalizing w with
  | done o => exact hw
  | call c next ih => exact ih _ (hI c w hw)

/-- Every run of the program keeps what `view` shows of the store. -/
def Keeps {V : Type} (perform : Store C Ans E W) (view : W → V) (p : Program C Ans E α) : Prop :=
  ∀ w, view (run perform p w).2 = view w

/-- Every run keeps what `view` shows of the store, unless it returns a value
that counts as a success. -/
def AllOrNothing {V : Type} (perform : Store C Ans E W) (view : W → V) (ok : α → Prop)
    (p : Program C Ans E α) : Prop :=
  ∀ w, (∃ a, (run perform p w).1 = .returned a ∧ ok a) ∨ view (run perform p w).2 = view w

section Effects

variable {V : Type} {view : W → V} {ok : α → Prop} {p : Program C Ans E α}

theorem Keeps.done (o : Outcome E α) : Keeps perform view (done o : Program C Ans E α) :=
  fun _ => rfl

theorem Keeps.invoke {c : C} (h : ∀ w, view (perform c w).2 = view w) :
    Keeps perform view (invoke c) := by
  intro w
  rw [run_invoke]
  exact h w

theorem Keeps.bind {f : α → Program C Ans E β} (hp : Keeps perform view p)
    (hf : ∀ a, Keeps perform view (f a)) : Keeps perform view (p >>= f) := by
  intro w
  have hview := hp w
  rw [run_bind]
  generalize run perform p w = r at hview ⊢
  rcases r with ⟨a | e | _, w'⟩
  · exact (hf a w').trans hview
  · exact hview
  · exact hview

theorem Keeps.tryCatch {handler : E → Program C Ans E α} (hp : Keeps perform view p)
    (hh : ∀ e, Keeps perform view (handler e)) : Keeps perform view (p.tryCatch handler) := by
  intro w
  have hview := hp w
  rw [run_tryCatch]
  generalize run perform p w = r at hview ⊢
  rcases r with ⟨a | e | _, w'⟩
  · exact hview
  · exact (hh e w').trans hview
  · exact hview

theorem Keeps.allOrNothing (h : Keeps perform view p) : AllOrNothing perform view ok p :=
  fun w => .inr (h w)

theorem AllOrNothing.invoke {c : C}
    (h : ∀ w, (∃ a, (perform c w).1 = .ok a) ∨ view (perform c w).2 = view w) :
    AllOrNothing perform view (fun _ => True) (invoke c) := by
  intro w
  rw [run_invoke]
  rcases h w with ⟨a, ha⟩ | hview
  · rw [ha]
    exact .inl ⟨a, rfl, trivial⟩
  · exact .inr hview

/-- What comes before only reads. -/
theorem AllOrNothing.after {f : α → Program C Ans E β} {ok : β → Prop}
    (hp : Keeps perform view p) (hf : ∀ a, AllOrNothing perform view ok (f a)) :
    AllOrNothing perform view ok (p >>= f) := by
  intro w
  have hview := hp w
  rw [run_bind]
  generalize run perform p w = r at hview ⊢
  rcases r with ⟨a | e | _, w'⟩
  · exact (hf a w').imp_right fun h => h.trans hview
  · exact .inr hview
  · exact .inr hview

/-- What comes behind only returns. -/
theorem AllOrNothing.before {f : α → Program C Ans E β} {ok' : β → Prop}
    (hp : AllOrNothing perform view ok p)
    (hf : ∀ a, ∃ b, f a = .done (.returned b) ∧ ok' b) :
    AllOrNothing perform view ok' (p >>= f) := by
  intro w
  have hview := hp w
  rw [run_bind]
  generalize run perform p w = r at hview ⊢
  rcases r with ⟨a | e | _, w'⟩
  · obtain ⟨b, hb, hok⟩ := hf a
    simp only [hb, run]
    exact .inl ⟨b, rfl, hok⟩
  · exact .inr (hview.resolve_left (by simp))
  · exact .inr (hview.resolve_left (by simp))

theorem AllOrNothing.tryCatch {handler : E → Program C Ans E α}
    (hp : AllOrNothing perform view ok p) (hh : ∀ e, Keeps perform view (handler e)) :
    AllOrNothing perform view ok (p.tryCatch handler) := by
  intro w
  have hview := hp w
  rw [run_tryCatch]
  generalize run perform p w = r at hview ⊢
  rcases r with ⟨a | e | _, w'⟩
  · exact hview
  · exact .inr ((hh e w').trans (hview.resolve_left (by simp)))
  · exact hview

end Effects

/-- The runs of a program from two stores end alike, in related stores. -/
def Agrees (perform : Store C Ans E W) (R : W → W → Prop) (p : Program C Ans E α) (w v : W) :
    Prop :=
  (run perform p w).1 = (run perform p v).1 ∧ R (run perform p w).2 (run perform p v).2

variable {R : W → W → Prop} {w v : W}

theorem Agrees.done (o : Outcome E α) (h : R w v) :
    Agrees perform R (done o : Program C Ans E α) w v :=
  ⟨rfl, h⟩

theorem Agrees.invoke {c : C} (hans : (perform c w).1 = (perform c v).1)
    (h : R (perform c w).2 (perform c v).2) : Agrees perform R (invoke c) w v := by
  rw [Agrees, run_invoke, run_invoke, hans]
  exact ⟨rfl, h⟩

/-- The second program has to agree only from what the first can return. -/
theorem Agrees.bind {p : Program C Ans E α} {f : α → Program C Ans E β}
    (hp : Agrees perform R p w v)
    (hf : ∀ a w' v', run perform p w = (.returned a, w') → R w' v' →
      Agrees perform R (f a) w' v') : Agrees perform R (p >>= f) w v := by
  obtain ⟨hout, hstore⟩ := hp
  rw [Agrees, run_bind, run_bind]
  rcases hw : run perform p w with ⟨o, w'⟩
  rcases hv : run perform p v with ⟨o', v'⟩
  rw [hw, hv] at hout hstore
  cases hout
  cases o with
  | returned a => exact hf a w' v' hw hstore
  | threw e => exact ⟨rfl, hstore⟩
  | running => exact ⟨rfl, hstore⟩

theorem Agrees.bind_pure {p : Program C Ans E α} (hp : Agrees perform R p w v) (f : α → β) :
    Agrees perform R (p >>= fun a => pure (f a)) w v := by
  apply hp.bind
  intro a w' v' _ h
  exact .done _ h

theorem Agrees.tryCatch {p : Program C Ans E α} {handler : E → Program C Ans E α}
    (hp : Agrees perform R p w v)
    (hh : ∀ e w' v', R w' v' → Agrees perform R (handler e) w' v') :
    Agrees perform R (p.tryCatch handler) w v := by
  obtain ⟨hout, hstore⟩ := hp
  rw [Agrees, run_tryCatch, run_tryCatch]
  rcases hw : run perform p w with ⟨o, w'⟩
  rcases hv : run perform p v with ⟨o', v'⟩
  rw [hw, hv] at hout hstore
  cases hout
  cases o with
  | returned a => exact ⟨rfl, hstore⟩
  | threw e => exact hh e w' v' hstore
  | running => exact ⟨rfl, hstore⟩

end Rules
end Program
