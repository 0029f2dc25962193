import Dotchat.Library.Threads

/-!
Protocols: what the user of a service may call in each state, as an automaton on
the calls and their answers. A program adheres to a protocol when all its calls are
allowed, whichever of the possible answers they get; the rules take a program
apart along its structure. What adheres to one makes only allowed calls in
every run on a store that is coupled to the protocol, and keeps the coupling.
-/

open Threads (Event)

structure Protocol (C : Type) (Ans : C → Type) (E S : Type) where
  Allowed : S → C → Prop
  Possible : S → Event C Ans E → Prop
  next : S → Event C Ans E → S

/-- A call in a run, with its answer and the stores around it. -/
structure Visit (C : Type) (Ans : C → Type) (E W : Type) where
  event : Event C Ans E
  before : W
  after : W

namespace Protocol

variable {C : Type} {Ans : C → Type} {E S W α β : Type}

/-- The calls of a run, oldest first. -/
def visits (perform : Program.Store C Ans E W) : Program C Ans E α → W → List (Visit C Ans E W)
  | .done _, _ => []
  | .call c next, w =>
      ⟨⟨c, (perform c w).1⟩, w, (perform c w).2⟩ ::
        visits perform (next (perform c w).1) (perform c w).2

def trace (perform : Program.Store C Ans E W) (p : Program C Ans E α) (w : W) :
    List (Event C Ans E) :=
  (visits perform p w).map Visit.event

section Composition

variable (perform : Program.Store C Ans E W) (p : Program C Ans E α) (w : W)

theorem trace_bind (f : α → Program C Ans E β) : trace perform (p >>= f) w =
    trace perform p w ++
      match p.run perform w with
      | (.returned a, w') => trace perform (f a) w'
      | _ => [] := by
  induction p generalizing w with
  | done o => cases o <;> rfl
  | call c next ih => exact congrArg (⟨c, (perform c w).1⟩ :: ·) (ih _ _)

theorem trace_bind_of_returned {a : α} {w' : W} (h : p.run perform w = (.returned a, w'))
    (f : α → Program C Ans E β) :
    trace perform (p >>= f) w = trace perform p w ++ trace perform (f a) w' := by
  rw [trace_bind, h]

theorem trace_tryCatch (handler : E → Program C Ans E α) : trace perform (p.tryCatch handler) w =
    trace perform p w ++
      match p.run perform w with
      | (.threw e, w') => trace perform (handler e) w'
      | _ => [] := by
  induction p generalizing w with
  | done o => cases o <;> rfl
  | call c next ih => exact congrArg (⟨c, (perform c w).1⟩ :: ·) (ih _ _)

end Composition

variable (P : Protocol C Ans E S)

/-- The state behind the events. -/
def after (s : S) (events : List (Event C Ans E)) : S := events.foldl P.next s

/-- Each event is an allowed call where it happens. -/
def Permits : S → List (Event C Ans E) → Prop
  | _, [] => True
  | s, e :: events => P.Allowed s e.1 ∧ Permits (P.next s e) events

/-- A postcondition for returning and one for throwing. -/
def Concludes (A : α → S → Prop) (B : E → S → Prop) : Outcome E α → S → Prop
  | .returned a, s => A a s
  | .threw e, s => B e s
  | .running, _ => True

/-- All calls of the program are allowed, and it ends with `A` or `B`. -/
def Adheres (A : α → S → Prop) (B : E → S → Prop) : Program C Ans E α → S → Prop
  | .done o, s => Concludes A B o s
  | .call c next, s =>
      P.Allowed s c ∧ ∀ r, P.Possible s ⟨c, r⟩ → Adheres A B (next r) (P.next s ⟨c, r⟩)

/-- At calls that meet `G` the store answers as the protocol expects, and remains
related to its state. -/
def Couples (perform : Program.Store C Ans E W) (G : Visit C Ans E W → Prop) (R : S → W → Prop) :
    Prop :=
  ∀ s c w, R s w → P.Allowed s c → G ⟨⟨c, (perform c w).1⟩, w, (perform c w).2⟩ →
    P.Possible s ⟨c, (perform c w).1⟩ ∧ R (P.next s ⟨c, (perform c w).1⟩) (perform c w).2

variable {P}

section Events

variable {s : S} {e : Event C Ans E} {before events : List (Event C Ans E)}

@[simp] theorem after_nil : P.after s [] = s := rfl

@[simp] theorem after_cons : P.after s (e :: events) = P.after (P.next s e) events := rfl

theorem after_append : P.after s (before ++ events) = P.after (P.after s before) events :=
  List.foldl_append

theorem permits_append :
    P.Permits s (before ++ events) ↔ P.Permits s before ∧ P.Permits (P.after s before) events := by
  induction before generalizing s with
  | nil => simp [Permits]
  | cons e before ih =>
    simp only [List.cons_append, Permits, after_cons, ih, and_assoc]

/-- The event is allowed in the state behind those before it. -/
theorem Permits.allowed (h : P.Permits s (before ++ e :: events)) :
    P.Allowed (P.after s before) e.1 :=
  (permits_append.mp h).2.1

end Events

section Rules

variable {A : α → S → Prop} {B : E → S → Prop} {p : Program C Ans E α} {s : S}

theorem Adheres.pure {a : α} (h : A a s) : P.Adheres A B (Pure.pure a) s := h

theorem Adheres.running : P.Adheres A B (.done .running) s := trivial

theorem Adheres.invoke {c : C} {A : Ans c → S → Prop} (hallowed : P.Allowed s c)
    (hok : ∀ a, P.Possible s ⟨c, .ok a⟩ → A a (P.next s ⟨c, .ok a⟩))
    (herror : ∀ e, P.Possible s ⟨c, .error e⟩ → B e (P.next s ⟨c, .error e⟩)) :
    P.Adheres A B (Program.invoke c) s := by
  refine ⟨hallowed, ?_⟩
  intro r hr
  cases r with
  | ok a => exact hok a hr
  | error e => exact herror e hr

/-- A call that does not fail. -/
theorem Adheres.invoke_ok {c : C} {A : Ans c → S → Prop} (hallowed : P.Allowed s c)
    (h : ∀ r, P.Possible s ⟨c, r⟩ → ∃ a, r = .ok a ∧ A a (P.next s ⟨c, .ok a⟩)) :
    P.Adheres A B (Program.invoke c) s := by
  refine ⟨hallowed, ?_⟩
  intro r hr
  obtain ⟨a, rfl, ha⟩ := h r hr
  exact ha

theorem Adheres.weaken {A' : α → S → Prop} {B' : E → S → Prop} (h : P.Adheres A' B' p s)
    (hA : ∀ a s, A' a s → A a s) (hB : ∀ e s, B' e s → B e s) : P.Adheres A B p s := by
  induction p generalizing s with
  | done o =>
    cases o with
    | returned a => exact hA a s h
    | threw e => exact hB e s h
    | running => trivial
  | call c next ih =>
    obtain ⟨hallowed, hnext⟩ := h
    exact ⟨hallowed, fun r hr => ih r (hnext r hr)⟩

theorem Adheres.bind {f : α → Program C Ans E β} {A : β → S → Prop} {I : α → S → Prop}
    (hp : P.Adheres I B p s) (hf : ∀ a s, I a s → P.Adheres A B (f a) s) :
    P.Adheres A B (p >>= f) s := by
  induction p generalizing s with
  | done o =>
    cases o with
    | returned a => exact hf a s hp
    | threw e => exact hp
    | running => trivial
  | call c next ih =>
    obtain ⟨hallowed, hnext⟩ := hp
    exact ⟨hallowed, fun r hr => ih r (hnext r hr)⟩

theorem Adheres.tryCatch {handler : E → Program C Ans E α} {F : E → S → Prop}
    (hp : P.Adheres A F p s) (hh : ∀ e s, F e s → P.Adheres A B (handler e) s) :
    P.Adheres A B (p.tryCatch handler) s := by
  induction p generalizing s with
  | done o =>
    cases o with
    | returned a => exact hp
    | threw e => exact hh e s hp
    | running => trivial
  | call c next ih =>
    obtain ⟨hallowed, hnext⟩ := hp
    exact ⟨hallowed, fun r hr => ih r (hnext r hr)⟩

end Rules

section Runs

variable {A : α → S → Prop} {B : E → S → Prop} {p : Program C Ans E α} {s : S}
  {perform : Program.Store C Ans E W} {G : Visit C Ans E W → Prop} {R R' : S → W → Prop} {w : W}

/-- A second relation that the answers keep. -/
theorem Couples.and (h : P.Couples perform G R)
    (h' : ∀ s c w, R' s w → P.Allowed s c → G ⟨⟨c, (perform c w).1⟩, w, (perform c w).2⟩ →
      R' (P.next s ⟨c, (perform c w).1⟩) (perform c w).2) :
    P.Couples perform G (fun s w => R s w ∧ R' s w) := by
  rintro s c w ⟨hR, hR'⟩ hallowed hG
  obtain ⟨hpossible, hnext⟩ := h s c w hR hallowed hG
  exact ⟨hpossible, hnext, h' s c w hR' hallowed hG⟩

theorem Couples.strengthen {G' : Visit C Ans E W → Prop} (h : P.Couples perform G R)
    (hG : ∀ v, G' v → G v) : P.Couples perform G' R :=
  fun s c w hR hallowed hv => h s c w hR hallowed (hG _ hv)

/-- A run of a program that follows the protocol. -/
structure Observed (P : Protocol C Ans E S) (A : α → S → Prop) (B : E → S → Prop)
    (perform : Program.Store C Ans E W) (R : S → W → Prop) (p : Program C Ans E α) (s : S) (w : W) :
    Prop where
  permits : P.Permits s (trace perform p w)
  ends : Concludes A B (p.run perform w).1 (P.after s (trace perform p w))
  coupled : R (P.after s (trace perform p w)) (p.run perform w).2

theorem Adheres.runs (hR : P.Couples perform G R) (h : P.Adheres A B p s) (hw : R s w)
    (hG : ∀ v ∈ visits perform p w, G v) : P.Observed A B perform R p s w := by
  induction p generalizing s w with
  | done o => exact ⟨trivial, h, hw⟩
  | call c next ih =>
    obtain ⟨hallowed, hnext⟩ := h
    obtain ⟨hhere, hrest⟩ := List.forall_mem_cons.mp hG
    obtain ⟨hpossible, hcoupled⟩ := hR s c w hw hallowed hhere
    obtain ⟨hpermits, hends, hend⟩ := ih _ (hnext _ hpossible) hcoupled hrest
    exact ⟨⟨hallowed, hpermits⟩, hends, hend⟩

/-- A call in a run, if those before it meet `G`. -/
theorem Adheres.visited (hR : P.Couples perform G R) (h : P.Adheres A B p s) (hw : R s w)
    {init rest : List (Visit C Ans E W)} {v : Visit C Ans E W}
    (hv : visits perform p w = init ++ v :: rest) (hG : ∀ u ∈ init, G u) :
    R (P.after s (init.map Visit.event)) v.before ∧
      P.Allowed (P.after s (init.map Visit.event)) v.event.1 := by
  induction p generalizing s w init with
  | done o => cases init <;> cases hv
  | call c next ih =>
    obtain ⟨hallowed, hnext⟩ := h
    cases init with
    | nil =>
      obtain ⟨rfl, -⟩ := List.cons.inj hv
      exact ⟨hw, hallowed⟩
    | cons u init =>
      obtain ⟨rfl, hrest⟩ := List.cons.inj hv
      obtain ⟨hhere, hinit⟩ := List.forall_mem_cons.mp hG
      obtain ⟨hpossible, hcoupled⟩ := hR s c w hw hallowed hhere
      exact ih _ (hnext _ hpossible) hcoupled hrest hinit

end Runs
end Protocol
