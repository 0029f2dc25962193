import Mathlib.Data.List.Induction
import Mathlib.Algebra.Order.Ring.Nat

/-!
Machines whose events are possible in some states only, run on lists of events:
what each step keeps, what a run can spend, and what the events behind a state
tell about it.
-/
namespace Machine

variable {S E : Type}

/-- The state after the events, if each is possible where it happens. -/
def run (step : S → E → Option S) (s : S) : List E → Option S
  | [] => some s
  | e :: events => (step s e).bind fun s' => run step s' events

/-- No step of the run is bad. -/
def Avoids (step : S → E → Option S) (Bad : S → E → Prop) : S → List E → Prop
  | _, [] => True
  | s, e :: events => ¬ Bad s e ∧ ∀ s', step s e = some s' → Avoids step Bad s' events

/-- All states of the run meet `I`. -/
def Always (step : S → E → Option S) (I : S → Prop) : S → List E → Prop
  | s, [] => I s
  | s, e :: events => I s ∧ ∀ s', step s e = some s' → Always step I s' events

section Runs

variable {step : S → E → Option S} {s s' : S} {e : E} {events more : List E}

theorem run_cons_eq_some : run step s (e :: events) = some s' ↔
    ∃ t, step s e = some t ∧ run step t events = some s' :=
  Option.bind_eq_some_iff

theorem run_append : run step s (events ++ more) =
    (run step s events).bind fun t => run step t more := by
  induction events generalizing s with
  | nil => rfl
  | cons e events ih =>
    rw [List.cons_append, run, run]
    cases step s e with
    | none => rfl
    | some t => exact ih

theorem run_append_eq_some : run step s (events ++ more) = some s' ↔
    ∃ t, run step s events = some t ∧ run step t more = some s' := by
  rw [run_append, Option.bind_eq_some_iff]

theorem run_singleton : run step s [e] = step s e := by
  rw [run]
  cases step s e <;> rfl

theorem run_concat_eq_some : run step s (events ++ [e]) = some s' ↔
    ∃ t, run step s events = some t ∧ step t e = some s' := by
  rw [run_append_eq_some]
  simp only [run_singleton]

/-- What every step with an event of a kind keeps, a run of such events keeps. -/
theorem run_keeps {I : S → Prop} {P : E → Prop}
    (hstep : ∀ s e s', I s → P e → step s e = some s' → I s') (hs : I s) (hP : ∀ e ∈ events, P e)
    (hrun : run step s events = some s') : I s' := by
  induction events generalizing s with
  | nil =>
    cases hrun
    exact hs
  | cons e events ih =>
    obtain ⟨t, ht, hrest⟩ := run_cons_eq_some.mp hrun
    obtain ⟨he, hevents⟩ := List.forall_mem_cons.mp hP
    exact ih (hstep s e t hs he ht) hevents hrest

theorem run_invariant {I : S → Prop} (hstep : ∀ s e s', I s → step s e = some s' → I s')
    (hs : I s) (hrun : run step s events = some s') : I s' :=
  run_keeps (P := fun _ => True) (fun s e s' hs _ => hstep s e s' hs) hs (fun _ _ => trivial) hrun

/-- What each step costs is taken from a budget, so a run costs no more than it. -/
theorem run_spends {W : ℕ → S → Prop} {cost : E → ℕ} {n : ℕ}
    (hstep : ∀ n s e s', W n s → step s e = some s' → ∃ k, W k s' ∧ cost e + k ≤ n)
    (hs : W n s) (hrun : run step s events = some s') : (events.map cost).sum ≤ n := by
  induction events generalizing s n with
  | nil => exact Nat.zero_le _
  | cons e events ih =>
    obtain ⟨t, ht, hrest⟩ := run_cons_eq_some.mp hrun
    obtain ⟨k, hk, hcost⟩ := hstep n s e t hs ht
    have htail := ih hk hrest
    rw [List.map_cons, List.sum_cons]
    omega

/-- A relation between the events so far and the state. -/
theorem run_history {H : List E → S → Prop} (hnil : H [] s)
    (hstep : ∀ before t e t', run step s before = some t → H before t → step t e = some t' →
      H (before ++ [e]) t')
    (hrun : run step s events = some s') : H events s' := by
  induction events using List.reverseRecOn generalizing s' with
  | nil =>
    cases hrun
    exact hnil
  | append_singleton events e ih =>
    obtain ⟨t, ht, hlast⟩ := run_concat_eq_some.mp hrun
    exact hstep events t e s' ht (ih ht) hlast

theorem avoids_concat {Bad : S → E → Prop} : Avoids step Bad s (events ++ [e]) ↔
    Avoids step Bad s events ∧ ∀ t, run step s events = some t → ¬ Bad t e := by
  induction events generalizing s with
  | nil => simp [Avoids, run]
  | cons first events ih =>
    simp only [List.cons_append, Avoids, ih, run_cons_eq_some, and_assoc]
    refine and_congr_right fun _ => ⟨?_, ?_⟩
    · intro h
      exact ⟨fun t ht => (h t ht).1, fun t ⟨u, hu, ht⟩ => (h u hu).2 t ht⟩
    · rintro ⟨hinit, hlast⟩ t ht
      exact ⟨hinit t ht, fun u hu => hlast u ⟨t, ht, hu⟩⟩

/-- The invariant is lost in a bad step, and in no other one. -/
theorem always_iff_avoids {I : S → Prop} {Bad : S → E → Prop}
    (hstep : ∀ s e s', I s → step s e = some s' → (I s' ↔ ¬ Bad s e)) (hs : I s)
    (hrun : run step s events = some s') : Always step I s events ↔ Avoids step Bad s events := by
  induction events generalizing s with
  | nil => exact iff_of_true hs trivial
  | cons e events ih =>
    obtain ⟨t, ht, hrest⟩ := run_cons_eq_some.mp hrun
    have hnext : ∀ {P : S → Prop}, (∀ u, step s e = some u → P u) ↔ P t :=
      ⟨fun h => h t ht, fun h u hu => Option.some.inj (ht.symm.trans hu) ▸ h⟩
    rw [Always, Avoids, hnext, hnext]
    have hhead : Always step I t events → I t := by
      cases events with
      | nil => exact id
      | cons _ _ => exact And.left
    constructor
    · rintro ⟨-, h⟩
      have hkept := hhead h
      exact ⟨(hstep s e t hs ht).mp hkept, (ih hkept hrest).mp h⟩
    · rintro ⟨hgood, h⟩
      exact ⟨hs, (ih ((hstep s e t hs ht).mpr hgood) hrest).mpr h⟩

end Runs
end Machine
