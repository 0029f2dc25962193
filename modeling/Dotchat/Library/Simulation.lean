import Dotchat.Library.FaultState

/-!
Forward simulation between two machines that take the same operations. The
first may fail and is used under a discipline that its state decides; the second
is total and says what is to be observed. Related states that step to related
states with the same observation give runs with the same observations.
-/
namespace Simulation

variable {Op Obs ε σ τ : Type}

/-- Each operation is called in a state that allows it. -/
def Disciplined (step : Op → EStateM ε σ Obs) (allowed : Op → σ → Prop) : List Op → σ → Prop
  | [], _ => True
  | op :: ops, s => allowed op s ∧
      ∀ obs s', step op s = .ok obs s' → Disciplined step allowed ops s'

/-- Related states answer an allowed operation alike and stay related. -/
def Simulates (R : σ → τ → Prop) (step : Op → EStateM ε σ Obs) (allowed : Op → σ → Prop)
    (spec : Op → StateM τ Obs) : Prop :=
  ∀ op s q, R s q → allowed op s →
    ∃ s', step op s = .ok (spec op q).1 s' ∧ R s' (spec op q).2

section Run

variable {step : Op → EStateM ε σ Obs} {allowed : Op → σ → Prop} {spec : Op → StateM τ Obs}
  {R : σ → τ → Prop} {op : Op} {ops more : List Op} {s : σ} {q : τ}

@[simp] theorem mapM_nil_apply : ([] : List Op).mapM step s = .ok [] s := rfl

theorem mapM_cons_of_ok {obs : Obs} {rest : List Obs} {s' s'' : σ} (h : step op s = .ok obs s')
    (hrest : ops.mapM step s' = .ok rest s'') :
    (op :: ops).mapM step s = .ok (obs :: rest) s'' := by
  rw [List.mapM_cons, FaultState.bind_of_ok h, FaultState.bind_of_ok hrest]
  rfl

@[simp] theorem spec_mapM_nil (spec : Op → StateM τ Obs) (q : τ) :
    ([] : List Op).mapM spec q = ([], q) := rfl

theorem spec_mapM_cons (op : Op) (ops : List Op) (q : τ) :
    (op :: ops).mapM spec q =
      ((spec op q).1 :: (ops.mapM spec (spec op q).2).1, (ops.mapM spec (spec op q).2).2) := by
  rw [List.mapM_cons]
  rfl

theorem Disciplined.of_append (h : Disciplined step allowed (ops ++ more) s) :
    Disciplined step allowed ops s := by
  induction ops generalizing s with
  | nil => trivial
  | cons op ops ih => exact ⟨h.1, fun obs s' hstep => ih (h.2 obs s' hstep)⟩

theorem disciplined_cons_of_ok {obs : Obs} {s' : σ} (hop : allowed op s)
    (h : step op s = .ok obs s') (hops : Disciplined step allowed ops s') :
    Disciplined step allowed (op :: ops) s := by
  refine ⟨hop, ?_⟩
  intro obs' s'' h'
  rw [h] at h'
  cases h'
  exact hops

/-- The run lemma: a disciplined run does not fail, and its observations are
those of the specification. -/
theorem Simulates.run (h : Simulates R step allowed spec) (hs : R s q)
    (hops : Disciplined step allowed ops s) :
    ∃ s', ops.mapM step s = .ok (ops.mapM spec q).1 s' ∧ R s' (ops.mapM spec q).2 := by
  induction ops generalizing s q with
  | nil => exact ⟨s, rfl, hs⟩
  | cons op ops ih =>
    obtain ⟨s', hstep, hs'⟩ := h op s q hs hops.1
    obtain ⟨s'', hrest, hs''⟩ := ih hs' (hops.2 _ _ hstep)
    refine ⟨s'', ?_, ?_⟩
    · rw [mapM_cons_of_ok hstep hrest, spec_mapM_cons]
    · rw [spec_mapM_cons]
      exact hs''

end Run
end Simulation
