import Mathlib.Logic.Basic

/-!
Rules for computations that change a state and may stop with a fault, keeping
the state they reached (`EStateM`). The binding rules run a computation one
step at a time, forwards from the result of the first step and backwards from
the result of the whole; computations without a state (`Except`) have the same
two rules.
-/
namespace FaultState

variable {ε σ α β : Type}

instance decidableEqResult [DecidableEq ε] [DecidableEq σ] [DecidableEq α] :
    DecidableEq (EStateM.Result ε σ α)
  | .ok a s, .ok a' s' => decidable_of_iff (a = a' ∧ s = s') (by simp)
  | .error e s, .error e' s' => decidable_of_iff (e = e' ∧ s = s') (by simp)
  | .ok _ _, .error _ _ => isFalse nofun
  | .error _ _, .ok _ _ => isFalse nofun

theorem bind_of_ok {p : EStateM ε σ α} {f : α → EStateM ε σ β} {s s' : σ} {a : α}
    (h : p s = .ok a s') : (p >>= f) s = f a s' := by
  simp only [bind, EStateM.bind, h]

theorem bind_of_error {p : EStateM ε σ α} {f : α → EStateM ε σ β} {s s' : σ} {e : ε}
    (h : p s = .error e s') : (p >>= f) s = .error e s' := by
  simp only [bind, EStateM.bind, h]

theorem bind_eq_ok {p : EStateM ε σ α} {f : α → EStateM ε σ β} {s s'' : σ} {b : β} :
    (p >>= f) s = .ok b s'' ↔ ∃ a s', p s = .ok a s' ∧ f a s' = .ok b s'' := by
  cases h : p s with
  | ok a s' => simp [bind_of_ok h, and_assoc]
  | error e s' => simp [bind_of_error h]

@[simp] theorem pure_apply (a : α) (s : σ) : (pure a : EStateM ε σ α) s = .ok a s := rfl

section Except

variable {x : Except ε α} {f : α → Except ε β} {a : α} {b : β}

theorem except_bind_of_ok (h : x = .ok a) : (x >>= f) = f a := by
  rw [h]
  rfl

theorem except_bind_eq_ok : (x >>= f) = .ok b ↔ ∃ a, x = .ok a ∧ f a = .ok b := by
  cases x with
  | ok a => simp [bind, Except.bind]
  | error e => simp [bind, Except.bind]

end Except
end FaultState
