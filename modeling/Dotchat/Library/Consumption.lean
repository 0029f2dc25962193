import Dotchat.Library.FaultState
import Mathlib.Data.Int.Notation
import Mathlib.Data.Nat.Notation

/-!
Computations that use up an input, next to copies of them that also stop when
a limit is reached. What a run has used is the input that is gone, and all of
it after a fault. A copy mirrors the original up to a bound on what the run
uses, and the binding rule lets the second of two computations have the bound
of the first with what the first has certainly used taken off.
-/
namespace Consumption

open FaultState

variable {ε σ α β : Type}

/-- What is left of the input in a state, the states that can arise, and the
fault of a computation that meets its limit. -/
structure Gauge (ε σ : Type) where
  size : σ → ℕ
  Inv : σ → Prop
  stop : ε

namespace Gauge

variable {g : Gauge ε σ}

/-- What a run from a state has used of its input. -/
def used (g : Gauge ε σ) (s : σ) : EStateM.Result ε σ α → ℕ
  | .ok _ s' => g.size s - g.size s'
  | .error _ _ => g.size s

/-- A result uses at least `least`. -/
def Spends (g : Gauge ε σ) (least : ℕ) (s : σ) : EStateM.Result ε σ α → Prop
  | .ok _ s' => g.Inv s' ∧ g.size s' + least ≤ g.size s
  | .error _ _ => True

/-- The computation does not end at its limit. -/
def Unlimited (g : Gauge ε σ) (r : EStateM.Result ε σ α) : Prop := ∀ s, r ≠ .error g.stop s

/-- From a state, the first computation uses at least `least`, and the second
gives its result as long as that uses at most `bound`. -/
def Agrees (g : Gauge ε σ) (s : σ) (least : ℕ) (bound : ℤ) (p q : EStateM ε σ α) : Prop :=
  g.Spends least s (p s) ∧ (g.Unlimited (p s) → (g.used s (p s) : ℤ) ≤ bound → q s = p s)

/-- The second computation mirrors the first: they agree from every state. -/
def Mirrors (g : Gauge ε σ) (least : ℕ) (bound : ℤ) (p q : EStateM ε σ α) : Prop :=
  ∀ s, g.Inv s → g.Agrees s least bound p q

variable {s : σ} {least least' : ℕ} {bound bound' : ℤ} {p q : EStateM ε σ α}

theorem Agrees.weaken (h : g.Agrees s least bound p q) (hleast : least' ≤ least)
    (hbound : bound' ≤ bound) : g.Agrees s least' bound' p q := by
  obtain ⟨hspends, hsame⟩ := h
  refine ⟨?_, fun hun hused => hsame hun (Int.le_trans hused hbound)⟩
  cases hrun : p s with
  | ok a s' =>
    rw [hrun] at hspends
    obtain ⟨hinv, hsize⟩ := hspends
    exact ⟨hinv, by omega⟩
  | error e s' => trivial

/-- What two computations in a row have used, against what the second has. -/
theorem used_of_spends {s' : σ} {r : EStateM.Result ε σ β} (hsize : g.size s' + least ≤ g.size s)
    (hr : g.Spends 0 s' r) :
    g.size s - g.size s' ≤ g.used s r ∧ g.used s' r + least ≤ g.used s r ∧
      g.Spends least s r := by
  cases r with
  | ok b s'' =>
    obtain ⟨hinv, hsize'⟩ := hr
    simp only [used, Spends]
    exact ⟨by omega, by omega, hinv, by omega⟩
  | error e s'' =>
    simp only [used, Spends]
    exact ⟨by omega, by omega, trivial⟩

/-- The second computation runs on what the first left over. -/
theorem Agrees.bind {f k : α → EStateM ε σ β} (h : g.Agrees s least bound p q)
    (hf : ∀ a, g.Mirrors 0 (bound - least) (f a) (k a)) :
    g.Agrees s least bound (p >>= f) (q >>= k) := by
  obtain ⟨hspends, hsame⟩ := h
  cases hrun : p s with
  | error e s' =>
    rw [Agrees, bind_of_error hrun]
    refine ⟨trivial, fun hun hused => ?_⟩
    have hun' : g.Unlimited (p s) := by
      intro t ht
      rw [hrun] at ht
      injection ht with he
      exact hun s' (by rw [he])
    rw [bind_of_error ((hsame hun' (by rw [hrun]; exact hused)).trans hrun)]
  | ok a s' =>
    rw [hrun] at hspends
    obtain ⟨hinv, hsize⟩ := hspends
    obtain ⟨hspends', hsame'⟩ := hf a s' hinv
    obtain ⟨hfirst, hsecond, hboth⟩ := used_of_spends hsize hspends'
    have hun' : g.Unlimited (p s) := by
      intro t ht
      rw [hrun] at ht
      cases ht
    have hused : g.used s (p s) = g.size s - g.size s' := by rw [hrun, used]
    rw [Agrees, bind_of_ok hrun]
    refine ⟨hboth, fun hun hbound => ?_⟩
    rw [bind_of_ok ((hsame hun' (by omega)).trans hrun)]
    exact hsame' hun (by omega)

theorem Mirrors.same (bound : ℤ) (h : ∀ s, g.Inv s → g.Spends least s (p s)) :
    g.Mirrors least bound p p :=
  fun s hs => ⟨h s hs, fun _ _ => rfl⟩

theorem Mirrors.pure (bound : ℤ) (a : α) : g.Mirrors 0 bound (Pure.pure a) (Pure.pure a) :=
  .same bound fun _ hs => ⟨hs, Nat.le_refl _⟩

theorem Mirrors.weaken (h : g.Mirrors least bound p q) (hleast : least' ≤ least)
    (hbound : bound' ≤ bound) : g.Mirrors least' bound' p q :=
  fun s hs => (h s hs).weaken hleast hbound

/-- No run uses less than nothing. -/
theorem Mirrors.of_neg {q' : EStateM ε σ α} (h : g.Mirrors least bound p q) (hneg : bound' < 0) :
    g.Mirrors least bound' p q' :=
  fun s hs => ⟨(h s hs).1, fun _ hused => absurd hused (by omega)⟩

theorem Mirrors.bind {f k : α → EStateM ε σ β} (h : g.Mirrors least bound p q)
    (hf : ∀ a, g.Mirrors 0 (bound - least) (f a) (k a)) :
    g.Mirrors least bound (p >>= f) (q >>= k) :=
  fun s hs => (h s hs).bind hf

end Gauge
end Consumption
