import Mathlib.Data.List.Perm.Basic
import Mathlib.Data.List.Nodup
import Mathlib.Data.Nat.Notation

/-!
Handles of resources that are given out and taken back, such as pointers or
descriptors. A handle that was taken back may be given out again, and giving one
back that is not in use is a fault. Two invariants say who has the handles: each
is in one pair of hands, or the faults are counted by the handles that are shared.
-/

structure HandlePool (η : Type) where
  used : List η := []
  faults : ℕ := 0
  deriving DecidableEq

namespace HandlePool

variable {η : Type} [DecidableEq η]

def acquire (p : HandlePool η) (h : η) : Option (HandlePool η) :=
  if h ∈ p.used then none else some { p with used := h :: p.used }

def release (p : HandlePool η) (h : η) : HandlePool η :=
  if h ∈ p.used then { p with used := p.used.erase h } else { p with faults := p.faults + 1 }

/-- Handles change hands. The number counts those that came into second hands. -/
inductive Transfer : HandlePool η → List η → ℕ → HandlePool η → List η → Prop
  | keeps {p : HandlePool η} {held held' : List η} (h : held.Perm held') :
      Transfer p held 0 p held'
  | takes {p p' : HandlePool η} {held : List η} {x : η} (hp : p.acquire x = some p') :
      Transfer p held 0 p' (x :: held)
  | gives {p : HandlePool η} {held : List η} {x : η} : Transfer p (x :: held) 0 (p.release x) held
  | shares {p : HandlePool η} {held : List η} {x : η} : Transfer p held 1 p (x :: held)
  | trans {p q p' : HandlePool η} {held mid held' : List η} {m n : ℕ}
      (h : Transfer p held m q mid) (h' : Transfer q mid n p' held') :
      Transfer p held (m + n) p' held'

/-- The handles in use are those that are held, each once, and there was no fault. -/
structure Accounts (p : HandlePool η) (held : List η) : Prop where
  nodup : p.used.Nodup
  perm : p.used.Perm held
  faults : p.faults = 0

/-- What is held and not in use was shared, or released by somebody else. -/
def Balances (p : HandlePool η) (held shared : ℕ) : Prop :=
  p.faults + held = shared + p.used.length

section Transfers

variable {p p' : HandlePool η} {held held' lost new : List η} {x : η} {n shared : ℕ}

theorem acquire_eq_some :
    p.acquire x = some p' ↔ x ∉ p.used ∧ p' = { p with used := x :: p.used } := by
  unfold acquire
  split
  · rename_i hused
    exact iff_of_false (by simp) fun h => h.1 hused
  · rename_i hfree
    rw [Option.some.injEq]
    exact ⟨fun h => ⟨hfree, h.symm⟩, fun h => h.2.symm⟩

theorem release_of_mem (h : x ∈ p.used) : p.release x = { p with used := p.used.erase x } :=
  if_pos h

theorem Transfer.of_perm (h : Transfer p held n p' held') {held'' : List η}
    (hperm : held'.Perm held'') : Transfer p held n p' held'' :=
  h.trans (.keeps hperm)

theorem transfer_takes (hp : p.acquire x = some p') (h : held'.Perm (x :: held)) :
    Transfer p held 0 p' held' :=
  (Transfer.takes hp).of_perm h.symm

theorem transfer_gives (h : held.Perm (x :: held')) : Transfer p held 0 (p.release x) held' :=
  .trans (.keeps h) .gives

theorem transfer_shares (h : held'.Perm (x :: held)) : Transfer p held 1 p held' :=
  Transfer.shares.of_perm h.symm

/-- What else is held stays where it is. -/
theorem Transfer.append (h : Transfer p held n p' held') (more : List η) :
    Transfer p (held ++ more) n p' (held' ++ more) := by
  induction h with
  | keeps hperm => exact .keeps (hperm.append_right more)
  | takes hp => exact .takes hp
  | gives => exact .gives
  | shares => exact .shares
  | trans _ _ ih ih' => exact ih.trans ih'

/-- What is left behind is held along with what was left behind before. -/
theorem Transfer.behind (h : Transfer p held n p' (held' ++ new)) :
    Transfer p (held ++ lost) n p' (held' ++ (lost ++ new)) := by
  refine (h.append lost).of_perm ?_
  rw [List.append_assoc]
  exact List.perm_append_comm.append_left held'

omit [DecidableEq η] in
theorem accounts_start : Accounts ({} : HandlePool η) [] := ⟨.nil, .nil, rfl⟩

omit [DecidableEq η] in
theorem balances_start : Balances ({} : HandlePool η) 0 0 := rfl

/-- As long as nothing is shared, only what is in use is released. -/
theorem Accounts.transfer (h : p.Accounts held) (ht : Transfer p held n p' held') (hn : n = 0) :
    p'.Accounts held' := by
  induction ht with
  | keeps hperm => exact ⟨h.nodup, h.perm.trans hperm, h.faults⟩
  | takes hp =>
    obtain ⟨hfree, rfl⟩ := acquire_eq_some.mp hp
    exact ⟨List.nodup_cons.mpr ⟨hfree, h.nodup⟩, h.perm.cons _, h.faults⟩
  | @gives p held x =>
    have hused : x ∈ p.used := h.perm.mem_iff.mpr List.mem_cons_self
    rw [release_of_mem hused]
    refine ⟨h.nodup.erase x, ?_, h.faults⟩
    have hrest := h.perm.erase x
    rwa [List.erase_cons_head] at hrest
  | shares => cases hn
  | trans _ _ ih ih' =>
    obtain ⟨hm, hn⟩ := Nat.add_eq_zero_iff.mp hn
    exact ih' (ih h hm) hn

theorem Balances.transfer (h : p.Balances held.length shared) (ht : Transfer p held n p' held') :
    p'.Balances held'.length (shared + n) := by
  unfold Balances at *
  induction ht generalizing shared with
  | keeps hperm =>
    rw [← hperm.length_eq]
    omega
  | @takes p p' held x hp =>
    obtain ⟨-, rfl⟩ := acquire_eq_some.mp hp
    show p.faults + (held.length + 1) = shared + 0 + (p.used.length + 1)
    omega
  | @gives p held x =>
    rw [List.length_cons] at h
    unfold release
    split
    · rename_i hused
      have hpos := List.length_pos_of_mem hused
      have hlength := List.length_erase_of_mem hused
      show p.faults + held.length = shared + 0 + (p.used.erase x).length
      omega
    · show p.faults + 1 + held.length = shared + 0 + p.used.length
      omega
  | shares =>
    rw [List.length_cons]
    omega
  | trans _ _ ih ih' =>
    rw [← Nat.add_assoc]
    exact ih' (ih h)

omit [DecidableEq η] in
/-- A handle in second hands is not accounted for. -/
theorem Balances.not_accounts (h : p.Balances held.length shared) (hshared : shared ≠ 0) :
    ¬ p.Accounts held := by
  intro haccounts
  have hlength := haccounts.perm.length_eq
  have hfaults := haccounts.faults
  unfold Balances at h
  omega

end Transfers
end HandlePool
