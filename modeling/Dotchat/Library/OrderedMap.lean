import Mathlib.Order.Lattice
import Mathlib.Data.List.Lex
import Mathlib.Order.Lex
import Mathlib.Tactic.Basic

/-!
Ordered maps as lists of entries with strictly increasing keys, the way an
ordered associative container stores them. Insertion replaces the value of a
key that is present. The lemmas say what insertion does to the order and the
number of keys and to the entries, and that a key above all others is appended.
-/
namespace OrderedMap

variable {κ α : Type*} [LinearOrder κ]

/-- Strictly increasing keys: the representation invariant of the map. -/
def Ordered (m : List (κ × α)) : Prop := m.Pairwise (fun a b => a.1 < b.1)

def insert (k : κ) (v : α) : List (κ × α) → List (κ × α)
  | [] => [(k, v)]
  | (k', v') :: rest =>
      if k < k' then (k, v) :: (k', v') :: rest
      else if k = k' then (k, v) :: rest
      else (k', v') :: insert k v rest

def find? (k : κ) : List (κ × α) → Option α
  | [] => none
  | (k', v') :: rest => if k = k' then some v' else find? k rest

theorem ordered_nil : Ordered ([] : List (κ × α)) := List.Pairwise.nil

theorem mem_insert {k : κ} {v : α} {m : List (κ × α)} {e : κ × α}
    (h : e ∈ insert k v m) : e = (k, v) ∨ e ∈ m := by
  induction m with
  | nil => simpa [insert] using h
  | cons entry rest ih =>
    obtain ⟨k', v'⟩ := entry
    simp only [insert] at h
    split at h
    · simpa using h
    · split at h
      · rcases List.mem_cons.mp h with rfl | hrest
        · exact Or.inl rfl
        · exact Or.inr (List.mem_cons_of_mem _ hrest)
      · rcases List.mem_cons.mp h with rfl | hrest
        · exact Or.inr List.mem_cons_self
        · exact (ih hrest).imp id (List.mem_cons_of_mem _)

theorem mem_insert_self (k : κ) (v : α) (m : List (κ × α)) : (k, v) ∈ insert k v m := by
  induction m with
  | nil => exact List.mem_cons_self
  | cons entry rest ih =>
    simp only [insert]
    split
    · exact List.mem_cons_self
    · split
      · exact List.mem_cons_self
      · exact List.mem_cons_of_mem _ ih

/-- The entries of other keys are kept. -/
theorem mem_insert_of_ne {k : κ} {v : α} {m : List (κ × α)} {e : κ × α}
    (h : e ∈ m) (hne : e.1 ≠ k) : e ∈ insert k v m := by
  induction m with
  | nil => cases h
  | cons entry rest ih =>
    obtain ⟨k', v'⟩ := entry
    simp only [insert]
    split
    · exact List.mem_cons_of_mem _ h
    · split
      · rename_i heq
        rcases List.mem_cons.mp h with rfl | hrest
        · exact absurd heq.symm hne
        · exact List.mem_cons_of_mem _ hrest
      · rcases List.mem_cons.mp h with rfl | hrest
        · exact List.mem_cons_self
        · exact List.mem_cons_of_mem _ (ih hrest)

theorem ordered_insert (k : κ) (v : α) {m : List (κ × α)} (hm : Ordered m) :
    Ordered (insert k v m) := by
  induction m with
  | nil => exact List.pairwise_singleton _ _
  | cons entry rest ih =>
    obtain ⟨k', v'⟩ := entry
    obtain ⟨hhead, hrest⟩ := List.pairwise_cons.mp hm
    simp only [insert]
    split
    · rename_i hlt
      refine List.pairwise_cons.mpr ⟨?_, hm⟩
      intro e he
      rcases List.mem_cons.mp he with rfl | he
      · exact hlt
      · exact hlt.trans (hhead e he)
    · rename_i hnlt
      split
      · rename_i heq
        subst heq
        exact List.pairwise_cons.mpr ⟨hhead, hrest⟩
      · rename_i hne
        refine List.pairwise_cons.mpr ⟨?_, ih hrest⟩
        intro e he
        rcases mem_insert he with rfl | he
        · exact lt_of_le_of_ne (not_lt.mp hnlt) (Ne.symm hne)
        · exact hhead e he

theorem length_insert_le (k : κ) (v : α) (m : List (κ × α)) :
    (insert k v m).length ≤ m.length + 1 := by
  induction m with
  | nil => simp [insert]
  | cons entry rest ih =>
    simp only [insert]
    split
    · simp
    · split
      · simp
      · simp only [List.length_cons]
        omega

/-- A key above all present keys is appended at the end. -/
theorem insert_of_forall_lt {k : κ} {v : α} {m : List (κ × α)}
    (h : ∀ e ∈ m, e.1 < k) : insert k v m = m ++ [(k, v)] := by
  induction m with
  | nil => rfl
  | cons entry rest ih =>
    obtain ⟨k', v'⟩ := entry
    have hk : k' < k := h (k', v') List.mem_cons_self
    have hrest : insert k v rest = rest ++ [(k, v)] :=
      ih (fun e he => h e (List.mem_cons_of_mem _ he))
    simp only [insert, if_neg hk.not_gt, if_neg hk.ne', hrest, List.cons_append]

theorem mem_of_find?_eq_some {k : κ} {v : α} {m : List (κ × α)}
    (h : find? k m = some v) : (k, v) ∈ m := by
  induction m with
  | nil => simp [find?] at h
  | cons entry rest ih =>
    simp only [find?] at h
    split at h
    · rename_i heq
      subst heq
      cases h
      exact List.mem_cons_self
    · exact List.mem_cons_of_mem _ (ih h)

end OrderedMap
