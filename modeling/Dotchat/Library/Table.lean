import Mathlib.Data.List.Basic
import Mathlib.Data.List.Nodup

/-!
Tables of a relational store as lists of rows in insertion order, with a
primary key read off each row. Replacing a row removes the one with its key and
appends the new one; updating a row keeps its place. The lemmas say what the
operations do to lookups by key, to the rows and to the uniqueness of keys.
-/
namespace Table

variable {ρ κ : Type*} [DecidableEq κ] (key : ρ → κ)

def lookup (k : κ) (rows : List ρ) : Option ρ := rows.find? fun r => key r = k

def replace (r : ρ) (rows : List ρ) : List ρ := rows.filter (fun r' => key r' ≠ key r) ++ [r]

def update (r : ρ) (rows : List ρ) : List ρ :=
  rows.map fun r' => if key r' = key r then r else r'

/-- No two rows with one key. -/
def Keyed (rows : List ρ) : Prop := (rows.map key).Nodup

variable {key} {k : κ} {r r' : ρ} {rows : List ρ}

theorem mem_of_lookup (h : lookup key k rows = some r) : r ∈ rows ∧ key r = k :=
  ⟨List.mem_of_find?_eq_some h, by simpa using List.find?_some h⟩

theorem lookup_eq_none : lookup key k rows = none ↔ ∀ r ∈ rows, key r ≠ k := by
  simp [lookup]

theorem lookup_isSome : (lookup key k rows).isSome ↔ ∃ r ∈ rows, key r = k := by
  simp [lookup]

theorem lookup_of_mem (hk : Keyed key rows) (h : r ∈ rows) : lookup key (key r) rows = some r := by
  induction rows with
  | nil => simp at h
  | cons head rest ih =>
    obtain ⟨hhead, hrest⟩ := List.nodup_cons.mp hk
    rcases List.mem_cons.mp h with rfl | h
    · simp [lookup]
    · have hne : key head ≠ key r := fun he => hhead (he ▸ List.mem_map_of_mem h)
      simpa [lookup, hne] using ih hrest h

theorem lookup_eq_some (hk : Keyed key rows) :
    lookup key k rows = some r ↔ r ∈ rows ∧ key r = k := by
  constructor
  · exact mem_of_lookup
  · rintro ⟨h, rfl⟩
    exact lookup_of_mem hk h

/-- A row whose key is new is found behind the others. -/
theorem lookup_append (hfresh : ∀ r' ∈ rows, key r' ≠ key r) :
    lookup key k (rows ++ [r]) = if key r = k then some r else lookup key k rows := by
  unfold lookup
  rw [List.find?_append]
  split
  · rename_i hkey
    have hnone : rows.find? (fun r' => key r' = k) = none := by
      simpa [← hkey] using hfresh
    simp [hnone, hkey]
  · rename_i hkey
    simp [hkey]

theorem lookup_filter_key (hk : key r ≠ k) :
    lookup key k (rows.filter fun r' => key r' ≠ key r) = lookup key k rows := by
  unfold lookup
  rw [List.find?_filter]
  congr 1
  funext r'
  by_cases h : key r' = k
  · simp [h, Ne.symm hk]
  · simp [h]

/-- Filtering keeps a row that is found and passes the filter. -/
theorem lookup_filter_of_pos {p : ρ → Bool} (h : lookup key k rows = some r) (hp : p r) :
    lookup key k (rows.filter p) = some r := by
  induction rows with
  | nil => simp [lookup] at h
  | cons head rest ih =>
    rw [lookup, List.find?_cons] at h
    by_cases hhead : key head = k
    · simp only [hhead, decide_true, Option.some.injEq] at h
      simp [lookup, h, hp, ← hhead]
    · simp only [hhead, decide_false] at h
      rw [List.filter_cons]
      split
      · rw [lookup, List.find?_cons]
        simp only [hhead, decide_false]
        exact ih h
      · exact ih h

@[simp] theorem lookup_replace_self : lookup key (key r) (replace key r rows) = some r := by
  rw [replace, lookup_append (by simp), if_pos rfl]

theorem lookup_replace_of_ne (h : key r ≠ k) :
    lookup key k (replace key r rows) = lookup key k rows := by
  rw [replace, lookup_append (by simp), if_neg h, lookup_filter_key h]

theorem mem_replace : r' ∈ replace key r rows ↔ r' = r ∨ (r' ∈ rows ∧ key r' ≠ key r) := by
  simp only [replace, List.mem_append, List.mem_filter, decide_eq_true_eq, List.mem_singleton]
  exact or_comm

theorem replace_of_fresh (h : ∀ r' ∈ rows, key r' ≠ key r) :
    replace key r rows = rows ++ [r] := by
  rw [replace, List.filter_eq_self.mpr (by simpa using h)]

omit [DecidableEq κ] in
theorem keyed_append (hk : Keyed key rows) (hfresh : ∀ r' ∈ rows, key r' ≠ key r) :
    Keyed key (rows ++ [r]) := by
  unfold Keyed
  rw [List.map_append, List.nodup_append]
  refine ⟨hk, List.nodup_singleton _, ?_⟩
  intro a ha b hb
  obtain ⟨r', hr', rfl⟩ := List.mem_map.mp ha
  rw [List.map_singleton, List.mem_singleton] at hb
  exact hb ▸ hfresh r' hr'

omit [DecidableEq κ] in
theorem keyed_filter (hk : Keyed key rows) (p : ρ → Bool) : Keyed key (rows.filter p) :=
  hk.sublist (List.filter_sublist.map key)

theorem keyed_replace (hk : Keyed key rows) : Keyed key (replace key r rows) :=
  keyed_append (keyed_filter hk _) (by simp)

omit [DecidableEq κ] in
theorem eq_of_key (hk : Keyed key rows) (h : r ∈ rows) (h' : r' ∈ rows) (he : key r = key r') :
    r = r' :=
  List.inj_on_of_nodup_map hk h h' he

/-- Two rows with different keys can be replaced in either order. -/
theorem replace_perm (h : key r ≠ key r') :
    (replace key r' (replace key r rows)).Perm (replace key r (replace key r' rows)) := by
  have hfilter : ∀ {r r'}, key r ≠ key r' → replace key r' (replace key r rows) =
      rows.filter (fun x => key x ≠ key r' ∧ key x ≠ key r) ++ [r, r'] := by
    intro r r' h
    simp only [replace, List.filter_append, List.filter_filter, List.append_assoc]
    congr 1
    · apply List.filter_congr
      intro x _
      simp
    · simp [h]
  rw [hfilter h, hfilter (Ne.symm h)]
  have hsame : rows.filter (fun x => decide (key x ≠ key r' ∧ key x ≠ key r)) =
      rows.filter (fun x => decide (key x ≠ key r ∧ key x ≠ key r')) :=
    List.filter_congr fun x _ => decide_eq_decide.mpr and_comm
  rw [hsame]
  exact (List.Perm.swap r' r []).append_left _

/-- What a filter leaves to be found. -/
theorem lookup_filter (hk : Keyed key rows) (p : ρ → Bool) :
    lookup key k (rows.filter p) = (lookup key k rows).filter p := by
  cases h : lookup key k rows with
  | none =>
    rw [lookup_eq_none] at h
    exact lookup_eq_none.mpr fun r hr => h r (List.mem_filter.mp hr).1
  | some r =>
    cases hp : p r with
    | true =>
      rw [lookup_filter_of_pos h hp, Option.filter_some, hp]
      rfl
    | false =>
      obtain ⟨hr, rfl⟩ := mem_of_lookup h
      rw [Option.filter_some, hp]
      refine lookup_eq_none.mpr ?_
      intro r' hr' hkey
      obtain ⟨hr', hp'⟩ := List.mem_filter.mp hr'
      rw [eq_of_key hk hr' hr hkey, hp] at hp'
      cases hp'

/-- A column in which the new row agrees with the row it replaces is kept. -/
theorem map_update {β : Type*} {g : ρ → β} (h : ∀ r' ∈ rows, key r' = key r → g r = g r') :
    (update key r rows).map g = rows.map g := by
  simp only [update, List.map_map, List.map_inj_left, Function.comp_apply]
  intro r' hr'
  split
  · rename_i hkey
    exact h r' hr' hkey
  · rfl

theorem map_key_update : (update key r rows).map key = rows.map key :=
  map_update fun _ _ h => h.symm

theorem keyed_update (hk : Keyed key rows) : Keyed key (update key r rows) := by
  rw [Keyed, map_key_update]
  exact hk

theorem mem_update (h : r' ∈ update key r rows) : r' = r ∨ (r' ∈ rows ∧ key r' ≠ key r) := by
  obtain ⟨old, hold, rfl⟩ := List.mem_map.mp h
  split
  · exact .inl rfl
  · rename_i hne
    exact .inr ⟨hold, hne⟩

/-- The row that is found, and the others. -/
theorem perm_of_lookup (hk : Keyed key rows) (h : lookup key k rows = some r) :
    rows.Perm (r :: rows.filter fun r' => key r' ≠ k) := by
  induction rows with
  | nil => simp [lookup] at h
  | cons head rest ih =>
    obtain ⟨hhead, hrest⟩ := List.nodup_cons.mp hk
    by_cases hkey : key head = k
    · subst hkey
      obtain rfl : head = r := by simpa [lookup] using h
      have hothers : rest.filter (fun r' => key r' ≠ key head) = rest := by
        refine List.filter_eq_self.mpr ?_
        intro r' hr'
        exact decide_eq_true fun he => hhead (he ▸ List.mem_map_of_mem hr')
      rw [List.filter_cons_of_neg (by simp), hothers]
    · have hfound : lookup key k rest = some r := by simpa [lookup, hkey] using h
      rw [List.filter_cons_of_pos (by simpa using hkey)]
      exact ((ih hrest hfound).cons head).trans (.swap r head _)

theorem lookup_update_self (h : lookup key (key r) rows = some r') :
    lookup key (key r) (update key r rows) = some r := by
  induction rows with
  | nil => simp [lookup] at h
  | cons head rest ih =>
    by_cases hkey : key head = key r
    · simp [lookup, update, hkey]
    · have hfound : lookup key (key r) rest = some r' := by simpa [lookup, hkey] using h
      simpa [lookup, update, hkey] using ih hfound

theorem lookup_update_of_ne (h : key r ≠ k) :
    lookup key k (update key r rows) = lookup key k rows := by
  induction rows with
  | nil => rfl
  | cons head rest ih =>
    by_cases hkey : key head = key r
    · have hne : key head ≠ k := hkey.trans_ne h
      simpa [lookup, update, hkey, hne, h] using ih
    · by_cases hhead : key head = k
      · simp [lookup, update, hhead, Ne.symm h]
      · simpa [lookup, update, hkey, hhead] using ih

theorem filter_update : (update key r rows).filter (fun r' => key r' ≠ key r) =
    rows.filter fun r' => key r' ≠ key r := by
  induction rows with
  | nil => rfl
  | cons head rest ih =>
    by_cases hkey : key head = key r
    · simpa [update, hkey] using ih
    · simpa [update, hkey] using ih

/-- A view of the rows that keeps keys apart is updated along with them. -/
theorem map_update_view {σ κ' : Type*} [DecidableEq κ'] {key' : σ → κ'} {g : ρ → σ}
    (h : ∀ r', key' (g r') = key' (g r) ↔ key r' = key r) :
    (update key r rows).map g = update key' (g r) (rows.map g) := by
  simp only [update, List.map_map, List.map_inj_left, Function.comp_apply, h]
  intro r' _
  split <;> rfl

/-- The last row is updated, and there is no other one with its key. -/
theorem update_concat (hfresh : ∀ r'' ∈ rows, key r'' ≠ key r) (h : key r' = key r) :
    update key r (rows ++ [r']) = rows ++ [r] := by
  have hothers : rows.map (fun r'' => if key r'' = key r then r else r'') = rows := by
    rw [List.map_congr_left fun r'' hr'' => if_neg (hfresh r'' hr'')]
    exact List.map_id rows
  rw [update, List.map_append, hothers, List.map_singleton, if_pos h]

/-- The updated row, and the others as they were. -/
theorem update_perm (hk : Keyed key rows) (h : lookup key (key r) rows = some r') :
    (update key r rows).Perm (r :: rows.filter fun x => key x ≠ key r) := by
  have hperm := perm_of_lookup (keyed_update hk) (lookup_update_self h)
  rwa [filter_update] at hperm

section Columns

variable {α : Type*} {g : ρ → List α}

/-- What the row that is found has in a column, and what the others have. -/
theorem flatMap_of_lookup (hk : Keyed key rows) (h : lookup key k rows = some r) :
    (rows.flatMap g).Perm (g r ++ (rows.filter fun r' => key r' ≠ k).flatMap g) :=
  (perm_of_lookup hk h).flatMap_right g

/-- An update exchanges what one row has in a column. -/
theorem flatMap_update (hk : Keyed key rows) (h : lookup key (key r) rows = some r') :
    ((update key r rows).flatMap g ++ g r').Perm (rows.flatMap g ++ g r) := by
  have hbefore := flatMap_of_lookup (g := g) hk h
  have hafter : ((update key r rows).flatMap g).Perm _ := (update_perm hk h).flatMap_right g
  have hleft : ((update key r rows).flatMap g ++ g r').Perm
      (g r' ++ ((rows.filter fun x => key x ≠ key r).flatMap g ++ g r)) :=
    ((hafter.trans List.perm_append_comm).append_right _).trans List.perm_append_comm
  have hright : (rows.flatMap g ++ g r).Perm
      (g r' ++ ((rows.filter fun x => key x ≠ key r).flatMap g ++ g r)) := by
    rw [← List.append_assoc]
    exact hbefore.append_right _
  exact hleft.trans hright.symm

/-- Two rows that swap what they have in a column. -/
theorem flatMap_swap (hk : Keyed key rows) {a b a' b' : ρ} (ha : lookup key (key a') rows = some a)
    (hb : lookup key (key b') rows = some b) (haa : g a' = g b) (hbb : g b' = g a) :
    ((update key b' (update key a' rows)).flatMap g).Perm (rows.flatMap g) := by
  have hfirst := flatMap_update (g := g) hk ha
  have hfound : ∃ x, lookup key (key b') (update key a' rows) = some x ∧ g x = g b := by
    by_cases hsame : key a' = key b'
    · exact ⟨a', by rw [← hsame]; exact lookup_update_self ha, haa⟩
    · exact ⟨b, by rw [lookup_update_of_ne hsame]; exact hb, rfl⟩
  obtain ⟨x, hx, hgx⟩ := hfound
  have hsecond := flatMap_update (g := g) (keyed_update hk) hx
  rw [hgx, hbb] at hsecond
  rw [haa] at hfirst
  exact (List.perm_append_right_iff _).mp (hsecond.trans hfirst)

end Columns
end Table
