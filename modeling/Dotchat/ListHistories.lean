import Dotchat.EncodingLimits
import Dotchat.RoundTrip

/-!
What programs can do with lists, objects and argument values. A list states the
type of its elements once, and the encoder relies on it. `push_back` keeps it,
in each of its overloads; the reference that `operator[]` hands out does not,
since an `arg` takes on the type of whatever is assigned to it, and loses its
value first: a container that is assigned to a part of itself is copied without
that part. In the programs that assign only values of the list's own type, and
no container to a part of itself, every list at any depth is uniform and
survives encoding; a first assignment of another type makes the encoder write a
list that is misread.
-/
namespace Dotchat

open FaultState Bytestream

/-- The elements are of the declared type, and their number fits its field. -/
def ArgList.Uniform {V : Type} (l : ArgList V) : Prop :=
  (∀ a ∈ l.content, a.type = l.contained) ∧ l.content.length < 2 ^ 32

/-- Every list in a value is uniform, and no value is missing. -/
abbrev Arg.Uniform {V : Type} : Arg V → Prop :=
  Arg.Everywhere (fun _ => True) (fun _ => True) ArgList.Uniform

section Encoding

variable {V : Type}

theorem Arg.Uniform.documented {a : Arg V} (h : a.Uniform) (hsend : a.Sendable) : a.Documented :=
  (h.and hsend).mono (fun _ h => h.2) (fun _ h => h.2) (fun _ h => h.1)

end Encoding

/-- The list while its `n`-th element is being assigned a list: the element has the
type already, and no value yet. -/
def ArgList.reset (l : ArgList Unit) (n : ℕ) : ArgList Unit :=
  { l with content := l.content.set n (.valueless () .list) }

/-- The variables of a program. -/
structure Variables where
  lists : List (ArgList Unit) := []
  objs : List (ArgObj Unit) := []
  args : List (Arg Unit) := []

/-- What is pushed or assigned: a value, a variable, or a reference to an
element or an entry of one. -/
inductive Operand
  | scalar (v : Scalar)
  | string (v : Bytes)
  | list (x : ℕ)
  | obj (x : ℕ)
  | arg (x : ℕ)
  | element (x n : ℕ)
  | entry (x : ℕ) (key : Bytes)
  deriving DecidableEq

/-- The operations. The variable they change is named first. -/
inductive ListOp
  | newList
  | newObj
  | newArg
  | pushBack (x : ℕ) (val : Operand)
  | setElement (x n : ℕ) (val : Operand)
  | setEntry (x : ℕ) (key : Bytes) (val : Operand)
  | set (x : ℕ) (key : Bytes) (val : Operand)
  | setArg (x : ℕ) (val : Operand)
  | copyList (x : ℕ) (val : Operand)
  | copyObj (x : ℕ) (val : Operand)

/-- What keeps an operation from returning: an exception, after which the
variables are as before, or an access to what is not there. -/
inductive Halt
  | badAnyCast
  | outOfRange
  | undefined
  deriving DecidableEq

namespace Variables

def lookup {α : Type} (xs : List α) (x : ℕ) : Except Halt α :=
  match xs[x]? with
  | some a => .ok a
  | none => .error .undefined

def setList (vars : Variables) (x : ℕ) (l : ArgList Unit) : Variables :=
  { vars with lists := vars.lists.set x l }

def setObj (vars : Variables) (x : ℕ) (o : ArgObj Unit) : Variables :=
  { vars with objs := vars.objs.set x o }

/-- The value of an operand, wrapped in an `arg`. -/
def eval (vars : Variables) : Operand → Except Halt (Arg Unit)
  | .scalar v => return .scalar v
  | .string v => return .string v
  | .list x => do return (← lookup vars.lists x).toArg
  | .obj x => do return .subObject (← lookup vars.objs x)
  | .arg x => lookup vars.args x
  | .element x n => do lookup (← lookup vars.lists x).content n
  | .entry x key => do
      match ArgObj.find? (← lookup vars.objs x) key with
      | some a => return a
      | none => throw .outOfRange

def step (vars : Variables) : ListOp → Except Halt Variables
  | .newList => return { vars with lists := vars.lists ++ [{}] }
  | .newObj => return { vars with objs := vars.objs ++ [[]] }
  | .newArg => return { vars with args := vars.args ++ [.scalar (.int8 0)] }
  | .pushBack x val => do
      let l ← lookup vars.lists x
      let a ← vars.eval val
      -- a list that is pushed to itself is copied with the type it was just given
      let a ← (vars.setList x { l with contained := l.declared a }).eval val
      match l.pushBack a with
      | .ok l' => return vars.setList x l'
      | .error _ => throw .badAnyCast
  | .setElement x n val => do
      let l ← lookup vars.lists x
      let _ ← lookup l.content n
      let a ← vars.eval val
      -- `arg::operator=` resets the element before it copies the list
      let a := if val = .list x then (l.reset n).toArg else a
      return vars.setList x { l with content := l.content.set n a }
  | .setEntry x key val => do
      let o ← lookup vars.objs x
      let a ← vars.eval val
      return vars.setObj x (if val = .obj x then o.assignSelf key else o.set key a)
  | .set x key val => do
      let o ← lookup vars.objs x
      let a ← vars.eval val
      return vars.setObj x (o.set key a)
  | .setArg x val => do
      let _ ← lookup vars.args x
      let a ← vars.eval val
      return { vars with args := vars.args.set x a }
  | .copyList x val => do
      let _ ← lookup vars.lists x
      match ← vars.eval val with
      | .list t c => return vars.setList x ⟨t, c⟩
      | _ => throw .badAnyCast
  | .copyObj x val => do
      let _ ← lookup vars.objs x
      match ← vars.eval val with
      | .subObject o => return vars.setObj x o
      | _ => throw .badAnyCast

/-- What the operations of a program make of its variables. -/
def run (vars : Variables) : List ListOp → Except Halt Variables
  | [] => return vars
  | op :: ops => do (← vars.step op).run ops

/-- The operation assigns to an element only a value of the type of the list,
assigns no container to a part of itself, and pushes only to a list that has
room in its length field. -/
def Matches (vars : Variables) : ListOp → Prop
  | .pushBack x _ => ∀ l, vars.lists[x]? = some l → l.content.length + 1 < 2 ^ 32
  | .setElement x _ val => val ≠ .list x ∧
      ∀ l a, vars.lists[x]? = some l → vars.eval val = .ok a → a.type = l.contained
  | .setEntry x _ val => val ≠ .obj x
  | _ => True

/-- The variables of programs whose operations all match. -/
inductive Reached : Variables → Prop
  | start : Reached {}
  | step {vars vars' : Variables} (h : Reached vars) (op : ListOp) (hop : vars.Matches op)
      (hstep : vars.step op = .ok vars') : Reached vars'

/-- The values of all variables. -/
def values (vars : Variables) : List (Arg Unit) :=
  vars.lists.map ArgList.toArg ++ vars.objs.map Arg.subObject ++ vars.args

/-- Every list in every variable is uniform. -/
structure AllUniform (vars : Variables) : Prop where
  lists : ∀ l ∈ vars.lists, l.toArg.Uniform
  objs : ∀ o ∈ vars.objs, Arg.Uniform (.subObject o)
  args : ∀ a ∈ vars.args, a.Uniform

variable {vars vars' : Variables} {a : Arg Unit}

theorem lookup_eq_ok {α : Type} {xs : List α} {x : ℕ} {a : α} :
    lookup xs x = .ok a ↔ xs[x]? = some a := by
  unfold lookup
  cases xs[x]? with
  | some b => simp
  | none => simp

/-- What holds of every variable and of a new value holds after an assignment. -/
theorem forall_mem_set {α : Type} {P : α → Prop} {xs : List α} {b : α} (hxs : ∀ a ∈ xs, P a)
    (hb : P b) (n : ℕ) : ∀ a ∈ xs.set n b, P a := by
  intro a ha
  rcases List.mem_or_eq_of_mem_set ha with ha | rfl
  · exact hxs a ha
  · exact hb

/-- And it holds after a declaration. -/
theorem forall_mem_declared {α : Type} {P : α → Prop} {xs : List α} {b : α}
    (hxs : ∀ a ∈ xs, P a) (hb : P b) : ∀ a ∈ xs ++ [b], P a :=
  List.forall_mem_append.mpr ⟨hxs, List.forall_mem_singleton.mpr hb⟩

theorem AllUniform.setList {l : ArgList Unit} (h : vars.AllUniform) (hl : l.toArg.Uniform) (x : ℕ) :
    (vars.setList x l).AllUniform where
  lists := forall_mem_set h.lists hl x
  objs := h.objs
  args := h.args

theorem AllUniform.setObj {o : ArgObj Unit} (h : vars.AllUniform)
    (ho : Arg.Uniform (.subObject o)) (x : ℕ) : (vars.setObj x o).AllUniform where
  lists := h.lists
  objs := forall_mem_set h.objs ho x
  args := h.args

theorem AllUniform.eval {val : Operand} (h : vars.AllUniform) (heval : vars.eval val = .ok a) :
    a.Uniform := by
  cases val with
  | scalar v =>
    cases heval
    exact .scalar v
  | string v =>
    cases heval
    exact .string trivial
  | list x =>
    obtain ⟨l, hl, heval⟩ := except_bind_eq_ok.mp heval
    cases heval
    exact h.lists l (List.mem_of_getElem? (lookup_eq_ok.mp hl))
  | obj x =>
    obtain ⟨o, ho, heval⟩ := except_bind_eq_ok.mp heval
    cases heval
    exact h.objs o (List.mem_of_getElem? (lookup_eq_ok.mp ho))
  | arg x => exact h.args a (List.mem_of_getElem? (lookup_eq_ok.mp heval))
  | element x n =>
    obtain ⟨l, hl, heval⟩ := except_bind_eq_ok.mp heval
    have huniform := h.lists l (List.mem_of_getElem? (lookup_eq_ok.mp hl))
    exact (Arg.everywhere_list.mp huniform).2 a (List.mem_of_getElem? (lookup_eq_ok.mp heval))
  | entry x key =>
    obtain ⟨o, ho, heval⟩ := except_bind_eq_ok.mp heval
    have huniform := h.objs o (List.mem_of_getElem? (lookup_eq_ok.mp ho))
    cases hfind : ArgObj.find? o key with
    | none =>
      simp only [hfind] at heval
      cases heval
    | some b =>
      simp only [hfind] at heval
      cases heval
      exact (Arg.everywhere_subObject.mp huniform).2.2 _ (OrderedMap.mem_of_find?_eq_some hfind)

theorem uniform_pushBack {l l' : ArgList Unit} (hl : l.toArg.Uniform) (ha : a.Uniform)
    (hroom : l.content.length + 1 < 2 ^ 32) (h : l.pushBack a = .ok l') : l'.toArg.Uniform := by
  obtain ⟨hlist, hvals⟩ := Arg.everywhere_list.mp hl
  obtain ⟨htype, hcontent, hsame⟩ := ArgList.pushBack_eq_ok h
  refine .list ⟨?_, ?_⟩ ?_
  · intro b hb
    rw [hcontent, List.mem_append, List.mem_singleton] at hb
    rcases hb with hb | rfl
    · rw [hlist.1 b hb, hsame (List.ne_nil_of_mem hb), htype]
    · exact htype.symm
  · rw [hcontent, List.length_append, List.length_singleton]
    exact hroom
  · rw [hcontent]
    exact forall_mem_declared hvals ha

/-- Assigning to an element keeps the list uniform exactly when the type of the
value is that of the list. -/
theorem uniform_set_iff {l : ArgList Unit} {n : ℕ} (hl : l.Uniform) (hn : n < l.content.length) :
    ArgList.Uniform { l with content := l.content.set n a } ↔ a.type = l.contained := by
  constructor
  · intro h
    exact h.1 a (List.mem_set hn a)
  · intro htype
    exact ⟨forall_mem_set hl.1 htype n, by simpa using hl.2⟩

theorem uniform_setElement {l : ArgList Unit} {n : ℕ} (hl : l.toArg.Uniform) (ha : a.Uniform)
    (hn : n < l.content.length) (htype : a.type = l.contained) :
    (ArgList.toArg { l with content := l.content.set n a }).Uniform := by
  obtain ⟨hlist, hvals⟩ := Arg.everywhere_list.mp hl
  exact .list ((uniform_set_iff hlist hn).mpr htype) (forall_mem_set hvals ha n)

theorem uniform_setKey {o : ArgObj Unit} (key : Bytes) (ho : Arg.Uniform (.subObject o))
    (ha : a.Uniform) : Arg.Uniform (.subObject (o.set key a)) := by
  obtain ⟨-, -, hvals⟩ := Arg.everywhere_subObject.mp ho
  refine .subObject trivial (fun _ _ => trivial) ?_
  intro e he
  rcases OrderedMap.mem_insert he with rfl | he
  · exact ha
  · exact hvals e he

/-- An empty list may declare any type. -/
theorem uniform_declared {l : ArgList Unit} (hl : l.toArg.Uniform) (a : Arg Unit) :
    (ArgList.toArg { l with contained := l.declared a }).Uniform := by
  cases hcontent : l.content with
  | nil => exact .list ⟨by simp, by simp⟩ (by simp)
  | cons b rest =>
    have hdeclared : l.declared a = l.contained := by simp [ArgList.declared, hcontent]
    rw [hdeclared, ← hcontent]
    exact hl

/-- Each matching operation keeps the lists uniform. -/
theorem AllUniform.step {op : ListOp} (h : vars.AllUniform) (hop : vars.Matches op)
    (hstep : vars.step op = .ok vars') : vars'.AllUniform := by
  cases op with
  | newList =>
    cases hstep
    have hempty : (ArgList.toArg ({} : ArgList Unit)).Uniform := .list ⟨by simp, by simp⟩ (by simp)
    exact ⟨forall_mem_declared h.lists hempty, h.objs, h.args⟩
  | newObj =>
    cases hstep
    have hempty : Arg.Uniform (.subObject ([] : ArgObj Unit)) :=
      .subObject trivial (by simp) (by simp)
    exact ⟨h.lists, forall_mem_declared h.objs hempty, h.args⟩
  | newArg =>
    cases hstep
    exact ⟨h.lists, h.objs, forall_mem_declared h.args (.scalar _)⟩
  | pushBack x val =>
    obtain ⟨l, hl, hstep⟩ := except_bind_eq_ok.mp hstep
    obtain ⟨first, -, hstep⟩ := except_bind_eq_ok.mp hstep
    obtain ⟨a, ha, hstep⟩ := except_bind_eq_ok.mp hstep
    have hat := lookup_eq_ok.mp hl
    have huniform := h.lists l (List.mem_of_getElem? hat)
    have hvalue := (h.setList (uniform_declared huniform first) x).eval ha
    cases hpush : l.pushBack a with
    | ok l' =>
      simp only [hpush] at hstep
      cases hstep
      exact h.setList (uniform_pushBack huniform hvalue (hop l hat) hpush) x
    | error e =>
      simp only [hpush] at hstep
      cases hstep
  | setElement x n val =>
    obtain ⟨l, hl, hstep⟩ := except_bind_eq_ok.mp hstep
    obtain ⟨old, hold, hstep⟩ := except_bind_eq_ok.mp hstep
    obtain ⟨a, ha, hstep⟩ := except_bind_eq_ok.mp hstep
    obtain ⟨hother, htype⟩ := hop
    rw [if_neg hother] at hstep
    cases hstep
    have hat := lookup_eq_ok.mp hl
    obtain ⟨hn, -⟩ := List.getElem?_eq_some_iff.mp (lookup_eq_ok.mp hold)
    exact h.setList (uniform_setElement (h.lists l (List.mem_of_getElem? hat)) (h.eval ha) hn
      (htype l a hat ha)) x
  | setEntry x key val =>
    obtain ⟨o, ho, hstep⟩ := except_bind_eq_ok.mp hstep
    obtain ⟨a, ha, hstep⟩ := except_bind_eq_ok.mp hstep
    have hother : val ≠ .obj x := hop
    rw [if_neg hother] at hstep
    cases hstep
    exact h.setObj (uniform_setKey key (h.objs o (List.mem_of_getElem? (lookup_eq_ok.mp ho)))
      (h.eval ha)) x
  | set x key val =>
    obtain ⟨o, ho, hstep⟩ := except_bind_eq_ok.mp hstep
    obtain ⟨a, ha, hstep⟩ := except_bind_eq_ok.mp hstep
    cases hstep
    exact h.setObj (uniform_setKey key (h.objs o (List.mem_of_getElem? (lookup_eq_ok.mp ho)))
      (h.eval ha)) x
  | setArg x val =>
    obtain ⟨old, -, hstep⟩ := except_bind_eq_ok.mp hstep
    obtain ⟨a, ha, hstep⟩ := except_bind_eq_ok.mp hstep
    cases hstep
    exact ⟨h.lists, h.objs, forall_mem_set h.args (h.eval ha) x⟩
  | copyList x val =>
    obtain ⟨old, -, hstep⟩ := except_bind_eq_ok.mp hstep
    obtain ⟨a, ha, hstep⟩ := except_bind_eq_ok.mp hstep
    have hvalue := h.eval ha
    cases a using Arg.casesOn with
    | list t c =>
      cases hstep
      exact h.setList (l := ⟨t, c⟩) hvalue x
    | valueless _ _ | scalar _ | string _ | subObject _ => cases hstep
  | copyObj x val =>
    obtain ⟨old, -, hstep⟩ := except_bind_eq_ok.mp hstep
    obtain ⟨a, ha, hstep⟩ := except_bind_eq_ok.mp hstep
    have hvalue := h.eval ha
    cases a using Arg.casesOn with
    | subObject o =>
      cases hstep
      exact h.setObj hvalue x
    | valueless _ _ | scalar _ | string _ | list _ _ => cases hstep

end Variables
end Dotchat
