import Dotchat.Bytestream
import Mathlib.Data.List.Basic

/-!
The union of either.hpp, in its version for two types. It consists of a tag and
of an untagged pointer, and a value survives an operation only when both follow
it. Assignment by copying replaces the pointer alone. Construction by copying
is assignment to a fresh union, so that a copy of a value is never seen as one;
moving exchanges both parts and is sound. The runs of a program on such unions
keep every value exactly when no copy has to change a tag.
-/
namespace Dotchat

open FaultState

/-- `tristate` -/
inductive Tristate
  | none | fst | snd
  deriving DecidableEq

/-- What the pointer of the union leads to. A pointer is handed over or its
cell is copied, so that no two unions share a cell. -/
inductive Cell (α β : Type)
  | null
  | indeterminate
  | fst (v : α)
  | snd (v : β)
  | freed

/-- `either<T1, T2>` -/
structure Either (α β : Type) where
  value : Cell α β
  holdsT1 : Tristate := .none

namespace Either

variable {α β : Type}

/-- What keeps an operation from returning: the exception that `get` throws,
the use of a cell that is not there or is of the other type, or a variable that
was never constructed. -/
inductive Stop
  | invalidEither
  | undefined
  | unknownVariable
  deriving DecidableEq

/-- `either()` -/
def empty : Either α β := { value := .null, holdsT1 := .none }

/-- `either(T1)` -/
def ofFst (val : α) : Either α β := { value := .fst val, holdsT1 := .fst }

/-- `either(T2)` -/
def ofSnd (val : β) : Either α β := { value := .snd val, holdsT1 := .snd }

/-- The members before the body of a constructor that initializes none. -/
def fresh : Either α β := { value := .indeterminate }

/-- `delete value.val` or `delete value.other`, as the tag says, behind the test
for a null pointer. -/
def erase (e : Either α β) : Except Stop (Either α β) :=
  match e.holdsT1, e.value with
  | .none, _ | _, .null => .ok e
  | .fst, .fst _ | .snd, .snd _ => .ok { e with value := .freed }
  | _, _ => .error .undefined

/-- `operator=(const either &)`, for another union than this one -/
def copyAssign (e other : Either α β) : Except Stop (Either α β) := do
  let e ← e.erase
  match other.holdsT1, other.value with
  | .fst, .fst val => return { e with value := .fst val }
  | .snd, .snd val => return { e with value := .snd val }
  | .none, _ => return e
  | _, _ => throw .undefined

/-- `operator=(either &&)`: this union and the other one afterwards -/
def moveAssign (e other : Either α β) : Either α β × Either α β :=
  ({ value := other.value, holdsT1 := other.holdsT1 }, { value := e.value, holdsT1 := e.holdsT1 })

/-- `either(const either &)` -/
def copyOf (other : Either α β) : Except Stop (Either α β) := fresh.copyAssign other

/-- `either(either &&)` -/
def moveOf (other : Either α β) : Either α β × Either α β := fresh.moveAssign other

/-- Assignment from a temporary union, which is destroyed with what this one held. -/
def assignTemporary (e temporary : Either α β) : Except Stop (Either α β) := do
  let (e, temporary) := e.moveAssign temporary
  let _ ← temporary.erase
  return e

/-- `operator=(const T1 &)` -/
def assignFst (e : Either α β) (val : α) : Except Stop (Either α β) := e.assignTemporary (ofFst val)

/-- `operator=(const T2 &)` -/
def assignSnd (e : Either α β) (val : β) : Except Stop (Either α β) := e.assignTemporary (ofSnd val)

/-- `holds<T1>` -/
def holdsFst (e : Either α β) : Bool := e.holdsT1 == .fst

/-- `holds<T2>` -/
def holdsSnd (e : Either α β) : Bool := e.holdsT1 == .snd

/-- `get<T1>` -/
def getFst (e : Either α β) : Except Stop α :=
  if e.holdsT1 ≠ .fst then .error .invalidEither
  else
    match e.value with
    | .fst val => .ok val
    | _ => .error .undefined

/-- `get<T2>` -/
def getSnd (e : Either α β) : Except Stop β :=
  if e.holdsT1 ≠ .snd then .error .invalidEither
  else
    match e.value with
    | .snd val => .ok val
    | _ => .error .undefined

section Content

/-- A union holds an alternative with a value, or nothing. -/
def Holds (e : Either α β) : Option (α ⊕ β) → Prop
  | none => e.holdsFst = false ∧ e.holdsSnd = false
  | some (.inl val) => e.holdsFst = true ∧ e.getFst = .ok val
  | some (.inr val) => e.holdsSnd = true ∧ e.getSnd = .ok val

/-- The tag of a content. -/
def tagOf : Option (α ⊕ β) → Tristate
  | none => .none
  | some (.inl _) => .fst
  | some (.inr _) => .snd

variable {e other : Either α β} {content : Option (α ⊕ β)}

theorem holds_none : e.Holds none ↔ e.holdsT1 = .none := by
  cases h : e.holdsT1 <;> simp [Holds, holdsFst, holdsSnd, h]

theorem holds_fst {val : α} :
    e.Holds (some (.inl val)) ↔ e.holdsT1 = .fst ∧ e.value = .fst val := by
  cases h : e.holdsT1 <;> cases hv : e.value <;> simp [Holds, holdsFst, getFst, h, hv]

theorem holds_snd {val : β} :
    e.Holds (some (.inr val)) ↔ e.holdsT1 = .snd ∧ e.value = .snd val := by
  cases h : e.holdsT1 <;> cases hv : e.value <;> simp [Holds, holdsSnd, getSnd, h, hv]

theorem Holds.tag (h : e.Holds content) : e.holdsT1 = tagOf content := by
  rcases content with _ | val | val
  · exact holds_none.mp h
  · exact (holds_fst.mp h).1
  · exact (holds_snd.mp h).1

/-- The tag is in step with the pointer. -/
def InStep (e : Either α β) : Prop := ∃ content, e.Holds content

/-- `holds` says for either type whether `get` returns. -/
def Agreeing (e : Either α β) : Prop :=
  (e.holdsFst = true ↔ ∃ val, e.getFst = .ok val) ∧
    (e.holdsSnd = true ↔ ∃ val, e.getSnd = .ok val)

theorem InStep.agreeing (h : e.InStep) : e.Agreeing := by
  obtain ⟨_ | val | val, h⟩ := h
  · simp [Agreeing, holdsFst, holdsSnd, getFst, getSnd, holds_none.mp h]
  · obtain ⟨htag, hvalue⟩ := holds_fst.mp h
    simp [Agreeing, holdsFst, holdsSnd, getFst, getSnd, htag, hvalue]
  · obtain ⟨htag, hvalue⟩ := holds_snd.mp h
    simp [Agreeing, holdsFst, holdsSnd, getFst, getSnd, htag, hvalue]

/-- The destructor and the assignments delete what a union in step holds. -/
theorem InStep.erase (h : e.InStep) :
    ∃ e', e.erase = .ok e' ∧ e'.holdsT1 = e.holdsT1 := by
  obtain ⟨_ | val | val, h⟩ := h
  · have htag := holds_none.mp h
    exact ⟨e, by simp [Either.erase, htag], rfl⟩
  · obtain ⟨htag, hvalue⟩ := holds_fst.mp h
    exact ⟨{ e with value := .freed }, by simp [Either.erase, htag, hvalue], rfl⟩
  · obtain ⟨htag, hvalue⟩ := holds_snd.mp h
    exact ⟨{ e with value := .freed }, by simp [Either.erase, htag, hvalue], rfl⟩

/-- A copy takes the value over, and the tag stays as it was. -/
theorem copyAssign_holds (h : e.InStep) (hother : other.Holds content) :
    ∃ e', e.copyAssign other = .ok e' ∧ e'.holdsT1 = e.holdsT1 ∧
      (e.holdsT1 = other.holdsT1 → e'.Holds content) := by
  obtain ⟨cleared, herase, htag⟩ := h.erase
  rcases content with _ | val | val
  · have hnone := holds_none.mp hother
    refine ⟨cleared, ?_, htag, fun heq => holds_none.mpr ?_⟩
    · rw [copyAssign, except_bind_of_ok herase, hnone]
      rfl
    · rw [htag, heq, hnone]
  · obtain ⟨hfst, hvalue⟩ := holds_fst.mp hother
    refine ⟨{ cleared with value := .fst val }, ?_, htag, fun heq => holds_fst.mpr ⟨?_, rfl⟩⟩
    · rw [copyAssign, except_bind_of_ok herase, hfst, hvalue]
      rfl
    · rw [htag, heq, hfst]
  · obtain ⟨hsnd, hvalue⟩ := holds_snd.mp hother
    refine ⟨{ cleared with value := .snd val }, ?_, htag, fun heq => holds_snd.mpr ⟨?_, rfl⟩⟩
    · rw [copyAssign, except_bind_of_ok herase, hsnd, hvalue]
      rfl
    · rw [htag, heq, hsnd]

theorem empty_holds : (empty : Either α β).Holds none := holds_none.mpr rfl

theorem fresh_holds : (fresh : Either α β).Holds none := holds_none.mpr rfl

theorem ofFst_holds (val : α) : (ofFst val : Either α β).Holds (some (.inl val)) :=
  holds_fst.mpr ⟨rfl, rfl⟩

theorem ofSnd_holds (val : β) : (ofSnd val : Either α β).Holds (some (.inr val)) :=
  holds_snd.mpr ⟨rfl, rfl⟩

theorem assignTemporary_holds (h : e.InStep) (hother : other.Holds content) :
    ∃ e', e.assignTemporary other = .ok e' ∧ e'.Holds content := by
  obtain ⟨cleared, herase, -⟩ := h.erase
  exact ⟨other, except_bind_of_ok herase, hother⟩

end Content

section Programs

/-- What a program does with variables of the type. A construction declares the
next variable, the assignments name one that exists. -/
inductive Op (α β : Type)
  | default
  | ofFst (val : α)
  | ofSnd (val : β)
  | copyOf (src : ℕ)
  | moveOf (src : ℕ)
  | copyAssign (dst src : ℕ)
  | moveAssign (dst src : ℕ)
  | assignFst (dst : ℕ) (val : α)
  | assignSnd (dst : ℕ) (val : β)

def variableAt (vars : List (Either α β)) (x : ℕ) : Except Stop (Either α β) :=
  match vars[x]? with
  | some e => .ok e
  | none => .error .unknownVariable

def step (vars : List (Either α β)) : Op α β → Except Stop (List (Either α β))
  | .default => .ok (vars ++ [empty])
  | .ofFst val => .ok (vars ++ [ofFst val])
  | .ofSnd val => .ok (vars ++ [ofSnd val])
  | .copyOf src => do
      let other ← variableAt vars src
      return vars ++ [← copyOf other]
  | .moveOf src => do
      let other ← variableAt vars src
      let (e, other) := moveOf other
      return vars.set src other ++ [e]
  | .copyAssign dst src => do
      let e ← variableAt vars dst
      let other ← variableAt vars src
      if dst = src then return vars
      return vars.set dst (← e.copyAssign other)
  | .moveAssign dst src => do
      let e ← variableAt vars dst
      let other ← variableAt vars src
      let (e, other) := e.moveAssign other
      return (vars.set src other).set dst e
  | .assignFst dst val => do
      let e ← variableAt vars dst
      return vars.set dst (← e.assignFst val)
  | .assignSnd dst val => do
      let e ← variableAt vars dst
      return vars.set dst (← e.assignSnd val)

/-- The variable that an operation is about, when so many are declared. -/
def Op.target (declared : ℕ) : Op α β → ℕ
  | .default | .ofFst _ | .ofSnd _ | .copyOf _ | .moveOf _ => declared
  | .copyAssign dst _ | .moveAssign dst _ | .assignFst dst _ | .assignSnd dst _ => dst

/-- The variable that an operation copies. -/
def Op.copied : Op α β → Option ℕ
  | .copyOf src | .copyAssign _ src => some src
  | _ => none

/-- The variables that are declared after an operation. -/
def Op.after (declared : ℕ) : Op α β → ℕ
  | .default | .ofFst _ | .ofSnd _ | .copyOf _ | .moveOf _ => declared + 1
  | .copyAssign _ _ | .moveAssign _ _ | .assignFst _ _ | .assignSnd _ _ => declared

/-- The operation names variables that are declared. -/
def Op.Scoped (declared : ℕ) : Op α β → Prop
  | .default | .ofFst _ | .ofSnd _ => True
  | .copyOf src | .moveOf src => src < declared
  | .copyAssign dst src | .moveAssign dst src => dst < declared ∧ src < declared
  | .assignFst dst _ | .assignSnd dst _ => dst < declared

def WellScoped : ℕ → List (Op α β) → Prop
  | _, [] => True
  | declared, op :: ops => op.Scoped declared ∧ WellScoped (op.after declared) ops

/-- What the source of an operation holds. -/
def Given (vars : List (Either α β)) (content : Option (α ⊕ β)) : Op α β → Prop
  | .default => content = none
  | .ofFst val | .assignFst _ val => content = some (.inl val)
  | .ofSnd val | .assignSnd _ val => content = some (.inr val)
  | .copyOf src | .moveOf src | .copyAssign _ src | .moveAssign _ src =>
      ∃ other, vars[src]? = some other ∧ other.Holds content

/-- After the operation the target holds what the source held, a source that
was copied is as before, and `holds` and `get` agree. -/
structure Keeps (vars : List (Either α β)) (op : Op α β) (vars' : List (Either α β)) : Prop where
  target : ∀ content, Given vars content op →
    ∃ e, vars'[op.target vars.length]? = some e ∧ e.Holds content
  source : ∀ src, op.copied = some src → vars'[src]? = vars[src]?
  agreeing : ∀ e ∈ vars', e.Agreeing

/-- Every operation of the program returns and keeps the values. -/
def KeepsAll : List (Either α β) → List (Op α β) → Prop
  | _, [] => True
  | vars, op :: ops => ∃ vars', step vars op = .ok vars' ∧ Keeps vars op vars' ∧ KeepsAll vars' ops

/-- No copy changes a tag: a construction copies an empty union, an assignment
one with the tag of its target or the target itself. -/
def Alike (vars : List (Either α β)) : Op α β → Prop
  | .copyOf src => ∀ other, vars[src]? = some other → other.holdsT1 = .none
  | .copyAssign dst src => dst = src ∨
      ∀ e other, vars[dst]? = some e → vars[src]? = some other → e.holdsT1 = other.holdsT1
  | _ => True

def AllAlike : List (Either α β) → List (Op α β) → Prop
  | _, [] => True
  | vars, op :: ops => Alike vars op ∧ ∀ vars', step vars op = .ok vars' → AllAlike vars' ops

variable {vars : List (Either α β)} {x : ℕ}

theorem variableAt_of_lt (h : x < vars.length) :
    ∃ e, variableAt vars x = .ok e ∧ vars[x]? = some e ∧ e ∈ vars := by
  refine ⟨vars[x], ?_, List.getElem?_eq_getElem h, List.getElem_mem h⟩
  simp only [variableAt, List.getElem?_eq_getElem h]

/-- Every variable is in step. -/
def AllInStep (vars : List (Either α β)) : Prop := ∀ e ∈ vars, e.InStep

theorem AllInStep.append {e : Either α β} (hvars : AllInStep vars) (he : e.InStep) :
    AllInStep (vars ++ [e]) := by
  intro v hv
  rw [List.mem_append, List.mem_singleton] at hv
  rcases hv with hv | rfl
  · exact hvars v hv
  · exact he

theorem AllInStep.set {e : Either α β} (hvars : AllInStep vars) (he : e.InStep) (x : ℕ) :
    AllInStep (vars.set x e) := by
  intro v hv
  rcases List.mem_or_eq_of_mem_set hv with hv | rfl
  · exact hvars v hv
  · exact he

theorem Holds.unique {e : Either α β} {content content' : Option (α ⊕ β)} (h : e.Holds content)
    (h' : e.Holds content') : content = content' := by
  have htag : tagOf content = tagOf content' := h.tag.symm.trans h'.tag
  rcases content with _ | val | val <;> rcases content' with _ | val' | val' <;>
    simp only [tagOf, reduceCtorEq] at htag
  · rfl
  · have hvalue := (holds_fst.mp h).2.symm.trans (holds_fst.mp h').2
    cases hvalue
    rfl
  · have hvalue := (holds_snd.mp h).2.symm.trans (holds_snd.mp h').2
    cases hvalue
    rfl

theorem Given.unique {op : Op α β} {content content' : Option (α ⊕ β)} (h : Given vars content op)
    (h' : Given vars content' op) : content = content' := by
  cases op with
  | default | ofFst _ | ofSnd _ | assignFst _ _ | assignSnd _ _ => exact h.trans h'.symm
  | copyOf src | moveOf src | copyAssign _ src | moveAssign _ src =>
    obtain ⟨other, hat, hother⟩ := h
    obtain ⟨other', hat', hother'⟩ := h'
    rw [hat] at hat'
    cases hat'
    exact hother.unique hother'

/-- What a step does when it keeps the values and the tags. -/
structure Proceeds (vars : List (Either α β)) (op : Op α β) (vars' : List (Either α β)) : Prop
    extends Keeps vars op vars' where
  returns : step vars op = .ok vars'
  inStep : AllInStep vars'
  declares : vars'.length = op.after vars.length

/-- One variable that holds what was given makes a step that keeps the values. -/
theorem Proceeds.of_holds {op : Op α β} {vars' : List (Either α β)} {e : Either α β}
    {content : Option (α ⊕ β)} (hstep : step vars op = .ok vars') (hgiven : Given vars content op)
    (he : e.Holds content) (hat : vars'[op.target vars.length]? = some e)
    (hsource : ∀ src, op.copied = some src → vars'[src]? = vars[src]?) (hvars : AllInStep vars')
    (hlen : vars'.length = op.after vars.length) : Proceeds vars op vars' where
  target := by
    intro other hother
    rw [hother.unique hgiven]
    exact ⟨e, hat, he⟩
  source := hsource
  agreeing v hv := (hvars v hv).agreeing
  returns := hstep
  inStep := hvars
  declares := hlen

theorem step_copyOf {src : ℕ} (hvars : AllInStep vars) (hsrc : src < vars.length) :
    ∃ e other content, vars[src]? = some other ∧ other.Holds content ∧
      step vars (.copyOf src) = .ok (vars ++ [e]) ∧ e.holdsT1 = .none ∧
      (other.holdsT1 = .none → e.Holds content) := by
  obtain ⟨other, hother, hat, hmem⟩ := variableAt_of_lt hsrc
  obtain ⟨content, hcontent⟩ := hvars other hmem
  obtain ⟨e, hcopy, htag, he⟩ := copyAssign_holds ⟨none, fresh_holds⟩ hcontent
  refine ⟨e, other, content, hat, hcontent, ?_, htag, fun h => he h.symm⟩
  exact (except_bind_of_ok hother).trans (except_bind_of_ok hcopy)

theorem step_copyAssign {dst src : ℕ} (hvars : AllInStep vars) (hdst : dst < vars.length)
    (hsrc : src < vars.length) (hne : dst ≠ src) :
    ∃ e e' other content, vars[dst]? = some e ∧ vars[src]? = some other ∧ other.Holds content ∧
      step vars (.copyAssign dst src) = .ok (vars.set dst e') ∧ e'.holdsT1 = e.holdsT1 ∧
      (e.holdsT1 = other.holdsT1 → e'.Holds content) := by
  obtain ⟨e, he, hatDst, hmemDst⟩ := variableAt_of_lt hdst
  obtain ⟨other, hother, hat, hmem⟩ := variableAt_of_lt hsrc
  obtain ⟨content, hcontent⟩ := hvars other hmem
  obtain ⟨e', hcopy, htag, he'⟩ := copyAssign_holds (hvars e hmemDst) hcontent
  refine ⟨e, e', other, content, hatDst, hat, hcontent, ?_, htag, he'⟩
  rw [step, except_bind_of_ok he, except_bind_of_ok hother, if_neg hne, except_bind_of_ok hcopy]
  rfl

/-- A value that is assigned is held, whatever the target held. -/
theorem proceeds_of_assign {dst : ℕ} {op : Op α β} {other : Either α β}
    {content : Option (α ⊕ β)} (hvars : AllInStep vars) (hdst : dst < vars.length)
    (hother : other.Holds content) (hgiven : Given vars content op)
    (hop : step vars op = (do
      let e ← variableAt vars dst
      return vars.set dst (← e.assignTemporary other)))
    (htarget : op.target vars.length = dst) (hcopied : op.copied = none)
    (hafter : op.after vars.length = vars.length) : ∃ vars', Proceeds vars op vars' := by
  obtain ⟨e, he, -, hmem⟩ := variableAt_of_lt hdst
  obtain ⟨e', hassign, he'⟩ := assignTemporary_holds (hvars e hmem) hother
  refine ⟨vars.set dst e', .of_holds ?_ hgiven he' ?_ (by simp [hcopied])
    (hvars.set ⟨content, he'⟩ dst) (by rw [List.length_set, hafter])⟩
  · rw [hop, except_bind_of_ok he, except_bind_of_ok hassign]
    rfl
  · rw [htarget, List.getElem?_set_self hdst]

/-- A new variable that holds its value. -/
theorem proceeds_of_declare {op : Op α β} {e : Either α β} {content : Option (α ⊕ β)}
    (hvars : AllInStep vars) (he : e.Holds content) (hgiven : Given vars content op)
    (hop : step vars op = .ok (vars ++ [e])) (htarget : op.target vars.length = vars.length)
    (hcopied : ∀ src, op.copied = some src → src < vars.length)
    (hafter : op.after vars.length = vars.length + 1) : Proceeds vars op (vars ++ [e]) := by
  refine .of_holds hop hgiven he ?_ ?_ (hvars.append ⟨content, he⟩) ?_
  · rw [htarget, List.getElem?_append_right (Nat.le_refl _)]
    simp
  · intro src hsrc
    exact List.getElem?_append_left (hcopied src hsrc)
  · rw [hafter, List.length_append, List.length_singleton]

/-- Each operation that changes no tag by copying keeps the values. -/
theorem step_proceeds {op : Op α β} (hvars : AllInStep vars) (hop : op.Scoped vars.length)
    (halike : Alike vars op) : ∃ vars', Proceeds vars op vars' := by
  cases op with
  | default =>
    exact ⟨_, proceeds_of_declare hvars empty_holds rfl rfl rfl (by simp [Op.copied]) rfl⟩
  | ofFst val =>
    exact ⟨_, proceeds_of_declare hvars (ofFst_holds val) rfl rfl rfl (by simp [Op.copied]) rfl⟩
  | ofSnd val =>
    exact ⟨_, proceeds_of_declare hvars (ofSnd_holds val) rfl rfl rfl (by simp [Op.copied]) rfl⟩
  | copyOf src =>
    obtain ⟨e, other, content, hat, hcontent, hstep, -, he⟩ := step_copyOf hvars hop
    refine ⟨_, proceeds_of_declare hvars (he (halike other hat)) ⟨other, hat, hcontent⟩ hstep rfl
      ?_ rfl⟩
    intro src' hsrc'
    cases hsrc'
    exact hop
  | moveOf src =>
    obtain ⟨other, hother, hat, hmem⟩ := variableAt_of_lt hop
    obtain ⟨content, hcontent⟩ := hvars other hmem
    have hleft := hvars.set ⟨none, fresh_holds⟩ src
    refine ⟨vars.set src fresh ++ [other], .of_holds ?_ ⟨other, hat, hcontent⟩ hcontent ?_
      (by simp [Op.copied]) (hleft.append ⟨content, hcontent⟩) ?_⟩
    · exact except_bind_of_ok hother
    · simp [Op.target]
    · simp [Op.after]
  | copyAssign dst src =>
    obtain ⟨hdst, hsrc⟩ := hop
    by_cases hself : dst = src
    · subst hself
      obtain ⟨e, he, hat, hmem⟩ := variableAt_of_lt hdst
      obtain ⟨content, hcontent⟩ := hvars e hmem
      refine ⟨vars, .of_holds ?_ ⟨e, hat, hcontent⟩ hcontent hat (fun _ _ => rfl) hvars rfl⟩
      rw [step, except_bind_of_ok he, except_bind_of_ok he, if_pos rfl]
      rfl
    · obtain ⟨e, e', other, content, hatDst, hat, hcontent, hstep, -, he'⟩ :=
        step_copyAssign hvars hdst hsrc hself
      have htags := halike.resolve_left hself e other hatDst hat
      refine ⟨vars.set dst e', .of_holds hstep ⟨other, hat, hcontent⟩ (he' htags) ?_ ?_
        (hvars.set ⟨content, he' htags⟩ dst) List.length_set⟩
      · exact List.getElem?_set_self hdst
      · intro src' hsrc'
        cases hsrc'
        exact List.getElem?_set_ne hself
  | moveAssign dst src =>
    obtain ⟨hdst, hsrc⟩ := hop
    obtain ⟨e, he, -, hmemDst⟩ := variableAt_of_lt hdst
    obtain ⟨other, hother, hat, hmem⟩ := variableAt_of_lt hsrc
    obtain ⟨content, hcontent⟩ := hvars other hmem
    have hswapped := (hvars.set (hvars e hmemDst) src).set ⟨content, hcontent⟩ dst
    refine ⟨(vars.set src e).set dst other, .of_holds ?_ ⟨other, hat, hcontent⟩ hcontent ?_
      (by simp [Op.copied]) hswapped (by simp [Op.after])⟩
    · exact (except_bind_of_ok he).trans (except_bind_of_ok hother)
    · exact List.getElem?_set_self (by rw [List.length_set]; exact hdst)
  | assignFst dst val =>
    exact proceeds_of_assign hvars hop (ofFst_holds val) rfl rfl rfl rfl rfl
  | assignSnd dst val =>
    exact proceeds_of_assign hvars hop (ofSnd_holds val) rfl rfl rfl rfl rfl

/-- A copy that keeps the values changes no tag. -/
theorem alike_of_keeps {op : Op α β} {vars' : List (Either α β)} (hvars : AllInStep vars)
    (hop : op.Scoped vars.length) (hstep : step vars op = .ok vars') (h : Keeps vars op vars') :
    Alike vars op := by
  cases op with
  | copyOf src =>
    obtain ⟨e, other, content, hat, hcontent, hcopy, htag, -⟩ := step_copyOf hvars hop
    rw [hcopy] at hstep
    cases hstep
    obtain ⟨e', hat', he'⟩ := h.target content ⟨other, hat, hcontent⟩
    have hnew : e' = e := by simpa [Op.target] using hat'.symm
    intro other' hother'
    rw [hat] at hother'
    cases hother'
    rw [hcontent.tag, ← he'.tag, hnew, htag]
  | copyAssign dst src =>
    obtain ⟨hdst, hsrc⟩ := hop
    by_cases hself : dst = src
    · exact .inl hself
    · obtain ⟨e, e', other, content, hatDst, hat, hcontent, hcopy, htag, -⟩ :=
        step_copyAssign hvars hdst hsrc hself
      rw [hcopy] at hstep
      cases hstep
      obtain ⟨e'', hat', he''⟩ := h.target content ⟨other, hat, hcontent⟩
      have hset : (vars.set dst e')[dst]? = some e' := List.getElem?_set_self hdst
      have hnew : e' = e'' := Option.some.inj (hset.symm.trans hat')
      refine .inr fun d o hd ho => ?_
      rw [hatDst] at hd
      rw [hat] at ho
      cases hd
      cases ho
      rw [hcontent.tag, ← he''.tag, ← hnew, htag]
  | default | ofFst _ | ofSnd _ | moveOf _ | moveAssign _ _ | assignFst _ _ | assignSnd _ _ =>
    trivial

theorem keepsAll_iff_of_inStep {ops : List (Op α β)} (hvars : AllInStep vars)
    (hops : WellScoped vars.length ops) : KeepsAll vars ops ↔ AllAlike vars ops := by
  induction ops generalizing vars with
  | nil => exact Iff.rfl
  | cons op ops ih =>
    obtain ⟨hop, hrest⟩ := hops
    constructor
    · intro h
      obtain ⟨vars', hstep, hkeeps, hall⟩ := h
      have halike := alike_of_keeps hvars hop hstep hkeeps
      obtain ⟨vars'', hproceeds⟩ := step_proceeds hvars hop halike
      refine ⟨halike, fun next hnext => ?_⟩
      have hsame : vars' = next := Except.ok.inj (hstep.symm.trans hnext)
      have hsame' : vars'' = next := Except.ok.inj (hproceeds.returns.symm.trans hnext)
      subst hsame hsame'
      exact (ih hproceeds.inStep (by rw [hproceeds.declares]; exact hrest)).mp hall
    · intro h
      obtain ⟨halike, hall⟩ := h
      obtain ⟨vars', hproceeds⟩ := step_proceeds hvars hop halike
      refine ⟨vars', hproceeds.returns, hproceeds.toKeeps, ?_⟩
      exact (ih hproceeds.inStep (by rw [hproceeds.declares]; exact hrest)).mpr
        (hall vars' hproceeds.returns)

/-- A program keeps the values of its unions exactly when it copies only what
is empty into new ones, and only between unions with the same tag. -/
theorem keepsAll_iff_allAlike {ops : List (Op α β)} (hops : WellScoped 0 ops) :
    KeepsAll [] ops ↔ AllAlike [] ops :=
  keepsAll_iff_of_inStep (by simp [AllInStep]) hops

/-- A union with a number, and a copy of it. -/
def copyingProgram : List (Op Int32 Bytes) := [.ofFst 5, .copyOf 0]

theorem copyingProgram_not_keepsAll : ¬ KeepsAll [] copyingProgram := by
  intro h
  obtain ⟨vars, hfirst, -, vars', hsecond, hkeeps, -⟩ := h
  cases hfirst
  cases hsecond
  obtain ⟨e, hat, he⟩ := hkeeps.target (some (.inl 5)) ⟨ofFst 5, rfl, ofFst_holds 5⟩
  cases hat
  exact absurd he.tag (by decide)

theorem keepsAll_iff_copying : KeepsAll [] copyingProgram ↔ AllAlike [] copyingProgram :=
  keepsAll_iff_allAlike ⟨trivial, Nat.one_pos, trivial⟩

end Programs
end Either
end Dotchat
