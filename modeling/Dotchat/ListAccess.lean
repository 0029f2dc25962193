import Dotchat.Values

/-!
The typed access to a list, and its four `push_back` overloads. An accessor
unwraps an element through a `std::any`; what it passes to `std::any_cast` is
not the content of the element, though, but the element itself or its address,
for which an `any` is made on the spot. That `any` never has the type asked for,
so that no accessor returns, while what concerns other types and the size of the
list is as documented.
-/
namespace Dotchat

open FaultState

/-- A computation on a list. -/
abbrev ListM := EStateM Fault ArgList

/-- A value of the type that an enumerator stands for. -/
abbrev Value (t : ValType) := { a : Arg // a.type = t }

/-- The types of what the accessors put into a `std::any`, and of what they
cast it to. -/
inductive TypeId
  | value (t : ValType)
  | pointer (t : ValType)
  | arg
  | argPointer
  | constArgPointer
  deriving DecidableEq

/-- A pointer is what it points to. -/
def TypeId.Carrier : TypeId → Type
  | value t | pointer t => Value t
  | arg | argPointer | constArgPointer => Arg

/-- `std::any` -/
structure AnyValue where
  id : TypeId
  content : id.Carrier

/-- `std::any_cast` of an `any` -/
def anyCast (id : TypeId) (operand : AnyValue) : ListM id.Carrier :=
  if h : operand.id = id then return h ▸ operand.content else throw (.thrown .badAnyCast)

/-- `*pointer` -/
def deref {t : ValType} (pointer : (TypeId.pointer t).Carrier) : Value t := pointer

/-- What a reference is bound to. -/
def bound {t : ValType} (value : (TypeId.value t).Carrier) : Value t := value

namespace ArgList

/-- `_content[n]` -/
def elementAt (n : ℕ) : ListM Arg := do
  match (← get).content[n]? with
  | some a => return a
  | none => throw .outOfBounds

/-- The accessors that hand `&_content[n]` to `std::any_cast<T *>`. -/
def getThrough (box : Arg → AnyValue) (t : ValType) (n : ℕ) : ListM (Value t) := do
  if (← get).contained = t then
    let element ← elementAt n
    let pointer ← anyCast (.pointer t) (box element)
    return deref pointer
  else throw (.thrown .badAnyCast)

/-- `get_as` -/
def getAs (t : ValType) : ℕ → ListM (Value t) := getThrough (⟨.argPointer, ·⟩) t

/-- `get_list` -/
def getList : ℕ → ListM (Value .list) := getThrough (⟨.argPointer, ·⟩) .list

/-- `get_obj` -/
def getObj : ℕ → ListM (Value .subObject) := getThrough (⟨.argPointer, ·⟩) .subObject

/-- `get_list() const` -/
def getListConst : ℕ → ListM (Value .list) := getThrough (⟨.constArgPointer, ·⟩) .list

/-- `get_obj() const` -/
def getObjConst : ℕ → ListM (Value .subObject) := getThrough (⟨.constArgPointer, ·⟩) .subObject

/-- `get_as() const`, which hands `_content[n]` to `std::any_cast<T>` -/
def getAsConst (t : ValType) (n : ℕ) : ListM (Value t) := do
  if (← get).contained = t then
    let element ← elementAt n
    let value ← anyCast (.value t) ⟨.arg, element⟩
    return bound value
  else throw (.thrown .badAnyCast)

/-- `operator[]<T>` -/
def index : (t : ValType) → ℕ → ListM (Value t)
  | .scalar t => getAs (.scalar t)
  | .string => getAs .string
  | .list => getList
  | .subObject => getObj

/-- `operator[]<T> const` -/
def indexConst : (t : ValType) → ℕ → ListM (Value t)
  | .scalar t => getAsConst (.scalar t)
  | .string => getAsConst .string
  | .list => getListConst
  | .subObject => getObjConst

/-- The overloads for values, which differ in their type only. -/
def pushBackAs (t : ValType) (val : Value t) : ListM Unit := do
  if (← get).content.isEmpty then modify fun l => { l with contained := t }
  if (← get).contained = t then modify fun l => { l with content := l.content ++ [val.val] }
  else throw (.thrown .badAnyCast)

/-- `push_back(const T &)` -/
def pushBackRepr (t : ValType) (val : Value t) : ListM Unit := pushBackAs t val

/-- `push_back(const arg_list &)` -/
def pushBackList (val : Value .list) : ListM Unit := pushBackAs .list val

/-- `push_back(const arg_obj &)` -/
def pushBackObj (val : Value .subObject) : ListM Unit := pushBackAs .subObject val

/-- `push_back(const arg &)` -/
def pushBackArg (val : Arg) : ListM Unit := do
  if (← get).content.isEmpty then modify fun l => { l with contained := val.type }
  if val.type ≠ (← get).contained then throw (.thrown .badAnyCast)
  modify fun l => { l with content := l.content ++ [val] }

/-- The overload that a value of a type selects. -/
def pushBackValue : (t : ValType) → Value t → ListM Unit
  | .scalar t => pushBackRepr (.scalar t)
  | .string => pushBackRepr .string
  | .list => pushBackList
  | .subObject => pushBackObj

/-- A typed accessor, with the type it returns. -/
inductive Accessor : ValType → Type
  | getAs (t : ValType) : Accessor t
  | getAsConst (t : ValType) : Accessor t
  | getList : Accessor .list
  | getListConst : Accessor .list
  | getObj : Accessor .subObject
  | getObjConst : Accessor .subObject
  | index (t : ValType) : Accessor t
  | indexConst (t : ValType) : Accessor t

def Accessor.run {t : ValType} : Accessor t → ℕ → ListM (Value t)
  | getAs t => ArgList.getAs t
  | getAsConst t => ArgList.getAsConst t
  | getList => ArgList.getList
  | getListConst => ArgList.getListConst
  | getObj => ArgList.getObj
  | getObjConst => ArgList.getObjConst
  | index t => ArgList.index t
  | indexConst t => ArgList.indexConst t

/-- How a value is pushed: as itself, or wrapped in an `arg`. -/
inductive Overload
  | value
  | arg

def Overload.push {t : ValType} : Overload → Value t → ListM Unit
  | value => pushBackValue t
  | arg => fun val => pushBackArg val.val

section Pushes

variable {l : ArgList} {t : ValType}

theorem get_apply (l : ArgList) : (get : ListM ArgList) l = .ok l l := rfl

theorem modify_apply (f : ArgList → ArgList) (l : ArgList) :
    (modify f : ListM Unit) l = .ok () (f l) := rfl

/-- What a push makes of a list: it is as before when the value is refused. -/
def pushResult (l : ArgList) (val : Arg) : EStateM.Result Fault ArgList Unit :=
  match l.pushBack val with
  | .ok l' => .ok () l'
  | .error e => .error (.thrown e) l

theorem pushBackAs_apply (val : Value t) (l : ArgList) :
    pushBackAs t val l = pushResult l val.val := by
  obtain ⟨val, htype⟩ := val
  subst htype
  cases hcontent : l.content with
  | nil =>
    simp [pushBackAs, pushResult, pushBack, declared, hcontent, modify_apply, get_apply, bind,
      EStateM.bind]
  | cons a rest =>
    by_cases hsame : l.contained = val.type
    · simp [pushBackAs, pushResult, pushBack, declared, hcontent, hsame, modify_apply, get_apply,
        bind, EStateM.bind]
    · simp [pushBackAs, pushResult, pushBack, declared, hcontent, hsame, Ne.symm hsame, get_apply,
        bind, EStateM.bind]
      rfl

theorem pushBackArg_apply (val : Arg) (l : ArgList) : pushBackArg val l = pushResult l val := by
  cases hcontent : l.content with
  | nil =>
    simp [pushBackArg, pushResult, pushBack, declared, hcontent, modify_apply, get_apply, bind,
      EStateM.bind]
  | cons a rest =>
    by_cases hsame : l.contained = val.type
    · simp [pushBackArg, pushResult, pushBack, declared, hcontent, hsame, modify_apply, get_apply,
        bind, EStateM.bind]
    · simp [pushBackArg, pushResult, pushBack, declared, hcontent, Ne.symm hsame, modify_apply,
        get_apply, bind, EStateM.bind]
      rfl

/-- The overloads make the same of a list. -/
theorem push_apply (o : Overload) (val : Value t) (l : ArgList) :
    o.push val l = pushResult l val.val := by
  cases o with
  | arg => exact pushBackArg_apply val.val l
  | value =>
    cases t with
    | scalar _ | string | list | subObject => exact pushBackAs_apply val l

theorem push_eq_ok {o : Overload} {val : Value t} {l l' : ArgList}
    (h : o.push val l = .ok () l') : l.pushBack val.val = .ok l' := by
  rw [push_apply, pushResult] at h
  cases hpush : l.pushBack val.val with
  | ok l'' =>
    rw [hpush] at h
    cases h
    rfl
  | error e =>
    rw [hpush] at h
    cases h

/-- A refused value leaves the list as it was. -/
theorem push_eq_error {o : Overload} {val : Value t} {l l' : ArgList} {e : Fault}
    (h : o.push val l = .error e l') : l' = l := by
  rw [push_apply, pushResult] at h
  cases hpush : l.pushBack val.val with
  | ok l'' =>
    rw [hpush] at h
    cases h
  | error e =>
    rw [hpush] at h
    cases h
    rfl

/-- A list with elements refuses a value exactly when it is of another type. -/
theorem push_refused_iff (o : Overload) (val : Value t) (l : ArgList) :
    o.push val l = .error (.thrown .badAnyCast) l ↔ l.content ≠ [] ∧ l.contained ≠ t := by
  obtain ⟨val, htype⟩ := val
  subst htype
  rw [push_apply, pushResult]
  by_cases haccept : l.content ≠ [] → l.contained = val.type
  · rw [pushBack_of_type haccept]
    simp only [reduceCtorEq, false_iff, not_and, ne_eq, not_not]
    exact haccept
  · obtain ⟨hne, hother⟩ := Classical.not_imp.mp haccept
    have hrefuse : l.pushBack val = .error .badAnyCast := by
      simp [pushBack, declared, hne, Ne.symm hother]
    simp only [hrefuse, true_iff]
    exact ⟨hne, hother⟩

end Pushes

section Access

variable {l : ArgList} {t : ValType} {n : ℕ}

theorem elementAt_of_lt (h : n < l.content.length) : elementAt n l = .ok l.content[n] l := by
  rw [elementAt, bind_of_ok (get_apply l)]
  simp only [List.getElem?_eq_getElem h]
  rfl

theorem anyCast_of_ne {id : TypeId} {operand : AnyValue} (h : operand.id ≠ id) (l : ArgList) :
    anyCast id operand l = .error (.thrown .badAnyCast) l := by
  rw [anyCast, dif_neg h]
  rfl

theorem getThrough_of_lt {box : Arg → AnyValue} (hbox : ∀ a, (box a).id ≠ .pointer t)
    (h : n < l.content.length) : getThrough box t n l = .error (.thrown .badAnyCast) l := by
  rw [getThrough, bind_of_ok (get_apply l)]
  by_cases ht : l.contained = t
  · rw [if_pos ht, bind_of_ok (elementAt_of_lt h), bind_of_error (anyCast_of_ne (hbox _) l)]
  · rw [if_neg ht]
    rfl

theorem getAsConst_of_lt (h : n < l.content.length) :
    getAsConst t n l = .error (.thrown .badAnyCast) l := by
  have hne : TypeId.arg ≠ .value t := by simp
  rw [getAsConst, bind_of_ok (get_apply l)]
  by_cases ht : l.contained = t
  · rw [if_pos ht, bind_of_ok (elementAt_of_lt h), bind_of_error (anyCast_of_ne hne l)]
  · rw [if_neg ht]
    rfl

/-- No accessor returns, whether or not its type is that of the list. -/
theorem Accessor.run_of_lt (acc : Accessor t) (h : n < l.content.length) :
    acc.run n l = .error (.thrown .badAnyCast) l := by
  have hpointer : ∀ u, getThrough (⟨.argPointer, ·⟩) u n l = .error (.thrown .badAnyCast) l :=
    fun u => getThrough_of_lt (by simp) h
  have hconst : ∀ u, getThrough (⟨.constArgPointer, ·⟩) u n l = .error (.thrown .badAnyCast) l :=
    fun u => getThrough_of_lt (by simp) h
  cases acc with
  | getAs _ | getList | getObj => exact hpointer _
  | getListConst | getObjConst => exact hconst _
  | getAsConst t => exact getAsConst_of_lt h
  | index t =>
    cases t with
    | scalar _ | string | list | subObject => exact hpointer _
  | indexConst t =>
    cases t with
    | scalar _ | string => exact getAsConst_of_lt h
    | list | subObject => exact hconst _

end Access

section Law

/-- The lists made from an empty one by pushing values of a type, with any
number of refused values in between. -/
inductive Obtained (t : ValType) : List (Value t) → ArgList → Prop
  | empty : Obtained t [] {}
  | pushed {vals : List (Value t)} {l l' : ArgList} (h : Obtained t vals l) (o : Overload)
      (val : Value t) (hpush : o.push val l = .ok () l') : Obtained t (vals ++ [val]) l'
  | refused {vals : List (Value t)} {l l' : ArgList} {u : ValType} (h : Obtained t vals l)
      (o : Overload) (val : Value u) (e : Fault) (hpush : o.push val l = .error e l') :
      Obtained t vals l'

/-- The accessors of the type return the value that was pushed. -/
def ReturnsPushed {t : ValType} (vals : List (Value t)) (l : ArgList) : Prop :=
  ∀ n val, vals[n]? = some val → ∀ acc : Accessor t, acc.run n l = .ok val l

/-- The accessors of every other type throw and leave the list as it is. -/
def RejectsOthers (t : ValType) (l : ArgList) : Prop :=
  ∀ n < l.content.length, ∀ u ≠ t, ∀ acc : Accessor u,
    acc.run n l = .error (.thrown .badAnyCast) l

/-- `push_back` of a value of another type throws and leaves the list as it is. -/
def RefusesOthers (t : ValType) (l : ArgList) : Prop :=
  ∀ u ≠ t, ∀ (o : Overload) (val : Value u), o.push val l = .error (.thrown .badAnyCast) l

/-- A list returns what was pushed, and no more. An empty list has no element
to access and no type to be held to. -/
structure KeepsPushed {t : ValType} (vals : List (Value t)) (l : ArgList) : Prop where
  size : l.content.length = vals.length
  returns : ReturnsPushed vals l
  rejects : RejectsOthers t l
  refuses : l.content ≠ [] → RefusesOthers t l

variable {t : ValType} {vals : List (Value t)} {l : ArgList}

theorem Obtained.content (h : Obtained t vals l) :
    l.content = vals.map (·.val) ∧ (vals ≠ [] → l.contained = t) := by
  induction h with
  | empty => simp
  | pushed h o val hpush ih =>
    obtain ⟨hcontained, hcontent, -⟩ := pushBack_eq_ok (push_eq_ok hpush)
    rw [hcontent, hcontained, ih.1, val.property]
    simp
  | refused h o val e hpush ih =>
    rw [push_eq_error hpush]
    exact ih

theorem rejects_others (t : ValType) (l : ArgList) : RejectsOthers t l :=
  fun _ hn _ _ acc => acc.run_of_lt hn

/-- Another type than a given one, and a value of it. -/
theorem exists_other (t : ValType) : ∃ u ≠ t, Nonempty (Value u) := by
  by_cases h : ValType.string = t
  · exact ⟨.list, by rw [← h]; decide, ⟨⟨.list .list [], rfl⟩⟩⟩
  · exact ⟨.string, h, ⟨⟨.string [], rfl⟩⟩⟩

theorem Obtained.refuses_iff (h : Obtained t vals l) : RefusesOthers t l ↔ vals ≠ [] := by
  obtain ⟨hcontent, hcontained⟩ := h.content
  constructor
  · intro hrefuses
    obtain ⟨u, hne, ⟨val⟩⟩ := exists_other t
    have hnonempty := ((push_refused_iff .arg val l).mp (hrefuses u hne .arg val)).1
    intro hvals
    exact hnonempty (by rw [hcontent, hvals, List.map_nil])
  · intro hvals u hne o val
    apply (push_refused_iff o val l).mpr
    refine ⟨?_, by rw [hcontained hvals]; exact Ne.symm hne⟩
    rw [hcontent]
    exact mt List.map_eq_nil_iff.mp hvals

theorem Obtained.returns_iff (h : Obtained t vals l) : ReturnsPushed vals l ↔ vals = [] := by
  constructor
  · intro hreturns
    cases vals with
    | nil => rfl
    | cons val rest =>
      have hlt : 0 < l.content.length := by
        rw [h.content.1]
        simp
      have hok := hreturns 0 val rfl (.getAs t)
      rw [(Accessor.getAs t).run_of_lt hlt] at hok
      cases hok
  · intro hvals n val hval
    subst hvals
    simp at hval

/-- A list with elements never returns what was pushed. Its size, the accessors
of the other types and the refusal of other values are as they should be. -/
theorem keepsPushed_iff (h : Obtained t vals l) :
    (KeepsPushed vals l ↔ vals = []) ∧ l.content.length = vals.length ∧ RejectsOthers t l ∧
      (RefusesOthers t l ↔ vals ≠ []) := by
  have hsize : l.content.length = vals.length := by rw [h.content.1, List.length_map]
  refine ⟨?_, hsize, rejects_others t l, h.refuses_iff⟩
  constructor
  · intro hkeeps
    exact h.returns_iff.mp hkeeps.returns
  · intro hvals
    refine ⟨hsize, h.returns_iff.mpr hvals, rejects_others t l, fun hne => ?_⟩
    exact absurd (List.length_eq_zero_iff.mp (by rw [hsize, hvals, List.length_nil])) hne

/-- A number, and the list that it was pushed to. -/
def five : Value (.scalar .int32) := ⟨.scalar (.int32 5), rfl⟩

def fiveList : ArgList := { contained := .scalar .int32, content := [five.val] }

theorem obtained_fiveList : Obtained (.scalar .int32) [five] fiveList :=
  .pushed .empty .value five (pushBackAs_apply five {})

theorem fiveList_not_keepsPushed :
    Obtained (.scalar .int32) [five] fiveList ∧ ¬ KeepsPushed [five] fiveList := by
  refine ⟨obtained_fiveList, fun h => ?_⟩
  have hok := h.returns 0 five rfl (.getAs (.scalar .int32))
  rw [(Accessor.getAs (.scalar .int32)).run_of_lt Nat.one_pos] at hok
  cases hok

def six : Value (.scalar .int32) := ⟨.scalar (.int32 6), rfl⟩

def word : Value .string := ⟨.string (ascii "seven"), rfl⟩

/-- Two numbers, between which a string was refused. -/
def numbers : ArgList := { contained := .scalar .int32, content := [five.val, six.val] }

theorem obtained_numbers : Obtained (.scalar .int32) [five, six] numbers := by
  have hrefused : Obtained (.scalar .int32) [five] fiveList :=
    .refused obtained_fiveList .value word (.thrown .badAnyCast) (pushBackAs_apply word fiveList)
  exact .pushed hrefused .value six (pushBackAs_apply six fiveList)

theorem keepsPushed_iff_numbers :
    ¬ KeepsPushed [five, six] numbers ∧ numbers.content.length = 2 ∧
      RejectsOthers (.scalar .int32) numbers ∧ RefusesOthers (.scalar .int32) numbers := by
  obtain ⟨hkeeps, hsize, hrejects, hrefuses⟩ := keepsPushed_iff obtained_numbers
  have hne : [five, six] ≠ [] := List.cons_ne_nil _ _
  exact ⟨fun h => hne (hkeeps.mp h), hsize, hrejects, hrefuses.mpr hne⟩

end Law

end ArgList
end Dotchat
