import Dotchat.Bytestream
import Dotchat.Library.OrderedMap
import Dotchat.Library.WordBytes

/-!
The argument values of message.hpp. An `arg` pairs a type tag with a value of
that type, so a value is modelled by one constructor for each type; the seven
fixed-width types share one. An `arg` can also lose its value and keep its tag;
the decoder and the constructors make no such `arg`, so it is a case only where
a parameter of the type asks for it. A list stores the type of its elements apart
from the elements, and only `push_back` relates the two. An object is an ordered
map from keys to values. `Everywhere` lifts conditions on strings, objects and
lists to every depth of a value; the invariant of the public constructors and
the limits of the format are instances of it.
-/
namespace Dotchat

/-- Characters are compared as unsigned bytes, strings lexicographically. -/
instance linearOrderByte : LinearOrder UInt8 where
  le_refl := UInt8.le_refl
  le_trans _ _ _ := UInt8.le_trans
  le_antisymm _ _ := UInt8.le_antisymm
  le_total := UInt8.le_total
  lt_iff_le_not_ge a b := by
    simp only [UInt8.lt_iff_toNat_lt, UInt8.le_iff_toNat_le]
    omega
  toDecidableLE := inferInstance
  toDecidableLT := inferInstance

/-- The bytes of a text of the source. -/
def ascii (text : String) : Bytes := text.toList.map fun c => UInt8.ofNat c.toNat

inductive ScalarType
  | int8 | int16 | int32 | uint8 | uint16 | uint32 | char
  deriving DecidableEq, Repr

/-- `val_types` -/
inductive ValType
  | scalar (t : ScalarType)
  | string
  | subObject
  | list
  deriving DecidableEq, Repr

namespace ScalarType

def sizeof : ScalarType → ℕ
  | int8 | uint8 | char => 1
  | int16 | uint16 => 2
  | int32 | uint32 => 4

/-- `requires_reorder` -/
def requiresReorder : ScalarType → Bool
  | int16 | uint16 | int32 | uint32 => true
  | int8 | uint8 | char => false

def code : ScalarType → UInt8
  | int8 => 0x01
  | int16 => 0x02
  | int32 => 0x03
  | uint8 => 0x11
  | uint16 => 0x12
  | uint32 => 0x13
  | char => 0x21

end ScalarType

namespace ValType

def code : ValType → UInt8
  | scalar t => t.code
  | string => 0x22
  | subObject => 0x31
  | list => 0x41

/-- The enumerators, in the order of the source's `TYPES`. -/
def all : List ValType :=
  [scalar .int8, scalar .int16, scalar .int32, scalar .uint8, scalar .uint16, scalar .uint32,
    scalar .char, string, subObject, list]

/-- The enumerator a byte is cast to, if it is the code of one. -/
def ofCode (c : UInt8) : Option ValType := all.find? fun t => t.code = c

@[simp] theorem ofCode_code (t : ValType) : ofCode t.code = some t := by
  cases t with
  | scalar t => cases t <;> rfl
  | string | subObject | list => rfl

theorem code_of_ofCode {c : UInt8} {t : ValType} (h : ofCode c = some t) : t.code = c := by
  simpa using List.find?_some h

theorem code_injective {t u : ValType} (h : t.code = u.code) : t = u :=
  Option.some_injective _ (by rw [← ofCode_code t, h, ofCode_code])

end ValType

/-- A value of a fixed-width type. A `char` is kept as its byte. -/
inductive Scalar
  | int8 (v : Int8)
  | int16 (v : Int16)
  | int32 (v : Int32)
  | uint8 (v : UInt8)
  | uint16 (v : UInt16)
  | uint32 (v : UInt32)
  | char (v : UInt8)
  deriving DecidableEq, Repr

namespace Scalar

def type : Scalar → ScalarType
  | int8 _ => .int8
  | int16 _ => .int16
  | int32 _ => .int32
  | uint8 _ => .uint8
  | uint16 _ => .uint16
  | uint32 _ => .uint32
  | char _ => .char

/-- The bit pattern, as an unsigned number. -/
def word : Scalar → ℕ
  | int8 v => v.toUInt8.toNat
  | int16 v => v.toUInt16.toNat
  | int32 v => v.toUInt32.toNat
  | uint8 v => v.toNat
  | uint16 v => v.toNat
  | uint32 v => v.toNat
  | char v => v.toNat

/-- The value of a type with a given bit pattern (`std::bit_cast`). -/
def ofWord : ScalarType → ℕ → Scalar
  | .int8, n => int8 (UInt8.ofNat n).toInt8
  | .int16, n => int16 (UInt16.ofNat n).toInt16
  | .int32, n => int32 (UInt32.ofNat n).toInt32
  | .uint8, n => uint8 (UInt8.ofNat n)
  | .uint16, n => uint16 (UInt16.ofNat n)
  | .uint32, n => uint32 (UInt32.ofNat n)
  | .char, n => char (UInt8.ofNat n)

@[simp] theorem type_ofWord (t : ScalarType) (n : ℕ) : (ofWord t n).type = t := by
  cases t <;> rfl

@[simp] theorem ofWord_word (v : Scalar) : ofWord v.type v.word = v := by
  cases v <;> simp [ofWord, type, word]

theorem word_lt (v : Scalar) : v.word < 256 ^ v.type.sizeof := by
  cases v with
  | int8 v => exact v.toUInt8.toNat_lt
  | int16 v => exact v.toUInt16.toNat_lt
  | int32 v => exact v.toUInt32.toNat_lt
  | uint8 v => exact v.toNat_lt
  | uint16 v => exact v.toNat_lt
  | uint32 v => exact v.toNat_lt
  | char v => exact v.toNat_lt

end Scalar

/-- `arg`: a value together with its type. An `arg` that was moved from has a type
but no value; without another `V`, every `arg` has a value. -/
inductive Arg (V : Type := Empty)
  | valueless (v : V) (t : ValType)
  | scalar (v : Scalar)
  | string (v : Bytes)
  | subObject (values : List (Bytes × Arg V))
  | list (contained : ValType) (content : List (Arg V))

/-- `arg_obj`: the entries of the map in the order of their keys. -/
abbrev ArgObj (V : Type := Empty) := List (Bytes × Arg V)

/-- `arg_list`: the declared type of the elements, and the elements. -/
structure ArgList (V : Type := Empty) where
  contained : ValType := .scalar .int8
  content : List (Arg V) := []

namespace Arg

def type {V : Type} : Arg V → ValType
  | valueless _ t => t
  | scalar v => .scalar v.type
  | string _ => .string
  | subObject _ => .subObject
  | list _ _ => .list

/-- The `arg` has a value of this type. -/
def HasValue {V : Type} (t : ValType) : Arg V → Prop
  | valueless _ _ => False
  | a => a.type = t

/-- The `arg` has lost a value of this type. -/
def LostValue {V : Type} (t : ValType) : Arg V → Prop
  | valueless _ u => u = t
  | _ => False

/-- Induction over values: objects and lists by their entries and elements. -/
theorem inductAll {V : Type} {P : Arg V → Prop} (valueless : ∀ v t, P (valueless v t))
    (scalar : ∀ v, P (scalar v)) (string : ∀ v, P (string v))
    (subObject : ∀ vs, (∀ e ∈ vs, P e.2) → P (subObject vs))
    (list : ∀ t c, (∀ a ∈ c, P a) → P (list t c)) (a : Arg V) : P a :=
  @Arg.rec V P (fun vs => ∀ e ∈ vs, P e.2) (fun c => ∀ a ∈ c, P a) (fun e => P e.2)
    valueless scalar string subObject list
    (by simp) (fun _ _ he hrest => List.forall_mem_cons.mpr ⟨he, hrest⟩)
    (by simp) (fun _ _ ha hrest => List.forall_mem_cons.mpr ⟨ha, hrest⟩)
    (fun _ _ ha => ha) a

@[induction_eliminator]
theorem induct {P : Arg → Prop} (scalar : ∀ v, P (scalar v)) (string : ∀ v, P (string v))
    (subObject : ∀ vs, (∀ e ∈ vs, P e.2) → P (subObject vs))
    (list : ∀ t c, (∀ a ∈ c, P a) → P (list t c)) (a : Arg) : P a :=
  inductAll (fun v _ => nomatch v) scalar string subObject list a

@[cases_eliminator]
theorem cases {P : Arg → Prop} (scalar : ∀ v, P (scalar v)) (string : ∀ v, P (string v))
    (subObject : ∀ vs, P (subObject vs)) (list : ∀ t c, P (list t c)) (a : Arg) : P a :=
  induct scalar string (fun vs _ => subObject vs) (fun t c _ => list t c) a

section Tags

variable {V : Type} {t : ValType}

theorem HasValue.type_eq {a : Arg V} (h : a.HasValue t) : a.type = t := by
  cases a using Arg.casesOn with
  | valueless v u => exact h.elim
  | scalar _ | string _ | subObject _ | list _ _ => exact h

theorem type_eq_iff {a : Arg V} : a.type = t ↔ a.HasValue t ∨ a.LostValue t := by
  cases a using Arg.casesOn with
  | valueless v u => exact (false_or _).symm.to_iff
  | scalar _ | string _ | subObject _ | list _ _ => exact (or_false _).symm.to_iff

theorem HasValue.not_lost {a : Arg V} (h : a.HasValue t) : ¬ a.LostValue t := by
  cases a using Arg.casesOn with
  | valueless v u => exact h.elim
  | scalar _ | string _ | subObject _ | list _ _ => exact id

theorem LostValue.exists_eq {a : Arg V} (h : a.LostValue t) : ∃ v, a = .valueless v t := by
  cases a using Arg.casesOn with
  | valueless v u => exact ⟨v, by rw [show u = t from h]⟩
  | scalar _ | string _ | subObject _ | list _ _ => exact h.elim

/-- Every `arg` of the decoder and the constructors has its value. -/
theorem not_lostValue {a : Arg} : ¬ a.LostValue t := by
  intro h
  obtain ⟨v, -⟩ := h.exists_eq
  exact nomatch v

end Tags

section Deciding

variable {V : Type} [DecidableEq V]

mutual

private def decEqArg : (a b : Arg V) → Decidable (a = b)
  | valueless v t, valueless w u => decidable_of_iff (v = w ∧ t = u) (by simp)
  | scalar v, scalar w => decidable_of_iff (v = w) (by simp)
  | string v, string w => decidable_of_iff (v = w) (by simp)
  | subObject vs, subObject ws =>
      @decidable_of_iff _ (vs = ws) (by simp) (decEqEntries vs ws)
  | list t c, list u d =>
      @decidable_of_iff _ (t = u ∧ c = d) (by simp)
        (@instDecidableAnd _ _ inferInstance (decEqElements c d))
  | valueless _ _, scalar _ | valueless _ _, string _ | valueless _ _, subObject _
  | valueless _ _, list _ _ | scalar _, valueless _ _ | string _, valueless _ _
  | subObject _, valueless _ _ | list _ _, valueless _ _
  | scalar _, string _ | scalar _, subObject _ | scalar _, list _ _ | string _, scalar _
  | string _, subObject _ | string _, list _ _ | subObject _, scalar _ | subObject _, string _
  | subObject _, list _ _ | list _ _, scalar _ | list _ _, string _ | list _ _, subObject _ =>
      isFalse (by simp)

private def decEqEntries : (vs ws : List (Bytes × Arg V)) → Decidable (vs = ws)
  | [], [] => isTrue rfl
  | [], _ :: _ | _ :: _, [] => isFalse (by simp)
  | (k, a) :: vs, (l, b) :: ws =>
      @decidable_of_iff _ ((k = l ∧ a = b) ∧ vs = ws) (by simp)
        (@instDecidableAnd _ _ (@instDecidableAnd _ _ inferInstance (decEqArg a b))
          (decEqEntries vs ws))

private def decEqElements : (c d : List (Arg V)) → Decidable (c = d)
  | [], [] => isTrue rfl
  | [], _ :: _ | _ :: _, [] => isFalse (by simp)
  | a :: c, b :: d =>
      @decidable_of_iff _ (a = b ∧ c = d) (by simp)
        (@instDecidableAnd _ _ (decEqArg a b) (decEqElements c d))

end

instance : DecidableEq (Arg V) := decEqArg

end Deciding

/-- A condition on every string and key, on every object and on every list of
a value, at any depth; no value is missing. -/
inductive Everywhere {V : Type} (S : Bytes → Prop) (O : ArgObj V → Prop) (L : ArgList V → Prop) :
    Arg V → Prop
  | scalar (v : Scalar) : Everywhere S O L (.scalar v)
  | string {v : Bytes} (h : S v) : Everywhere S O L (.string v)
  | subObject {vs : ArgObj V} (hobj : O vs) (hkeys : ∀ e ∈ vs, S e.1)
      (hvals : ∀ e ∈ vs, Everywhere S O L e.2) : Everywhere S O L (.subObject vs)
  | list {t : ValType} {c : List (Arg V)} (hlist : L ⟨t, c⟩)
      (hvals : ∀ a ∈ c, Everywhere S O L a) : Everywhere S O L (.list t c)

section Everywhere

variable {V : Type} {S S' : Bytes → Prop} {O O' : ArgObj V → Prop} {L L' : ArgList V → Prop}

theorem not_everywhere_valueless {v : V} {t : ValType} : ¬ Everywhere S O L (.valueless v t) :=
  nofun

@[simp] theorem everywhere_string {v : Bytes} : Everywhere S O L (.string v) ↔ S v := by
  constructor
  · intro h
    cases h with
    | string h => exact h
  · exact .string

theorem everywhere_subObject {vs : ArgObj V} : Everywhere S O L (.subObject vs) ↔
    O vs ∧ (∀ e ∈ vs, S e.1) ∧ ∀ e ∈ vs, Everywhere S O L e.2 := by
  constructor
  · intro h
    cases h with
    | subObject hobj hkeys hvals => exact ⟨hobj, hkeys, hvals⟩
  · rintro ⟨hobj, hkeys, hvals⟩
    exact .subObject hobj hkeys hvals

theorem everywhere_list {t : ValType} {c : List (Arg V)} : Everywhere S O L (.list t c) ↔
    L ⟨t, c⟩ ∧ ∀ a ∈ c, Everywhere S O L a := by
  constructor
  · intro h
    cases h with
    | list hlist hvals => exact ⟨hlist, hvals⟩
  · rintro ⟨hlist, hvals⟩
    exact .list hlist hvals

theorem Everywhere.and {a : Arg V} (h : Everywhere S O L a) (h' : Everywhere S' O' L' a) :
    Everywhere (fun v => S v ∧ S' v) (fun o => O o ∧ O' o) (fun l => L l ∧ L' l) a := by
  induction a using inductAll with
  | valueless v t => exact absurd h not_everywhere_valueless
  | scalar v => exact .scalar v
  | string v => exact .string ⟨everywhere_string.mp h, everywhere_string.mp h'⟩
  | subObject vs ih =>
    obtain ⟨hobj, hkeys, hvals⟩ := everywhere_subObject.mp h
    obtain ⟨hobj', hkeys', hvals'⟩ := everywhere_subObject.mp h'
    exact .subObject ⟨hobj, hobj'⟩ (fun e he => ⟨hkeys e he, hkeys' e he⟩)
      (fun e he => ih e he (hvals e he) (hvals' e he))
  | list t c ih =>
    obtain ⟨hlist, hvals⟩ := everywhere_list.mp h
    obtain ⟨hlist', hvals'⟩ := everywhere_list.mp h'
    exact .list ⟨hlist, hlist'⟩ (fun a ha => ih a ha (hvals a ha) (hvals' a ha))

theorem Everywhere.mono {a : Arg V} (h : Everywhere S O L a) (hS : ∀ v, S v → S' v)
    (hO : ∀ o, O o → O' o) (hL : ∀ l, L l → L' l) : Everywhere S' O' L' a := by
  induction a using inductAll with
  | valueless v t => exact absurd h not_everywhere_valueless
  | scalar v => exact .scalar v
  | string v => exact .string (hS v (everywhere_string.mp h))
  | subObject vs ih =>
    obtain ⟨hobj, hkeys, hvals⟩ := everywhere_subObject.mp h
    exact .subObject (hO vs hobj) (fun e he => hS _ (hkeys e he))
      (fun e he => ih e he (hvals e he))
  | list t c ih =>
    obtain ⟨hlist, hvals⟩ := everywhere_list.mp h
    exact .list (hL _ hlist) (fun a ha => ih a ha (hvals a ha))

end Everywhere
end Arg

namespace ArgList

variable {V : Type}

/-- `arg(const arg_list &)` -/
def toArg (l : ArgList V) : Arg V := .list l.contained l.content

/-- The element type when a value is pushed: an empty list takes the value's. -/
def declared (l : ArgList V) (val : Arg V) : ValType :=
  if l.content.isEmpty then val.type else l.contained

/-- `push_back`. The four overloads agree: each wraps its argument in an `arg`
and requires the declared type. -/
def pushBack (l : ArgList V) (val : Arg V) : Except Exc (ArgList V) :=
  if val.type = l.declared val then
    .ok { contained := l.declared val, content := l.content ++ [val] }
  else .error .badAnyCast

/-- The elements have the declared type; an empty list declares the default. -/
def Homogeneous (l : ArgList V) : Prop :=
  (∀ a ∈ l.content, a.type = l.contained) ∧ (l.content = [] → l.contained = .scalar .int8)

theorem homogeneous_empty : Homogeneous ({} : ArgList V) := by
  simp [Homogeneous]

theorem pushBack_eq_ok {l l' : ArgList V} {a : Arg V} (h : l.pushBack a = .ok l') :
    l'.contained = a.type ∧ l'.content = l.content ++ [a] ∧
      (l.content ≠ [] → l.contained = a.type) := by
  unfold pushBack at h
  split at h
  · rename_i htype
    cases h
    refine ⟨htype.symm, rfl, ?_⟩
    intro hne
    simpa [declared, hne] using htype.symm
  · cases h

theorem Homogeneous.pushBack {l l' : ArgList V} {a : Arg V} (hl : l.Homogeneous)
    (h : l.pushBack a = .ok l') : l'.Homogeneous := by
  obtain ⟨htype, hcontent, hsame⟩ := pushBack_eq_ok h
  refine ⟨?_, by simp [hcontent]⟩
  intro b hb
  rw [hcontent, List.mem_append, List.mem_singleton] at hb
  rcases hb with hb | rfl
  · rw [hl.1 b hb, hsame (List.ne_nil_of_mem hb), htype]
  · exact htype.symm

/-- A value of the declared type is accepted, and so is any value by an empty list. -/
theorem pushBack_of_type {l : ArgList V} {a : Arg V}
    (h : l.content ≠ [] → l.contained = a.type) :
    l.pushBack a = .ok { contained := a.type, content := l.content ++ [a] } := by
  have hdeclared : l.declared a = a.type := by
    unfold declared
    split
    · rfl
    · rename_i hne
      exact h (by simpa using hne)
  simp only [pushBack, hdeclared, if_true]

end ArgList

namespace ArgObj

variable {V : Type}

/-- `arg_obj::set` -/
def set (o : ArgObj V) (key : Bytes) (val : Arg V) : ArgObj V := OrderedMap.insert key val o

/-- `set` for each entry in turn. -/
def setAll (o : ArgObj V) (values : List (Bytes × Arg V)) : ArgObj V :=
  values.foldl (fun acc e => ArgObj.set acc e.1 e.2) o

def find? (o : ArgObj V) (key : Bytes) : Option (Arg V) := OrderedMap.find? key o

variable {o : ArgObj V} {values : List (Bytes × Arg V)}

/-- `o[key] = o`: `arg::operator=` takes on the type and resets the value of the entry
before it copies the object, which still contains the entry. -/
def assignSelf (o : ArgObj Unit) (key : Bytes) : ArgObj Unit :=
  o.set key (.subObject (o.set key (.valueless () .subObject)))

theorem mem_setAll {e : Bytes × Arg V} (h : e ∈ o.setAll values) : e ∈ o ∨ e ∈ values := by
  induction values generalizing o with
  | nil => exact .inl h
  | cons head rest ih =>
    rcases ih (o := o.set head.1 head.2) h with h | h
    · rcases OrderedMap.mem_insert h with rfl | h
      · exact .inr List.mem_cons_self
      · exact .inl h
    · exact .inr (List.mem_cons_of_mem _ h)

theorem mem_setAll_of_mem {e : Bytes × Arg V} (h : e ∈ o)
    (hne : ∀ e' ∈ values, e.1 ≠ e'.1) : e ∈ o.setAll values := by
  induction values generalizing o with
  | nil => exact h
  | cons head rest ih =>
    obtain ⟨hhead, hrest⟩ := List.forall_mem_cons.mp hne
    exact ih (OrderedMap.mem_insert_of_ne h hhead) hrest

/-- No entry is replaced when the keys are distinct. -/
theorem mem_setAll_of_nodup {e : Bytes × Arg V} (hkeys : (values.map (·.1)).Nodup)
    (h : e ∈ values) : e ∈ o.setAll values := by
  induction values generalizing o with
  | nil => cases h
  | cons head rest ih =>
    obtain ⟨hfresh, hrest⟩ := List.nodup_cons.mp hkeys
    rcases List.mem_cons.mp h with rfl | h
    · have hset : e ∈ o.set e.1 e.2 := OrderedMap.mem_insert_self e.1 e.2 o
      show e ∈ (o.set e.1 e.2).setAll rest
      refine mem_setAll_of_mem hset ?_
      intro e' he' heq
      exact hfresh (List.mem_map.mpr ⟨e', he', heq.symm⟩)
    · exact ih hrest h

theorem length_setAll_le (o : ArgObj V) (values : List (Bytes × Arg V)) :
    (o.setAll values).length ≤ o.length + values.length := by
  induction values generalizing o with
  | nil => exact Nat.le_refl _
  | cons head rest ih =>
    have hset : (o.set head.1 head.2).length ≤ o.length + 1 := OrderedMap.length_insert_le _ _ o
    have hrest := ih (o.set head.1 head.2)
    have hcons : o.setAll (head :: rest) = (o.set head.1 head.2).setAll rest := rfl
    rw [hcons, List.length_cons]
    omega

theorem ordered_setAll (ho : OrderedMap.Ordered o) : OrderedMap.Ordered (o.setAll values) := by
  induction values generalizing o with
  | nil => exact ho
  | cons head rest ih => exact ih (OrderedMap.ordered_insert head.1 head.2 ho)

end ArgObj

/-- The values that the public constructors, `set` and `push_back` make. -/
inductive Arg.Built : Arg → Prop
  | scalar (v : Scalar) : Arg.Built (.scalar v)
  | string (v : Bytes) : Arg.Built (.string v)
  | emptyObj : Arg.Built (.subObject [])
  | set {o : ArgObj} {a : Arg} (key : Bytes) (ho : Arg.Built (.subObject o)) (ha : Arg.Built a) :
      Arg.Built (.subObject (o.set key a))
  | emptyList : Arg.Built (ArgList.toArg {})
  | pushBack {l l' : ArgList} {a : Arg} (hl : Arg.Built l.toArg) (ha : Arg.Built a)
      (h : l.pushBack a = .ok l') : Arg.Built l'.toArg

/-- Keys are ordered and lists homogeneous, at any depth. -/
abbrev Arg.WellFormed : Arg → Prop :=
  Arg.Everywhere (fun _ => True) OrderedMap.Ordered ArgList.Homogeneous

theorem Arg.WellFormed.set {o : ArgObj} {a : Arg} (key : Bytes)
    (ho : Arg.WellFormed (.subObject o)) (ha : a.WellFormed) :
    Arg.WellFormed (.subObject (o.set key a)) := by
  obtain ⟨hord, -, hvals⟩ := everywhere_subObject.mp ho
  refine .subObject (OrderedMap.ordered_insert key a hord) (fun _ _ => trivial) ?_
  intro e he
  rcases OrderedMap.mem_insert he with rfl | he
  · exact ha
  · exact hvals e he

theorem Arg.WellFormed.pushBack {l l' : ArgList} {a : Arg} (hl : l.toArg.WellFormed)
    (ha : a.WellFormed) (h : l.pushBack a = .ok l') : l'.toArg.WellFormed := by
  obtain ⟨hhom, hvals⟩ := everywhere_list.mp hl
  refine .list (ArgList.Homogeneous.pushBack hhom h) ?_
  intro b hb
  rw [(ArgList.pushBack_eq_ok h).2.1, List.mem_append, List.mem_singleton] at hb
  rcases hb with hb | rfl
  · exact hvals b hb
  · exact ha

theorem Arg.Built.wellFormed {a : Arg} (h : a.Built) : a.WellFormed := by
  induction h with
  | scalar v => exact .scalar v
  | string v => exact .string trivial
  | emptyObj => exact .subObject OrderedMap.ordered_nil (by simp) (by simp)
  | set key ho ha iho iha => exact iho.set key iha
  | emptyList => exact .list ArgList.homogeneous_empty (by simp)
  | pushBack hl ha h ihl iha => exact ihl.pushBack iha h

/-- Strings of at most 255 bytes and objects of at most 255 keys. -/
abbrev Arg.Sendable {V : Type} : Arg V → Prop :=
  Arg.Everywhere (fun v => v.length ≤ 0xFF) (fun o => o.length ≤ 0xFF) (fun _ => True)

/-- Strings without NUL bytes and lists whose length fits its 32-bit prefix. -/
abbrev Arg.Plain : Arg → Prop :=
  Arg.Everywhere (fun v => 0 ∉ v) (fun _ => True) (fun l => l.content.length < 2 ^ 32)

/-- The values the decoder can produce: well formed, within the limits, plain. -/
abbrev Arg.Canonical : Arg → Prop :=
  Arg.Everywhere (fun v => v.length ≤ 0xFF ∧ 0 ∉ v)
    (fun o => OrderedMap.Ordered o ∧ o.length ≤ 0xFF)
    (fun l => l.Homogeneous ∧ l.content.length < 2 ^ 32)

theorem Arg.canonical_iff {a : Arg} :
    a.Canonical ↔ a.WellFormed ∧ a.Sendable ∧ a.Plain := by
  constructor
  · intro h
    exact ⟨h.mono (fun _ _ => trivial) (fun _ h => h.1) (fun _ h => h.1),
      h.mono (fun _ h => h.1) (fun _ h => h.2) (fun _ _ => trivial),
      h.mono (fun _ h => h.2) (fun _ _ => trivial) (fun _ h => h.2)⟩
  · rintro ⟨hwell, hsend, hplain⟩
    exact (hwell.and (hsend.and hplain)).mono (fun _ h => h.2) (fun _ h => ⟨h.1, h.2.1⟩)
      (fun _ h => ⟨h.1, h.2.2⟩)

/-- `message` -/
structure Message (V : Type := Empty) where
  protocolMajor : UInt8 := 0x00
  protocolMinor : UInt8 := 0x01
  cmd : Bytes := []
  args : ArgObj V := []
  deriving DecidableEq

namespace Message

def preferredMajorVersion : UInt8 := 0x00

def preferredMinorVersion : UInt8 := 0x01

def magicNumberMatch (b1 b2 : UInt8) : Bool := b1 == 0x2e && b2 == 0x43

/-- `message(cmd, values...)` -/
def ofValues (cmd : Bytes) (values : List (Bytes × Arg)) : Message :=
  { cmd := cmd, args := ArgObj.setAll [] values }

/-- `message(other, mods...)` -/
def modified (other : Message) (mods : List (Bytes × Arg)) : Message :=
  { other with args := ArgObj.setAll other.args mods }

/-- The messages of the public constructors, and `set` on the argument object. -/
inductive Built : Message → Prop
  | default : Built {}
  | ofValues (cmd : Bytes) {values : List (Bytes × Arg)} (h : ∀ e ∈ values, e.2.Built) :
      Built (Message.ofValues cmd values)
  | modified {m : Message} {mods : List (Bytes × Arg)} (hm : Built m)
      (h : ∀ e ∈ mods, e.2.Built) : Built (m.modified mods)
  | set {m : Message} {a : Arg} (hm : Built m) (key : Bytes) (h : a.Built) :
      Built { m with args := m.args.set key a }

/-- The argument object of a message, as a value. -/
def argsValue {V : Type} (m : Message V) : Arg V := .subObject m.args

theorem setAll_wellFormed {o : ArgObj} {values : List (Bytes × Arg)}
    (ho : Arg.WellFormed (.subObject o)) (h : ∀ e ∈ values, e.2.WellFormed) :
    Arg.WellFormed (.subObject (o.setAll values)) := by
  obtain ⟨hord, -, hvals⟩ := Arg.everywhere_subObject.mp ho
  refine .subObject (ArgObj.ordered_setAll hord) (fun _ _ => trivial) ?_
  intro e he
  rcases ArgObj.mem_setAll he with he | he
  · exact hvals e he
  · exact h e he

theorem Built.wellFormed {m : Message} (h : m.Built) : m.argsValue.WellFormed := by
  induction h with
  | default => exact Arg.Built.emptyObj.wellFormed
  | ofValues cmd h =>
    exact setAll_wellFormed Arg.Built.emptyObj.wellFormed (fun e he => (h e he).wellFormed)
  | modified hm h ihm => exact setAll_wellFormed ihm (fun e he => (h e he).wellFormed)
  | set hm key h ihm => exact ihm.set key h.wellFormed

end Message
end Dotchat
