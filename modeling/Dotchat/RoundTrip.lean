import Dotchat.Grammar
import Dotchat.Decoder

/-!
The decoder against the wire form. A value within the limits of the format is
read from its wire form as its normal form, whatever follows it in the stream:
strings end at their first NUL, the last pair of a key counts, and an empty list
forgets the type of its elements. A canonical value is its own normal form, so
that it is read back.
-/
namespace Dotchat

open FaultState Bytestream

/-- The default value of a type. -/
def ValType.zero : ValType → Arg
  | scalar t => .scalar (.ofWord t 0)
  | string => .string []
  | subObject => .subObject []
  | list => .list (.scalar .int8) []

theorem ValType.type_zero (t : ValType) : t.zero.type = t := by
  cases t with
  | scalar t => exact congrArg ValType.scalar (Scalar.type_ofWord t 0)
  | string | subObject | list => rfl

section Normal

variable {V : Type}

mutual

/-- The value that the decoder makes of a value on the wire. Only values get there. -/
def Arg.decoded : Arg V → Arg
  | .valueless _ t => t.zero
  | .scalar v => .scalar v
  | .string v => .string (cString v)
  | .subObject vs => .subObject (ArgObj.setAll [] (decodedEntries vs))
  | .list t c => .list (if c.isEmpty then .scalar .int8 else t) (decodedElements c)

def decodedEntries : List (Bytes × Arg V) → List (Bytes × Arg)
  | [] => []
  | (key, value) :: rest => (cString key, value.decoded) :: decodedEntries rest

def decodedElements : List (Arg V) → List Arg
  | [] => []
  | value :: rest => value.decoded :: decodedElements rest

end

theorem Arg.type_decoded (a : Arg V) : a.decoded.type = a.type := by
  cases a using Arg.casesOn with
  | valueless v t =>
    rw [Arg.decoded]
    exact t.type_zero
  | scalar _ | string _ | subObject _ | list _ _ => simp only [Arg.decoded, Arg.type]

end Normal

section WireForm

variable {V : Type}

theorem length_scalarWire (v : Scalar) : (scalarWire v).length = v.type.sizeof := by
  simp [scalarWire]

/-- The byte orders of the two sides cancel. -/
theorem scalarOf_scalarWire (v : Scalar) : scalarOf v.type (scalarWire v) = v := by
  have hword : reorder v.type (WordBytes.value (scalarWire v)) = v.word := by
    rw [← raw_reorderSend]
    cases v with
    | int8 w => exact (WordBytes.value_raw 1 _).trans (Nat.mod_eq_of_lt (Scalar.int8 w).word_lt)
    | uint8 w => exact (WordBytes.value_raw 1 _).trans (Nat.mod_eq_of_lt (Scalar.uint8 w).word_lt)
    | char w => exact (WordBytes.value_raw 1 _).trans (Nat.mod_eq_of_lt (Scalar.char w).word_lt)
    | int16 w | uint16 w | int32 w | uint32 w =>
      exact WordBytes.swap_value_raw_swap (Scalar.word_lt _)
  simp only [scalarOf, length_scalarWire, Nat.sub_self, List.replicate_zero, List.append_nil,
    hword, Scalar.ofWord_word]

theorem readSingle_wire (v : Scalar) (rest : Bytes) :
    Runs (readSingle v.type) (scalarWire v ++ rest) (.ok (v, rest)) := by
  have h := readSingle_runs v.type (scalarWire v ++ rest)
  rwa [← length_scalarWire, List.take_left, List.drop_left, scalarOf_scalarWire] at h

theorem readString_wire {v : Bytes} (hlen : v.length ≤ 0xFF) (rest : Bytes) :
    Runs readString (stringWire v ++ rest) (.ok (cString v, rest)) := by
  have hsize := toNat_ofNat_of_le hlen
  have hroom : (UInt8.ofNat v.length).toNat ≤ (v ++ rest).length := by simp [hsize]
  have h := readString_of_le hroom
  rwa [hsize, List.take_left, List.drop_left] at h

/-- Reading the value behind its type byte gives its normal form, with any fuel
above the number of bytes in the stream. -/
def Decodes (a : Arg V) : Prop :=
  ∀ fuel rest, (a.wire ++ rest).length < fuel →
    Runs (readValue fuel a.type.code) (a.wire ++ rest) (.ok (a.decoded, rest))

theorem readEntries_wire (fuel : ℕ) {vs : List (Bytes × Arg V)} (acc : ArgObj) (rest : Bytes)
    (ih : ∀ e ∈ vs, Decodes e.2) (hkeys : ∀ e ∈ vs, e.1.length ≤ 0xFF)
    (hfuel : (entriesWire vs ++ rest).length < fuel) :
    Runs (readEntries (readValue fuel) vs.length acc) (entriesWire vs ++ rest)
      (.ok (acc.setAll (decodedEntries vs), rest)) := by
  induction vs generalizing acc with
  | nil => exact Runs.pure acc rest
  | cons e tail ihtail =>
    obtain ⟨key, value⟩ := e
    have hbehind : (value.wire ++ (entriesWire tail ++ rest)).length < fuel := by
      simp only [entriesWire, List.length_append, List.length_cons] at hfuel ⊢
      omega
    have htail := ihtail (acc.set (cString key) value.decoded)
      (fun e he => ih e (List.mem_cons_of_mem _ he))
      (fun e he => hkeys e (List.mem_cons_of_mem _ he))
      (by simp only [List.length_append] at hbehind ⊢; omega)
    simp only [entriesWire, List.append_assoc, List.cons_append, List.length_cons, readEntries]
    apply (readString_wire (hkeys (key, value) List.mem_cons_self) _).bind
    apply (extractByte_cons value.type.code _).bind
    exact (ih (key, value) List.mem_cons_self fuel _ hbehind).bind htail

theorem readElements_wire (fuel : ℕ) {c : List (Arg V)} {t : ValType} (l : ArgList) (rest : Bytes)
    (ih : ∀ a ∈ c, Decodes a) (htype : ∀ a ∈ c, a.type = t)
    (hl : l.content ≠ [] → l.contained = t)
    (hfuel : (elementsWire c ++ rest).length < fuel) :
    Runs (readElements (readValue fuel) t.code c.length l) (elementsWire c ++ rest)
      (.ok ({ contained := if c.isEmpty then l.contained else t,
              content := l.content ++ decodedElements c }, rest)) := by
  induction c generalizing l with
  | nil => simpa [readElements, elementsWire, decodedElements] using Runs.pure l rest
  | cons a tail ihtail =>
    have ha : a.type = t := htype a List.mem_cons_self
    have hbehind : (a.wire ++ (elementsWire tail ++ rest)).length < fuel := by
      simpa only [elementsWire, List.append_assoc] using hfuel
    have htail := ihtail { contained := t, content := l.content ++ [a.decoded] }
      (fun b hb => ih b (List.mem_cons_of_mem _ hb))
      (fun b hb => htype b (List.mem_cons_of_mem _ hb)) (fun _ => rfl)
      (by simp only [List.length_append] at hbehind ⊢; omega)
    have hread := ih a List.mem_cons_self fuel _ hbehind
    have hpush := pushed_of_type (l := l) (a := a.decoded)
      (fun hne => (hl hne).trans (ha.symm.trans a.type_decoded.symm)) (elementsWire tail ++ rest)
    rw [ha] at hread
    rw [a.type_decoded, ha] at hpush
    simp only [List.append_assoc, List.singleton_append, ite_self] at htail
    simp only [elementsWire, decodedElements, List.append_assoc, List.length_cons, readElements,
      List.isEmpty_cons, Bool.false_eq_true, if_false]
    exact hread.bind (hpush.bind htail)

theorem decodes_of_documented {a : Arg V} (h : a.Documented) : Decodes a := by
  induction a using Arg.inductAll with
  | valueless v t => exact absurd h Arg.not_everywhere_valueless
  | scalar v =>
    intro fuel rest hfuel
    obtain ⟨fuel, rfl⟩ : ∃ f, fuel = f + 1 := ⟨fuel - 1, by omega⟩
    simp only [readValue, ValType.ofCode_code, Arg.type, Arg.wire]
    exact (readSingle_wire v rest).bind (Runs.pure _ _)
  | string v =>
    intro fuel rest hfuel
    obtain ⟨fuel, rfl⟩ : ∃ f, fuel = f + 1 := ⟨fuel - 1, by omega⟩
    simp only [readValue, ValType.ofCode_code, Arg.type, Arg.wire]
    exact (readString_wire (Arg.everywhere_string.mp h) rest).bind (Runs.pure _ _)
  | subObject vs ih =>
    intro fuel rest hfuel
    obtain ⟨fuel, rfl⟩ : ∃ f, fuel = f + 1 := ⟨fuel - 1, by omega⟩
    obtain ⟨hobj, hkeys, hvals⟩ := Arg.everywhere_subObject.mp h
    have hbody := readEntries_wire fuel [] rest (fun e he => ih e he (hvals e he)) hkeys
      (by simp only [Arg.wire, List.cons_append, List.length_cons] at hfuel; omega)
    simp only [readValue, ValType.ofCode_code, Arg.type, Arg.wire, List.cons_append]
    exact ((extractByte_cons _ _).bind ((toNat_ofNat_of_le hobj).symm ▸ hbody)).bind
      (Runs.pure _ _)
  | list t c ih =>
    intro fuel rest hfuel
    obtain ⟨fuel, rfl⟩ : ∃ f, fuel = f + 1 := ⟨fuel - 1, by omega⟩
    obtain ⟨⟨htype, hlen⟩, hvals⟩ := Arg.everywhere_list.mp h
    have hbody := readElements_wire fuel {} rest (fun a ha => ih a ha (hvals a ha)) htype
      (by simp)
      (by simp only [Arg.wire, List.cons_append, List.length_cons, List.append_assoc,
            List.length_append] at hfuel ⊢; omega)
    have hlist : Runs (readArgList (readValue fuel))
        (t.code :: (scalarWire (.uint32 (UInt32.ofNat c.length)) ++ (elementsWire c ++ rest)))
        (.ok (⟨if c.isEmpty then .scalar .int8 else t, decodedElements c⟩, rest)) := by
      apply (extractByte_cons _ _).bind
      apply (readSingle_wire (.uint32 (UInt32.ofNat c.length)) _).bind
      rw [word_size hlen]
      exact hbody
    simp only [readValue, ValType.ofCode_code, Arg.type, Arg.wire, List.cons_append,
      List.append_assoc]
    exact hlist.bind (Runs.pure _ _)

theorem decodedElements_eq {c : List Arg} (h : ∀ a ∈ c, a.decoded = a) :
    decodedElements c = c := by
  induction c with
  | nil => rfl
  | cons a rest ih =>
    rw [decodedElements, h a List.mem_cons_self, ih fun b hb => h b (List.mem_cons_of_mem _ hb)]

theorem decodedEntries_eq {vs : List (Bytes × Arg)} (hkeys : ∀ e ∈ vs, 0 ∉ e.1)
    (hvals : ∀ e ∈ vs, e.2.decoded = e.2) : decodedEntries vs = vs := by
  induction vs with
  | nil => rfl
  | cons e rest ih =>
    rw [decodedEntries, cString_of_no_nul (hkeys e List.mem_cons_self),
      hvals e List.mem_cons_self, ih (fun e he => hkeys e (List.mem_cons_of_mem _ he))
        (fun e he => hvals e (List.mem_cons_of_mem _ he))]

/-- Ordered entries are each appended. -/
theorem setAll_append {acc vs : ArgObj} (h : OrderedMap.Ordered (acc ++ vs)) :
    acc.setAll vs = acc ++ vs := by
  induction vs generalizing acc with
  | nil => simp [ArgObj.setAll]
  | cons e rest ih =>
    have habove : ∀ e' ∈ acc, e'.1 < e.1 := fun e' he' =>
      (List.pairwise_append.mp h).2.2 e' he' e List.mem_cons_self
    have hset : ArgObj.set acc e.1 e.2 = acc ++ [e] := OrderedMap.insert_of_forall_lt habove
    have hcons : acc.setAll (e :: rest) = (acc ++ [e]).setAll rest := by
      rw [← hset]
      rfl
    rw [hcons, ih (by simpa using h), List.append_assoc, List.singleton_append]

/-- A canonical value is its own normal form. -/
theorem decoded_of_canonical {a : Arg} (h : a.Canonical) : a.decoded = a := by
  induction a with
  | scalar v => rfl
  | string v => rw [Arg.decoded, cString_of_no_nul (Arg.everywhere_string.mp h).2]
  | subObject vs ih =>
    obtain ⟨⟨hord, -⟩, hkeys, hvals⟩ := Arg.everywhere_subObject.mp h
    have hentries := decodedEntries_eq (fun e he => (hkeys e he).2)
      (fun e he => ih e he (hvals e he))
    have hall : ArgObj.setAll [] vs = vs := @setAll_append [] vs hord
    rw [Arg.decoded, hentries, hall]
  | list t c ih =>
    obtain ⟨⟨⟨-, hnil⟩, -⟩, hvals⟩ := Arg.everywhere_list.mp h
    rw [Arg.decoded, decodedElements_eq fun a ha => ih a ha (hvals a ha)]
    split
    · rename_i hempty
      rw [← hnil (by simpa using hempty)]
    · rfl

theorem Arg.Canonical.documented {a : Arg} (h : a.Canonical) : a.Documented :=
  h.mono (fun _ hv => hv.1) (fun _ ho => ho.2) (fun _ hl => ⟨hl.1.1, hl.2⟩)

end WireForm
end Dotchat
