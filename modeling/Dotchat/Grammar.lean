import Dotchat.Encoder
import Mathlib.Data.List.Induction

/-!
The format of protocol.md, read independently of the program. The relations say
which bytes stand for which value: integers most significant byte first, strings
behind a length, lists behind the identifying byte of their elements and a
32-bit size, objects behind the number of their pairs. A value has at most one
spelling and bytes have at most one reading, whatever follows them.
-/
namespace Dotchat

/-- An unsigned number, most significant byte first. -/
def msbFirst (bytes : Bytes) : ℕ := bytes.foldl (fun n b => 256 * n + b.toNat) 0

mutual

/-- The bytes of a value of a type, behind its identifying byte. -/
inductive IsValue : ValType → Bytes → Arg → Prop
  | primitive {t : ScalarType} {bytes : Bytes} (h : bytes.length = t.sizeof) :
      IsValue (.scalar t) bytes (.scalar (.ofWord t (msbFirst bytes)))
  | string {n : UInt8} {v : Bytes} (h : n.toNat = v.length) : IsValue .string (n :: v) (.string v)
  | list {t : ValType} {size body : Bytes} {c : List Arg} (hsize : size.length = 4)
      (hlen : msbFirst size = c.length) (hbody : AreElements t body c) :
      IsValue .list (t.code :: (size ++ body)) (.list t c)
  | object {n : UInt8} {body : Bytes} {vs : List (Bytes × Arg)} (h : n.toNat = vs.length)
      (hbody : ArePairs body vs) : IsValue .subObject (n :: body) (.subObject vs)

/-- The values of a list, one by one. -/
inductive AreElements : ValType → Bytes → List Arg → Prop
  | nil {t : ValType} : AreElements t [] []
  | cons {t : ValType} {first rest : Bytes} {a : Arg} {c : List Arg} (ha : IsValue t first a)
      (hc : AreElements t rest c) : AreElements t (first ++ rest) (a :: c)

/-- Key-value pairs: the length of the key, the key, the identifying byte of the
value and the value. -/
inductive ArePairs : Bytes → List (Bytes × Arg) → Prop
  | nil : ArePairs [] []
  | cons {n : UInt8} {key first rest : Bytes} {t : ValType} {a : Arg} {vs : List (Bytes × Arg)}
      (hkey : n.toNat = key.length) (ha : IsValue t first a) (hvs : ArePairs rest vs) :
      ArePairs (n :: (key ++ t.code :: (first ++ rest))) ((key, a) :: vs)

end

/-- A message: the magic string, a version up to 0.1, the command and the
arguments, which are an object without its identifying byte. -/
inductive IsMessage : Bytes → Bytes → List (Bytes × Arg) → Prop
  | message {major minor n : UInt8} {cmd args : Bytes} {vs : List (Bytes × Arg)}
      (hmajor : major = 0) (hminor : minor ≤ 1) (hcmd : n.toNat = cmd.length)
      (hargs : IsValue .subObject args (.subObject vs)) :
      IsMessage ([0x2E, 0x43, major, minor] ++ n :: (cmd ++ args)) cmd vs

/-- The bytes are a message of the format. -/
def IsSentence (bytes : Bytes) : Prop := ∃ cmd vs, IsMessage bytes cmd vs

section Numbers

theorem msbFirst_append (first second : Bytes) :
    msbFirst (first ++ second) = msbFirst first * 256 ^ second.length + msbFirst second := by
  have hfold : ∀ (bytes : Bytes) (n : ℕ), bytes.foldl (fun n b => 256 * n + b.toNat) n =
      n * 256 ^ bytes.length + msbFirst bytes := by
    intro bytes
    induction bytes with
    | nil => simp [msbFirst]
    | cons b rest ih =>
      intro n
      rw [msbFirst, List.foldl_cons, List.foldl_cons, ih (256 * n + b.toNat),
        ih (256 * 0 + b.toNat), List.length_cons, pow_succ]
      ring
  rw [msbFirst, List.foldl_append, hfold]
  rfl

theorem msbFirst_eq (bytes : Bytes) : msbFirst bytes = WordBytes.value bytes.reverse := by
  induction bytes using List.reverseRecOn with
  | nil => rfl
  | append_singleton rest b ih =>
    rw [msbFirst_append, List.reverse_append, List.reverse_singleton, List.singleton_append,
      WordBytes.value, ih]
    simp only [msbFirst, List.length_singleton, pow_one, List.foldl_cons, List.foldl_nil]
    omega

theorem msbFirst_lt (bytes : Bytes) : msbFirst bytes < 256 ^ bytes.length := by
  simpa only [msbFirst_eq, List.length_reverse] using WordBytes.value_lt bytes.reverse

theorem word_ofWord {t : ScalarType} {n : ℕ} (h : n < 256 ^ t.sizeof) :
    (Scalar.ofWord t n).word = n := by
  cases t <;> simp only [ScalarType.sizeof] at h <;> simp [Scalar.ofWord, Scalar.word] <;> omega

/-- The encoder writes a number most significant byte first. -/
theorem msbFirst_scalarWire (v : Scalar) : msbFirst (scalarWire v) = v.word := by
  rw [msbFirst_eq, scalarWire, List.reverse_reverse, WordBytes.value_raw,
    Nat.mod_eq_of_lt v.word_lt]

theorem scalarWire_ofWord {t : ScalarType} {bytes : Bytes} (h : bytes.length = t.sizeof) :
    scalarWire (.ofWord t (msbFirst bytes)) = bytes := by
  have hword : (Scalar.ofWord t (msbFirst bytes)).word = msbFirst bytes :=
    word_ofWord (h ▸ msbFirst_lt bytes)
  have hraw := WordBytes.raw_value bytes.reverse
  rw [List.length_reverse, h] at hraw
  rw [scalarWire, hword, Scalar.type_ofWord, msbFirst_eq, hraw, List.reverse_reverse]

end Numbers

/-- Values within the limits of the format, at any depth. -/
abbrev Arg.Documented {V : Type} : Arg V → Prop :=
  Arg.Everywhere (fun v => v.length ≤ 0xFF) (fun o => o.length ≤ 0xFF)
    (fun l => (∀ a ∈ l.content, a.type = l.contained) ∧ l.content.length < 2 ^ 32)

section Spelling

theorem length_lt_of_byte {n : UInt8} {len : ℕ} (h : n.toNat = len) : len ≤ 0xFF := by
  have hn := n.toNat_lt
  omega

theorem ofNat_of_byte {n : UInt8} {len : ℕ} (h : n.toNat = len) : UInt8.ofNat len = n := by
  rw [← h, UInt8.ofNat_toNat]

theorem toNat_ofNat_of_le {len : ℕ} (h : len ≤ 0xFF) : (UInt8.ofNat len).toNat = len := by
  simp only [UInt8.toNat_ofNat']
  omega

/-- The size of a list behind its identifying byte. -/
theorem word_size {len : ℕ} (h : len < 2 ^ 32) :
    (Scalar.uint32 (UInt32.ofNat len)).word = len := by
  simp only [Scalar.word, UInt32.toNat_ofNat']
  omega

mutual

theorem IsValue.eq_wire {t : ValType} {bytes : Bytes} {a : Arg} (h : IsValue t bytes a) :
    a.Documented ∧ a.type = t ∧ bytes = a.wire := by
  cases h with
  | primitive h =>
    exact ⟨.scalar _, congrArg _ (Scalar.type_ofWord _ _), (scalarWire_ofWord h).symm⟩
  | string h =>
    refine ⟨.string (length_lt_of_byte h), rfl, ?_⟩
    rw [Arg.wire, stringWire, ofNat_of_byte h]
  | @list t size body c hsize hlen hbody =>
    obtain ⟨hdoc, htype, rfl⟩ := hbody.eq_wire
    have hlt : c.length < 2 ^ 32 := by
      have hbound := msbFirst_lt size
      rwa [hsize, hlen] at hbound
    have hwire : scalarWire (.uint32 (UInt32.ofNat c.length)) = size := by
      rw [← hlen]
      exact scalarWire_ofWord (t := .uint32) hsize
    refine ⟨.list ⟨htype, hlt⟩ hdoc, rfl, ?_⟩
    rw [Arg.wire, hwire]
  | object h hbody =>
    obtain ⟨hkeys, hdoc, rfl⟩ := hbody.eq_wire
    refine ⟨.subObject (length_lt_of_byte h) hkeys hdoc, rfl, ?_⟩
    rw [Arg.wire, ofNat_of_byte h]

theorem AreElements.eq_wire {t : ValType} {bytes : Bytes} {c : List Arg}
    (h : AreElements t bytes c) :
    (∀ a ∈ c, a.Documented) ∧ (∀ a ∈ c, a.type = t) ∧ bytes = elementsWire c := by
  cases h with
  | nil => exact ⟨by simp, by simp, rfl⟩
  | cons ha hc =>
    obtain ⟨hdoc, htype, rfl⟩ := ha.eq_wire
    obtain ⟨hdocs, htypes, rfl⟩ := hc.eq_wire
    exact ⟨List.forall_mem_cons.mpr ⟨hdoc, hdocs⟩, List.forall_mem_cons.mpr ⟨htype, htypes⟩, rfl⟩

theorem ArePairs.eq_wire {bytes : Bytes} {vs : List (Bytes × Arg)} (h : ArePairs bytes vs) :
    (∀ e ∈ vs, e.1.length ≤ 0xFF) ∧ (∀ e ∈ vs, e.2.Documented) ∧ bytes = entriesWire vs := by
  cases h with
  | nil => exact ⟨by simp, by simp, rfl⟩
  | cons hkey ha hvs =>
    obtain ⟨hdoc, rfl, rfl⟩ := ha.eq_wire
    obtain ⟨hkeys, hdocs, rfl⟩ := hvs.eq_wire
    refine ⟨List.forall_mem_cons.mpr ⟨length_lt_of_byte hkey, hkeys⟩,
      List.forall_mem_cons.mpr ⟨hdoc, hdocs⟩, ?_⟩
    rw [entriesWire, stringWire, ofNat_of_byte hkey, List.cons_append]

end

theorem areElements_wire {t : ValType} {c : List Arg} (ih : ∀ a ∈ c, IsValue a.type a.wire a)
    (htype : ∀ a ∈ c, a.type = t) : AreElements t (elementsWire c) c := by
  induction c with
  | nil => exact .nil
  | cons a rest ihrest =>
    have ha := ih a List.mem_cons_self
    rw [htype a List.mem_cons_self] at ha
    exact .cons ha (ihrest (fun b hb => ih b (List.mem_cons_of_mem _ hb))
      (fun b hb => htype b (List.mem_cons_of_mem _ hb)))

theorem arePairs_wire {vs : List (Bytes × Arg)} (ih : ∀ e ∈ vs, IsValue e.2.type e.2.wire e.2)
    (hkeys : ∀ e ∈ vs, e.1.length ≤ 0xFF) : ArePairs (entriesWire vs) vs := by
  induction vs with
  | nil => exact .nil
  | cons e rest ihrest =>
    exact .cons (toNat_ofNat_of_le (hkeys e List.mem_cons_self)) (ih e List.mem_cons_self)
      (ihrest (fun e' he => ih e' (List.mem_cons_of_mem _ he))
        (fun e' he => hkeys e' (List.mem_cons_of_mem _ he)))

/-- A value within the limits is spelled by its wire form. -/
theorem isValue_wire {a : Arg} (h : a.Documented) : IsValue a.type a.wire a := by
  induction a with
  | scalar v =>
    have hlen : (scalarWire v).length = v.type.sizeof := by simp [scalarWire]
    have hvalue := IsValue.primitive hlen
    rwa [msbFirst_scalarWire, Scalar.ofWord_word] at hvalue
  | string v => exact .string (toNat_ofNat_of_le (Arg.everywhere_string.mp h))
  | subObject vs ih =>
    obtain ⟨hobj, hkeys, hvals⟩ := Arg.everywhere_subObject.mp h
    exact .object (toNat_ofNat_of_le hobj) (arePairs_wire (fun e he => ih e he (hvals e he)) hkeys)
  | list t c ih =>
    obtain ⟨⟨htype, hlen⟩, hvals⟩ := Arg.everywhere_list.mp h
    have hsize : msbFirst (scalarWire (.uint32 (UInt32.ofNat c.length))) = c.length := by
      rw [msbFirst_scalarWire, word_size hlen]
    exact .list (by simp [scalarWire, Scalar.type, ScalarType.sizeof]) hsize
      (areElements_wire (fun a ha => ih a ha (hvals a ha)) htype)

end Spelling

section Unambiguity

/-- Bytes that start with the spelling of the value have no other reading as a
value of its type. -/
def Unambiguous (a : Arg) : Prop :=
  ∀ a' r r', a'.Documented → a.type = a'.type → a.wire ++ r = a'.wire ++ r' → a = a' ∧ r = r'

theorem scalarWire_injective {v v' : Scalar} (htype : v.type = v'.type)
    (h : scalarWire v = scalarWire v') : v = v' := by
  have hword : v.word = v'.word := by rw [← msbFirst_scalarWire, h, msbFirst_scalarWire]
  rw [← Scalar.ofWord_word v, htype, hword, Scalar.ofWord_word]

theorem stringWire_inj {v v' r r' : Bytes} (h : v.length ≤ 0xFF) (h' : v'.length ≤ 0xFF)
    (heq : stringWire v ++ r = stringWire v' ++ r') : v = v' ∧ r = r' := by
  simp only [stringWire, List.cons_append, List.cons.injEq] at heq
  have hlen : v.length = v'.length := by
    rw [← toNat_ofNat_of_le h, heq.1, toNat_ofNat_of_le h']
  exact List.append_inj heq.2 hlen

theorem elementsWire_inj {t : ValType} {c c' : List Arg} {r r' : Bytes}
    (ih : ∀ a ∈ c, Unambiguous a) (htype : ∀ a ∈ c, a.type = t) (htype' : ∀ a ∈ c', a.type = t)
    (hdoc' : ∀ a ∈ c', a.Documented) (hlen : c.length = c'.length)
    (heq : elementsWire c ++ r = elementsWire c' ++ r') : c = c' ∧ r = r' := by
  induction c generalizing c' with
  | nil =>
    obtain rfl : c' = [] := List.eq_nil_of_length_eq_zero hlen.symm
    exact ⟨rfl, heq⟩
  | cons a rest ihrest =>
    cases c' with
    | nil => simp at hlen
    | cons a' rest' =>
      obtain ⟨ha, hrest⟩ := List.forall_mem_cons.mp ih
      obtain ⟨hta, htrest⟩ := List.forall_mem_cons.mp htype
      obtain ⟨hta', htrest'⟩ := List.forall_mem_cons.mp htype'
      obtain ⟨hda', hdrest'⟩ := List.forall_mem_cons.mp hdoc'
      simp only [elementsWire, List.append_assoc] at heq
      obtain ⟨rfl, hbehind⟩ := ha a' _ _ hda' (hta.trans hta'.symm) heq
      obtain ⟨rfl, hr⟩ := ihrest hrest htrest htrest' hdrest' (by simpa using hlen) hbehind
      exact ⟨rfl, hr⟩

theorem entriesWire_inj {vs vs' : List (Bytes × Arg)} {r r' : Bytes}
    (ih : ∀ e ∈ vs, Unambiguous e.2) (hkeys : ∀ e ∈ vs, e.1.length ≤ 0xFF)
    (hkeys' : ∀ e ∈ vs', e.1.length ≤ 0xFF) (hdoc' : ∀ e ∈ vs', e.2.Documented)
    (hlen : vs.length = vs'.length)
    (heq : entriesWire vs ++ r = entriesWire vs' ++ r') : vs = vs' ∧ r = r' := by
  induction vs generalizing vs' with
  | nil =>
    obtain rfl : vs' = [] := List.eq_nil_of_length_eq_zero hlen.symm
    exact ⟨rfl, heq⟩
  | cons e rest ihrest =>
    cases vs' with
    | nil => simp at hlen
    | cons e' rest' =>
      obtain ⟨key, a⟩ := e
      obtain ⟨key', a'⟩ := e'
      obtain ⟨ha, hrest⟩ := List.forall_mem_cons.mp ih
      obtain ⟨hk, hkrest⟩ := List.forall_mem_cons.mp hkeys
      obtain ⟨hk', hkrest'⟩ := List.forall_mem_cons.mp hkeys'
      obtain ⟨hda', hdrest'⟩ := List.forall_mem_cons.mp hdoc'
      simp only [entriesWire, List.append_assoc, List.cons_append] at heq
      obtain ⟨rfl, hbehind⟩ := stringWire_inj hk hk' heq
      rw [List.cons.injEq] at hbehind
      obtain ⟨rfl, hafter⟩ := ha a' _ _ hda' (ValType.code_injective hbehind.1) hbehind.2
      obtain ⟨rfl, hr⟩ := ihrest hrest hkrest hkrest' hdrest' (by simpa using hlen) hafter
      exact ⟨rfl, hr⟩

theorem unambiguous {a : Arg} (h : a.Documented) : Unambiguous a := by
  induction a with
  | scalar v =>
    intro a' r r' _ htype heq
    cases a' with
    | scalar v' =>
      have hsame : v.type = v'.type := by simpa [Arg.type] using htype
      obtain ⟨hwire, hr⟩ := List.append_inj heq (by simp [Arg.wire, scalarWire, hsame])
      exact ⟨by rw [scalarWire_injective hsame hwire], hr⟩
    | _ => cases htype
  | string v =>
    intro a' r r' h' htype heq
    cases a' with
    | string v' =>
      obtain ⟨rfl, hr⟩ :=
        stringWire_inj (Arg.everywhere_string.mp h) (Arg.everywhere_string.mp h') heq
      exact ⟨rfl, hr⟩
    | _ => cases htype
  | subObject vs ih =>
    intro a' r r' h' htype heq
    cases a' with
    | subObject vs' =>
      obtain ⟨hobj, hkeys, hvals⟩ := Arg.everywhere_subObject.mp h
      obtain ⟨hobj', hkeys', hvals'⟩ := Arg.everywhere_subObject.mp h'
      simp only [Arg.wire, List.cons_append, List.cons.injEq] at heq
      have hlen : vs.length = vs'.length := by
        rw [← toNat_ofNat_of_le hobj, heq.1, toNat_ofNat_of_le hobj']
      obtain ⟨rfl, hr⟩ :=
        entriesWire_inj (fun e he => ih e he (hvals e he)) hkeys hkeys' hvals' hlen heq.2
      exact ⟨rfl, hr⟩
    | _ => cases htype
  | list t c ih =>
    intro a' r r' h' htype heq
    cases a' with
    | list t' c' =>
      obtain ⟨⟨htypes, hlen⟩, hvals⟩ := Arg.everywhere_list.mp h
      obtain ⟨⟨htypes', hlen'⟩, hvals'⟩ := Arg.everywhere_list.mp h'
      simp only [Arg.wire, List.cons_append, List.cons.injEq, List.append_assoc] at heq
      obtain ⟨hcode, heq⟩ := heq
      obtain rfl := ValType.code_injective hcode
      obtain ⟨hsize, hbehind⟩ := List.append_inj heq (by simp [scalarWire, Scalar.type])
      have hsame : c.length = c'.length := by
        rw [← word_size hlen, ← msbFirst_scalarWire, hsize, msbFirst_scalarWire, word_size hlen']
      obtain ⟨rfl, hr⟩ := elementsWire_inj (fun a ha => ih a ha (hvals a ha)) htypes htypes'
        hvals' hsame hbehind
      exact ⟨rfl, hr⟩
    | _ => cases htype

/-- Bytes that start with a message have no other reading as a message. -/
theorem IsMessage.unambiguous {bytes bytes' cmd cmd' r r' : Bytes} {vs vs' : List (Bytes × Arg)}
    (h : IsMessage bytes cmd vs) (h' : IsMessage bytes' cmd' vs')
    (heq : bytes ++ r = bytes' ++ r') : cmd = cmd' ∧ vs = vs' ∧ r = r' := by
  cases h with
  | message _ _ hcmd hargs =>
  cases h' with
  | message _ _ hcmd' hargs' =>
  simp only [List.cons_append, List.nil_append, List.cons.injEq, List.append_assoc] at heq
  obtain ⟨-, -, -, -, hn, heq⟩ := heq
  obtain ⟨rfl, hbehind⟩ := List.append_inj heq (by rw [← hcmd, ← hcmd', hn])
  obtain ⟨hdoc, -, rfl⟩ := hargs.eq_wire
  obtain ⟨hdoc', -, rfl⟩ := hargs'.eq_wire
  obtain ⟨hvs, hr⟩ := Dotchat.unambiguous hdoc _ _ _ hdoc' rfl hbehind
  exact ⟨rfl, by simpa using hvs, hr⟩

end Unambiguity
end Dotchat
