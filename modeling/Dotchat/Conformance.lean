import Dotchat.Grammar
import Dotchat.DecoderBounds

/-!
Encoder and decoder against the format of protocol.md. What is sent is the one
spelling of the message. Every sentence is accepted, framed exactly, and decoded
to its normal form. An accepted input is a sentence unless the decoder slipped:
the end of the input inside an integer is not noticed, and the element type of
an empty list is never looked at.
-/
namespace Dotchat

open FaultState Bytestream

/-- Lists that fit their size field, at any depth. -/
abbrev Arg.Sized : Arg → Prop :=
  Arg.Everywhere (fun _ => True) (fun _ => True) fun l => l.content.length < 2 ^ 32

/-- Objects with one pair for each of their keys, at any depth. -/
abbrev Arg.KeysOnce : Arg → Prop :=
  Arg.Everywhere (fun _ => True) (fun o => (o.map (·.1)).Nodup) fun _ => True

section Encoding

theorem Arg.WellFormed.keysOnce {a : Arg} (h : a.WellFormed) : a.KeysOnce :=
  h.mono (fun _ _ => trivial) (fun _ ho => (List.pairwise_map.mpr (ho.imp fun hlt => hlt.ne)))
    (fun _ _ => trivial)

theorem Arg.documented_of {a : Arg} (hwell : a.WellFormed) (hsend : a.Sendable) (hsized : a.Sized) :
    a.Documented :=
  (hwell.and (hsend.and hsized)).mono (fun _ h => h.2.1) (fun _ h => h.2.1)
    (fun _ h => ⟨h.1.1, h.2.2⟩)

theorem isMessage_wire {m : Message} (hcmd : m.cmd.length ≤ 0xFF)
    (hargs : m.argsValue.Documented) : IsMessage m.wire m.cmd m.args := by
  have hmajor : Message.preferredMajorVersion = 0 := rfl
  have hminor : Message.preferredMinorVersion ≤ 1 := by decide
  have hsentence := IsMessage.message hmajor hminor (toNat_ofNat_of_le hcmd) (isValue_wire hargs)
  simpa only [Message.wire, stringWire, List.cons_append, List.nil_append] using hsentence

/-- What `send_to` appends is a sentence of the format, and the message is what
the format reads in it. -/
theorem sendTo_documented {m : Message} {s s' : Bytestream} (hm : m.Built)
    (hsized : m.argsValue.Sized) (hsend : m.sendTo s = .ok () s') :
    ∃ out, s' = s.add out ∧ IsMessage out m.cmd m.args ∧ m.argsValue.KeysOnce ∧
      ∀ cmd vs, IsMessage out cmd vs → cmd = m.cmd ∧ vs = m.args := by
  obtain ⟨⟨hcmd, hargs⟩, hout⟩ := Message.sendTo_eq_ok hsend
  have hmessage := isMessage_wire hcmd (Arg.documented_of hm.wellFormed hargs hsized)
  refine ⟨m.wire, hout, hmessage, hm.wellFormed.keysOnce, ?_⟩
  intro cmd vs h
  have happend : m.wire ++ [] = m.wire ++ [] := rfl
  obtain ⟨hc, hv, -⟩ := h.unambiguous hmessage happend
  exact ⟨hc, hv⟩

/-- A string with a NUL byte, and an object inside a list. -/
def nestedMessage : Message :=
  .ofValues (ascii "x") [(ascii "k", .string [0x61, 0x00]),
    (ascii "l", .list .subObject [.subObject [(ascii "n", .scalar (.int16 (-2)))]])]

theorem nestedMessage_built : nestedMessage.Built := by
  have hobject : Arg.Built (.subObject [(ascii "n", .scalar (.int16 (-2)))]) :=
    .set (o := []) _ .emptyObj (.scalar _)
  have hpush : ArgList.pushBack ({} : ArgList) (.subObject [(ascii "n", .scalar (.int16 (-2)))]) =
      .ok ⟨.subObject, [.subObject [(ascii "n", .scalar (.int16 (-2)))]]⟩ := rfl
  have hlist := Arg.Built.pushBack .emptyList hobject hpush
  exact .ofValues _ (by simpa using ⟨Arg.Built.string _, hlist⟩)

theorem nestedMessage_sized : nestedMessage.argsValue.Sized := by
  have hlist : Arg.Sized (.list .subObject [.subObject [(ascii "n", .scalar (.int16 (-2)))]]) := by
    refine .list (by decide) ?_
    simpa using Arg.Everywhere.subObject trivial (by simp) (by simpa using Arg.Everywhere.scalar _)
  refine .subObject trivial (fun _ _ => trivial) ?_
  intro e he
  have hcases : e = (ascii "k", .string [0x61, 0x00]) ∨
      e = (ascii "l", .list .subObject [.subObject [(ascii "n", .scalar (.int16 (-2)))]]) := by
    have hargs : nestedMessage.args = [(ascii "k", .string [0x61, 0x00]),
        (ascii "l", .list .subObject [.subObject [(ascii "n", .scalar (.int16 (-2)))]])] := by
      decide
    simpa [hargs] using he
  rcases hcases with rfl | rfl
  · exact .string trivial
  · exact hlist

theorem nestedMessage_sent :
    nestedMessage.sendTo {} = .ok () (fresh nestedMessage.wire) := by decide +kernel

theorem sendTo_documented_nested :
    ∃ out, fresh nestedMessage.wire = Bytestream.add {} out ∧
      IsMessage out nestedMessage.cmd nestedMessage.args ∧ nestedMessage.argsValue.KeysOnce ∧
      ∀ cmd vs, IsMessage out cmd vs → cmd = nestedMessage.cmd ∧ vs = nestedMessage.args :=
  sendTo_documented nestedMessage_built nestedMessage_sized nestedMessage_sent

end Encoding

section Framing

/-- The versions that are accepted are 0.0 and 0.1. -/
theorem versionFault_eq_none {major minor : UInt8} :
    versionFault major minor = none ↔ major = 0 ∧ minor ≤ 1 := by
  have hmajor : major > 0 ↔ ¬ major = 0 := UInt8.pos_iff_ne_zero
  have hminor : minor > Message.preferredMinorVersion ↔ ¬ minor ≤ 1 := UInt8.not_le.symm
  have hzero : Message.preferredMajorVersion = 0 := rfl
  simp only [versionFault, hzero, hmajor, hminor]
  by_cases h : major = 0 <;> by_cases h' : minor ≤ 1 <;> simp [h, h']

/-- A message of the format is decoded to its normal form. -/
theorem ofStream_of_message {bytes cmd : Bytes} {vs : List (Bytes × Arg)}
    (h : IsMessage bytes cmd vs) (rest : Bytes) :
    ∃ major minor, Runs Message.ofStream (bytes ++ rest)
      (.ok (Message.decoded major minor cmd vs, rest)) := by
  cases h with
  | message hmajor hminor hcmd hargs =>
    have hversion := versionFault_eq_none.mpr ⟨hmajor, hminor⟩
    exact ⟨_, _, Message.ofStream_spelled hversion hcmd hargs rest⟩

/-- A sentence is accepted, and exactly its bytes are consumed, whatever follows
it and wherever the stream stands in its buffer. -/
theorem sentence_framed {bytes rest : Bytes} {s : Bytestream} (h : IsSentence bytes)
    (hs : s.Valid) (hunread : s.unread = bytes ++ rest) :
    ∃ m s', Message.ofStream s = .ok m s' ∧ s'.unread = rest ∧ s'.Valid := by
  obtain ⟨cmd, vs, hmessage⟩ := h
  obtain ⟨major, minor, hruns⟩ := ofStream_of_message hmessage rest
  obtain ⟨s', hrun, hrest, hvalid⟩ := hruns s hs hunread
  exact ⟨_, s', hrun, hrest, hvalid⟩

/-- Version 0.0, and two pairs with the same key. -/
def repeatedKey : Bytes := [0x2E, 0x43, 0, 0, 1, 0x78, 2, 1, 0x6B, 0x01, 5, 1, 0x6B, 0x22, 1, 0]

theorem repeatedKey_sentence : IsSentence repeatedKey := by
  have hbyte : IsValue (.scalar .int8) [5] (.scalar (.int8 5)) := .primitive rfl
  have hstring : IsValue .string [1, 0] (.string [0]) := .string rfl
  have hpairs := @ArePairs.cons 1 [0x6B] _ _ _ _ _ rfl hbyte
    (@ArePairs.cons 1 [0x6B] _ _ _ _ _ rfl hstring .nil)
  have hargs : IsValue .subObject _ _ := .object (n := 2) rfl hpairs
  exact ⟨_, _, @IsMessage.message 0 0 1 [0x78] _ _ rfl (by decide) rfl hargs⟩

theorem sentence_framed_repeatedKey :
    ∃ m s', Message.ofStream (fresh (repeatedKey ++ [0x2E])) = .ok m s' ∧
      s'.unread = [0x2E] ∧ s'.Valid :=
  sentence_framed repeatedKey_sentence (valid_fresh _) rfl

end Framing

/-- What the decoder does not notice: an integer or a size that the input ends
in, and the element type of an empty list. -/
def Item.Slips : Item → Bytes → Prop
  | .value ty, bytes => ∃ t, ValType.ofCode ty = some (.scalar t) ∧ bytes.length < t.sizeof
  | .size ty, bytes => bytes.length < 4 ∨ lengthField bytes = 0 ∧ ValType.ofCode ty = none
  | _, _ => False

/-- Reading the fields meets one of these. -/
inductive Slipped : List Item → Bytes → Prop
  | here {i : Item} {st : List Item} {bytes : Bytes} (h : i.Slips bytes) : Slipped (i :: st) bytes
  | next {i : Item} {st items : List Item} {bytes rest : Bytes}
      (h : i.demand bytes = .next items rest) (hrest : Slipped (items ++ st) rest) :
      Slipped (i :: st) bytes

section Walk

variable {st : List Item} {rest : Bytes}

theorem slipped_nil (bytes : Bytes) : ¬ Slipped [] bytes := by
  intro h
  cases h

theorem slipped_of_next {i : Item} (items : List Item) {bytes : Bytes}
    (hno : ¬ i.Slips bytes) (h : i.demand bytes = .next items rest) :
    Slipped (i :: st) bytes ↔ Slipped (items ++ st) rest := by
  constructor
  · intro hslip
    cases hslip with
    | here h' => exact absurd h' hno
    | next h' hrest =>
      rw [h] at h'
      cases h'
      exact hrest
  · exact .next h

theorem slipped_chars (v : Bytes) :
    Slipped (.chars v.length :: st) (v ++ rest) ↔ Slipped st rest := by
  induction v with
  | nil => exact slipped_of_next [] id rfl
  | cons b v ih =>
    rw [← ih]
    exact slipped_of_next [.chars v.length] id rfl

theorem slipped_string {n : UInt8} {v : Bytes} (h : n.toNat = v.length) :
    Slipped (.string :: st) (n :: (v ++ rest)) ↔ Slipped st rest := by
  have hstring : Slipped (.string :: st) (n :: (v ++ rest)) ↔
      Slipped (.chars n.toNat :: st) (v ++ rest) := slipped_of_next [.chars n.toNat] id rfl
  rw [hstring, h]
  exact slipped_chars v

/-- The key and the identifying byte of a pair. -/
theorem slipped_entries {k n : ℕ} {b ty : UInt8} {key : Bytes} (hk : k = n + 1)
    (h : b.toNat = key.length) :
    Slipped (.entries k :: st) (b :: (key ++ ty :: rest)) ↔
      Slipped (.value ty :: .entries n :: st) rest := by
  subst hk
  have hpair : Slipped (.entries (n + 1) :: st) (b :: (key ++ ty :: rest)) ↔
      Slipped (.string :: .typed :: .entries n :: st) (b :: (key ++ ty :: rest)) :=
    slipped_of_next [.string, .typed, .entries n] id rfl
  rw [hpair, slipped_string h]
  exact slipped_of_next [.value ty] id rfl

theorem lengthField_append {size : Bytes} (h : size.length = 4) (rest : Bytes) :
    lengthField (size ++ rest) = msbFirst size := by
  have hlt := msbFirst_lt size
  rw [h] at hlt
  have hword : (Scalar.ofWord .uint32 (msbFirst size)).word = msbFirst size := word_ofWord hlt
  have hscalar := scalarOf_scalarWire (.ofWord .uint32 (msbFirst size))
  rw [Scalar.type_ofWord, scalarWire_ofWord (t := .uint32) h] at hscalar
  rw [lengthField, ← h, List.take_left, hscalar, hword]

mutual

/-- Reading a value of the format meets no slip. -/
theorem IsValue.slipped {t : ValType} {bytes : Bytes} {a : Arg} (h : IsValue t bytes a)
    (st : List Item) (rest : Bytes) :
    Slipped (.value t.code :: st) (bytes ++ rest) ↔ Slipped st rest := by
  cases h with
  | @primitive t _ h =>
    apply slipped_of_next []
    · rintro ⟨u, hu, hlen⟩
      rw [ValType.ofCode_code] at hu
      cases hu
      rw [List.length_append] at hlen
      omega
    · simp only [Item.demand, ValType.ofCode_code]
      rw [← h, List.drop_left]
  | string h =>
    rw [← @slipped_string st rest _ _ h]
    refine slipped_of_next [.string] ?_ (by simp only [Item.demand, ValType.ofCode_code]; rfl)
    rintro ⟨u, hu, -⟩
    cases hu
  | @list t size body c hsize hlen hbody =>
    have hvalue : Slipped (.value ValType.list.code :: st) (t.code :: (size ++ body) ++ rest) ↔
        Slipped (.list :: st) (t.code :: (size ++ (body ++ rest))) := by
      refine slipped_of_next [.list] ?_
        (by simp only [Item.demand, List.cons_append, List.append_assoc]; rfl)
      rintro ⟨u, hu, -⟩
      cases hu
    have hlist : Slipped (.list :: st) (t.code :: (size ++ (body ++ rest))) ↔
        Slipped (.size t.code :: st) (size ++ (body ++ rest)) :=
      slipped_of_next [.size t.code] id rfl
    have hfield := lengthField_append hsize (body ++ rest)
    have hcount : Slipped (.size t.code :: st) (size ++ (body ++ rest)) ↔
        Slipped (.elements t.code c.length :: st) (body ++ rest) := by
      apply slipped_of_next [.elements t.code c.length]
      · rintro (hshort | ⟨-, hnone⟩)
        · rw [List.length_append] at hshort
          omega
        · simp at hnone
      · rw [Item.demand, hfield, hlen, ← hsize, List.drop_left]
    rw [hvalue, hlist, hcount]
    exact hbody.slipped st rest
  | @object n body vs h hbody =>
    have hvalue : Slipped (.value ValType.subObject.code :: st) (n :: body ++ rest) ↔
        Slipped (.object :: st) (n :: (body ++ rest)) := by
      refine slipped_of_next [.object] ?_ (by simp only [Item.demand, List.cons_append]; rfl)
      rintro ⟨u, hu, -⟩
      cases hu
    have hobject : Slipped (.object :: st) (n :: (body ++ rest)) ↔
        Slipped (.entries vs.length :: st) (body ++ rest) := by
      rw [← h]
      exact slipped_of_next [.entries n.toNat] id rfl
    rw [hvalue, hobject]
    exact hbody.slipped st rest

theorem AreElements.slipped {t : ValType} {bytes : Bytes} {c : List Arg}
    (h : AreElements t bytes c) (st : List Item) (rest : Bytes) :
    Slipped (.elements t.code c.length :: st) (bytes ++ rest) ↔ Slipped st rest := by
  cases h with
  | nil => exact slipped_of_next [] id rfl
  | @cons _ first tail a c ha hc =>
    have hsplit : Slipped (.elements t.code (a :: c).length :: st) (first ++ tail ++ rest) ↔
        Slipped (.value t.code :: .elements t.code c.length :: st) (first ++ (tail ++ rest)) := by
      rw [List.append_assoc]
      exact slipped_of_next [.value t.code, .elements t.code c.length] id rfl
    rw [hsplit, ha.slipped]
    exact hc.slipped st rest

theorem ArePairs.slipped {bytes : Bytes} {vs : List (Bytes × Arg)} (h : ArePairs bytes vs)
    (st : List Item) (rest : Bytes) :
    Slipped (.entries vs.length :: st) (bytes ++ rest) ↔ Slipped st rest := by
  cases h with
  | nil => exact slipped_of_next [] id rfl
  | @cons n key first tail t a vs hkey ha hvs =>
    have hassoc : n :: (key ++ t.code :: (first ++ tail)) ++ rest =
        n :: (key ++ t.code :: (first ++ (tail ++ rest))) := by simp
    rw [hassoc, slipped_entries (List.length_cons) hkey, ha.slipped]
    exact hvs.slipped st rest

end

end Walk

section Soundness

variable {s s' : Bytestream}

theorem extractByte_consumes {b : UInt8} (hs : s.Valid) (h : extractByte s = .ok b s') :
    s.unread = b :: s'.unread ∧ s'.Valid := by
  cases hu : s.unread with
  | nil =>
    obtain ⟨t, hrun⟩ := extractByte_nil s hs hu
    rw [hrun] at h
    cases h
  | cons c rest =>
    obtain ⟨t, hrun, hrest, hvalid⟩ := extractByte_cons c rest s hs hu
    rw [hrun] at h
    cases h
    exact ⟨by rw [hrest], hvalid⟩

theorem readChars_consumes {n : ℕ} {arr : Bytes} (hs : s.Valid) (h : readChars n s = .ok arr s') :
    s.unread = arr ++ s'.unread ∧ s'.Valid := by
  induction n generalizing s arr with
  | zero =>
    cases h
    exact ⟨rfl, hs⟩
  | succ n ih =>
    obtain ⟨c, s1, hc, h⟩ := bind_eq_ok.mp h
    obtain ⟨rest, s2, hrest, h⟩ := bind_eq_ok.mp h
    cases h
    obtain ⟨hu, hs1⟩ := extractByte_consumes hs hc
    obtain ⟨hu1, hs2⟩ := ih hs1 hrest
    exact ⟨by rw [hu, hu1, List.cons_append], hs2⟩

theorem readString_consumes {v : Bytes} (hs : s.Valid) (h : readString s = .ok v s') :
    ∃ n arr, n.toNat = arr.length ∧ s.unread = n :: (arr ++ s'.unread) ∧ s'.Valid := by
  obtain ⟨n, s1, hn, h⟩ := bind_eq_ok.mp h
  obtain ⟨arr, s2, harr, h⟩ := bind_eq_ok.mp h
  cases h
  obtain ⟨hu, hs1⟩ := extractByte_consumes hs hn
  obtain ⟨hu1, hs2⟩ := readChars_consumes hs1 harr
  exact ⟨n, arr, (readChars_length harr).symm, by rw [hu, hu1], hs2⟩

theorem readSingle_consumes {t : ScalarType} {v : Scalar} (hs : s.Valid)
    (h : readSingle t s = .ok v s') :
    v = scalarOf t (s.unread.take t.sizeof) ∧ s'.unread = s.unread.drop t.sizeof ∧ s'.Valid := by
  obtain ⟨t', hrun, hrest, hvalid⟩ := readSingle_runs t s.unread s hs rfl
  rw [hrun] at h
  cases h
  exact ⟨rfl, hrest, hvalid⟩

/-- A reader of values of a type either slips or has consumed a value of the
format. -/
def ReadsValue (ty : UInt8) (p : StreamM Arg) : Prop :=
  ∀ s a s', s.Valid → p s = .ok a s' → s'.Valid ∧
    ((∀ st, Slipped (.value ty :: st) s.unread) ∨
      ∃ t bytes d, t.code = ty ∧ IsValue t bytes d ∧ s.unread = bytes ++ s'.unread)

theorem readEntries_sound {rv : UInt8 → StreamM Arg} (hrv : ∀ ty, ReadsValue ty (rv ty)) {n : ℕ}
    {res out : ArgObj} (hs : s.Valid) (h : readEntries rv n res s = .ok out s') :
    s'.Valid ∧ ((∀ st, Slipped (.entries n :: st) s.unread) ∨
      ∃ bytes vs, vs.length = n ∧ ArePairs bytes vs ∧ s.unread = bytes ++ s'.unread) := by
  induction n generalizing s res with
  | zero =>
    cases h
    exact ⟨hs, .inr ⟨[], [], rfl, .nil, rfl⟩⟩
  | succ n ih =>
    obtain ⟨key, s1, hkey, h⟩ := bind_eq_ok.mp h
    obtain ⟨ty, s2, hty, h⟩ := bind_eq_ok.mp h
    obtain ⟨value, s3, hvalue, h⟩ := bind_eq_ok.mp h
    obtain ⟨b, arr, hb, hu, hs1⟩ := readString_consumes hs hkey
    obtain ⟨hu1, hs2⟩ := extractByte_consumes hs1 hty
    obtain ⟨hs3, hvalue⟩ := hrv ty s2 value s3 hs2 hvalue
    obtain ⟨hs', hrest⟩ := ih hs3 h
    rw [hu, hu1]
    refine ⟨hs', ?_⟩
    rcases hvalue with hslip | ⟨t, first, d, rfl, hd, hu2⟩
    · exact .inl fun st => (slipped_entries rfl hb).mpr (hslip _)
    rcases hrest with hslip | ⟨bytes, vs, hlen, hvs, hu3⟩
    · refine .inl fun st => (slipped_entries rfl hb).mpr ?_
      rw [hu2, hd.slipped]
      exact hslip st
    · refine .inr ⟨_, (arr, d) :: vs, by simp [hlen], .cons hb hd hvs, ?_⟩
      rw [hu2, hu3]
      simp

theorem readArgObj_sound {rv : UInt8 → StreamM Arg} (hrv : ∀ ty, ReadsValue ty (rv ty))
    {out : ArgObj} (hs : s.Valid) (h : readArgObj rv s = .ok out s') :
    s'.Valid ∧ ((∀ st, Slipped (.object :: st) s.unread) ∨
      ∃ bytes vs, IsValue .subObject bytes (.subObject vs) ∧ s.unread = bytes ++ s'.unread) := by
  obtain ⟨count, s1, hcount, h⟩ := bind_eq_ok.mp h
  obtain ⟨hu, hs1⟩ := extractByte_consumes hs hcount
  obtain ⟨hs', hentries⟩ := readEntries_sound hrv hs1 h
  refine ⟨hs', ?_⟩
  rw [hu]
  rcases hentries with hslip | ⟨bytes, vs, hlen, hvs, hu1⟩
  · exact .inl fun st => .next rfl (hslip st)
  · exact .inr ⟨count :: bytes, vs, .object hlen.symm hvs, by rw [hu1, List.cons_append]⟩

theorem readElements_sound {rv : UInt8 → StreamM Arg} {ty : UInt8} (hrv : ReadsValue ty (rv ty))
    {n : ℕ} {l out : ArgList} (hs : s.Valid) (h : readElements rv ty n l s = .ok out s') :
    s'.Valid ∧ ((∀ st, Slipped (.elements ty n :: st) s.unread) ∨
      ∃ bytes c, c.length = n ∧ (n ≠ 0 → ∃ t : ValType, t.code = ty) ∧
        (∀ t : ValType, t.code = ty → AreElements t bytes c) ∧ s.unread = bytes ++ s'.unread) := by
  induction n generalizing s l with
  | zero =>
    cases h
    exact ⟨hs, .inr ⟨[], [], rfl, fun hne => absurd rfl hne, fun _ _ => .nil, rfl⟩⟩
  | succ n ih =>
    obtain ⟨value, s1, hvalue, h⟩ := bind_eq_ok.mp h
    obtain ⟨l', s2, hpush, htail⟩ := bind_eq_ok.mp h
    obtain ⟨-, rfl⟩ := pushed_eq_ok hpush
    obtain ⟨hs1, hvalue⟩ := hrv s value _ hs hvalue
    obtain ⟨hs', hrest⟩ := ih hs1 htail
    refine ⟨hs', ?_⟩
    rcases hvalue with hslip | ⟨t, first, d, rfl, hd, hu⟩
    · exact .inl fun st => .next rfl (hslip _)
    rcases hrest with hslip | ⟨bytes, c, hlen, -, hc, hu1⟩
    · refine .inl fun st => .next rfl ?_
      show Slipped (.value t.code :: .elements t.code n :: st) s.unread
      rw [hu]
      exact (hd.slipped _ _).mpr (hslip st)
    · refine .inr ⟨first ++ bytes, d :: c, by simp [hlen], fun _ => ⟨t, rfl⟩, ?_, ?_⟩
      · intro u hcode
        obtain rfl := ValType.code_injective hcode
        exact .cons hd (hc _ rfl)
      · rw [hu, hu1, List.append_assoc]

theorem readArgList_sound {rv : UInt8 → StreamM Arg} (hrv : ∀ ty, ReadsValue ty (rv ty))
    {out : ArgList} (hs : s.Valid) (h : readArgList rv s = .ok out s') :
    s'.Valid ∧ ((∀ st, Slipped (.list :: st) s.unread) ∨
      ∃ bytes t c, IsValue .list bytes (.list t c) ∧ s.unread = bytes ++ s'.unread) := by
  obtain ⟨contained, s1, hcontained, h⟩ := bind_eq_ok.mp h
  obtain ⟨size, s2, hsize, h⟩ := bind_eq_ok.mp h
  obtain ⟨hu, hs1⟩ := extractByte_consumes hs hcontained
  obtain ⟨hword, hu1, hs2⟩ := readSingle_consumes hs1 hsize
  obtain ⟨hs', helements⟩ := readElements_sound (hrv contained) hs2 h
  have hcount : size.word = lengthField s1.unread := by rw [hword]; rfl
  rw [hcount, hu1] at helements
  refine ⟨hs', ?_⟩
  rw [hu]
  by_cases hshort : s1.unread.length < 4
  · exact .inl fun st => .next rfl (.here (.inl hshort))
  have hfour : (s1.unread.take 4).length = 4 := by
    rw [List.length_take]
    omega
  rcases helements with hslip | ⟨bytes, c, hlen, htype, hc, hrest⟩
  · exact .inl fun st => .next rfl (.next rfl (hslip st))
  cases hcode : ValType.ofCode contained with
  | none =>
    have hzero : lengthField s1.unread = 0 := by
      by_contra hne
      obtain ⟨t, rfl⟩ := htype hne
      simp at hcode
    exact .inl fun st => .next rfl (.here (.inr ⟨hzero, hcode⟩))
  | some t =>
    have hfield : msbFirst (s1.unread.take 4) = c.length := by
      rw [← lengthField_append hfour (s1.unread.drop 4), List.take_append_drop, hlen]
    rw [← ValType.code_of_ofCode hcode]
    refine .inr ⟨_, t, c, .list hfour hfield (hc t (ValType.code_of_ofCode hcode)), ?_⟩
    rw [List.cons_append, List.append_assoc, ← hrest]
    exact congrArg _ (List.take_append_drop 4 s1.unread).symm

/-- By induction on the recursion of the decoder. -/
theorem readValue_sound (fuel : ℕ) : ∀ ty, ReadsValue ty (readValue fuel ty) := by
  induction fuel with
  | zero =>
    intro ty s a s' _ h
    cases h
  | succ fuel ih =>
    intro ty s a s' hs h
    cases hcode : ValType.ofCode ty with
    | none =>
      simp only [readValue, hcode] at h
      cases h
    | some t =>
      have ht := ValType.code_of_ofCode hcode
      simp only [readValue, hcode] at h
      cases t with
      | scalar t =>
        obtain ⟨v, s1, hv, h⟩ := bind_eq_ok.mp h
        cases h
        obtain ⟨-, hu, hs'⟩ := readSingle_consumes hs hv
        refine ⟨hs', ?_⟩
        by_cases hshort : s.unread.length < t.sizeof
        · exact .inl fun st => .here ⟨t, hcode, hshort⟩
        · have hlen : (s.unread.take t.sizeof).length = t.sizeof := by
            rw [List.length_take]
            omega
          exact .inr ⟨_, _, _, ht, .primitive hlen, by rw [hu, List.take_append_drop]⟩
      | string =>
        obtain ⟨v, s1, hv, h⟩ := bind_eq_ok.mp h
        cases h
        obtain ⟨n, arr, hn, hu, hs'⟩ := readString_consumes hs hv
        exact ⟨hs', .inr ⟨_, n :: arr, _, ht, .string hn, hu⟩⟩
      | subObject =>
        obtain ⟨o, s1, ho, h⟩ := bind_eq_ok.mp h
        cases h
        obtain ⟨hs', hslip | ⟨bytes, vs, hvs, hu⟩⟩ := readArgObj_sound ih hs ho
        · exact ⟨hs', .inl fun st => .next (by simp only [Item.demand, hcode]; rfl) (hslip st)⟩
        · exact ⟨hs', .inr ⟨_, bytes, _, ht, hvs, hu⟩⟩
      | list =>
        obtain ⟨l, s1, hl, h⟩ := bind_eq_ok.mp h
        cases h
        obtain ⟨hs', hslip | ⟨bytes, u, c, hc, hu⟩⟩ := readArgList_sound ih hs hl
        · exact ⟨hs', .inl fun st => .next (by simp only [Item.demand, hcode]; rfl) (hslip st)⟩
        · exact ⟨hs', .inr ⟨_, bytes, _, ht, hc, hu⟩⟩

end Soundness

namespace Message

/-- A field behind the version is not noticed to be wrong. -/
def Slipped : Bytes → Prop
  | _ :: _ :: _ :: _ :: body => Dotchat.Slipped [.string, .object] body
  | _ => False

theorem slipped_of_message {bytes cmd : Bytes} {vs : List (Bytes × Arg)}
    (h : IsMessage bytes cmd vs) (rest : Bytes) : ¬ Slipped (bytes ++ rest) := by
  cases h with
  | @message major minor n cmd args _ _ _ hcmd hargs =>
    intro hslip
    have hbody : Dotchat.Slipped [.string, .object] (n :: (cmd ++ (args ++ rest))) := by
      simpa only [Slipped, List.cons_append, List.nil_append, List.append_assoc] using hslip
    rw [slipped_string hcmd] at hbody
    have hdemand : (Item.value ValType.subObject.code).demand (args ++ rest) =
        .next [.object] (args ++ rest) := rfl
    have hvalue : Dotchat.Slipped [.value ValType.subObject.code] (args ++ rest) :=
      .next hdemand hbody
    exact slipped_nil rest ((hargs.slipped [] rest).mp hvalue)

/-- An accepted input, in its parts. -/
theorem ofStream_sound {m : Message} {s s' : Bytestream} (hs : s.Valid)
    (h : ofStream s = .ok m s') : Slipped s.unread ∨
      ∃ bytes, IsSentence bytes ∧ s.unread = bytes ++ s'.unread := by
  obtain ⟨b1, s1, h1, h⟩ := bind_eq_ok.mp h
  obtain ⟨b2, s2, h2, h⟩ := bind_eq_ok.mp h
  obtain ⟨hu1, hs1⟩ := extractByte_consumes hs h1
  obtain ⟨hu2, hs2⟩ := extractByte_consumes hs1 h2
  split at h
  · rename_i hmagic
    obtain ⟨major, s3, h3, h⟩ := bind_eq_ok.mp h
    obtain ⟨minor, s4, h4, h⟩ := bind_eq_ok.mp h
    obtain ⟨hu3, hs3⟩ := extractByte_consumes hs2 h3
    obtain ⟨hu4, hs4⟩ := extractByte_consumes hs3 h4
    cases hversion : versionFault major minor with
    | some what =>
      rw [hversion] at h
      cases h
    | none =>
      rw [hversion] at h
      obtain ⟨cmd, s5, h5, h⟩ := bind_eq_ok.mp h
      obtain ⟨fuel, s6, h6, h⟩ := bind_eq_ok.mp h
      cases h6
      obtain ⟨args, s7, h7, h8⟩ := bind_eq_ok.mp h
      cases h8
      obtain ⟨n, arr, hn, hu5, hs5⟩ := readString_consumes hs4 h5
      obtain ⟨-, hobject⟩ := readArgObj_sound (readValue_sound _) hs5 h7
      have hunread : s.unread = b1 :: b2 :: major :: minor :: n :: (arr ++ s5.unread) := by
        rw [hu1, hu2, hu3, hu4, hu5]
      rw [hunread]
      rcases hobject with hslip | ⟨bytes, vs, hvs, hu6⟩
      · exact .inl ((slipped_string hn).mpr (hslip []))
      · obtain ⟨hmajor, hminor⟩ := versionFault_eq_none.mp hversion
        simp only [magicNumberMatch, Bool.and_eq_true, beq_iff_eq] at hmagic
        refine .inr ⟨_, ⟨arr, vs, .message hmajor hminor hn hvs⟩, ?_⟩
        rw [hu6, hmagic.1, hmagic.2]
        simp
  · cases h

/-- The bytes that an accepted input has lost are a sentence exactly when the
decoder did not slip. -/
theorem consumed_sentence_iff {m : Message} {s s' : Bytestream} (hs : s.Valid)
    (h : ofStream s = .ok m s') :
    (∃ bytes, IsSentence bytes ∧ s.unread = bytes ++ s'.unread) ↔ ¬ Slipped s.unread := by
  constructor
  · rintro ⟨bytes, ⟨cmd, vs, hmessage⟩, hu⟩
    rw [hu]
    exact slipped_of_message hmessage _
  · intro hno
    exact (ofStream_sound hs h).resolve_left hno

/-- The argument of a message that ends inside a 16-bit number. -/
def cutInput : Bytes := [0x2E, 0x43, 0, 1, 1, 0x78, 1, 1, 0x6B, 0x12, 0x56]

def cutMessage : Message :=
  .ofValues (ascii "x") [(ascii "k", .scalar (.uint16 0x5600))]

theorem cutInput_accepted : ofStream (fresh cutInput) = .ok cutMessage ⟨11, cutInput⟩ := by
  decide +kernel

theorem cutInput_slipped : Slipped (fresh cutInput).unread := by
  have hvalue : Dotchat.Slipped [.value 0x12, .entries 0] [0x56] :=
    .here ⟨.uint16, rfl, by decide⟩
  have hentries : Dotchat.Slipped [.entries 1] (1 :: ([0x6B] ++ 0x12 :: [0x56])) :=
    (slipped_entries rfl rfl).mpr hvalue
  have hobject : Dotchat.Slipped [.object] (1 :: 1 :: ([0x6B] ++ 0x12 :: [0x56])) :=
    .next rfl hentries
  exact (slipped_string (n := 1) (v := [0x78]) rfl).mpr hobject

theorem cutInput_not_sentence :
    ofStream (fresh cutInput) = .ok cutMessage ⟨11, cutInput⟩ ∧
      ¬ ∃ bytes, IsSentence bytes ∧ cutInput = bytes ++ Bytestream.unread ⟨11, cutInput⟩ := by
  refine ⟨cutInput_accepted, ?_⟩
  rintro ⟨bytes, ⟨cmd, vs, hmessage⟩, hu⟩
  have hslip := cutInput_slipped
  rw [unread_fresh, hu] at hslip
  exact slipped_of_message hmessage _ hslip

theorem consumed_sentence_iff_cutInput :
    (∃ bytes, IsSentence bytes ∧
        (fresh cutInput).unread = bytes ++ Bytestream.unread ⟨11, cutInput⟩) ↔
      ¬ Slipped (fresh cutInput).unread :=
  consumed_sentence_iff (valid_fresh _) cutInput_accepted

end Message
end Dotchat
