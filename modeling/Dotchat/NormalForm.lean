import Dotchat.RoundTrip

/-!
Whatever the decoder returns is canonical: by induction over its recursion,
strings are cut at NUL bytes and at most 255 long, keys are inserted in order,
elements pass `push_back`. With the wire form this settles both directions of
encoding and decoding a message.
-/
namespace Dotchat

open FaultState Bytestream

section Outputs

theorem readChars_length {n : ℕ} {s s' : Bytestream} {arr : Bytes}
    (h : readChars n s = .ok arr s') : arr.length = n := by
  induction n generalizing s arr with
  | zero =>
    cases h
    rfl
  | succ n ih =>
    obtain ⟨c, s1, -, h⟩ := bind_eq_ok.mp h
    obtain ⟨rest, s2, hrest, h⟩ := bind_eq_ok.mp h
    cases h
    simp [ih hrest]

theorem readString_canonical {s s' : Bytestream} {v : Bytes}
    (h : readString s = .ok v s') : v.length ≤ 0xFF ∧ 0 ∉ v := by
  obtain ⟨size, s1, -, h⟩ := bind_eq_ok.mp h
  obtain ⟨arr, s2, harr, h⟩ := bind_eq_ok.mp h
  cases h
  have hlen := length_cString_le arr
  have hsize := size.toNat_lt
  rw [readChars_length harr] at hlen
  exact ⟨by omega, cString_no_nul arr⟩

theorem readEntries_canonical {rv : UInt8 → StreamM Arg}
    (hrv : ∀ ty s a s', rv ty s = .ok a s' → a.Canonical) {n : ℕ} {res out : ArgObj}
    {s s' : Bytestream} (h : readEntries rv n res s = .ok out s')
    (hord : OrderedMap.Ordered res) (hkeys : ∀ e ∈ res, e.1.length ≤ 0xFF ∧ 0 ∉ e.1)
    (hvals : ∀ e ∈ res, e.2.Canonical) :
    OrderedMap.Ordered out ∧ out.length ≤ res.length + n ∧
      (∀ e ∈ out, e.1.length ≤ 0xFF ∧ 0 ∉ e.1) ∧ ∀ e ∈ out, e.2.Canonical := by
  induction n generalizing res s with
  | zero =>
    cases h
    exact ⟨hord, Nat.le_refl _, hkeys, hvals⟩
  | succ n ih =>
    obtain ⟨key, s1, hkey, h⟩ := bind_eq_ok.mp h
    obtain ⟨ty, s2, -, h⟩ := bind_eq_ok.mp h
    obtain ⟨value, s3, hvalue, h⟩ := bind_eq_ok.mp h
    have hkey' := readString_canonical hkey
    have hvalue' := hrv ty s2 value s3 hvalue
    have hlen := OrderedMap.length_insert_le key value res
    obtain ⟨hord', hlen', hkeys', hvals'⟩ := ih h (OrderedMap.ordered_insert key value hord)
      (fun e he => by
        rcases OrderedMap.mem_insert he with rfl | he
        · exact hkey'
        · exact hkeys e he)
      (fun e he => by
        rcases OrderedMap.mem_insert he with rfl | he
        · exact hvalue'
        · exact hvals e he)
    refine ⟨hord', ?_, hkeys', hvals'⟩
    simp only [ArgObj.set] at hlen'
    omega

theorem readArgObj_canonical {rv : UInt8 → StreamM Arg}
    (hrv : ∀ ty s a s', rv ty s = .ok a s' → a.Canonical) {out : ArgObj} {s s' : Bytestream}
    (h : readArgObj rv s = .ok out s') : Arg.Canonical (.subObject out) := by
  obtain ⟨count, s1, -, h⟩ := bind_eq_ok.mp h
  obtain ⟨hord, hlen, hkeys, hvals⟩ :=
    readEntries_canonical hrv h OrderedMap.ordered_nil (by simp) (by simp)
  have hcount := count.toNat_lt
  simp only [List.length_nil] at hlen
  exact .subObject ⟨hord, by omega⟩ hkeys hvals

theorem pushed_eq_ok {l l' : ArgList} {a : Arg} {s s' : Bytestream}
    (h : pushed l a s = .ok l' s') : l.pushBack a = .ok l' ∧ s' = s := by
  unfold pushed at h
  cases hpush : l.pushBack a with
  | ok out =>
    rw [hpush] at h
    cases h
    exact ⟨rfl, rfl⟩
  | error e =>
    rw [hpush] at h
    cases h

theorem readElements_canonical {rv : UInt8 → StreamM Arg}
    (hrv : ∀ ty s a s', rv ty s = .ok a s' → a.Canonical) {ty : UInt8} {n : ℕ}
    {l out : ArgList} {s s' : Bytestream} (h : readElements rv ty n l s = .ok out s')
    (hl : l.Homogeneous) (hvals : ∀ a ∈ l.content, a.Canonical) :
    out.Homogeneous ∧ out.content.length = l.content.length + n ∧
      ∀ a ∈ out.content, a.Canonical := by
  induction n generalizing l s with
  | zero =>
    cases h
    exact ⟨hl, rfl, hvals⟩
  | succ n ih =>
    obtain ⟨value, s1, hvalue, h⟩ := bind_eq_ok.mp h
    obtain ⟨l', s2, hpush, h⟩ := bind_eq_ok.mp h
    obtain ⟨hpush, -⟩ := pushed_eq_ok hpush
    have hcontent := (ArgList.pushBack_eq_ok hpush).2.1
    obtain ⟨hhom, hlen, hvals'⟩ := ih h (hl.pushBack hpush) (by
      rw [hcontent, List.forall_mem_append]
      exact ⟨hvals, by simpa using hrv ty s value s1 hvalue⟩)
    refine ⟨hhom, ?_, hvals'⟩
    rw [hlen, hcontent, List.length_append, List.length_singleton]
    omega

theorem readArgList_canonical {rv : UInt8 → StreamM Arg}
    (hrv : ∀ ty s a s', rv ty s = .ok a s' → a.Canonical) {out : ArgList} {s s' : Bytestream}
    (h : readArgList rv s = .ok out s') : Arg.Canonical out.toArg := by
  obtain ⟨contained, s1, -, h⟩ := bind_eq_ok.mp h
  obtain ⟨size, s2, hsize, h⟩ := bind_eq_ok.mp h
  obtain ⟨hhom, hlen, hvals⟩ :=
    readElements_canonical hrv h ArgList.homogeneous_empty (by simp)
  have htype : size.type = .uint32 := by
    obtain ⟨got, s3, -, hret⟩ := bind_eq_ok.mp hsize
    cases hret
    exact Scalar.type_ofWord _ _
  have hword : size.word < 256 ^ 4 := by
    have h := size.word_lt
    rwa [htype] at h
  simp only [List.length_nil] at hlen
  exact .list ⟨hhom, by simp only; omega⟩ hvals

theorem readValue_canonical (fuel : ℕ) :
    ∀ ty s a s', readValue fuel ty s = .ok a s' → a.Canonical := by
  induction fuel with
  | zero =>
    intro ty s a s' h
    cases h
  | succ fuel ih =>
    intro ty s a s' h
    cases hcode : ValType.ofCode ty with
    | none =>
      simp only [readValue, hcode] at h
      cases h
    | some t =>
      simp only [readValue, hcode] at h
      cases t with
      | scalar t =>
        obtain ⟨v, s1, -, h⟩ := bind_eq_ok.mp h
        cases h
        exact .scalar v
      | string =>
        obtain ⟨v, s1, hv, h⟩ := bind_eq_ok.mp h
        cases h
        exact .string (readString_canonical hv)
      | subObject =>
        obtain ⟨o, s1, ho, h⟩ := bind_eq_ok.mp h
        cases h
        exact readArgObj_canonical ih ho
      | list =>
        obtain ⟨l, s1, hl, h⟩ := bind_eq_ok.mp h
        cases h
        exact readArgList_canonical ih hl

end Outputs

namespace Message

/-- Strings without NUL bytes and lists of fewer than 2^32 elements, at any
depth. -/
def Plain (m : Message) : Prop := 0 ∉ m.cmd ∧ m.argsValue.Plain

/-- The messages the decoder can return. -/
def Canonical (m : Message) : Prop :=
  (m.cmd.length ≤ 0xFF ∧ 0 ∉ m.cmd) ∧ m.argsValue.Canonical

theorem canonical_of {m : Message} (hwell : m.argsValue.WellFormed) (hsend : m.Sendable)
    (hplain : m.Plain) : m.Canonical :=
  ⟨⟨hsend.1, hplain.1⟩, Arg.canonical_iff.mpr ⟨hwell, hsend.2, hplain.2⟩⟩

theorem Canonical.sendable {m : Message} (h : m.Canonical) : m.Sendable :=
  ⟨h.1.1, (Arg.canonical_iff.mp h.2).2.1⟩

theorem Canonical.plain {m : Message} (h : m.Canonical) : m.Plain :=
  ⟨h.1.2, (Arg.canonical_iff.mp h.2).2.2⟩

theorem readBody_eq_ok {major minor : UInt8} {m : Message} {s s' : Bytestream}
    (h : readBody major minor s = .ok m s') : m.Canonical := by
  obtain ⟨cmd, s1, hcmd, h⟩ := bind_eq_ok.mp h
  obtain ⟨fuel, s2, -, h⟩ := bind_eq_ok.mp h
  obtain ⟨args, s3, hargs, h⟩ := bind_eq_ok.mp h
  cases h
  exact ⟨readString_canonical hcmd, readArgObj_canonical (readValue_canonical fuel) hargs⟩

/-- `message(bytestream &)` with the part behind the version left open. -/
def ofStreamWith (body : UInt8 → UInt8 → StreamM Message) : StreamM Message := do
  let b1 ← extractByte
  let b2 ← extractByte
  if magicNumberMatch b1 b2 then
    let major ← extractByte
    let minor ← extractByte
    match versionFault major minor with
    | some what => throw (.thrown (.messageError what))
    | none => body major minor
  else throw (.thrown (.messageError "Can't parse message (missing magic number)"))

/-- A message comes out of the part behind the version. -/
theorem ofStreamWith_eq_ok {body : UInt8 → UInt8 → StreamM Message} {m : Message}
    {s s' : Bytestream} (h : ofStreamWith body s = .ok m s') :
    ∃ major minor t, body major minor t = .ok m s' := by
  obtain ⟨b1, s1, -, h⟩ := bind_eq_ok.mp h
  obtain ⟨b2, s2, -, h⟩ := bind_eq_ok.mp h
  split at h
  · obtain ⟨major, s3, -, h⟩ := bind_eq_ok.mp h
    obtain ⟨minor, s4, -, h⟩ := bind_eq_ok.mp h
    cases hversion : versionFault major minor with
    | some what =>
      rw [hversion] at h
      cases h
    | none =>
      rw [hversion] at h
      exact ⟨major, minor, s4, h⟩
  · cases h

/-- Whatever the decoder returns is canonical. -/
theorem ofStream_canonical {m : Message} {s s' : Bytestream}
    (h : ofStream s = .ok m s') : m.Canonical := by
  have hwith : ofStreamWith readBody s = .ok m s' := h
  obtain ⟨major, minor, t, hbody⟩ := ofStreamWith_eq_ok hwith
  exact readBody_eq_ok hbody

/-- The message as it is decoded: the versions are those of the encoder. -/
def received (m : Message) : Message :=
  { m with protocolMajor := preferredMajorVersion, protocolMinor := preferredMinorVersion }

/-- The message that the decoder makes of a command and pairs on the wire. -/
def decoded (major minor : UInt8) (cmd : Bytes) (vs : List (Bytes × Arg)) : Message :=
  { protocolMajor := major, protocolMinor := minor, cmd := cString cmd,
    args := ArgObj.setAll [] (decodedEntries vs) }

theorem readBody_spelled (major minor : UInt8) {n : UInt8} {cmd : Bytes}
    {vs : List (Bytes × Arg)} (hcmd : n.toNat = cmd.length)
    (hargs : (Arg.subObject vs).Documented) (rest : Bytes) :
    Runs (readBody major minor) (n :: cmd ++ ((Arg.subObject vs).wire ++ rest))
      (.ok (decoded major minor cmd vs, rest)) := by
  obtain ⟨hobj, hkeys, hvals⟩ := Arg.everywhere_subObject.mp hargs
  have hobject : Runs (readArgObj (readValue ((Arg.subObject vs).wire ++ rest).length))
      ((Arg.subObject vs).wire ++ rest) (.ok (ArgObj.setAll [] (decodedEntries vs), rest)) := by
    have hbody := readEntries_wire ((Arg.subObject vs).wire ++ rest).length [] rest
      (fun e he => decodes_of_documented (hvals e he)) hkeys (by simp [Arg.wire])
    simp only [Arg.wire, List.cons_append] at hbody ⊢
    exact (extractByte_cons _ _).bind ((toNat_ofNat_of_le hobj).symm ▸ hbody)
  have hname : stringWire cmd = n :: cmd := by rw [stringWire, ofNat_of_byte hcmd]
  rw [← hname]
  apply (readString_wire (length_lt_of_byte hcmd) _).bind
  apply (depthBound_runs _).bind
  exact hobject.bind (Runs.pure _ _)

/-- A message of the format is decoded to its normal form, whatever follows it. -/
theorem ofStream_spelled {major minor n : UInt8} {cmd args : Bytes} {vs : List (Bytes × Arg)}
    (hversion : versionFault major minor = none) (hcmd : n.toNat = cmd.length)
    (hargs : IsValue .subObject args (.subObject vs)) (rest : Bytes) :
    Runs ofStream ([0x2E, 0x43, major, minor] ++ n :: (cmd ++ args) ++ rest)
      (.ok (decoded major minor cmd vs, rest)) := by
  obtain ⟨hdoc, -, rfl⟩ := hargs.eq_wire
  have hbody := readBody_spelled major minor hcmd hdoc rest
  simp only [List.append_assoc, List.cons_append, List.nil_append] at hbody ⊢
  refine (extractByte_cons _ _).bind ((extractByte_cons _ _).bind ?_)
  refine (extractByte_cons _ _).bind ((extractByte_cons _ _).bind ?_)
  rw [hversion]
  exact hbody

/-- A canonical message is read back from its wire form. -/
theorem ofStream_wire {m : Message} (hm : m.Canonical) (rest : Bytes) :
    Runs ofStream (m.wire ++ rest) (.ok (m.received, rest)) := by
  have hargs : ArgObj.setAll [] (decodedEntries m.args) = m.args := by
    simpa only [argsValue, Arg.decoded, Arg.subObject.injEq] using decoded_of_canonical hm.2
  have hversion : versionFault preferredMajorVersion preferredMinorVersion = none := rfl
  have h := ofStream_spelled hversion (toNat_ofNat_of_le hm.1.1)
    (isValue_wire hm.2.documented) rest
  rw [decoded, cString_of_no_nul hm.1.2, hargs] at h
  simpa only [wire, stringWire, received, List.cons_append, List.nil_append, List.append_assoc]
    using h

/-- Decoding the stream gives the command and the arguments of `m` and leaves
exactly `rest` unread. -/
def DecodesTo (s : Bytestream) (m : Message) (rest : Bytes) : Prop :=
  ∃ m' s', ofStream s = .ok m' s' ∧ m'.cmd = m.cmd ∧ m'.args = m.args ∧ s'.unread = rest

/-- Sending into a stream without unread bytes and decoding it, whatever is
appended behind. -/
def RoundTrips (m : Message) : Prop :=
  ∀ s s', s.Valid → s.unread = [] → m.sendTo s = .ok () s' →
    ∀ rest, DecodesTo (s'.add rest) m rest

theorem Canonical.roundTrips {m : Message} (hm : m.Canonical) : m.RoundTrips := by
  intro s s' hs hnil hsend rest
  obtain ⟨-, rfl⟩ := sendTo_eq_ok hsend
  have hvalid : ((s.add m.wire).add rest).Valid := add_valid (add_valid hs _) _
  have hunread : ((s.add m.wire).add rest).unread = m.wire ++ rest := by
    rw [unread_add (add_valid hs _), unread_add hs, hnil, List.nil_append]
  obtain ⟨t, hrun, hrest, -⟩ := ofStream_wire hm rest _ hvalid hunread
  exact ⟨m.received, t, hrun, rfl, rfl, hrest⟩

/-- A message that is sent survives encoding and decoding exactly when it is
plain: a NUL byte or a list length of 2^32 cannot come out of the decoder. -/
theorem roundTrips_iff_plain {m : Message} (hm : m.Built) {out : Bytestream}
    (hsend : m.sendTo {} = .ok () out) : m.RoundTrips ↔ m.Plain := by
  obtain ⟨hsendable, hout⟩ := sendTo_eq_ok hsend
  constructor
  · intro h
    obtain ⟨m', s', hrun, hcmd, hargs, -⟩ := h {} out (Nat.zero_le _) rfl hsend []
    have hplain := (ofStream_canonical hrun).plain
    simpa only [Plain, argsValue, hcmd, hargs] using hplain
  · intro h
    exact (canonical_of hm.wellFormed hsendable h).roundTrips

/-- A string argument `a\0b`. -/
def nulMessage : Message := ofValues (ascii "x") [(ascii "k", .string [0x61, 0x00, 0x62])]

theorem nulMessage_not_roundTrips : nulMessage.Built ∧ ¬ nulMessage.RoundTrips := by
  refine ⟨.ofValues _ (by simpa using Arg.Built.string _), ?_⟩
  intro h
  obtain ⟨m', s', hrun, -, hargs, -⟩ :=
    h {} (fresh nulMessage.wire) (Nat.zero_le _) rfl (by decide +kernel) []
  have hcut : ofStream ((fresh nulMessage.wire).add []) =
      .ok (ofValues (ascii "x") [(ascii "k", .string [0x61])]) ⟨14, nulMessage.wire⟩ := by
    decide +kernel
  rw [hcut] at hrun
  cases hrun
  simp [nulMessage, ofValues, ArgObj.setAll, ArgObj.set, OrderedMap.insert] at hargs

theorem roundTrips_iff_plain_nulMessage : nulMessage.RoundTrips ↔ nulMessage.Plain :=
  roundTrips_iff_plain (.ofValues _ (by simpa using Arg.Built.string _))
    (show nulMessage.sendTo {} = .ok () (fresh nulMessage.wire) by decide +kernel)

/-- Re-encoding what was decoded is accepted and keeps it, also for inputs
that are not in the encoder's form. -/
theorem decoded_roundTrips {m : Message} {s s' : Bytestream} (h : ofStream s = .ok m s') :
    (∀ t, m.sendTo t = .ok () (t.add m.wire)) ∧ m.RoundTrips :=
  ⟨sendTo_emits (ofStream_canonical h).sendable, (ofStream_canonical h).roundTrips⟩

/-- An input with a repeated key, an empty list declared as a list of objects,
version 0.0 and an integer cut short. -/
def oddInput : Bytes :=
  [0x2E, 0x43, 0, 0, 0, 3, 1, 1, 0x21, 0x40, 1, 1, 0x41, 0x31, 0, 0, 0, 0, 1, 2, 0x02, 0x07]

def oddMessage : Message :=
  { protocolMinor := 0, args := [([1], .list (.scalar .int8) []), ([2], .scalar (.int16 0x700))] }

theorem decoded_roundTrips_odd : oddMessage.RoundTrips :=
  (decoded_roundTrips
    (show ofStream (fresh oddInput) = .ok oddMessage ⟨22, oddInput⟩ by decide +kernel)).2

end Message
end Dotchat
