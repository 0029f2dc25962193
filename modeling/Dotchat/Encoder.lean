import Dotchat.Values

/-!
The encoder of message.cpp. The functions append to the stream they are given
and throw when a string or the number of keys does not fit its one-byte
length. `wire` is the byte form of a value on its own; a value within the
limits is written in exactly that form, at any depth, and any other value is
refused with a `message_error`, unless the encoder first comes to an `arg` that
has lost its value.
-/
namespace Dotchat

open FaultState

/-- `strm << v`, with the raw bytes of `v`. -/
def put (raw : Bytes) : StreamM Unit := fun s => .ok () (s.add raw)

/-- `reorder_send`: host to network order for the types that have one. -/
def reorderSend (t : ScalarType) (word : ℕ) : ℕ :=
  if t.requiresReorder then WordBytes.swap t.sizeof word else word

/-- `send_val` of a fixed-width value -/
def sendVal (v : Scalar) : StreamM Unit :=
  put (WordBytes.raw v.type.sizeof (reorderSend v.type v.word))

/-- `send_val` of a string -/
def sendString (v : Bytes) : StreamM Unit :=
  if v.length > 0xFF then throw (.thrown (.messageError "String too long to send."))
  else do
    put [UInt8.ofNat v.length]
    put v

/-- The type byte that `send_arg` writes unless it is told not to. -/
def sendTypeByte {V : Type} (a : Arg V) (sendType : Bool) : StreamM Unit :=
  if sendType then put [a.type.code] else return ()

section Sending

variable {V : Type}

mutual

/-- `send_arg` -/
def sendArg (a : Arg V) (sendType : Bool) : StreamM Unit := do
  sendTypeByte a sendType
  match a with
  -- `get`, `operator arg_list` and `operator arg_obj` cast the `std::any`
  | .valueless _ _ => throw (.thrown .badAnyCast)
  | .scalar v => sendVal v
  | .string v => sendString v
  -- send_list: the elements follow without type bytes
  | .list contained content => do
      put [contained.code]
      sendVal (.uint32 (UInt32.ofNat content.length))
      sendElements content
  -- send_one
  | .subObject values =>
      if values.length > 0xFF then throw (.thrown (.messageError "Too much arguments."))
      else do
        put [UInt8.ofNat values.length]
        sendEntries values

/-- the loop of `send_one` -/
def sendEntries : List (Bytes × Arg V) → StreamM Unit
  | [] => return ()
  | (key, value) :: rest => do
      sendString key
      sendArg value true
      sendEntries rest

/-- the loop of `send_list` -/
def sendElements : List (Arg V) → StreamM Unit
  | [] => return ()
  | value :: rest => do
      sendArg value false
      sendElements rest

end

/-- `send_one` -/
def sendOne (obj : ArgObj V) : StreamM Unit := sendArg (.subObject obj) false

/-- `message::send_to` -/
def Message.sendTo (m : Message V) : StreamM Unit := do
  put [0x2E, 0x43, preferredMajorVersion, preferredMinorVersion]
  sendString m.cmd
  sendOne m.args

end Sending

section Wire

variable {V : Type}

/-- A string behind its length. -/
def stringWire (v : Bytes) : Bytes := UInt8.ofNat v.length :: v

/-- A fixed-width value, most significant byte first. -/
def scalarWire (v : Scalar) : Bytes := (WordBytes.raw v.type.sizeof v.word).reverse

mutual

/-- The bytes of a value after its type byte. -/
def Arg.wire : Arg V → Bytes
  | .valueless _ _ => []
  | .scalar v => scalarWire v
  | .string v => stringWire v
  | .list contained content =>
      contained.code :: (scalarWire (.uint32 (UInt32.ofNat content.length)) ++
        elementsWire content)
  | .subObject values => UInt8.ofNat values.length :: entriesWire values

def entriesWire : List (Bytes × Arg V) → Bytes
  | [] => []
  | (key, value) :: rest =>
      stringWire key ++ value.type.code :: (value.wire ++ entriesWire rest)

def elementsWire : List (Arg V) → Bytes
  | [] => []
  | value :: rest => value.wire ++ elementsWire rest

end

/-- The bytes of a message of the preferred version. -/
def Message.wire (m : Message V) : Bytes :=
  [0x2E, 0x43, preferredMajorVersion, preferredMinorVersion] ++
    stringWire m.cmd ++ m.argsValue.wire

end Wire

section Refinement

variable {V : Type}

/-- Appends exactly `out`, to any stream. -/
def Emits (p : StreamM Unit) (out : Bytes) : Prop := ∀ s, p s = .ok () (s.add out)

/-- Throws a `message_error`, on any stream. -/
def Refuses (p : StreamM Unit) : Prop :=
  ∀ s, ∃ what s', p s = .error (.thrown (.messageError what)) s'

/-- Throws the `bad_any_cast` of a missing value, on any stream. -/
def Drops (p : StreamM Unit) : Prop := ∀ s, ∃ s', p s = .error (.thrown .badAnyCast) s'

theorem put_emits (raw : Bytes) : Emits (put raw) raw := fun _ => rfl

theorem pure_emits : Emits (pure ()) [] := by
  intro s
  simp

theorem Emits.bind {p q : StreamM Unit} {first second : Bytes} (hp : Emits p first)
    (hq : Emits q second) : Emits (p >>= fun _ => q) (first ++ second) := by
  intro s
  rw [bind_of_ok (hp s), hq, Bytestream.add_add]

theorem Emits.bind_refuses {p q : StreamM Unit} {out : Bytes} (hp : Emits p out)
    (hq : Refuses q) : Refuses (p >>= fun _ => q) := by
  intro s
  rw [bind_of_ok (hp s)]
  exact hq _

theorem Emits.bind_drops {p q : StreamM Unit} {out : Bytes} (hp : Emits p out)
    (hq : Drops q) : Drops (p >>= fun _ => q) := by
  intro s
  rw [bind_of_ok (hp s)]
  exact hq _

theorem Drops.bind {p q : StreamM Unit} (hp : Drops p) : Drops (p >>= fun _ => q) := by
  intro s
  obtain ⟨s', h⟩ := hp s
  exact ⟨s', bind_of_error h⟩

theorem throw_drops : Drops (throw (.thrown .badAnyCast)) := fun s => ⟨s, rfl⟩

theorem Refuses.bind {p q : StreamM Unit} (hp : Refuses p) : Refuses (p >>= fun _ => q) := by
  intro s
  obtain ⟨what, s', h⟩ := hp s
  exact ⟨what, s', bind_of_error h⟩

theorem throw_refuses (what : String) :
    Refuses (throw (.thrown (.messageError what))) := fun s => ⟨what, s, rfl⟩

theorem not_emits_of_refuses {p : StreamM Unit} (hp : Refuses p) (s s' : Bytestream) :
    p s ≠ .ok () s' := by
  obtain ⟨what, t, h⟩ := hp s
  simp [h]

/-- One-byte values have no byte order. -/
theorem raw_reorderSend (v : Scalar) :
    WordBytes.raw v.type.sizeof (reorderSend v.type v.word) = scalarWire v := by
  cases v with
  | int8 v | uint8 v | char v => rfl
  | int16 v | uint16 v | int32 v | uint32 v => exact WordBytes.raw_swap _ _

theorem sendVal_emits (v : Scalar) : Emits (sendVal v) (scalarWire v) := by
  rw [sendVal, raw_reorderSend]
  exact put_emits _

theorem sendString_emits {v : Bytes} (h : v.length ≤ 0xFF) :
    Emits (sendString v) (stringWire v) := by
  have hroom : ¬ v.length > 0xFF := by omega
  simp only [sendString, if_neg hroom]
  exact (put_emits [UInt8.ofNat v.length]).bind (put_emits v)

theorem sendString_refuses {v : Bytes} (h : ¬ v.length ≤ 0xFF) : Refuses (sendString v) := by
  have hlong : v.length > 0xFF := by omega
  simp only [sendString, if_pos hlong]
  exact throw_refuses _

/-- The type byte in front of a value, when it is sent. -/
def typeWire (a : Arg V) (sendType : Bool) : Bytes := if sendType then [a.type.code] else []

theorem typeWire_false (a : Arg V) : typeWire a false = [] := rfl

theorem sendTypeByte_emits (a : Arg V) (sendType : Bool) :
    Emits (sendTypeByte a sendType) (typeWire a sendType) := by
  cases sendType
  · exact pure_emits
  · exact put_emits _

/-- The encoder comes to an `arg` without a value, and before it to nothing that is
too long. -/
inductive Arg.Lacking : Arg V → Prop
  | valueless (v : V) (t : ValType) : Arg.Lacking (.valueless v t)
  | entry {front back : ArgObj V} {key : Bytes} {a : Arg V}
      (hcount : (front ++ (key, a) :: back).length ≤ 0xFF)
      (hfront : ∀ e ∈ front, e.1.length ≤ 0xFF ∧ e.2.Sendable) (hkey : key.length ≤ 0xFF)
      (ha : Arg.Lacking a) : Arg.Lacking (.subObject (front ++ (key, a) :: back))
  | element {t : ValType} {front back : List (Arg V)} {a : Arg V}
      (hfront : ∀ b ∈ front, b.Sendable) (ha : Arg.Lacking a) :
      Arg.Lacking (.list t (front ++ a :: back))

/-- What the encoder does with a value: within the limits it emits the wire
form, otherwise it refuses. -/
def Sends (a : Arg V) : Prop :=
  (a.Sendable → ∀ sendType, Emits (sendArg a sendType) (typeWire a sendType ++ a.wire)) ∧
    (¬ a.Sendable → ¬ a.Lacking → ∀ sendType, Refuses (sendArg a sendType))

theorem sendElements_emits {c : List (Arg V)} (ih : ∀ a ∈ c, Sends a)
    (h : ∀ a ∈ c, a.Sendable) : Emits (sendElements c) (elementsWire c) := by
  induction c with
  | nil => exact pure_emits
  | cons a rest ihrest =>
    have hhead := (ih a List.mem_cons_self).1 (h a List.mem_cons_self) false
    have htail := ihrest (fun b hb => ih b (List.mem_cons_of_mem _ hb))
      (fun b hb => h b (List.mem_cons_of_mem _ hb))
    simpa only [sendElements, elementsWire, typeWire_false, List.nil_append]
      using hhead.bind htail

theorem sendElements_refuses {c : List (Arg V)} (ih : ∀ a ∈ c, Sends a)
    (h : ¬ ∀ a ∈ c, a.Sendable)
    (hfull : ∀ front a back, c = front ++ a :: back → (∀ b ∈ front, b.Sendable) → ¬ a.Lacking) :
    Refuses (sendElements c) := by
  induction c with
  | nil => simp at h
  | cons a rest ihrest =>
    simp only [sendElements]
    by_cases ha : a.Sendable
    · have hrest : ¬ ∀ b ∈ rest, b.Sendable := by
        intro hall
        exact h (List.forall_mem_cons.mpr ⟨ha, hall⟩)
      refine ((ih a List.mem_cons_self).1 ha false).bind_refuses
        (ihrest (fun b hb => ih b (List.mem_cons_of_mem _ hb)) hrest ?_)
      rintro front b back rfl hfront
      exact hfull (a :: front) b back rfl (List.forall_mem_cons.mpr ⟨ha, hfront⟩)
    · exact ((ih a List.mem_cons_self).2 ha (hfull [] a rest rfl (by simp)) false).bind

theorem sendElements_drops {front back : List (Arg V)} {a : Arg V}
    (hfront : ∀ b ∈ front, ∀ sendType, Emits (sendArg b sendType) (typeWire b sendType ++ b.wire))
    (ha : Drops (sendArg a false)) : Drops (sendElements (front ++ a :: back)) := by
  induction front with
  | nil =>
    simp only [List.nil_append, sendElements]
    exact ha.bind
  | cons b front ih =>
    obtain ⟨hb, hfront⟩ := List.forall_mem_cons.mp hfront
    simp only [List.cons_append, sendElements]
    exact (hb false).bind_drops (ih hfront)

theorem sendEntries_emits {vs : List (Bytes × Arg V)} (ih : ∀ e ∈ vs, Sends e.2)
    (hkeys : ∀ e ∈ vs, e.1.length ≤ 0xFF) (hvals : ∀ e ∈ vs, e.2.Sendable) :
    Emits (sendEntries vs) (entriesWire vs) := by
  induction vs with
  | nil => exact pure_emits
  | cons e rest ihrest =>
    obtain ⟨key, value⟩ := e
    have hkey := sendString_emits (hkeys (key, value) List.mem_cons_self)
    have hvalue := (ih (key, value) List.mem_cons_self).1
      (hvals (key, value) List.mem_cons_self) true
    have htail := ihrest (fun e he => ih e (List.mem_cons_of_mem _ he))
      (fun e he => hkeys e (List.mem_cons_of_mem _ he))
      (fun e he => hvals e (List.mem_cons_of_mem _ he))
    simpa [sendEntries, entriesWire, typeWire] using hkey.bind (hvalue.bind htail)

theorem sendEntries_refuses {vs : List (Bytes × Arg V)} (ih : ∀ e ∈ vs, Sends e.2)
    (h : ¬ ((∀ e ∈ vs, e.1.length ≤ 0xFF) ∧ ∀ e ∈ vs, e.2.Sendable))
    (hfull : ∀ front e back, vs = front ++ e :: back →
      (∀ e ∈ front, e.1.length ≤ 0xFF ∧ e.2.Sendable) → e.1.length ≤ 0xFF → ¬ e.2.Lacking) :
    Refuses (sendEntries vs) := by
  induction vs with
  | nil => simp at h
  | cons e rest ihrest =>
    obtain ⟨key, value⟩ := e
    simp only [sendEntries]
    by_cases hkey : key.length ≤ 0xFF
    · apply (sendString_emits hkey).bind_refuses
      by_cases hvalue : value.Sendable
      · have hrest : ¬ ((∀ e ∈ rest, e.1.length ≤ 0xFF) ∧ ∀ e ∈ rest, e.2.Sendable) := by
          rintro ⟨hkeys, hvals⟩
          exact h ⟨List.forall_mem_cons.mpr ⟨hkey, hkeys⟩,
            List.forall_mem_cons.mpr ⟨hvalue, hvals⟩⟩
        refine ((ih (key, value) List.mem_cons_self).1 hvalue true).bind_refuses
          (ihrest (fun e he => ih e (List.mem_cons_of_mem _ he)) hrest ?_)
        rintro front e back rfl hfront
        exact hfull ((key, value) :: front) e back rfl
          (List.forall_mem_cons.mpr ⟨⟨hkey, hvalue⟩, hfront⟩)
      · have hthere := hfull [] (key, value) rest rfl (by simp) hkey
        exact ((ih (key, value) List.mem_cons_self).2 hvalue hthere true).bind
    · exact (sendString_refuses hkey).bind

theorem sendEntries_drops {front back : List (Bytes × Arg V)} {key : Bytes} {a : Arg V}
    (hkeys : ∀ e ∈ front, e.1.length ≤ 0xFF)
    (hfront : ∀ e ∈ front, ∀ sendType,
      Emits (sendArg e.2 sendType) (typeWire e.2 sendType ++ e.2.wire))
    (hkey : key.length ≤ 0xFF) (ha : Drops (sendArg a true)) :
    Drops (sendEntries (front ++ (key, a) :: back)) := by
  induction front with
  | nil =>
    simp only [List.nil_append, sendEntries]
    exact (sendString_emits hkey).bind_drops ha.bind
  | cons e front ih =>
    obtain ⟨hfirst, hkeys⟩ := List.forall_mem_cons.mp hkeys
    obtain ⟨he, hfront⟩ := List.forall_mem_cons.mp hfront
    simp only [List.cons_append, sendEntries]
    exact (sendString_emits hfirst).bind_drops ((he true).bind_drops (ih hkeys hfront))

theorem sendArg_sends (a : Arg V) : Sends a := by
  induction a using Arg.inductAll with
  | valueless v t =>
    exact ⟨fun h => absurd h Arg.not_everywhere_valueless,
      fun _ h => absurd (.valueless v t) h⟩
  | scalar v =>
    refine ⟨fun _ st => ?_, fun h => absurd (.scalar v) h⟩
    simpa only [sendArg, Arg.wire] using (sendTypeByte_emits (.scalar v) st).bind (sendVal_emits v)
  | string v =>
    refine ⟨fun h st => ?_, fun h _ st => ?_⟩
    · simpa only [sendArg, Arg.wire] using (sendTypeByte_emits (.string v) st).bind
        (sendString_emits (Arg.everywhere_string.mp h))
    · simpa only [sendArg] using (sendTypeByte_emits (.string v) st).bind_refuses
        (sendString_refuses fun hlen => h (.string hlen))
  | subObject vs ih =>
    refine ⟨fun h st => ?_, fun h hfull st => ?_⟩
    · obtain ⟨hobj, hkeys, hvals⟩ := Arg.everywhere_subObject.mp h
      have hroom : ¬ vs.length > 0xFF := by omega
      have hbody := (put_emits [UInt8.ofNat vs.length]).bind (sendEntries_emits ih hkeys hvals)
      simpa [sendArg, Arg.wire, hroom] using (sendTypeByte_emits (.subObject vs) st).bind hbody
    · by_cases hlen : vs.length ≤ 0xFF
      · have hroom : ¬ vs.length > 0xFF := by omega
        have hbody : Refuses (sendEntries vs) := by
          refine sendEntries_refuses ih ?_ ?_
          · rintro ⟨hkeys, hvals⟩
            exact h (.subObject hlen hkeys hvals)
          · rintro front ⟨key, a⟩ back rfl hfront hkey hlacking
            exact hfull (.entry hlen hfront hkey hlacking)
        simpa [sendArg, hroom] using (sendTypeByte_emits (.subObject vs) st).bind_refuses
          ((put_emits [UInt8.ofNat vs.length]).bind_refuses hbody)
      · have hlong : vs.length > 0xFF := by omega
        simpa only [sendArg, if_pos hlong] using
          (sendTypeByte_emits (.subObject vs) st).bind_refuses (throw_refuses _)
  | list t c ih =>
    refine ⟨fun h st => ?_, fun h hfull st => ?_⟩
    · obtain ⟨-, hvals⟩ := Arg.everywhere_list.mp h
      have hbody := (put_emits [t.code]).bind
        ((sendVal_emits (.uint32 (UInt32.ofNat c.length))).bind (sendElements_emits ih hvals))
      simpa [sendArg, Arg.wire] using (sendTypeByte_emits (.list t c) st).bind hbody
    · have hbody : Refuses (sendElements c) := by
        refine sendElements_refuses ih (fun hvals => h (.list trivial hvals)) ?_
        rintro front a back rfl hfront hlacking
        exact hfull (.element hfront hlacking)
      simpa only [sendArg] using (sendTypeByte_emits (.list t c) st).bind_refuses
        ((put_emits [t.code]).bind_refuses
          ((sendVal_emits (.uint32 (UInt32.ofNat c.length))).bind_refuses hbody))

theorem sendArg_drops {a : Arg V} (h : a.Lacking) (st : Bool) : Drops (sendArg a st) := by
  induction h generalizing st with
  | valueless v t =>
    simp only [sendArg]
    exact (sendTypeByte_emits (.valueless v t) st).bind_drops throw_drops
  | @entry front back key a hcount hfront hkey _ ih =>
    have hroom : ¬ (front ++ (key, a) :: back).length > 0xFF := by omega
    have hbody : Drops (sendEntries (front ++ (key, a) :: back)) :=
      sendEntries_drops (fun e he => (hfront e he).1)
        (fun e he => (sendArg_sends e.2).1 (hfront e he).2) hkey (ih true)
    simp only [sendArg, if_neg hroom]
    exact (sendTypeByte_emits _ st).bind_drops ((put_emits _).bind_drops hbody)
  | @element t front back a hfront _ ih =>
    have hbody : Drops (sendElements (front ++ a :: back)) :=
      sendElements_drops (fun b hb => (sendArg_sends b).1 (hfront b hb)) (ih false)
    simp only [sendArg]
    exact (sendTypeByte_emits _ st).bind_drops ((put_emits [t.code]).bind_drops
      ((sendVal_emits _).bind_drops hbody))

theorem Arg.Everywhere.not_lacking {S : Bytes → Prop} {O : ArgObj V → Prop}
    {L : ArgList V → Prop} {a : Arg V} (h : a.Everywhere S O L) : ¬ a.Lacking := by
  intro hlacking
  induction hlacking with
  | valueless v t => exact not_everywhere_valueless h
  | @entry front back key b _ _ _ _ ih =>
    have hmem : (key, b) ∈ front ++ (key, b) :: back := by simp
    exact ih ((everywhere_subObject.mp h).2.2 _ hmem)
  | @element t front back b _ _ ih =>
    have hmem : b ∈ front ++ b :: back := by simp
    exact ih ((everywhere_list.mp h).2 b hmem)

theorem Arg.not_lacking {a : Arg} : ¬ a.Lacking := by
  intro h
  induction h with
  | valueless v t => exact nomatch v
  | entry _ _ _ _ ih => exact ih
  | element _ _ ih => exact ih

/-- A command and an argument object within the limits of the format. -/
def Message.Sendable (m : Message V) : Prop := m.cmd.length ≤ 0xFF ∧ m.argsValue.Sendable

/-- The encoder comes to a missing value, and to nothing that is too long before it. -/
def Message.Lacking (m : Message V) : Prop := m.cmd.length ≤ 0xFF ∧ m.argsValue.Lacking

theorem Message.sendTo_emits {m : Message V} (h : m.Sendable) : Emits m.sendTo m.wire := by
  have hargs : Emits (sendOne m.args) m.argsValue.wire :=
    (sendArg_sends m.argsValue).1 h.2 false
  have hall := (put_emits [0x2E, 0x43, preferredMajorVersion, preferredMinorVersion]).bind
    ((sendString_emits h.1).bind hargs)
  simpa only [Message.sendTo, Message.wire, List.append_assoc] using hall

theorem Message.sendTo_rejects {m : Message V} (h : ¬ m.Sendable) (hfull : ¬ m.Lacking) :
    Refuses m.sendTo := by
  apply (put_emits _).bind_refuses
  by_cases hcmd : m.cmd.length ≤ 0xFF
  · exact (sendString_emits hcmd).bind_refuses ((sendArg_sends m.argsValue).2
      (fun hargs => h ⟨hcmd, hargs⟩) (fun hargs => hfull ⟨hcmd, hargs⟩) false)
  · exact (sendString_refuses hcmd).bind

theorem Message.sendTo_drops {m : Message V} (h : m.Lacking) : Drops m.sendTo :=
  (put_emits _).bind_drops ((sendString_emits h.1).bind_drops (sendArg_drops h.2 false))

theorem Message.sendTo_refuses {m : Message} (h : ¬ m.Sendable) : Refuses m.sendTo :=
  sendTo_rejects h fun hlacking => Arg.not_lacking hlacking.2

/-- A message that is sent is within the limits, and what is appended is its
wire form. -/
theorem Message.sendTo_eq_ok {m : Message} {s s' : Bytestream}
    (h : m.sendTo s = .ok () s') : m.Sendable ∧ s' = s.add m.wire := by
  by_cases hm : m.Sendable
  · rw [Message.sendTo_emits hm s] at h
    cases h
    exact ⟨hm, rfl⟩
  · exact absurd h (not_emits_of_refuses (Message.sendTo_refuses hm) s s')

end Refinement
end Dotchat
