import Dotchat.DecoderBounds
import Dotchat.Library.Consumption

/-!
The decoder ends on every input, and the input bounds how deep its functions
call each other. A second decoder is given a number of stack frames and gives
up when it needs more. Every level of nesting is read behind bytes of its own,
save for the elements of a list whose length field is missing, and of these
there are none; so the two decoders agree as soon as there is a frame for each
byte that is consumed. The elements of a list may themselves take no bytes, so
the bytes that are left do not decrease; they decrease together with the fields
that are still to be read.
-/
namespace Dotchat

open FaultState Bytestream Consumption

mutual

/-- `read_value` with a number of stack frames -/
def readValueWithin : ℕ → UInt8 → StreamM Arg
  | 0, _ => throw .outOfFuel
  | frames + 1, ty =>
      match ValType.ofCode ty with
      | some t => readSingleWithin frames t
      | none => throw (.thrown (.messageError "Invalid type to read."))

/-- `read_single` with a number of stack frames -/
def readSingleWithin : ℕ → ValType → StreamM Arg
  | 0, _ => throw .outOfFuel
  | _ + 1, .scalar t => do return .scalar (← readSingle t)
  | _ + 1, .string => do return .string (← readString)
  | frames + 1, .subObject => do return .subObject (← readArgObjWithin frames)
  | frames + 1, .list => do return (← readArgList (readValueWithin frames)).toArg

/-- `read_arg_obj` with a number of stack frames -/
def readArgObjWithin : ℕ → StreamM ArgObj
  | 0 => throw .outOfFuel
  | frames + 1 => readArgObj (readValueWithin frames)

end

/-- `message(bytestream &)` behind the version, with a number of stack frames -/
def readBodyWithin (frames : ℕ) (major minor : UInt8) : StreamM Message := do
  let cmd ← readString
  let args ← readArgObjWithin frames
  return { protocolMajor := major, protocolMinor := minor, cmd := cmd, args := args }

/-- `message(bytestream &)` with a number of stack frames for `read_value`,
`read_single` and `read_arg_obj` -/
def Message.ofStreamWithin (frames : ℕ) : StreamM Message :=
  Message.ofStreamWith (readBodyWithin frames)

mutual

/-- How deep lists and objects are nested in a value. -/
def Arg.depth : Arg → ℕ
  | .scalar _ => 0
  | .string _ => 0
  | .subObject vs => entriesDepth vs + 1
  | .list _ c => elementsDepth c + 1

def entriesDepth : List (Bytes × Arg) → ℕ
  | [] => 0
  | (_, value) :: rest => max value.depth (entriesDepth rest)

def elementsDepth : List Arg → ℕ
  | [] => 0
  | value :: rest => max value.depth (elementsDepth rest)

end

section Depth

theorem entriesDepth_le {vs : List (Bytes × Arg)} {n : ℕ} :
    entriesDepth vs ≤ n ↔ ∀ e ∈ vs, e.2.depth ≤ n := by
  induction vs with
  | nil => simp [entriesDepth]
  | cons e rest ih => simp [entriesDepth, ih]

theorem elementsDepth_le {c : List Arg} {n : ℕ} : elementsDepth c ≤ n ↔ ∀ a ∈ c, a.depth ≤ n := by
  induction c with
  | nil => simp [elementsDepth]
  | cons a rest ih => simp [elementsDepth, ih]

variable {rv : UInt8 → StreamM Arg} {bound : ℕ}

theorem readEntries_depth (hrv : ∀ ty s a s', rv ty s = .ok a s' → a.depth ≤ bound) {n : ℕ}
    {res out : ArgObj} {s s' : Bytestream} (h : readEntries rv n res s = .ok out s')
    (hres : ∀ e ∈ res, e.2.depth ≤ bound) : ∀ e ∈ out, e.2.depth ≤ bound := by
  induction n generalizing res s with
  | zero =>
    cases h
    exact hres
  | succ n ih =>
    obtain ⟨key, s1, -, h⟩ := bind_eq_ok.mp h
    obtain ⟨ty, s2, -, h⟩ := bind_eq_ok.mp h
    obtain ⟨value, s3, hvalue, h⟩ := bind_eq_ok.mp h
    apply ih h
    intro e he
    rcases OrderedMap.mem_insert he with rfl | he
    · exact hrv ty s2 value s3 hvalue
    · exact hres e he

theorem readArgObj_depth (hrv : ∀ ty s a s', rv ty s = .ok a s' → a.depth ≤ bound)
    {out : ArgObj} {s s' : Bytestream} (h : readArgObj rv s = .ok out s') :
    (Arg.subObject out).depth ≤ bound + 1 := by
  obtain ⟨count, s1, -, h⟩ := bind_eq_ok.mp h
  have hout := readEntries_depth hrv h (by simp)
  exact Nat.succ_le_succ (entriesDepth_le.mpr hout)

theorem readElements_depth (hrv : ∀ ty s a s', rv ty s = .ok a s' → a.depth ≤ bound) {ty : UInt8}
    {n : ℕ} {l out : ArgList} {s s' : Bytestream} (h : readElements rv ty n l s = .ok out s')
    (hl : ∀ a ∈ l.content, a.depth ≤ bound) : ∀ a ∈ out.content, a.depth ≤ bound := by
  induction n generalizing l s with
  | zero =>
    cases h
    exact hl
  | succ n ih =>
    obtain ⟨value, s1, hvalue, h⟩ := bind_eq_ok.mp h
    obtain ⟨l', s2, hpush, h⟩ := bind_eq_ok.mp h
    obtain ⟨hpush, -⟩ := pushed_eq_ok hpush
    apply ih h
    rw [(ArgList.pushBack_eq_ok hpush).2.1, List.forall_mem_append]
    exact ⟨hl, by simpa using hrv ty s value s1 hvalue⟩

theorem readArgList_depth (hrv : ∀ ty s a s', rv ty s = .ok a s' → a.depth ≤ bound)
    {out : ArgList} {s s' : Bytestream} (h : readArgList rv s = .ok out s') :
    out.toArg.depth ≤ bound + 1 := by
  obtain ⟨contained, s1, -, h⟩ := bind_eq_ok.mp h
  obtain ⟨size, s2, -, h⟩ := bind_eq_ok.mp h
  have hout := readElements_depth hrv h (by simp)
  exact Nat.succ_le_succ (elementsDepth_le.mpr hout)

/-- Nesting takes frames: what is read with a number of them is no deeper. -/
theorem readWithin_depth (frames : ℕ) :
    (∀ ty s a s', readValueWithin frames ty s = .ok a s' → a.depth ≤ frames) ∧
      (∀ t s a s', readSingleWithin frames t s = .ok a s' → a.depth ≤ frames) ∧
      ∀ s out s', readArgObjWithin frames s = .ok out s' → (Arg.subObject out).depth ≤ frames := by
  induction frames with
  | zero =>
    refine ⟨?_, ?_, ?_⟩ <;> intros <;> contradiction
  | succ frames ih =>
    obtain ⟨hvalue, hsingle, hobj⟩ := ih
    refine ⟨?_, ?_, fun s out s' h => readArgObj_depth hvalue h⟩
    · intro ty s a s' h
      cases hcode : ValType.ofCode ty with
      | some t =>
        simp only [readValueWithin, hcode] at h
        exact Nat.le_succ_of_le (hsingle t s a s' h)
      | none =>
        simp only [readValueWithin, hcode] at h
        cases h
    · intro t s a s' h
      cases t with
      | scalar t =>
        obtain ⟨v, s1, -, h⟩ := bind_eq_ok.mp h
        cases h
        exact Nat.zero_le _
      | string =>
        obtain ⟨v, s1, -, h⟩ := bind_eq_ok.mp h
        cases h
        exact Nat.zero_le _
      | subObject =>
        obtain ⟨o, s1, ho, h⟩ := bind_eq_ok.mp h
        cases h
        exact Nat.le_succ_of_le (hobj _ _ _ ho)
      | list =>
        obtain ⟨l, s1, hl, h⟩ := bind_eq_ok.mp h
        cases h
        exact readArgList_depth hvalue hl

end Depth

section Frames

/-- The unread bytes of a stream, for a decoder with a number of stack frames. -/
def unreadBytes : Gauge Fault Bytestream where
  size s := s.unread.length
  Inv := Valid
  stop := .outOfFuel

theorem extractByte_mirrors (bound : ℤ) :
    unreadBytes.Mirrors 1 bound extractByte extractByte := by
  refine .same bound fun s hs => ?_
  cases hu : s.unread with
  | nil =>
    obtain ⟨s', hrun⟩ := extractByte_nil s hs hu
    rw [hrun]
    trivial
  | cons b rest =>
    obtain ⟨s', hrun, hrest, hvalid⟩ := extractByte_cons b rest s hs hu
    rw [hrun]
    refine ⟨hvalid, ?_⟩
    simp only [unreadBytes, hrest, hu, List.length_cons, Nat.le_refl]

theorem readSingle_mirrors (t : ScalarType) (bound : ℤ) :
    unreadBytes.Mirrors 0 bound (readSingle t) (readSingle t) := by
  refine .same bound fun s hs => ?_
  obtain ⟨s', hrun, hrest, hvalid⟩ := readSingle_runs t s.unread s hs rfl
  rw [hrun]
  refine ⟨hvalid, ?_⟩
  simp only [unreadBytes, hrest, List.length_drop]
  omega

theorem readChars_mirrors (n : ℕ) (bound : ℤ) :
    unreadBytes.Mirrors 0 bound (readChars n) (readChars n) := by
  induction n generalizing bound with
  | zero => exact .pure bound []
  | succ n ih =>
    refine ((extractByte_mirrors bound).bind fun c => ?_).weaken (Nat.zero_le _) (Int.le_refl _)
    exact (ih _).bind fun rest => .pure _ (c :: rest)

theorem readString_mirrors (bound : ℤ) :
    unreadBytes.Mirrors 1 bound readString readString := by
  refine (extractByte_mirrors bound).bind fun size => ?_
  exact (readChars_mirrors size.toNat _).bind fun arr => .pure _ (cString arr)

theorem pushed_mirrors (l : ArgList) (a : Arg) (bound : ℤ) :
    unreadBytes.Mirrors 0 bound (pushed l a) (pushed l a) := by
  refine .same bound fun s hs => ?_
  unfold pushed
  cases l.pushBack a with
  | ok l' => exact ⟨hs, Nat.le_refl _⟩
  | error e => trivial

variable {rv rv' : UInt8 → StreamM Arg} {bound : ℤ}

/-- Each entry has a length byte of its key and a type byte before its value. -/
theorem readEntries_mirrors (hrv : ∀ ty, unreadBytes.Mirrors 0 bound (rv ty) (rv' ty)) (n : ℕ)
    (res : ArgObj) :
    unreadBytes.Mirrors 0 (bound + 2) (readEntries rv n res) (readEntries rv' n res) := by
  induction n generalizing res with
  | zero => exact .pure _ res
  | succ n ih =>
    refine ((readString_mirrors _).bind fun key => ?_).weaken (Nat.zero_le _) (Int.le_refl _)
    refine ((extractByte_mirrors _).bind fun ty => ?_).weaken (Nat.zero_le _) (Int.le_refl _)
    refine ((hrv ty).weaken (Nat.le_refl _) (by omega)).bind fun value => ?_
    exact (ih (res.set key value)).weaken (Nat.le_refl _) (by omega)

theorem readArgObj_mirrors (hrv : ∀ ty, unreadBytes.Mirrors 0 bound (rv ty) (rv' ty)) :
    unreadBytes.Mirrors 1 (bound + 3) (readArgObj rv) (readArgObj rv') := by
  refine (extractByte_mirrors _).bind fun count => ?_
  exact (readEntries_mirrors hrv count.toNat []).weaken (Nat.le_refl _) (by omega)

theorem readElements_mirrors (hrv : ∀ ty, unreadBytes.Mirrors 0 bound (rv ty) (rv' ty))
    (ty : UInt8) (n : ℕ) (l : ArgList) :
    unreadBytes.Mirrors 0 bound (readElements rv ty n l) (readElements rv' ty n l) := by
  induction n generalizing l with
  | zero => exact .pure _ l
  | succ n ih =>
    refine (hrv ty).bind fun value => (pushed_mirrors l value _).bind fun l' => ?_
    exact (ih l').weaken (Nat.le_refl _) (by omega)

/-- A length field that is missing declares no elements. -/
theorem lengthField_nil : lengthField [] = 0 := by decide

/-- The elements stand behind a byte of the length field, if there are any. -/
theorem readSized_mirrors (hrv : ∀ ty, unreadBytes.Mirrors 0 bound (rv ty) (rv' ty))
    (ty : UInt8) :
    unreadBytes.Mirrors 0 (bound + 1)
      (readSingle .uint32 >>= fun size => readElements rv ty size.word {})
      (readSingle .uint32 >>= fun size => readElements rv' ty size.word {}) := by
  intro s hs
  obtain ⟨s', hrun, hrest, hvalid⟩ := readSingle_runs .uint32 s.unread s hs rfl
  cases hu : s.unread with
  | nil =>
    have hword : (scalarOf .uint32 (s.unread.take ScalarType.uint32.sizeof)).word = 0 := by
      rw [hu]
      exact lengthField_nil
    rw [Gauge.Agrees, bind_of_ok hrun, bind_of_ok hrun, hword]
    exact ⟨⟨hvalid, by simp [unreadBytes, hrest]⟩, fun _ _ => rfl⟩
  | cons b rest =>
    have hsize : unreadBytes.Agrees s 1 (bound + 1) (readSingle .uint32) (readSingle .uint32) := by
      refine ⟨?_, fun _ _ => rfl⟩
      rw [hrun]
      refine ⟨hvalid, ?_⟩
      simp only [unreadBytes, hrest, hu, List.length_drop, List.length_cons, ScalarType.sizeof]
      omega
    refine (hsize.bind fun size => ?_).weaken (Nat.zero_le _) (Int.le_refl _)
    exact (readElements_mirrors hrv ty size.word {}).weaken (Nat.le_refl _) (by omega)

theorem readArgList_mirrors (hrv : ∀ ty, unreadBytes.Mirrors 0 bound (rv ty) (rv' ty)) :
    unreadBytes.Mirrors 1 (bound + 2) (readArgList rv) (readArgList rv') := by
  refine (extractByte_mirrors _).bind fun contained => ?_
  exact (readSized_mirrors hrv contained).weaken (Nat.le_refl _) (by omega)

theorem readSingleWithin_mirrors {fuel : ℕ} (frames : ℕ)
    (hrv : ∀ (frames : ℕ) ty, unreadBytes.Mirrors 0 ((frames : ℤ) - 3) (readValue fuel ty)
      (readValueWithin frames ty)) {t : ValType} {ty : UInt8} (hcode : ValType.ofCode ty = some t) :
    unreadBytes.Mirrors 0 (frames : ℤ) (readValue (fuel + 1) ty)
      (readSingleWithin (frames + 2) t) := by
  simp only [readValue, hcode]
  cases t with
  | scalar t => exact (readSingle_mirrors t _).bind fun v => .pure _ _
  | string =>
    have hstring := (readString_mirrors frames).bind fun v => .pure _ (.string v : Arg)
    exact hstring.weaken (Nat.zero_le _) (Int.le_refl _)
  | subObject =>
    simp only [readSingleWithin, readArgObjWithin]
    have hobj : unreadBytes.Mirrors 1 (frames : ℤ) (readArgObj (readValue fuel))
        (readArgObj (readValueWithin frames)) :=
      (readArgObj_mirrors (hrv frames)).weaken (Nat.le_refl _) (by omega)
    exact (hobj.bind fun o => .pure _ _).weaken (Nat.zero_le _) (Int.le_refl _)
  | list =>
    simp only [readSingleWithin]
    have hlist : unreadBytes.Mirrors 1 (frames : ℤ) (readArgList (readValue fuel))
        (readArgList (readValueWithin (frames + 1))) :=
      (readArgList_mirrors (hrv (frames + 1))).weaken (Nat.le_refl _) (by omega)
    exact (hlist.bind fun l => .pure _ _).weaken (Nat.zero_le _) (Int.le_refl _)

/-- A value takes at most three frames more than it has bytes: an object is
entered before the count of its entries is found to be missing. -/
theorem readValue_mirrors (fuel frames : ℕ) (ty : UInt8) :
    unreadBytes.Mirrors 0 ((frames : ℤ) - 3) (readValue fuel ty) (readValueWithin frames ty) := by
  induction fuel generalizing frames ty with
  | zero => exact fun s _ => ⟨trivial, fun hun => absurd rfl (hun s)⟩
  | succ fuel ih =>
    have hmore (more : ℕ) : unreadBytes.Mirrors 0 (more : ℤ) (readValue (fuel + 1) ty)
        (readValueWithin (more + 3) ty) := by
      cases hcode : ValType.ofCode ty with
      | none =>
        simp only [readValue, readValueWithin, hcode]
        exact fun s _ => ⟨trivial, fun _ _ => rfl⟩
      | some t =>
        simp only [readValueWithin, hcode]
        exact readSingleWithin_mirrors more ih hcode
    by_cases hfew : frames < 3
    · exact (hmore 0).of_neg (by omega)
    · have hframes : frames - 3 + 3 = frames := by omega
      have henough := hmore (frames - 3)
      rw [hframes] at henough
      exact henough.weaken (Nat.le_refl _) (by omega)

theorem readBody_mirrors (frames : ℕ) (major minor : UInt8) :
    unreadBytes.Mirrors 1 (frames : ℤ) (readBody major minor)
      (readBodyWithin frames major minor) := by
  refine (readString_mirrors frames).bind fun cmd => ?_
  intro s hs
  have hargs : unreadBytes.Mirrors 1 ((frames : ℤ) - 1) (readArgObj (readValue s.unread.length))
      (readArgObjWithin frames) := by
    cases frames with
    | zero => exact (readArgObj_mirrors (readValue_mirrors s.unread.length 0)).of_neg (by omega)
    | succ frames =>
      exact (readArgObj_mirrors (readValue_mirrors s.unread.length frames)).weaken (Nat.le_refl _)
        (by omega)
  have hfuel : depthBound s = .ok s.unread.length s := rfl
  have hbody := hargs.bind fun args => .pure _
    { protocolMajor := major, protocolMinor := minor, cmd := cmd, args := args : Message }
  unfold Gauge.Agrees
  rw [bind_of_ok hfuel]
  exact (hbody s hs).weaken (Nat.zero_le _) (by omega)

theorem ofStream_mirrors (frames : ℕ) :
    unreadBytes.Mirrors 1 (frames : ℤ) Message.ofStream (Message.ofStreamWithin frames) := by
  refine (extractByte_mirrors frames).bind fun b1 => ?_
  refine ((extractByte_mirrors _).bind fun b2 => ?_).weaken (Nat.zero_le _) (Int.le_refl _)
  split
  · refine ((extractByte_mirrors _).bind fun major => ?_).weaken (Nat.zero_le _) (Int.le_refl _)
    refine ((extractByte_mirrors _).bind fun minor => ?_).weaken (Nat.zero_le _) (Int.le_refl _)
    cases versionFault major minor with
    | some what => exact fun s _ => ⟨trivial, fun _ _ => rfl⟩
    | none => exact (readBody_mirrors frames major minor).weaken (Nat.zero_le _) (by omega)
  · exact fun s _ => ⟨trivial, fun _ _ => rfl⟩

end Frames

namespace Message

/-- The bytes that were consumed between two states of a stream. -/
def consumed (s s' : Bytestream) : ℕ := s.unread.length - s'.unread.length

theorem ofStream_unlimited {s : Bytestream} (hs : s.Valid) :
    unreadBytes.Unlimited (ofStream s) := by
  intro t
  match hu : s.unread with
  | [] =>
    obtain ⟨s', hrun⟩ := ofStream_of_nil s hs hu
    simp [hrun, unreadBytes]
  | [b1] =>
    obtain ⟨s', hrun⟩ := ofStream_of_singleton b1 s hs hu
    simp [hrun, unreadBytes]
  | b1 :: b2 :: rest =>
    obtain ⟨s2, hs2, -, hrun⟩ := ofStream_of_magic hs hu
    rw [hrun]
    split
    · match hu2 : s2.unread with
      | [] | [_] =>
        obtain ⟨s', hrun'⟩ := readVersioned_of_short hs2 (by simp [hu2])
        simp [hrun', unreadBytes]
      | major :: minor :: body =>
        obtain ⟨s4, hs4, -, hrun'⟩ := readVersioned_of_version hs2 hu2
        rw [hrun']
        cases versionFault major minor with
        | some what => simp [unreadBytes]
        | none =>
          have hbody := readBody_follows major minor s4 hs4 (Nat.lt_succ_self _)
          intro h
          simp only [h] at hbody
          exact hbody
    · simp [unreadBytes]

theorem ofStreamWithin_depth {frames : ℕ} {m : Message} {s s' : Bytestream}
    (h : ofStreamWithin frames s = .ok m s') : m.argsValue.depth ≤ frames := by
  obtain ⟨major, minor, t, hbody⟩ := ofStreamWith_eq_ok h
  obtain ⟨cmd, s1, -, hbody⟩ := bind_eq_ok.mp hbody
  obtain ⟨args, s2, hargs, hret⟩ := bind_eq_ok.mp hbody
  cases hret
  exact (readWithin_depth frames).2.2 s1 args s' hargs

/-- The decoder ends: with a frame for each unread byte it gives its result,
and never for want of frames. When it returns a message, the nesting of the
arguments and the frames it took are bounded by the bytes it consumed. -/
theorem ofStream_halts {s : Bytestream} (hs : s.Valid) :
    (∀ s', ofStream s ≠ .error .outOfFuel s') ∧
    (∀ frames, s.unread.length ≤ frames → ofStreamWithin frames s = ofStream s) ∧
    ∀ m s', ofStream s = .ok m s' → m.argsValue.depth ≤ consumed s s' ∧
      ∀ frames, consumed s s' ≤ frames → ofStreamWithin frames s = .ok m s' := by
  have hun := ofStream_unlimited hs
  have hmirrors (frames : ℕ) := (ofStream_mirrors frames s hs).2 hun
  have hreturned : ∀ m s', ofStream s = .ok m s' →
      ∀ frames, consumed s s' ≤ frames → ofStreamWithin frames s = .ok m s' := by
    intro m s' h frames hframes
    have hused : unreadBytes.used s (ofStream s) = consumed s s' := by
      rw [h]
      rfl
    rw [hmirrors frames (by omega), h]
  refine ⟨hun, ?_, fun m s' h => ⟨?_, hreturned m s' h⟩⟩
  · intro frames hframes
    apply hmirrors frames
    have hused : unreadBytes.used s (ofStream s) ≤ s.unread.length := by
      cases ofStream s with
      | ok m s' => exact Nat.sub_le _ _
      | error e s' => exact Nat.le_refl _
    omega
  · exact ofStreamWithin_depth (hreturned m s' h _ (Nat.le_refl _))

/-- A list that declares more elements than there are bytes. -/
def hungryInput : Bytes :=
  [0x2E, 0x43, 0x00, 0x01, 0x00, 0x01, 0x00, 0x41, 0x41, 0xFF, 0xFF]

theorem ofStream_halts_hungry :
    ofStreamWithin 11 (fresh hungryInput) = ofStream (fresh hungryInput) :=
  (ofStream_halts (valid_fresh hungryInput)).2.1 11 (by decide)

end Message

section Halting

/-- The fields that a field can still turn into before a byte is read. -/
def Item.weight : Item → ℕ
  | string | chars _ | object | typed | list => 1
  | value _ | size _ => 2
  | entries n | elements _ n => 3 * n + 1

def pending (st : List Item) : ℕ := (st.map Item.weight).sum

theorem pending_append (st st' : List Item) : pending (st ++ st') = pending st + pending st' := by
  simp [pending]

/-- Reading a field takes bytes, or leaves less to be read. -/
theorem demand_decreases {i : Item} {items : List Item} {bytes rest : Bytes}
    (h : i.demand bytes = .next items rest) :
    rest.length < bytes.length ∨ rest.length = bytes.length ∧ pending items < i.weight := by
  cases i with
  | string | object | typed | list =>
    cases bytes with
    | nil => cases h
    | cons b tail =>
      cases h
      exact .inl (Nat.lt_succ_self _)
  | chars n =>
    cases n with
    | zero =>
      cases h
      exact .inr ⟨rfl, by decide⟩
    | succ n =>
      cases bytes with
      | nil => cases h
      | cons b tail =>
        cases h
        exact .inl (Nat.lt_succ_self _)
  | entries n =>
    cases n with
    | zero =>
      cases h
      exact .inr ⟨rfl, by decide⟩
    | succ n =>
      cases h
      refine .inr ⟨rfl, ?_⟩
      simp only [pending, Item.weight, List.map_cons, List.map_nil, List.sum_cons, List.sum_nil]
      omega
  | value ty =>
    cases hcode : ValType.ofCode ty with
    | none =>
      simp only [Item.demand, hcode] at h
      cases h
    | some t =>
      simp only [Item.demand, hcode] at h
      cases t with
      | scalar t =>
        cases h
        have hvalue : pending [] < (Item.value ty).weight := Nat.succ_pos 1
        rw [List.length_drop]
        omega
      | string | subObject | list =>
        cases h
        exact .inr ⟨rfl, Nat.lt_succ_self 1⟩
  | size ty =>
    cases bytes with
    | nil =>
      cases h
      refine .inr ⟨rfl, ?_⟩
      rw [lengthField_nil]
      exact Nat.lt_succ_self 1
    | cons b tail =>
      cases h
      refine .inl ?_
      rw [List.length_drop, List.length_cons]
      omega
  | elements ty n =>
    cases n with
    | zero =>
      cases h
      exact .inr ⟨rfl, Nat.lt_succ_self 0⟩
    | succ n =>
      cases h
      refine .inr ⟨rfl, ?_⟩
      simp only [pending, Item.weight, List.map_cons, List.map_nil, List.sum_cons, List.sum_nil]
      omega

/-- The decoder goes on to the next field. -/
inductive Reads : List Item × Bytes → List Item × Bytes → Prop
  | next {i : Item} {st items : List Item} {bytes rest : Bytes}
      (h : i.demand bytes = .next items rest) : Reads (i :: st, bytes) (items ++ st, rest)

/-- No input, whatever lengths it declares, makes the decoder go on forever:
the unread bytes, and behind them the pending fields, get less. -/
theorem reads_wellFounded : WellFounded fun next current => Reads current next := by
  have hmeasure := InvImage.wf (fun c : List Item × Bytes => (c.2.length, pending c.1))
    (Prod.lex Nat.lt_wfRel Nat.lt_wfRel).wf
  refine Subrelation.wf ?_ hmeasure
  intro next current hread
  cases hread with
  | @next i st items bytes rest h =>
    rcases demand_decreases h with hlt | ⟨heq, hlt⟩
    · exact Prod.Lex.left _ _ hlt
    · have hpending : pending (items ++ st) < pending (i :: st) := by
        rw [pending_append]
        simp only [pending, List.map_cons, List.sum_cons] at hlt ⊢
        omega
      show Prod.Lex _ _ (rest.length, pending (items ++ st)) (bytes.length, pending (i :: st))
      rw [heq]
      exact Prod.Lex.right _ hpending

end Halting
end Dotchat
