import Dotchat.Values
import Mathlib.Data.List.TakeWhile

/-!
The decoder of message.cpp. Reading a value recurses into the elements of
lists and the entries of objects; the model bounds that recursion by a fuel
argument. Every nested value is read behind a byte of its container, so a fuel
above the number of unread bytes is never used up. Integers are read by
`read`, which stops silently at the end of the stream and leaves the missing
bytes zero; all other bytes are extracted one at a time.
-/
namespace Dotchat

open FaultState Bytestream

/-- The loop of `read_string`. -/
def readChars : ℕ → StreamM Bytes
  | 0 => return []
  | n + 1 => do
      let c ← extractByte
      let rest ← readChars n
      return c :: rest

/-- `{ arr.buf }`: the string that a buffer holds up to its first NUL. -/
def cString (arr : Bytes) : Bytes := arr.takeWhile (· ≠ 0)

/-- `read_string` -/
def readString : StreamM Bytes := do
  let size ← extractByte
  let arr ← readChars size.toNat
  return cString arr

/-- `reorder`: network to host order for the types that have one. -/
def reorder (t : ScalarType) (word : ℕ) : ℕ :=
  if t.requiresReorder then WordBytes.swap t.sizeof word else word

/-- The value of a type in a zero-initialized buffer that received `got`. -/
def scalarOf (t : ScalarType) (got : Bytes) : Scalar :=
  .ofWord t (reorder t (WordBytes.value (got ++ List.replicate (t.sizeof - got.length) 0)))

/-- `read_single` of a fixed-width type -/
def readSingle (t : ScalarType) : StreamM Scalar := do
  let got ← read t.sizeof
  return scalarOf t got

/-- The loop of `read_arg_obj`. -/
def readEntries (readValue : UInt8 → StreamM Arg) : ℕ → ArgObj → StreamM ArgObj
  | 0, res => return res
  | n + 1, res => do
      let key ← readString
      let ty ← extractByte
      let value ← readValue ty
      readEntries readValue n (res.set key value)

/-- `read_arg_obj` -/
def readArgObj (readValue : UInt8 → StreamM Arg) : StreamM ArgObj := do
  let count ← extractByte
  readEntries readValue count.toNat []

/-- `list.push_back(value)` inside the decoder -/
def pushed (l : ArgList) (value : Arg) : StreamM ArgList :=
  match l.pushBack value with
  | .ok l' => return l'
  | .error e => throw (.thrown e)

/-- The loop of `read_single<arg_list>`. -/
def readElements (readValue : UInt8 → StreamM Arg) (ty : UInt8) : ℕ → ArgList → StreamM ArgList
  | 0, list => return list
  | n + 1, list => do
      let value ← readValue ty
      let list ← pushed list value
      readElements readValue ty n list

/-- `read_single<arg_list>` -/
def readArgList (readValue : UInt8 → StreamM Arg) : StreamM ArgList := do
  let contained ← extractByte
  let size ← readSingle .uint32
  readElements readValue contained size.word {}

/-- `read_value`, for the type byte as it was read -/
def readValue : ℕ → UInt8 → StreamM Arg
  | 0, _ => throw .outOfFuel
  | fuel + 1, ty =>
      match ValType.ofCode ty with
      | some (.scalar t) => do return .scalar (← readSingle t)
      | some .string => do return .string (← readString)
      | some .subObject => do return .subObject (← readArgObj (readValue fuel))
      | some .list => do return (← readArgList (readValue fuel)).toArg
      | none => throw (.thrown (.messageError "Invalid type to read."))

/-- The version test of the constructor. -/
def versionFault (major minor : UInt8) : Option String :=
  if major > Message.preferredMajorVersion then
    some "Can't parse message (incompatible major version)"
  else if major = Message.preferredMajorVersion ∧ minor > Message.preferredMinorVersion then
    some "Can't parse message (incompatible minor version)"
  else none

/-- The recursion depth that the model allows: the number of unread bytes. -/
def depthBound : StreamM ℕ := fun s => .ok s.unread.length s

/-- `message(bytestream &)` behind the version -/
def readBody (major minor : UInt8) : StreamM Message := do
  let cmd ← readString
  let fuel ← depthBound
  let args ← readArgObj (readValue fuel)
  return { protocolMajor := major, protocolMinor := minor, cmd := cmd, args := args }

/-- `message(bytestream &)` -/
def Message.ofStream : StreamM Message := do
  let b1 ← extractByte
  let b2 ← extractByte
  if magicNumberMatch b1 b2 then
    let major ← extractByte
    let minor ← extractByte
    match versionFault major minor with
    | some what => throw (.thrown (.messageError what))
    | none => readBody major minor
  else throw (.thrown (.messageError "Can't parse message (missing magic number)"))

section Strings

theorem readChars_of_le {n : ℕ} {bytes : Bytes} (h : n ≤ bytes.length) :
    Runs (readChars n) bytes (.ok (bytes.take n, bytes.drop n)) := by
  induction n generalizing bytes with
  | zero => exact Runs.pure [] bytes
  | succ n ih =>
    cases bytes with
    | nil => simp at h
    | cons b rest =>
      have hrest : n ≤ rest.length := by simpa using h
      exact (extractByte_cons b rest).bind ((ih hrest).bind (Runs.pure _ _))

theorem readString_of_le {n : UInt8} {body : Bytes} (h : n.toNat ≤ body.length) :
    Runs readString (n :: body) (.ok (cString (body.take n.toNat), body.drop n.toNat)) :=
  (extractByte_cons n body).bind ((readChars_of_le h).bind (Runs.pure _ _))

theorem readSingle_runs (t : ScalarType) (bytes : Bytes) :
    Runs (readSingle t) bytes (.ok (scalarOf t (bytes.take t.sizeof), bytes.drop t.sizeof)) :=
  (read_runs t.sizeof bytes).bind (Runs.pure _ _)

theorem pushed_of_type {l : ArgList} {a : Arg} (h : l.content ≠ [] → l.contained = a.type)
    (bytes : Bytes) :
    Runs (pushed l a) bytes
      (.ok ({ contained := a.type, content := l.content ++ [a] }, bytes)) := by
  unfold pushed
  rw [ArgList.pushBack_of_type h]
  exact Runs.pure _ _

theorem depthBound_runs (bytes : Bytes) : Runs depthBound bytes (.ok (bytes.length, bytes)) := by
  intro s hs h
  exact ⟨s, by simp only [depthBound, h], h, hs⟩

theorem cString_no_nul (arr : Bytes) : 0 ∉ cString arr := by
  intro h
  simpa using List.mem_takeWhile_imp h

theorem length_cString_le (arr : Bytes) : (cString arr).length ≤ arr.length :=
  (List.takeWhile_prefix _).length_le

/-- A buffer without NUL is the string it holds. -/
theorem cString_of_no_nul {arr : Bytes} (h : 0 ∉ arr) : cString arr = arr := by
  apply List.takeWhile_eq_self_iff.mpr
  intro b hb
  simpa using fun h0 : b = 0 => h (h0 ▸ hb)

end Strings
end Dotchat
