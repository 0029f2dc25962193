import Dotchat.Library.FaultState
import Mathlib.Algebra.Group.Nat.Defs
import Mathlib.Data.List.Basic
import Mathlib.Tactic.Common

/-!
The byte stream of tls_bytestream.hpp: a growing buffer and the offset of the
next byte to read. Single values are extracted without a check of the size,
so indexing past the buffered bytes is a fault of the model; buffers are read
up to the end of the stream. Extraction drops the consumed bytes once the
offset has passed 100. What a reader can observe is `unread`, the bytes from
the offset on.
-/
namespace Dotchat

abbrev Bytes := List UInt8

/-- The exceptions of the program. The texts of a `proto_error` can hold bytes
of a peer; those of a `message_error` are literals. -/
inductive Exc
  | messageError (what : String)
  | protoError (what : Bytes)
  | badAnyCast
  | badOptionalAccess
  | systemError
  deriving DecidableEq, Repr

/-- What stops a computation on a stream: an exception, an access past the end
of the buffered bytes, or the model's bound on the recursion depth. -/
inductive Fault
  | thrown (e : Exc)
  | outOfBounds
  | outOfFuel
  deriving DecidableEq, Repr

structure Bytestream where
  offset : ℕ := 0
  data : Bytes := []
  deriving DecidableEq, Repr

/-- A computation that reads or writes the stream it is given. -/
abbrev StreamM := EStateM Fault Bytestream

namespace Bytestream

/-- The bytes left to be read. -/
def unread (s : Bytestream) : Bytes := s.data.drop s.offset

/-- The offset is inside the buffer. -/
def Valid (s : Bytestream) : Prop := s.offset ≤ s.data.length

instance (s : Bytestream) : Decidable s.Valid := inferInstanceAs (Decidable (_ ≤ _))

/-- `data.size() - offset` in `size_t`, which wraps around when the offset is
past the end. -/
def size (s : Bytestream) : ℕ :=
  if s.offset ≤ s.data.length then s.data.length - s.offset
  else 2 ^ 64 + s.data.length - s.offset

/-- Append the raw bytes of a value. -/
def add (s : Bytestream) (raw : Bytes) : Bytestream := { s with data := s.data ++ raw }

def sanitize (s : Bytestream) : Bytestream := { offset := 0, data := s.data.drop s.offset }

def write (s : Bytestream) (span : Bytes) : Bytestream := { s with data := s.data ++ span }

def cleanse (_ : Bytestream) : Bytestream := { offset := 0, data := [] }

def overwrite (s : Bytestream) (span : Bytes) : Bytestream := s.cleanse.write span

/-- The raw bytes of a value of the given size. -/
def extract (sizeof : ℕ) : StreamM Bytes := fun s =>
  if s.offset + sizeof ≤ s.data.length then
    let moved := { s with offset := s.offset + sizeof }
    .ok ((s.data.drop s.offset).take sizeof)
      (if moved.offset > 100 then moved.sanitize else moved)
  else .error .outOfBounds s

/-- `stream >> b` for a value of one byte. -/
def extractByte : StreamM UInt8 := do
  let raw ← extract 1
  return raw.headD 0

/-- Fill a buffer of `length` bytes until it is full or the stream ends. -/
def read (length : ℕ) : StreamM Bytes := fun s =>
  let got := (s.data.drop s.offset).take length
  .ok got { s with offset := s.offset + got.length }

/-- A stream that holds the given bytes and of which nothing has been read. -/
def fresh (bytes : Bytes) : Bytestream := { offset := 0, data := bytes }

section Unread

@[simp] theorem unread_fresh (bytes : Bytes) : (fresh bytes).unread = bytes := rfl

theorem valid_fresh (bytes : Bytes) : (fresh bytes).Valid := Nat.zero_le _

theorem unread_add {s : Bytestream} (hs : s.Valid) (raw : Bytes) :
    (s.add raw).unread = s.unread ++ raw :=
  List.drop_append_of_le_length hs

theorem add_valid {s : Bytestream} (hs : s.Valid) (raw : Bytes) : (s.add raw).Valid := by
  have h : s.offset ≤ s.data.length := hs
  simp only [Valid, add, List.length_append]
  omega

@[simp] theorem add_add (s : Bytestream) (first second : Bytes) :
    (s.add first).add second = s.add (first ++ second) := by
  simp [add]

@[simp] theorem add_nil (s : Bytestream) : s.add [] = s := by
  simp [add]

theorem size_of_valid {s : Bytestream} (hs : s.Valid) : s.size = s.unread.length := by
  have h : s.offset ≤ s.data.length := hs
  simp only [size, if_pos h, unread, List.length_drop]

/-- Sanitizing is not observable by a reader. -/
theorem unread_sanitize (s : Bytestream) : s.sanitize.unread = s.unread := by
  simp [sanitize, unread]

theorem sanitize_valid (s : Bytestream) : s.sanitize.Valid := Nat.zero_le _

end Unread

section Extract

theorem extract_eq_ok {n : ℕ} {s s' : Bytestream} {raw : Bytes}
    (h : extract n s = .ok raw s') :
    n ≤ s.unread.length ∧ raw = s.unread.take n ∧ s'.unread = s.unread.drop n ∧ s'.Valid := by
  unfold extract at h
  split at h
  · rename_i hroom
    simp only [EStateM.Result.ok.injEq] at h
    obtain ⟨rfl, rfl⟩ := h
    refine ⟨by simp only [unread, List.length_drop]; omega, rfl, ?_, ?_⟩
    · split
      · rw [unread_sanitize]
        simp [unread, List.drop_drop]
      · simp [unread, List.drop_drop]
    · split
      · exact sanitize_valid _
      · exact hroom
  · cases h

theorem extract_of_le {n : ℕ} {s : Bytestream} (hs : s.Valid) (h : n ≤ s.unread.length) :
    ∃ s', extract n s = .ok (s.unread.take n) s' := by
  have hv : s.offset ≤ s.data.length := hs
  have hroom : s.offset + n ≤ s.data.length := by
    simp only [unread, List.length_drop] at h
    omega
  simp only [extract, if_pos hroom]
  exact ⟨_, rfl⟩

theorem extract_of_lt {n : ℕ} {s : Bytestream} (h : s.unread.length < n) :
    extract n s = .error .outOfBounds s := by
  have hroom : ¬ s.offset + n ≤ s.data.length := by
    simp only [unread, List.length_drop] at h
    omega
  simp only [extract, if_neg hroom]

theorem read_eq (n : ℕ) (s : Bytestream) :
    ∃ s', read n s = .ok (s.unread.take n) s' ∧ s'.unread = s.unread.drop n ∧
      (s.Valid → s'.Valid) := by
  refine ⟨_, rfl, ?_, ?_⟩
  · simp only [unread, List.drop_drop, List.length_take, List.length_drop]
    rcases Nat.le_total n (s.data.length - s.offset) with h | h
    · rw [Nat.min_eq_left h]
    · rw [Nat.min_eq_right h, List.drop_eq_nil_of_le (by omega), List.drop_eq_nil_of_le (by omega)]
  · intro hs
    have h : s.offset ≤ s.data.length := hs
    simp only [Valid, List.length_take, List.length_drop]
    omega

end Extract

section Queue

variable {α β : Type}

/-- A reader seen as a function of the unread bytes alone: on every valid
stream that has them, it yields the value and leaves the rest, or faults. The
offset and the moments at which the buffer is compacted do not matter. -/
def Runs (p : StreamM α) (bytes : Bytes) : Except Fault (α × Bytes) → Prop
  | .ok (a, rest) => ∀ s, s.Valid → s.unread = bytes →
      ∃ s', p s = .ok a s' ∧ s'.unread = rest ∧ s'.Valid
  | .error e => ∀ s, s.Valid → s.unread = bytes → ∃ s', p s = .error e s'

theorem Runs.pure (a : α) (bytes : Bytes) : Runs (Pure.pure a) bytes (.ok (a, bytes)) :=
  fun s hs h => ⟨s, rfl, h, hs⟩

theorem Runs.bind {p : StreamM α} {f : α → StreamM β} {bytes rest : Bytes} {a : α}
    {r : Except Fault (β × Bytes)} (hp : Runs p bytes (.ok (a, rest)))
    (hf : Runs (f a) rest r) : Runs (p >>= f) bytes r := by
  cases r with
  | ok out =>
    intro s hs hu
    obtain ⟨s', hrun, hrest, hvalid⟩ := hp s hs hu
    rw [FaultState.bind_of_ok hrun]
    exact hf s' hvalid hrest
  | error e =>
    intro s hs hu
    obtain ⟨s', hrun, hrest, hvalid⟩ := hp s hs hu
    rw [FaultState.bind_of_ok hrun]
    exact hf s' hvalid hrest

theorem Runs.bind_error {p : StreamM α} {f : α → StreamM β} {bytes : Bytes} {e : Fault}
    (hp : Runs p bytes (.error e)) : Runs (p >>= f) bytes (.error e) := by
  intro s hs hu
  obtain ⟨s', hrun⟩ := hp s hs hu
  exact ⟨s', FaultState.bind_of_error hrun⟩

/-- A stream with an unread byte yields it. -/
theorem extractByte_cons (b : UInt8) (rest : Bytes) :
    Runs extractByte (b :: rest) (.ok (b, rest)) := by
  intro s hs h
  obtain ⟨s', hext⟩ := extract_of_le (n := 1) hs (by simp [h])
  obtain ⟨-, -, hrest, hvalid⟩ := extract_eq_ok hext
  refine ⟨s', ?_, by simpa [h] using hrest, hvalid⟩
  rw [extractByte, FaultState.bind_of_ok hext]
  simp [h]

/-- An exhausted stream is indexed past its end. -/
theorem extractByte_nil : Runs extractByte [] (.error .outOfBounds) :=
  fun s _ h => ⟨s, FaultState.bind_of_error (extract_of_lt (by simp [h]))⟩

theorem read_runs (n : ℕ) (bytes : Bytes) :
    Runs (read n) bytes (.ok (bytes.take n, bytes.drop n)) := by
  intro s hs h
  obtain ⟨s', hread, hrest, hvalid⟩ := read_eq n s
  exact ⟨s', by rw [hread, h], by rw [hrest, h], hvalid hs⟩

end Queue

end Bytestream
end Dotchat
