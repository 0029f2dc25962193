import Dotchat.Bytestream
import Dotchat.Library.Simulation

/-!
The byte stream as a first-in-first-out queue of bytes. A caller performs any
sequence of the operations of the stream, and extracts a value only when there
are enough bytes left. The queue has neither an offset nor a threshold at which
it is compacted; the stream is shown to simulate it.
-/
namespace Dotchat

open Bytestream

/-- The operations of a stream; of a value that is added or extracted only the
raw bytes and their number matter. -/
inductive StreamOp
  | add (raw : Bytes)
  | write (span : Bytes)
  | overwrite (span : Bytes)
  | extract (sizeof : ℕ)
  | read (length : ℕ)
  | sanitize
  | cleanse
  | size
  deriving DecidableEq

/-- What a caller sees of an operation. -/
inductive Observation
  | nothing
  | value (raw : Bytes)
  | filled (count : ℕ) (bytes : Bytes)
  | bytesLeft (count : ℕ)
  deriving DecidableEq

namespace StreamOp

/-- The operation on a stream. -/
def perform : StreamOp → StreamM Observation
  | add raw => do
      modify fun s => s.add raw
      return .nothing
  | write span => do
      modify fun s => s.write span
      return .nothing
  | overwrite span => do
      modify fun s => s.overwrite span
      return .nothing
  | extract sizeof => do
      let raw ← Bytestream.extract sizeof
      return .value raw
  | read length => do
      let got ← Bytestream.read length
      return .filled got.length got
  | sanitize => do
      modify Bytestream.sanitize
      return .nothing
  | cleanse => do
      modify Bytestream.cleanse
      return .nothing
  | size => do
      let s ← get
      return .bytesLeft s.size

/-- A value is extracted only if its bytes are there. -/
def Allowed : StreamOp → Bytestream → Prop
  | extract sizeof, s => sizeof ≤ s.size
  | _, _ => True

/-- The operation on a plain queue of bytes. -/
def onQueue : StreamOp → StateM Bytes Observation
  | add raw, q => (.nothing, q ++ raw)
  | write span, q => (.nothing, q ++ span)
  | overwrite span, _ => (.nothing, span)
  | extract sizeof, q => (.value (q.take sizeof), q.drop sizeof)
  | read length, q => (.filled (min length q.length) (q.take length), q.drop length)
  | sanitize, q => (.nothing, q)
  | cleanse, _ => (.nothing, [])
  | size, q => (.bytesLeft q.length, q)

/-- The bytes that an operation appends. -/
def appended : StreamOp → Bytes
  | add raw => raw
  | write span => span
  | _ => []

/-- Operations that throw the contents away. -/
def Discards : StreamOp → Prop
  | overwrite _ | cleanse => True
  | _ => False

end StreamOp

/-- The bytes that a caller has got. -/
def Observation.taken : Observation → Bytes
  | value raw => raw
  | filled _ bytes => bytes
  | _ => []

/-- The stream is valid and the queue holds its unread bytes. -/
def HoldsUnread (s : Bytestream) (q : Bytes) : Prop := s.Valid ∧ s.unread = q

section Refinement

variable {s : Bytestream} {q : Bytes} {ops : List StreamOp}

theorem holdsUnread_write (h : HoldsUnread s q) (span : Bytes) :
    HoldsUnread (s.write span) (q ++ span) :=
  ⟨add_valid h.1 span, by rw [← h.2]; exact unread_add h.1 span⟩

theorem holdsUnread_fresh (bytes : Bytes) : HoldsUnread (fresh bytes) bytes :=
  ⟨valid_fresh bytes, rfl⟩

/-- One operation. -/
theorem perform_simulates :
    Simulation.Simulates HoldsUnread StreamOp.perform StreamOp.Allowed StreamOp.onQueue := by
  intro op s q h hallowed
  cases op with
  | add span | write span => exact ⟨_, rfl, holdsUnread_write h span⟩
  | overwrite span => exact ⟨_, rfl, holdsUnread_fresh span⟩
  | extract sizeof =>
    obtain ⟨hs, rfl⟩ := h
    have hle : sizeof ≤ s.unread.length := by
      rw [← size_of_valid hs]
      exact hallowed
    obtain ⟨s', hrun⟩ := extract_of_le hs hle
    obtain ⟨-, -, hrest, hs'⟩ := extract_eq_ok hrun
    exact ⟨s', FaultState.bind_of_ok hrun, hs', hrest⟩
  | read length =>
    obtain ⟨hs, rfl⟩ := h
    obtain ⟨s', hrun, hrest, hs'⟩ := read_eq length s
    refine ⟨s', ?_, hs' hs, hrest⟩
    rw [StreamOp.perform, FaultState.bind_of_ok hrun, List.length_take]
    rfl
  | sanitize => exact ⟨_, rfl, sanitize_valid s, (unread_sanitize s).trans h.2⟩
  | cleanse => exact ⟨_, rfl, holdsUnread_fresh []⟩
  | size =>
    obtain ⟨hs, rfl⟩ := h
    refine ⟨s, ?_, hs, rfl⟩
    show EStateM.Result.ok (Observation.bytesLeft s.size) s = _
    rw [size_of_valid hs]
    rfl

/-- Bytes leave a queue in the order in which they were appended, each once. -/
theorem queue_conserves (h : ∀ op ∈ ops, ¬ op.Discards) (q : Bytes) :
    ((ops.mapM StreamOp.onQueue q).1.flatMap Observation.taken) ++
      (ops.mapM StreamOp.onQueue q).2 = q ++ ops.flatMap StreamOp.appended := by
  induction ops generalizing q with
  | nil => rw [Simulation.spec_mapM_nil, List.flatMap_nil, List.flatMap_nil, List.append_nil]; rfl
  | cons op ops ih =>
    obtain ⟨hop, hops⟩ := List.forall_mem_cons.mp h
    have hstep : (op.onQueue q).1.taken ++ (op.onQueue q).2 = q ++ op.appended := by
      cases op with
      | overwrite _ | cleanse => exact absurd trivial hop
      | add _ | write _ | sanitize | size => simp [StreamOp.onQueue, StreamOp.appended,
          Observation.taken]
      | extract n | read n => simp [StreamOp.onQueue, StreamOp.appended, Observation.taken]
    rw [Simulation.spec_mapM_cons, List.flatMap_cons, List.flatMap_cons, List.append_assoc,
      ih hops, ← List.append_assoc, hstep, List.append_assoc]

end Refinement

open Simulation (Disciplined)

/-- The streams that the operations reach from an empty one. -/
def Bytestream.Reached (s : Bytestream) : Prop :=
  ∃ ops obs, Disciplined StreamOp.perform StreamOp.Allowed ops {} ∧
    ops.mapM StreamOp.perform {} = .ok obs s

section Reached

variable {s : Bytestream}

theorem Bytestream.Reached.valid (h : s.Reached) : s.Valid := by
  obtain ⟨ops, obs, hops, hrun⟩ := h
  obtain ⟨s', hrun', hs'⟩ := perform_simulates.run (holdsUnread_fresh []) hops
  rw [show (fresh [] : Bytestream) = {} from rfl, hrun] at hrun'
  cases hrun'
  exact hs'.1

/-- Any offset inside the buffer is reached by reading. -/
theorem reached_of_valid (hs : s.Valid) : s.Reached := by
  have h : s.offset ≤ s.data.length := hs
  have hwrite : StreamOp.perform (.write s.data) {} = .ok .nothing ⟨0, s.data⟩ := rfl
  have hread : StreamOp.perform (.read s.offset) ⟨0, s.data⟩ =
      .ok (.filled s.offset (s.data.take s.offset)) s := by
    show EStateM.Result.ok _ _ = _
    rw [List.drop_zero, List.length_take, Nat.min_eq_left h, Nat.zero_add]
  refine ⟨[.write s.data, .read s.offset], [.nothing, .filled s.offset (s.data.take s.offset)],
    ?_, ?_⟩
  · apply Simulation.disciplined_cons_of_ok trivial hwrite
    exact Simulation.disciplined_cons_of_ok trivial hread trivial
  · exact Simulation.mapM_cons_of_ok hwrite (Simulation.mapM_cons_of_ok hread rfl)

end Reached

/-- At every moment of a disciplined run the stream has shown what the plain queue
shows and holds what the queue holds, with the offset inside the buffer; bytes
that were not discarded were taken once, in order, or are still unread. -/
theorem stream_refines_queue {ops : List StreamOp}
    (h : Disciplined StreamOp.perform StreamOp.Allowed ops {}) :
    ∀ done rest, ops = done ++ rest →
      ∃ s, done.mapM StreamOp.perform {} = .ok (done.mapM StreamOp.onQueue []).1 s ∧
        s.offset ≤ s.data.length ∧ s.unread = (done.mapM StreamOp.onQueue []).2 ∧
        s.size = s.unread.length ∧
        ((∀ op ∈ done, ¬ op.Discards) →
          (done.mapM StreamOp.onQueue []).1.flatMap Observation.taken ++ s.unread =
            done.flatMap StreamOp.appended) := by
  intro done rest hsplit
  subst hsplit
  obtain ⟨s, hrun, hs, hunread⟩ := perform_simulates.run (holdsUnread_fresh []) h.of_append
  refine ⟨s, hrun, hs, hunread, size_of_valid hs, ?_⟩
  intro hkeep
  rw [hunread, queue_conserves hkeep, List.nil_append]

/-- 104 bytes are written, and 100 of them read; the value that is extracted then
makes the stream drop its first 102 bytes. -/
def pastThreshold : List StreamOp :=
  [.write (List.replicate 104 0x61), .read 100, .extract 2, .size]

theorem pastThreshold_disciplined :
    Disciplined StreamOp.perform StreamOp.Allowed pastThreshold {} := by
  have hwrite : StreamOp.perform (.write (List.replicate 104 0x61)) {} =
      .ok .nothing (fresh (List.replicate 104 0x61)) := rfl
  have hread : StreamOp.perform (.read 100) (fresh (List.replicate 104 0x61)) =
      .ok (.filled 100 (List.replicate 100 0x61)) ⟨100, List.replicate 104 0x61⟩ := rfl
  have hextract : StreamOp.perform (.extract 2) ⟨100, List.replicate 104 0x61⟩ =
      .ok (.value [0x61, 0x61]) (fresh [0x61, 0x61]) := rfl
  have hroom : StreamOp.Allowed (.extract 2) ⟨100, List.replicate 104 0x61⟩ := by
    show 2 ≤ Bytestream.size ⟨100, List.replicate 104 0x61⟩
    decide
  apply Simulation.disciplined_cons_of_ok trivial hwrite
  apply Simulation.disciplined_cons_of_ok trivial hread
  apply Simulation.disciplined_cons_of_ok hroom hextract
  exact Simulation.disciplined_cons_of_ok trivial rfl trivial

theorem stream_refines_queue_pastThreshold :
    ∃ s, pastThreshold.mapM StreamOp.perform {} =
        .ok (pastThreshold.mapM StreamOp.onQueue []).1 s ∧
      s.offset ≤ s.data.length ∧ s.unread = (pastThreshold.mapM StreamOp.onQueue []).2 ∧
      s.size = s.unread.length := by
  obtain ⟨s, hrun, hoffset, hunread, hsize, -⟩ :=
    stream_refines_queue pastThreshold_disciplined pastThreshold [] (List.append_nil _).symm
  exact ⟨s, hrun, hoffset, hunread, hsize⟩

end Dotchat
