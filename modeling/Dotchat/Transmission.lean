import Dotchat.Connection
import Dotchat.StreamQueue

/-!
What `tls_connection::send` hands to the TLS library, and what `read` takes from
it. The bytes are handed over from the start of the buffer, in the number of the
unread ones, which is right for streams of which nothing has been read. A read
asks for 1023 bytes, one less than its buffer was meant for.
-/
namespace Dotchat

open Bytestream

/-- `static_cast<int>` -/
def toInt (n : ℕ) : ℤ := (Int32.ofNat n).toInt

/-- The bytes from the pointer `buffer()` on. -/
def Bytestream.buffer (s : Bytestream) : Bytes := s.data

/-- What is left of a stream that was moved from: the vector is emptied, and the
offset is copied. -/
def Bytestream.movedFrom (s : Bytestream) : Bytestream := { s with data := [] }

structure TlsConnection where
  buffer : Bytestream := {}
  deriving DecidableEq

/-- The bytes of a call of `SSL_write`, whether the caller returned or threw
`tls_error`, and the connection afterwards. -/
structure Flushed where
  handed : Bytes
  returned : Bool
  conn : TlsConnection
  deriving DecidableEq

/-- The stream that was sent is left to the caller. -/
structure Transmitted extends Flushed where
  strm : Bytestream
  deriving DecidableEq

namespace TlsConnection

/-- `operator<<(end_of_msg)`, where `SSL_write` returns `result` -/
def endOfMsg (conn : TlsConnection) (result : ℤ) : Flushed where
  handed := conn.buffer.buffer.take (toInt conn.buffer.size).toNat
  returned := ¬ result < 0
  conn := if result < 0 then conn else { conn with buffer := conn.buffer.cleanse }

/-- `tls_connection::send` -/
def send (conn : TlsConnection) (result : ℤ) (strm : Bytestream) : Transmitted where
  toFlushed := { conn with buffer := strm }.endOfMsg result
  strm := strm.movedFrom

end TlsConnection

/-- The unread bytes are handed over, and failures are reported. -/
structure HandsOver (s : Bytestream) (result : ℤ) (sent : Transmitted) : Prop where
  handed : sent.handed = s.unread
  success : sent.returned = true → 0 < result

/-- Nothing is left in either stream. -/
structure Emptied (sent : Transmitted) : Prop where
  buffer : sent.conn.buffer.size = 0
  strm : sent.strm.size = 0

section Send

variable {s : Bytestream} {result : ℤ} {conn : TlsConnection}

theorem send_handed (conn : TlsConnection) (result : ℤ) (s : Bytestream) :
    (conn.send result s).handed = s.data.take (toInt s.size).toNat := rfl

theorem send_returned (conn : TlsConnection) (result : ℤ) (s : Bytestream) :
    (conn.send result s).returned = true ↔ 0 ≤ result := by
  simp [TlsConnection.send, TlsConnection.endOfMsg]

theorem send_buffer (conn : TlsConnection) (result : ℤ) (s : Bytestream) :
    (conn.send result s).conn.buffer = if result < 0 then s else {} := by
  unfold TlsConnection.send TlsConnection.endOfMsg
  split <;> rfl

theorem toInt_of_lt {n : ℕ} (h : n < 2 ^ 31) : toInt n = n := Int32.toInt_ofNat_of_lt h

theorem toInt_lt (n : ℕ) : toInt n < 2 ^ 31 := Int32.toInt_lt _

/-- The front of the buffer and the unread bytes agree, and their number is an
`int`. -/
theorem handed_eq_unread_iff (hs : s.Valid) :
    (conn.send result s).handed = s.unread ↔
      s.unread.length < 2 ^ 31 ∧ s.data.take s.unread.length = s.unread := by
  rw [send_handed, size_of_valid hs]
  have hint := toInt_lt s.unread.length
  constructor
  · intro h
    have hlen : s.unread.length ≤ (toInt s.unread.length).toNat := by
      have htake := congrArg List.length h
      rw [List.length_take] at htake
      omega
    have hlt : s.unread.length < 2 ^ 31 := by omega
    rw [toInt_of_lt hlt, Int.toNat_natCast] at h
    exact ⟨hlt, h⟩
  · rintro ⟨hlt, h⟩
    rw [toInt_of_lt hlt, Int.toNat_natCast, h]

theorem size_movedFrom_eq_zero (hs : s.Valid) (hlen : s.data.length < 2 ^ 64) :
    s.movedFrom.size = 0 ↔ s.offset = 0 := by
  have h : s.offset ≤ s.data.length := hs
  unfold size movedFrom
  simp only [List.length_nil]
  split <;> omega

theorem unread_of_offset_eq_zero (h : s.offset = 0) : s.unread = s.data := by
  rw [unread, h, List.drop_zero]

theorem handsOver_iff (hs : s.Valid) : HandsOver s result (conn.send result s) ↔
    (s.unread.length < 2 ^ 31 ∧ s.data.take s.unread.length = s.unread) ∧ result ≠ 0 := by
  have hhanded : (conn.send result s).handed = s.unread ↔
      s.unread.length < 2 ^ 31 ∧ s.data.take s.unread.length = s.unread :=
    handed_eq_unread_iff hs
  have hsuccess : ((conn.send result s).returned = true → 0 < result) ↔ result ≠ 0 := by
    rw [send_returned]
    omega
  rw [← hhanded, ← hsuccess]
  exact ⟨fun h => ⟨h.handed, h.success⟩, fun h => ⟨h.1, h.2⟩⟩

/-- The buffer is emptied when the library does not fail, the stream by the move. -/
theorem emptied_iff (hs : s.Valid) (hlen : s.data.length < 2 ^ 64) :
    Emptied (conn.send result s) ↔ (result < 0 → s.unread = []) ∧ s.offset = 0 := by
  have hbuffer : (conn.send result s).conn.buffer.size = 0 ↔ (result < 0 → s.unread = []) := by
    rw [send_buffer]
    split
    · rename_i hneg
      rw [size_of_valid hs, List.length_eq_zero_iff, imp_iff_right hneg]
    · rename_i hpos
      exact iff_of_true rfl fun hneg => absurd hneg hpos
  -- the size of the emptied vector, 0 - offset, wraps around in 64 bits
  rw [← hbuffer, ← size_movedFrom_eq_zero hs hlen]
  exact ⟨fun h => ⟨h.buffer, h.strm⟩, fun h => ⟨h.1, h.2⟩⟩

end Send

/-- On every exit: the unread bytes are handed over, failures are reported and
both streams are left empty exactly when nothing had been read from the stream,
its length is an `int`, and the library reports success, or fails to send nothing.
If an exception may leave the streams as they are: exactly when the result is not
0 and the unread bytes stand in front of the buffer, at offset 0 unless the
library fails. -/
theorem send_transmits_iff {s : Bytestream} (hs : s.Reached) (hlen : s.data.length < 2 ^ 64)
    (conn : TlsConnection) (result : ℤ) :
    (HandsOver s result (conn.send result s) ∧ Emptied (conn.send result s) ↔
      s.offset = 0 ∧ s.data.length < 2 ^ 31 ∧ (0 < result ∨ result < 0 ∧ s.data = [])) ∧
    (HandsOver s result (conn.send result s) ∧
        ((conn.send result s).returned = true → Emptied (conn.send result s)) ↔
      result ≠ 0 ∧ (s.unread.length < 2 ^ 31 ∧ s.data.take s.unread.length = s.unread) ∧
        (0 < result → s.offset = 0)) := by
  rw [handsOver_iff hs.valid, emptied_iff hs.valid hlen]
  constructor
  · constructor
    · rintro ⟨⟨⟨hlt, -⟩, hne⟩, hnil, hoffset⟩
      rw [unread_of_offset_eq_zero hoffset] at hlt hnil
      refine ⟨hoffset, hlt, ?_⟩
      by_cases hneg : result < 0
      · exact .inr ⟨hneg, hnil hneg⟩
      · exact .inl (by omega)
    · rintro ⟨hoffset, hlt, hresult⟩
      rw [unread_of_offset_eq_zero hoffset]
      refine ⟨⟨⟨hlt, List.take_length⟩, by omega⟩, ?_, hoffset⟩
      intro hneg
      rcases hresult with hpos | ⟨-, hnil⟩
      · omega
      · exact hnil
  · rw [send_returned]
    constructor
    · rintro ⟨⟨hfront, hne⟩, hreturned⟩
      exact ⟨hne, hfront, fun hpos => (hreturned (by omega)).2⟩
    · rintro ⟨hne, hfront, hoffset⟩
      refine ⟨⟨hfront, hne⟩, fun hreturned => ⟨by omega, hoffset (by omega)⟩⟩

/-- A stream of four bytes of which two have been read. -/
def halfRead : Bytestream := { offset := 2, data := [0x61, 0x62, 0x63, 0x64] }

theorem halfRead_reached : halfRead.Reached := reached_of_valid (by decide)

/-- The two bytes that were read already are sent, and the stream is left with a
size that has wrapped around. -/
theorem halfRead_not_transmitted :
    halfRead.Reached ∧ halfRead.unread = [0x63, 0x64] ∧
      (TlsConnection.send {} 2 halfRead).handed = [0x61, 0x62] ∧
      (TlsConnection.send {} 2 halfRead).strm.size = 2 ^ 64 - 2 ∧
      ¬ (HandsOver halfRead 2 (TlsConnection.send {} 2 halfRead) ∧
        Emptied (TlsConnection.send {} 2 halfRead)) := by
  refine ⟨halfRead_reached, rfl, by decide, by decide, ?_⟩
  rintro ⟨hover, -⟩
  exact absurd hover.handed (by decide)

theorem send_transmits_iff_halfRead :
    (HandsOver halfRead 2 (TlsConnection.send {} 2 halfRead) ∧
        Emptied (TlsConnection.send {} 2 halfRead) ↔
      halfRead.offset = 0 ∧ halfRead.data.length < 2 ^ 31 ∧
        ((0 : ℤ) < 2 ∨ (2 : ℤ) < 0 ∧ halfRead.data = [])) ∧
    (HandsOver halfRead 2 (TlsConnection.send {} 2 halfRead) ∧
        ((TlsConnection.send {} 2 halfRead).returned = true →
          Emptied (TlsConnection.send {} 2 halfRead)) ↔
      (2 : ℤ) ≠ 0 ∧ (halfRead.unread.length < 2 ^ 31 ∧
          halfRead.data.take halfRead.unread.length = halfRead.unread) ∧
        ((0 : ℤ) < 2 → halfRead.offset = 0)) :=
  send_transmits_iff halfRead_reached (by decide) {} 2

section Limit

variable {tls : Tls} {m : Message} {strm : Bytestream} {result : ℤ} {conn : TlsConnection}

/-- A stream that a message was written to holds its encoding and nothing else. -/
theorem fresh_of_sendTo (h : m.sendTo {} = .ok () strm) : strm = fresh m.wire := by
  obtain ⟨-, rfl⟩ := Message.sendTo_eq_ok h
  rfl

theorem send_fresh_handed {raw : Bytes} (h : raw.length < 2 ^ 31) :
    (conn.send result (fresh raw)).handed = raw := by
  rw [handed_eq_unread_iff (valid_fresh raw) |>.mpr ⟨h, List.take_length⟩]
  rfl

/-- `connSend` writes to the library what `send` hands over. -/
theorem connSend_eq_send (tls : Tls) (conn : TlsConnection) (result : ℤ)
    (h : m.sendTo {} = .ok () strm) (hlen : strm.size < 2 ^ 31) (records : List Bytes) :
    connSend tls m records = .ok (records ++ tls.records (conn.send result strm).handed) := by
  have hfresh := fresh_of_sendTo h
  have hsize : strm.size = m.wire.length := by
    rw [hfresh]
    exact size_of_valid (valid_fresh _)
  rw [connSend, h]
  simp only []
  rw [hsize] at hlen ⊢
  rw [hfresh, send_fresh_handed hlen, fresh, List.take_length]

theorem connRead_of_record (raw : Bytes) :
    ∃ rest, connRead [raw] = some (fresh (raw.take 1023), rest) := ⟨_, rfl⟩

end Limit

/-- Of the messages within the documented limit, the next read gets the complete
encoding exactly for those that are shorter than the limit. -/
theorem read_complete_iff (tls : Tls) (conn : TlsConnection) (result : ℤ) {m : Message}
    {strm : Bytestream} (hsend : m.sendTo {} = .ok () strm) (hlen : strm.size ≤ 1024) :
    (∃ got rest, connRead (tls.records (conn.send result strm).handed) = some (got, rest) ∧
      got.unread = strm.unread ∧ Message.ofStream got = Message.ofStream strm) ↔
      strm.size ≠ 1024 := by
  have hfresh := fresh_of_sendTo hsend
  subst hfresh
  rw [size_of_valid (valid_fresh _), unread_fresh] at hlen ⊢
  have hne : m.wire ≠ [] := List.cons_ne_nil _ _
  rw [send_fresh_handed (by omega), tls.records_of_le _ hne (by omega)]
  obtain ⟨left, hread⟩ := connRead_of_record m.wire
  rw [hread]
  constructor
  · rintro ⟨got, rest, hgot, hunread, -⟩
    cases hgot
    have htake := congrArg List.length hunread
    rw [unread_fresh, List.length_take] at htake
    omega
  · intro hshort
    rw [List.take_of_length_le (by omega)]
    exact ⟨_, _, rfl, rfl, rfl⟩

/-- A message of four strings whose encoding has 1024 bytes. -/
def boundaryMessage : Message :=
  .ofValues (ascii "x") [(ascii "a", .string (List.replicate 255 0x61)),
    (ascii "b", .string (List.replicate 255 0x61)), (ascii "c", .string (List.replicate 255 0x61)),
    (ascii "d", .string (List.replicate 236 0x61))]

theorem boundaryMessage_sent :
    boundaryMessage.sendTo {} = .ok () (fresh boundaryMessage.wire) := by decide +kernel

theorem size_boundaryMessage : (fresh boundaryMessage.wire).size = 1024 := by decide +kernel

/-- The message is within the documented limit, and its last byte is not read. -/
theorem boundaryMessage_not_complete :
    boundaryMessage.sendTo {} = .ok () (fresh boundaryMessage.wire) ∧
      (fresh boundaryMessage.wire).size ≤ 1024 ∧
      ¬ ∃ got rest, connRead (Tls.filling.records
          (TlsConnection.send {} 1024 (fresh boundaryMessage.wire)).handed) = some (got, rest) ∧
        got.unread = (fresh boundaryMessage.wire).unread ∧
        Message.ofStream got = Message.ofStream (fresh boundaryMessage.wire) := by
  refine ⟨boundaryMessage_sent, Nat.le_of_eq size_boundaryMessage, ?_⟩
  rintro ⟨got, rest, hread, hunread, -⟩
  have hlen : ((connRead (Tls.filling.records
      (TlsConnection.send {} 1024 (fresh boundaryMessage.wire)).handed)).map
        fun r => r.1.unread.length) = some 1023 := by decide +kernel
  rw [hread, Option.map_some, hunread, unread_fresh] at hlen
  have hsize := size_boundaryMessage
  rw [size_of_valid (valid_fresh _), unread_fresh] at hsize
  rw [hsize] at hlen
  cases hlen

theorem read_complete_iff_boundaryMessage :
    (∃ got rest, connRead (Tls.filling.records
        (TlsConnection.send {} 1024 (fresh boundaryMessage.wire)).handed) = some (got, rest) ∧
      got.unread = (fresh boundaryMessage.wire).unread ∧
      Message.ofStream got = Message.ofStream (fresh boundaryMessage.wire)) ↔
      (fresh boundaryMessage.wire).size ≠ 1024 :=
  read_complete_iff Tls.filling {} 1024 boundaryMessage_sent (Nat.le_of_eq size_boundaryMessage)

end Dotchat
