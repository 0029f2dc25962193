import Dotchat.Invariants
import Dotchat.NormalForm

/-!
The connection between a client and the server, from the request of a client to
its response. One write to the TLS library sends the whole message; one read
takes at most 1023 bytes, and at most one record. An exception on the server
closes the connection, so that the client gets no reply; an `err` reply and an
unreadable one are exceptions of the client.
-/
namespace Dotchat

open Bytestream

section Records

/-- The pieces of `num` bytes of a buffer, the last one shorter; the first
argument bounds their number. -/
def pieces (num : ℕ) : ℕ → Bytes → List Bytes
  | 0, _ => []
  | fuel + 1, raw => if raw = [] then [] else raw.take num :: pieces num fuel (raw.drop num)

variable {num fuel : ℕ} {raw : Bytes}

theorem flatten_pieces (hnum : 0 < num) (h : raw.length ≤ fuel) :
    (pieces num fuel raw).flatten = raw := by
  induction fuel generalizing raw with
  | zero => simpa [pieces, eq_comm] using h
  | succ fuel ih =>
    rw [pieces]
    split
    · rename_i hnil
      rw [hnil]
      rfl
    · rw [List.flatten_cons, ih (by rw [List.length_drop]; omega), List.take_append_drop]

theorem length_piece_le : ∀ r ∈ pieces num fuel raw, r.length ≤ num := by
  induction fuel generalizing raw with
  | zero => simp [pieces]
  | succ fuel ih =>
    rw [pieces]
    split
    · simp
    · refine List.forall_mem_cons.mpr ⟨?_, ih⟩
      rw [List.length_take]
      exact Nat.min_le_left _ _

theorem pieces_of_le (hne : raw ≠ []) (h : raw.length ≤ num) :
    pieces num (fuel + 1) raw = [raw] := by
  rw [pieces, if_neg hne, List.take_of_length_le h, List.drop_of_length_le h]
  cases fuel <;> rfl

/-- The TLS library: the bytes of a write arrive in order, in records of at most
2^14 bytes, and a write that fits into a record is one. -/
structure Tls where
  records : Bytes → List Bytes
  flatten_records : ∀ raw, (records raw).flatten = raw
  length_record : ∀ raw, ∀ r ∈ records raw, r.length ≤ 16384
  records_of_le : ∀ raw, raw ≠ [] → raw.length ≤ 16384 → records raw = [raw]

/-- A library that fills each record before it starts the next. -/
def Tls.filling : Tls where
  records raw := pieces 16384 raw.length raw
  flatten_records _ := flatten_pieces (by decide) (Nat.le_refl _)
  length_record _ := length_piece_le
  records_of_le raw hne hlen := by
    have hpos := List.length_pos_iff.mpr hne
    obtain ⟨n, hn⟩ : ∃ n, raw.length = n + 1 := ⟨raw.length - 1, by omega⟩
    rw [hn]
    exact pieces_of_le hne hlen

end Records

/-- `SSL_read`: at most `num` bytes of the first record that has arrived. -/
def sslRead (num : ℕ) : List Bytes → Option (Bytes × List Bytes)
  | [] => none
  | r :: rest => some (r.take num, if r.length ≤ num then rest else r.drop num :: rest)

/-- The records that have been sent and not read, in each direction. -/
structure Link where
  toServer : List Bytes := []
  toClient : List Bytes := []
  deriving DecidableEq

/-- `strm << m` on a new stream, and `tls_connection::send` -/
def connSend (tls : Tls) (m : Message) (records : List Bytes) : Except Fault (List Bytes) :=
  match m.sendTo {} with
  | .ok () strm => .ok (records ++ tls.records (strm.data.take strm.size))
  | .error f _ => .error f

/-- `tls_connection::read` -/
def connRead (records : List Bytes) : Option (Bytestream × List Bytes) :=
  (sslRead 1023 records).map fun (got, rest) => (overwrite {} got, rest)

/-- One turn of the loop of `callback`. Nothing is sent when the message cannot
be read, handled or answered. -/
def callbackTurn (tls : Tls) (env : Env) (turns : ℕ) (link : Link) (w : World) :
    Option Link × World :=
  match connRead link.toServer with
  | none => (none, w)
  | some (stream, toServer) =>
      if stream.size = 0 then (none, w)
      else
        match Message.ofStream stream with
        | .error _ _ => (none, w)
        | .ok got _ =>
            match serve env turns got w with
            | (.returned res, w') =>
                match connSend tls res link.toClient with
                | .ok toClient => (some { toServer, toClient }, w')
                | .error _ => (none, w')
            | (_, w') => (none, w')

/-- What a call throws: the encoder or the decoder stops, the connection is
closed, the reply is an error, cannot be parsed, or parsing throws otherwise. -/
inductive CallFault
  | unsent (f : Fault)
  | noReply
  | unread (f : Fault)
  | nonOkay
  | unparsable
  | thrown (e : Exc)
  deriving DecidableEq

/-- `catch(const proto_error &)` of `run_boilerplate` -/
def caught {α : Type} : Except Exc α → Except CallFault α
  | .ok a => .ok a
  | .error (.protoError _) => .error .unparsable
  | .error e => .error (.thrown e)

/-- The response in a reply. -/
def responseIn {Res : Type} (ofMessage : Message → Except Exc Res) (resp : Message) :
    Except CallFault Res :=
  if resp.cmd = ascii ResponseCommands.okay then caught (ofMessage resp)
  else do
    let _ ← caught (ErrorResponse.ofMessage resp)
    .error .nonOkay

/-- `run_boilerplate`, with the turn of the server that it waits for -/
def runBoilerplate {Res : Type} (tls : Tls) (env : Env) (turns : ℕ)
    (ofMessage : Message → Except Exc Res) (r : Message) (link : Link) (w : World) :
    Except CallFault Res × Link × World :=
  match connSend tls r link.toServer with
  | .error f => (.error (.unsent f), link, w)
  | .ok toServer =>
      match callbackTurn tls env turns { link with toServer } w with
      | (none, w') => (.error .noReply, {}, w')
      | (some link', w') =>
          match connRead link'.toClient with
          | none => (.error .noReply, link', w')
          | some (strm, toClient) =>
              match Message.ofStream strm with
              | .error f _ => (.error (.unread f), { link' with toClient }, w')
              | .ok resp _ => (responseIn ofMessage resp, { link' with toClient }, w')

/-- The response type that the client expects for each request. -/
def Request.readResponse : Request → Message → Except Exc Response
  | .login _, m => Response.token <$> TokenResponse.ofMessage m
  | .newChannel _, m => Response.id <$> IdResponse.ofMessage m
  | .channelList _, m => Response.channelList <$> ChannelListResponse.ofMessage m
  | .channelMsg _, m => Response.channelMsg <$> ChannelMsgResponse.ofMessage m
  | .channelDetails _, m => Response.channelDetails <$> ChannelDetailsResponse.ofMessage m
  | .userDetails _, m => Response.userDetails <$> UserDetailsResponse.ofMessage m
  | .logout _, m | .sendMsg _, m | .newUser _, m | .changePass _, m | .inviteUser _, m =>
      Response.okay <$> OkayResponse.ofMessage m

section Delivery

variable {m : Message}

/-- A message that fits into one record is sent as that record. -/
theorem connSend_of_sendable (tls : Tls) (hm : m.Sendable) (hlen : m.wire.length ≤ 16384) :
    connSend tls m [] = .ok [m.wire] := by
  have hsent := Message.sendTo_emits hm {}
  have hdata : (({} : Bytestream).add m.wire).data = m.wire := List.nil_append _
  have hsize : (({} : Bytestream).add m.wire).size = m.wire.length := by
    rw [size_of_valid (add_valid (Nat.zero_le _) _), unread, hdata]
    rfl
  have hne : m.wire ≠ [] := List.cons_ne_nil _ _
  rw [connSend, hsent]
  simp only [hdata, hsize, List.take_length, List.nil_append, tls.records_of_le _ hne hlen]

theorem connRead_of_le {raw : Bytes} (h : raw.length ≤ 1023) :
    connRead [raw] = some (fresh raw, []) := by
  rw [connRead, sslRead, List.take_of_length_le h, if_pos h]
  rfl

theorem ofStream_fresh (hm : m.Canonical) :
    ∃ s, Message.ofStream (fresh m.wire) = .ok m.received s := by
  obtain ⟨s, hrun, -, -⟩ :=
    Message.ofStream_wire hm [] (fresh m.wire) (valid_fresh _) (List.append_nil _).symm
  exact ⟨s, hrun⟩

/-- The server receives a canonical message that fits into one read, and answers
with the record of its reply. -/
theorem callbackTurn_of_canonical (tls : Tls) {env : Env} {turns : ℕ} {w w' : World}
    {res : Message} (hm : m.Canonical) (hlen : m.wire.length ≤ 1023)
    (hserve : serve env turns m.received w = (.returned res, w')) (hres : res.Sendable)
    (hreslen : res.wire.length ≤ 16384) :
    callbackTurn tls env turns { toServer := [m.wire] } w =
      (some { toClient := [res.wire] }, w') := by
  obtain ⟨s, hread⟩ := ofStream_fresh hm
  have hsize : (fresh m.wire).size ≠ 0 := by
    rw [size_of_valid (valid_fresh _), unread_fresh]
    exact Nat.succ_ne_zero _
  rw [callbackTurn, connRead_of_le hlen]
  simp only [hsize, if_false, hread, hserve, connSend_of_sendable tls hres hreslen]

/-- A call whose request and reply both fit into one read. -/
theorem runBoilerplate_of_canonical (tls : Tls) {env : Env} {turns : ℕ} {w w' : World}
    {Res : Type} (ofMessage : Message → Except Exc Res) {res : Message} (hm : m.Canonical)
    (hlen : m.wire.length ≤ 1023)
    (hserve : serve env turns m.received w = (.returned res, w')) (hres : res.Canonical)
    (hreslen : res.wire.length ≤ 1023) :
    runBoilerplate tls env turns ofMessage m {} w =
      (responseIn ofMessage res.received, {}, w') := by
  obtain ⟨s, hread⟩ := ofStream_fresh hres
  have hturn := callbackTurn_of_canonical tls hm hlen hserve hres.sendable (by omega)
  rw [runBoilerplate, connSend_of_sendable tls hm.sendable (by omega)]
  simp only [hturn, connRead_of_le hreslen, hread]

end Delivery
end Dotchat
