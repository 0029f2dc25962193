import Dotchat.ClientMenus
import Dotchat.Conformance
import Dotchat.RemoteCall
import Dotchat.ReplyLimits

/-!
One exchange between a client and the server, whatever the client has typed. A
request arrives with each of its strings cut at the first NUL byte. When the
client has read all of the reply, either the server has carried the request out
and the client has its response, or the server has refused it, changed nothing,
and the client throws a `cli_error`.
-/
namespace Dotchat

open Bytestream

namespace Request

/-- The request with its strings as the decoder reads them. -/
def cut : Request → Request
  | login r => login { user := cString r.user, pass := cString r.pass }
  | sendMsg r => sendMsg { r with msgCnt := cString r.msgCnt }
  | newChannel r => newChannel { r with name := cString r.name, desc := r.desc.map cString }
  | newUser r => newUser { name := cString r.name, pass := cString r.pass }
  | changePass r => changePass { r with newPass := cString r.newPass }
  | logout r => logout r
  | channelList r => channelList r
  | channelMsg r => channelMsg r
  | channelDetails r => channelDetails r
  | userDetails r => userDetails r
  | inviteUser r => inviteUser r

/-- The request that the server handles. -/
def arrived (req : Request) : Request := req.cut.normal

/-- A response as one of the sum of the response types. -/
def wrap : (req : Request) → req.Expected → Response
  | login _ => Response.token
  | newChannel _ => Response.id
  | channelList _ => Response.channelList
  | channelMsg _ => Response.channelMsg
  | channelDetails _ => Response.channelDetails
  | userDetails _ => Response.userDetails
  | logout _ | sendMsg _ | newUser _ | changePass _ | inviteUser _ => Response.okay

end Request

section Arrival

variable {req : Request}

theorem Request.decoded_cut (req : Request) :
    Message.decoded Message.preferredMajorVersion Message.preferredMinorVersion
      req.toMessage.cmd req.toMessage.args = req.cut.toMessage := by
  cases req with
  | newChannel r =>
    obtain ⟨t, name, desc⟩ := r
    cases desc <;> rfl
  | _ => rfl

/-- Requests hold no lists. -/
theorem Request.sized (req : Request) : req.toMessage.argsValue.Sized := by
  rw [req.toMessage_eq]
  refine .subObject trivial (fun _ _ => trivial) ?_
  intro e he
  cases isEntry_values req e ((ArgObj.mem_setAll he).resolve_left List.not_mem_nil) with
  | number _ v => exact .scalar _
  | string _ _ => exact .string trivial
  | noDesc => exact .string trivial

theorem Request.wellFormed (req : Request) : req.toMessage.argsValue.WellFormed := by
  rw [req.toMessage_eq]
  refine (Message.Built.ofValues _ ?_).wellFormed
  intro e he
  cases isEntry_values req e he with
  | number _ v => exact .scalar _
  | string _ _ => exact .string _
  | noDesc => exact .string _

/-- A request that is sent arrives with its strings cut. -/
theorem Request.ofStream_fresh (hsend : req.toMessage.Sendable) :
    ∃ s, Message.ofStream (fresh req.toMessage.wire) = .ok req.cut.toMessage s := by
  have hdoc := Arg.documented_of req.wellFormed hsend.2 req.sized
  have hversion : versionFault Message.preferredMajorVersion Message.preferredMinorVersion = none :=
    rfl
  have hread := Message.ofStream_spelled hversion (toNat_ofNat_of_le hsend.1)
    (isValue_wire hdoc) []
  rw [req.decoded_cut] at hread
  have hwire : ([0x2E, 0x43, Message.preferredMajorVersion, Message.preferredMinorVersion] ++
      UInt8.ofNat req.toMessage.cmd.length :: (req.toMessage.cmd ++ req.toMessage.argsValue.wire) ++
      []) = req.toMessage.wire := by
    simp only [Message.wire, stringWire, List.cons_append, List.nil_append, List.append_nil]
  rw [hwire] at hread
  obtain ⟨s, hrun, -, -⟩ := hread (fresh req.toMessage.wire) (valid_fresh _) (unread_fresh _)
  exact ⟨s, hrun⟩

theorem Request.received_cut (req : Request) : req.cut.toMessage.received = req.cut.toMessage := by
  rw [req.cut.toMessage_eq]
  rfl

/-- The server parses what has arrived. -/
theorem Request.parses_cut (req : Request) : req.arrived.Parses req.cut.toMessage := by
  have hparse := Request.parses_received req.cut
  rwa [req.received_cut] at hparse

end Arrival

section Reading

/-- A connection on which nothing is left after a read has held one record. -/
theorem connRead_eq_last {records : List Bytes} {strm : Bytestream}
    (h : connRead records = some (strm, [])) :
    ∃ r, records = [r] ∧ r.length ≤ 1023 ∧ strm = fresh r := by
  cases records with
  | nil => cases h
  | cons r rest =>
    simp only [connRead, sslRead, Option.map_some, Option.some.injEq, Prod.mk.injEq] at h
    obtain ⟨hstrm, hrest⟩ := h
    split at hrest
    · rename_i hlen
      rw [List.take_of_length_le hlen] at hstrm
      exact ⟨r, by rw [hrest], hlen, hstrm.symm⟩
    · cases hrest

/-- So the reply is in it as a whole. -/
theorem connSend_eq_singleton (tls : Tls) {m : Message} {r : Bytes}
    (h : connSend tls m [] = .ok [r]) : m.Sendable ∧ r = m.wire := by
  unfold connSend at h
  split at h
  · rename_i strm hsent
    obtain ⟨hsendable, hstrm⟩ := Message.sendTo_eq_ok hsent
    refine ⟨hsendable, ?_⟩
    have hdata : (({} : Bytestream).add m.wire).data = m.wire := List.nil_append _
    have hsize : (({} : Bytestream).add m.wire).size = m.wire.length := by
      rw [size_of_valid (add_valid (Nat.zero_le _) _), unread, hdata]
      rfl
    rw [hstrm, hdata, hsize, List.take_length, List.nil_append, Except.ok.injEq] at h
    have hflat := tls.flatten_records m.wire
    rw [h] at hflat
    simpa using hflat
  · cases h

theorem error_canonical {reason : Bytes} (hnul : 0 ∉ reason) (hlen : reason.length ≤ 0xFF) :
    (ErrorResponse.toMessage { reason := reason }).Canonical := by
  have hwell : (ErrorResponse.toMessage { reason := reason }).argsValue.WellFormed :=
    (Message.Built.ofValues _ (by simpa [paired] using .string _)).wellFormed
  have hargs : (ErrorResponse.toMessage { reason := reason }).args =
      [(ascii "reason", .string reason)] := rfl
  refine Message.canonical_of hwell ((error_sendable_iff _).mpr hlen) ⟨?_, ?_⟩
  · show 0 ∉ ascii "err"
    decide
  · rw [Message.argsValue, hargs]
    refine .subObject trivial ?_ ?_
    · simpa using by decide
    · intro e he
      rw [List.mem_singleton.mp he]
      exact .string hnul

end Reading

/-- What an exchange comes to that leaves nothing on the connection. -/
inductive Exchanged (env : Env) (w : World) (req : Request) :
    Except CallFault req.Expected × World → Prop
  | unsent {f : Fault} : Exchanged env w req (.error (.unsent f), w)
  | answered {s : Response} {res : req.Expected} {w' : World}
      (h : Handled env w req.arrived (.returned s, w')) (hres : req.wrap res = s.normal) :
      Exchanged env w req (.ok res, w')
  | refused {what : Bytes} {w' : World}
      (h : Handled env w req.arrived (.threw (.protoError what), w')) :
      Exchanged env w req (.error .nonOkay, w')

section Exchange

variable {env : Env} {w w' : World} {req : Request} {turns : ℕ}

theorem responseIn_map {A B : Type} {f : A → B} {g : Message → Except Exc A} {m : Message} {b : B}
    (h : responseIn (fun m => f <$> g m) m = .ok b) : ∃ a, responseIn g m = .ok a ∧ f a = b := by
  unfold responseIn at h ⊢
  by_cases hcmd : m.cmd = ascii ResponseCommands.okay
  · rw [if_pos hcmd] at h ⊢
    cases hg : g m with
    | ok a =>
      simp only [hg] at h
      cases h
      exact ⟨a, rfl, rfl⟩
    | error e =>
      simp only [hg] at h
      cases e <;> cases h
  · rw [if_neg hcmd] at h
    cases hcaught : caught (ErrorResponse.ofMessage m) with
    | ok r =>
      rw [hcaught] at h
      cases h
    | error e =>
      rw [hcaught] at h
      cases h

/-- The client reads the response of the handler. -/
theorem responseIn_of_arrived {s : Response} {m : Message}
    (h : Handled env w req.arrived (.returned s, w')) (hm : s.toMessage = .ok m) :
    ∃ res, responseIn req.readExpected m.received = .ok res ∧ req.wrap res = s.normal := by
  have hread := responseIn_of_handled h hm
  have hsame : req.arrived.readResponse = fun m => req.wrap <$> req.readExpected m := by
    cases req <;> rfl
  rw [hsame] at hread
  exact responseIn_map hread

theorem responseIn_of_error {Res : Type} (ofMessage : Message → Except Exc Res) (reason : Bytes) :
    responseIn ofMessage (ErrorResponse.toMessage { reason := reason }).received =
      .error .nonOkay := by
  have hcmd : (ErrorResponse.toMessage { reason := reason }).received.cmd = ascii "err" := rfl
  rw [responseIn, hcmd, if_neg (by decide)]
  rfl

/-- The client reads what the server has replied. -/
theorem exchanged_of_reply {reply : Message} (hw : Reachable env Decoded w)
    (hserve : serve env turns req.cut.toMessage w = (.returned reply, w'))
    (hsendable : reply.Sendable) (hlen : reply.wire.length ≤ 1023) :
    ∃ s, Message.ofStream (fresh reply.wire) = .ok reply.received s ∧
      Exchanged env w req (responseIn req.readExpected reply.received, w') := by
  obtain ⟨o, v, hhandled, -, hreply⟩ := serve_of_parses env turns w req.parses_cut
  rw [hserve, Prod.mk.injEq] at hreply
  obtain ⟨hreply, rfl⟩ := hreply
  cases o with
  | returned s =>
    obtain ⟨mods, hmods⟩ := s.toMessage_eq_ok
    simp only [replyOf, hmods] at hreply
    cases hreply
    obtain ⟨res, hres, hwrap⟩ := responseIn_of_arrived hhandled hmods
    obtain ⟨strm, hread⟩ :=
      ofStream_fresh ((handled_textual hw.texts hhandled).canonical hmods hlen)
    rw [hres]
    exact ⟨strm, hread, .answered hhandled hwrap⟩
  | threw e =>
    cases e with
    | protoError what =>
      cases hreply
      obtain ⟨strm, hread⟩ :=
        ofStream_fresh (error_canonical (cString_no_nul what) ((error_sendable_iff _).mp hsendable))
      rw [responseIn_of_error]
      exact ⟨strm, hread, .refused hhandled⟩
    | _ => cases hreply
  | running => cases hreply

/-- The turn of the server in which it answers a request, if one read takes all
of the reply. -/
theorem serve_of_turn (tls : Tls) (hsend : req.toMessage.Sendable) {link : Link}
    {strm : Bytestream} (hread : connRead link.toClient = some (strm, []))
    (h : callbackTurn tls env turns { toServer := [req.toMessage.wire] } w = (some link, w')) :
    ∃ reply, serve env turns req.cut.toMessage w = (.returned reply, w') ∧ reply.Sendable ∧
      reply.wire.length ≤ 1023 ∧ strm = fresh reply.wire := by
  obtain ⟨s, harrived⟩ := Request.ofStream_fresh hsend
  have hsize : (fresh req.toMessage.wire).size ≠ 0 := by
    rw [size_of_valid (valid_fresh _), unread_fresh]
    exact Nat.succ_ne_zero _
  rw [callbackTurn, connRead_of_le (Request.length_wire_le hsend)] at h
  simp only [hsize, if_false, harrived] at h
  obtain ⟨r, hrecords, hlen, rfl⟩ := connRead_eq_last hread
  split at h
  · rename_i reply v hserve
    split at h
    · rename_i toClient hsent
      cases h
      simp only at hrecords
      rw [hrecords] at hsent
      obtain ⟨hreply, rfl⟩ := connSend_eq_singleton tls hsent
      exact ⟨reply, hserve, hreply, hlen, rfl⟩
    · cases h
  · cases h

/-- A call after which the client has read all of the reply carries the request
out, or is refused with the state unchanged, or has sent nothing. -/
theorem exchanged (tls : Tls) {res : Except CallFault req.Expected}
    (hw : Reachable env Decoded w) (hnoReply : res ≠ .error .noReply)
    (h : runBoilerplate tls env turns req.readExpected req.toMessage {} w = (res, {}, w')) :
    Exchanged env w req (res, w') ∧
      (w' = w ∨ w' = (serve env turns req.cut.toMessage w).2 ∧ Decoded req.cut.toMessage) := by
  rw [runBoilerplate] at h
  cases hsent : connSend tls req.toMessage ({} : Link).toServer with
  | error f =>
    rw [hsent] at h
    cases h
    exact ⟨.unsent, .inl rfl⟩
  | ok toServer =>
    rw [hsent] at h
    have hsend : req.toMessage.Sendable := by
      unfold connSend at hsent
      split at hsent
      · rename_i strm hstrm
        exact (Message.sendTo_eq_ok hstrm).1
      · cases hsent
    have hwire := Request.length_wire_le hsend
    rw [connSend_of_sendable tls hsend (by omega)] at hsent
    cases hsent
    simp only at h
    split at h
    · cases h
      exact absurd rfl hnoReply
    · rename_i link v hturn
      split at h
      · cases h
        exact absurd rfl hnoReply
      · rename_i strm toClient hread
        have hlast : toClient = [] := by
          split at h <;> (simp only [Prod.mk.injEq] at h; exact congrArg Link.toClient h.2.1)
        subst hlast
        obtain ⟨reply, hserve, hreply, hlen, rfl⟩ := serve_of_turn tls hsend hread hturn
        obtain ⟨s, hof, hexchanged⟩ := exchanged_of_reply hw hserve hreply hlen
        rw [hof] at h
        simp only [Prod.mk.injEq] at h
        obtain ⟨rfl, -, rfl⟩ := h
        refine ⟨hexchanged, .inr ⟨by rw [hserve], ?_⟩⟩
        obtain ⟨s', harrived⟩ := Request.ofStream_fresh hsend
        exact ⟨_, s', harrived⟩

end Exchange
end Dotchat
