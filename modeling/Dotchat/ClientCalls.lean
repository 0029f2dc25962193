import Dotchat.CompleteInput
import Dotchat.Converters
import Dotchat.RemoteCall
import Dotchat.Transmission

/-!
How a call of the client ends, whatever the user typed and whatever arrives.
Only the conversion of the reply is inside the `try` block of `run_boilerplate`:
the encoding of the request and the decoding of the reply are in front of it, and
their exceptions are not among those that the loops of the interface catch.
-/
namespace Dotchat

open Bytestream

/-- `tls_connection::read`, where `SSL_read` gives the bytes `got`, none if it fails -/
def TlsConnection.read (got : Bytes) : Option Bytestream :=
  if got = [] then none else some (overwrite {} got)

/-- `run_boilerplate`, where `SSL_write` returns `written` and `SSL_read` gives
`got`. A `tls_error` is `noReply`. -/
def Cli.runBoilerplate {Res : Type} (ofMessage : Message → Except Exc Res) (r : Message)
    (conn : TlsConnection) (written : ℤ) (got : Bytes) : Except CallFault Res :=
  match r.sendTo {} with
  | .error f _ => .error (.unsent f)
  | .ok () strm =>
      if (conn.send written strm).returned then
        match TlsConnection.read got with
        | none => .error .noReply
        | some strm =>
            match Message.ofStream strm with
            | .error f _ => .error (.unread f)
            | .ok resp _ => responseIn ofMessage resp
      else .error .noReply

/-- The call returns a response, or throws `cli_error` or `tls_error`. -/
def Documented {Res : Type} : Except CallFault Res → Prop
  | .ok _ | .error .nonOkay | .error .unparsable | .error .noReply => True
  | .error (.unsent _) | .error (.unread _) | .error (.thrown _) => False

section Requests

variable {req : Request}

theorem Request.nodup_keys (req : Request) : (req.values.map (·.1)).Nodup := by
  cases req <;> simp only [Request.values, List.map_cons, List.map_nil, paired] <;> decide

/-- The strings of a request stand in its message. -/
theorem Request.string_mem {v : Bytes} (h : v ∈ req.strings) :
    ∃ key, (key, Arg.string v) ∈ req.values := by
  cases req with
  | login r | newUser r =>
    simp only [Request.strings, List.mem_cons, List.not_mem_nil, or_false] at h
    rcases h with rfl | rfl
    · exact ⟨_, List.mem_cons_self⟩
    · exact ⟨_, List.mem_cons_of_mem _ List.mem_cons_self⟩
  | sendMsg r =>
    obtain rfl := List.mem_singleton.mp h
    exact ⟨_, List.mem_cons_of_mem _ (List.mem_cons_of_mem _ List.mem_cons_self)⟩
  | changePass r =>
    obtain rfl := List.mem_singleton.mp h
    exact ⟨_, List.mem_cons_of_mem _ List.mem_cons_self⟩
  | newChannel r =>
    rcases List.mem_cons.mp h with rfl | h
    · exact ⟨_, List.mem_cons_of_mem _ List.mem_cons_self⟩
    · have hdesc : r.desc = some v := Option.mem_toList.mp h
      refine ⟨ascii "desc", List.mem_cons_of_mem _ (List.mem_cons_of_mem _ ?_)⟩
      rw [hdesc]
      exact List.mem_cons_self
  | logout _ | channelList _ | channelMsg _ | channelDetails _ | userDetails _ | inviteUser _ =>
    cases h

/-- A request can be encoded exactly when its strings are short. -/
theorem Request.sendable_iff : req.toMessage.Sendable ↔ ∀ v ∈ req.strings, v.length ≤ 255 := by
  rw [req.toMessage_eq]
  have hargs : (Message.ofValues (ascii req.command) req.values).argsValue =
      .subObject (ArgObj.setAll [] req.values) := rfl
  rw [Message.Sendable, hargs, Arg.Sendable, Arg.everywhere_subObject]
  constructor
  · rintro ⟨-, -, -, hvals⟩ v hv
    obtain ⟨key, hkey⟩ := Request.string_mem hv
    exact Arg.everywhere_string.mp
      (hvals _ (ArgObj.mem_setAll_of_nodup req.nodup_keys hkey))
  · intro h
    have hkeys : ∀ key ∈ Request.keys, (ascii key).length ≤ 255 := by decide
    have hentry : ∀ e ∈ req.values, e.1.length ≤ 255 ∧ e.2.Sendable := by
      intro e he
      cases isEntry_values req e he with
      | number hkey v => exact ⟨hkeys _ hkey, .scalar _⟩
      | string hkey hv => exact ⟨hkeys _ hkey, .string (h _ hv)⟩
      | noDesc => exact ⟨by decide, .string (Nat.zero_le _)⟩
    have hmem : ∀ e ∈ ArgObj.setAll [] req.values, e ∈ req.values := fun e he =>
      (ArgObj.mem_setAll he).resolve_left List.not_mem_nil
    have hcmd := req.command_short.1
    have hcount : req.values.length ≤ 3 := by cases req <;> simp [Request.values]
    have hlen := ArgObj.length_setAll_le [] req.values
    rw [List.length_nil] at hlen
    refine ⟨Nat.le_trans hcmd (by decide), by omega, ?_, ?_⟩
    · exact fun e he => (hentry e (hmem e he)).1
    · exact fun e he => (hentry e (hmem e he)).2

end Requests

section Responses

variable {α β Res : Type}

/-- A computation that throws nothing but `proto_error`. -/
def ThrowsProto (x : Except Exc α) : Prop := ∀ e, x = .error e → ∃ what, e = .protoError what

theorem ThrowsProto.map {x : Except Exc α} (h : ThrowsProto x) (f : α → β) :
    ThrowsProto (f <$> x) := by
  intro e he
  cases x with
  | ok a => cases he
  | error e' =>
    cases he
    exact h e rfl

theorem ofMessage_throwsProto (t : Convertible) (m : Message) : ThrowsProto (t.ofMessage m) :=
  fun _ h => ofMessage_throws t m h

/-- Reading the reply throws nothing but `proto_error`. -/
theorem readResponse_throwsProto (req : Request) (m : Message) :
    ThrowsProto (req.readResponse m) := by
  cases req with
  | login _ => exact (ofMessage_throwsProto .tokenResponse m).map _
  | newChannel _ => exact (ofMessage_throwsProto .idResponse m).map _
  | channelList _ => exact (ofMessage_throwsProto .channelListResponse m).map _
  | channelMsg _ => exact (ofMessage_throwsProto .channelMsgResponse m).map _
  | channelDetails _ => exact (ofMessage_throwsProto .channelDetailsResponse m).map _
  | userDetails _ => exact (ofMessage_throwsProto .userDetailsResponse m).map _
  | logout _ | sendMsg _ | newUser _ | changePass _ | inviteUser _ =>
    exact (ofMessage_throwsProto .okayResponse m).map _

theorem documented_caught {x : Except Exc Res} (h : ThrowsProto x) : Documented (caught x) := by
  cases x with
  | ok a => exact trivial
  | error e =>
    obtain ⟨what, rfl⟩ := h e rfl
    exact trivial

/-- The `try` block lets only documented exceptions out. -/
theorem documented_responseIn {ofMessage : Message → Except Exc Res} {resp : Message}
    (h : ThrowsProto (ofMessage resp)) : Documented (responseIn ofMessage resp) := by
  unfold responseIn
  split
  · exact documented_caught h
  · have herror : Documented (caught (ErrorResponse.ofMessage resp)) :=
      documented_caught (ofMessage_throwsProto .errorResponse resp)
    generalize caught (ErrorResponse.ofMessage resp) = res at herror ⊢
    cases res with
    | ok r => exact trivial
    | error f => cases f <;> exact herror

end Responses

/-- The encoder's exception is thrown before anything is sent. -/
theorem runBoilerplate_of_not_sendable {Res : Type} (ofMessage : Message → Except Exc Res)
    {r : Message} (h : ¬ r.Sendable) : ∃ what, ∀ conn written got,
      Cli.runBoilerplate ofMessage r conn written got =
        .error (.unsent (.thrown (.messageError what))) := by
  obtain ⟨what, s, hrun⟩ := Message.sendTo_refuses h {}
  refine ⟨what, ?_⟩
  intro conn written got
  rw [Cli.runBoilerplate, hrun]

/-- A call ends as documented exactly when the strings of the request are short
and, unless the connection fails, a complete message has arrived. -/
theorem runBoilerplate_documented_iff (req : Request) (conn : TlsConnection) (written : ℤ)
    (got : Bytes) :
    Documented (Cli.runBoilerplate req.readResponse req.toMessage conn written got) ↔
      (∀ v ∈ req.strings, v.length ≤ 255) ∧
        (written < 0 ∨ got = [] ∨ Message.Complete got) := by
  rw [← Request.sendable_iff]
  by_cases hsend : req.toMessage.Sendable
  · unfold Cli.runBoilerplate
    rw [Message.sendTo_emits hsend]
    simp only [send_returned, hsend, true_and]
    split
    · rename_i hwritten
      unfold TlsConnection.read
      by_cases hgot : got = []
      · rw [if_pos hgot]
        exact iff_of_true trivial (.inr (.inl hgot))
      · rw [if_neg hgot]
        have hread := Message.ofStream_ok_iff_complete (valid_fresh got)
        rw [unread_fresh] at hread
        show Documented (match Message.ofStream (fresh got) with
          | .error f _ => .error (.unread f)
          | .ok resp _ => responseIn req.readResponse resp) ↔ _
        cases hrun : Message.ofStream (fresh got) with
        | ok resp s =>
          exact iff_of_true (documented_responseIn (readResponse_throwsProto req resp))
            (.inr (.inr (hread.mp ⟨resp, s, hrun⟩)))
        | error f s =>
          refine iff_of_false id ?_
          rintro (hneg | hnil | hcomplete)
          · omega
          · exact hgot hnil
          · obtain ⟨resp, s', hok⟩ := hread.mpr hcomplete
            rw [hrun] at hok
            cases hok
    · rename_i hwritten
      exact iff_of_true trivial (.inl (by omega))
  · obtain ⟨what, hunsent⟩ := runBoilerplate_of_not_sendable req.readResponse hsend
    rw [hunsent]
    exact iff_of_false id fun h => hsend h.1

section Link

variable {tls : Tls} {link link' : Link} {env : Env} {turns : ℕ} {w w' : World}

theorem connRead_bytes {records rest : List Bytes} {strm : Bytestream}
    (hrecords : [] ∉ records) (h : connRead records = some (strm, rest)) :
    ∃ got, TlsConnection.read got = some strm := by
  cases records with
  | nil => cases h
  | cons record more =>
    have hne : record ≠ [] := fun hnil => hrecords (hnil ▸ List.mem_cons_self)
    have htake : record.take 1023 ≠ [] := by
      intro hnil
      rcases List.take_eq_nil_iff.mp hnil with hzero | hnil
      · cases hzero
      · exact hne hnil
    cases h
    exact ⟨record.take 1023, if_neg htake⟩

/-- A turn of the server adds the records of its reply. -/
theorem callbackTurn_toClient (hrecords : ∀ raw, [] ∉ tls.records raw)
    (hlink : [] ∉ link.toClient) (h : callbackTurn tls env turns link w = (some link', w')) :
    [] ∉ link'.toClient := by
  unfold callbackTurn connSend at h
  split at h
  · cases h
  · split at h
    · cases h
    · split at h
      · cases h
      · split at h
        · split at h
          · rename_i hsend
            split at hsend
            · cases hsend
              cases h
              exact List.not_mem_append hlink (hrecords _)
            · cases hsend
          · cases h
        · cases h

/-- The call of the connected client, with what the library does in it. -/
theorem runBoilerplate_eq_call (hrecords : ∀ raw, [] ∉ tls.records raw)
    (hlink : [] ∉ link.toClient) {Res : Type} (ofMessage : Message → Except Exc Res) (r : Message)
    (conn : TlsConnection) : ∃ written got,
      (runBoilerplate tls env turns ofMessage r link w).1 =
        Cli.runBoilerplate ofMessage r conn written got := by
  unfold runBoilerplate connSend Cli.runBoilerplate
  cases hsend : r.sendTo {} with
  | error f s => exact ⟨0, [], rfl⟩
  | ok u s =>
    simp only [send_returned]
    rcases hturn : callbackTurn tls env turns
      { link with toServer := link.toServer ++ tls.records (s.data.take s.size) } w
      with ⟨_ | link', w'⟩
    · exact ⟨0, [], rfl⟩
    · simp only []
      cases hread : connRead link'.toClient with
      | none => exact ⟨0, [], rfl⟩
      | some got =>
        obtain ⟨strm, rest⟩ := got
        have hclient : [] ∉ link'.toClient := by
          refine callbackTurn_toClient hrecords ?_ hturn
          exact hlink
        obtain ⟨got, hgot⟩ := connRead_bytes hclient hread
        refine ⟨0, got, ?_⟩
        simp only [le_refl, if_true, hgot]
        cases Message.ofStream strm <;> rfl

end Link

/-- A message of 256 characters. -/
def overlongText : Request :=
  .sendMsg { token := 7, chanId := 1, msgCnt := List.replicate 256 0x61 }

theorem overlongText_not_sendable : ¬ overlongText.toMessage.Sendable := by
  intro h
  have hmem : List.replicate 256 0x61 ∈ overlongText.strings := List.mem_singleton.mpr rfl
  have hlen := Request.sendable_iff.mp h _ hmem
  rw [List.length_replicate] at hlen
  exact absurd hlen (by decide)

/-- The `message_error` of the encoder and that of the decoder escape. -/
theorem overlongText_not_documented :
    (∃ what, ∀ conn written got,
      Cli.runBoilerplate overlongText.readResponse overlongText.toMessage conn written got =
        .error (.unsent (.thrown (.messageError what)))) ∧
      (∀ conn written got, ¬ Documented
        (Cli.runBoilerplate overlongText.readResponse overlongText.toMessage conn written got)) ∧
      Cli.runBoilerplate masterRequest.readResponse masterRequest.toMessage {} 1 [0x2E, 0x44] =
        .error (.unread (.thrown
          (.messageError "Can't parse message (missing magic number)"))) := by
  obtain ⟨what, hunsent⟩ :=
    runBoilerplate_of_not_sendable overlongText.readResponse overlongText_not_sendable
  refine ⟨⟨what, hunsent⟩, ?_, rfl⟩
  intro conn written got
  rw [hunsent]
  exact id

end Dotchat
