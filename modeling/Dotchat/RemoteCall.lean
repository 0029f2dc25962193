import Dotchat.Connection
import Dotchat.Texts

/-!
Remote calls end to end. A request within the limits of the format always fits
into one read. Its reply need not: the client reads at most 1023 bytes of it,
so that a call is faithful when the reply is no longer than that, and a channel
with a few long messages cannot be read.
-/
namespace Dotchat

open Db Handlers Bytestream

namespace Request

/-- The entries of the argument object of a request. -/
def values : Request → List (Bytes × Arg)
  | login r => [paired "user" r.user, paired "pass" r.pass]
  | logout r => [paired "token" r.token]
  | channelList r => [paired "token" r.token]
  | channelMsg r => [paired "token" r.token, paired "chan_id" r.chanId]
  | sendMsg r => [paired "token" r.token, paired "chan_id" r.chanId, paired "msg_cnt" r.msgCnt]
  | channelDetails r => [paired "token" r.token, paired "chan_id" r.chanId]
  | newChannel r => [paired "token" r.token, paired "name" r.name, paired "desc" (r.desc.getD [])]
  | newUser r => [paired "name" r.name, paired "pass" r.pass]
  | changePass r => [paired "token" r.token, paired "new_pass" r.newPass]
  | userDetails r => [paired "token" r.token, paired "uid" r.uid]
  | inviteUser r => [paired "token" r.token, paired "uid" r.uid, paired "chan_id" r.chanId]

/-- The strings of a request. -/
def strings : Request → List Bytes
  | login r => [r.user, r.pass]
  | sendMsg r => [r.msgCnt]
  | newChannel r => r.name :: r.desc.toList
  | newUser r => [r.name, r.pass]
  | changePass r => [r.newPass]
  | _ => []

/-- The request as it arrives: an empty description is absent. -/
def normal : Request → Request
  | newChannel r => newChannel { r with desc := descOf (r.desc.getD []) }
  | r => r

end Request

/-- The response as it arrives: an empty description is absent. -/
def Response.normal : Response → Response
  | .channelDetails r => .channelDetails { r with desc := descOf (r.desc.getD []) }
  | s => s

section Requests

variable {req : Request}

theorem modified_ofValues (cmd : Bytes) (values mods : List (Bytes × Arg)) :
    (Message.ofValues cmd values).modified mods = .ofValues cmd (values ++ mods) := by
  simp only [Message.ofValues, Message.modified, ArgObj.setAll, List.foldl_append]

theorem Request.toMessage_eq (req : Request) :
    req.toMessage = .ofValues (ascii req.command) req.values := by
  cases req with
  | login _ | logout _ | channelList _ | newUser _ => rfl
  | channelMsg _ | sendMsg _ | channelDetails _ | newChannel _ | changePass _ | userDetails _
  | inviteUser _ => exact modified_ofValues _ _ _

/-- An entry of a request holds a number or one of its strings. -/
inductive IsEntry (req : Request) : Bytes × Arg → Prop
  | number {key : String} (hkey : key ∈ Request.keys) (v : Int32) : IsEntry req (paired key v)
  | string {key : String} (hkey : key ∈ Request.keys) {v : Bytes} (h : v ∈ req.strings) :
      IsEntry req (paired key v)
  | noDesc : IsEntry req (paired "desc" ([] : Bytes))

theorem isEntry_desc (r : NewChannelRequest) :
    IsEntry (.newChannel r) (paired "desc" (r.desc.getD [])) := by
  cases hdesc : r.desc with
  | none => exact .noDesc
  | some d => exact .string (by simp [Request.keys]) (by simp [Request.strings, hdesc])

theorem isEntry_values (req : Request) : ∀ e ∈ req.values, IsEntry req e := by
  cases req <;> simp only [Request.values, List.forall_mem_cons, List.not_mem_nil, false_imp_iff,
    implies_true, and_true]
  case login r | newUser r =>
    exact ⟨.string (by simp [Request.keys]) (by simp [Request.strings]),
      .string (by simp [Request.keys]) (by simp [Request.strings])⟩
  case logout r | channelList r => exact .number (by simp [Request.keys]) _
  case channelMsg r | channelDetails r | userDetails r =>
    exact ⟨.number (by simp [Request.keys]) _, .number (by simp [Request.keys]) _⟩
  case inviteUser r =>
    exact ⟨.number (by simp [Request.keys]) _, .number (by simp [Request.keys]) _,
      .number (by simp [Request.keys]) _⟩
  case sendMsg r =>
    exact ⟨.number (by simp [Request.keys]) _, .number (by simp [Request.keys]) _,
      .string (by simp [Request.keys]) (by simp [Request.strings])⟩
  case changePass r =>
    exact ⟨.number (by simp [Request.keys]) _,
      .string (by simp [Request.keys]) (by simp [Request.strings])⟩
  case newChannel r =>
    exact ⟨.number (by simp [Request.keys]) _,
      .string (by simp [Request.keys]) (by simp [Request.strings]), isEntry_desc r⟩

theorem Request.command_short (req : Request) :
    (ascii req.command).length ≤ 11 ∧ 0 ∉ ascii req.command := by
  have hall : ∀ command ∈ (switcher 0).map (·.1),
      (ascii command).length ≤ 11 ∧ 0 ∉ ascii command := by decide
  apply hall _
  cases req <;> simp [switcher, Request.command]

/-- A request that is sent, and whose strings have no NUL byte, is canonical. -/
theorem Request.canonical (hnul : ∀ v ∈ req.strings, 0 ∉ v) (hsend : req.toMessage.Sendable) :
    req.toMessage.Canonical := by
  have hkeys : ∀ key ∈ Request.keys, 0 ∉ ascii key := by decide
  have hentry : ∀ e ∈ req.values, e.2.Built ∧ 0 ∉ e.1 ∧ e.2.Plain := by
    intro e he
    cases isEntry_values req e he with
    | number hkey v => exact ⟨.scalar _, hkeys _ hkey, .scalar _⟩
    | string hkey hv => exact ⟨.string _, hkeys _ hkey, .string (hnul _ hv)⟩
    | noDesc => exact ⟨.string _, by decide, .string (by simp)⟩
  rw [req.toMessage_eq] at hsend ⊢
  have hmem : ∀ e ∈ ArgObj.setAll [] req.values, e ∈ req.values := fun e he =>
    (ArgObj.mem_setAll he).resolve_left List.not_mem_nil
  refine Message.canonical_of (Message.Built.ofValues _ fun e he => (hentry e he).1).wellFormed
    hsend ⟨req.command_short.2, .subObject trivial ?_ ?_⟩
  · exact fun e he => (hentry e (hmem e he)).2.1
  · exact fun e he => (hentry e (hmem e he)).2.2

theorem length_entriesWire_le {o : ArgObj} {k : ℕ}
    (h : ∀ e ∈ o, e.1.length + e.2.wire.length ≤ k) :
    (entriesWire o).length ≤ o.length * (k + 2) := by
  induction o with
  | nil => simp [entriesWire]
  | cons e rest ih =>
    obtain ⟨key, value⟩ := e
    obtain ⟨hhead, hrest⟩ := List.forall_mem_cons.mp h
    have htail := ih hrest
    simp only [entriesWire, stringWire, List.length_append, List.length_cons, Nat.add_mul] at *
    omega

/-- Every request fits into one read. -/
theorem Request.length_wire_le (hsend : req.toMessage.Sendable) :
    req.toMessage.wire.length ≤ 1023 := by
  have hkeys : ∀ key ∈ Request.keys, (ascii key).length ≤ 8 := by decide
  have hcmd := req.command_short.1
  have hcount : req.values.length ≤ 3 := by cases req <;> simp [Request.values]
  rw [req.toMessage_eq] at hsend ⊢
  obtain ⟨-, -, hvals⟩ := Arg.everywhere_subObject.mp hsend.2
  have hentry : ∀ e ∈ ArgObj.setAll [] req.values, e.1.length + e.2.wire.length ≤ 264 := by
    intro e he
    have hval := hvals e he
    cases isEntry_values req e ((ArgObj.mem_setAll he).resolve_left List.not_mem_nil) with
    | number hkey v =>
      have hlen := hkeys _ hkey
      simp only [paired, Representable.toArg, Arg.wire, length_scalarWire, Scalar.type,
        ScalarType.sizeof]
      omega
    | string hkey hv =>
      have hlen := hkeys _ hkey
      have hstring := Arg.everywhere_string.mp hval
      simp only [paired, Representable.toArg, Arg.wire, stringWire, List.length_cons]
      omega
    | noDesc => decide
  have hlen := ArgObj.length_setAll_le [] req.values
  have hentries := length_entriesWire_le hentry
  simp only [List.length_nil, Nat.zero_add] at hlen
  simp only [Message.wire, Message.argsValue, Message.ofValues, Arg.wire, stringWire,
    List.length_append, List.length_cons, List.length_nil]
  omega

/-- The server parses a request that it receives as the normal form of it. -/
theorem Request.parses_received (req : Request) : req.normal.Parses req.toMessage.received := by
  cases req with
  | login r => exact LoginRequest.ofMessage_toMessage r
  | logout r => exact LogoutRequest.ofMessage_toMessage r
  | channelList r => exact ChannelListRequest.ofMessage_toMessage r
  | channelMsg r => exact ChannelMsgRequest.ofMessage_toMessage r
  | sendMsg r => exact MessageSendRequest.ofMessage_toMessage r
  | channelDetails r => exact ChannelDetailsRequest.ofMessage_toMessage r
  | newChannel r => exact NewChannelRequest.ofMessage_toMessage r
  | newUser r => exact NewUserRequest.ofMessage_toMessage r
  | changePass r => exact ChangePassRequest.ofMessage_toMessage r
  | userDetails r => exact UserDetailsRequest.ofMessage_toMessage r
  | inviteUser r => exact InviteUserRequest.ofMessage_toMessage r

variable {env : Env} {turns : ℕ} {w w' : World} {s : Response}

/-- The description of a new channel has no influence on the response. -/
theorem respond_normal (h : (respond turns req).run (perform env) w = (.returned s, w')) :
    ∃ v, (respond turns req.normal).run (perform env) w = (.returned s, v) := by
  cases req with
  | newChannel r =>
    have hhandled := handled env turns w (.newChannel r)
    rw [h] at hhandled
    rcases hrun : (respond turns (Request.newChannel r).normal).run (perform env) w with ⟨o, v⟩
    have hnormal : Handled env w (.newChannel { r with desc := descOf (r.desc.getD []) }) (o, v) :=
      hrun ▸ handled env turns w (Request.newChannel r).normal
    cases hhandled with
    | answered _ _ hs => cases hs
    | createdChannel hu hins =>
      obtain ⟨hfree, rfl, -⟩ := Database.insertChannel_eq_ok hins
      have hu' : Accepted env w { r with desc := descOf (r.desc.getD []) }.token _ := hu
      rcases hnormal.newChannel_of_accepted hu' with ⟨htaken, -⟩ | ⟨-, rfl⟩
      · exact absurd htaken hfree
      · exact ⟨v, rfl⟩
  | login _ | logout _ | channelList _ | channelMsg _ | sendMsg _ | channelDetails _ | newUser _
  | changePass _ | userDetails _ | inviteUser _ => exact ⟨w', h⟩

end Requests

section Responses

theorem length_wire_pos (a : Arg) : 0 < a.wire.length := by
  cases a with
  | scalar v =>
    rw [Arg.wire, length_scalarWire]
    cases v <;> exact Nat.succ_pos _
  | string v => exact Nat.succ_pos _
  | list t c => exact Nat.succ_pos _
  | subObject o => exact Nat.succ_pos _

theorem length_le_elementsWire (c : List Arg) : c.length ≤ (elementsWire c).length := by
  induction c with
  | nil => exact Nat.le_refl _
  | cons a rest ih =>
    have hpos := length_wire_pos a
    simp only [elementsWire, List.length_append, List.length_cons]
    omega

theorem length_wire_le_of_mem {c : List Arg} {a : Arg} (h : a ∈ c) :
    a.wire.length ≤ (elementsWire c).length := by
  induction c with
  | nil => cases h
  | cons b rest ih =>
    simp only [elementsWire, List.length_append]
    rcases List.mem_cons.mp h with rfl | h
    · omega
    · have hrest := ih h
      omega

theorem length_wire_le_of_mem_entries {o : ArgObj} {e : Bytes × Arg} (h : e ∈ o) :
    e.2.wire.length ≤ (entriesWire o).length := by
  induction o with
  | nil => cases h
  | cons b rest ih =>
    simp only [entriesWire, List.length_append, List.length_cons]
    rcases List.mem_cons.mp h with rfl | h
    · omega
    · have hrest := ih h
      omega

/-- A list whose bytes are few has few elements. -/
theorem canonical_of_textual {a : Arg} (h : a.Textual) (hlen : a.wire.length < 2 ^ 32) :
    a.Canonical := by
  induction a with
  | scalar v => exact .scalar v
  | string v => exact .string (Arg.everywhere_string.mp h)
  | subObject o ih =>
    obtain ⟨hobj, hkeys, hvals⟩ := Arg.everywhere_subObject.mp h
    simp only [Arg.wire, List.length_cons] at hlen
    refine .subObject hobj hkeys fun e he => ih e he (hvals e he) ?_
    have hle := length_wire_le_of_mem_entries he
    omega
  | list t c ih =>
    obtain ⟨hhom, hvals⟩ := Arg.everywhere_list.mp h
    simp only [Arg.wire, List.length_cons, List.length_append] at hlen
    have hcount := length_le_elementsWire c
    refine .list ⟨hhom, ?_⟩ fun a ha => ih a ha (hvals a ha) ?_
    · simp only
      omega
    · have hle := length_wire_le_of_mem ha
      omega

variable {env : Env} {w w' : World} {req : Request} {s : Response} {m : Message}

theorem Response.Textual.canonical (h : s.Textual) (hm : s.toMessage = .ok m)
    (hlen : m.wire.length ≤ 1023) : m.Canonical := by
  obtain ⟨mods, hmods, htextual⟩ := h
  rw [hm] at hmods
  cases hmods
  have hcmd : CanonicalText (ascii ResponseCommands.okay) := by decide
  refine ⟨hcmd, canonical_of_textual htextual ?_⟩
  simp only [Message.wire, List.length_append] at hlen
  omega

/-- The client reads the response of a handler from its message, whichever type
the handler returns. -/
theorem readResponse_of_handled (h : Handled env w req (.returned s, w'))
    (hm : s.toMessage = .ok m) : req.readResponse m.received = .ok s.normal := by
  cases h with
  | answered _ _ hs =>
    cases hs with
    | channelList =>
      exact congrArg (Response.channelList <$> ·) (ChannelListResponse.ofMessage_toMessage hm)
    | channelMsg _ =>
      exact congrArg (Response.channelMsg <$> ·) (ChannelMsgResponse.ofMessage_toMessage hm)
    | channelDetails _ _ =>
      exact congrArg (Response.channelDetails <$> ·)
        (ChannelDetailsResponse.ofMessage_toMessage hm)
    | userDetails _ =>
      exact congrArg (Response.userDetails <$> ·) (UserDetailsResponse.ofMessage_toMessage hm)
  | loggedOut _ | sentMsg _ _ | changedPass _ _ | invited _ _ _ _ _ | createdUser _ =>
    cases hm
    rfl
  | createdChannel _ _ =>
    cases hm
    rfl
  | loggedIn _ _ _ _ _ =>
    cases hm
    rfl

theorem responseIn_of_handled (h : Handled env w req (.returned s, w'))
    (hm : s.toMessage = .ok m) : responseIn req.readResponse m.received = .ok s.normal := by
  obtain ⟨mods, hmods⟩ := s.toMessage_eq_ok
  have hcmd : m.received.cmd = ascii ResponseCommands.okay := by
    rw [hm] at hmods
    cases hmods
    rfl
  rw [responseIn, if_pos hcmd, readResponse_of_handled h hm]
  rfl

end Responses

/-- In every reachable state, a call whose handler returns a response of at most
1023 bytes gives the client this response, up to an empty description, and
leaves nothing unread on the connection. -/
theorem runBoilerplate_faithful (tls : Tls) {env : Env} {w w' : World} {req : Request} {turns : ℕ}
    {s : Response} {m : Message} {out : Bytestream} (hw : Reachable env Decoded w)
    (hnul : ∀ v ∈ req.strings, 0 ∉ v) (hsend : req.toMessage.sendTo {} = .ok () out)
    (hrespond : (respond turns req).run (perform env) w = (.returned s, w'))
    (hm : s.toMessage = .ok m) (hlen : m.wire.length ≤ 1023) :
    ∃ v, runBoilerplate tls env turns req.readResponse req.toMessage {} w =
      (.ok s.normal, {}, v) := by
  obtain ⟨hsendable, -⟩ := Message.sendTo_eq_ok hsend
  have hhandled := handled env turns w req
  rw [hrespond] at hhandled
  have hcanonical := (handled_textual hw.texts hhandled).canonical hm hlen
  obtain ⟨v, hnormal⟩ := respond_normal hrespond
  have hserve := dispatch_of_parses req.parses_received hnormal
  simp only [replyOf, hm] at hserve
  refine ⟨v, ?_⟩
  rw [runBoilerplate_of_canonical tls _ (Request.canonical hnul hsendable)
    (Request.length_wire_le hsendable) hserve hcanonical hlen, responseIn_of_handled hhandled hm]

/-- The first login of the first user. -/
def masterRequest : Request := .login { user := master.name, pass := master.pass }

theorem runBoilerplate_faithful_master : ∃ v,
    runBoilerplate Tls.filling twoDaysLater 1 masterRequest.readResponse masterRequest.toMessage
      {} {} = (.ok (.token { token := 7 }), {}, v) := by
  have hrespond : ((respond 1 masterRequest).run (perform twoDaysLater) {}).1 =
      .returned (.token { token := 7 }) := by decide +kernel
  have hsend : masterRequest.toMessage.sendTo {} = .ok () (fresh masterRequest.toMessage.wire) := by
    decide +kernel
  exact runBoilerplate_faithful Tls.filling (s := .token { token := 7 }) .refl (by decide) hsend
    (Prod.ext hrespond rfl) rfl (by decide)

/-- A message of the length limit in the channel of the first user. -/
def longMessage : Request :=
  .sendMsg { token := 7, chanId := 1, msgCnt := List.replicate 255 0x61 }

/-- The server after a login and four of these messages. -/
def longHistory : World :=
  [masterLogin, longMessage.toMessage, longMessage.toMessage, longMessage.toMessage,
    longMessage.toMessage].foldl (fun w m => (serve twoDaysLater 1 m w).2) {}

def history : Request := .channelMsg { token := 7, chanId := 1 }

theorem Request.decoded (req : Request) (hnul : ∀ v ∈ req.strings, 0 ∉ v)
    (hsend : req.toMessage.Sendable) : Decoded req.toMessage := by
  obtain ⟨s, hs⟩ := ofStream_fresh (Request.canonical hnul hsend)
  have hsame : req.toMessage.received = req.toMessage := by
    rw [req.toMessage_eq]
    rfl
  rw [hsame] at hs
  exact ⟨_, s, hs⟩

theorem Request.decoded_of_sendTo (req : Request) (hnul : ∀ v ∈ req.strings, 0 ∉ v)
    {strm : Bytestream} (h : req.toMessage.sendTo {} = .ok () strm) : Decoded req.toMessage :=
  req.decoded hnul (Message.sendTo_eq_ok h).1

theorem longHistory_reachable : Reachable twoDaysLater Decoded longHistory := by
  have hlogin : Decoded masterLogin :=
    masterRequest.decoded_of_sendTo (by decide)
      (show masterLogin.sendTo {} = .ok () (fresh masterLogin.wire) by decide +kernel)
  have hlong : Decoded longMessage.toMessage :=
    longMessage.decoded_of_sendTo (by decide +kernel)
      (show longMessage.toMessage.sendTo {} = .ok () (fresh longMessage.toMessage.wire) by
        decide +kernel)
  exact .serve (.serve (.serve (.serve (.serve .refl 1 hlogin) 1 hlong) 1 hlong) 1 hlong) 1 hlong

/-- The messages of the channel are computed, and the client reads past the part
of them that it has received. -/
theorem longHistory_not_faithful :
    Reachable twoDaysLater Decoded longHistory ∧ (∀ v ∈ history.strings, 0 ∉ v) ∧
      history.toMessage.sendTo {} = .ok () (fresh history.toMessage.wire) ∧
      (∃ s, ((respond 1 history).run (perform twoDaysLater) longHistory).1 = .returned s) ∧
      ∀ s, (runBoilerplate Tls.filling twoDaysLater 1 history.readResponse history.toMessage {}
        longHistory).1 ≠ .ok s := by
  refine ⟨longHistory_reachable, by decide, by decide +kernel, ?_, ?_⟩
  · have hlisted : ((respond 1 history).run (perform twoDaysLater) longHistory).1 =
        .returned (.channelMsg { msgs := List.replicate 4 ⟨1, 0, List.replicate 255 0x61⟩ }) := by
      decide +kernel
    exact ⟨_, hlisted⟩
  · intro s
    have hfault : (runBoilerplate Tls.filling twoDaysLater 1 history.readResponse
        history.toMessage {} longHistory).1 = .error (.unread .outOfBounds) := by decide +kernel
    rw [hfault]
    exact nofun

end Dotchat
