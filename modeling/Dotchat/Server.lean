import Dotchat.Handlers

/-!
The server as one function from requests to responses. The eleven handlers are
one program `respond` on the sum of the request types, and dispatching a message
is parsing it, running `respond` and turning the outcome into a reply. A message
of a known command that does not parse is answered by a text that names the
missing or mistyped key.
-/
namespace Dotchat

open Handlers

inductive Request
  | login (r : LoginRequest)
  | logout (r : LogoutRequest)
  | channelList (r : ChannelListRequest)
  | channelMsg (r : ChannelMsgRequest)
  | sendMsg (r : MessageSendRequest)
  | channelDetails (r : ChannelDetailsRequest)
  | newChannel (r : NewChannelRequest)
  | newUser (r : NewUserRequest)
  | changePass (r : ChangePassRequest)
  | userDetails (r : UserDetailsRequest)
  | inviteUser (r : InviteUserRequest)
  deriving DecidableEq

inductive Response
  | okay (r : OkayResponse)
  | token (r : TokenResponse)
  | id (r : IdResponse)
  | channelList (r : ChannelListResponse)
  | channelMsg (r : ChannelMsgResponse)
  | channelDetails (r : ChannelDetailsResponse)
  | userDetails (r : UserDetailsResponse)
  deriving DecidableEq

namespace Request

def toMessage : Request → Message
  | login r => r.toMessage
  | logout r => r.toMessage
  | channelList r => r.toMessage
  | channelMsg r => r.toMessage
  | sendMsg r => r.toMessage
  | channelDetails r => r.toMessage
  | newChannel r => r.toMessage
  | newUser r => r.toMessage
  | changePass r => r.toMessage
  | userDetails r => r.toMessage
  | inviteUser r => r.toMessage

/-- The converter of the request's type reads the message as this request. -/
def Parses (m : Message) : Request → Prop
  | login r => LoginRequest.ofMessage m = .ok r
  | logout r => LogoutRequest.ofMessage m = .ok r
  | channelList r => ChannelListRequest.ofMessage m = .ok r
  | channelMsg r => ChannelMsgRequest.ofMessage m = .ok r
  | sendMsg r => MessageSendRequest.ofMessage m = .ok r
  | channelDetails r => ChannelDetailsRequest.ofMessage m = .ok r
  | newChannel r => NewChannelRequest.ofMessage m = .ok r
  | newUser r => NewUserRequest.ofMessage m = .ok r
  | changePass r => ChangePassRequest.ofMessage m = .ok r
  | userDetails r => UserDetailsRequest.ofMessage m = .ok r
  | inviteUser r => InviteUserRequest.ofMessage m = .ok r

/-- The token that a request carries. -/
def token : Request → Option Int32
  | login _ | newUser _ => none
  | logout r => some r.token
  | channelList r => some r.token
  | channelMsg r => some r.token
  | sendMsg r => some r.token
  | channelDetails r => some r.token
  | newChannel r => some r.token
  | changePass r => some r.token
  | userDetails r => some r.token
  | inviteUser r => some r.token

/-- The keys that the converters look up. -/
def keys : List String :=
  ["token", "user", "pass", "chan_id", "msg_cnt", "name", "desc", "new_pass", "uid"]

end Request

namespace Response

def toMessage : Response → Except Exc Message
  | okay r => .ok r.toMessage
  | token r => .ok r.toMessage
  | id r => .ok r.toMessage
  | channelList r => r.toMessage
  | channelMsg r => r.toMessage
  | channelDetails r => r.toMessage
  | userDetails r => r.toMessage

/-- Every response can be turned into a message, which is an ok message. -/
theorem toMessage_eq_ok (s : Response) :
    ∃ mods, s.toMessage = .ok (OkayResponse.okayWith mods) := by
  cases s with
  | okay r => exact ⟨[], rfl⟩
  | token r | id r => exact ⟨_, rfl⟩
  | channelList r => exact ⟨_, r.toMessage_eq.choose_spec.2.2⟩
  | channelMsg r => exact ⟨_, r.toMessage_eq.choose_spec.2.2⟩
  | channelDetails r => exact ⟨_, r.toMessage_eq.choose_spec.2.2⟩
  | userDetails r => exact ⟨_, r.toMessage_eq.choose_spec.2.2⟩

end Response

/-- The handler of each request type. -/
def respond (turns : ℕ) : Request → Handler Response
  | .login r => Response.token <$> Handlers.login turns r
  | .logout r => Response.okay <$> Handlers.logout r
  | .channelList r => Response.channelList <$> Handlers.channelList r
  | .channelMsg r => Response.channelMsg <$> Handlers.channelMsg r
  | .sendMsg r => Response.okay <$> Handlers.sendMsg r
  | .channelDetails r => Response.channelDetails <$> Handlers.channelDetails r
  | .newChannel r => Response.id <$> Handlers.newChannel r
  | .newUser r => Response.okay <$> Handlers.newUser r
  | .changePass r => Response.okay <$> Handlers.changePass r
  | .userDetails r => Response.userDetails <$> Handlers.userDetails r
  | .inviteUser r => Response.okay <$> Handlers.inviteUser r

/-- The reply to an exception, if `reply_to` catches it. -/
def replyToExc : Exc → Outcome Exc Message
  | .protoError what => .returned (ErrorResponse.toMessage { reason := cString what })
  | e => .threw e

/-- The reply to what a handler computed. -/
def replyOf {Res : Type} (toMessage : Res → Except Exc Message) :
    Outcome Exc Res → Outcome Exc Message
  | .returned res =>
      match toMessage res with
      | .ok m => .returned m
      | .error e => replyToExc e
  | .threw e => replyToExc e
  | .running => .running

section Dispatch

variable {Req Res : Type} {ofMessage : Message → Except Exc Req}
  {toMessage : Res → Except Exc Message} {f : Req → Handler Res} {env : Env} {m : Message}
  {w w' : World}

theorem run_catchProto {α : Type} (p : Handler α) (handler : Bytes → Handler α) (w : World) :
    (catchProto p handler).run (perform env) w =
      match p.run (perform env) w with
      | (.threw (.protoError what), w') => (handler (cString what)).run (perform env) w'
      | (o, w') => (o, w') := by
  rw [catchProto, Program.run_tryCatch]
  rcases p.run (perform env) w with ⟨(a | (_ | _ | _ | _ | _) | _), w'⟩ <;> rfl

theorem run_replyTo_of_error {e : Exc} (h : ofMessage m = .error e) :
    (replyTo ofMessage toMessage m f).run (perform env) w = (replyToExc e, w) := by
  rw [replyTo, run_catchProto, h]
  cases e <;> rfl

theorem run_replyTo_of_ok {req : Req} {o : Outcome Exc Res} (h : ofMessage m = .ok req)
    (hf : (f req).run (perform env) w = (o, w')) :
    (replyTo ofMessage toMessage m f).run (perform env) w = (replyOf toMessage o, w') := by
  have hreq : (Program.ofExcept (.ok req) : Handler Req).run (perform env) w = (.returned req, w) :=
    rfl
  rw [replyTo, run_catchProto, h, Program.run_bind_of_returned hreq, Program.run_bind, hf]
  rcases o with res | (_ | _ | _ | _ | _) | _
  · simp only [replyOf]
    rcases toMessage res with (_ | _ | _ | _ | _) | m' <;> rfl
  all_goals rfl

/-- A caught outcome is no `proto_error` any more. -/
theorem run_catchProto_of_replyOf {p : Handler Message} {handler : Bytes → Handler Message}
    {o : Outcome Exc Res} (h : p.run (perform env) w = (replyOf toMessage o, w')) :
    (catchProto p handler).run (perform env) w = (replyOf toMessage o, w') := by
  rw [run_catchProto, h]
  rcases o with res | (_ | _ | _ | _ | _) | _
  · simp only [replyOf]
    rcases toMessage res with (_ | _ | _ | _ | _) | m' <;> rfl
  all_goals rfl

theorem run_catchProto_of_replyToExc {p : Handler Message} {handler : Bytes → Handler Message}
    {e : Exc} (h : p.run (perform env) w = (replyToExc e, w')) :
    (catchProto p handler).run (perform env) w = (replyToExc e, w') := by
  rw [run_catchProto, h]
  cases e <;> rfl

end Dispatch

/-- Failures that name one of the keys a converter looks up. -/
def FailsNaming {α : Type} (x : Except Exc α) : Prop :=
  ∀ e, x = .error e →
    ∃ key ∈ Request.keys, e = .protoError (missingText key) ∨ e = .protoError (typeText key)

section Failures

variable {α β : Type}

theorem FailsNaming.pure (a : α) : FailsNaming (pure a : Except Exc α) := by
  intro e h
  cases h

theorem FailsNaming.bind {x : Except Exc α} {f : α → Except Exc β} (hx : FailsNaming x)
    (hf : ∀ a, FailsNaming (f a)) : FailsNaming (x >>= f) := by
  intro e h
  cases x with
  | ok a => exact hf a e h
  | error e' =>
    cases h
    exact hx _ rfl

theorem failsNaming_requireArg {T : Type} [Representable T] {key : String} (o : ArgObj)
    (h : key ∈ Request.keys) : FailsNaming (requireArg T key o) :=
  fun _ he => ⟨key, h, requireArg_eq_error he⟩

theorem failsNaming_checkCommand {command : String} {m : Message} (h : ascii command = m.cmd) :
    FailsNaming (checkCommand command m) := by
  rw [checkCommand, if_pos h.symm]
  exact .pure ()

theorem failsNaming_token (m : Message) : FailsNaming (TokenRequest.ofMessage m) :=
  .bind (failsNaming_requireArg _ (by simp [Request.keys])) fun _ => .pure _

theorem failsNaming_login {m : Message} (h : ascii Commands.login = m.cmd) :
    FailsNaming (LoginRequest.ofMessage m) :=
  .bind (failsNaming_checkCommand h) fun _ =>
  .bind (failsNaming_requireArg _ (by simp [Request.keys])) fun _ =>
  .bind (failsNaming_requireArg _ (by simp [Request.keys])) fun _ => .pure _

theorem failsNaming_logout {m : Message} (h : ascii Commands.logout = m.cmd) :
    FailsNaming (LogoutRequest.ofMessage m) :=
  .bind (failsNaming_checkCommand h) fun _ =>
  .bind (failsNaming_token m) fun _ => .pure _

theorem failsNaming_channelList {m : Message} (h : ascii Commands.channelList = m.cmd) :
    FailsNaming (ChannelListRequest.ofMessage m) :=
  .bind (failsNaming_checkCommand h) fun _ =>
  .bind (failsNaming_token m) fun _ => .pure _

theorem failsNaming_channelMsg {m : Message} (h : ascii Commands.channelMsg = m.cmd) :
    FailsNaming (ChannelMsgRequest.ofMessage m) :=
  .bind (failsNaming_checkCommand h) fun _ =>
  .bind (failsNaming_token m) fun _ =>
  .bind (failsNaming_requireArg _ (by simp [Request.keys])) fun _ => .pure _

theorem failsNaming_sendMsg {m : Message} (h : ascii Commands.sendMsg = m.cmd) :
    FailsNaming (MessageSendRequest.ofMessage m) :=
  .bind (failsNaming_checkCommand h) fun _ =>
  .bind (failsNaming_token m) fun _ =>
  .bind (failsNaming_requireArg _ (by simp [Request.keys])) fun _ =>
  .bind (failsNaming_requireArg _ (by simp [Request.keys])) fun _ => .pure _

theorem failsNaming_channelDetails {m : Message} (h : ascii Commands.channelDetails = m.cmd) :
    FailsNaming (ChannelDetailsRequest.ofMessage m) :=
  .bind (failsNaming_checkCommand h) fun _ =>
  .bind (failsNaming_token m) fun _ =>
  .bind (failsNaming_requireArg _ (by simp [Request.keys])) fun _ => .pure _

theorem failsNaming_newChannel {m : Message} (h : ascii Commands.newChannel = m.cmd) :
    FailsNaming (NewChannelRequest.ofMessage m) :=
  .bind (failsNaming_checkCommand h) fun _ =>
  .bind (failsNaming_token m) fun _ =>
  .bind (failsNaming_requireArg _ (by simp [Request.keys])) fun _ =>
  .bind (failsNaming_requireArg _ (by simp [Request.keys])) fun _ => .pure _

theorem failsNaming_newUser {m : Message} (h : ascii Commands.newUser = m.cmd) :
    FailsNaming (NewUserRequest.ofMessage m) :=
  .bind (failsNaming_checkCommand h) fun _ =>
  .bind (failsNaming_requireArg _ (by simp [Request.keys])) fun _ =>
  .bind (failsNaming_requireArg _ (by simp [Request.keys])) fun _ => .pure _

theorem failsNaming_changePass {m : Message} (h : ascii Commands.changePass = m.cmd) :
    FailsNaming (ChangePassRequest.ofMessage m) :=
  .bind (failsNaming_checkCommand h) fun _ =>
  .bind (failsNaming_token m) fun _ =>
  .bind (failsNaming_requireArg _ (by simp [Request.keys])) fun _ => .pure _

theorem failsNaming_userDetails {m : Message} (h : ascii Commands.userDetails = m.cmd) :
    FailsNaming (UserDetailsRequest.ofMessage m) :=
  .bind (failsNaming_checkCommand h) fun _ =>
  .bind (failsNaming_token m) fun _ =>
  .bind (failsNaming_requireArg _ (by simp [Request.keys])) fun _ => .pure _

theorem failsNaming_inviteUser {m : Message} (h : ascii Commands.inviteUser = m.cmd) :
    FailsNaming (InviteUserRequest.ofMessage m) :=
  .bind (failsNaming_checkCommand h) fun _ =>
  .bind (failsNaming_token m) fun _ =>
  .bind (failsNaming_requireArg _ (by simp [Request.keys])) fun _ =>
  .bind (failsNaming_requireArg _ (by simp [Request.keys])) fun _ => .pure _

end Failures

/-- Some command of the map is that of the message. -/
def KnownCommand (m : Message) : Prop := ∃ e ∈ switcher 0, ascii e.1 = m.cmd

instance (m : Message) : Decidable (KnownCommand m) := inferInstanceAs (Decidable (∃ _ ∈ _, _))

/-- What dispatching a message comes to: the reply to a malformed request, or
that to the outcome of a handler. -/
inductive Dispatched (env : Env) (turns : ℕ) (m : Message) (w : World) :
    Outcome Exc Message × World → Prop
  | unknown (h : ¬ KnownCommand m) : Dispatched env turns m w (.returned (invalidCommand m.cmd), w)
  | malformed {key : String} {what : Bytes} (h : key ∈ Request.keys)
      (hwhat : what = missingText key ∨ what = typeText key) :
      Dispatched env turns m w (replyToExc (.protoError what), w)
  | handled {req : Request} {o : Outcome Exc Response} {w' : World} (h : req.Parses m)
      (hrun : (respond turns req).run (perform env) w = (o, w')) :
      Dispatched env turns m w (replyOf Response.toMessage o, w')

section Dispatched

variable {env : Env} {turns : ℕ} {m : Message} {w : World}

theorem replyTo_of_parses {Req Res : Type} {ofMessage : Message → Except Exc Req}
    {toMessage : Res → Except Exc Message} {f : Req → Handler Res} (inj : Req → Request)
    (wrap : Res → Response) (hrespond : ∀ req, respond turns (inj req) = wrap <$> f req)
    (hto : ∀ res, (wrap res).toMessage = toMessage res) {handler : Bytes → Handler Message}
    {req : Req} {o : Outcome Exc Response} {w' : World} (hof : ofMessage m = .ok req)
    (hrun : (respond turns (inj req)).run (perform env) w = (o, w')) :
    (catchProto (replyTo ofMessage toMessage m f) handler).run (perform env) w =
      (replyOf Response.toMessage o, w') := by
  rcases hf : (f req).run (perform env) w with ⟨o', v⟩
  rw [hrespond, Program.run_map _ _ hf] at hrun
  cases hrun
  rw [run_catchProto_of_replyOf (run_replyTo_of_ok hof hf)]
  cases o' with
  | returned res => simp only [replyOf, Outcome.map, hto]
  | threw e => rfl
  | running => rfl

theorem replyTo_dispatched {Req Res : Type} {ofMessage : Message → Except Exc Req}
    {toMessage : Res → Except Exc Message} {f : Req → Handler Res} (inj : Req → Request)
    (wrap : Res → Response) (hfail : FailsNaming (ofMessage m))
    (hparse : ∀ req, ofMessage m = .ok req → (inj req).Parses m)
    (hrespond : ∀ req, respond turns (inj req) = wrap <$> f req)
    (hto : ∀ res, (wrap res).toMessage = toMessage res) (handler : Bytes → Handler Message) :
    Dispatched env turns m w
      ((catchProto (replyTo ofMessage toMessage m f) handler).run (perform env) w) := by
  cases hof : ofMessage m with
  | error e =>
    rw [run_catchProto_of_replyToExc (run_replyTo_of_error hof)]
    obtain ⟨key, hkey, rfl | rfl⟩ := hfail e hof
    · exact .malformed hkey (.inl rfl)
    · exact .malformed hkey (.inr rfl)
  | ok req =>
    rcases hrun : (respond turns (inj req)).run (perform env) w with ⟨o, w'⟩
    rw [replyTo_of_parses inj wrap hrespond hto hof hrun]
    exact .handled (hparse req hof) hrun

/-- Dispatching a message comes to one of the three. -/
theorem dispatched (env : Env) (turns : ℕ) (m : Message) (w : World) :
    Dispatched env turns m w ((dispatch turns m).run (perform env) w) := by
  unfold dispatch
  cases hfind : (switcher turns).find? fun e => ascii e.1 = m.cmd with
  | none =>
    refine .unknown ?_
    simpa [KnownCommand, switcher] using hfind
  | some e =>
    have hmem := List.mem_of_find?_eq_some hfind
    have hcmd : ascii e.1 = m.cmd := by simpa using List.find?_some hfind
    simp only [switcher, List.mem_cons, List.not_mem_nil, or_false] at hmem
    rcases hmem with rfl | rfl | rfl | rfl | rfl | rfl | rfl | rfl | rfl | rfl | rfl
    · exact replyTo_dispatched .login .token (failsNaming_login hcmd) (fun _ h => h)
        (fun _ => rfl) (fun _ => rfl) _
    · exact replyTo_dispatched .logout .okay (failsNaming_logout hcmd) (fun _ h => h)
        (fun _ => rfl) (fun _ => rfl) _
    · exact replyTo_dispatched .channelList .channelList (failsNaming_channelList hcmd)
        (fun _ h => h) (fun _ => rfl) (fun _ => rfl) _
    · exact replyTo_dispatched .channelMsg .channelMsg (failsNaming_channelMsg hcmd) (fun _ h => h)
        (fun _ => rfl) (fun _ => rfl) _
    · exact replyTo_dispatched .sendMsg .okay (failsNaming_sendMsg hcmd) (fun _ h => h)
        (fun _ => rfl) (fun _ => rfl) _
    · exact replyTo_dispatched .channelDetails .channelDetails (failsNaming_channelDetails hcmd)
        (fun _ h => h) (fun _ => rfl) (fun _ => rfl) _
    · exact replyTo_dispatched .newChannel .id (failsNaming_newChannel hcmd) (fun _ h => h)
        (fun _ => rfl) (fun _ => rfl) _
    · exact replyTo_dispatched .newUser .okay (failsNaming_newUser hcmd) (fun _ h => h)
        (fun _ => rfl) (fun _ => rfl) _
    · exact replyTo_dispatched .changePass .okay (failsNaming_changePass hcmd) (fun _ h => h)
        (fun _ => rfl) (fun _ => rfl) _
    · exact replyTo_dispatched .userDetails .userDetails (failsNaming_userDetails hcmd)
        (fun _ h => h) (fun _ => rfl) (fun _ => rfl) _
    · exact replyTo_dispatched .inviteUser .okay (failsNaming_inviteUser hcmd) (fun _ h => h)
        (fun _ => rfl) (fun _ => rfl) _

theorem cmd_of_checkCommand {α : Type} {command : String} {f : Unit → Except Exc α} {a : α}
    (h : (checkCommand command m >>= f) = .ok a) : m.cmd = ascii command := by
  unfold checkCommand at h
  split at h
  · assumption
  · cases h

/-- The command of a request type. -/
def Request.command : Request → String
  | .login _ => Commands.login
  | .logout _ => Commands.logout
  | .channelList _ => Commands.channelList
  | .channelMsg _ => Commands.channelMsg
  | .sendMsg _ => Commands.sendMsg
  | .channelDetails _ => Commands.channelDetails
  | .newChannel _ => Commands.newChannel
  | .newUser _ => Commands.newUser
  | .changePass _ => Commands.changePass
  | .userDetails _ => Commands.userDetails
  | .inviteUser _ => Commands.inviteUser

theorem Request.Parses.cmd {req : Request} (h : req.Parses m) : m.cmd = ascii req.command := by
  cases req with
  | login _ | logout _ | channelList _ | channelMsg _ | sendMsg _ | channelDetails _
  | newChannel _ | newUser _ | changePass _ | userDetails _ | inviteUser _ =>
    exact cmd_of_checkCommand h

/-- No two entries of the map have one command. -/
theorem switcher_keyed (turns : ℕ) : Table.Keyed (fun e => ascii e.1) (switcher turns) := by
  have hcommands : (switcher turns).map (fun e => ascii e.1) =
      (switcher 0).map (fun e => ascii e.1) := rfl
  rw [Table.Keyed, hcommands]
  decide +kernel

/-- The entry of a command is the one that is found. -/
theorem dispatch_eq {k : ℕ} (hk : k < 11) (hcmd : m.cmd = ascii ((switcher turns).get ⟨k, hk⟩).1) :
    dispatch turns m =
      catchProto (((switcher turns).get ⟨k, hk⟩).2 m) fun what => return excToMessage what := by
  have hfind := Table.lookup_of_mem (switcher_keyed turns) (List.get_mem (switcher turns) ⟨k, hk⟩)
  rw [← hcmd, Table.lookup] at hfind
  rw [dispatch, hfind]

/-- A message of an unknown command is answered as such. -/
theorem dispatch_of_unknown (h : ¬ KnownCommand m) :
    dispatch turns m = pure (invalidCommand m.cmd) := by
  have hnone : (switcher turns).find? (fun e => ascii e.1 = m.cmd) = none := by
    simpa [KnownCommand, switcher] using h
  rw [dispatch, hnone]

/-- A message that parses is handled as its request. -/
theorem dispatch_of_parses {req : Request} {o : Outcome Exc Response} {w' : World}
    (h : req.Parses m) (hrun : (respond turns req).run (perform env) w = (o, w')) :
    (dispatch turns m).run (perform env) w = (replyOf Response.toMessage o, w') := by
  cases req with
  | login r =>
    rw [dispatch_eq (k := 0) (by decide) h.cmd]
    exact replyTo_of_parses .login .token (fun _ => rfl) (fun _ => rfl) h hrun
  | logout r =>
    rw [dispatch_eq (k := 1) (by decide) h.cmd]
    exact replyTo_of_parses .logout .okay (fun _ => rfl) (fun _ => rfl) h hrun
  | channelList r =>
    rw [dispatch_eq (k := 2) (by decide) h.cmd]
    exact replyTo_of_parses .channelList .channelList (fun _ => rfl) (fun _ => rfl) h hrun
  | channelMsg r =>
    rw [dispatch_eq (k := 3) (by decide) h.cmd]
    exact replyTo_of_parses .channelMsg .channelMsg (fun _ => rfl) (fun _ => rfl) h hrun
  | sendMsg r =>
    rw [dispatch_eq (k := 4) (by decide) h.cmd]
    exact replyTo_of_parses .sendMsg .okay (fun _ => rfl) (fun _ => rfl) h hrun
  | channelDetails r =>
    rw [dispatch_eq (k := 5) (by decide) h.cmd]
    exact replyTo_of_parses .channelDetails .channelDetails (fun _ => rfl) (fun _ => rfl) h hrun
  | newChannel r =>
    rw [dispatch_eq (k := 6) (by decide) h.cmd]
    exact replyTo_of_parses .newChannel .id (fun _ => rfl) (fun _ => rfl) h hrun
  | newUser r =>
    rw [dispatch_eq (k := 7) (by decide) h.cmd]
    exact replyTo_of_parses .newUser .okay (fun _ => rfl) (fun _ => rfl) h hrun
  | changePass r =>
    rw [dispatch_eq (k := 8) (by decide) h.cmd]
    exact replyTo_of_parses .changePass .okay (fun _ => rfl) (fun _ => rfl) h hrun
  | userDetails r =>
    rw [dispatch_eq (k := 9) (by decide) h.cmd]
    exact replyTo_of_parses .userDetails .userDetails (fun _ => rfl) (fun _ => rfl) h hrun
  | inviteUser r =>
    rw [dispatch_eq (k := 10) (by decide) h.cmd]
    exact replyTo_of_parses .inviteUser .okay (fun _ => rfl) (fun _ => rfl) h hrun

end Dispatched
end Dotchat
