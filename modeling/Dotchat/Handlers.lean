import Dotchat.Database
import Dotchat.Responses

/-!
The handlers of the server, as programs over the operations of the database.
Each follows its source: which operation comes when, which test throws which
text. `replyTo` parses the request, runs the handler and turns a `proto_error`
into an error response; every other exception escapes it. The loop in which
`login` looks for a free key is bounded by a number of turns, since it need not
end.
-/
namespace Dotchat

open Db

abbrev Handler (α : Type) := Program Call Call.Answer Exc α

/-- Perform an operation. -/
def invoke (c : Call) : Handler c.Answer := Program.invoke c

/-- `throw proto_error(what)` -/
def protoThrow {α : Type} (what : Bytes) : Handler α := Program.throw (.protoError what)

/-- `std::optional::value` -/
def value {α : Type} : Option α → Handler α
  | some a => return a
  | none => Program.throw .badOptionalAccess

/-- `try { p } catch(const proto_error &e) { handler(e.what()) }`: `what()` is a
C string. -/
def catchProto {α : Type} (p : Handler α) (handler : Bytes → Handler α) : Handler α :=
  p.tryCatch fun
    | .protoError what => handler (cString what)
    | e => Program.throw e

/-- `std::to_string` -/
def toText (n : Int32) : Bytes := ascii (toString n.toInt)

/-- `exc_to_message` for a `proto_error` with the given text -/
def excToMessage (what : Bytes) : Message :=
  .ofValues (ascii "err") [paired "reason" (cString what)]

def tokenText (key : Int32) : Bytes :=
  ascii "Token `" ++ toText key ++ ascii "` is invalid or has expired. Please log-in again."

/-- `tmp.value().valid_until >= db::now()`, compared as 64-bit numbers -/
def SessionLive (validUntil : Int64) (now : UInt32) : Prop := now.toUInt64.toInt64 ≤ validUntil

instance (validUntil : Int64) (now : UInt32) : Decidable (SessionLive validUntil now) :=
  inferInstanceAs (Decidable (_ ≤ _))

/-- `check_session_key` -/
def checkSessionKey (key : Int32) : Handler User := do
  match ← invoke (.getSessionKey key) with
  | some tmp =>
      let now ← invoke .now
      if SessionLive tmp.validUntil now then
        let user ← invoke (.getUser tmp.user)
        value user
      else protoThrow (tokenText key)
  | none => protoThrow (tokenText key)

/-- `user_can_access` -/
def userCanAccess (uid chanId : Int32) : Handler Bool := do
  let member ← invoke (.getChannelMember uid chanId)
  return member.isSome

/-- `reply_to` -/
def replyTo {Req Res : Type} (ofMessage : Message → Except Exc Req)
    (toMessage : Res → Except Exc Message) (m : Message) (f : Req → Handler Res) :
    Handler Message :=
  catchProto (do
      let req ← Program.ofExcept (ofMessage m)
      let res ← f req
      Program.ofExcept (toMessage res))
    fun reason => return ErrorResponse.toMessage { reason := reason }

namespace Handlers

def unknownUserText (user : Bytes) : Bytes := ascii "User `" ++ user ++ ascii "` doesn't exist."

def wrongPassText (user : Bytes) : Bytes := ascii "Password for `" ++ user ++ ascii "` incorrect."

/-- One turn of the loop of `login`: whether the key is still free. The key
that is generated when it is not goes nowhere. -/
def keyIsFree (key : Int32) : Handler Bool :=
  catchProto (do
      let _ ← checkSessionKey key
      let _ ← invoke .genKey
      return false)
    fun _ => return true

/-- `while(!okay)` -/
def awaitFreeKey (key : Int32) : ℕ → Handler Unit
  | 0 => .done .running
  | turns + 1 => do
      let okay ← keyIsFree key
      if okay then return () else awaitFreeKey key turns

/-- 24 hours, in nanoseconds -/
def sessionLength : Int64 := 86400000000000

def login (turns : ℕ) (l : LoginRequest) : Handler TokenResponse := do
  match ← invoke (.usersNamed l.user) with
  | [] => protoThrow (unknownUserText l.user)
  | user :: _ =>
      if user.pass ≠ l.pass then protoThrow (wrongPassText l.user)
      else
        let key ← invoke .genKey
        awaitFreeKey key turns
        let now ← invoke .nowUncut
        invoke (.replaceSessionKey
          { key := key, user := user.id, validUntil := now + sessionLength })
        return { token := key }

def logout (req : LogoutRequest) : Handler OkayResponse := do
  let user ← checkSessionKey req.token
  invoke (.removeSessionKeysOf user.id)
  return {}

def channelList (req : ChannelListRequest) : Handler ChannelListResponse := do
  let user ← checkSessionKey req.token
  let channelData ← invoke (.channelsOf user.id)
  return { data := channelData.map fun (id, name) => { id := id, name := name } }

def channelMsg (req : ChannelMsgRequest) : Handler ChannelMsgResponse := do
  let user ← checkSessionKey req.token
  if ← userCanAccess user.id req.chanId then
    let res ← invoke (.messagesOf req.chanId)
    return { msgs := res.map fun msg =>
      { sender := msg.sender, sentWhen := msg.sentWhen, cnt := msg.content } }
  else protoThrow (ascii "You can't access that channel, or that channel doesn't exist.")

def sendMsg (msg : MessageSendRequest) : Handler OkayResponse := do
  let user ← checkSessionKey msg.token
  if ← userCanAccess user.id msg.chanId then
    let now ← invoke .now
    invoke (.insertMessage user.id msg.chanId msg.msgCnt now)
    return {}
  else protoThrow (ascii "You are not permitted to send messages in that channel.")

def channelDetails (req : ChannelDetailsRequest) : Handler ChannelDetailsResponse := do
  let user ← checkSessionKey req.token
  let members ← invoke (.membersOf req.chanId)
  if user.id ∈ members then
    match ← invoke (.getChannel req.chanId) with
    | some channel =>
        return {
          id := channel.id
          name := channel.name
          ownerId := channel.ownerId
          desc := channel.desc
          members := members }
    | none => protoThrow (ascii "That channel doesn't exist.")
  else protoThrow (ascii "You can't access that channel.")

def newChannel (req : NewChannelRequest) : Handler IdResponse := do
  let user ← checkSessionKey req.token
  let id ← invoke (.insertChannel req.name user.id req.desc)
  invoke (.replaceChannelMember { user := user.id, channel := id })
  return { id := id }

def newUser (req : NewUserRequest) : Handler OkayResponse := do
  invoke (.insertUser req.name req.pass)
  return {}

def changePass (req : ChangePassRequest) : Handler OkayResponse := do
  let user ← checkSessionKey req.token
  invoke (.updateUser { id := user.id, name := user.name, pass := req.newPass })
  return {}

def noUserText (uid : Int32) : Bytes :=
  ascii "User with ID `" ++ toText uid ++ ascii "` doesn't exist."

def userDetails (req : UserDetailsRequest) : Handler UserDetailsResponse := do
  let _ ← checkSessionKey req.token
  match ← invoke (.getUser req.uid) with
  | some user =>
      let mutChan ← invoke (.mutualChannels req.uid user.id)
      return { id := user.id, name := user.name, mutualChannels := mutChan }
  | none => protoThrow (noUserText req.uid)

def noChannelText (id : Int32) : Bytes :=
  ascii "There is no channel with ID " ++ toText id ++ ascii "."

def noInviteeText (uid : Int32) : Bytes :=
  ascii "There is no user with ID " ++ toText uid ++ ascii "."

/-- `invite_user` behind the checks of the channel -/
def inviteTo (chan : Channel) (req : InviteUserRequest) : Handler OkayResponse := do
  match ← invoke (.getUser req.uid) with
  | some other =>
      let alreadyJoined ← invoke (.membershipsOf req.chanId req.uid)
      if alreadyJoined ≠ [] then
        protoThrow (ascii "That user has already joined that channel.")
      else
        invoke (.replaceChannelMember { user := other.id, channel := chan.id })
        return {}
  | none => protoThrow (noInviteeText req.uid)

def inviteUser (req : InviteUserRequest) : Handler OkayResponse := do
  let user ← checkSessionKey req.token
  match ← invoke (.getChannel req.chanId) with
  | some chan =>
      if chan.ownerId ≠ user.id then
        protoThrow (ascii "Only the creator of a channel can add users to that channel.")
      else inviteTo chan req
  | none => protoThrow (noChannelText req.chanId)

/-- The map from commands to handlers. -/
def switcher (turns : ℕ) : List (String × (Message → Handler Message)) :=
  let okay := fun (r : OkayResponse) => Except.ok r.toMessage
  [(Commands.login, fun m =>
      replyTo LoginRequest.ofMessage (fun r => .ok (TokenResponse.toMessage r)) m (login turns)),
    (Commands.logout, fun m => replyTo LogoutRequest.ofMessage okay m logout),
    (Commands.channelList, fun m =>
      replyTo ChannelListRequest.ofMessage ChannelListResponse.toMessage m channelList),
    (Commands.channelMsg, fun m =>
      replyTo ChannelMsgRequest.ofMessage ChannelMsgResponse.toMessage m channelMsg),
    (Commands.sendMsg, fun m => replyTo MessageSendRequest.ofMessage okay m sendMsg),
    (Commands.channelDetails, fun m =>
      replyTo ChannelDetailsRequest.ofMessage ChannelDetailsResponse.toMessage m channelDetails),
    (Commands.newChannel, fun m =>
      replyTo NewChannelRequest.ofMessage (fun r => .ok (IdResponse.toMessage r)) m newChannel),
    (Commands.newUser, fun m => replyTo NewUserRequest.ofMessage okay m newUser),
    (Commands.changePass, fun m => replyTo ChangePassRequest.ofMessage okay m changePass),
    (Commands.userDetails, fun m =>
      replyTo UserDetailsRequest.ofMessage UserDetailsResponse.toMessage m userDetails),
    (Commands.inviteUser, fun m => replyTo InviteUserRequest.ofMessage okay m inviteUser)]

end Handlers

/-- `invalid_command` -/
def invalidCommand (cmnd : Bytes) : Message :=
  excToMessage (ascii "Command `" ++ cmnd ++ ascii "` is invalid.")

/-- `handle`, from the parsed message on -/
def dispatch (turns : ℕ) (got : Message) : Handler Message :=
  match (Handlers.switcher turns).find? fun e => ascii e.1 = got.cmd with
  | some (_, handler) => catchProto (handler got) fun what => return excToMessage what
  | none => return invalidCommand got.cmd

end Dotchat
