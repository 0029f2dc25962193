import Dotchat.Connection
import Dotchat.Console
import Dotchat.Library.Protocol

/-!
The interface of the client, as programs over the calls it makes: readings of
the standard input and requests to the server. The menus are nested loops. Those
inside the channel list give up on a `cli_error` and return to the menu above,
the main menu goes on, and the login step ends the client; `choose_user` treats
every exception alike and asks again. Each loop is given a number of turns, since
it need not end. What is printed is left out.
-/
namespace Dotchat

/-- The response type with which `run_boilerplate` is called for a request. -/
abbrev Request.Expected : Request → Type
  | .login _ => TokenResponse
  | .newChannel _ => IdResponse
  | .channelList _ => ChannelListResponse
  | .channelMsg _ => ChannelMsgResponse
  | .channelDetails _ => ChannelDetailsResponse
  | .userDetails _ => UserDetailsResponse
  | .logout _ | .sendMsg _ | .newUser _ | .changePass _ | .inviteUser _ => OkayResponse

def Request.readExpected : (req : Request) → Message → Except Exc req.Expected
  | .login _ => TokenResponse.ofMessage
  | .newChannel _ => IdResponse.ofMessage
  | .channelList _ => ChannelListResponse.ofMessage
  | .channelMsg _ => ChannelMsgResponse.ofMessage
  | .channelDetails _ => ChannelDetailsResponse.ofMessage
  | .userDetails _ => UserDetailsResponse.ofMessage
  | .logout _ | .sendMsg _ | .newUser _ | .changePass _ | .inviteUser _ => OkayResponse.ofMessage

/-- `cli_error` -/
def CallFault.IsCliError : CallFault → Prop
  | .nonOkay | .unparsable => True
  | .unsent _ | .noReply | .unread _ | .thrown _ => False

instance (e : CallFault) : Decidable e.IsCliError := by
  cases e <;> unfold CallFault.IsCliError <;> infer_instance

/-- `std::exception`; an access outside the bounds of a buffer is none. -/
def CallFault.IsException : CallFault → Prop
  | .unsent f | .unread f => ∃ e, f = .thrown e
  | .noReply | .nonOkay | .unparsable | .thrown _ => True

instance (f : Fault) : Decidable (∃ e, f = .thrown e) :=
  match f with
  | .thrown e => isTrue ⟨e, rfl⟩
  | .outOfBounds => isFalse (by simp)
  | .outOfFuel => isFalse (by simp)

instance (e : CallFault) : Decidable e.IsException := by
  cases e <;> unfold CallFault.IsException <;> infer_instance

inductive ClientCall
  | getline
  | readWord
  | readInt
  | send (req : Request)
  deriving DecidableEq

/-- A reading gives the new value of the variable, if it stores one. -/
abbrev ClientCall.Answer : ClientCall → Type
  | .getline | .readWord => Option Bytes
  | .readInt => Option Int32
  | .send req => req.Expected

abbrev Cli (α : Type) := Program ClientCall ClientCall.Answer CallFault α

/-- What answers the requests of the client. -/
abbrev Service (V : Type) := (req : Request) → V → Except CallFault req.Expected × V

/-- The client at work, with a console and a service. -/
def clientStore {V : Type} (service : Service V) :
    Program.Store ClientCall ClientCall.Answer CallFault (Console × V)
  | .getline, (cin, v) => (.ok cin.getline.1, cin.getline.2, v)
  | .readWord, (cin, v) => (.ok cin.readWord.1, cin.readWord.2, v)
  | .readInt, (cin, v) => (.ok cin.readInt.1, cin.readInt.2, v)
  | .send req, (cin, v) => ((service req v).1, cin, (service req v).2)

namespace Cli

variable {α : Type}

def invoke (c : ClientCall) : Cli c.Answer := Program.invoke c

/-- `catch(cli::cli_error &)` -/
def catchCliError (p handler : Cli α) : Cli α :=
  p.tryCatch fun e => if e.IsCliError then handler else Program.throw e

/-- `catch(std::exception &)` -/
def catchException (p handler : Cli α) : Cli α :=
  p.tryCatch fun e => if e.IsException then handler else Program.throw e

/-- `std::getline(std::cin, line)` -/
def getline (line : Bytes) : Cli Bytes := do
  let got ← invoke .getline
  pure (got.getD line)

/-- `std::cin >> word` -/
def readWord (word : Bytes) : Cli Bytes := do
  let got ← invoke .readWord
  pure (got.getD word)

/-- `std::cin >> n` -/
def readInt (n : Int32) : Cli Int32 := do
  let got ← invoke .readInt
  pure (got.getD n)

def flush : Cli Unit := do
  let _ ← getline []
  pure ()

/-- `run_boilerplate` -/
def send (req : Request) : Cli req.Expected := invoke (.send req)

section Requests

def sendLogin : Cli Int32 := do
  let name ← readWord []
  flush
  let pass ← readWord []
  flush
  let res ← send (.login { user := name, pass })
  pure res.token

def sendLogout (token : Int32) : Cli OkayResponse := send (.logout { token })

/-- The loop in which a password has to be repeated; `pass1` and `pass2` are what
the turn before has left in the variables. -/
def repeatPassword : Bytes → Bytes → ℕ → Cli Bytes
  | _, _, 0 => .done .running
  | pass1, pass2, turns + 1 => do
      let pass1 ← readWord pass1
      flush
      let pass2 ← readWord pass2
      flush
      if pass1 = pass2 then pure pass1 else repeatPassword pass1 pass2 turns

def sendNewUser (turns : ℕ) : Cli OkayResponse := do
  let name ← readWord []
  flush
  let pass ← repeatPassword [] [] turns
  send (.newUser { name, pass })

def sendChangePass (turns : ℕ) (token : Int32) : Cli OkayResponse := do
  let newPass ← repeatPassword [] [] turns
  send (.changePass { token, newPass })

def sendUserDetails (token uid : Int32) : Cli UserDetailsResponse :=
  send (.userDetails { token, uid })

def sendUserInvite (token uid chanId : Int32) : Cli OkayResponse :=
  send (.inviteUser { token, uid, chanId })

def sendChannelList (token : Int32) : Cli ChannelListResponse := send (.channelList { token })

def sendChannelMessageList (token chanId : Int32) : Cli ChannelMsgResponse :=
  send (.channelMsg { token, chanId })

def sendChannelDetails (token chanId : Int32) : Cli ChannelDetailsResponse :=
  send (.channelDetails { token, chanId })

def sendSendMessage (token chanId : Int32) : Cli OkayResponse := do
  let msg ← getline []
  send (.sendMsg { token, chanId, msgCnt := msg })

/-- The name of a channel begins with a `#`. -/
def hashed (name : Bytes) : Bytes := if name.head? = some 35 then name else 35 :: name

def sendCreateChannel (token : Int32) : Cli IdResponse := do
  let name ← readWord []
  flush
  let desc ← getline []
  send (.newChannel { token, name := hashed name, desc := descOf desc })

end Requests

section Questions

inductive LoginAction
  | login | signup | quit
  deriving DecidableEq

inductive MainAction
  | logout | chanList | newChan | chPass | quit
  deriving DecidableEq

inductive ChanAction
  | getMsgs | sendMsg | getUsrs | inviteUsr | back | quit
  deriving DecidableEq

/-- A map from what is typed to what is meant. -/
def optionOf {A : Type} (options : List (String × A)) (resp : Bytes) : Option A :=
  (options.find? fun o => ascii o.1 = resp).map (·.2)

def loginOptions : List (String × LoginAction) := [(".l", .login), (".s", .signup), (".q", .quit)]

def mainOptions : List (String × MainAction) :=
  [(".cs", .chanList), (".cc", .newChan), (".cp", .chPass), (".l", .logout), (".q", .quit)]

def chanOptions : List (String × ChanAction) :=
  [(".m", .getMsgs), (".s", .sendMsg), (".u", .getUsrs), (".i", .inviteUsr), (".b", .back),
    (".q", .quit)]

/-- The answer is asked for in a variable that outlives the turns. -/
def requestLogin : Bytes → ℕ → Cli LoginAction
  | _, 0 => .done .running
  | resp, turns + 1 => do
      let resp ← getline resp
      match optionOf loginOptions resp with
      | some act => pure act
      | none => requestLogin resp turns

/-- The answer is asked for in a new variable each time. -/
def requestOption {A : Type} (options : List (String × A)) : ℕ → Cli A
  | 0 => .done .running
  | turns + 1 => do
      let resp ← getline []
      match optionOf options resp with
      | some act => pure act
      | none => requestOption options turns

def requestAction : ℕ → Cli MainAction := requestOption mainOptions

def requestChanAction : ℕ → Cli ChanAction := requestOption chanOptions

/-- `YNRESPONDER` in its loop -/
def yesNo : ℕ → Cli Bool := requestOption [("y", true), ("n", false)]

def loginAfterSignup : ℕ → Cli Bool := yesNo

def confirmUser : ℕ → Cli Bool := yesNo

end Questions

section Menus

/-- A user is asked for until one is found and confirmed. The number that was
typed is returned, not the one in the reply. -/
def chooseUser (confirmTurns : ℕ) (token : Int32) : Int32 → ℕ → Cli Int32
  | _, 0 => .done .running
  | uid, turns + 1 => do
      let uid ← readInt uid
      let invUser ← catchException
        (do
          let _ ← sendUserDetails token uid
          let confirmed ← confirmUser confirmTurns
          pure (!confirmed))
        (pure true)
      if invUser then chooseUser confirmTurns token uid turns else pure uid

/-- The details of each member are asked for, in order. -/
def showMembers (token : Int32) : List Int32 → Cli Unit
  | [] => pure ()
  | uid :: members => do
      let _ ← sendUserDetails token uid
      showMembers token members

variable (turns : ℕ) (uninit : Int32)

/-- The action that was chosen for a channel, and whether the loop returns with
it. The variable of `choose_user` has no initial value. -/
def channelAction (token chanId : Int32) (members : List Int32) : ChanAction → Cli (Option Bool)
  | .getMsgs => do
      let _ ← sendChannelMessageList token chanId
      pure none
  | .sendMsg => do
      let _ ← sendSendMessage token chanId
      pure none
  | .getUsrs => do
      showMembers token members
      pure none
  | .inviteUsr => do
      let uid ← chooseUser turns token uninit turns
      let _ ← sendUserInvite token uid chanId
      pure none
  | .back => pure (some false)
  | .quit => pure (some true)

/-- The loop of `run_in_channel_menu`. -/
def inChannelLoop (token chanId : Int32) (members : List Int32) : ℕ → Cli Bool
  | 0 => .done .running
  | n + 1 => do
      let act ← requestChanAction turns
      match ← channelAction turns uninit token chanId members act with
      | some quit => pure quit
      | none => inChannelLoop token chanId members n

/-- Whether the client is to quit. -/
def runInChannelMenu (token chanId : Int32) : Cli Bool :=
  catchCliError
    (do
      let chan ← sendChannelDetails token chanId
      inChannelLoop turns uninit token chanId chan.members turns)
    (pure false)

/-- The inner loop of `run_channel_menu`, which ends with the list being asked for
again (`none`) or the menu being left. -/
def listChoice (token : Int32) : ℕ → Cli (Option Bool)
  | 0 => .done .running
  | n + 1 => do
      let resp ← getline []
      if resp = ascii ".c" then
        let id ← readInt uninit
        flush
        if ← runInChannelMenu turns uninit token id then pure (some true) else pure none
      else if resp = ascii ".b" then pure (some false)
      else if resp = ascii ".r" then pure none
      else if resp = ascii ".q" then pure (some true)
      else listChoice token n

def channelMenuLoop (token : Int32) : ℕ → Cli Bool
  | 0 => .done .running
  | n + 1 => do
      let _ ← sendChannelList token
      match ← listChoice turns uninit token turns with
      | some quit => pure quit
      | none => channelMenuLoop token n

def runChannelMenu (token : Int32) : Cli Bool :=
  catchCliError (channelMenuLoop turns uninit token turns) (pure false)

/-- A choice in the main menu, and whether the loop is left with it: for a new
login (`false`) or for good. -/
def mainAction (token : Int32) : MainAction → Cli (Option Bool)
  | .logout => do
      let _ ← sendLogout token
      pure (some false)
  | .chanList => do
      if ← runChannelMenu turns uninit token then pure (some true) else pure none
  | .newChan => do
      let _ ← sendCreateChannel token
      pure none
  | .chPass => do
      let _ ← sendChangePass turns token
      pure none
  | .quit => pure (some true)

/-- The loop of step two of `run_wait_loop`. -/
def mainLoop (token : Int32) : ℕ → Cli Bool
  | 0 => .done .running
  | n + 1 => do
      let left ← catchCliError
        (do
          let act ← requestAction turns
          mainAction turns uninit token act)
        (pure none)
      match left with
      | some quit => pure quit
      | none => mainLoop token n

/-- How step one of `run_wait_loop` ends. -/
inductive LoginStep
  | leave
  | again
  | loggedIn (token : Int32)

def loginStep : Cli LoginStep :=
  catchCliError
    (do
      match ← requestLogin [] turns with
      | .quit => pure .leave
      | .login => do
          let token ← sendLogin
          pure (.loggedIn token)
      | .signup => do
          let _ ← sendNewUser turns
          if ← loginAfterSignup turns then
            let token ← sendLogin
            pure (.loggedIn token)
          else pure .again)
    (pure .leave)

def runWaitLoop : ℕ → Cli Unit
  | 0 => .done .running
  | n + 1 => do
      match ← loginStep turns with
      | .leave => pure ()
      | .again => runWaitLoop n
      | .loggedIn token =>
          if ← mainLoop turns uninit token turns then pure () else runWaitLoop n

end Menus
end Cli
end Dotchat
