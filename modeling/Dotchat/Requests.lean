import Dotchat.Values
import Dotchat.Decoder

/-!
The requests of requests.hpp and their conversion from and to messages. A type
that can be an argument value is tied to its type tag; `requireArg` looks up a
key and checks the tag. What `ofMessage` throws is a `proto_error` whose text
names the key, unless an argument has lost its value, and `toMessage` followed by
`ofMessage` gives the request back, an empty description counting as an absent one.
-/
namespace Dotchat

/-- `matching_enum` and `matching_type`: the tag of a type of argument values. -/
class Representable (T : Type) (V : Type := Empty) where
  type : ValType
  toArg : T → Arg V
  ofArg : Arg V → Option T
  hasValue_toArg : ∀ v, (toArg v).HasValue type
  ofArg_toArg : ∀ v, ofArg (toArg v) = some v
  exists_of_hasValue : ∀ a, a.HasValue type → ∃ v, a = toArg v
  ofArg_valueless : ∀ v t, ofArg (.valueless v t) = none

open Representable

attribute [simp] ofArg_toArg ofArg_valueless

section Types

variable {V : Type}

instance : Representable Int32 V where
  type := .scalar .int32
  toArg v := .scalar (.int32 v)
  ofArg
    | .scalar (.int32 v) => some v
    | _ => none
  hasValue_toArg _ := rfl
  ofArg_toArg _ := rfl
  exists_of_hasValue a h := by
    cases a using Arg.casesOn with
    | scalar v => cases v <;> simp_all [Arg.HasValue, Arg.type, Scalar.type]
    | valueless _ _ | string _ | subObject _ | list _ _ => cases h
  ofArg_valueless _ _ := rfl

instance : Representable UInt32 V where
  type := .scalar .uint32
  toArg v := .scalar (.uint32 v)
  ofArg
    | .scalar (.uint32 v) => some v
    | _ => none
  hasValue_toArg _ := rfl
  ofArg_toArg _ := rfl
  exists_of_hasValue a h := by
    cases a using Arg.casesOn with
    | scalar v => cases v <;> simp_all [Arg.HasValue, Arg.type, Scalar.type]
    | valueless _ _ | string _ | subObject _ | list _ _ => cases h
  ofArg_valueless _ _ := rfl

instance : Representable Bytes V where
  type := .string
  toArg := .string
  ofArg
    | .string v => some v
    | _ => none
  hasValue_toArg _ := rfl
  ofArg_toArg _ := rfl
  exists_of_hasValue a h := by
    cases a using Arg.casesOn with
    | string v => exact ⟨v, rfl⟩
    | valueless _ _ | scalar _ | subObject _ | list _ _ => cases h
  ofArg_valueless _ _ := rfl

instance : Representable (ArgObj V) V where
  type := .subObject
  toArg := .subObject
  ofArg
    | .subObject v => some v
    | _ => none
  hasValue_toArg _ := rfl
  ofArg_toArg _ := rfl
  exists_of_hasValue a h := by
    cases a using Arg.casesOn with
    | subObject v => exact ⟨v, rfl⟩
    | valueless _ _ | scalar _ | string _ | list _ _ => cases h
  ofArg_valueless _ _ := rfl

instance : Representable (ArgList V) V where
  type := .list
  toArg := ArgList.toArg
  ofArg
    | .list t c => some ⟨t, c⟩
    | _ => none
  hasValue_toArg _ := rfl
  ofArg_toArg _ := rfl
  exists_of_hasValue a h := by
    cases a using Arg.casesOn with
    | list t c => exact ⟨⟨t, c⟩, rfl⟩
    | valueless _ _ | scalar _ | string _ | subObject _ => cases h
  ofArg_valueless _ _ := rfl

/-- The value of an argument whose tag was compared, `what` otherwise. The cast to the
value fails if the argument has lost it. -/
def castArg (T : Type) [Representable T V] (what : Bytes) (a : Arg V) : Except Exc T :=
  if a.type = type T V then
    match ofArg a with
    | some v => .ok v
    | none => .error .badAnyCast
  else .error (.protoError what)

/-- The texts of `require_arg`. -/
def missingText (key : String) : Bytes := ascii "Key `" ++ ascii key ++ ascii "` not present."

def typeText (key : String) : Bytes :=
  ascii "Key `" ++ ascii key ++ ascii "` doesn't have the correct type."

/-- `require_arg` -/
def requireArg (T : Type) [Representable T V] (key : String) (source : ArgObj V) :
    Except Exc T :=
  match source.find? (ascii key) with
  | none => .error (.protoError (missingText key))
  | some a => castArg T (typeText key) a

/-- `check_command` -/
def checkCommand (command : String) (m : Message V) : Except Exc Unit :=
  if m.cmd = ascii command then .ok ()
  else .error (.protoError
    (ascii "Expected command `" ++ ascii command ++ ascii "`, but got `" ++ m.cmd ++ ascii "`"))

end Types

/-- `paired` -/
def paired {T : Type} [Representable T] (key : String) (val : T) : Bytes × Arg :=
  (ascii key, toArg val)

section Casts

variable {V T : Type} [Representable T V]

theorem type_toArg (v : T) : (toArg v : Arg V).type = type T V := (hasValue_toArg v).type_eq

theorem castArg_toArg (what : Bytes) (v : T) : castArg T what (toArg v : Arg V) = .ok v := by
  rw [castArg, if_pos (type_toArg v), ofArg_toArg]

/-- What a cast can come to. -/
theorem castArg_cases (T : Type) [Representable T V] (what : Bytes) (a : Arg V) :
    (∃ v, a = toArg v ∧ castArg T what a = .ok v) ∨
      (a.LostValue (type T V) ∧ castArg T what a = .error .badAnyCast) ∨
      (a.type ≠ type T V ∧ castArg T what a = .error (.protoError what)) := by
  by_cases htype : a.type = type T V
  · rcases Arg.type_eq_iff.mp htype with hvalue | hlost
    · obtain ⟨v, rfl⟩ := exists_of_hasValue a hvalue
      exact .inl ⟨v, rfl, castArg_toArg what v⟩
    · refine .inr (.inl ⟨hlost, ?_⟩)
      obtain ⟨x, rfl⟩ := hlost.exists_eq
      simp [castArg, Arg.type]
  · exact .inr (.inr ⟨htype, if_neg htype⟩)

theorem castArg_eq_ok {what : Bytes} {a : Arg V} {v : T} (h : castArg T what a = .ok v) :
    a = toArg v := by
  rcases castArg_cases T what a with ⟨w, hw, hcast⟩ | ⟨-, hcast⟩ | ⟨-, hcast⟩
  · rw [hcast] at h
    cases h
    exact hw
  · rw [hcast] at h
    cases h
  · rw [hcast] at h
    cases h

theorem requireArg_eq_ok {key : String} {o : ArgObj V} {v : T} (h : requireArg T key o = .ok v) :
    o.find? (ascii key) = some (toArg v) := by
  unfold requireArg at h
  cases hfind : o.find? (ascii key) with
  | none =>
    rw [hfind] at h
    cases h
  | some a =>
    rw [hfind] at h
    rw [castArg_eq_ok h]

end Casts

section Lookup

variable {T : Type} [Representable T]

/-- A cast fails with its text only: a value with the right tag is returned. -/
theorem castArg_eq_error {what : Bytes} {a : Arg} {e : Exc} (h : castArg T what a = .error e) :
    e = .protoError what := by
  rcases castArg_cases T what a with ⟨w, -, hcast⟩ | ⟨hlost, -⟩ | ⟨-, hcast⟩
  · rw [hcast] at h
    cases h
  · exact absurd hlost Arg.not_lostValue
  · rw [hcast] at h
    cases h
    rfl

/-- A lookup fails with one of the two texts for its key. -/
theorem requireArg_eq_error {key : String} {o : ArgObj} {e : Exc}
    (h : requireArg T key o = .error e) :
    e = .protoError (missingText key) ∨ e = .protoError (typeText key) := by
  unfold requireArg at h
  cases hfind : o.find? (ascii key) with
  | none =>
    rw [hfind] at h
    cases h
    exact .inl rfl
  | some a =>
    rw [hfind] at h
    exact .inr (castArg_eq_error h)

end Lookup

namespace Commands

def login := "login"
def logout := "logout"
def channelList := "channel_lst"
def channelMsg := "channel_msg"
def sendMsg := "msg_send"
def channelDetails := "chan_detail"
def newChannel := "new_chan"
def newUser := "new_usr"
def changePass := "ch_pass"
def userDetails := "usr_detail"
def inviteUser := "invite"

end Commands

structure TokenRequest where
  token : Int32
  deriving DecidableEq

structure LoginRequest where
  user : Bytes
  pass : Bytes
  deriving DecidableEq

structure LogoutRequest extends TokenRequest
  deriving DecidableEq

structure ChannelListRequest extends TokenRequest
  deriving DecidableEq

structure ChannelMsgRequest extends TokenRequest where
  chanId : Int32
  deriving DecidableEq

structure MessageSendRequest extends TokenRequest where
  chanId : Int32
  msgCnt : Bytes
  deriving DecidableEq

structure ChannelDetailsRequest extends TokenRequest where
  chanId : Int32
  deriving DecidableEq

structure NewChannelRequest extends TokenRequest where
  name : Bytes
  desc : Option Bytes
  deriving DecidableEq

structure NewUserRequest where
  name : Bytes
  pass : Bytes
  deriving DecidableEq

structure ChangePassRequest extends TokenRequest where
  newPass : Bytes
  deriving DecidableEq

structure UserDetailsRequest extends TokenRequest where
  uid : Int32
  deriving DecidableEq

structure InviteUserRequest extends TokenRequest where
  uid : Int32
  chanId : Int32
  deriving DecidableEq

namespace TokenRequest

def ofMessage {V : Type} (m : Message V) : Except Exc TokenRequest := do
  let token ← requireArg Int32 "token" m.args
  return { token := token }

/-- `to_intl` -/
def toIntl (r : TokenRequest) (command : String) : Message :=
  .ofValues (ascii command) [paired "token" r.token]

end TokenRequest

namespace LoginRequest

def ofMessage {V : Type} (m : Message V) : Except Exc LoginRequest := do
  checkCommand Commands.login m
  let user ← requireArg Bytes "user" m.args
  let pass ← requireArg Bytes "pass" m.args
  return { user := user, pass := pass }

def toMessage (r : LoginRequest) : Message :=
  .ofValues (ascii Commands.login) [paired "user" r.user, paired "pass" r.pass]

end LoginRequest

namespace LogoutRequest

def ofMessage {V : Type} (m : Message V) : Except Exc LogoutRequest := do
  checkCommand Commands.logout m
  let base ← TokenRequest.ofMessage m
  return { base with }

def toMessage (r : LogoutRequest) : Message := r.toIntl Commands.logout

end LogoutRequest

namespace ChannelListRequest

def ofMessage {V : Type} (m : Message V) : Except Exc ChannelListRequest := do
  checkCommand Commands.channelList m
  let base ← TokenRequest.ofMessage m
  return { base with }

def toMessage (r : ChannelListRequest) : Message := r.toIntl Commands.channelList

end ChannelListRequest

namespace ChannelMsgRequest

def ofMessage {V : Type} (m : Message V) : Except Exc ChannelMsgRequest := do
  checkCommand Commands.channelMsg m
  let base ← TokenRequest.ofMessage m
  let chanId ← requireArg Int32 "chan_id" m.args
  return { base with chanId := chanId }

def toMessage (r : ChannelMsgRequest) : Message :=
  (r.toIntl Commands.channelMsg).modified [paired "chan_id" r.chanId]

end ChannelMsgRequest

namespace MessageSendRequest

def ofMessage {V : Type} (m : Message V) : Except Exc MessageSendRequest := do
  checkCommand Commands.sendMsg m
  let base ← TokenRequest.ofMessage m
  let chanId ← requireArg Int32 "chan_id" m.args
  let msgCnt ← requireArg Bytes "msg_cnt" m.args
  return { base with chanId := chanId, msgCnt := msgCnt }

def toMessage (r : MessageSendRequest) : Message :=
  (r.toIntl Commands.sendMsg).modified [paired "chan_id" r.chanId, paired "msg_cnt" r.msgCnt]

end MessageSendRequest

namespace ChannelDetailsRequest

def ofMessage {V : Type} (m : Message V) : Except Exc ChannelDetailsRequest := do
  checkCommand Commands.channelDetails m
  let base ← TokenRequest.ofMessage m
  let chanId ← requireArg Int32 "chan_id" m.args
  return { base with chanId := chanId }

def toMessage (r : ChannelDetailsRequest) : Message :=
  (r.toIntl Commands.channelDetails).modified [paired "chan_id" r.chanId]

end ChannelDetailsRequest

/-- An empty description stands for an absent one. -/
def descOf (desc : Bytes) : Option Bytes := if desc = [] then none else some desc

namespace NewChannelRequest

def ofMessage {V : Type} (m : Message V) : Except Exc NewChannelRequest := do
  checkCommand Commands.newChannel m
  let base ← TokenRequest.ofMessage m
  let desc ← requireArg Bytes "desc" m.args
  let name ← requireArg Bytes "name" m.args
  return { base with name := name, desc := descOf desc }

def toMessage (r : NewChannelRequest) : Message :=
  (r.toIntl Commands.newChannel).modified
    [paired "name" r.name, paired "desc" (r.desc.getD [])]

end NewChannelRequest

namespace NewUserRequest

def ofMessage {V : Type} (m : Message V) : Except Exc NewUserRequest := do
  checkCommand Commands.newUser m
  let name ← requireArg Bytes "name" m.args
  let pass ← requireArg Bytes "pass" m.args
  return { name := name, pass := pass }

def toMessage (r : NewUserRequest) : Message :=
  .ofValues (ascii Commands.newUser) [paired "name" r.name, paired "pass" r.pass]

end NewUserRequest

namespace ChangePassRequest

def ofMessage {V : Type} (m : Message V) : Except Exc ChangePassRequest := do
  checkCommand Commands.changePass m
  let base ← TokenRequest.ofMessage m
  let newPass ← requireArg Bytes "new_pass" m.args
  return { base with newPass := newPass }

def toMessage (r : ChangePassRequest) : Message :=
  (r.toIntl Commands.changePass).modified [paired "new_pass" r.newPass]

end ChangePassRequest

namespace UserDetailsRequest

def ofMessage {V : Type} (m : Message V) : Except Exc UserDetailsRequest := do
  checkCommand Commands.userDetails m
  let base ← TokenRequest.ofMessage m
  let uid ← requireArg Int32 "uid" m.args
  return { base with uid := uid }

def toMessage (r : UserDetailsRequest) : Message :=
  (r.toIntl Commands.userDetails).modified [paired "uid" r.uid]

end UserDetailsRequest

namespace InviteUserRequest

def ofMessage {V : Type} (m : Message V) : Except Exc InviteUserRequest := do
  checkCommand Commands.inviteUser m
  let base ← TokenRequest.ofMessage m
  let uid ← requireArg Int32 "uid" m.args
  let chanId ← requireArg Int32 "chan_id" m.args
  return { base with uid := uid, chanId := chanId }

def toMessage (r : InviteUserRequest) : Message :=
  (r.toIntl Commands.inviteUser).modified [paired "uid" r.uid, paired "chan_id" r.chanId]

end InviteUserRequest

section RoundTrip

theorem LoginRequest.ofMessage_toMessage (r : LoginRequest) : ofMessage r.toMessage = .ok r := rfl

theorem LogoutRequest.ofMessage_toMessage (r : LogoutRequest) :
    ofMessage r.toMessage = .ok r := rfl

theorem ChannelListRequest.ofMessage_toMessage (r : ChannelListRequest) :
    ofMessage r.toMessage = .ok r := rfl

theorem ChannelMsgRequest.ofMessage_toMessage (r : ChannelMsgRequest) :
    ofMessage r.toMessage = .ok r := rfl

theorem MessageSendRequest.ofMessage_toMessage (r : MessageSendRequest) :
    ofMessage r.toMessage = .ok r := rfl

theorem ChannelDetailsRequest.ofMessage_toMessage (r : ChannelDetailsRequest) :
    ofMessage r.toMessage = .ok r := rfl

theorem NewChannelRequest.ofMessage_toMessage (r : NewChannelRequest) :
    ofMessage r.toMessage = .ok { r with desc := descOf (r.desc.getD []) } := rfl

theorem NewUserRequest.ofMessage_toMessage (r : NewUserRequest) :
    ofMessage r.toMessage = .ok r := rfl

theorem ChangePassRequest.ofMessage_toMessage (r : ChangePassRequest) :
    ofMessage r.toMessage = .ok r := rfl

theorem UserDetailsRequest.ofMessage_toMessage (r : UserDetailsRequest) :
    ofMessage r.toMessage = .ok r := rfl

theorem InviteUserRequest.ofMessage_toMessage (r : InviteUserRequest) :
    ofMessage r.toMessage = .ok r := rfl

end RoundTrip
end Dotchat
