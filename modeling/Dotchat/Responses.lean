import Dotchat.Requests

/-!
The responses of requests.hpp and their conversion from and to messages. A
response with a list is sent as an `arg_list` that is filled by `push_back`;
the values have one type, so that no push is refused. Reading the response back
compares the type of each element again.
-/
namespace Dotchat

open FaultState Representable

/-- `for(const auto &val: vals) lst.push_back(val)` -/
def listOf (vals : List Arg) : Except Exc ArgList := vals.foldlM (fun l a => l.pushBack a) {}

/-- The values read from the elements of a list. -/
def elementsOf {V T : Type} (read : Arg V → Except Exc T) (l : ArgList V) : Except Exc (List T) :=
  l.content.mapM read

namespace ResponseCommands

def okay := "ok"
def error := "err"

end ResponseCommands

structure OkayResponse where
  deriving DecidableEq

structure ErrorResponse where
  reason : Bytes
  deriving DecidableEq

structure TokenResponse where
  token : Int32
  deriving DecidableEq

structure IdResponse where
  id : Int32
  deriving DecidableEq

structure ChannelShort where
  id : Int32
  name : Bytes
  deriving DecidableEq

structure ChannelListResponse where
  data : List ChannelShort
  deriving DecidableEq

structure ListedMessage where
  sender : Int32
  sentWhen : UInt32
  cnt : Bytes
  deriving DecidableEq

structure ChannelMsgResponse where
  msgs : List ListedMessage
  deriving DecidableEq

structure ChannelDetailsResponse where
  id : Int32
  name : Bytes
  ownerId : Int32
  desc : Option Bytes
  members : List Int32
  deriving DecidableEq

structure UserDetailsResponse where
  id : Int32
  name : Bytes
  mutualChannels : List Int32
  deriving DecidableEq

namespace OkayResponse

def ofMessage {V : Type} (m : Message V) : Except Exc OkayResponse := do
  checkCommand ResponseCommands.okay m
  return {}

def toMessage (_ : OkayResponse) : Message := .ofValues (ascii ResponseCommands.okay) []

/-- The message of a response that extends `okay_response`. -/
def okayWith (mods : List (Bytes × Arg)) : Message := (toMessage {}).modified mods

end OkayResponse

open OkayResponse (okayWith)

namespace ErrorResponse

def ofMessage {V : Type} (m : Message V) : Except Exc ErrorResponse := do
  let reason ← requireArg Bytes "reason" m.args
  return { reason := reason }

def toMessage (r : ErrorResponse) : Message :=
  .ofValues (ascii ResponseCommands.error) [paired "reason" r.reason]

end ErrorResponse

namespace TokenResponse

def ofMessage {V : Type} (m : Message V) : Except Exc TokenResponse := do
  let _ ← OkayResponse.ofMessage m
  let token ← requireArg Int32 "token" m.args
  return { token := token }

def toMessage (r : TokenResponse) : Message := okayWith [paired "token" r.token]

end TokenResponse

namespace IdResponse

def ofMessage {V : Type} (m : Message V) : Except Exc IdResponse := do
  let _ ← OkayResponse.ofMessage m
  let id ← requireArg Int32 "id" m.args
  return { id := id }

def toMessage (r : IdResponse) : Message := okayWith [paired "id" r.id]

end IdResponse

namespace ChannelListResponse

def itemOfArg {V : Type} (val : Arg V) : Except Exc ChannelShort := do
  let obj ← castArg (ArgObj V) (ascii "Invalid contained type in channel_list_response.data") val
  let id ← requireArg Int32 "id" obj
  let name ← requireArg Bytes "name" obj
  return { id := id, name := name }

def itemToArg (chan : ChannelShort) : Arg :=
  .subObject (ArgObj.setAll [] [paired "id" chan.id, paired "name" chan.name])

def ofMessage {V : Type} (m : Message V) : Except Exc ChannelListResponse := do
  let data ← requireArg (ArgList V) "data" m.args
  let vec ← elementsOf itemOfArg data
  return { data := vec }

def toMessage (r : ChannelListResponse) : Except Exc Message := do
  let lst ← listOf (r.data.map itemToArg)
  return okayWith [paired "data" lst]

end ChannelListResponse

namespace ChannelMsgResponse

def itemOfArg {V : Type} (val : Arg V) : Except Exc ListedMessage := do
  let obj ← castArg (ArgObj V) (ascii "Invalid contained type in channel_msg_response.msgs") val
  let sender ← requireArg Int32 "sender" obj
  let sentWhen ← requireArg UInt32 "when" obj
  let cnt ← requireArg Bytes "cnt" obj
  return { sender := sender, sentWhen := sentWhen, cnt := cnt }

def itemToArg (msg : ListedMessage) : Arg :=
  .subObject (ArgObj.setAll []
    [paired "sender" msg.sender, paired "when" msg.sentWhen, paired "cnt" msg.cnt])

def ofMessage {V : Type} (m : Message V) : Except Exc ChannelMsgResponse := do
  let msgs ← requireArg (ArgList V) "msgs" m.args
  let res ← elementsOf itemOfArg msgs
  return { msgs := res }

def toMessage (r : ChannelMsgResponse) : Except Exc Message := do
  let lst ← listOf (r.msgs.map itemToArg)
  return okayWith [paired "msgs" lst]

end ChannelMsgResponse

namespace ChannelDetailsResponse

def ofMessage {V : Type} (m : Message V) : Except Exc ChannelDetailsResponse := do
  let cid ← requireArg Int32 "id" m.args
  let cname ← requireArg Bytes "name" m.args
  let cowner ← requireArg Int32 "owner_id" m.args
  let cdesc ← requireArg Bytes "desc" m.args
  let lst ← requireArg (ArgList V) "members" m.args
  let res ← elementsOf
    (castArg Int32 (ascii "Invalid contained type in channel_details_response.members")) lst
  return { id := cid, name := cname, ownerId := cowner, desc := descOf cdesc, members := res }

def toMessage (r : ChannelDetailsResponse) : Except Exc Message := do
  let lst ← listOf (r.members.map toArg)
  return okayWith [paired "id" r.id, paired "name" r.name, paired "owner_id" r.ownerId,
    paired "desc" (r.desc.getD []), paired "members" lst]

end ChannelDetailsResponse

namespace UserDetailsResponse

def ofMessage {V : Type} (m : Message V) : Except Exc UserDetailsResponse := do
  let id ← requireArg Int32 "id" m.args
  let name ← requireArg Bytes "name" m.args
  let lst ← requireArg (ArgList V) "mutual_channels" m.args
  let mutualChannels ← elementsOf
    (castArg Int32 (ascii "Invalid contained type in user_details_response.mutual_channels")) lst
  return { id := id, name := name, mutualChannels := mutualChannels }

def toMessage (r : UserDetailsResponse) : Except Exc Message := do
  let lst ← listOf (r.mutualChannels.map toArg)
  return okayWith [paired "id" r.id, paired "name" r.name, paired "mutual_channels" lst]

end UserDetailsResponse

section Lists

variable {T : Type}

theorem foldlM_pushBack {t : ValType} {vals : List Arg} (h : ∀ a ∈ vals, a.type = t)
    {l : ArgList} (hl : l.content ≠ [] → l.contained = t) (hhom : l.Homogeneous) :
    ∃ l', vals.foldlM (fun l a => l.pushBack a) l = Except.ok l' ∧
      l'.content = l.content ++ vals ∧ l'.Homogeneous := by
  induction vals generalizing l with
  | nil => exact ⟨l, rfl, by simp, hhom⟩
  | cons a rest ih =>
    have ha : a.type = t := h a List.mem_cons_self
    have hpush := ArgList.pushBack_of_type (l := l) (a := a) fun hne => (hl hne).trans ha.symm
    obtain ⟨l', hrest, hcontent, hhom'⟩ := ih (fun b hb => h b (List.mem_cons_of_mem _ hb))
      (l := { contained := a.type, content := l.content ++ [a] }) (fun _ => ha)
      (hhom.pushBack hpush)
    refine ⟨l', ?_, by simp [hcontent], hhom'⟩
    rw [List.foldlM_cons, hpush]
    exact hrest

/-- Values of one type fill a homogeneous list, which holds them in order. -/
theorem listOf_eq_ok {t : ValType} (vals : List Arg) (h : ∀ a ∈ vals, a.type = t) :
    ∃ l, listOf vals = .ok l ∧ l.content = vals ∧ l.Homogeneous := by
  obtain ⟨l, hl, hcontent, hhom⟩ := foldlM_pushBack h (l := {}) (by simp) ArgList.homogeneous_empty
  exact ⟨l, hl, by simpa using hcontent, hhom⟩

theorem mapM_map_of_inverse {read : Arg → Except Exc T} {write : T → Arg}
    (h : ∀ v, read (write v) = .ok v) (vals : List T) : (vals.map write).mapM read = .ok vals := by
  induction vals with
  | nil => rfl
  | cons v rest ih =>
    rw [List.map_cons, List.mapM_cons, h v, ih]
    rfl

theorem elementsOf_map {read : Arg → Except Exc T} {write : T → Arg}
    (h : ∀ v, read (write v) = .ok v) {l : ArgList} {vals : List T}
    (hl : l.content = vals.map write) : elementsOf read l = .ok vals := by
  rw [elementsOf, hl]
  exact mapM_map_of_inverse h vals

end Lists

section RoundTrip

theorem OkayResponse.ofMessage_toMessage (r : OkayResponse) : ofMessage r.toMessage = .ok r := rfl

theorem ErrorResponse.ofMessage_toMessage (r : ErrorResponse) :
    ofMessage r.toMessage = .ok r := rfl

theorem TokenResponse.ofMessage_toMessage (r : TokenResponse) :
    ofMessage r.toMessage = .ok r := rfl

theorem IdResponse.ofMessage_toMessage (r : IdResponse) : ofMessage r.toMessage = .ok r := rfl

theorem ChannelListResponse.itemOfArg_itemToArg (chan : ChannelShort) :
    itemOfArg (itemToArg chan) = .ok chan := rfl

theorem ChannelMsgResponse.itemOfArg_itemToArg (msg : ListedMessage) :
    itemOfArg (itemToArg msg) = .ok msg := rfl

/-- The message of a channel list, with the list that was filled. -/
theorem ChannelListResponse.toMessage_eq (r : ChannelListResponse) :
    ∃ lst : ArgList, lst.content = r.data.map itemToArg ∧ lst.Homogeneous ∧
      toMessage r = .ok (okayWith [paired "data" lst]) := by
  obtain ⟨lst, hlst, hcontent, hhom⟩ := listOf_eq_ok (t := .subObject) (r.data.map itemToArg)
    (by simp [itemToArg, Arg.type])
  exact ⟨lst, hcontent, hhom, by rw [toMessage, hlst]; rfl⟩

theorem ChannelMsgResponse.toMessage_eq (r : ChannelMsgResponse) :
    ∃ lst : ArgList, lst.content = r.msgs.map itemToArg ∧ lst.Homogeneous ∧
      toMessage r = .ok (okayWith [paired "msgs" lst]) := by
  obtain ⟨lst, hlst, hcontent, hhom⟩ := listOf_eq_ok (t := .subObject) (r.msgs.map itemToArg)
    (by simp [itemToArg, Arg.type])
  exact ⟨lst, hcontent, hhom, by rw [toMessage, hlst]; rfl⟩

theorem ChannelDetailsResponse.toMessage_eq (r : ChannelDetailsResponse) :
    ∃ lst : ArgList, lst.content = r.members.map toArg ∧ lst.Homogeneous ∧
      toMessage r = .ok (okayWith [paired "id" r.id, paired "name" r.name,
        paired "owner_id" r.ownerId, paired "desc" (r.desc.getD []), paired "members" lst]) := by
  obtain ⟨lst, hlst, hcontent, hhom⟩ := listOf_eq_ok (t := .scalar .int32) (r.members.map toArg)
    (by simp [Representable.toArg, Arg.type, Scalar.type])
  exact ⟨lst, hcontent, hhom, by rw [toMessage, hlst]; rfl⟩

theorem UserDetailsResponse.toMessage_eq (r : UserDetailsResponse) :
    ∃ lst : ArgList, lst.content = r.mutualChannels.map toArg ∧ lst.Homogeneous ∧
      toMessage r = .ok (okayWith [paired "id" r.id, paired "name" r.name,
        paired "mutual_channels" lst]) := by
  obtain ⟨lst, hlst, hcontent, hhom⟩ := listOf_eq_ok (t := .scalar .int32)
    (r.mutualChannels.map toArg) (by simp [Representable.toArg, Arg.type, Scalar.type])
  exact ⟨lst, hcontent, hhom, by rw [toMessage, hlst]; rfl⟩

theorem ChannelListResponse.ofMessage_toMessage {r : ChannelListResponse} {m : Message}
    (h : toMessage r = .ok m) : ofMessage m = .ok r := by
  obtain ⟨lst, hcontent, -, hm⟩ := toMessage_eq r
  rw [h] at hm
  cases hm
  have hdata : requireArg ArgList "data" (okayWith [paired "data" lst]).args = .ok lst := rfl
  exact (except_bind_of_ok hdata).trans
    (except_bind_of_ok (elementsOf_map itemOfArg_itemToArg hcontent))

theorem ChannelMsgResponse.ofMessage_toMessage {r : ChannelMsgResponse} {m : Message}
    (h : toMessage r = .ok m) : ofMessage m = .ok r := by
  obtain ⟨lst, hcontent, -, hm⟩ := toMessage_eq r
  rw [h] at hm
  cases hm
  have hmsgs : requireArg ArgList "msgs" (okayWith [paired "msgs" lst]).args = .ok lst := rfl
  exact (except_bind_of_ok hmsgs).trans
    (except_bind_of_ok (elementsOf_map itemOfArg_itemToArg hcontent))

/-- An empty description comes back as an absent one. -/
theorem ChannelDetailsResponse.ofMessage_toMessage {r : ChannelDetailsResponse} {m : Message}
    (h : toMessage r = .ok m) : ofMessage m = .ok { r with desc := descOf (r.desc.getD []) } := by
  obtain ⟨lst, hcontent, -, hm⟩ := toMessage_eq r
  rw [h] at hm
  cases hm
  have hmembers := elementsOf_map (castArg_toArg (T := Int32)
    (ascii "Invalid contained type in channel_details_response.members")) hcontent
  exact except_bind_of_ok hmembers

theorem UserDetailsResponse.ofMessage_toMessage {r : UserDetailsResponse} {m : Message}
    (h : toMessage r = .ok m) : ofMessage m = .ok r := by
  obtain ⟨lst, hcontent, -, hm⟩ := toMessage_eq r
  rw [h] at hm
  cases hm
  have hmutual := elementsOf_map (castArg_toArg (T := Int32)
    (ascii "Invalid contained type in user_details_response.mutual_channels")) hcontent
  exact except_bind_of_ok hmutual

end RoundTrip
end Dotchat
