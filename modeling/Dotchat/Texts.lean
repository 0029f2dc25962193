import Dotchat.NormalForm
import Dotchat.Replies

/-!
The strings that go through the server. Requests that were decoded carry strings
of at most 255 bytes without NUL, so that the database holds no others, and the
responses built from it are within the limits of the format at every depth.
Error texts are another matter: login and an unknown command embed a string of
the request in a longer text.
-/
namespace Dotchat

open FaultState Db Handlers

/-- A string that the decoder can return. -/
def CanonicalText (v : Bytes) : Prop := v.length ≤ 0xFF ∧ 0 ∉ v

instance (v : Bytes) : Decidable (CanonicalText v) := inferInstanceAs (Decidable (_ ∧ _))

/-- Well-formed values of canonical strings and small objects. -/
abbrev Arg.Textual : Arg → Prop :=
  Arg.Everywhere CanonicalText (fun o => OrderedMap.Ordered o ∧ o.length ≤ 0xFF)
    ArgList.Homogeneous

/-- The strings of the database that responses can show are canonical. -/
structure Texts (db : Database) : Prop where
  users : ∀ u ∈ db.users, CanonicalText u.name
  channels : ∀ c ∈ db.channels, CanonicalText c.name ∧ ∀ d ∈ c.desc, CanonicalText d
  messages : ∀ m ∈ db.messages, CanonicalText m.content

/-- The messages that the decoder can return. -/
def Decoded (m : Message) : Prop := ∃ s s', Message.ofStream s = .ok m s'

theorem Decoded.canonical {m : Message} (h : Decoded m) : m.Canonical := by
  obtain ⟨s, s', h⟩ := h
  exact Message.ofStream_canonical h

section Requests

/-- A string argument of a decoded message is canonical. -/
theorem requireArg_canonicalText {m : Message} (hm : m.Canonical) {key : String} {v : Bytes}
    (h : requireArg Bytes key m.args = .ok v) : CanonicalText v := by
  have hmem := OrderedMap.mem_of_find?_eq_some (requireArg_eq_ok h)
  obtain ⟨-, -, hvals⟩ := Arg.everywhere_subObject.mp hm.2
  exact Arg.everywhere_string.mp (hvals _ hmem)

theorem NewUserRequest.canonicalText {m : Message} {r : NewUserRequest} (hm : m.Canonical)
    (h : ofMessage m = .ok r) : CanonicalText r.name := by
  obtain ⟨-, -, h⟩ := except_bind_eq_ok.mp h
  obtain ⟨name, hname, h⟩ := except_bind_eq_ok.mp h
  obtain ⟨pass, -, h⟩ := except_bind_eq_ok.mp h
  cases h
  exact requireArg_canonicalText hm hname

theorem NewChannelRequest.canonicalText {m : Message} {r : NewChannelRequest} (hm : m.Canonical)
    (h : ofMessage m = .ok r) : CanonicalText r.name ∧ ∀ d ∈ r.desc, CanonicalText d := by
  obtain ⟨-, -, h⟩ := except_bind_eq_ok.mp h
  obtain ⟨base, -, h⟩ := except_bind_eq_ok.mp h
  obtain ⟨desc, hdesc, h⟩ := except_bind_eq_ok.mp h
  obtain ⟨name, hname, h⟩ := except_bind_eq_ok.mp h
  cases h
  refine ⟨requireArg_canonicalText hm hname, ?_⟩
  intro d hd
  simp only [descOf] at hd
  split at hd
  · cases hd
  · cases hd
    exact requireArg_canonicalText hm hdesc

theorem MessageSendRequest.canonicalText {m : Message} {r : MessageSendRequest}
    (hm : m.Canonical) (h : ofMessage m = .ok r) : CanonicalText r.msgCnt := by
  obtain ⟨-, -, h⟩ := except_bind_eq_ok.mp h
  obtain ⟨base, -, h⟩ := except_bind_eq_ok.mp h
  obtain ⟨chanId, -, h⟩ := except_bind_eq_ok.mp h
  obtain ⟨msgCnt, hmsg, h⟩ := except_bind_eq_ok.mp h
  cases h
  exact requireArg_canonicalText hm hmsg

theorem LoginRequest.canonicalText {m : Message} {r : LoginRequest} (hm : m.Canonical)
    (h : ofMessage m = .ok r) : CanonicalText r.user := by
  obtain ⟨-, -, h⟩ := except_bind_eq_ok.mp h
  obtain ⟨user, huser, h⟩ := except_bind_eq_ok.mp h
  obtain ⟨pass, -, h⟩ := except_bind_eq_ok.mp h
  cases h
  exact requireArg_canonicalText hm huser

end Requests

section Stored

variable {env : Env} {w : World}

theorem texts_initial : Texts .initial := by
  constructor <;> simp only [Database.initial] <;> decide

theorem texts_written {m : Message} {req : Request} {o : Outcome Exc Response} {db : Database}
    (hm : m.Canonical) (hparse : req.Parses m) (ht : Texts w.db) (h : Written env w req o db) :
    Texts db := by
  cases h with
  | nothing => exact ht
  | session _ _ _ _ _ | noSessions _ | member _ _ _ _ _ =>
    exact ⟨ht.users, ht.channels, ht.messages⟩
  | message _ _ =>
    refine ⟨ht.users, ht.channels, List.forall_mem_append.mpr ⟨ht.messages, ?_⟩⟩
    simpa using MessageSendRequest.canonicalText hm hparse
  | channel _ _ =>
    refine ⟨ht.users, List.forall_mem_append.mpr ⟨ht.channels, ?_⟩, ht.messages⟩
    simpa using NewChannelRequest.canonicalText hm hparse
  | password h =>
    have hname := ht.users _ h.mem
    refine ⟨?_, ht.channels, ht.messages⟩
    intro u hu
    rcases Table.mem_update hu with rfl | ⟨hu, -⟩
    · exact hname
    · exact ht.users u hu
  | user _ =>
    refine ⟨List.forall_mem_append.mpr ⟨ht.users, ?_⟩, ht.channels, ht.messages⟩
    simpa using NewUserRequest.canonicalText hm hparse

theorem Reachable.texts (h : Reachable env Decoded w) : Texts w.db :=
  Steps.invariant h texts_initial fun _ _ _ _ _ _ hm hparse ht hw =>
    texts_written hm.canonical hparse ht hw

end Stored

section Responses

open OkayResponse (okayWith)

theorem textual_values {values : List (Bytes × Arg)}
    (h : ∀ e ∈ values, CanonicalText e.1 ∧ e.2.Textual) (hlen : values.length ≤ 0xFF) :
    Arg.Textual (.subObject (ArgObj.setAll [] values)) := by
  have hcount := ArgObj.length_setAll_le [] values
  have hmem : ∀ e ∈ ArgObj.setAll [] values, e ∈ values := fun e he =>
    (ArgObj.mem_setAll he).resolve_left List.not_mem_nil
  refine .subObject ⟨ArgObj.ordered_setAll OrderedMap.ordered_nil, ?_⟩
    (fun e he => (h e (hmem e he)).1) (fun e he => (h e (hmem e he)).2)
  rw [List.length_nil] at hcount
  omega

theorem textual_int32 (v : Int32) : Arg.Textual (Representable.toArg v) := .scalar _

theorem textual_uint32 (v : UInt32) : Arg.Textual (Representable.toArg v) := .scalar _

theorem textual_bytes {v : Bytes} (h : CanonicalText v) : Arg.Textual (Representable.toArg v) :=
  .string h

theorem textual_list {l : ArgList} {vals : List Arg} (hhom : l.Homogeneous)
    (hcontent : l.content = vals) (h : ∀ a ∈ vals, Arg.Textual a) :
    Arg.Textual (Representable.toArg l) :=
  .list hhom (hcontent ▸ h)

/-- A response whose message is within the limits. -/
def Response.Textual (s : Response) : Prop :=
  ∃ mods, s.toMessage = .ok (okayWith mods) ∧ Arg.Textual (okayWith mods).argsValue

theorem textual_channelShort {chan : ChannelShort} (h : CanonicalText chan.name) :
    Arg.Textual (ChannelListResponse.itemToArg chan) := by
  refine textual_values ?_ (by simp)
  simp only [List.forall_mem_cons, List.not_mem_nil, false_imp_iff, implies_true, and_true, paired]
  exact ⟨⟨by decide, textual_int32 _⟩, by decide, textual_bytes h⟩

theorem textual_listedMessage {msg : ListedMessage} (h : CanonicalText msg.cnt) :
    Arg.Textual (ChannelMsgResponse.itemToArg msg) := by
  refine textual_values ?_ (by simp)
  simp only [List.forall_mem_cons, List.not_mem_nil, false_imp_iff, implies_true, and_true, paired]
  exact ⟨⟨by decide, textual_int32 _⟩, ⟨by decide, textual_uint32 _⟩, by decide, textual_bytes h⟩

theorem channelList_textual {r : ChannelListResponse} (h : ∀ c ∈ r.data, CanonicalText c.name) :
    Response.Textual (.channelList r) := by
  obtain ⟨lst, hcontent, hhom, hto⟩ := r.toMessage_eq
  refine ⟨_, hto, textual_values ?_ (by simp)⟩
  simp only [List.forall_mem_cons, List.not_mem_nil, false_imp_iff, implies_true, and_true, paired]
  exact ⟨by decide, textual_list hhom hcontent
    (List.forall_mem_map.mpr fun c hc => textual_channelShort (h c hc))⟩

theorem channelMsg_textual {r : ChannelMsgResponse} (h : ∀ m ∈ r.msgs, CanonicalText m.cnt) :
    Response.Textual (.channelMsg r) := by
  obtain ⟨lst, hcontent, hhom, hto⟩ := r.toMessage_eq
  refine ⟨_, hto, textual_values ?_ (by simp)⟩
  simp only [List.forall_mem_cons, List.not_mem_nil, false_imp_iff, implies_true, and_true, paired]
  exact ⟨by decide, textual_list hhom hcontent
    (List.forall_mem_map.mpr fun m hm => textual_listedMessage (h m hm))⟩

theorem channelDetails_textual {r : ChannelDetailsResponse} (hname : CanonicalText r.name)
    (hdesc : ∀ d ∈ r.desc, CanonicalText d) : Response.Textual (.channelDetails r) := by
  obtain ⟨lst, hcontent, hhom, hto⟩ := r.toMessage_eq
  have hgetD : CanonicalText (r.desc.getD []) := by
    cases hd : r.desc with
    | none => decide
    | some d => exact hdesc d hd
  refine ⟨_, hto, textual_values ?_ (by simp)⟩
  simp only [List.forall_mem_cons, List.not_mem_nil, false_imp_iff, implies_true, and_true, paired]
  exact ⟨⟨by decide, textual_int32 _⟩, ⟨by decide, textual_bytes hname⟩,
    ⟨by decide, textual_int32 _⟩, ⟨by decide, textual_bytes hgetD⟩, by decide,
    textual_list hhom hcontent (List.forall_mem_map.mpr fun m _ => textual_int32 m)⟩

theorem userDetails_textual {r : UserDetailsResponse} (hname : CanonicalText r.name) :
    Response.Textual (.userDetails r) := by
  obtain ⟨lst, hcontent, hhom, hto⟩ := r.toMessage_eq
  refine ⟨_, hto, textual_values ?_ (by simp)⟩
  simp only [List.forall_mem_cons, List.not_mem_nil, false_imp_iff, implies_true, and_true, paired]
  exact ⟨⟨by decide, textual_int32 _⟩, ⟨by decide, textual_bytes hname⟩, by decide,
    textual_list hhom hcontent (List.forall_mem_map.mpr fun m _ => textual_int32 m)⟩

theorem okay_textual (r : OkayResponse) : Response.Textual (.okay r) :=
  ⟨[], rfl, textual_values (by simp) (by simp)⟩

theorem token_textual (r : TokenResponse) : Response.Textual (.token r) :=
  ⟨_, rfl, textual_values (by simpa [paired] using ⟨by decide, textual_int32 _⟩) (by simp)⟩

theorem id_textual (r : IdResponse) : Response.Textual (.id r) :=
  ⟨_, rfl, textual_values (by simpa [paired] using ⟨by decide, textual_int32 _⟩) (by simp)⟩

theorem answers_textual {db : Database} {u : User} {req : Request} {s : Response}
    (ht : Texts db) (h : Answers db u req s) : s.Textual := by
  cases h with
  | channelList =>
    refine channelList_textual (List.forall_mem_map.mpr fun e he => ?_)
    obtain ⟨c, hc, rfl⟩ := db.mem_channelsOf he
    exact (ht.channels c hc).1
  | channelMsg _ =>
    exact channelMsg_textual (List.forall_mem_map.mpr fun m hm =>
      ht.messages m (db.mem_messagesOf hm).1)
  | channelDetails _ hc =>
    have hmem := (Table.mem_of_lookup hc).1
    exact channelDetails_textual (ht.channels _ hmem).1 (ht.channels _ hmem).2
  | userDetails hv => exact userDetails_textual (ht.users _ (Table.mem_of_lookup hv).1)

/-- Whatever a handler returns on canonical strings can be sent. -/
theorem handled_textual {env : Env} {w w' : World} {req : Request} {s : Response}
    (ht : Texts w.db) (h : Handled env w req (.returned s, w')) : s.Textual := by
  cases h with
  | answered _ _ hs => exact answers_textual ht hs
  | loggedOut _ | sentMsg _ _ | changedPass _ _ | invited _ _ _ _ _ | createdUser _ =>
    exact okay_textual _
  | createdChannel _ _ => exact id_textual _
  | loggedIn _ _ _ _ _ => exact token_textual _

end Responses
end Dotchat
