import Dotchat.Responses

/-!
The nineteen request and response types as one family of converters. Reading a
message back that a value was turned into gives the value. What a type asks of a
message is its command and, for each required key, the type of the value; every
converter tests the keys, in its own order, but five of the response types do
not look at the command. None of them tests that an argument still has its value.
-/
namespace Dotchat

open Representable

/-- The types with a `from` and a `to`. -/
inductive Convertible
  | loginRequest
  | logoutRequest
  | channelListRequest
  | channelMsgRequest
  | messageSendRequest
  | channelDetailsRequest
  | newChannelRequest
  | newUserRequest
  | changePassRequest
  | userDetailsRequest
  | inviteUserRequest
  | okayResponse
  | errorResponse
  | tokenResponse
  | idResponse
  | channelListResponse
  | channelMsgResponse
  | channelDetailsResponse
  | userDetailsResponse
  deriving DecidableEq

/-- What stands under a key: a value of some type, a list of such values, or a
list of objects with keys of their own. -/
inductive Shape
  | value (t : ValType)
  | listOf (t : ValType)
  | listOfObjects (keys : List (String × ValType))

section Reading

variable {V : Type}

/-- The key is there, with a value of this type. -/
def HasKey (o : ArgObj V) (key : String) (t : ValType) : Prop :=
  ∃ a, o.find? (ascii key) = some a ∧ a.HasValue t

/-- The key is there, and its argument has lost a value of this type. -/
def LostKey (o : ArgObj V) (key : String) (t : ValType) : Prop :=
  ∃ a, o.find? (ascii key) = some a ∧ a.LostValue t

/-- Whoever goes through the list and stops at the first that is not good comes to one
that is lost. -/
def ReachesLost {α : Type} (Good Lost : α → Prop) (xs : List α) : Prop :=
  ∃ front x back, xs = front ++ x :: back ∧ (∀ y ∈ front, Good y) ∧ Lost x

namespace Shape

def Fits : Shape → Arg V → Prop
  | value t, a => a.HasValue t
  | listOf t, .list _ c => ∀ a ∈ c, a.HasValue t
  | listOfObjects keys, .list _ c =>
      ∀ a ∈ c, ∃ o, a = .subObject o ∧ ∀ k ∈ keys, HasKey o k.1 k.2
  | _, _ => False

/-- Reading an argument of the shape comes to one that has lost its value, with all that is
read before it as it should be. -/
def Lacks : Shape → Arg V → Prop
  | value t, a => a.LostValue t
  | listOf t, .list _ c => ReachesLost (·.HasValue t) (·.LostValue t) c
  | listOfObjects keys, .list _ c =>
      ReachesLost (fun a => ∃ o, a = .subObject o ∧ ∀ k ∈ keys, HasKey o k.1 k.2)
        (fun a => a.LostValue .subObject ∨ ∃ o, a = .subObject o ∧
          ReachesLost (fun k => HasKey o k.1 k.2) (fun k => LostKey o k.1 k.2) keys) c
  | _, a => a.LostValue .list

/-- Two values that differ in additional keys at most. -/
def SameItem (keys : List (String × ValType)) (a b : Arg V) : Prop :=
  a = b ∨ ∃ o o' : ArgObj V, a = .subObject o ∧ b = .subObject o' ∧
    ∀ k ∈ keys, o.find? (ascii k.1) = o'.find? (ascii k.1)

/-- Two lookups that differ in additional keys of the elements at most. -/
def Same : Shape → Option (Arg V) → Option (Arg V) → Prop
  | listOfObjects keys, some (.list _ c), some (.list _ c') => List.Forall₂ (SameItem keys) c c'
  | _, a, b => a = b

end Shape

/-- What an object has to hold under a key. -/
def HoldsField (o : ArgObj V) (f : String × Shape) : Prop :=
  ∃ a, o.find? (ascii f.1) = some a ∧ f.2.Fits a

/-- The key is there, and reading its argument comes to one without its value. -/
def LacksField (o : ArgObj V) (f : String × Shape) : Prop :=
  ∃ a, o.find? (ascii f.1) = some a ∧ f.2.Lacks a

end Reading

namespace Convertible

@[reducible] def Value : Convertible → Type
  | loginRequest => LoginRequest
  | logoutRequest => LogoutRequest
  | channelListRequest => ChannelListRequest
  | channelMsgRequest => ChannelMsgRequest
  | messageSendRequest => MessageSendRequest
  | channelDetailsRequest => ChannelDetailsRequest
  | newChannelRequest => NewChannelRequest
  | newUserRequest => NewUserRequest
  | changePassRequest => ChangePassRequest
  | userDetailsRequest => UserDetailsRequest
  | inviteUserRequest => InviteUserRequest
  | okayResponse => OkayResponse
  | errorResponse => ErrorResponse
  | tokenResponse => TokenResponse
  | idResponse => IdResponse
  | channelListResponse => ChannelListResponse
  | channelMsgResponse => ChannelMsgResponse
  | channelDetailsResponse => ChannelDetailsResponse
  | userDetailsResponse => UserDetailsResponse

/-- `T::from` -/
def ofMessage {V : Type} : (t : Convertible) → Message V → Except Exc t.Value
  | loginRequest => LoginRequest.ofMessage
  | logoutRequest => LogoutRequest.ofMessage
  | channelListRequest => ChannelListRequest.ofMessage
  | channelMsgRequest => ChannelMsgRequest.ofMessage
  | messageSendRequest => MessageSendRequest.ofMessage
  | channelDetailsRequest => ChannelDetailsRequest.ofMessage
  | newChannelRequest => NewChannelRequest.ofMessage
  | newUserRequest => NewUserRequest.ofMessage
  | changePassRequest => ChangePassRequest.ofMessage
  | userDetailsRequest => UserDetailsRequest.ofMessage
  | inviteUserRequest => InviteUserRequest.ofMessage
  | okayResponse => OkayResponse.ofMessage
  | errorResponse => ErrorResponse.ofMessage
  | tokenResponse => TokenResponse.ofMessage
  | idResponse => IdResponse.ofMessage
  | channelListResponse => ChannelListResponse.ofMessage
  | channelMsgResponse => ChannelMsgResponse.ofMessage
  | channelDetailsResponse => ChannelDetailsResponse.ofMessage
  | userDetailsResponse => UserDetailsResponse.ofMessage

/-- `r.to()` -/
def toMessage : (t : Convertible) → t.Value → Except Exc Message
  | loginRequest, r => .ok (LoginRequest.toMessage r)
  | logoutRequest, r => .ok (LogoutRequest.toMessage r)
  | channelListRequest, r => .ok (ChannelListRequest.toMessage r)
  | channelMsgRequest, r => .ok (ChannelMsgRequest.toMessage r)
  | messageSendRequest, r => .ok (MessageSendRequest.toMessage r)
  | channelDetailsRequest, r => .ok (ChannelDetailsRequest.toMessage r)
  | newChannelRequest, r => .ok (NewChannelRequest.toMessage r)
  | newUserRequest, r => .ok (NewUserRequest.toMessage r)
  | changePassRequest, r => .ok (ChangePassRequest.toMessage r)
  | userDetailsRequest, r => .ok (UserDetailsRequest.toMessage r)
  | inviteUserRequest, r => .ok (InviteUserRequest.toMessage r)
  | okayResponse, r => .ok (OkayResponse.toMessage r)
  | errorResponse, r => .ok (ErrorResponse.toMessage r)
  | tokenResponse, r => .ok (TokenResponse.toMessage r)
  | idResponse, r => .ok (IdResponse.toMessage r)
  | channelListResponse, r => ChannelListResponse.toMessage r
  | channelMsgResponse, r => ChannelMsgResponse.toMessage r
  | channelDetailsResponse, r => ChannelDetailsResponse.toMessage r
  | userDetailsResponse, r => UserDetailsResponse.toMessage r

/-- The values count as equal: an absent description and an empty one do. -/
def Alike : (t : Convertible) → t.Value → t.Value → Prop
  | newChannelRequest, r, r' => ∃ desc, r' = { r with desc := desc } ∧
      desc.getD [] = r.desc.getD []
  | channelDetailsResponse, r, r' => ∃ desc, r' = { r with desc := desc } ∧
      desc.getD [] = r.desc.getD []
  | _, r, r' => r' = r

/-- The command of the messages of a type. -/
def command : Convertible → String
  | loginRequest => Commands.login
  | logoutRequest => Commands.logout
  | channelListRequest => Commands.channelList
  | channelMsgRequest => Commands.channelMsg
  | messageSendRequest => Commands.sendMsg
  | channelDetailsRequest => Commands.channelDetails
  | newChannelRequest => Commands.newChannel
  | newUserRequest => Commands.newUser
  | changePassRequest => Commands.changePass
  | userDetailsRequest => Commands.userDetails
  | inviteUserRequest => Commands.inviteUser
  | errorResponse => ResponseCommands.error
  | okayResponse | tokenResponse | idResponse | channelListResponse | channelMsgResponse
  | channelDetailsResponse | userDetailsResponse => ResponseCommands.okay

/-- The required keys of a type. -/
def fields : Convertible → List (String × Shape)
  | loginRequest => [("user", .value .string), ("pass", .value .string)]
  | logoutRequest => [("token", .value (.scalar .int32))]
  | channelListRequest => [("token", .value (.scalar .int32))]
  | channelMsgRequest => [("token", .value (.scalar .int32)), ("chan_id", .value (.scalar .int32))]
  | messageSendRequest => [("token", .value (.scalar .int32)),
      ("chan_id", .value (.scalar .int32)), ("msg_cnt", .value .string)]
  | channelDetailsRequest => [("token", .value (.scalar .int32)),
      ("chan_id", .value (.scalar .int32))]
  | newChannelRequest => [("token", .value (.scalar .int32)), ("desc", .value .string),
      ("name", .value .string)]
  | newUserRequest => [("name", .value .string), ("pass", .value .string)]
  | changePassRequest => [("token", .value (.scalar .int32)), ("new_pass", .value .string)]
  | userDetailsRequest => [("token", .value (.scalar .int32)), ("uid", .value (.scalar .int32))]
  | inviteUserRequest => [("token", .value (.scalar .int32)), ("uid", .value (.scalar .int32)),
      ("chan_id", .value (.scalar .int32))]
  | okayResponse => []
  | errorResponse => [("reason", .value .string)]
  | tokenResponse => [("token", .value (.scalar .int32))]
  | idResponse => [("id", .value (.scalar .int32))]
  | channelListResponse =>
      [("data", .listOfObjects [("id", .scalar .int32), ("name", .string)])]
  | channelMsgResponse =>
      [("msgs", .listOfObjects
        [("sender", .scalar .int32), ("when", .scalar .uint32), ("cnt", .string)])]
  | channelDetailsResponse => [("id", .value (.scalar .int32)), ("name", .value .string),
      ("owner_id", .value (.scalar .int32)), ("desc", .value .string),
      ("members", .listOf (.scalar .int32))]
  | userDetailsResponse => [("id", .value (.scalar .int32)), ("name", .value .string),
      ("mutual_channels", .listOf (.scalar .int32))]

/-- The converter compares the command with its own. -/
def ChecksCommand : Convertible → Prop
  | errorResponse | channelListResponse | channelMsgResponse | channelDetailsResponse
  | userDetailsResponse => False
  | _ => True

section Contracts

variable {V : Type}

/-- Every required key is there, with the documented type. -/
def Admits (t : Convertible) (o : ArgObj V) : Prop := ∀ f ∈ t.fields, HoldsField o f

/-- The converter comes to an argument that has lost its value. -/
def Lacks (t : Convertible) (m : Message V) : Prop :=
  (t.ChecksCommand → m.cmd = ascii t.command) ∧
    ReachesLost (HoldsField m.args) (LacksField m.args) t.fields

/-- The messages differ in additional keys at most. -/
def Agrees (t : Convertible) (m m' : Message V) : Prop :=
  m.cmd = m'.cmd ∧
    ∀ f ∈ t.fields, f.2.Same (m.args.find? (ascii f.1)) (m'.args.find? (ascii f.1))

/-- The documented contract of `T::from`. -/
structure Contract (t : Convertible) (m : Message V) : Prop where
  accepts : (∃ r, t.ofMessage m = .ok r) ↔ m.cmd = ascii t.command ∧ t.Admits m.args
  throws : ∀ e, t.ofMessage m = .error e → ∃ what, e = .protoError what
  additional : ∀ m', t.Agrees m m' → t.ofMessage m' = t.ofMessage m

end Contracts
end Convertible

section Inverse

theorem getD_descOf (d : Bytes) : (descOf d).getD [] = d := by
  unfold descOf
  split
  · rename_i h
    exact h.symm
  · rfl

/-- Reading the message of a value gives the value. -/
theorem converters_inverse (t : Convertible) (r : t.Value) :
    ∃ m r', t.toMessage r = .ok m ∧ t.ofMessage m = .ok r' ∧ t.Alike r r' := by
  cases t with
  | loginRequest | logoutRequest | channelListRequest | channelMsgRequest | messageSendRequest
  | channelDetailsRequest | newUserRequest | changePassRequest | userDetailsRequest
  | inviteUserRequest | okayResponse | errorResponse | tokenResponse | idResponse =>
    exact ⟨_, r, rfl, rfl, rfl⟩
  | newChannelRequest =>
    exact ⟨_, _, rfl, NewChannelRequest.ofMessage_toMessage r, _, rfl, getD_descOf _⟩
  | channelListResponse =>
    obtain ⟨lst, -, -, hm⟩ := ChannelListResponse.toMessage_eq r
    exact ⟨_, r, hm, ChannelListResponse.ofMessage_toMessage hm, rfl⟩
  | channelMsgResponse =>
    obtain ⟨lst, -, -, hm⟩ := ChannelMsgResponse.toMessage_eq r
    exact ⟨_, r, hm, ChannelMsgResponse.ofMessage_toMessage hm, rfl⟩
  | channelDetailsResponse =>
    obtain ⟨lst, -, -, hm⟩ := ChannelDetailsResponse.toMessage_eq r
    exact ⟨_, _, hm, ChannelDetailsResponse.ofMessage_toMessage hm, _, rfl, getD_descOf _⟩
  | userDetailsResponse =>
    obtain ⟨lst, -, -, hm⟩ := UserDetailsResponse.toMessage_eq r
    exact ⟨_, r, hm, UserDetailsResponse.ofMessage_toMessage hm, rfl⟩

end Inverse

/-- A computation that succeeds exactly under the first condition, comes to a missing value
exactly under the second one, and throws a `proto_error` otherwise. -/
structure Judges {α : Type} (x : Except Exc α) (P S : Prop) : Prop where
  accepts : (∃ a, x = .ok a) ↔ P
  lacks : x = .error .badAnyCast ↔ S
  throws : ∀ e, x = .error e → e = .badAnyCast ∨ ∃ what, e = .protoError what

section Judges

variable {α β : Type} {P Q S R : Prop} {x : Except Exc α}

theorem Judges.pure (a : α) : Judges (pure a : Except Exc α) True False where
  accepts := ⟨fun _ => trivial, fun _ => ⟨a, rfl⟩⟩
  lacks := iff_of_false nofun id
  throws _ h := nomatch h

theorem judges_protoError (what : Bytes) :
    Judges (.error (.protoError what) : Except Exc α) False False where
  accepts := iff_of_false nofun id
  lacks := iff_of_false nofun id
  throws e h := by
    cases h
    exact .inr ⟨what, rfl⟩

theorem judges_badAnyCast : Judges (.error .badAnyCast : Except Exc α) False True where
  accepts := iff_of_false nofun id
  lacks := iff_of_true rfl trivial
  throws e h := by
    cases h
    exact .inl rfl

theorem Judges.congr (h : Judges x P S) (hP : P ↔ Q) (hS : S ↔ R) : Judges x Q R :=
  ⟨h.accepts.trans hP, h.lacks.trans hS, h.throws⟩

/-- The conditions of the second computation may depend on the first result. -/
theorem Judges.bind_of {f : α → Except Exc β} {A L : α → Prop} (hx : Judges x P S)
    (hf : ∀ a, x = .ok a → Judges (f a) (A a) (L a)) :
    Judges (x >>= f) (∃ a, x = .ok a ∧ A a) (S ∨ ∃ a, x = .ok a ∧ L a) := by
  have hex {T : α → Prop} {a : α} : (∃ b, (.ok a : Except Exc α) = .ok b ∧ T b) ↔ T a := by
    constructor
    · rintro ⟨b, hb, h⟩
      cases hb
      exact h
    · exact fun h => ⟨a, rfl, h⟩
  cases x with
  | ok a =>
    have hS : ¬ S := fun h => nomatch hx.lacks.mpr h
    exact (hf a rfl).congr hex.symm ((or_iff_right hS).trans hex).symm
  | error e =>
    have hnone {T : α → Prop} : ¬ ∃ a, (.error e : Except Exc α) = .ok a ∧ T a := nofun
    constructor
    · exact iff_of_false nofun hnone
    · rw [or_iff_left hnone, ← hx.lacks]
      constructor
      · intro h
        cases h
        rfl
      · intro h
        cases h
        rfl
    · intro e' he'
      cases he'
      exact hx.throws e rfl

theorem Judges.bind {f : α → Except Exc β} (hx : Judges x P S) (hf : ∀ a, Judges (f a) Q R) :
    Judges (x >>= f) (P ∧ Q) (S ∨ P ∧ R) := by
  refine (hx.bind_of fun a _ => hf a).congr ?_ ?_
  · rw [exists_and_right, hx.accepts]
  · rw [exists_and_right, hx.accepts]

end Judges

section Lost

variable {V α β : Type} {x : Except Exc α}

theorem not_reachesLost {Good Lost : α → Prop} {as : List α} (h : ∀ a, ¬ Lost a) :
    ¬ ReachesLost Good Lost as :=
  fun ⟨_, a, _, _, _, hlost⟩ => h a hlost

theorem not_reachesLost_nil {Good Lost : α → Prop} : ¬ ReachesLost Good Lost [] := by
  rintro ⟨front, a, back, h, -⟩
  cases front <;> cases h

theorem reachesLost_cons {Good Lost : α → Prop} {a : α} {as : List α} :
    ReachesLost Good Lost (a :: as) ↔ Lost a ∨ Good a ∧ ReachesLost Good Lost as := by
  constructor
  · rintro ⟨front, b, back, h, hfront, hlost⟩
    cases front with
    | nil =>
      cases h
      exact .inl hlost
    | cons c front =>
      cases h
      obtain ⟨hc, hfront⟩ := List.forall_mem_cons.mp hfront
      exact .inr ⟨hc, front, b, back, rfl, hfront, hlost⟩
  · rintro (hlost | ⟨ha, front, b, back, rfl, hfront, hlost⟩)
    · exact ⟨[], a, as, rfl, by simp, hlost⟩
    · exact ⟨a :: front, b, back, rfl, List.forall_mem_cons.mpr ⟨ha, hfront⟩, hlost⟩

theorem reachesLost_singleton {Good Lost : α → Prop} {a : α} :
    ReachesLost Good Lost [a] ↔ Lost a := by
  rw [reachesLost_cons, or_iff_left]
  exact fun h => not_reachesLost_nil h.2

/-- Conditions that are tested one after the other. -/
theorem Judges.nil {ι : Type} {Good Lost : ι → Prop} (a : α) :
    Judges (Pure.pure a : Except Exc α) (∀ i ∈ ([] : List ι), Good i)
      (ReachesLost Good Lost []) :=
  (Judges.pure a).congr (by simp) (iff_of_false id not_reachesLost_nil)

theorem Judges.cons {ι : Type} {Good Lost : ι → Prop} {i : ι} {is : List ι}
    {f : α → Except Exc β} (hx : Judges x (Good i) (Lost i))
    (hf : ∀ a, Judges (f a) (∀ j ∈ is, Good j) (ReachesLost Good Lost is)) :
    Judges (x >>= f) (∀ j ∈ i :: is, Good j) (ReachesLost Good Lost (i :: is)) :=
  (hx.bind hf).congr List.forall_mem_cons.symm reachesLost_cons.symm

theorem checkCommand_judges (command : String) (m : Message V) :
    Judges (checkCommand command m) (m.cmd = ascii command) False := by
  unfold checkCommand
  by_cases h : m.cmd = ascii command
  · rw [if_pos h]
    exact (Judges.pure ()).congr (iff_of_true trivial h) Iff.rfl
  · rw [if_neg h]
    exact (judges_protoError _).congr (iff_of_false id h) Iff.rfl

theorem castArg_judges (T : Type) [Representable T V] (what : Bytes) (a : Arg V) :
    Judges (castArg T what a) (a.HasValue (type T V)) (a.LostValue (type T V)) := by
  rcases castArg_cases T what a with ⟨v, rfl, hcast⟩ | ⟨hlost, hcast⟩ | ⟨htype, hcast⟩
  · rw [hcast]
    exact (Judges.pure v).congr (iff_of_true trivial (hasValue_toArg v)) (iff_of_false id
      (hasValue_toArg v).not_lost)
  · rw [hcast]
    exact judges_badAnyCast.congr (iff_of_false id fun h => h.not_lost hlost)
      (iff_of_true trivial hlost)
  · rw [hcast]
    exact (judges_protoError what).congr
      (iff_of_false id fun h => htype (Arg.type_eq_iff.mpr (.inl h)))
      (iff_of_false id fun h => htype (Arg.type_eq_iff.mpr (.inr h)))

theorem requireArg_judges (T : Type) [Representable T V] (key : String) (o : ArgObj V) :
    Judges (requireArg T key o) (HasKey o key (type T V)) (LostKey o key (type T V)) := by
  unfold requireArg HasKey LostKey
  cases o.find? (ascii key) with
  | none => exact (judges_protoError _).congr (iff_of_false id nofun) (iff_of_false id nofun)
  | some a => exact (castArg_judges T _ a).congr (by simp) (by simp)

theorem mapM_judges {read : Arg V → Except Exc α} {Good Lost : Arg V → Prop} {c : List (Arg V)}
    (h : ∀ a, Judges (read a) (Good a) (Lost a)) :
    Judges (c.mapM read) (∀ a ∈ c, Good a) (ReachesLost Good Lost c) := by
  induction c with
  | nil => exact .nil []
  | cons a rest ih =>
    rw [List.mapM_cons]
    refine .cons (h a) fun b => ?_
    exact (ih.bind fun bs => Judges.pure (b :: bs)).congr (and_iff_left trivial) (by simp)

end Lost

section Fields

variable {V α β : Type}

theorem castArg_eq_ok_iff {T : Type} [Representable T V] {what : Bytes} {a : Arg V} {v : T} :
    castArg T what a = .ok v ↔ a = toArg v := by
  refine ⟨castArg_eq_ok, ?_⟩
  rintro rfl
  exact castArg_toArg what v

theorem requireArg_eq_ok_iff {T : Type} [Representable T V] {key : String} {o : ArgObj V} {v : T} :
    requireArg T key o = .ok v ↔ o.find? (ascii key) = some (toArg v) := by
  refine ⟨requireArg_eq_ok, fun h => ?_⟩
  rw [requireArg, h]
  exact castArg_toArg _ v

/-- An argument whose value is read further. -/
theorem Judges.cast {T : Type} [Representable T V] {A L : T → Prop} {f : T → Except Exc β}
    (what : Bytes) (hf : ∀ v, Judges (f v) (A v) (L v)) (a : Arg V) :
    Judges (castArg T what a >>= f) (∃ v, a = toArg v ∧ A v)
      (a.LostValue (type T V) ∨ ∃ v, a = toArg v ∧ L v) := by
  refine ((castArg_judges T what a).bind_of fun v _ => hf v).congr ?_ ?_
  · simp only [castArg_eq_ok_iff]
  · simp only [castArg_eq_ok_iff]

theorem Judges.require {T : Type} [Representable T V] {A L : T → Prop} {f : T → Except Exc β}
    (key : String) (o : ArgObj V) (hf : ∀ v, Judges (f v) (A v) (L v)) :
    Judges (requireArg T key o >>= f) (∃ v : T, o.find? (ascii key) = some (toArg v) ∧ A v)
      (LostKey o key (type T V) ∨ ∃ v : T, o.find? (ascii key) = some (toArg v) ∧ L v) := by
  refine ((requireArg_judges T key o).bind_of fun v _ => hf v).congr ?_ ?_
  · simp only [requireArg_eq_ok_iff]
  · simp only [requireArg_eq_ok_iff]

theorem field_judges (T : Type) [Representable T V] (key : String) (o : ArgObj V) :
    Judges (requireArg T key o) (HoldsField o (key, .value (type T V)))
      (LacksField o (key, .value (type T V))) :=
  requireArg_judges T key o

/-- What a list has to be like for its elements to be read. -/
structure Shape.ListOf (shape : Shape) (Good Lost : Arg V → Prop) : Prop where
  fits : ∀ a, shape.Fits a ↔ ∃ l : ArgList V, a = l.toArg ∧ ∀ b ∈ l.content, Good b
  lacks : ∀ a, shape.Lacks a ↔
    a.LostValue .list ∨ ∃ l : ArgList V, a = l.toArg ∧ ReachesLost Good Lost l.content

theorem exists_toArg (T : List (Arg V) → Prop) {t : ValType} {c : List (Arg V)} :
    (∃ l : ArgList V, Arg.list t c = l.toArg ∧ T l.content) ↔ T c := by
  constructor
  · rintro ⟨⟨u, d⟩, h, hT⟩
    cases h
    exact hT
  · exact fun hT => ⟨⟨t, c⟩, rfl, hT⟩

theorem Shape.listOf_of_list {shape : Shape} {Good Lost : Arg V → Prop}
    (hfits : ∀ t c, shape.Fits (.list t c) ↔ ∀ b ∈ c, Good b)
    (hlacks : ∀ t c, shape.Lacks (.list t c) ↔ ReachesLost Good Lost c)
    (hother : ∀ a : Arg V, (∀ t c, a ≠ .list t c) →
      ¬ shape.Fits a ∧ (shape.Lacks a ↔ a.LostValue .list)) :
    shape.ListOf Good Lost := by
  have hnone {a : Arg V} (ha : ∀ t c, a ≠ .list t c) (T : List (Arg V) → Prop) :
      ¬ ∃ l : ArgList V, a = l.toArg ∧ T l.content := fun ⟨l, h, _⟩ => ha _ _ h
  constructor
  · intro a
    by_cases ha : ∃ t c, a = .list t c
    · obtain ⟨t, c, rfl⟩ := ha
      exact (hfits t c).trans (exists_toArg fun c => ∀ b ∈ c, Good b).symm
    · have ha : ∀ t c, a ≠ .list t c := fun t c h => ha ⟨t, c, h⟩
      exact iff_of_false (hother a ha).1 (hnone ha fun c => ∀ b ∈ c, Good b)
  · intro a
    by_cases ha : ∃ t c, a = .list t c
    · obtain ⟨t, c, rfl⟩ := ha
      have hvalue : ¬ (Arg.list t c).LostValue .list := id
      rw [or_iff_right hvalue]
      exact (hlacks t c).trans (exists_toArg (ReachesLost Good Lost)).symm
    · have ha : ∀ t c, a ≠ .list t c := fun t c h => ha ⟨t, c, h⟩
      rw [or_iff_left (hnone ha (ReachesLost Good Lost))]
      exact (hother a ha).2

theorem Shape.listOf_values (t : ValType) :
    (listOf t).ListOf (fun a : Arg V => a.HasValue t) (fun a => a.LostValue t) := by
  refine listOf_of_list (fun _ _ => Iff.rfl) (fun _ _ => Iff.rfl) ?_
  intro a ha
  cases a using Arg.casesOn with
  | list u c => exact absurd rfl (ha u c)
  | valueless _ _ | scalar _ | string _ | subObject _ => exact ⟨id, Iff.rfl⟩

theorem Shape.listOf_items (keys : List (String × ValType)) :
    (listOfObjects keys).ListOf
      (fun a : Arg V => ∃ o, a = .subObject o ∧ ∀ k ∈ keys, HasKey o k.1 k.2)
      (fun a => a.LostValue .subObject ∨ ∃ o, a = .subObject o ∧
        ReachesLost (fun k => HasKey o k.1 k.2) (fun k => LostKey o k.1 k.2) keys) := by
  refine listOf_of_list (fun _ _ => Iff.rfl) (fun _ _ => Iff.rfl) ?_
  intro a ha
  cases a using Arg.casesOn with
  | list u c => exact absurd rfl (ha u c)
  | valueless _ _ | scalar _ | string _ | subObject _ => exact ⟨id, Iff.rfl⟩

/-- A list under a key, of which each element is read. -/
theorem listField_judges {read : Arg V → Except Exc α} {Good Lost : Arg V → Prop} {shape : Shape}
    (key : String) (o : ArgObj V) (hread : ∀ a, Judges (read a) (Good a) (Lost a))
    (hshape : shape.ListOf Good Lost) (f : List α → β) :
    Judges (requireArg (ArgList V) key o >>= fun l => elementsOf read l >>= fun vals =>
      Pure.pure (f vals)) (∀ g ∈ [(key, shape)], HoldsField o g)
        (ReachesLost (HoldsField o) (LacksField o) [(key, shape)]) := by
  have helements (l : ArgList V) : Judges (elementsOf read l >>= fun vals => Pure.pure (f vals))
      (∀ b ∈ l.content, Good b) (ReachesLost Good Lost l.content) :=
    ((mapM_judges hread).bind fun vals => .pure (f vals)).congr (and_iff_left trivial) (by simp)
  refine (Judges.require key o helements).congr ?_ ?_
  · rw [List.forall_mem_singleton, HoldsField]
    simp only [hshape.fits]
    constructor
    · rintro ⟨l, hl, hall⟩
      exact ⟨_, hl, l, rfl, hall⟩
    · rintro ⟨a, ha, l, rfl, hall⟩
      exact ⟨l, ha, hall⟩
  · rw [reachesLost_singleton, LacksField]
    simp only [hshape.lacks]
    constructor
    · rintro (⟨a, ha, hlost⟩ | ⟨l, hl, hall⟩)
      · exact ⟨a, ha, .inl hlost⟩
      · exact ⟨_, hl, .inr ⟨l, rfl, hall⟩⟩
    · rintro ⟨a, ha, hlost | ⟨l, rfl, hall⟩⟩
      · exact .inl ⟨a, ha, hlost⟩
      · exact .inr ⟨l, ha, hall⟩

theorem token_judges (m : Message V) : Judges (TokenRequest.ofMessage m)
    (HoldsField m.args ("token", .value (.scalar .int32)))
    (LacksField m.args ("token", .value (.scalar .int32))) :=
  ((field_judges Int32 "token" m.args).bind fun _ => .pure _).congr (and_iff_left trivial)
    (or_iff_left And.right)

theorem okay_judges (m : Message V) :
    Judges (OkayResponse.ofMessage m) (m.cmd = ascii ResponseCommands.okay) False :=
  ((checkCommand_judges ResponseCommands.okay m).bind fun _ => .pure _).congr
    (and_iff_left trivial) (by simp)

theorem channelShort_judges (a : Arg V) : Judges (ChannelListResponse.itemOfArg a)
    (∃ item, a = .subObject item ∧
      ∀ k ∈ [("id", ValType.scalar .int32), ("name", .string)], HasKey item k.1 k.2)
    (a.LostValue .subObject ∨ ∃ item, a = .subObject item ∧
      ReachesLost (fun k => HasKey item k.1 k.2) (fun k => LostKey item k.1 k.2)
        [("id", ValType.scalar .int32), ("name", .string)]) := by
  refine .cast _ (fun item => ?_) a
  exact .cons (requireArg_judges Int32 "id" item) fun _ =>
    .cons (requireArg_judges Bytes "name" item) fun _ => .nil _

theorem listedMessage_judges (a : Arg V) : Judges (ChannelMsgResponse.itemOfArg a)
    (∃ item, a = .subObject item ∧
      ∀ k ∈ [("sender", ValType.scalar .int32), ("when", .scalar .uint32), ("cnt", .string)],
        HasKey item k.1 k.2)
    (a.LostValue .subObject ∨ ∃ item, a = .subObject item ∧
      ReachesLost (fun k => HasKey item k.1 k.2) (fun k => LostKey item k.1 k.2)
        [("sender", ValType.scalar .int32), ("when", .scalar .uint32), ("cnt", .string)]) := by
  refine .cast _ (fun item => ?_) a
  exact .cons (requireArg_judges Int32 "sender" item) fun _ =>
    .cons (requireArg_judges UInt32 "when" item) fun _ =>
    .cons (requireArg_judges Bytes "cnt" item) fun _ => .nil _

/-- A converter that compares the command first. -/
theorem Judges.checked {t : Convertible} {m : Message V} {x : Except Exc α}
    {f : α → Except Exc β} (hcheck : t.ChecksCommand)
    (hx : Judges x (m.cmd = ascii t.command) False)
    (hf : ∀ a, Judges (f a) (t.Admits m.args)
      (ReachesLost (HoldsField m.args) (LacksField m.args) t.fields)) :
    Judges (x >>= f) ((t.ChecksCommand → m.cmd = ascii t.command) ∧ t.Admits m.args)
      (t.Lacks m) :=
  (hx.bind hf).congr (by rw [imp_iff_right hcheck])
    (by rw [false_or, Convertible.Lacks, imp_iff_right hcheck])

theorem Judges.unchecked {t : Convertible} {m : Message V} {x : Except Exc α}
    (hcheck : ¬ t.ChecksCommand) (hx : Judges x (t.Admits m.args)
      (ReachesLost (HoldsField m.args) (LacksField m.args) t.fields)) :
    Judges x ((t.ChecksCommand → m.cmd = ascii t.command) ∧ t.Admits m.args) (t.Lacks m) :=
  hx.congr (and_iff_right fun h => absurd h hcheck).symm
    (and_iff_right fun h => absurd h hcheck).symm

/-- What each converter tests. -/
theorem ofMessage_judges (t : Convertible) (m : Message V) :
    Judges (t.ofMessage m) ((t.ChecksCommand → m.cmd = ascii t.command) ∧ t.Admits m.args)
      (t.Lacks m) := by
  have hint := fun key => field_judges Int32 key m.args
  have hstring := fun key => field_judges Bytes key m.args
  have htoken := token_judges m
  cases t with
  | loginRequest =>
    exact .checked trivial (checkCommand_judges Commands.login m) fun _ =>
      .cons (hstring "user") fun _ => .cons (hstring "pass") fun _ => .nil _
  | newUserRequest =>
    exact .checked trivial (checkCommand_judges Commands.newUser m) fun _ =>
      .cons (hstring "name") fun _ => .cons (hstring "pass") fun _ => .nil _
  | logoutRequest =>
    exact .checked trivial (checkCommand_judges Commands.logout m) fun _ =>
      .cons htoken fun _ => .nil _
  | channelListRequest =>
    exact .checked trivial (checkCommand_judges Commands.channelList m) fun _ =>
      .cons htoken fun _ => .nil _
  | channelMsgRequest =>
    exact .checked trivial (checkCommand_judges Commands.channelMsg m) fun _ =>
      .cons htoken fun _ => .cons (hint "chan_id") fun _ => .nil _
  | messageSendRequest =>
    exact .checked trivial (checkCommand_judges Commands.sendMsg m) fun _ =>
      .cons htoken fun _ => .cons (hint "chan_id") fun _ =>
      .cons (hstring "msg_cnt") fun _ => .nil _
  | channelDetailsRequest =>
    exact .checked trivial (checkCommand_judges Commands.channelDetails m) fun _ =>
      .cons htoken fun _ => .cons (hint "chan_id") fun _ => .nil _
  | newChannelRequest =>
    exact .checked trivial (checkCommand_judges Commands.newChannel m) fun _ =>
      .cons htoken fun _ => .cons (hstring "desc") fun _ =>
      .cons (hstring "name") fun _ => .nil _
  | changePassRequest =>
    exact .checked trivial (checkCommand_judges Commands.changePass m) fun _ =>
      .cons htoken fun _ => .cons (hstring "new_pass") fun _ => .nil _
  | userDetailsRequest =>
    exact .checked trivial (checkCommand_judges Commands.userDetails m) fun _ =>
      .cons htoken fun _ => .cons (hint "uid") fun _ => .nil _
  | inviteUserRequest =>
    exact .checked trivial (checkCommand_judges Commands.inviteUser m) fun _ =>
      .cons htoken fun _ => .cons (hint "uid") fun _ => .cons (hint "chan_id") fun _ => .nil _
  | okayResponse =>
    exact .checked trivial (checkCommand_judges ResponseCommands.okay m) fun _ => .nil _
  | errorResponse => exact .unchecked id (.cons (hstring "reason") fun _ => .nil _)
  | tokenResponse =>
    exact .checked trivial (okay_judges m) fun _ => .cons (hint "token") fun _ => .nil _
  | idResponse =>
    exact .checked trivial (okay_judges m) fun _ => .cons (hint "id") fun _ => .nil _
  | channelListResponse =>
    exact .unchecked id
      (listField_judges "data" m.args channelShort_judges (Shape.listOf_items _) _)
  | channelMsgResponse =>
    exact .unchecked id
      (listField_judges "msgs" m.args listedMessage_judges (Shape.listOf_items _) _)
  | channelDetailsResponse =>
    exact .unchecked id (.cons (hint "id") fun _ => .cons (hstring "name") fun _ =>
      .cons (hint "owner_id") fun _ => .cons (hstring "desc") fun _ =>
      listField_judges "members" m.args (castArg_judges Int32 _) (Shape.listOf_values _) _)
  | userDetailsResponse =>
    exact .unchecked id (.cons (hint "id") fun _ => .cons (hstring "name") fun _ =>
      listField_judges "mutual_channels" m.args (castArg_judges Int32 _) (Shape.listOf_values _) _)

end Fields

section Additional

variable {V α β : Type} {o o' : ArgObj V} {key : String}

theorem requireArg_congr (h : o.find? (ascii key) = o'.find? (ascii key)) (T : Type)
    [Representable T V] : requireArg T key o = requireArg T key o' := by
  unfold requireArg
  rw [h]

theorem mapM_congr_of_forall₂ {R : Arg V → Arg V → Prop} {read : Arg V → Except Exc α}
    (hread : ∀ a b, R a b → read a = read b) {c c' : List (Arg V)} (h : List.Forall₂ R c c') :
    c.mapM read = c'.mapM read := by
  induction h with
  | nil => rfl
  | cons hab _ ih => rw [List.mapM_cons, List.mapM_cons, hread _ _ hab, ih]

/-- A list whose elements differ in additional keys is read alike. -/
theorem requireList_congr {keys : List (String × ValType)} {read : Arg V → Except Exc α}
    {f : List α → Except Exc β} (hread : ∀ a b, Shape.SameItem keys a b → read a = read b)
    (h : (Shape.listOfObjects keys).Same (o.find? (ascii key)) (o'.find? (ascii key))) :
    (requireArg (ArgList V) key o >>= fun l => elementsOf read l >>= f) =
      (requireArg (ArgList V) key o' >>= fun l => elementsOf read l >>= f) := by
  unfold requireArg
  generalize o.find? (ascii key) = found at h ⊢
  generalize o'.find? (ascii key) = found' at h ⊢
  unfold Shape.Same at h
  split at h
  · rename_i heq
    cases heq
    rename_i u c u' c'
    have hsame : elementsOf read ⟨u, c⟩ = elementsOf read ⟨u', c'⟩ := mapM_congr_of_forall₂ hread h
    show (elementsOf read ⟨u, c⟩ >>= f) = (elementsOf read ⟨u', c'⟩ >>= f)
    rw [hsame]
  · rw [h]

theorem item_congr {keys : List (String × ValType)} {f : ArgObj V → Except Exc α} (what : Bytes)
    (hf : ∀ item item' : ArgObj V,
      (∀ k ∈ keys, item.find? (ascii k.1) = item'.find? (ascii k.1)) → f item = f item')
    {a b : Arg V} (h : Shape.SameItem keys a b) :
    (castArg (ArgObj V) what a >>= f) = (castArg (ArgObj V) what b >>= f) := by
  rcases h with rfl | ⟨item, item', rfl, rfl, hkeys⟩
  · rfl
  · exact hf item item' hkeys

theorem channelShort_congr {a b : Arg V}
    (h : Shape.SameItem [("id", .scalar .int32), ("name", .string)] a b) :
    ChannelListResponse.itemOfArg a = ChannelListResponse.itemOfArg b := by
  refine item_congr _ ?_ h
  intro item item' hkeys
  simp only [List.forall_mem_cons] at hkeys
  simp only [requireArg_congr hkeys.1, requireArg_congr hkeys.2.1]

theorem listedMessage_congr {a b : Arg V} (h : Shape.SameItem
      [("sender", .scalar .int32), ("when", .scalar .uint32), ("cnt", .string)] a b) :
    ChannelMsgResponse.itemOfArg a = ChannelMsgResponse.itemOfArg b := by
  refine item_congr _ ?_ h
  intro item item' hkeys
  simp only [List.forall_mem_cons] at hkeys
  simp only [requireArg_congr hkeys.1, requireArg_congr hkeys.2.1, requireArg_congr hkeys.2.2.1]

/-- Additional keys have no influence. -/
theorem ofMessage_congr {t : Convertible} {m m' : Message V} (h : t.Agrees m m') :
    t.ofMessage m = t.ofMessage m' := by
  obtain ⟨hcmd, hfields⟩ := h
  cases t with
  | loginRequest | newUserRequest =>
    simp only [Convertible.fields, List.forall_mem_cons] at hfields
    obtain ⟨hfirst, hsecond, -⟩ := hfields
    simp only [Convertible.ofMessage, LoginRequest.ofMessage, NewUserRequest.ofMessage,
      checkCommand, hcmd, requireArg_congr hfirst, requireArg_congr hsecond]
  | logoutRequest | channelListRequest =>
    simp only [Convertible.fields, List.forall_mem_cons] at hfields
    simp only [Convertible.ofMessage, LogoutRequest.ofMessage, ChannelListRequest.ofMessage,
      TokenRequest.ofMessage, checkCommand, hcmd, requireArg_congr hfields.1]
  | channelMsgRequest | channelDetailsRequest | changePassRequest | userDetailsRequest =>
    simp only [Convertible.fields, List.forall_mem_cons] at hfields
    obtain ⟨htoken, hsecond, -⟩ := hfields
    simp only [Convertible.ofMessage, ChannelMsgRequest.ofMessage,
      ChannelDetailsRequest.ofMessage, ChangePassRequest.ofMessage, UserDetailsRequest.ofMessage,
      TokenRequest.ofMessage, checkCommand, hcmd, requireArg_congr htoken,
      requireArg_congr hsecond]
  | messageSendRequest | newChannelRequest | inviteUserRequest =>
    simp only [Convertible.fields, List.forall_mem_cons] at hfields
    obtain ⟨htoken, hsecond, hthird, -⟩ := hfields
    simp only [Convertible.ofMessage, MessageSendRequest.ofMessage, NewChannelRequest.ofMessage,
      InviteUserRequest.ofMessage, TokenRequest.ofMessage, checkCommand, hcmd,
      requireArg_congr htoken, requireArg_congr hsecond, requireArg_congr hthird]
  | okayResponse =>
    simp only [Convertible.ofMessage, OkayResponse.ofMessage, checkCommand, hcmd]
  | errorResponse =>
    simp only [Convertible.fields, List.forall_mem_cons] at hfields
    simp only [Convertible.ofMessage, ErrorResponse.ofMessage, requireArg_congr hfields.1]
  | tokenResponse | idResponse =>
    simp only [Convertible.fields, List.forall_mem_cons] at hfields
    simp only [Convertible.ofMessage, TokenResponse.ofMessage, IdResponse.ofMessage,
      OkayResponse.ofMessage, checkCommand, hcmd, requireArg_congr hfields.1]
  | channelListResponse =>
    simp only [Convertible.fields, List.forall_mem_cons] at hfields
    exact requireList_congr (fun _ _ => channelShort_congr) hfields.1
  | channelMsgResponse =>
    simp only [Convertible.fields, List.forall_mem_cons] at hfields
    exact requireList_congr (fun _ _ => listedMessage_congr) hfields.1
  | channelDetailsResponse =>
    simp only [Convertible.fields, List.forall_mem_cons] at hfields
    obtain ⟨hid, hname, howner, hdesc, hmembers, -⟩ := hfields
    simp only [Convertible.ofMessage, ChannelDetailsResponse.ofMessage, requireArg_congr hid,
      requireArg_congr hname, requireArg_congr howner, requireArg_congr hdesc,
      requireArg_congr hmembers]
  | userDetailsResponse =>
    simp only [Convertible.fields, List.forall_mem_cons] at hfields
    obtain ⟨hid, hname, hmutual, -⟩ := hfields
    simp only [Convertible.ofMessage, UserDetailsResponse.ofMessage, requireArg_congr hid,
      requireArg_congr hname, requireArg_congr hmutual]

end Additional

section Values

theorem Shape.not_lacks (shape : Shape) (a : Arg) : ¬ shape.Lacks a := by
  cases shape with
  | value t => exact Arg.not_lostValue
  | listOf t =>
    cases a with
    | list u c => exact not_reachesLost fun _ => Arg.not_lostValue
    | scalar _ | string _ | subObject _ => exact id
  | listOfObjects keys =>
    cases a with
    | list u c =>
      refine not_reachesLost fun b => ?_
      rintro (hlost | ⟨item, -, hlacks⟩)
      · exact Arg.not_lostValue hlost
      · exact not_reachesLost (fun k ⟨_, _, hlost⟩ => Arg.not_lostValue hlost) hlacks
    | scalar _ | string _ | subObject _ => exact id

/-- A message of the decoder or the constructors keeps all its values. -/
theorem Convertible.not_lacks (t : Convertible) (m : Message) : ¬ t.Lacks m := fun h =>
  not_reachesLost (fun f ⟨a, _, hlacks⟩ => f.2.not_lacks a hlacks) h.2

/-- Reading such a message throws nothing but `proto_error`. -/
theorem ofMessage_throws (t : Convertible) (m : Message) {e : Exc}
    (h : t.ofMessage m = .error e) : ∃ what, e = .protoError what := by
  refine ((ofMessage_judges t m).throws e h).resolve_left ?_
  rintro rfl
  exact t.not_lacks m ((ofMessage_judges t m).lacks.mp h)

end Values

/-- A converter keeps its contract on a message exactly when it comes to no argument that
has lost its value, and it checks the command, or the command is right, or a key is missing
or mistyped anyway. -/
theorem contract_iff {V : Type} (t : Convertible) (m : Message V) :
    t.Contract m ↔ ¬ t.Lacks m ∧
      (t.ChecksCommand ∨ m.cmd = ascii t.command ∨ ¬ t.Admits m.args) := by
  have hjudges := ofMessage_judges t m
  constructor
  · intro h
    refine ⟨?_, ?_⟩
    · intro hlacks
      obtain ⟨what, hwhat⟩ := h.throws _ (hjudges.lacks.mpr hlacks)
      cases hwhat
    · by_cases hcheck : t.ChecksCommand
      · exact .inl hcheck
      · refine .inr ?_
        by_cases hargs : t.Admits m.args
        · exact .inl (h.accepts.mp (hjudges.accepts.mpr ⟨fun hc => absurd hc hcheck, hargs⟩)).1
        · exact .inr hargs
  · rintro ⟨hfull, h⟩
    refine ⟨hjudges.accepts.trans ?_, ?_, fun m' hm' => (ofMessage_congr hm').symm⟩
    · constructor
      · rintro ⟨hcmd, hargs⟩
        refine ⟨?_, hargs⟩
        rcases h with hcheck | hsame | hno
        · exact hcmd hcheck
        · exact hsame
        · exact absurd hargs hno
      · exact fun ⟨hcmd, hargs⟩ => ⟨fun _ => hcmd, hargs⟩
    · intro e he
      refine (hjudges.throws e he).resolve_left ?_
      rintro rfl
      exact hfull (hjudges.lacks.mp he)

/-- An error message that also carries an empty list of channels. -/
def listedError : Message :=
  .ofValues (ascii ResponseCommands.error)
    [paired "reason" (ascii "no"), paired "data" ({} : ArgList)]

/-- It is read as a channel list. -/
theorem listedError_accepted :
    Convertible.channelListResponse.ofMessage listedError =
        .ok ({ data := [] } : ChannelListResponse) ∧
      ¬ Convertible.channelListResponse.Contract listedError := by
  have haccepted : Convertible.channelListResponse.ofMessage listedError =
      .ok ({ data := [] } : ChannelListResponse) := rfl
  refine ⟨haccepted, ?_⟩
  intro h
  have hcmd := (h.accepts.mp ⟨_, haccepted⟩).1
  exact absurd hcmd (by decide)

/-- The token of this response was moved to somewhere else. -/
example : Convertible.tokenResponse.ofMessage
    { cmd := ascii ResponseCommands.okay,
      args := [(ascii "token", .valueless () (.scalar .int32))] } = .error .badAnyCast := rfl

end Dotchat
