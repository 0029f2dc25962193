import Dotchat.Readings

/-!
The database operations of each request, written out. A request with a token
finds its user first and goes on with `body`; login searches for a free key, and
its turns are those of the loop. The programs are equal to the answered handlers,
so whatever is shown of them is shown of the handlers.
-/
namespace Dotchat

open Db Handlers Program

section Parts

variable {α : Type}

/-- `query` inside `try`; what `catch` does with a `proto_error` is `recover`. -/
def attempt (recover : Handler α) (c : Call) (k : c.Answer → Handler α) : Handler α :=
  .call c fun
    | .ok a => k a
    | .error (.protoError _) => recover
    | .error e => .done (.threw e)

/-- What the user of a session does. -/
def asUserOf (s : SessionKey) (k : User → Handler α) : Handler α :=
  query (.getUser s.user) fun
    | some u => k u
    | none => .done (.threw .badOptionalAccess)

/-- `check_session_key`, and what the user of the session does. -/
def session (r : Readings) (token : Int32) (k : User → Handler α) : Handler α :=
  query (.getSessionKey token) fun
    | some s =>
        if SessionLive s.validUntil (r.now 0).now then asUserOf s k
        else protoThrow (tokenText token)
    | none => protoThrow (tokenText token)

/-- The loop of `login`, and what follows when the key is free. -/
def search (key : Int32) (k : Handler α) : Readings → ℕ → Handler α
  | _, 0 => .done .running
  | r, turns + 1 => attempt k (.getSessionKey key) fun
      | some s =>
          if SessionLive s.validUntil (r.now 0).now then attempt k (.getUser s.user) fun
            | some _ => search key k r.afterNow.afterRand turns
            | none => .done (.threw .badOptionalAccess)
          else k
      | none => k

theorem answer_query {c : Call} (h : c.shared = true) (r : Readings) (k : c.Answer → Handler α) :
    answer r (query c k) = query c fun a => answer r (k a) := by
  rw [query, answer_shared h]
  refine congrArg (Program.call c) (funext fun a => ?_)
  cases a <;> rfl

theorem answer_check (r : Readings) (key : Int32) (f : User → Handler α) :
    answer r (checkSessionKey key >>= f) = session r key fun u => answer r.afterNow (f u) := by
  rw [checkSessionKey_bind, answer_query rfl]
  refine congrArg (query _) (funext fun s => ?_)
  cases s with
  | none => rfl
  | some s =>
    show answer r.afterNow (ite _ _ _) = ite _ _ _
    by_cases hlive : SessionLive s.validUntil (r.now 0).now
    · simp only [hlive, if_true]
      rw [answer_query rfl]
      refine congrArg (query _) (funext fun u => ?_)
      cases u <;> rfl
    · simp only [hlive, if_false]
      rfl

theorem answer_awaitFreeKey {r : Readings} {key : Int32} {f : Unit → Handler α} {k : Handler α}
    (hf : ∀ r' : Readings, r'.nowUncut = r.nowUncut → answer r' (f ()) = k) (turns : ℕ) :
    answer r (awaitFreeKey key turns >>= f) = search key k r turns := by
  induction turns generalizing r with
  | zero => rfl
  | succ turns ih =>
    rw [awaitFreeKey, keyIsFree, catchProto, checkSessionKey_bind]
    refine congrArg (Program.call _) (funext fun s => ?_)
    cases s with
    | error e =>
      cases e with
      | protoError what => exact hf r rfl
      | _ => rfl
    | ok s =>
      cases s with
      | none => exact hf r rfl
      | some s =>
        show answer r.afterNow
          (Program.bind (Program.bind (Program.tryCatch (ite _ _ _) _) _) f) = ite _ _ _
        by_cases hlive : SessionLive s.validUntil (r.now 0).now
        · simp only [hlive, if_true]
          refine congrArg (Program.call _) (funext fun u => ?_)
          cases u with
          | error e =>
            cases e with
            | protoError what => exact hf r.afterNow rfl
            | _ => rfl
          | ok u =>
            cases u with
            | none => rfl
            | some u => exact ih hf
        · simp only [hlive, if_false]
          exact hf r.afterNow rfl

end Parts

/-- The session that `login` writes for the user. -/
def Readings.sessionOf (r : Readings) (user : User) : SessionKey where
  key := r.rand 0
  user := user.id
  validUntil := (r.nowUncut 0).nowUncut + sessionLength

/-- The last operation of `login`. -/
def issueScript (row : SessionKey) : Handler Response :=
  query (.replaceSessionKey row) fun _ => return .token { token := row.key }

/-- The operations of `login`. -/
def loginScript (r : Readings) (turns : ℕ) (l : LoginRequest) : Handler Response :=
  query (.usersNamed l.user) fun
    | [] => protoThrow (unknownUserText l.user)
    | user :: _ =>
        if user.pass ≠ l.pass then protoThrow (wrongPassText l.user)
        else search (r.rand 0) (issueScript (r.sessionOf user)) r.afterRand turns

/-- The last operation of `channel_details`. -/
def detailsScript (req : ChannelDetailsRequest) (members : List Int32) : Handler Response :=
  query (.getChannel req.chanId) fun
    | some channel => return .channelDetails {
        id := channel.id
        name := channel.name
        ownerId := channel.ownerId
        desc := channel.desc
        members := members }
    | none => protoThrow (ascii "That channel doesn't exist.")

/-- The last operation of `invite_user`. -/
def joinScript (row : ChannelMember) : Handler Response :=
  query (.replaceChannelMember row) fun _ => return .okay {}

/-- The operations of `invite_user` behind the checks of the channel. -/
def inviteScript (chan : Channel) (req : InviteUserRequest) : Handler Response :=
  query (.getUser req.uid) fun
    | some other => query (.membershipsOf req.chanId req.uid) fun alreadyJoined =>
        if alreadyJoined ≠ [] then
          protoThrow (ascii "That user has already joined that channel.")
        else joinScript { user := other.id, channel := chan.id }
    | none => protoThrow (noInviteeText req.uid)

/-- The operations of a request with a token, when its user has been found. -/
def body (r : Readings) (user : User) : Request → Handler Response
  | .login _ | .newUser _ => .done .running
  | .logout _ => query (.removeSessionKeysOf user.id) fun _ => return .okay {}
  | .channelList _ => query (.channelsOf user.id) fun channelData =>
      return .channelList { data := channelData.map fun (id, name) => { id := id, name := name } }
  | .channelMsg req => query (.getChannelMember user.id req.chanId) fun member =>
      if member.isSome then query (.messagesOf req.chanId) fun res =>
        return .channelMsg { msgs := res.map fun msg =>
          { sender := msg.sender, sentWhen := msg.sentWhen, cnt := msg.content } }
      else protoThrow (ascii "You can't access that channel, or that channel doesn't exist.")
  | .sendMsg msg => query (.getChannelMember user.id msg.chanId) fun member =>
      if member.isSome then
        query (.insertMessage user.id msg.chanId msg.msgCnt (r.now 0).now) fun _ =>
          return .okay {}
      else protoThrow (ascii "You are not permitted to send messages in that channel.")
  | .channelDetails req => query (.membersOf req.chanId) fun members =>
      if user.id ∈ members then detailsScript req members
      else protoThrow (ascii "You can't access that channel.")
  | .newChannel req => query (.insertChannel req.name user.id req.desc) fun id =>
      query (.replaceChannelMember { user := user.id, channel := id }) fun _ =>
        return .id { id := id }
  | .changePass req =>
      query (.updateUser { id := user.id, name := user.name, pass := req.newPass }) fun _ =>
        return .okay {}
  | .userDetails req => query (.getUser req.uid) fun
      | some user => query (.mutualChannels req.uid user.id) fun mutChan =>
          return .userDetails { id := user.id, name := user.name, mutualChannels := mutChan }
      | none => protoThrow (noUserText req.uid)
  | .inviteUser req => query (.getChannel req.chanId) fun
      | some chan =>
          if chan.ownerId ≠ user.id then
            protoThrow (ascii "Only the creator of a channel can add users to that channel.")
          else inviteScript chan req
      | none => protoThrow (noChannelText req.chanId)

section Scripts

variable {r : Readings} {turns : ℕ}

section Rules

variable {α : Type} {g : α → Response}

/-- The first operation of a handler is the first one of its script. -/
theorem answer_invoke {c : Call} (hc : c.shared = true) {f : c.Answer → Handler α}
    {k : c.Answer → Handler Response} (h : ∀ a, answer r (g <$> f a) = k a) :
    answer r (g <$> (invoke c >>= f)) = query c k := by
  rw [map_bind, invoke_bind, answer_query hc]
  exact congrArg (query c) (funext h)

theorem answer_access {uid chanId : Int32} {f : Bool → Handler α}
    {k : Option ChannelMember → Handler Response}
    (h : ∀ m, answer r (g <$> f m.isSome) = k m) :
    answer r (g <$> (userCanAccess uid chanId >>= f)) = query (.getChannelMember uid chanId) k := by
  have hbind : (userCanAccess uid chanId >>= f) =
      invoke (.getChannelMember uid chanId) >>= fun m => f m.isSome :=
    congrArg (Program.call _) (funext fun a => by cases a <;> rfl)
  rw [hbind]
  exact answer_invoke rfl h

theorem answer_behind_check {key : Int32} {f : User → Handler α} {k : User → Handler Response}
    (h : ∀ u, answer r.afterNow (g <$> f u) = k u) :
    answer r (g <$> (checkSessionKey key >>= f)) = session r key k := by
  rw [map_bind, answer_check]
  exact congrArg (session r key) (funext h)

end Rules

theorem answer_login (l : LoginRequest) :
    answer r (respond turns (.login l)) = loginScript r turns l := by
  apply answer_invoke rfl
  intro users
  cases users with
  | nil => rfl
  | cons user others =>
    by_cases hpass : user.pass = l.pass
    · simp only [hpass, ne_eq, not_true_eq_false, if_false]
      show answer r.afterRand (Response.token <$> (awaitFreeKey (r.rand 0) turns >>= _)) = _
      rw [map_bind]
      apply answer_awaitFreeKey
      intro r' hr
      have huncut : r'.nowUncut 0 = r.nowUncut 0 := congrFun hr 0
      show answer r'.afterNowUncut (Response.token <$> (invoke (.replaceSessionKey
        { validUntil := (r'.nowUncut 0).nowUncut + _, .. }) >>= _)) = _
      rw [huncut]
      exact answer_invoke rfl fun _ => rfl
    · simp only [hpass, ne_eq, not_false_eq_true, if_true]
      rfl

theorem answer_newUser (q : NewUserRequest) : answer r (respond turns (.newUser q)) =
    query (.insertUser q.name q.pass) fun _ => return .okay {} :=
  answer_invoke rfl fun _ => rfl

theorem answer_inviteTo (c : Channel) (q : InviteUserRequest) :
    answer r (Response.okay <$> Handlers.inviteTo c q) = inviteScript c q := by
  apply answer_invoke rfl
  intro v
  cases v with
  | none => rfl
  | some v =>
    apply answer_invoke rfl
    intro joined
    by_cases hjoined : joined = []
    · simp only [hjoined, ne_eq, not_true_eq_false, if_false]
      exact answer_invoke rfl fun _ => rfl
    · simp only [hjoined, ne_eq, not_false_eq_true, if_true]
      rfl

/-- A request with a token is answered by the operations of its body. -/
theorem answer_token {req : Request} {token : Int32} (h : req.token = some token) :
    answer r (respond turns req) = session r token fun u => body r.afterNow u req := by
  cases req with
  | login _ | newUser _ => cases h
  | logout q =>
    cases h
    apply answer_behind_check
    exact fun u => answer_invoke rfl fun _ => rfl
  | channelList q =>
    cases h
    apply answer_behind_check
    exact fun u => answer_invoke rfl fun _ => rfl
  | changePass q =>
    cases h
    apply answer_behind_check
    exact fun u => answer_invoke rfl fun _ => rfl
  | newChannel q =>
    cases h
    apply answer_behind_check
    exact fun u => answer_invoke rfl fun id => answer_invoke rfl fun _ => rfl
  | channelMsg q =>
    cases h
    apply answer_behind_check
    intro u
    apply answer_access
    intro m
    cases m with
    | none => rfl
    | some m => exact answer_invoke rfl fun _ => rfl
  | sendMsg q =>
    cases h
    apply answer_behind_check
    intro u
    apply answer_access
    intro m
    cases m with
    | none => rfl
    | some m =>
      show answer r.afterNow.afterNow (Response.okay <$> (invoke _ >>= _)) = _
      exact answer_invoke rfl fun _ => rfl
  | channelDetails q =>
    cases h
    apply answer_behind_check
    intro u
    apply answer_invoke rfl
    intro members
    by_cases hmem : u.id ∈ members
    · simp only [hmem, if_true]
      apply answer_invoke rfl
      intro c
      cases c <;> rfl
    · simp only [hmem, if_false]
      rfl
  | userDetails q =>
    cases h
    apply answer_behind_check
    intro u
    apply answer_invoke rfl
    intro v
    cases v with
    | none => rfl
    | some v => exact answer_invoke rfl fun _ => rfl
  | inviteUser q =>
    cases h
    apply answer_behind_check
    intro u
    apply answer_invoke rfl
    intro c
    cases c with
    | none => rfl
    | some c =>
      by_cases howner : c.ownerId = u.id
      · simp only [howner, ne_eq, not_true_eq_false, if_false]
        exact answer_inviteTo c q
      · simp only [howner, ne_eq, not_false_eq_true, if_true]
        rfl

end Scripts
end Dotchat
