import Dotchat.Sessions

/-!
Two runs that differ in the messages of one channel. All operations but the
reading of that channel's messages answer alike in both, up to the row ids of
messages, which no reply carries. The one handler that reads messages first
tests that its user is a member. So as long as no request carries a token of a
member of the channel, the replies are the same.
-/
namespace Dotchat

open Db Handlers Program

/-- A stored message without its row id. -/
def Db.StoredMessage.unnumbered (m : StoredMessage) : StoredMessage := { m with id := 0 }

/-- The messages outside the channel, without their row ids. -/
def Database.messagesOutside (db : Database) (c : Int32) : List StoredMessage :=
  (db.messages.filter (·.channel ≠ c)).map (·.unnumbered)

/-- The worlds differ only in the messages of `c` and in row ids of messages. -/
structure SameBut (c : Int32) (w v : World) : Prop where
  rest : v = w.store { w.db with messages := v.db.messages }
  outside : v.db.messagesOutside c = w.db.messagesOutside c

/-- The message carries no token that is accepted for a member of `c`. -/
def NoMember (env : Env) (c : Int32) (w : World) (m : Message) : Prop :=
  ∀ req token u, Request.Parses m req → req.token = some token → Accepted env w token u →
    { user := u.id, channel := c } ∉ w.db.channelMembers

/-- Process the messages one after the other, each with its number of turns. -/
def serveAll (env : Env) : List (ℕ × Message) → World → List (Outcome Exc Message) × World
  | [], w => ([], w)
  | (turns, m) :: rest, w =>
      let (reply, w') := serve env turns m w
      let (replies, w'') := serveAll env rest w'
      (reply :: replies, w'')

/-- No message carries a token that belongs at its moment to a member of `c`. -/
def NoMembers (env : Env) (c : Int32) : List (ℕ × Message) → World → Prop
  | [], _ => True
  | (turns, m) :: rest, w => NoMember env c w m ∧ NoMembers env c rest (serve env turns m w).2

section Operations

variable {env : Env} {c : Int32} {w v : World}

/-- The messages of another channel are the same but for their ids. -/
theorem messagesOf_unnumbered {db : Database} {channel : Int32} (hne : channel ≠ c) :
    (db.messagesOf channel).map (·.unnumbered) =
      ((db.messagesOutside c).filter (·.channel = channel)).insertionSort
        fun m m' => m.stored ≤ m'.stored := by
  have hfilter : db.messages.filter (·.channel = channel) =
      (db.messages.filter (·.channel ≠ c)).filter (·.channel = channel) := by
    rw [List.filter_filter]
    apply List.filter_congr
    intro m _
    by_cases hm : m.channel = channel
    · simp [hm, hne]
    · simp [hm]
  have hsort : (db.messagesOf channel).map (·.unnumbered) =
      ((db.messages.filter (·.channel = channel)).map (·.unnumbered)).insertionSort
        fun m m' => m.stored ≤ m'.stored :=
    List.map_insertionSort _ _ _ _ fun _ _ _ _ => Iff.rfl
  rw [hsort, hfilter, Database.messagesOutside, List.filter_map]
  rfl

variable {db : Database} {msgs : List StoredMessage}

theorem insertUser_messages (name pass : Bytes) :
    Database.insertUser { db with messages := msgs } name pass =
      (db.insertUser name pass).map fun db' => { db' with messages := msgs } := by
  rw [Database.insertUser, Database.insertUser, apply_ite (Except.map _)]
  rfl

theorem insertChannel_messages (name : Bytes) (ownerId : Int32) (desc : Option Bytes) :
    Database.insertChannel { db with messages := msgs } name ownerId desc =
      (db.insertChannel name ownerId desc).map fun out =>
        (out.1, { out.2 with messages := msgs }) := by
  rw [Database.insertChannel, Database.insertChannel, apply_ite (Except.map _)]
  rfl

theorem updateUser_messages (row : User) :
    Database.updateUser { db with messages := msgs } row =
      (db.updateUser row).map fun db' => { db' with messages := msgs } := by
  rw [Database.updateUser, Database.updateUser, apply_ite (Except.map _)]
  rfl

theorem SameBut.insertMessage (h : SameBut c w v) (sender channel : Int32) (content : Bytes)
    (sentWhen : UInt32) :
    SameBut c (w.store (w.db.insertMessage sender channel content sentWhen))
      (v.store (v.db.insertMessage sender channel content sentWhen)) := by
  obtain ⟨hrest, houtside⟩ := h
  refine ⟨?_, ?_⟩
  · rw [hrest]
    rfl
  · simp only [Database.messagesOutside] at houtside
    simp only [World.store_db, Database.insertMessage, Database.messagesOutside, List.filter_append,
      List.map_append, houtside, List.append_cancel_left_eq, List.filter_cons, List.filter_nil]
    split <;> rfl

/-- Every other operation answers alike in both worlds. -/
theorem perform_sameBut (h : SameBut c w v) (call : Call) (hcall : ∀ ch, call ≠ .messagesOf ch) :
    (perform env call w).1 = (perform env call v).1 ∧
      SameBut c (perform env call w).2 (perform env call v).2 := by
  obtain ⟨hrest, houtside⟩ := h
  have hkept : ∀ (db : Database) (readings draws : ℕ), db.messages = w.db.messages →
      SameBut c ⟨db, readings, draws⟩ ⟨{ db with messages := v.db.messages }, readings, draws⟩ :=
    fun db _ _ hdb => ⟨rfl, by simpa only [Database.messagesOutside, hdb] using houtside⟩
  cases call with
  | messagesOf channel => exact absurd rfl (hcall channel)
  | insertMessage sender channel content sentWhen =>
    exact ⟨rfl, SameBut.insertMessage ⟨hrest, houtside⟩ sender channel content sentWhen⟩
  | insertUser name pass =>
    rw [hrest]
    simp only [perform, World.store_db, insertUser_messages]
    cases hins : w.db.insertUser name pass with
    | error e => exact ⟨rfl, hkept _ _ _ rfl⟩
    | ok db =>
      obtain ⟨-, rfl⟩ := Database.insertUser_eq_ok hins
      exact ⟨rfl, hkept _ _ _ rfl⟩
  | insertChannel name ownerId desc =>
    rw [hrest]
    simp only [perform, World.store_db, insertChannel_messages]
    cases hins : w.db.insertChannel name ownerId desc with
    | error e => exact ⟨rfl, hkept _ _ _ rfl⟩
    | ok out =>
      obtain ⟨-, -, hdb⟩ := Database.insertChannel_eq_ok hins
      exact ⟨rfl, hkept _ _ _ (by rw [hdb])⟩
  | updateUser row =>
    rw [hrest]
    simp only [perform, World.store_db, updateUser_messages]
    cases hupd : w.db.updateUser row with
    | error e => exact ⟨rfl, hkept _ _ _ rfl⟩
    | ok db =>
      rw [Database.updateUser_eq_ok hupd]
      exact ⟨rfl, hkept _ _ _ rfl⟩
  | _ =>
    rw [hrest]
    exact ⟨rfl, hkept _ _ _ rfl⟩

end Operations

section Agreement

variable {env : Env} {c : Int32} {w v : World}

theorem agrees_invoke (h : SameBut c w v) (call : Call) (hcall : ∀ ch, call ≠ .messagesOf ch) :
    Agrees (perform env) (SameBut c) (Dotchat.invoke call) w v :=
  .invoke (perform_sameBut h call hcall).1 (perform_sameBut h call hcall).2

theorem agrees_protoThrow {α : Type} (h : SameBut c w v) (what : Bytes) :
    Agrees (perform env) (SameBut c) (protoThrow what : Handler α) w v :=
  .done _ h

theorem agrees_ofExcept {α : Type} (h : SameBut c w v) (x : Except Exc α) :
    Agrees (perform env) (SameBut c) (ofExcept x : Handler α) w v := by
  cases x with
  | ok a => exact .done _ h
  | error e => exact .done _ h

theorem agrees_catchProto {α : Type} {p : Handler α} {handler : Bytes → Handler α}
    (hp : Agrees (perform env) (SameBut c) p w v)
    (hh : ∀ what w' v', SameBut c w' v' →
      Agrees (perform env) (SameBut c) (handler what) w' v') :
    Agrees (perform env) (SameBut c) (catchProto p handler) w v := by
  refine .tryCatch hp ?_
  intro e w' v' h
  cases e with
  | protoError what => exact hh _ w' v' h
  | _ => exact .done _ h

theorem agrees_checkSessionKey (h : SameBut c w v) (key : Int32) :
    Agrees (perform env) (SameBut c) (checkSessionKey key) w v := by
  refine .bind (agrees_invoke h _ (by simp)) ?_
  intro tmp w' v' _ h'
  cases tmp with
  | none => exact agrees_protoThrow h' _
  | some tmp =>
    refine .bind (agrees_invoke h' _ (by simp)) ?_
    intro now w'' v'' _ h''
    split
    · refine .bind (agrees_invoke h'' _ (by simp)) ?_
      intro user w₃ v₃ _ h₃
      cases user <;> exact .done _ h₃
    · exact agrees_protoThrow h'' _

/-- A handler that starts with the test of the token. -/
theorem agrees_of_check {α : Type} {f : User → Handler α} {token : Int32} (h : SameBut c w v)
    (hf : ∀ u v', Accepted env w token u → SameBut c w.tick v' →
      Agrees (perform env) (SameBut c) (f u) w.tick v') :
    Agrees (perform env) (SameBut c) (checkSessionKey token >>= f) w v := by
  refine .bind (agrees_checkSessionKey h token) ?_
  intro u w' v' hrun h'
  have haccepted : Accepted env w token u := accepted_iff.mpr (by rw [hrun])
  rw [haccepted.run] at hrun
  cases hrun
  exact hf u v' haccepted h'

theorem agrees_userCanAccess (h : SameBut c w v) (uid chanId : Int32) :
    Agrees (perform env) (SameBut c) (userCanAccess uid chanId) w v :=
  (agrees_invoke h _ (by simp)).bind_pure _

theorem agrees_keyIsFree (h : SameBut c w v) (key : Int32) :
    Agrees (perform env) (SameBut c) (keyIsFree key) w v := by
  apply agrees_catchProto
  · refine .bind (agrees_checkSessionKey h key) ?_
    intro u w' v' _ h'
    exact (agrees_invoke h' _ (by simp)).bind_pure _
  · intro what w' v' h'
    exact .done _ h'

theorem agrees_awaitFreeKey (h : SameBut c w v) (key : Int32) (turns : ℕ) :
    Agrees (perform env) (SameBut c) (awaitFreeKey key turns) w v := by
  induction turns generalizing w v with
  | zero => exact .done _ h
  | succ turns ih =>
    refine .bind (agrees_keyIsFree h key) ?_
    intro okay w' v' _ h'
    cases okay with
    | true => exact .done _ h'
    | false => exact ih h'

theorem agrees_login (h : SameBut c w v) (turns : ℕ) (r : LoginRequest) :
    Agrees (perform env) (SameBut c) (login turns r) w v := by
  refine .bind (agrees_invoke h _ (by simp)) ?_
  intro named w₁ v₁ _ h₁
  cases named with
  | nil => exact agrees_protoThrow h₁ _
  | cons user others =>
    simp only []
    split
    · exact agrees_protoThrow h₁ _
    · refine .bind (agrees_invoke h₁ _ (by simp)) ?_
      intro key w₂ v₂ _ h₂
      refine .bind (agrees_awaitFreeKey h₂ _ turns) ?_
      intro _ w₃ v₃ _ h₃
      refine .bind (agrees_invoke h₃ _ (by simp)) ?_
      intro start w₄ v₄ _ h₄
      exact (agrees_invoke h₄ _ (by simp)).bind_pure _

theorem agrees_logout (h : SameBut c w v) (r : LogoutRequest) :
    Agrees (perform env) (SameBut c) (logout r) w v :=
  agrees_of_check h fun _ _ _ h' => (agrees_invoke h' _ (by simp)).bind_pure _

theorem agrees_channelList (h : SameBut c w v) (r : ChannelListRequest) :
    Agrees (perform env) (SameBut c) (channelList r) w v :=
  agrees_of_check h fun _ _ _ h' => (agrees_invoke h' _ (by simp)).bind_pure _

/-- A member's view of another channel is the same in both worlds; of `c` itself
the token's user is no member. -/
theorem agrees_channelMsg (h : SameBut c w v) {r : ChannelMsgRequest}
    (hno : ∀ u, Accepted env w r.token u →
      { user := u.id, channel := c } ∉ w.db.channelMembers) :
    Agrees (perform env) (SameBut c) (channelMsg r) w v := by
  apply agrees_of_check h
  intro u v' hu h'
  refine .bind (agrees_userCanAccess h' u.id r.chanId) ?_
  intro allowed w'' v'' hrun h''
  have hallowed : (userCanAccess u.id r.chanId).run (perform env) w.tick = _ :=
    run_userCanAccess u.id r.chanId
  rw [hrun, Prod.mk.injEq, Outcome.returned.injEq] at hallowed
  obtain ⟨rfl, rfl⟩ := hallowed
  split
  · rename_i hmem
    have hne : r.chanId ≠ c := by
      rintro rfl
      exact hno u hu (w.db.getChannelMember_isSome.mp hmem)
    have hmsgs : (v''.db.messagesOf r.chanId).map (·.unnumbered) =
        (w.tick.db.messagesOf r.chanId).map (·.unnumbered) := by
      rw [messagesOf_unnumbered hne, messagesOf_unnumbered hne, h''.outside]
    refine ⟨?_, h''⟩
    have hlisted := congrArg (List.map fun msg : StoredMessage =>
      ({ sender := msg.sender, sentWhen := msg.sentWhen, cnt := msg.content } :
        ListedMessage)) hmsgs
    rw [List.map_map, List.map_map] at hlisted
    exact congrArg (fun msgs => Outcome.returned (E := Exc) (ChannelMsgResponse.mk msgs))
      hlisted.symm
  · exact agrees_protoThrow h'' _

theorem agrees_sendMsg (h : SameBut c w v) (r : MessageSendRequest) :
    Agrees (perform env) (SameBut c) (sendMsg r) w v := by
  apply agrees_of_check h
  intro u v' _ h'
  refine .bind (agrees_userCanAccess h' u.id r.chanId) ?_
  intro allowed w'' v'' _ h''
  split
  · refine .bind (agrees_invoke h'' _ (by simp)) ?_
    intro now w₃ v₃ _ h₃
    exact (agrees_invoke h₃ _ (by simp)).bind_pure _
  · exact agrees_protoThrow h'' _

theorem agrees_channelDetails (h : SameBut c w v) (r : ChannelDetailsRequest) :
    Agrees (perform env) (SameBut c) (channelDetails r) w v := by
  apply agrees_of_check h
  intro u v' _ h'
  refine .bind (agrees_invoke h' _ (by simp)) ?_
  intro members w'' v'' _ h''
  split
  · refine .bind (agrees_invoke h'' _ (by simp)) ?_
    intro channel w₃ v₃ _ h₃
    cases channel with
    | none => exact agrees_protoThrow h₃ _
    | some channel => exact .done _ h₃
  · exact agrees_protoThrow h'' _

theorem agrees_newChannel (h : SameBut c w v) (r : NewChannelRequest) :
    Agrees (perform env) (SameBut c) (newChannel r) w v := by
  apply agrees_of_check h
  intro u v' _ h'
  refine .bind (agrees_invoke h' _ (by simp)) ?_
  intro id w'' v'' _ h''
  exact (agrees_invoke h'' _ (by simp)).bind_pure _

theorem agrees_newUser (h : SameBut c w v) (r : NewUserRequest) :
    Agrees (perform env) (SameBut c) (newUser r) w v :=
  (agrees_invoke h _ (by simp)).bind_pure _

theorem agrees_changePass (h : SameBut c w v) (r : ChangePassRequest) :
    Agrees (perform env) (SameBut c) (changePass r) w v :=
  agrees_of_check h fun _ _ _ h' => (agrees_invoke h' _ (by simp)).bind_pure _

theorem agrees_userDetails (h : SameBut c w v) (r : UserDetailsRequest) :
    Agrees (perform env) (SameBut c) (userDetails r) w v := by
  apply agrees_of_check h
  intro u v' _ h'
  refine .bind (agrees_invoke h' _ (by simp)) ?_
  intro user w'' v'' _ h''
  cases user with
  | none => exact agrees_protoThrow h'' _
  | some user => exact (agrees_invoke h'' _ (by simp)).bind_pure _

theorem agrees_inviteUser (h : SameBut c w v) (r : InviteUserRequest) :
    Agrees (perform env) (SameBut c) (inviteUser r) w v := by
  apply agrees_of_check h
  intro u v' _ h'
  refine .bind (agrees_invoke h' _ (by simp)) ?_
  intro channel w'' v'' _ h''
  cases channel with
  | none => exact agrees_protoThrow h'' _
  | some channel =>
    simp only []
    split
    · exact agrees_protoThrow h'' _
    · refine .bind (agrees_invoke h'' _ (by simp)) ?_
      intro other w₃ v₃ _ h₃
      cases other with
      | none => exact agrees_protoThrow h₃ _
      | some other =>
        refine .bind (agrees_invoke h₃ _ (by simp)) ?_
        intro joined w₄ v₄ _ h₄
        split
        · exact agrees_protoThrow h₄ _
        · exact (agrees_invoke h₄ _ (by simp)).bind_pure _

theorem agrees_replyTo {Req Res : Type} {ofMessage : Message → Except Exc Req}
    {toMessage : Res → Except Exc Message} {m : Message} {f : Req → Handler Res}
    (h : SameBut c w v)
    (hf : ∀ req, ofMessage m = .ok req → Agrees (perform env) (SameBut c) (f req) w v) :
    Agrees (perform env) (SameBut c) (catchProto (replyTo ofMessage toMessage m f)
      fun what => return excToMessage what) w v := by
  refine agrees_catchProto (agrees_catchProto ?_ fun _ _ _ h' => .done _ h')
    fun _ _ _ h' => .done _ h'
  cases hof : ofMessage m with
  | error e => exact .done _ h
  | ok req =>
    change Agrees (perform env) (SameBut c) (f req >>= fun res => ofExcept (toMessage res)) w v
    exact .bind (hf req hof) fun res _ _ _ h' => agrees_ofExcept h' _

/-- One message without a token of a member of `c` is answered alike. -/
theorem agrees_dispatch (h : SameBut c w v) (turns : ℕ) {m : Message}
    (hno : NoMember env c w m) : Agrees (perform env) (SameBut c) (dispatch turns m) w v := by
  unfold dispatch
  cases hfind : (switcher turns).find? fun e => ascii e.1 = m.cmd with
  | none => exact .done _ h
  | some e =>
    have hmem := List.mem_of_find?_eq_some hfind
    simp only [switcher, List.mem_cons, List.not_mem_nil, or_false] at hmem
    rcases hmem with rfl | rfl | rfl | rfl | rfl | rfl | rfl | rfl | rfl | rfl | rfl
    · exact agrees_replyTo h fun r _ => agrees_login h turns r
    · exact agrees_replyTo h fun r _ => agrees_logout h r
    · exact agrees_replyTo h fun r _ => agrees_channelList h r
    · exact agrees_replyTo h fun r hparse =>
        agrees_channelMsg h fun u hu => hno (.channelMsg r) r.token u hparse rfl hu
    · exact agrees_replyTo h fun r _ => agrees_sendMsg h r
    · exact agrees_replyTo h fun r _ => agrees_channelDetails h r
    · exact agrees_replyTo h fun r _ => agrees_newChannel h r
    · exact agrees_replyTo h fun r _ => agrees_newUser h r
    · exact agrees_replyTo h fun r _ => agrees_changePass h r
    · exact agrees_replyTo h fun r _ => agrees_userDetails h r
    · exact agrees_replyTo h fun r _ => agrees_inviteUser h r

end Agreement

/-- Two runs of one sequence of messages, from worlds that differ only in the
messages of `c`, give the same replies and end in such worlds, when no message
carries a token that belongs at that moment to a member of `c`. -/
theorem serveAll_confidential {env : Env} {c : Int32} {requests : List (ℕ × Message)}
    {w v : World} (h : SameBut c w v) (hno : NoMembers env c requests w) :
    (serveAll env requests w).1 = (serveAll env requests v).1 ∧
      SameBut c (serveAll env requests w).2 (serveAll env requests v).2 := by
  induction requests generalizing w v with
  | nil => exact ⟨rfl, h⟩
  | cons request rest ih =>
    obtain ⟨turns, m⟩ := request
    obtain ⟨hfirst, hrest⟩ := hno
    obtain ⟨hreply, hworld⟩ := agrees_dispatch h turns hfirst
    obtain ⟨hreplies, hend⟩ := ih hworld hrest
    exact ⟨congrArg₂ List.cons hreply hreplies, hend⟩

/-- No session is one of a member of `c`. -/
theorem noMember_of_sessions {env : Env} {c : Int32} {w : World}
    (h : ∀ s ∈ w.db.sessionKeys, { user := s.user, channel := c } ∉ w.db.channelMembers)
    (m : Message) : NoMember env c w m := by
  intro req token u _ _ haccepted
  obtain ⟨s, hs, -, hu⟩ := haccepted
  rw [(Table.mem_of_lookup hu).2]
  exact h s (Table.mem_of_lookup hs).1

/-- A new user logs in and asks for the messages of a channel that is not his. -/
def outsider : List (ℕ × Message) :=
  [(1, NewUserRequest.toMessage { name := ascii "bob", pass := ascii "pw" }),
    (1, LoginRequest.toMessage { user := ascii "bob", pass := ascii "pw" }),
    (1, ChannelMsgRequest.toMessage { token := 7, chanId := 1 })]

def oneMessage : World := World.store {} { Database.initial with
  messages := [{ id := 1, sender := 1, channel := 1, content := ascii "hi", sentWhen := 0 }] }

theorem serveAll_confidential_outsider :
    (serveAll twoDaysLater outsider {}).1 = (serveAll twoDaysLater outsider oneMessage).1 ∧
      SameBut 1 (serveAll twoDaysLater outsider {}).2
        (serveAll twoDaysLater outsider oneMessage).2 :=
  serveAll_confidential ⟨rfl, rfl⟩
    ⟨noMember_of_sessions (by decide) _, noMember_of_sessions (by decide +kernel) _,
      noMember_of_sessions (by decide +kernel) _, trivial⟩

end Dotchat
