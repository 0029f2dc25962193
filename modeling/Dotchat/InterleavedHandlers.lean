import Dotchat.Interleaving
import Dotchat.Sessions

/-!
What a handler has done when it ends, if others were at work all the time. The
trace of a thread tells which channels and messages it has inserted. `Ends` is
what holds at the end of every request: `value()` has not thrown, the owner of
each channel it has created is a member, and its messages are those that its
reply acknowledges.
-/
namespace Dotchat

open Db Handlers Program Threads

/-- The row that a call has added to the channels. -/
def bookChannel : Event Call Call.Answer Exc → List Channel
  | ⟨.insertChannel name ownerId desc, .ok id⟩ => [{ id, name, ownerId, desc }]
  | _ => []

/-- A message, as far as it does not depend on the moment of its insertion. -/
structure Sent where
  channel : Int32
  sender : Option Int32
  content : Bytes
  deriving DecidableEq

/-- The message that a call has added. -/
def bookMessage : Event Call Call.Answer Exc → List Sent
  | ⟨.insertMessage sender channel content _, .ok _⟩ =>
      [{ channel, sender := some sender, content }]
  | _ => []

def channelsIn (tr : Trace) : List Channel := tr.flatMap bookChannel

def messagesIn (tr : Trace) : List Sent := tr.flatMap bookMessage

/-- The user of the session that the database has found under the token. -/
def ownerOf (token : Int32) (tr : Trace) : Option Int32 :=
  tr.findSome? fun
    | ⟨.getSessionKey key, .ok (some s)⟩ => if key = token then some s.user else none
    | _ => none

/-- Nothing has been inserted so far. -/
structure Quiet (tr : Trace) : Prop where
  channels : channelsIn tr = []
  messages : messagesIn tr = []

/-- The end of a request; `sent` are the messages that the outcome acknowledges. -/
structure Ends {α : Type} (sent : Outcome Exc α → Trace → List Sent) (o : Outcome Exc α)
    (tr : Trace) (w : World) : Prop where
  noBadAccess : o ≠ .threw .badOptionalAccess
  owners : ∀ c ∈ channelsIn tr, { user := c.ownerId, channel := c.id } ∈ w.db.channelMembers
  messages : messagesIn tr = sent o tr

/-- The calls that leave the database alone. -/
def Call.reads : Call → Bool
  | .insertUser _ _ | .insertChannel _ _ _ | .insertMessage _ _ _ _ | .replaceSessionKey _
  | .replaceChannelMember _ | .updateUser _ | .removeSessionKeysOf _ => false
  | _ => true

section Rules

variable {env : Env} {α β : Type} {Q : Outcome Exc β → Trace → World → Prop} {tr : Trace}
  {w : World}

theorem reads_spec (env : Env) {c : Call} (h : c.reads = true) (v : World) :
    ∃ a, (perform env c v).1 = .ok a ∧ (perform env c v).2.db = v.db := by
  cases c with
  | insertUser | insertChannel | insertMessage | replaceSessionKey | replaceChannelMember
  | updateUser | removeSessionKeysOf => cases h
  | _ => exact ⟨_, rfl, rfl⟩

theorem Quiet.append {e : Event Call Call.Answer Exc} (hq : Quiet tr) (hc : bookChannel e = [])
    (hm : bookMessage e = []) : Quiet (tr ++ [e]) := by
  constructor
  · rw [channelsIn, List.flatMap_append, ← channelsIn, hq.channels]
    simp [hc]
  · rw [messagesIn, List.flatMap_append, ← messagesIn, hq.messages]
    simp [hm]

theorem Quiet.read {c : Call} (hq : Quiet tr) (h : c.reads = true) (a : c.Answer) :
    Quiet (tr ++ [⟨c, .ok a⟩]) := by
  cases c with
  | insertUser | insertChannel | insertMessage | replaceSessionKey | replaceChannelMember
  | updateUser | removeSessionKeysOf => cases h
  | _ => exact hq.append rfl rfl

/-- A call that reads, and what follows with its answer. -/
theorem meets_read {c : Call} {f : c.Answer → Handler β} (hc : c.reads = true) (hq : Quiet tr)
    (h : ∀ v a, w.db.Grows v.db → Relational v.db → (perform env c v).1 = .ok a →
      Quiet (tr ++ [⟨c, .ok a⟩]) →
      Meets (perform env) tables Q (f a) (tr ++ [⟨c, .ok a⟩]) v) :
    Meets (perform env) tables Q (invoke c >>= f) tr w := by
  apply Meets.bind
  apply Meets.invoke
  intro v hv hinv
  obtain ⟨a, hans, hdb⟩ := reads_spec env hc v
  have hkept : v.db.Grows (perform env c v).2.db := by
    rw [hdb]
    exact .refl _
  refine ⟨?_, hkept, ?_⟩
  · show Relational (perform env c v).2.db
    rw [hdb]
    exact hinv
  · intro u hu _
    rw [hans]
    exact (h v a hv hinv hans (hq.read hc a)).stable (hkept.trans hu)

/-- The last call of a handler. -/
theorem meets_write {c : Call} {g : c.Answer → β}
    (h : ∀ v, w.db.Grows v.db → Relational v.db → c.Proper v.db ∧
      ∀ u, (perform env c v).2.db.Grows u.db →
        Q ((outcomeOf (perform env c v).1).map g) (tr ++ [⟨c, (perform env c v).1⟩]) u) :
    Meets (perform env) tables Q (invoke c >>= fun a => pure (g a)) tr w := by
  apply Meets.bind
  apply Meets.invoke
  intro v hv hinv
  obtain ⟨hproper, hend⟩ := h v hv hinv
  obtain ⟨hrel, hgrows⟩ := perform_keeps env hinv hproper
  refine ⟨hrel, hgrows, ?_⟩
  intro u hu _
  cases hans : (perform env c v).1 with
  | ok a =>
    rw [hans] at hend
    intro x hx _
    exact hend x (hu.trans hx)
  | error e =>
    rw [hans] at hend
    exact hend u hu

/-- The user that `check_session_key` returns is in the table, under this name,
and is the one whose session the new part of the trace shows. -/
theorem meets_check {key : Int32} {f : User → Handler β} (hq : Quiet tr)
    (hthrew : ∀ what tr v, Quiet tr → Q (.threw (.protoError what)) tr v)
    (h : ∀ u events v, w.db.Grows v.db → Quiet (tr ++ events) → ownerOf key events = some u.id →
      (∃ x ∈ v.db.users, x.id = u.id ∧ x.name = u.name) →
      Meets (perform env) tables Q (f u) (tr ++ events) v) :
    Meets (perform env) tables Q (checkSessionKey key >>= f) tr w := by
  apply Meets.bind
  apply meets_read rfl hq
  intro v s hv hrel hs hq
  have hs : v.db.getSessionKey key = s := Except.ok.inj hs
  cases s with
  | none =>
    intro x _ _
    exact hthrew _ _ _ hq
  | some s =>
    have hsession := Table.mem_of_lookup hs
    have huser : v.db.HasUser s.user := hrel.sessionUser s hsession.1
    apply meets_read rfl hq
    intro v' now hv' _ _ hq'
    by_cases hlive : SessionLive s.validUntil now
    · simp only [hlive, if_true]
      apply meets_read rfl hq'
      intro v'' u hv'' hrel'' hu hq''
      have hu : v''.db.getUser s.user = u := Except.ok.inj hu
      cases u with
      | none =>
        obtain ⟨x, hx, hid⟩ := (hv'.trans hv'').hasUser huser
        exact absurd hid (Table.lookup_eq_none.mp hu x hx)
      | some u =>
        obtain ⟨hmem, hid⟩ := Table.mem_of_lookup hu
        intro x hx _
        have howner : ownerOf key [⟨.getSessionKey key, .ok (some s)⟩, ⟨.now, .ok now⟩,
            ⟨.getUser s.user, .ok (some u)⟩] = some u.id := by
          simp [ownerOf, hid]
        have hend := h u _ x ((hv.trans (hv'.trans hv'')).trans hx)
          (by simpa using hq'') howner (hx.users u hmem)
        simpa [Continues] using hend
    · simp only [hlive, if_false]
      intro x _ _
      exact hthrew _ _ _ hq'

end Rules

section Handlers

variable {env : Env} {w : World}

/-- The request has ended without inserting anything. -/
theorem Quiet.ends {α : Type} {sent : Outcome Exc α → Trace → List Sent} {o : Outcome Exc α}
    {tr : Trace} (h : Quiet tr) (ho : o ≠ .threw .badOptionalAccess) (hsent : sent o tr = [])
    (v : World) : Ends sent o tr v where
  noBadAccess := ho
  owners c hc := by
    rw [h.channels] at hc
    cases hc
  messages := by rw [h.messages, hsent]

/-- Nothing is acknowledged. -/
def noneSent {α : Type} : Outcome Exc α → Trace → List Sent := fun _ _ => []

theorem Quiet.threw {α : Type} {sent : Outcome Exc α → Trace → List Sent} {tr : Trace}
    (h : Quiet tr) {what : Bytes} (hsent : sent (.threw (.protoError what)) tr = []) (v : World) :
    Ends sent (.threw (.protoError what)) tr v :=
  h.ends (by simp) hsent v

theorem meets_threw {α : Type} {sent : Outcome Exc α → Trace → List Sent} {tr : Trace}
    (hq : Quiet tr) {what : Bytes} (hsent : sent (.threw (.protoError what)) tr = []) :
    Meets (perform env) tables (Ends sent) (protoThrow what) tr w :=
  fun v _ _ => hq.threw hsent v

theorem meets_returned {α : Type} {tr : Trace} (hq : Quiet tr) (a : α) :
    Meets (perform env) tables (Ends noneSent) (pure a) tr w :=
  fun v _ _ => hq.ends (by simp) rfl v

theorem perform_error {c : Call} {v : World} {e : Exc} (h : (perform env c v).1 = .error e) :
    e = .systemError := by
  rcases perform_cases env v c with ⟨a, ha⟩ | herror
  · rw [ha] at h
    cases h
  · rw [herror] at h
    cases h
    rfl

theorem map_ne_badAccess {c : Call} {α : Type} (g : c.Answer → α) (v : World) :
    (outcomeOf (perform env c v).1).map g ≠ .threw .badOptionalAccess := by
  cases hans : (perform env c v).1 with
  | ok a => simp [outcomeOf, Outcome.map]
  | error e =>
    rw [perform_error hans]
    simp [outcomeOf, Outcome.map]

/-- A last call that inserts neither a channel nor a message. -/
theorem meets_write_quiet {c : Call} {α : Type} {g : c.Answer → α} {tr : Trace} (hq : Quiet tr)
    (hbook : ∀ ans, bookChannel ⟨c, ans⟩ = [] ∧ bookMessage ⟨c, ans⟩ = [])
    (hproper : ∀ v : World, w.db.Grows v.db → Relational v.db → c.Proper v.db) :
    Meets (perform env) tables (Ends noneSent) (invoke c >>= fun a => pure (g a)) tr w := by
  apply meets_write
  intro v hv hrel
  refine ⟨hproper v hv hrel, ?_⟩
  intro u _
  have hquiet := hq.append (hbook (perform env c v).1).1 (hbook (perform env c v).1).2
  exact hquiet.ends (map_ne_badAccess g v) rfl u

theorem meets_logout (r : LogoutRequest) :
    Meets (perform env) tables (Ends noneSent) (Handlers.logout r) [] w := by
  apply meets_check ⟨rfl, rfl⟩
  · intro what tr v hq
    exact hq.threw rfl v
  · intro u tr v _ hq _ _
    exact meets_write_quiet hq (fun _ => ⟨rfl, rfl⟩) fun _ _ _ => trivial

theorem meets_changePass (r : ChangePassRequest) :
    Meets (perform env) tables (Ends noneSent) (Handlers.changePass r) [] w := by
  apply meets_check ⟨rfl, rfl⟩
  · intro what tr v hq
    exact hq.threw rfl v
  · intro u tr v _ hq _ huser
    apply meets_write_quiet hq
    · rintro (e | _)
      · exact ⟨rfl, rfl⟩
      · exact ⟨rfl, rfl⟩
    · intro x hx _
      obtain ⟨y, hy, hid, hname⟩ := huser
      obtain ⟨z, hz, hid', hname'⟩ := hx.users y hy
      exact ⟨z, hz, hid'.trans hid, hname'.trans hname⟩

theorem meets_newUser (r : NewUserRequest) :
    Meets (perform env) tables (Ends noneSent) (Handlers.newUser r) [] w :=
  meets_write_quiet ⟨rfl, rfl⟩ (fun _ => ⟨rfl, rfl⟩) fun _ _ _ => trivial

theorem meets_channelList (r : ChannelListRequest) :
    Meets (perform env) tables (Ends noneSent) (Handlers.channelList r) [] w := by
  apply meets_check ⟨rfl, rfl⟩
  · intro what tr v hq
    exact hq.threw rfl v
  · intro u tr v _ hq _ _
    apply meets_read rfl hq
    intro x a _ _ _ hq'
    exact meets_returned hq' _

/-- A user who can access a channel is a member of it. -/
theorem meets_access {β : Type} {Q : Outcome Exc β → Trace → World → Prop} {uid chanId : Int32}
    {f : Bool → Handler β} {tr : Trace} (hq : Quiet tr)
    (h : ∀ b e v, w.db.Grows v.db → Quiet (tr ++ [e]) →
      (b = true → { user := uid, channel := chanId } ∈ v.db.channelMembers) →
      Meets (perform env) tables Q (f b) (tr ++ [e]) v) :
    Meets (perform env) tables Q (userCanAccess uid chanId >>= f) tr w := by
  apply Meets.bind
  apply meets_read rfl hq
  intro v member hv _ hmember hq'
  have hmember : v.db.getChannelMember uid chanId = member := Except.ok.inj hmember
  intro x hx _
  apply h _ _ x (hv.trans hx) hq'
  intro hsome
  rw [← hmember] at hsome
  exact hx.members _ ((v.db.getChannelMember_isSome).mp hsome)

theorem meets_channelMsg (r : ChannelMsgRequest) :
    Meets (perform env) tables (Ends noneSent) (Handlers.channelMsg r) [] w := by
  apply meets_check ⟨rfl, rfl⟩
  · intro what tr v hq
    exact hq.threw rfl v
  · intro u tr v _ hq _ _
    apply meets_access hq
    intro b e x _ hq' _
    cases b with
    | false => exact meets_threw hq' rfl
    | true =>
      apply meets_read rfl hq'
      intro y a _ _ _ hq''
      exact meets_returned hq'' _

theorem meets_channelDetails (r : ChannelDetailsRequest) :
    Meets (perform env) tables (Ends noneSent) (Handlers.channelDetails r) [] w := by
  apply meets_check ⟨rfl, rfl⟩
  · intro what tr v hq
    exact hq.threw rfl v
  · intro u tr v _ hq _ _
    apply meets_read rfl hq
    intro x members _ _ _ hq'
    by_cases hmem : u.id ∈ members
    · simp only [hmem, if_true]
      apply meets_read rfl hq'
      intro y c _ _ _ hq''
      cases c with
      | none => exact meets_threw hq'' rfl
      | some c => exact meets_returned hq'' _
    · simp only [hmem, if_false]
      exact meets_threw hq' rfl

theorem meets_userDetails (r : UserDetailsRequest) :
    Meets (perform env) tables (Ends noneSent) (Handlers.userDetails r) [] w := by
  apply meets_check ⟨rfl, rfl⟩
  · intro what tr v hq
    exact hq.threw rfl v
  · intro u tr v _ hq _ _
    apply meets_read rfl hq
    intro x other _ _ _ hq'
    cases other with
    | none => exact meets_threw hq' rfl
    | some other =>
      apply meets_read rfl hq'
      intro y a _ _ _ hq''
      exact meets_returned hq'' _

/-- The membership is proper, since the user and the channel were found. -/
theorem meets_inviteUser (r : InviteUserRequest) :
    Meets (perform env) tables (Ends noneSent) (Handlers.inviteUser r) [] w := by
  apply meets_check ⟨rfl, rfl⟩
  · intro what tr v hq
    exact hq.threw rfl v
  intro u tr v _ hq _ _
  apply meets_read rfl hq
  intro x c _ _ hc hq'
  have hc : x.db.getChannel r.chanId = c := Except.ok.inj hc
  cases c with
  | none => exact meets_threw hq' rfl
  | some c =>
    have hchannel : x.db.HasChannel c.id := ⟨c, (Table.mem_of_lookup hc).1, rfl⟩
    by_cases howner : c.ownerId = u.id
    · simp only [howner, ne_eq, not_true_eq_false, if_false]
      apply meets_read rfl hq'
      intro y other hy _ hother hq''
      have hother : y.db.getUser r.uid = other := Except.ok.inj hother
      cases other with
      | none => exact meets_threw hq'' rfl
      | some other =>
        have huser : y.db.HasUser other.id := ⟨other, (Table.mem_of_lookup hother).1, rfl⟩
        apply meets_read rfl hq''
        intro z joined hz _ _ hq'''
        by_cases hnew : joined = []
        · subst hnew
          simp only [ne_eq, not_true_eq_false, if_false]
          apply meets_write_quiet hq'''
          · exact fun _ => ⟨rfl, rfl⟩
          · intro t ht _
            have hgrows := hz.trans ht
            exact ⟨hgrows.hasUser huser, (hy.trans hgrows).hasChannel hchannel⟩
        · simp only [hnew, ne_eq, not_false_eq_true, if_true]
          exact meets_threw hq''' rfl
    · simp only [howner, ne_eq, not_false_eq_true, if_true]
      exact meets_threw hq' rfl

/-- The message that a send_msg acknowledges when it returns. -/
def sentOf {α : Type} (r : MessageSendRequest) : Outcome Exc α → Trace → List Sent
  | .returned _, tr =>
      [{ channel := r.chanId, sender := ownerOf r.token tr, content := r.msgCnt }]
  | _, _ => []

theorem sentOf_returned {α : Type} {r : MessageSendRequest} {a : α} {u : Int32} {tr : Trace}
    (h : ownerOf r.token tr = some u) : sentOf r (.returned a : Outcome Exc α) tr =
      [{ channel := r.chanId, sender := some u, content := r.msgCnt }] := by
  rw [sentOf, h]

theorem ownerOf_append {key u : Int32} {tr : Trace} (h : ownerOf key tr = some u) (tr' : Trace) :
    ownerOf key (tr ++ tr') = some u := by
  rw [ownerOf, List.findSome?_append, ← ownerOf, h]
  rfl

theorem meets_sendMsg (r : MessageSendRequest) :
    Meets (perform env) tables (Ends (sentOf r)) (Handlers.sendMsg r) [] w := by
  apply meets_check ⟨rfl, rfl⟩
  · intro what tr v hq
    exact hq.threw rfl v
  intro u tr v _ hq howner _
  apply meets_access hq
  intro b e x _ hq' hmember
  cases b with
  | false => exact meets_threw hq' rfl
  | true =>
    have hmember := hmember rfl
    apply meets_read rfl hq'
    intro y now hy _ _ hq''
    apply meets_write
    intro z hz _
    refine ⟨hz.members _ (hy.members _ hmember), ?_⟩
    intro t _
    refine ⟨map_ne_badAccess _ z, ?_, ?_⟩
    · intro c hc
      rw [channelsIn, List.flatMap_append, ← channelsIn, hq''.channels] at hc
      simp [bookChannel] at hc
    · rw [messagesIn, List.flatMap_append, ← messagesIn, hq''.messages]
      have hshown := ownerOf_append (ownerOf_append (ownerOf_append howner [e]) [⟨.now, .ok now⟩])
        [⟨.insertMessage u.id r.chanId r.msgCnt now, .ok ()⟩]
      exact (sentOf_returned hshown).symm

/-- The channel is without a member between the two writes, and has its owner
when the handler ends. -/
theorem meets_newChannel (r : NewChannelRequest) :
    Meets (perform env) tables (Ends noneSent) (Handlers.newChannel r) [] w := by
  apply meets_check ⟨rfl, rfl⟩
  · intro what tr v hq
    exact hq.threw rfl v
  intro u tr v _ hq _ huser
  have huser : v.db.HasUser u.id := by
    obtain ⟨x, hx, hid, -⟩ := huser
    exact ⟨x, hx, hid⟩
  apply Meets.bind
  apply Meets.invoke
  intro x hx hrel
  have hproper : Call.Proper x.db (.insertChannel r.name u.id r.desc) := hx.hasUser huser
  obtain ⟨hrel', hgrows⟩ := perform_keeps env hrel hproper
  refine ⟨hrel', hgrows, ?_⟩
  intro y hy hrely
  cases hins : x.db.insertChannel r.name u.id r.desc with
  | error e =>
    have hperform : perform env (.insertChannel r.name u.id r.desc) x = (.error e, x) := by
      simp only [perform, hins]
    rw [hperform]
    have hquiet : Quiet (tr ++ [⟨.insertChannel r.name u.id r.desc, .error e⟩]) :=
      hq.append rfl rfl
    obtain ⟨-, rfl⟩ := Database.insertChannel_eq_error hins
    exact hquiet.ends (by simp) rfl y
  | ok out =>
    obtain ⟨id, db⟩ := out
    have hperform : perform env (.insertChannel r.name u.id r.desc) x =
        (.ok id, { x with db := db }) := by
      simp only [perform, hins]
    rw [hperform] at hy ⊢
    obtain ⟨-, rfl, rfl⟩ := Database.insertChannel_eq_ok hins
    have hchannel : y.db.HasChannel x.db.nextChannelId :=
      ⟨_, hy.channels _ (List.mem_append_right _ List.mem_cons_self), rfl⟩
    have howner : y.db.HasUser u.id := hy.hasUser (hx.hasUser huser)
    apply meets_write
    intro z hz _
    refine ⟨⟨hz.hasUser howner, hz.hasChannel hchannel⟩, ?_⟩
    intro t ht
    refine ⟨map_ne_badAccess _ z, ?_, ?_⟩
    · intro c hc
      rw [channelsIn, List.flatMap_append, List.flatMap_append, ← channelsIn, hq.channels] at hc
      simp only [bookChannel, List.flatMap_cons, List.flatMap_nil, List.append_nil,
        List.nil_append, List.mem_singleton] at hc
      subst hc
      exact ht.members _ (Table.mem_replace.mpr (.inl rfl))
    · rw [messagesIn, List.flatMap_append, List.flatMap_append, ← messagesIn, hq.messages]
      rfl

/-- The search for a key inserts nothing and throws nothing. -/
theorem meets_awaitFreeKey (key : Int32) (turns : ℕ) {tr : Trace} (hq : Quiet tr) :
    Meets (perform env) tables (fun o tr _ => Quiet tr ∧ ∀ e, o ≠ .threw e)
      (awaitFreeKey key turns) tr w := by
  have hfree : ∀ {tr : Trace} {w : World}, Quiet tr →
      Meets (perform env) tables (fun o tr _ => Quiet tr ∧ ∃ b, o = .returned b)
        (keyIsFree key) tr w := by
    intro tr w hq
    apply Meets.tryCatch
    apply meets_check hq
    · intro what tr v hq x _ _
      exact ⟨hq, true, rfl⟩
    · intro u events v _ hq _ _
      apply meets_read rfl hq
      intro x a _ _ _ hq' y _ _
      exact ⟨hq', false, rfl⟩
  induction turns generalizing tr w with
  | zero =>
    intro v _ _
    exact ⟨hq, nofun⟩
  | succ turns ih =>
    apply Meets.bind
    apply (hfree hq).weaken
    rintro o tr v _ ⟨hq', b, rfl⟩
    cases b with
    | false => exact ih hq'
    | true =>
      intro x _ _
      exact ⟨hq', nofun⟩

/-- The session is proper, since its user was found by name. -/
theorem meets_login (turns : ℕ) (r : LoginRequest) :
    Meets (perform env) tables (Ends noneSent) (Handlers.login turns r) [] w := by
  apply meets_read rfl ⟨rfl, rfl⟩
  intro v us _ _ hus hq
  have hus : v.db.usersNamed r.user = us := Except.ok.inj hus
  cases us with
  | nil => exact meets_threw hq rfl
  | cons u others =>
    have hmem : u ∈ v.db.usersNamed r.user := by
      rw [hus]
      exact List.mem_cons_self
    have huser : v.db.HasUser u.id := ⟨u, (List.mem_filter.mp hmem).1, rfl⟩
    by_cases hpass : u.pass = r.pass
    · simp only [hpass, ne_eq, not_true_eq_false, if_false]
      apply meets_read rfl hq
      intro x key hx _ _ hq'
      apply Meets.bind
      apply ((meets_awaitFreeKey key turns hq').remember hx).weaken
      rintro (_ | e | _) tr y _ ⟨hy, hq'', hno⟩
      · apply meets_read rfl hq''
        intro z now hz _ _ hq'''
        apply meets_write_quiet hq'''
        · exact fun _ => ⟨rfl, rfl⟩
        · intro t ht _
          exact ((hy.trans hz).trans ht).hasUser huser
      · exact absurd rfl (hno e)
      · exact hq''.ends (by simp) rfl y
    · simp only [hpass, ne_eq, not_false_eq_true, if_true]
      exact meets_threw hq rfl

end Handlers

/-- The messages that a reply acknowledges: one for a send_msg that is answered
ok. -/
def acknowledged (m : Message) : Outcome Exc Message → Trace → List Sent
  | .returned reply, tr =>
      match MessageSendRequest.ofMessage m with
      | .ok r => if reply = OkayResponse.toMessage {} then sentOf r (.returned reply) tr else []
      | .error _ => []
  | _, _ => []

section Dispatch

variable {env : Env} {w : World} {m : Message}

theorem acknowledged_of_error {reply : Message} (h : reply.cmd ≠ ascii ResponseCommands.okay)
    (tr : Trace) : acknowledged m (.returned reply) tr = [] := by
  have hne : reply ≠ OkayResponse.toMessage {} := by
    rintro rfl
    exact h rfl
  simp only [acknowledged, hne, if_false]
  split <;> rfl

theorem acknowledged_of_other (h : m.cmd ≠ ascii Commands.sendMsg) (o : Outcome Exc Message)
    (tr : Trace) : acknowledged m o tr = [] := by
  rcases o with reply | e | _
  · cases hof : MessageSendRequest.ofMessage m with
    | ok r =>
      have hparse : (Request.sendMsg r).Parses m := hof
      exact absurd hparse.cmd h
    | error e => simp only [acknowledged, hof]
  · rfl
  · rfl

/-- The end of a request stays so while others go on. -/
theorem Ends.stable {α β : Type} {sent : Outcome Exc α → Trace → List Sent}
    {sent' : Outcome Exc β → Trace → List Sent} {o : Outcome Exc α} {o' : Outcome Exc β}
    {tr : Trace} {v v' : World} (h : Ends sent o tr v) (hv : v.db.Grows v'.db)
    (ho : o' ≠ .threw .badOptionalAccess) (hsent : sent' o' tr = sent o tr) :
    Ends sent' o' tr v' where
  noBadAccess := ho
  owners c hc := hv.members _ (h.owners c hc)
  messages := h.messages.trans hsent.symm

theorem meets_catchProto {p : Handler Message} {handler : Bytes → Message}
    (hcmd : ∀ what, (handler what).cmd ≠ ascii ResponseCommands.okay)
    (hp : Meets (perform env) tables (Ends (acknowledged m)) p [] w) :
    Meets (perform env) tables (Ends (acknowledged m))
      (catchProto p fun what => return handler what) [] w := by
  apply Meets.tryCatch
  apply hp.weaken
  rintro (reply | e | _) tr v _ hend
  · exact hend
  · cases e with
    | protoError what =>
      intro x hx _
      exact hend.stable hx (by simp) (acknowledged_of_error (hcmd _) tr)
    | badOptionalAccess => exact absurd rfl hend.noBadAccess
    | messageError | badAnyCast | systemError =>
      intro x hx _
      exact hend.stable hx (by simp) rfl
  · exact hend

/-- A reply that is made of the outcome of a handler. -/
theorem meets_replyTo {Req Res : Type} {ofMessage : Message → Except Exc Req}
    {toMessage : Res → Except Exc Message} {f : Req → Handler Res}
    (sent : Req → Outcome Exc Res → Trace → List Sent) (hfail : FailsNaming (ofMessage m))
    (hto : ∀ res, ∃ reply, toMessage res = .ok reply)
    (hother : ∀ req o tr, (∀ res, o ≠ .returned res) → sent req o tr = [])
    (hreturned : ∀ req res reply tr, ofMessage m = .ok req → toMessage res = .ok reply →
      acknowledged m (.returned reply) tr = sent req (.returned res) tr)
    (hf : ∀ req, ofMessage m = .ok req →
      Meets (perform env) tables (Ends (sent req)) (f req) [] w) :
    Meets (perform env) tables (Ends (acknowledged m))
      (catchProto (replyTo ofMessage toMessage m f) fun what => return excToMessage what) [] w := by
  have herr : ascii "err" ≠ ascii ResponseCommands.okay := by decide
  apply meets_catchProto fun _ => herr
  apply meets_catchProto fun _ => herr
  cases hof : ofMessage m with
  | error e =>
    obtain ⟨key, -, rfl | rfl⟩ := hfail e hof
    · exact meets_threw ⟨rfl, rfl⟩ rfl
    · exact meets_threw ⟨rfl, rfl⟩ rfl
  | ok req =>
    show Meets _ _ _ (f req >>= fun res => Program.ofExcept (toMessage res)) _ _
    apply Meets.bind
    apply (hf req hof).weaken
    rintro (res | e | _) tr v _ hend
    · obtain ⟨reply, hreply⟩ := hto res
      simp only [Continues, hreply]
      intro x hx _
      exact hend.stable hx (by simp) (hreturned req res reply tr hof hreply)
    · have hsent := hother req (.threw e) tr (by simp)
      have hno : e ≠ .badOptionalAccess := by
        rintro rfl
        exact hend.noBadAccess rfl
      exact hend.stable (.refl _) (by simpa using hno) hsent.symm
    · have hsent := hother req .running tr (by simp)
      exact hend.stable (.refl _) (by simp) hsent.symm

/-- A handler that acknowledges no message. -/
theorem meets_replyTo_other {Req Res : Type} {ofMessage : Message → Except Exc Req}
    {toMessage : Res → Except Exc Message} {f : Req → Handler Res}
    (hcmd : m.cmd ≠ ascii Commands.sendMsg) (hfail : FailsNaming (ofMessage m))
    (wrap : Res → Response) (hto : ∀ res, (wrap res).toMessage = toMessage res)
    (hf : ∀ req, Meets (perform env) tables (Ends noneSent) (f req) [] w) :
    Meets (perform env) tables (Ends (acknowledged m))
      (catchProto (replyTo ofMessage toMessage m f) fun what => return excToMessage what) [] w := by
  apply meets_replyTo (fun _ => noneSent) hfail
  · intro res
    obtain ⟨mods, hmods⟩ := (wrap res).toMessage_eq_ok
    exact ⟨_, (hto res).symm.trans hmods⟩
  · exact fun _ _ _ _ => rfl
  · exact fun _ _ _ tr _ _ => acknowledged_of_other hcmd _ tr
  · exact fun req _ => hf req

theorem meets_dispatch (env : Env) (turns : ℕ) (m : Message) (w : World) :
    Meets (perform env) tables (Ends (acknowledged m)) (dispatch turns m) [] w := by
  unfold dispatch
  cases hfind : (switcher turns).find? fun e => ascii e.1 = m.cmd with
  | none =>
    have herr : (invalidCommand m.cmd).cmd ≠ ascii ResponseCommands.okay := by
      show ascii "err" ≠ ascii "ok"
      decide
    intro v _ _
    exact Quiet.ends ⟨rfl, rfl⟩ (by simp) (acknowledged_of_error herr []) v
  | some e =>
    have hmem := List.mem_of_find?_eq_some hfind
    have hcmd : ascii e.1 = m.cmd := by simpa using List.find?_some hfind
    simp only [switcher, List.mem_cons, List.not_mem_nil, or_false] at hmem
    rcases hmem with rfl | rfl | rfl | rfl | rfl | rfl | rfl | rfl | rfl | rfl | rfl
    · have hother : ascii Commands.login ≠ ascii Commands.sendMsg := by decide
      exact meets_replyTo_other (hcmd ▸ hother) (failsNaming_login hcmd) .token
        (fun _ => rfl) fun r => meets_login turns r
    · exact meets_replyTo_other (by rw [← hcmd]; decide) (failsNaming_logout hcmd) .okay
        (fun _ => rfl) meets_logout
    · exact meets_replyTo_other (by rw [← hcmd]; decide) (failsNaming_channelList hcmd)
        .channelList (fun _ => rfl) meets_channelList
    · exact meets_replyTo_other (by rw [← hcmd]; decide) (failsNaming_channelMsg hcmd)
        .channelMsg (fun _ => rfl) meets_channelMsg
    · apply meets_replyTo sentOf (failsNaming_sendMsg hcmd)
      · exact fun _ => ⟨_, rfl⟩
      · intro req o tr hno
        rcases o with res | e | _
        · exact absurd rfl (hno res)
        · rfl
        · rfl
      · intro req res reply tr hof hreply
        cases hreply
        simp only [acknowledged, hof, if_true]
        rfl
      · exact fun req _ => meets_sendMsg req
    · exact meets_replyTo_other (by rw [← hcmd]; decide) (failsNaming_channelDetails hcmd)
        .channelDetails (fun _ => rfl) meets_channelDetails
    · exact meets_replyTo_other (by rw [← hcmd]; decide) (failsNaming_newChannel hcmd) .id
        (fun _ => rfl) meets_newChannel
    · exact meets_replyTo_other (by rw [← hcmd]; decide) (failsNaming_newUser hcmd) .okay
        (fun _ => rfl) meets_newUser
    · exact meets_replyTo_other (by rw [← hcmd]; decide) (failsNaming_changePass hcmd) .okay
        (fun _ => rfl) meets_changePass
    · exact meets_replyTo_other (by rw [← hcmd]; decide) (failsNaming_userDetails hcmd)
        .userDetails (fun _ => rfl) meets_userDetails
    · exact meets_replyTo_other (by rw [← hcmd]; decide) (failsNaming_inviteUser hcmd) .okay
        (fun _ => rfl) meets_inviteUser

end Dispatch

end Dotchat
