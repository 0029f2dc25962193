import Dotchat.Server

/-!
What each handler can do, said once. A token is accepted, rejected or, when the
user of its session is missing, orphaned; every handler but login and new_user
starts with that test. `Handled` lists the outcomes of `respond` with the guard
under which each occurs and the world it leaves, and `handled` shows that the
list is complete. The later modules use the list and not the programs.
-/
namespace Dotchat

open Db Handlers Program

namespace World

/-- One more clock reading. -/
def tick (w : World) : World := { w with readings := w.readings + 1 }

/-- The database after a write. -/
def store (w : World) (db : Database) : World := { w with db := db }

/-- The database stays; clocks may have been read and keys drawn. -/
structure Passes (w w' : World) : Prop where
  db : w'.db = w.db
  readings : w.readings ≤ w'.readings
  draws : w.draws ≤ w'.draws

theorem Passes.refl (w : World) : w.Passes w := ⟨rfl, Nat.le_refl _, Nat.le_refl _⟩

theorem Passes.trans {w v u : World} (h : w.Passes v) (h' : v.Passes u) : w.Passes u :=
  ⟨h'.db.trans h.db, Nat.le_trans h.readings h'.readings, Nat.le_trans h.draws h'.draws⟩

theorem passes_tick (w : World) : w.Passes w.tick :=
  ⟨rfl, Nat.le_succ _, Nat.le_refl _⟩

@[simp] theorem tick_db (w : World) : w.tick.db = w.db := rfl

@[simp] theorem store_db (w : World) (db : Database) : (w.store db).db = db := rfl

end World

/-- What `now()` returns at the next reading. -/
def nowAt (env : Env) (w : World) : UInt32 := (env.clock w.readings).now

/-- `check_session_key` returns `u`. -/
def Accepted (env : Env) (w : World) (key : Int32) (u : User) : Prop :=
  ∃ s, w.db.getSessionKey key = some s ∧ SessionLive s.validUntil (nowAt env w) ∧
    w.db.getUser s.user = some u

/-- There is no live session under the key. -/
def Rejected (env : Env) (w : World) (key : Int32) : Prop :=
  ∀ s, w.db.getSessionKey key = some s → ¬ SessionLive s.validUntil (nowAt env w)

/-- The user of the live session under the key is missing. -/
def Orphaned (env : Env) (w : World) (key : Int32) : Prop :=
  ∃ s, w.db.getSessionKey key = some s ∧ SessionLive s.validUntil (nowAt env w) ∧
    w.db.getUser s.user = none

/-- The outcomes of `check_session_key`. -/
inductive Checked (env : Env) (w : World) (key : Int32) : Outcome Exc User × World → Prop
  | accepted {u : User} (h : Accepted env w key u) : Checked env w key (.returned u, w.tick)
  | rejected {w' : World} (h : Rejected env w key) (hw : w.Passes w') :
      Checked env w key (.threw (.protoError (tokenText key)), w')
  | orphaned (h : Orphaned env w key) : Checked env w key (.threw .badOptionalAccess, w.tick)

section Check

variable {env : Env} {w : World} {key : Int32}

theorem run_invoke_returned {c : Call} {a : c.Answer} {w' : World}
    (h : perform env c w = (.ok a, w')) :
    (Dotchat.invoke c).run (perform env) w = (.returned a, w') :=
  run_invoke_of_ok h

theorem run_invoke_threw {c : Call} {e : Exc} {w' : World}
    (h : perform env c w = (.error e, w')) :
    (Dotchat.invoke c).run (perform env) w = (.threw e, w') :=
  run_invoke_of_error h

theorem run_invoke_getSessionKey (key : Int32) : (invoke (.getSessionKey key)).run (perform env) w =
    (.returned (w.db.getSessionKey key), w) := rfl

theorem checked (env : Env) (w : World) (key : Int32) :
    Checked env w key ((checkSessionKey key).run (perform env) w) := by
  unfold checkSessionKey
  rw [run_bind_of_returned (run_invoke_getSessionKey key)]
  cases hkey : w.db.getSessionKey key with
  | none => exact .rejected (by simp [Rejected, hkey]) (.refl w)
  | some s =>
    have hnow : (invoke .now).run (perform env) w = (.returned (nowAt env w), w.tick) := rfl
    simp only [run_bind_of_returned hnow]
    split
    · rename_i hlive
      have huser : (invoke (.getUser s.user)).run (perform env) w.tick =
          (.returned (w.db.getUser s.user), w.tick) := rfl
      rw [run_bind_of_returned huser]
      cases hget : w.db.getUser s.user with
      | none => exact .orphaned ⟨s, hkey, hlive, hget⟩
      | some u => exact .accepted ⟨s, hkey, hlive, hget⟩
    · rename_i hdead
      exact .rejected (fun s' hs' => by rw [hkey] at hs'; cases hs'; exact hdead) (w.passes_tick)

theorem Accepted.not_rejected {u : User} (h : Accepted env w key u) : ¬ Rejected env w key := by
  obtain ⟨s, hs, hlive, -⟩ := h
  exact fun hr => hr s hs hlive

theorem Orphaned.not_rejected (h : Orphaned env w key) : ¬ Rejected env w key := by
  obtain ⟨s, hs, hlive, -⟩ := h
  exact fun hr => hr s hs hlive

theorem Accepted.unique {u u' : User} (h : Accepted env w key u) (h' : Accepted env w key u') :
    u = u' := by
  obtain ⟨s, hs, -, hu⟩ := h
  obtain ⟨s', hs', -, hu'⟩ := h'
  rw [hs] at hs'
  cases hs'
  exact Option.some.inj (hu.symm.trans hu')

theorem Accepted.not_orphaned {u : User} (h : Accepted env w key u) : ¬ Orphaned env w key := by
  obtain ⟨s, hs, -, hu⟩ := h
  rintro ⟨s', hs', -, hu'⟩
  rw [hs] at hs'
  cases hs'
  rw [hu] at hu'
  cases hu'

theorem Accepted.run {u : User} (h : Accepted env w key u) :
    (checkSessionKey key).run (perform env) w = (.returned u, w.tick) := by
  have hcheck := checked env w key
  generalize (checkSessionKey key).run (perform env) w = r at hcheck ⊢
  cases hcheck with
  | accepted h' => rw [h.unique h']
  | rejected h' => exact absurd h' h.not_rejected
  | orphaned h' => exact absurd h' h.not_orphaned

theorem Rejected.run (h : Rejected env w key) : ∃ w', w.Passes w' ∧
    (checkSessionKey key).run (perform env) w = (.threw (.protoError (tokenText key)), w') := by
  have hcheck := checked env w key
  generalize (checkSessionKey key).run (perform env) w = r at hcheck ⊢
  cases hcheck with
  | accepted h' => exact absurd h h'.not_rejected
  | rejected h' hw => exact ⟨_, hw, rfl⟩
  | orphaned h' => exact absurd h h'.not_rejected

/-- `check_session_key` returns a user exactly when the token is accepted. -/
theorem accepted_iff {u : User} : Accepted env w key u ↔
    ((checkSessionKey key).run (perform env) w).1 = .returned u := by
  constructor
  · intro h
    rw [h.run]
  · intro heq
    have hcheck := checked env w key
    generalize (checkSessionKey key).run (perform env) w = r at hcheck heq
    cases hcheck with
    | accepted h' =>
      cases heq
      exact h'
    | rejected h' => cases heq
    | orphaned h' => cases heq

end Check

/-- How the search for a free key ends. -/
inductive Awaited (env : Env) (w : World) (key : Int32) : Outcome Exc Unit × World → Prop
  | free {v w' : World} (hv : w.Passes v) (h : Rejected env v key) (hw : v.Passes w') :
      Awaited env w key (.returned (), w')
  | orphaned {v w' : World} (hv : w.Passes v) (h : Orphaned env v key) (hw : v.Passes w') :
      Awaited env w key (.threw .badOptionalAccess, w')
  | stuck {w' : World} (hw : w.Passes w') : Awaited env w key (.running, w')

section Login

variable {env : Env} {w : World} {key : Int32}

/-- One turn: a live key costs a draw that is thrown away. -/
theorem run_keyIsFree_of_accepted {u : User} (h : Accepted env w key u) :
    (keyIsFree key).run (perform env) w =
      (.returned false, { w.tick with draws := w.draws + 1 }) := by
  have hgen : (invoke .genKey).run (perform env) w.tick =
      (.returned (env.rand w.draws), { w.tick with draws := w.draws + 1 }) := rfl
  rw [keyIsFree, run_catchProto, run_bind_of_returned h.run, run_bind_of_returned hgen]
  rfl

theorem run_keyIsFree_of_rejected (h : Rejected env w key) : ∃ w', w.Passes w' ∧
    (keyIsFree key).run (perform env) w = (.returned true, w') := by
  obtain ⟨w', hw, hrun⟩ := h.run
  refine ⟨w', hw, ?_⟩
  rw [keyIsFree, run_catchProto, run_bind_of_threw hrun]
  rfl

theorem awaited (env : Env) (w : World) (key : Int32) (turns : ℕ) :
    Awaited env w key ((awaitFreeKey key turns).run (perform env) w) := by
  induction turns generalizing w with
  | zero => exact .stuck (.refl w)
  | succ turns ih =>
    rw [awaitFreeKey]
    have hcheck := checked env w key
    generalize hrun : (checkSessionKey key).run (perform env) w = r at hcheck
    cases hcheck with
    | accepted h =>
      rw [run_bind_of_returned (run_keyIsFree_of_accepted h)]
      have hpass : w.Passes { w.tick with draws := w.draws + 1 } :=
        ⟨rfl, Nat.le_succ _, Nat.le_succ _⟩
      have hrest := ih { w.tick with draws := w.draws + 1 }
      simp only [Bool.false_eq_true, if_false]
      generalize (awaitFreeKey key turns).run (perform env) { w.tick with draws := w.draws + 1 } = r
        at hrest ⊢
      cases hrest with
      | free hv h hw => exact .free (hpass.trans hv) h hw
      | orphaned hv h hw => exact .orphaned (hpass.trans hv) h hw
      | stuck hw => exact .stuck (hpass.trans hw)
    | rejected h _ =>
      obtain ⟨w', hw, hfree⟩ := run_keyIsFree_of_rejected h
      rw [run_bind_of_returned hfree]
      exact .free (.refl w) h hw
    | orphaned h =>
      have hthrew : (keyIsFree key).run (perform env) w = (.threw .badOptionalAccess, w.tick) := by
        rw [keyIsFree, run_catchProto, run_bind_of_threw hrun]
      rw [run_bind_of_threw hthrew]
      exact .orphaned (.refl w) h w.passes_tick

/-- A key without a live session is taken in the first turn. -/
theorem run_awaitFreeKey_of_rejected (h : Rejected env w key) (turns : ℕ) :
    ∃ w', w.Passes w' ∧
      (awaitFreeKey key (turns + 1)).run (perform env) w = (.returned (), w') := by
  obtain ⟨w', hw, hrun⟩ := run_keyIsFree_of_rejected h
  exact ⟨w', hw, by rw [awaitFreeKey, run_bind_of_returned hrun]; rfl⟩

end Login

/-- The texts with which the handlers refuse a request of an accepted user. -/
inductive Denies (db : Database) (u : User) : Request → Bytes → Prop
  | channelMsg {r : ChannelMsgRequest} (h : db.getChannelMember u.id r.chanId = none) :
      Denies db u (.channelMsg r)
        (ascii "You can't access that channel, or that channel doesn't exist.")
  | sendMsg {r : MessageSendRequest} (h : db.getChannelMember u.id r.chanId = none) :
      Denies db u (.sendMsg r) (ascii "You are not permitted to send messages in that channel.")
  | detailsNoMember {r : ChannelDetailsRequest} (h : u.id ∉ db.membersOf r.chanId) :
      Denies db u (.channelDetails r) (ascii "You can't access that channel.")
  | detailsNoChannel {r : ChannelDetailsRequest} (hmem : u.id ∈ db.membersOf r.chanId)
      (h : db.getChannel r.chanId = none) :
      Denies db u (.channelDetails r) (ascii "That channel doesn't exist.")
  | userDetails {r : UserDetailsRequest} (h : db.getUser r.uid = none) :
      Denies db u (.userDetails r) (noUserText r.uid)
  | inviteNoChannel {r : InviteUserRequest} (h : db.getChannel r.chanId = none) :
      Denies db u (.inviteUser r) (noChannelText r.chanId)
  | inviteNoOwner {r : InviteUserRequest} {c : Channel} (hc : db.getChannel r.chanId = some c)
      (h : c.ownerId ≠ u.id) :
      Denies db u (.inviteUser r)
        (ascii "Only the creator of a channel can add users to that channel.")
  | inviteNoUser {r : InviteUserRequest} {c : Channel} (hc : db.getChannel r.chanId = some c)
      (howner : c.ownerId = u.id) (h : db.getUser r.uid = none) :
      Denies db u (.inviteUser r) (noInviteeText r.uid)
  | inviteJoined {r : InviteUserRequest} {c : Channel} (hc : db.getChannel r.chanId = some c)
      (howner : c.ownerId = u.id) (h : db.membershipsOf r.chanId r.uid ≠ []) :
      Denies db u (.inviteUser r) (ascii "That user has already joined that channel.")

/-- The responses of the handlers that only query the database. -/
inductive Answers (db : Database) (u : User) : Request → Response → Prop
  | channelList {r : ChannelListRequest} :
      Answers db u (.channelList r)
        (.channelList { data := (db.channelsOf u.id).map fun (id, name) => { id, name } })
  | channelMsg {r : ChannelMsgRequest} (h : (db.getChannelMember u.id r.chanId).isSome) :
      Answers db u (.channelMsg r) (.channelMsg { msgs := (db.messagesOf r.chanId).map fun msg =>
        { sender := msg.sender, sentWhen := msg.sentWhen, cnt := msg.content } })
  | channelDetails {r : ChannelDetailsRequest} {c : Channel} (h : u.id ∈ db.membersOf r.chanId)
      (hc : db.getChannel r.chanId = some c) :
      Answers db u (.channelDetails r) (.channelDetails
        { id := c.id, name := c.name, ownerId := c.ownerId, desc := c.desc,
          members := db.membersOf r.chanId })
  | userDetails {r : UserDetailsRequest} {v : User} (h : db.getUser r.uid = some v) :
      Answers db u (.userDetails r) (.userDetails
        { id := v.id, name := v.name, mutualChannels := db.mutualChannels r.uid v.id })

/-- The outcomes of `respond`, with the guard of each and the world it leaves. -/
inductive Handled (env : Env) (w : World) : Request → Outcome Exc Response × World → Prop
  | rejected {req : Request} {token : Int32} {w' : World} (ht : req.token = some token)
      (h : Rejected env w token) (hw : w.Passes w') :
      Handled env w req (.threw (.protoError (tokenText token)), w')
  | orphaned {req : Request} {token : Int32} (ht : req.token = some token)
      (h : Orphaned env w token) : Handled env w req (.threw .badOptionalAccess, w.tick)
  | refused {req : Request} {token : Int32} {u : User} {what : Bytes}
      (ht : req.token = some token) (h : Accepted env w token u)
      (hwhat : Denies w.db u req what) :
      Handled env w req (.threw (.protoError what), w.tick)
  | answered {req : Request} {token : Int32} {u : User} {s : Response}
      (ht : req.token = some token) (h : Accepted env w token u) (hs : Answers w.db u req s) :
      Handled env w req (.returned s, w.tick)
  | loggedOut {r : LogoutRequest} {u : User} (h : Accepted env w r.token u) :
      Handled env w (.logout r)
        (.returned (.okay {}), w.tick.store (w.db.removeSessionKeysOf u.id))
  | sentMsg {r : MessageSendRequest} {u : User} (h : Accepted env w r.token u)
      (hmem : (w.db.getChannelMember u.id r.chanId).isSome) :
      Handled env w (.sendMsg r) (.returned (.okay {}),
        w.tick.tick.store (w.db.insertMessage u.id r.chanId r.msgCnt (nowAt env w.tick)))
  | channelConflict {r : NewChannelRequest} {u : User} {e : Exc} (h : Accepted env w r.token u)
      (hins : w.db.insertChannel r.name u.id r.desc = .error e) :
      Handled env w (.newChannel r) (.threw e, w.tick)
  | createdChannel {r : NewChannelRequest} {u : User} {id : Int32} {db : Database}
      (h : Accepted env w r.token u)
      (hins : w.db.insertChannel r.name u.id r.desc = .ok (id, db)) :
      Handled env w (.newChannel r) (.returned (.id { id := id }),
        w.tick.store (db.replaceChannelMember { user := u.id, channel := id }))
  | passConflict {r : ChangePassRequest} {u : User} {e : Exc} (h : Accepted env w r.token u)
      (hupd : w.db.updateUser { u with pass := r.newPass } = .error e) :
      Handled env w (.changePass r) (.threw e, w.tick)
  | changedPass {r : ChangePassRequest} {u : User} {db : Database} (h : Accepted env w r.token u)
      (hupd : w.db.updateUser { u with pass := r.newPass } = .ok db) :
      Handled env w (.changePass r) (.returned (.okay {}), w.tick.store db)
  | invited {r : InviteUserRequest} {u v : User} {c : Channel} (h : Accepted env w r.token u)
      (hc : w.db.getChannel r.chanId = some c) (howner : c.ownerId = u.id)
      (hv : w.db.getUser r.uid = some v) (hnew : w.db.membershipsOf r.chanId r.uid = []) :
      Handled env w (.inviteUser r) (.returned (.okay {}),
        w.tick.store (w.db.replaceChannelMember { user := v.id, channel := c.id }))
  | userConflict {r : NewUserRequest} {e : Exc} (hins : w.db.insertUser r.name r.pass = .error e) :
      Handled env w (.newUser r) (.threw e, w)
  | createdUser {r : NewUserRequest} {db : Database}
      (hins : w.db.insertUser r.name r.pass = .ok db) :
      Handled env w (.newUser r) (.returned (.okay {}), w.store db)
  | unknownUser {r : LoginRequest} (h : w.db.usersNamed r.user = []) :
      Handled env w (.login r) (.threw (.protoError (unknownUserText r.user)), w)
  | wrongPass {r : LoginRequest} {u : User} {others : List User}
      (h : w.db.usersNamed r.user = u :: others) (hpass : u.pass ≠ r.pass) :
      Handled env w (.login r) (.threw (.protoError (wrongPassText r.user)), w)
  | loginStuck {r : LoginRequest} {u : User} {others : List User} {w' : World}
      (h : w.db.usersNamed r.user = u :: others) (hpass : u.pass = r.pass) (hw : w.Passes w') :
      Handled env w (.login r) (.running, w')
  | loginOrphaned {r : LoginRequest} {u : User} {others : List User} {v w' : World}
      (h : w.db.usersNamed r.user = u :: others) (hpass : u.pass = r.pass) (hv : w.Passes v)
      (hkey : Orphaned env v (env.rand w.draws)) (hw : v.Passes w') :
      Handled env w (.login r) (.threw .badOptionalAccess, w')
  | loggedIn {r : LoginRequest} {u : User} {others : List User} {v w' : World}
      (h : w.db.usersNamed r.user = u :: others) (hpass : u.pass = r.pass) (hv : w.Passes v)
      (hkey : Rejected env v (env.rand w.draws)) (hw : v.Passes w') :
      Handled env w (.login r) (.returned (.token { token := env.rand w.draws }),
        w'.tick.store (w.db.replaceSessionKey {
          key := env.rand w.draws
          user := u.id
          validUntil := (env.clock w'.readings).nowUncut + sessionLength }))

section Handled

variable {env : Env} {w : World}

/-- A handler that starts with the test of the token. -/
theorem handled_of_check {α : Type} {req : Request} {token : Int32} {wrap : α → Response}
    {f : User → Handler α} (ht : req.token = some token)
    (hf : ∀ u, Accepted env w token u → Handled env w req
      (((f u).run (perform env) w.tick).1.map wrap, ((f u).run (perform env) w.tick).2)) :
    Handled env w req ((wrap <$> (checkSessionKey token >>= f)).run (perform env) w) := by
  rw [run_map _ _ rfl, run_bind]
  have hcheck := checked env w token
  generalize (checkSessionKey token).run (perform env) w = r at hcheck ⊢
  cases hcheck with
  | accepted h => exact hf _ h
  | rejected h hw => exact .rejected ht h hw
  | orphaned h => exact .orphaned ht h

theorem handled_logout (r : LogoutRequest) :
    Handled env w (.logout r) ((Response.okay <$> logout r).run (perform env) w) :=
  handled_of_check rfl fun _ h => .loggedOut h

theorem handled_channelList (r : ChannelListRequest) :
    Handled env w (.channelList r) ((Response.channelList <$> channelList r).run (perform env) w) :=
  handled_of_check rfl fun _ h => .answered rfl h .channelList

theorem run_userCanAccess (uid chanId : Int32) : (userCanAccess uid chanId).run (perform env) w =
    (.returned (w.db.getChannelMember uid chanId).isSome, w) := rfl

theorem handled_channelMsg (r : ChannelMsgRequest) :
    Handled env w (.channelMsg r) ((Response.channelMsg <$> channelMsg r).run (perform env) w) := by
  apply handled_of_check rfl
  intro u hu
  rw [run_bind_of_returned (run_userCanAccess u.id r.chanId), World.tick_db]
  cases hmem : w.db.getChannelMember u.id r.chanId with
  | none => exact .refused rfl hu (.channelMsg hmem)
  | some _ => exact .answered rfl hu (.channelMsg (by rw [hmem]; rfl))

theorem handled_sendMsg (r : MessageSendRequest) :
    Handled env w (.sendMsg r) ((Response.okay <$> sendMsg r).run (perform env) w) := by
  apply handled_of_check rfl
  intro u hu
  rw [run_bind_of_returned (run_userCanAccess u.id r.chanId), World.tick_db]
  cases hmem : w.db.getChannelMember u.id r.chanId with
  | none => exact .refused rfl hu (.sendMsg hmem)
  | some _ => exact .sentMsg hu (by rw [hmem]; rfl)

theorem handled_channelDetails (r : ChannelDetailsRequest) :
    Handled env w (.channelDetails r)
      ((Response.channelDetails <$> channelDetails r).run (perform env) w) := by
  apply handled_of_check rfl
  intro u hu
  have hmembers : (invoke (.membersOf r.chanId)).run (perform env) w.tick =
      (.returned (w.db.membersOf r.chanId), w.tick) := rfl
  have hchannel : (invoke (.getChannel r.chanId)).run (perform env) w.tick =
      (.returned (w.db.getChannel r.chanId), w.tick) := rfl
  rw [run_bind_of_returned hmembers]
  split
  · rename_i hmem
    rw [run_bind_of_returned hchannel]
    cases hget : w.db.getChannel r.chanId with
    | none => exact .refused rfl hu (.detailsNoChannel hmem hget)
    | some c => exact .answered rfl hu (.channelDetails hmem hget)
  · rename_i hmem
    exact .refused rfl hu (.detailsNoMember hmem)

theorem handled_newChannel (r : NewChannelRequest) :
    Handled env w (.newChannel r) ((Response.id <$> newChannel r).run (perform env) w) := by
  apply handled_of_check rfl
  intro u hu
  cases hins : w.db.insertChannel r.name u.id r.desc with
  | error e =>
    have hperform : perform env (.insertChannel r.name u.id r.desc) w.tick =
        (.error e, w.tick) := by
      simp only [perform, World.tick_db, hins]
    rw [run_bind_of_threw (run_invoke_threw hperform)]
    exact .channelConflict hu hins
  | ok out =>
    obtain ⟨id, db⟩ := out
    have hperform : perform env (.insertChannel r.name u.id r.desc) w.tick =
        (.ok id, w.tick.store db) := by
      simp only [perform, World.tick_db, hins]
      rfl
    rw [run_bind_of_returned (run_invoke_returned hperform)]
    exact .createdChannel hu hins

theorem handled_newUser (r : NewUserRequest) :
    Handled env w (.newUser r) ((Response.okay <$> newUser r).run (perform env) w) := by
  rw [run_map _ _ rfl, newUser]
  cases hins : w.db.insertUser r.name r.pass with
  | error e =>
    have hperform : perform env (.insertUser r.name r.pass) w = (.error e, w) := by
      simp only [perform, hins]
    rw [run_bind_of_threw (run_invoke_threw hperform)]
    exact .userConflict hins
  | ok db =>
    have hperform : perform env (.insertUser r.name r.pass) w = (.ok (), w.store db) := by
      simp only [perform, hins]
      rfl
    rw [run_bind_of_returned (run_invoke_returned hperform)]
    exact .createdUser hins

theorem handled_changePass (r : ChangePassRequest) :
    Handled env w (.changePass r) ((Response.okay <$> changePass r).run (perform env) w) := by
  apply handled_of_check rfl
  intro u hu
  cases hupd : w.db.updateUser { u with pass := r.newPass } with
  | error e =>
    have hperform : perform env (.updateUser { u with pass := r.newPass }) w.tick =
        (.error e, w.tick) := by
      simp only [perform, World.tick_db, hupd]
    rw [run_bind_of_threw (run_invoke_threw hperform)]
    exact .passConflict hu hupd
  | ok db =>
    have hperform : perform env (.updateUser { u with pass := r.newPass }) w.tick =
        (.ok (), w.tick.store db) := by
      simp only [perform, World.tick_db, hupd]
      rfl
    rw [run_bind_of_returned (run_invoke_returned hperform)]
    exact .changedPass hu hupd

theorem handled_userDetails (r : UserDetailsRequest) :
    Handled env w (.userDetails r)
      ((Response.userDetails <$> userDetails r).run (perform env) w) := by
  apply handled_of_check rfl
  intro u hu
  have hget : (invoke (.getUser r.uid)).run (perform env) w.tick =
      (.returned (w.db.getUser r.uid), w.tick) := rfl
  rw [run_bind_of_returned hget]
  cases hv : w.db.getUser r.uid with
  | none => exact .refused rfl hu (.userDetails hv)
  | some v => exact .answered rfl hu (.userDetails hv)

theorem handled_inviteUser (r : InviteUserRequest) :
    Handled env w (.inviteUser r) ((Response.okay <$> inviteUser r).run (perform env) w) := by
  apply handled_of_check rfl
  intro u hu
  have hchannel : (invoke (.getChannel r.chanId)).run (perform env) w.tick =
      (.returned (w.db.getChannel r.chanId), w.tick) := rfl
  have huser : (invoke (.getUser r.uid)).run (perform env) w.tick =
      (.returned (w.db.getUser r.uid), w.tick) := rfl
  have hjoined : (invoke (.membershipsOf r.chanId r.uid)).run (perform env) w.tick =
      (.returned (w.db.membershipsOf r.chanId r.uid), w.tick) := rfl
  rw [run_bind_of_returned hchannel]
  cases hc : w.db.getChannel r.chanId with
  | none => exact .refused rfl hu (.inviteNoChannel hc)
  | some c =>
    by_cases howner : c.ownerId = u.id
    · simp only [howner, ne_eq, not_true_eq_false, if_false, inviteTo]
      rw [run_bind_of_returned huser]
      cases hv : w.db.getUser r.uid with
      | none => exact .refused rfl hu (.inviteNoUser hc howner hv)
      | some v =>
        simp only []
        rw [run_bind_of_returned hjoined]
        by_cases hnew : w.db.membershipsOf r.chanId r.uid = []
        · simp only [hnew, not_true_eq_false, if_false]
          exact .invited hu hc howner hv hnew
        · simp only [hnew, not_false_eq_true, if_true]
          exact .refused rfl hu (.inviteJoined hc howner hnew)
    · simp only [howner, ne_eq, not_false_eq_true, if_true]
      exact .refused rfl hu (.inviteNoOwner hc howner)

theorem handled_login (turns : ℕ) (r : LoginRequest) :
    Handled env w (.login r) ((Response.token <$> login turns r).run (perform env) w) := by
  have hnamed : (invoke (.usersNamed r.user)).run (perform env) w =
      (.returned (w.db.usersNamed r.user), w) := rfl
  rw [run_map _ _ rfl, login, run_bind_of_returned hnamed]
  cases h : w.db.usersNamed r.user with
  | nil => exact .unknownUser h
  | cons u others =>
    by_cases hpass : u.pass = r.pass
    · simp only [hpass, ne_eq, not_true_eq_false, if_false]
      have hgen : (invoke .genKey).run (perform env) w =
          (.returned (env.rand w.draws), { w with draws := w.draws + 1 }) := rfl
      have hdrawn : w.Passes { w with draws := w.draws + 1 } :=
        ⟨rfl, Nat.le_refl _, Nat.le_succ _⟩
      rw [run_bind_of_returned hgen, run_bind]
      have hawait := awaited env { w with draws := w.draws + 1 } (env.rand w.draws) turns
      generalize (awaitFreeKey (env.rand w.draws) turns).run (perform env)
        { w with draws := w.draws + 1 } = out at hawait ⊢
      cases hawait with
      | stuck hw => exact .loginStuck h hpass (hdrawn.trans hw)
      | orphaned hv hkey hw => exact .loginOrphaned h hpass (hdrawn.trans hv) hkey hw
      | free hv hkey hw =>
        have hdb := (hdrawn.trans (hv.trans hw)).db
        have hin := Handled.loggedIn h hpass (hdrawn.trans hv) hkey hw
        rw [← hdb] at hin
        exact hin
    · simp only [hpass, ne_eq, not_false_eq_true, if_true]
      exact .wrongPass h hpass

/-- The list of outcomes is complete. -/
theorem handled (env : Env) (turns : ℕ) (w : World) (req : Request) :
    Handled env w req ((respond turns req).run (perform env) w) := by
  cases req with
  | login r => exact handled_login turns r
  | logout r => exact handled_logout r
  | channelList r => exact handled_channelList r
  | channelMsg r => exact handled_channelMsg r
  | sendMsg r => exact handled_sendMsg r
  | channelDetails r => exact handled_channelDetails r
  | newChannel r => exact handled_newChannel r
  | newUser r => exact handled_newUser r
  | changePass r => exact handled_changePass r
  | userDetails r => exact handled_userDetails r
  | inviteUser r => exact handled_inviteUser r

variable {u : User} {o : Outcome Exc Response} {w' : World}

/-- What is left of the list for a request whose token is accepted. -/
theorem Handled.logout_of_accepted {r : LogoutRequest} (hu : Accepted env w r.token u)
    (h : Handled env w (.logout r) (o, w')) :
    o = .returned (.okay {}) ∧ w' = w.tick.store (w.db.removeSessionKeysOf u.id) := by
  cases h with
  | rejected ht hno _ =>
    cases ht
    exact absurd hno hu.not_rejected
  | orphaned ht hno =>
    cases ht
    exact absurd hno hu.not_orphaned
  | refused _ _ hdenies => cases hdenies
  | answered _ _ hs => cases hs
  | loggedOut hu' => exact ⟨rfl, by rw [hu.unique hu']⟩

theorem Handled.newChannel_of_accepted {r : NewChannelRequest} (hu : Accepted env w r.token u)
    (h : Handled env w (.newChannel r) (o, w')) :
    (w.db.ChannelConflict r.name ∧ o = .threw .systemError) ∨
      (¬ w.db.ChannelConflict r.name ∧ o = .returned (.id { id := w.db.nextChannelId })) := by
  cases h with
  | rejected ht hno _ =>
    cases ht
    exact absurd hno hu.not_rejected
  | orphaned ht hno =>
    cases ht
    exact absurd hno hu.not_orphaned
  | refused _ _ hdenies => cases hdenies
  | answered _ _ hs => cases hs
  | channelConflict _ hins =>
    obtain ⟨htaken, rfl⟩ := Database.insertChannel_eq_error hins
    exact .inl ⟨htaken, rfl⟩
  | createdChannel _ hins =>
    obtain ⟨hfree, rfl, -⟩ := Database.insertChannel_eq_ok hins
    exact .inr ⟨hfree, rfl⟩

theorem Handled.changePass_of_accepted {r : ChangePassRequest} (hu : Accepted env w r.token u)
    (h : Handled env w (.changePass r) (o, w')) :
    o = .threw .systemError ∨ (o = .returned (.okay {}) ∧ w'.db = { w.db with
      users := Table.update (·.id) { u with pass := r.newPass } w.db.users }) := by
  cases h with
  | rejected ht hno _ =>
    cases ht
    exact absurd hno hu.not_rejected
  | orphaned ht hno =>
    cases ht
    exact absurd hno hu.not_orphaned
  | refused _ _ hdenies => cases hdenies
  | answered _ _ hs => cases hs
  | passConflict _ hupd =>
    obtain ⟨-, rfl⟩ := Database.updateUser_eq_error hupd
    exact .inl rfl
  | changedPass hu' hupd =>
    rw [hu.unique hu', World.store_db]
    exact .inr ⟨rfl, Database.updateUser_eq_ok hupd⟩

theorem Handled.newUser_cases {r : NewUserRequest} (h : Handled env w (.newUser r) (o, w')) :
    (w.db.UserConflict r.name ∧ o = .threw .systemError) ∨
      (¬ w.db.UserConflict r.name ∧ o = .returned (.okay {}) ∧ w'.db = { w.db with
        users := w.db.users ++ [{ id := w.db.nextUserId, name := r.name, pass := r.pass }] }) := by
  cases h with
  | rejected ht _ _ | orphaned ht _ | refused ht _ _ | answered ht _ _ => cases ht
  | userConflict hins =>
    obtain ⟨htaken, rfl⟩ := Database.insertUser_eq_error hins
    exact .inl ⟨htaken, rfl⟩
  | createdUser hins =>
    obtain ⟨hfree, rfl⟩ := Database.insertUser_eq_ok hins
    exact .inr ⟨hfree, rfl, rfl⟩

end Handled
end Dotchat
