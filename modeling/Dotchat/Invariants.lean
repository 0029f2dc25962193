import Dotchat.HandlerSpecs

/-!
Runs of the server and the invariants of the states they reach. A run processes
one message after the other, each with its own number of turns for the loop of
login; a message whose handling throws or does not end leaves the database it
has reached. `Written` lists the changes one message can make to the database.
An invariant that holds of the new database and survives each change holds in
every reachable state.
-/
namespace Dotchat

open Db

/-- Process one message. -/
def serve (env : Env) (turns : ℕ) (m : Message) (w : World) : Outcome Exc Message × World :=
  (dispatch turns m).run (perform env) w

/-- The runs whose messages are allowed in the world that they meet. -/
inductive Steps (env : Env) (Allowed : World → Message → Prop) (w : World) : World → Prop
  | refl : Steps env Allowed w w
  | serve {v : World} (h : Steps env Allowed w v) (turns : ℕ) {m : Message} (hm : Allowed v m) :
      Steps env Allowed w (serve env turns m v).2

/-- The worlds that runs of admitted messages reach from the new database. -/
def Reachable (env : Env) (Admitted : Message → Prop) (w : World) : Prop :=
  Steps env (fun _ m => Admitted m) {} w

/-- What a handled request writes. -/
inductive Written (env : Env) (w : World) : Request → Outcome Exc Response → Database → Prop
  | nothing {req : Request} {o : Outcome Exc Response} : Written env w req o w.db
  | session {r : LoginRequest} {u : User} {others : List User} {v v' : World}
      (h : w.db.usersNamed r.user = u :: others) (hpass : u.pass = r.pass) (hv : w.Passes v)
      (hkey : Rejected env v (env.rand w.draws)) (hv' : v.Passes v') :
      Written env w (.login r) (.returned (.token { token := env.rand w.draws }))
        (w.db.replaceSessionKey {
          key := env.rand w.draws
          user := u.id
          validUntil := (env.clock v'.readings).nowUncut + Handlers.sessionLength })
  | noSessions {r : LogoutRequest} {u : User} (h : Accepted env w r.token u) :
      Written env w (.logout r) (.returned (.okay {})) (w.db.removeSessionKeysOf u.id)
  | message {r : MessageSendRequest} {u : User} (h : Accepted env w r.token u)
      (hmem : (w.db.getChannelMember u.id r.chanId).isSome) :
      Written env w (.sendMsg r) (.returned (.okay {}))
        (w.db.insertMessage u.id r.chanId r.msgCnt (nowAt env w.tick))
  | channel {r : NewChannelRequest} {u : User} (h : Accepted env w r.token u)
      (hfree : ¬ w.db.ChannelConflict r.name) :
      Written env w (.newChannel r) (.returned (.id { id := w.db.nextChannelId }))
        (Database.replaceChannelMember { w.db with channels := w.db.channels ++
          [{ id := w.db.nextChannelId, name := r.name, ownerId := u.id, desc := r.desc }] }
          { user := u.id, channel := w.db.nextChannelId })
  | member {r : InviteUserRequest} {u v : User} {c : Channel} (h : Accepted env w r.token u)
      (hc : w.db.getChannel r.chanId = some c) (howner : c.ownerId = u.id)
      (hv : w.db.getUser r.uid = some v) (hnew : w.db.membershipsOf r.chanId r.uid = []) :
      Written env w (.inviteUser r) (.returned (.okay {}))
        (w.db.replaceChannelMember { user := v.id, channel := c.id })
  | password {r : ChangePassRequest} {u : User} (h : Accepted env w r.token u) :
      Written env w (.changePass r) (.returned (.okay {}))
        { w.db with users := Table.update (·.id) { u with pass := r.newPass } w.db.users }
  | user {r : NewUserRequest} (hfree : ¬ w.db.UserConflict r.name) :
      Written env w (.newUser r) (.returned (.okay {}))
        { w.db with users := w.db.users ++
          [{ id := w.db.nextUserId, name := r.name, pass := r.pass }] }

section Written

variable {env : Env} {w w' : World} {req : Request} {o : Outcome Exc Response}

theorem Handled.written (h : Handled env w req (o, w')) : Written env w req o w'.db := by
  cases h with
  | rejected _ _ hw => exact hw.db ▸ .nothing
  | loginStuck _ _ hw => exact hw.db ▸ .nothing
  | loginOrphaned _ _ hv _ hw => exact (hv.trans hw).db ▸ .nothing
  | orphaned | refused | answered | channelConflict | passConflict | userConflict | unknownUser
  | wrongPass => exact .nothing
  | loggedOut h => exact .noSessions h
  | sentMsg h hmem => exact .message h hmem
  | createdChannel h hins =>
    obtain ⟨hfree, rfl, rfl⟩ := Database.insertChannel_eq_ok hins
    exact .channel h hfree
  | changedPass h hupd =>
    rw [Database.updateUser_eq_ok hupd]
    exact .password h
  | invited h hc howner hv hnew => exact .member h hc howner hv hnew
  | createdUser hins =>
    obtain ⟨hfree, rfl⟩ := Database.insertUser_eq_ok hins
    exact .user hfree
  | loggedIn h hpass hv hkey hw => exact .session h hpass hv hkey hw

/-- A message that parses comes to one of the outcomes of its request. -/
theorem serve_of_parses (env : Env) (turns : ℕ) (w : World) {m : Message} {req : Request}
    (h : req.Parses m) :
    ∃ o w', Handled env w req (o, w') ∧ (respond turns req).run (perform env) w = (o, w') ∧
      serve env turns m w = (replyOf Response.toMessage o, w') := by
  have hhandled := handled env turns w req
  rcases hrun : (respond turns req).run (perform env) w with ⟨o, w'⟩
  rw [hrun] at hhandled
  exact ⟨o, w', hhandled, rfl, dispatch_of_parses h hrun⟩

/-- A step of the server leaves the database alone or writes what a request
asks for. -/
theorem serve_written (env : Env) (turns : ℕ) (m : Message) (w : World) :
    (serve env turns m w).2.db = w.db ∨ ∃ req o, req.Parses m ∧
      (serve env turns m w).1 = replyOf Response.toMessage o ∧
      Written env w req o (serve env turns m w).2.db := by
  have hstep := dispatched env turns m w
  unfold serve
  generalize (dispatch turns m).run (perform env) w = r at hstep ⊢
  cases hstep with
  | unknown _ => exact .inl rfl
  | malformed _ _ => exact .inl rfl
  | handled hparse hrun =>
    have hhandled := handled env turns w ‹Request›
    rw [hrun] at hhandled
    exact .inr ⟨_, _, hparse, rfl, hhandled.written⟩

/-- Readings and draws are only added. -/
theorem serve_readings_le (env : Env) (turns : ℕ) (m : Message) (w : World) :
    w.readings ≤ (serve env turns m w).2.readings := by
  refine Program.run_keeps (I := fun v : World => w.readings ≤ v.readings) ?_ _ (Nat.le_refl _)
  intro c v hv
  cases c with
  | now | nowUncut => exact Nat.le_succ_of_le hv
  | insertUser name pass =>
    simp only [perform]
    split <;> exact hv
  | insertChannel name ownerId desc =>
    simp only [perform]
    split <;> exact hv
  | updateUser row =>
    simp only [perform]
    split <;> exact hv
  | _ => exact hv

theorem Steps.readings_le {Allowed : World → Message → Prop} {w w' : World}
    (h : Steps env Allowed w w') : w.readings ≤ w'.readings := by
  induction h with
  | refl => exact Nat.le_refl _
  | serve _ turns _ ih => exact ih.trans (serve_readings_le env turns _ _)

/-- A property that each allowed write keeps survives a run. -/
theorem Steps.invariant {Allowed : World → Message → Prop} {P : Database → Prop} {w w' : World}
    (h : Steps env Allowed w w') (hw : P w.db)
    (hwrite : ∀ v m req o db, w.readings ≤ v.readings → Allowed v m → req.Parses m → P v.db →
      Written env v req o db → P db) : P w'.db := by
  induction h with
  | refl => exact hw
  | serve h turns hm ih =>
    rcases serve_written env turns _ _ with hsame | ⟨req, o, hparse, -, hwritten⟩
    · rw [hsame]
      exact ih
    · exact hwrite _ _ _ _ _ h.readings_le hm hparse ih hwritten

end Written

/-- Ids, names and keys are unique; the user of each session and the channel of
each membership exist. -/
structure Consistent (db : Database) : Prop where
  users : Table.Keyed (·.id) db.users
  names : Table.Keyed (·.name) db.users
  sessions : Table.Keyed (·.key) db.sessionKeys
  sessionUser : ∀ s ∈ db.sessionKeys, ∃ u ∈ db.users, u.id = s.user
  memberChannel : ∀ m ∈ db.channelMembers, ∃ c ∈ db.channels, c.id = m.channel

section Consistent

variable {env : Env} {w : World} {Admitted : Message → Prop}

theorem consistent_initial : Consistent .initial where
  users := by simp [Table.Keyed, Database.initial]
  names := by simp [Table.Keyed, Database.initial]
  sessions := by simp [Table.Keyed, Database.initial]
  sessionUser := by simp [Database.initial]
  memberChannel := by simp [Database.initial]

theorem Accepted.mem {key : Int32} {u : User} (h : Accepted env w key u) : u ∈ w.db.users := by
  obtain ⟨s, -, -, hu⟩ := h
  exact (Table.mem_of_lookup hu).1

theorem consistent_written {req : Request} {o : Outcome Exc Response} {db : Database}
    (hc : Consistent w.db) (h : Written env w req o db) : Consistent db := by
  cases h with
  | nothing => exact hc
  | session h _ _ _ _ =>
    refine { hc with sessions := Table.keyed_replace hc.sessions, sessionUser := ?_ }
    intro s hs
    rcases Table.mem_replace.mp hs with rfl | ⟨hs, -⟩
    · have hu : _ ∈ w.db.usersNamed _ := h ▸ List.mem_cons_self
      exact ⟨_, (List.mem_filter.mp hu).1, rfl⟩
    · exact hc.sessionUser s hs
  | noSessions h =>
    exact { hc with
      sessions := Table.keyed_filter hc.sessions _
      sessionUser := fun s hs => hc.sessionUser s (List.mem_filter.mp hs).1 }
  | message h hmem => exact { hc with }
  | channel h hfree =>
    refine { hc with memberChannel := ?_ }
    intro m hm
    rcases Table.mem_replace.mp hm with rfl | ⟨hm, -⟩
    · exact ⟨_, List.mem_append_right _ List.mem_cons_self, rfl⟩
    · obtain ⟨c, hmem, hid⟩ := hc.memberChannel m hm
      exact ⟨c, List.mem_append_left _ hmem, hid⟩
  | member h hch howner hv hnew =>
    refine { hc with memberChannel := ?_ }
    intro m hm
    rcases Table.mem_replace.mp hm with rfl | ⟨hm, -⟩
    · exact ⟨_, (Table.mem_of_lookup hch).1, rfl⟩
    · exact hc.memberChannel m hm
  | password h =>
    rename_i r u
    have hnames : (Table.update (·.id) { u with pass := r.newPass } w.db.users).map (·.name) =
        w.db.users.map (·.name) :=
      Table.map_update fun u' hu' hid => by rw [Table.eq_of_key hc.users hu' h.mem hid]
    refine { hc with users := Table.keyed_update hc.users, names := ?_, sessionUser := ?_ }
    · rw [Table.Keyed, hnames]
      exact hc.names
    · intro s hs
      have hmem : s.user ∈ w.db.users.map (·.id) := List.mem_map.mpr (hc.sessionUser s hs)
      rw [← Table.map_key_update (r := { u with pass := r.newPass })] at hmem
      exact List.mem_map.mp hmem
  | user hfree =>
    refine { hc with
      users := Table.keyed_append hc.users fun u hu hid => hfree ⟨u, hu, .inl hid⟩
      names := Table.keyed_append hc.names fun u hu hname => hfree ⟨u, hu, .inr hname⟩
      sessionUser := ?_ }
    intro s hs
    obtain ⟨u, hu, hid⟩ := hc.sessionUser s hs
    exact ⟨u, List.mem_append_left _ hu, hid⟩

theorem Reachable.consistent (h : Reachable env Admitted w) : Consistent w.db :=
  Steps.invariant h consistent_initial fun _ _ _ _ _ _ _ _ hc hw => consistent_written hc hw

end Consistent
end Dotchat
