import Dotchat.LastWrites

/-!
A request that is overtaken by another one has read a part of the database before
the other one wrote, and goes on behind it. What it has read of users, channels
and memberships still holds. So it may as well have begun behind the write, with
few exceptions: the session of its token is gone, the members it will list have
become more, the password it has compared has changed. Then the rest of it does
not meet the write, and it may as well have run before. What remains are two
requests that do the same thing twice.
-/
namespace Dotchat

open Db Handlers Program

/-- A request that is answered alone makes one of the changes of its kind. -/
theorem written_of_answer {r : Readings} {turns : ℕ} {req : Request} {db db' : Database}
    {o : Outcome Exc Response} (h : (answer r (respond turns req)).run operate db = (o, db')) :
    ∃ env, Written env { db := db } req o db' := by
  obtain ⟨env, w', hrun, hdb⟩ := exists_served r (respond turns req) { db := db }
  have hhandled := handled env turns { db := db } req
  rw [hrun, h] at hhandled
  rw [h] at hdb
  obtain rfl := hdb
  exact ⟨env, hhandled.written⟩

/-- A user can get a new password: nobody else has the name. -/
theorem updateUser_pass {db : Database} (hrel : Relational db) {u : User} (hu : u ∈ db.users)
    (pass : Bytes) : db.updateUser { u with pass := pass } =
      .ok { db with users := Table.update (·.id) { u with pass := pass } db.users } := by
  apply if_neg
  rintro ⟨v, hv, hid, hname⟩
  rw [Table.eq_of_key hrel.userNames hv hu hname] at hid
  exact hid rfl

theorem written_keeps {env : Env} {w : World} {req : Request} {o : Outcome Exc Response}
    {db : Database} (hrel : Relational w.db) (h : Written env w req o db) :
    Relational db ∧ w.db.Grows db := by
  cases h with
  | nothing =>
    exact ⟨hrel, .refl _⟩
  | @session r u _ _ _ hnamed _ _ _ _ =>
    apply replaceSessionKey_keeps hrel
    have hmem : u ∈ w.db.usersNamed r.user := hnamed ▸ List.mem_cons_self
    exact ⟨u, (List.mem_filter.mp hmem).1, rfl⟩
  | noSessions _ => exact removeSessionKeysOf_keeps hrel _
  | message _ hmem =>
    exact insertMessage_keeps hrel ((w.db.getChannelMember_isSome).mp hmem)
  | @channel r u hu hfree =>
    have hins : w.db.insertChannel r.name u.id r.desc = .ok (w.db.nextChannelId, _) :=
      if_neg hfree
    obtain ⟨hrel', hgrows⟩ := insertChannel_keeps hrel ⟨u, hu.mem, rfl⟩ hins
    let row : ChannelMember := { user := u.id, channel := w.db.nextChannelId }
    have huser : Database.HasUser _ row.user := hgrows.hasUser ⟨u, hu.mem, rfl⟩
    have hnew := replaceChannelMember_keeps hrel' huser
      ⟨_, List.mem_append_right _ List.mem_cons_self, rfl⟩
    exact ⟨hnew.1, hgrows.trans hnew.2⟩
  | @member r u v c _ hc _ hv _ =>
    exact replaceChannelMember_keeps hrel ⟨v, (Table.mem_of_lookup hv).1, rfl⟩
      ⟨c, (Table.mem_of_lookup hc).1, rfl⟩
  | @password r u hu =>
    have hupd := updateUser_pass hrel hu.mem r.newPass
    refine updateUser_keeps hrel ?_ hupd
    exact ⟨u, hu.mem, rfl, rfl⟩
  | user hfree =>
    exact insertUser_keeps hrel (if_neg hfree)

section Known

variable {db v : Database} (hrel : Relational v) (hgrows : db.Grows v)

include hrel hgrows

theorem getUser_grown {id : Int32} {u : User} (h : db.getUser id = some u) :
    ∃ u', v.getUser id = some u' ∧ u'.id = u.id ∧ u'.name = u.name := by
  obtain ⟨hmem, hid⟩ := Table.mem_of_lookup h
  obtain ⟨u', hmem', hid', hname⟩ := hgrows.users u hmem
  exact ⟨u', (Table.lookup_eq_some hrel.userIds).mpr ⟨hmem', hid'.trans hid⟩, hid', hname⟩

theorem getChannel_grown {id : Int32} {c : Channel} (h : db.getChannel id = some c) :
    v.getChannel id = some c := by
  obtain ⟨hmem, hid⟩ := Table.mem_of_lookup h
  exact (Table.lookup_eq_some hrel.channelIds).mpr ⟨hgrows.channels c hmem, hid⟩

theorem getChannelMember_grown {user channel : Int32} {m : ChannelMember}
    (h : db.getChannelMember user channel = some m) :
    v.getChannelMember user channel = some m := by
  obtain ⟨hmem, hkey⟩ := Table.mem_of_lookup h
  exact (Table.lookup_eq_some hrel.memberKeys).mpr ⟨hgrows.members m hmem, hkey⟩

end Known

/-- The password of the user does not matter behind the check of the token. -/
theorem body_congr {u u' : User} (hid : u'.id = u.id) (hname : u'.name = u.name) (r : Readings)
    (req : Request) : body r u' req = body r u req := by
  obtain ⟨id, name, pass⟩ := u
  obtain ⟨id', name', pass'⟩ := u'
  cases hid
  cases hname
  cases req <;> rfl

section Carries

variable {α : Type} {db v : Database} {X : Handler α → Prop}

/-- A call that reads the same in both databases, as far as the rest can tell. -/
theorem carries_call {c : Call} {next : Except Exc c.Answer → Handler α} {a b : c.Answer}
    (hdb : operate c db = (.ok a, db)) (hv : operate c v = (.ok b, v))
    (hsame : next (.ok b) = next (.ok a)) (h : Carries operate X db v (next (.ok a))) :
    Carries operate X db v (.call c next) := by
  apply Carries.call
  · rw [hv]
  · rw [hdb, hv]
    exact hsame
  · rw [hdb]
    exact h

theorem carries_query {c : Call} {k : c.Answer → Handler α} {a b : c.Answer}
    (hdb : operate c db = (.ok a, db)) (hv : operate c v = (.ok b, v)) (hsame : k b = k a)
    (h : Carries operate X db v (k a)) : Carries operate X db v (query c k) :=
  carries_call hdb hv hsame h

theorem carries_end {c : Call} {k : c.Answer → Handler α} {a : c.Answer}
    (hdb : operate c db = (.ok a, db)) (h : (k a).ended = true) :
    Carries operate X db v (query c k) := by
  apply Carries.last
  intro _
  rw [hdb]
  exact h

theorem carries_differs {c : Call} {k : c.Answer → Handler α} {a : c.Answer}
    (hdb : operate c db = (.ok a, db))
    (h : ∀ p', Advances operate db (k a) p' → p'.ended = true ∨ X p') :
    Carries operate X db v (query c k) := by
  apply Carries.differs
  rw [hdb]
  exact h

/-- A query after which the request ends, unless it writes. -/
theorem advances_last {c : Call} {k : c.Answer → Handler α} {p' : Handler α}
    (h : ∀ a, operate c db = (.ok a, db) → (k a).ended = true)
    (hp : Advances operate db (query c k) p') : p' = query c k ∨ p'.ended = true := by
  rcases hp.of_call with rfl | ⟨hread, hp⟩
  · exact .inl rfl
  · have hended : ∀ a, (operate c db).1 = .ok a → (k a).ended = true :=
      fun a ha => h a (Prod.ext ha hread)
    cases hans : (operate c db).1 with
    | ok a =>
      obtain ⟨o, ho⟩ := ended_iff.mp (hended a hans)
      rw [hans] at hp
      simp only [ho] at hp
      rw [hp.of_done]
      exact .inr rfl
    | error e =>
      rw [hans] at hp
      rw [hp.of_done]
      exact .inr rfl

theorem carries_last {c : Call} {k : c.Answer → Handler α}
    (h : ∀ a, operate c db = (.ok a, db) → (k a).ended = true) :
    Carries operate X db v (query c k) := by
  intro p' hp'
  rcases advances_last h hp' with rfl | hended
  · exact .inr (.inl (.refl _))
  · exact .inl hended

variable (hrel : Relational v) (hgrows : db.Grows v)

include hrel hgrows

/-- A user who has been found is still there, with his id and his name. -/
theorem carries_getUser {id : Int32} {k : Option User → Handler α} (hnone : (k none).ended = true)
    (hcongr : ∀ u u' : User, u'.id = u.id → u'.name = u.name → k (some u') = k (some u))
    (h : ∀ u, db.getUser id = some u → Carries operate X db v (k (some u))) :
    Carries operate X db v (query (.getUser id) k) := by
  have hdb : operate (.getUser id) db = (.ok (db.getUser id), db) := rfl
  have hv : operate (.getUser id) v = (.ok (v.getUser id), v) := rfl
  cases hu : db.getUser id with
  | none =>
    rw [hu] at hdb
    exact carries_end hdb hnone
  | some u =>
    obtain ⟨u', hu', hid, hname⟩ := getUser_grown hrel hgrows hu
    rw [hu] at hdb
    rw [hu'] at hv
    exact carries_query hdb hv (hcongr u u' hid hname) (h u hu)

theorem carries_getChannelMember {uid chanId : Int32} {k : Option ChannelMember → Handler α}
    (hnone : (k none).ended = true) (h : ∀ m, Carries operate X db v (k (some m))) :
    Carries operate X db v (query (.getChannelMember uid chanId) k) := by
  have hdb : operate (.getChannelMember uid chanId) db = (.ok _, db) := rfl
  have hv : operate (.getChannelMember uid chanId) v = (.ok _, v) := rfl
  cases hm : db.getChannelMember uid chanId with
  | none =>
    rw [hm] at hdb
    exact carries_end hdb hnone
  | some m =>
    rw [hm] at hdb
    rw [getChannelMember_grown hrel hgrows hm] at hv
    exact carries_query hdb hv rfl (h m)

theorem carries_session {r : Readings} {token : Int32} {k : User → Handler α}
    (hcongr : ∀ u u' : User, u'.id = u.id → u'.name = u.name → k u' = k u)
    (hsession : ∀ s, db.getSessionKey token = some s → SessionLive s.validUntil (r.now 0).now →
      v.getSessionKey token = some s ∨
        ∀ p', Advances operate db (asUserOf s k) p' → p'.ended = true ∨ X p')
    (h : ∀ u, Carries operate X db v (k u)) : Carries operate X db v (session r token k) := by
  have hdb : operate (.getSessionKey token) db = (.ok (db.getSessionKey token), db) := rfl
  have hv : operate (.getSessionKey token) v = (.ok (v.getSessionKey token), v) := rfl
  cases hs : db.getSessionKey token with
  | none =>
    rw [hs] at hdb
    exact carries_end hdb rfl
  | some s =>
    rw [hs] at hdb
    by_cases hlive : SessionLive s.validUntil (r.now 0).now
    · rcases hsession s hs hlive with hs' | hx
      · rw [hs'] at hv
        apply carries_query hdb hv rfl
        simp only [hlive, if_true]
        exact carries_getUser hrel hgrows rfl hcongr fun u _ => h u
      · apply carries_differs hdb
        simp only [hlive, if_true]
        exact hx
    · apply carries_end hdb
      simp only [hlive, if_false]
      rfl

theorem carries_search {key : Int32} {k : Handler α}
    (hkey : v.getSessionKey key = db.getSessionKey key) (hk : Carries operate X db v k)
    (r : Readings) (turns : ℕ) : Carries operate X db v (search key k r turns) := by
  induction turns generalizing r with
  | zero => exact .of_ended rfl
  | succ turns ih =>
    have hdb : operate (.getSessionKey key) db = (.ok (db.getSessionKey key), db) := rfl
    have hv : operate (.getSessionKey key) v = (.ok (v.getSessionKey key), v) := rfl
    rw [hkey] at hv
    apply carries_call hdb hv rfl
    cases db.getSessionKey key with
    | none => exact hk
    | some s =>
      show Carries operate X db v (ite _ _ _)
      by_cases hlive : SessionLive s.validUntil (r.now 0).now
      · simp only [hlive, if_true]
        have hdb' : operate (.getUser s.user) db = (.ok (db.getUser s.user), db) := rfl
        have hv' : operate (.getUser s.user) v = (.ok (v.getUser s.user), v) := rfl
        cases hu : db.getUser s.user with
        | none =>
          rw [hu] at hdb'
          apply Carries.last
          intro _
          rw [hdb']
          rfl
        | some u =>
          obtain ⟨u', hu', -, -⟩ := getUser_grown hrel hgrows hu
          rw [hu] at hdb'
          rw [hu'] at hv'
          exact carries_call hdb' hv' rfl (ih _)
      · simp only [hlive, if_false]
        exact hk

end Carries

section CarriesBody

variable {db v : Database} {X : Handler Response → Prop} (hrel : Relational v)
  (hgrows : db.Grows v)

include hrel hgrows

omit hrel hgrows in
theorem insertChannel_writes (db : Database) {name : Bytes} {ownerId id : Int32}
    {desc : Option Bytes} : operate (.insertChannel name ownerId desc) db ≠ (.ok id, db) := by
  intro h
  simp only [operate, perform] at h
  split at h
  · rename_i hins
    obtain ⟨-, -, rfl⟩ := Database.insertChannel_eq_ok hins
    have hchannels := congrArg (fun x : _ × Database => x.2.channels.length) h
    simp at hchannels
  · cases h

theorem carries_invite {q : InviteUserRequest} {c : Channel}
    (hjoined : ∀ w, db.getUser q.uid = some w → db.membershipsOf q.chanId q.uid = [] →
      v.membershipsOf q.chanId q.uid = [] ∨ X (joinScript { user := w.id, channel := c.id })) :
    Carries operate X db v (inviteScript c q) := by
  apply carries_getUser hrel hgrows rfl
  · rintro ⟨id, name, pass⟩ ⟨id', name', pass'⟩ hid -
    cases hid
    rfl
  · intro w hw
    have hdb : operate (.membershipsOf q.chanId q.uid) db = (.ok _, db) := rfl
    have hv : operate (.membershipsOf q.chanId q.uid) v = (.ok _, v) := rfl
    by_cases hfree : db.membershipsOf q.chanId q.uid = []
    · rw [hfree] at hdb
      rcases hjoined w hw hfree with hfree' | hx
      · rw [hfree'] at hv
        exact carries_query hdb hv rfl (carries_last fun _ _ => rfl)
      · apply carries_differs hdb
        intro p' hp'
        rcases advances_last (fun _ _ => rfl) hp' with rfl | hended
        · exact .inr hx
        · exact .inl hended
    · apply carries_end hdb
      simp only [hfree, ne_eq, not_false_eq_true, if_true]
      rfl

/-- What the user has found out about users, channels and memberships still holds. -/
theorem carries_body {r : Readings} {u : User} {req : Request}
    (hmembers : ∀ q, req = .channelDetails q → u.id ∈ db.membersOf q.chanId →
      v.membersOf q.chanId = db.membersOf q.chanId ∨ X (detailsScript q (db.membersOf q.chanId)))
    (hjoined : ∀ q c w, req = .inviteUser q → db.getChannel q.chanId = some c →
      db.getUser q.uid = some w → db.membershipsOf q.chanId q.uid = [] →
        v.membershipsOf q.chanId q.uid = [] ∨ X (joinScript { user := w.id, channel := c.id })) :
    Carries operate X db v (body r u req) := by
  cases req with
  | login _ | newUser _ => exact .of_ended rfl
  | logout _ | channelList _ | changePass _ => exact carries_last fun _ _ => rfl
  | channelMsg _ | sendMsg _ =>
    apply carries_getChannelMember hrel hgrows rfl
    exact fun _ => carries_last fun _ _ => rfl
  | channelDetails q =>
    have hdb : operate (.membersOf q.chanId) db = (.ok (db.membersOf q.chanId), db) := rfl
    have hv : operate (.membersOf q.chanId) v = (.ok (v.membersOf q.chanId), v) := rfl
    by_cases hmem : u.id ∈ db.membersOf q.chanId
    · rcases hmembers q rfl hmem with hsame | hx
      · rw [hsame] at hv
        apply carries_query hdb hv rfl
        simp only [hmem, if_true]
        exact carries_last fun c _ => by cases c <;> rfl
      · apply carries_differs hdb
        intro p' hp'
        simp only [hmem, if_true] at hp'
        rcases advances_last (fun c _ => by cases c <;> rfl) hp' with rfl | hended
        · exact .inr hx
        · exact .inl hended
    · apply carries_end hdb
      simp only [hmem, if_false]
      rfl
  | newChannel q =>
    apply carries_last
    intro id hid
    exact absurd hid (insertChannel_writes db)
  | userDetails q =>
    apply carries_getUser hrel hgrows rfl
    · rintro ⟨id, name, pass⟩ ⟨id', name', pass'⟩ hid hname
      cases hid
      cases hname
      rfl
    · exact fun _ _ => carries_last fun _ _ => rfl
  | inviteUser q =>
    have hdb : operate (.getChannel q.chanId) db = (.ok _, db) := rfl
    have hv : operate (.getChannel q.chanId) v = (.ok _, v) := rfl
    cases hc : db.getChannel q.chanId with
    | none =>
      rw [hc] at hdb
      exact carries_end hdb rfl
    | some c =>
      rw [hc] at hdb
      rw [getChannel_grown hrel hgrows hc] at hv
      apply carries_query hdb hv rfl
      by_cases howner : c.ownerId = u.id
      · simp only [howner, ne_eq, not_true_eq_false, if_false]
        exact carries_invite hrel hgrows fun w => hjoined q c w rfl hc
      · simp only [howner, ne_eq, not_false_eq_true, if_true]
        exact .of_ended rfl

theorem carries_login {r : Readings} {turns : ℕ} {l : LoginRequest}
    (h : ∀ u others, db.usersNamed l.user = u :: others → u.pass = l.pass →
      (∃ u' others', v.usersNamed l.user = u' :: others' ∧ u'.id = u.id ∧ u'.pass = u.pass) ∧
          v.getSessionKey (r.rand 0) = db.getSessionKey (r.rand 0) ∨
        ∀ p', Advances operate db
            (search (r.rand 0) (issueScript (r.sessionOf u)) r.afterRand turns) p' →
          p'.ended = true ∨ X p') :
    Carries operate X db v (loginScript r turns l) := by
  have hdb : operate (.usersNamed l.user) db = (.ok (db.usersNamed l.user), db) := rfl
  have hv : operate (.usersNamed l.user) v = (.ok (v.usersNamed l.user), v) := rfl
  cases hnamed : db.usersNamed l.user with
  | nil =>
    rw [hnamed] at hdb
    exact carries_end hdb rfl
  | cons u others =>
    rw [hnamed] at hdb
    by_cases hpass : u.pass = l.pass
    · rcases h u others hnamed hpass with ⟨⟨u', others', hnamed', hid, hpass'⟩, hkey⟩ | hx
      · rw [hnamed'] at hv
        apply carries_query hdb hv
        · simp only [Readings.sessionOf, hid, hpass']
        · simp only [hpass, ne_eq, not_true_eq_false, if_false]
          exact carries_search hrel hgrows hkey (carries_last fun _ _ => rfl) _ _
      · apply carries_differs hdb
        simp only [hpass, ne_eq, not_true_eq_false, if_false]
        exact hx
    · apply carries_end hdb
      simp only [hpass, ne_eq, not_false_eq_true, if_true]
      rfl

/-- A request carries over a change if its token is still valid, the members it lists
are the same, its invitation is still open and its password is still right. -/
theorem carries_request {r : Readings} {turns : ℕ} {req : Request}
    (hsession : ∀ token s, req.token = some token → db.getSessionKey token = some s →
      SessionLive s.validUntil (r.now 0).now → v.getSessionKey token = some s ∨
        ∀ p', Advances operate db (asUserOf s fun u => body r.afterNow u req) p' →
          p'.ended = true ∨ X p')
    (hmembers : ∀ q (u : User), req = .channelDetails q → u.id ∈ db.membersOf q.chanId →
      v.membersOf q.chanId = db.membersOf q.chanId ∨ X (detailsScript q (db.membersOf q.chanId)))
    (hjoined : ∀ q c w, req = .inviteUser q → db.getChannel q.chanId = some c →
      db.getUser q.uid = some w → db.membershipsOf q.chanId q.uid = [] →
        v.membershipsOf q.chanId q.uid = [] ∨ X (joinScript { user := w.id, channel := c.id }))
    (hlogin : ∀ l u others, req = .login l → db.usersNamed l.user = u :: others →
      u.pass = l.pass →
        (∃ u' others', v.usersNamed l.user = u' :: others' ∧ u'.id = u.id ∧ u'.pass = u.pass) ∧
            v.getSessionKey (r.rand 0) = db.getSessionKey (r.rand 0) ∨
          ∀ p', Advances operate db
              (search (r.rand 0) (issueScript (r.sessionOf u)) r.afterRand turns) p' →
            p'.ended = true ∨ X p') :
    Carries operate X db v (answer r (respond turns req)) := by
  cases htoken : req.token with
  | some token =>
    rw [answer_token htoken]
    apply carries_session hrel hgrows
    · exact fun u u' hid hname => body_congr hid hname _ _
    · exact fun s => hsession token s htoken
    · exact fun u => carries_body hrel hgrows (fun q => hmembers q u) hjoined
  | none =>
    cases req with
    | login l =>
      rw [answer_login]
      exact carries_login hrel hgrows fun u others => hlogin l u others rfl
    | newUser q =>
      rw [answer_newUser]
      exact carries_last fun _ _ => rfl
    | _ => cases htoken

/-- A change that leaves the memberships alone. -/
theorem carries_of_members {r : Readings} {turns : ℕ} {req : Request}
    (h : v.channelMembers = db.channelMembers)
    (hsession : ∀ token s, req.token = some token → db.getSessionKey token = some s →
      SessionLive s.validUntil (r.now 0).now → v.getSessionKey token = some s ∨
        ∀ p', Advances operate db (asUserOf s fun u => body r.afterNow u req) p' →
          p'.ended = true ∨ X p')
    (hlogin : ∀ l u others, req = .login l → db.usersNamed l.user = u :: others →
      u.pass = l.pass →
        (∃ u' others', v.usersNamed l.user = u' :: others' ∧ u'.id = u.id ∧ u'.pass = u.pass) ∧
            v.getSessionKey (r.rand 0) = db.getSessionKey (r.rand 0) ∨
          ∀ p', Advances operate db
              (search (r.rand 0) (issueScript (r.sessionOf u)) r.afterRand turns) p' →
            p'.ended = true ∨ X p') :
    Carries operate X db v (answer r (respond turns req)) := by
  apply carries_request hrel hgrows hsession
  · intro q u _ _
    rw [Database.membersOf, h]
    exact .inl rfl
  · intro q c w _ _ _ hnone
    rw [Database.membershipsOf, h]
    exact .inl hnone
  · exact hlogin

end CarriesBody
end Dotchat
