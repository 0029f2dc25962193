import Dotchat.Overtaking

/-!
Two requests of which one has overtaken the other come to the same as in one of
the two orders, or they clash: two logins with one token, two logouts of one
user, two invitations of one user to one channel. There is a section for each
kind of request that overtakes.
-/
namespace Dotchat

open Db Handlers Program

/-- Two requests, answered ok, of which the second one of an order would have been
refused, or would still be looking for a free key: the session of the first login
is live, unless its expiry has overflown. The readings are those of the first
request. -/
inductive Clash (db : Database) (r : Readings) : Request → Response → Request → Response → Prop
  | logins {l l' : LoginRequest} (t : TokenResponse) (hlive : (r.nowUncut 0).Fits) :
      Clash db r (.login l) (.token t) (.login l') (.token t)
  | logouts {q q' : LogoutRequest} {s s' : SessionKey} (hs : db.getSessionKey q.token = some s)
      (hs' : db.getSessionKey q'.token = some s') (huser : s.user = s'.user) :
      Clash db r (.logout q) (.okay {}) (.logout q') (.okay {})
  | invitations {q q' : InviteUserRequest} (hchan : q.chanId = q'.chanId) (huid : q.uid = q'.uid) :
      Clash db r (.inviteUser q) (.okay {}) (.inviteUser q') (.okay {})
  | owner {q : NewChannelRequest} {q' : InviteUserRequest} {s : SessionKey}
      (hs : db.getSessionKey q.token = some s) (huid : q'.uid = s.user) :
      Clash db r (.newChannel q) (.id { id := q'.chanId }) (.inviteUser q') (.okay {})

/-- One of the two orders. -/
def SomeOrder {α β : Type} (p : Handler α) (q : Handler β) (db : Database) (o : Outcome Exc α)
    (o' : Outcome Exc β) (db' : Database) : Prop :=
  Serial operate p q db o o' db' ∨ Serial operate q p db o' o db'

section Independence

/-- The change leaves the users and the channels alone. -/
structure SparesNames (f : Database → Database) : Prop where
  users : ∀ db, (f db).users = db.users
  channels : ∀ db, (f db).channels = db.channels
  setUsers : ∀ (db : Database) us, f { db with users := us } = { f db with users := us }
  setChannels : ∀ (db : Database) cs, f { db with channels := cs } = { f db with channels := cs }

/-- The calls that write the users or the channels. -/
def Call.ofNames : Call → Bool
  | .insertUser _ _ | .insertChannel _ _ _ | .updateUser _ => true
  | _ => false

theorem SparesNames.operate {f : Database → Database} (hf : SparesNames f) {c : Call}
    (hc : c.ofNames = true) (db : Database) :
    operate c (f db) = ((operate c db).1, f (operate c db).2) := by
  cases c with
  | insertUser name pass =>
    have hconflict : (f db).UserConflict name ↔ db.UserConflict name := by
      simp only [Database.UserConflict, Database.nextUserId, hf.users]
    by_cases h : db.UserConflict name
    · simp only [Dotchat.operate, perform, Database.insertUser, if_pos h,
        if_pos (hconflict.mpr h)]
    · simp only [Dotchat.operate, perform, Database.insertUser, if_neg h,
        if_neg (hconflict.not.mpr h), Database.nextUserId, hf.users]
      exact Prod.ext rfl (hf.setUsers db _).symm
  | insertChannel name ownerId desc =>
    have hconflict : (f db).ChannelConflict name ↔ db.ChannelConflict name := by
      simp only [Database.ChannelConflict, Database.nextChannelId, hf.channels]
    by_cases h : db.ChannelConflict name
    · simp only [Dotchat.operate, perform, Database.insertChannel, if_pos h,
        if_pos (hconflict.mpr h)]
    · simp only [Dotchat.operate, perform, Database.insertChannel, if_neg h,
        if_neg (hconflict.not.mpr h), Database.nextChannelId, hf.channels]
      exact Prod.ext rfl (hf.setChannels db _).symm
  | updateUser row =>
    by_cases h : ∃ u ∈ db.users, u.id ≠ row.id ∧ u.name = row.name
    · simp only [Dotchat.operate, perform, Database.updateUser, hf.users, if_pos h]
    · simp only [Dotchat.operate, perform, Database.updateUser, hf.users, if_neg h]
      exact Prod.ext rfl (hf.setUsers db _).symm
  | _ => cases hc

/-- The calls that read or write the sessions. -/
def Call.ofSessions : Call → Bool
  | .getSessionKey _ | .replaceSessionKey _ | .removeSessionKeysOf _ => true
  | _ => false

/-- The database with these sessions. -/
def Database.withSessions (rows : List SessionKey) (db : Database) : Database :=
  { db with sessionKeys := rows }

theorem operate_withSessions (rows : List SessionKey) {c : Call} (hc : c.ofSessions = false)
    (db : Database) : operate c (db.withSessions rows) =
      ((operate c db).1, (operate c db).2.withSessions rows) := by
  have hf : SparesNames (Database.withSessions rows) :=
    ⟨fun _ => rfl, fun _ => rfl, fun _ _ => rfl, fun _ _ => rfl⟩
  cases c with
  | getSessionKey | replaceSessionKey | removeSessionKeysOf => cases hc
  | insertUser | insertChannel | updateUser => exact hf.operate rfl db
  | _ => rfl

theorem ignores_query {α : Type} {f : Database → Database} {c : Call} {k : c.Answer → Handler α}
    (hc : ∀ db, operate c (f db) = ((operate c db).1, f (operate c db).2))
    (hk : ∀ a, Ignores operate f (k a)) : Ignores operate f (query c k) := by
  refine ⟨hc, ?_⟩
  intro a
  cases a with
  | ok a => exact hk a
  | error e => trivial

/-- Behind the check of its token a request has nothing to do with the sessions,
unless it is a logout. -/
theorem body_ignores_sessions (rows : List SessionKey) (r : Readings) (u : User) {req : Request}
    (hreq : ∀ q, req ≠ .logout q) :
    Ignores operate (Database.withSessions rows) (body r u req) := by
  have hcall : ∀ {c : Call}, c.ofSessions = false → ∀ db,
      operate c (Database.withSessions rows db) =
        ((operate c db).1, (operate c db).2.withSessions rows) :=
    fun hc db => operate_withSessions rows hc db
  cases req with
  | login _ | newUser _ => trivial
  | logout q => exact absurd rfl (hreq q)
  | channelList _ | changePass _ => exact ignores_query (hcall rfl) fun _ => trivial
  | newChannel _ =>
    apply ignores_query (hcall rfl)
    exact fun _ => ignores_query (hcall rfl) fun _ => trivial
  | channelMsg q =>
    apply ignores_query (hcall rfl)
    intro m
    show Ignores _ _ (ite _ _ _)
    split
    · exact ignores_query (hcall rfl) fun _ => trivial
    · trivial
  | sendMsg q =>
    apply ignores_query (hcall rfl)
    intro m
    show Ignores _ _ (ite _ _ _)
    split
    · exact ignores_query (hcall rfl) fun _ => trivial
    · trivial
  | channelDetails q =>
    apply ignores_query (hcall rfl)
    intro members
    show Ignores _ _ (ite _ _ _)
    split
    · apply ignores_query (hcall rfl)
      intro c
      cases c <;> trivial
    · trivial
  | userDetails q =>
    apply ignores_query (hcall rfl)
    intro v
    cases v with
    | none => trivial
    | some v => exact ignores_query (hcall rfl) fun _ => trivial
  | inviteUser q =>
    apply ignores_query (hcall rfl)
    intro c
    cases c with
    | none => trivial
    | some c =>
      show Ignores _ _ (ite _ _ _)
      split
      · trivial
      · apply ignores_query (hcall rfl)
        intro v
        cases v with
        | none => trivial
        | some v =>
          apply ignores_query (hcall rfl)
          intro joined
          show Ignores _ _ (ite _ _ _)
          split
          · trivial
          · exact ignores_query (hcall rfl) fun _ => trivial

end Independence

section Search

variable {db v v' : Database} {key : Int32} {k p' : Handler Response}

/-- Either both runs are still searching, or both go on with `k`. -/
def Alike (k p : Handler Response) (v v' : Database) : Prop :=
  p.run operate v = (.running, v) ∧ p.run operate v' = (.running, v') ∨
    p.run operate v = k.run operate v ∧ p.run operate v' = k.run operate v'

theorem run_call {α : Type} {c : Call} {next : Except Exc c.Answer → Handler α}
    {a : Except Exc c.Answer} (h : operate c v = (a, v')) :
    (Program.call c next).run operate v = (next a).run operate v' := by
  show (next (operate c v).1).run operate (operate c v).2 = _
  rw [h]

theorem alike_call {c : Call} {next : Except Exc c.Answer → Handler Response} {a a' : c.Answer}
    (hv : operate c v = (.ok a, v)) (hv' : operate c v' = (.ok a', v'))
    (hsame : next (.ok a') = next (.ok a)) (h : Alike k (next (.ok a)) v v') :
    Alike k (.call c next) v v' := by
  unfold Alike
  rw [run_call hv, run_call hv', hsame]
  exact h

/-- The user of a session is there. -/
theorem getUser_of_session (hv : Relational v) {s : SessionKey} (hs : s ∈ v.sessionKeys) :
    ∃ u, v.getUser s.user = some u := by
  obtain ⟨u, hu, hid⟩ := hv.sessionUser s hs
  exact ⟨u, (Table.lookup_eq_some hv.userIds).mpr ⟨hu, hid⟩⟩

/-- The search depends on the session under the key only. -/
theorem search_alike (hv : Relational v) (hv' : Relational v')
    (hkey : v'.getSessionKey key = v.getSessionKey key) (r : Readings) (turns : ℕ) :
    Alike k (search key k r turns) v v' := by
  induction turns generalizing r with
  | zero => exact .inl ⟨rfl, rfl⟩
  | succ turns ih =>
    have hread : operate (.getSessionKey key) v = (.ok (v.getSessionKey key), v) := rfl
    have hread' : operate (.getSessionKey key) v' = (.ok (v'.getSessionKey key), v') := rfl
    rw [hkey] at hread'
    apply alike_call hread hread' rfl
    cases hs : v.getSessionKey key with
    | none => exact .inr ⟨rfl, rfl⟩
    | some s =>
      show Alike k (ite _ _ _) v v'
      by_cases hlive : SessionLive s.validUntil (r.now 0).now
      · simp only [hlive, if_true]
        obtain ⟨u, hu⟩ := getUser_of_session hv (Table.mem_of_lookup hs).1
        obtain ⟨u', hu'⟩ := getUser_of_session hv' (Table.mem_of_lookup (hkey.trans hs)).1
        have huser : operate (.getUser s.user) v = (.ok (v.getUser s.user), v) := rfl
        have huser' : operate (.getUser s.user) v' = (.ok (v'.getUser s.user), v') := rfl
        rw [hu] at huser
        rw [hu'] at huser'
        exact alike_call huser huser' rfl (ih _)
      · simp only [hlive, if_false]
        exact .inr ⟨rfl, rfl⟩

/-- A live key never becomes free. -/
theorem search_stuck (hv : Relational v) {s : SessionKey} (hs : v.getSessionKey key = some s)
    (hlive : ∀ n, SessionLive s.validUntil n) (r : Readings) (turns : ℕ) :
    (search key k r turns).run operate v = (.running, v) := by
  induction turns generalizing r with
  | zero => rfl
  | succ turns ih =>
    obtain ⟨u, hu⟩ := getUser_of_session hv (Table.mem_of_lookup hs).1
    have hread : operate (.getSessionKey key) v = (.ok (v.getSessionKey key), v) := rfl
    have huser : operate (.getUser s.user) v = (.ok (v.getUser s.user), v) := rfl
    rw [hs] at hread
    rw [hu] at huser
    refine (run_call hread).trans ?_
    simp only [hlive, if_true]
    exact (run_call huser).trans (ih _)

/-- Wherever the search is, nothing but the session under the key matters any more. -/
theorem advances_alike (hdb : Relational db) (hv : Relational v) (hv' : Relational v')
    (hgrows : db.Grows v) (hgrows' : db.Grows v')
    (hkey : v'.getSessionKey key = v.getSessionKey key) {row : SessionKey} {r : Readings}
    {turns : ℕ} (hp : Advances operate db (search key (issueScript row) r turns) p') :
    p'.ended = true ∨ Alike (issueScript row) p' v v' := by
  have hissue : ∀ {p'}, Advances operate db (issueScript row) p' →
      p'.ended = true ∨ Alike (issueScript row) p' v v' := by
    intro p' hp'
    rcases advances_last (fun _ _ => rfl) hp' with rfl | hended
    · exact .inr (.inr ⟨rfl, rfl⟩)
    · exact .inl hended
  induction turns generalizing r with
  | zero =>
    rw [hp.of_done]
    exact .inl rfl
  | succ turns ih =>
    rcases hp.of_call with rfl | ⟨-, hp⟩
    · exact .inr (search_alike hv hv' hkey r (turns + 1))
    · cases hs : db.getSessionKey key with
      | none =>
        simp only [operate, perform, hs] at hp
        exact hissue hp
      | some s =>
        simp only [operate, perform, hs] at hp
        split at hp
        · obtain ⟨u, hu⟩ := getUser_of_session hdb (Table.mem_of_lookup hs).1
          obtain ⟨u₁, hu₁, -, -⟩ := getUser_grown hv hgrows hu
          obtain ⟨u₂, hu₂, -, -⟩ := getUser_grown hv' hgrows' hu
          rcases hp.of_call with rfl | ⟨-, hp⟩
          · have huser : operate (.getUser s.user) v = (.ok (v.getUser s.user), v) := rfl
            have huser' : operate (.getUser s.user) v' = (.ok (v'.getUser s.user), v') := rfl
            rw [hu₁] at huser
            rw [hu₂] at huser'
            exact .inr (alike_call huser huser' rfl (search_alike hv hv' hkey _ _))
          · simp only [operate, perform, hu] at hp
            exact ih hp
        · exact hissue hp

theorem advances_search (hdb : Relational db) (hv : Relational v) (hgrows : db.Grows v)
    {row : SessionKey} {r : Readings} {turns : ℕ}
    (hp : Advances operate db (search key (issueScript row) r turns) p') :
    p'.ended = true ∨ turns ≠ 0 ∧ Alike (issueScript row) p' v v := by
  by_cases hturns : turns = 0
  · rw [hturns] at hp
    rw [hp.of_done]
    exact .inl rfl
  · refine (advances_alike hdb hv hv hgrows hgrows rfl hp).imp_right ?_
    exact fun halike => ⟨hturns, halike⟩

end Search

section Behind

variable {α : Type} {db v db' : Database} {p : Handler α} {q' : Handler Response} {r : Readings}
  {turns : ℕ} {req : Request} {o : Outcome Exc α} {o' : Outcome Exc Response}

theorem someOrder_of_carries {X : Handler Response → Prop} {q : Handler Response}
    (hq : Advances operate db q q') (hp : p.run operate db = (o, v))
    (hrest : q'.run operate v = (o', db')) (hcarries : Carries operate X db v q)
    (hx : X q' → SomeOrder p q db o o' db') : SomeOrder p q db o o' db' := by
  rcases hq.serial_or hcarries hp hrest with hlate | hearly | hspecial
  · exact .inl hlate
  · exact .inr hearly
  · exact hx hspecial

theorem run_login {l : LoginRequest} {x : User} {others : List User}
    (hnamed : v.usersNamed l.user = x :: others) (hpass : x.pass = l.pass) :
    (answer r (respond turns (.login l))).run operate v =
      (search (r.rand 0) (issueScript (r.sessionOf x)) r.afterRand turns).run operate v := by
  have hread : operate (.usersNamed l.user) v = (.ok (v.usersNamed l.user), v) := rfl
  rw [hnamed] at hread
  rw [answer_login, loginScript, query, run_call hread]
  simp only [hpass, ne_eq, not_true_eq_false, if_false]

/-- What a login has done that has ended. -/
theorem run_login_ended (hv : Relational v) {l : LoginRequest} {x : User} {others : List User}
    (hnamed : v.usersNamed l.user = x :: others) (hpass : x.pass = l.pass)
    (hrun : (answer r (respond turns (.login l))).run operate v = (o', db'))
    (hrunning : o' ≠ .running) :
    o' = .returned (.token { token := r.rand 0 }) ∧
      db' = v.replaceSessionKey (r.sessionOf x) := by
  rw [run_login hnamed hpass] at hrun
  rcases search_alike (k := issueScript (r.sessionOf x)) hv hv rfl r.afterRand turns with
    ⟨hstuck, -⟩ | ⟨hissue, -⟩
  · rw [hrun] at hstuck
    cases hstuck
    exact absurd rfl hrunning
  · rw [hrun] at hissue
    cases hissue
    exact ⟨rfl, rfl⟩

/-- A login that finds its key free behind the change begins there. -/
theorem serial_behind_free {l : LoginRequest} {x : User} {others : List User}
    (hp : p.run operate db = (o, v)) (hnamed : v.usersNamed l.user = x :: others)
    (hpass : x.pass = l.pass) (hturns : turns ≠ 0)
    (hfree : ∀ s, v.getSessionKey (r.rand 0) = some s → ∀ n, ¬ SessionLive s.validUntil n)
    (hrest : q'.run operate v = (o', db')) (halike : Alike (issueScript (r.sessionOf x)) q' v v)
    (hrunning : o' ≠ .running) :
    Serial operate p (answer r (respond turns (.login l))) db o o' db' := by
  obtain ⟨n, rfl⟩ := Nat.exists_eq_succ_of_ne_zero hturns
  refine ⟨v, hp, ?_⟩
  have hissue : (search (r.rand 0) (issueScript (r.sessionOf x)) r.afterRand (n + 1)).run
      operate v = (issueScript (r.sessionOf x)).run operate v := by
    have hkey : operate (.getSessionKey (r.rand 0)) v =
        (.ok (v.getSessionKey (r.rand 0)), v) := rfl
    cases hs : v.getSessionKey (r.rand 0) with
    | none =>
      rw [hs] at hkey
      exact run_call hkey
    | some s =>
      rw [hs] at hkey
      refine (run_call hkey).trans ?_
      simp only [hfree s hs, if_false]
  rw [run_login hnamed hpass, hissue, ← hrest]
  rcases halike with ⟨hstuck, -⟩ | ⟨halike, -⟩
  · rw [hrest] at hstuck
    cases hstuck
    exact absurd rfl hrunning
  · exact halike.symm

/-- Behind a login that has found its key free. -/
theorem someOrder_behind_login (hdb : Sound db) (hrel : Relational v) (hgrows : db.Grows v)
    {row : SessionKey} (hv : v = db.replaceSessionKey row)
    (hfree : ∀ s, db.getSessionKey row.key = some s → ∀ n, ¬ SessionLive s.validUntil n)
    (hq : Advances operate db (answer r (respond turns req)) q')
    (hp : p.run operate db = (o, v)) (hrest : q'.run operate v = (o', db'))
    (hrunning : o' ≠ .running)
    (hclash : ∀ l, req = .login l → (∃ n, SessionLive row.validUntil n) →
      o' ≠ .returned (.token { token := row.key })) :
    SomeOrder p (answer r (respond turns req)) db o o' db' := by
  have hother : ∀ key, row.key ≠ key → v.getSessionKey key = db.getSessionKey key := by
    intro key hne
    rw [hv]
    exact Table.lookup_replace_of_ne hne
  apply someOrder_of_carries (X := fun q' => ∃ l u others, req = .login l ∧
    v.usersNamed l.user = u :: others ∧ u.pass = l.pass ∧ r.rand 0 = row.key ∧ turns ≠ 0 ∧
      Alike (issueScript (r.sessionOf u)) q' v v) hq hp hrest
  · apply carries_of_members hrel hgrows
    · rw [hv]
      rfl
    · intro token s _ hs hlive
      refine .inl ((hother token ?_).trans hs)
      rintro rfl
      exact hfree s hs _ hlive
    · intro l u others hl hnamed hpass
      have hnamed' : v.usersNamed l.user = u :: others := by
        rw [hv]
        exact hnamed
      by_cases hkey : row.key = r.rand 0
      · right
        intro q' hq'
        refine (advances_search hdb.relational hrel hgrows hq').imp_right ?_
        exact fun h => ⟨l, u, others, hl, hnamed', hpass, hkey.symm, h⟩
      · exact .inl ⟨⟨u, others, hnamed', rfl, rfl⟩, hother _ hkey⟩
  · rintro ⟨l, u, others, rfl, hnamed, hpass, hkey, hturns, halike⟩
    by_cases hlive : ∃ n, SessionLive row.validUntil n
    · rcases halike with ⟨hstuck, -⟩ | ⟨hissue, -⟩
      · rw [hrest] at hstuck
        cases hstuck
        exact absurd rfl hrunning
      · rw [hrest] at hissue
        have ho : o' = .returned (.token { token := r.rand 0 }) := congrArg Prod.fst hissue
        rw [hkey] at ho
        exact absurd ho (hclash l rfl hlive)
    · refine .inl (serial_behind_free hp hnamed hpass hturns ?_ hrest halike hrunning)
      intro s hs n hn
      have hrow : v.getSessionKey row.key = some row := by
        rw [hv]
        exact Table.lookup_replace_self ..
      rw [hkey, hrow] at hs
      cases hs
      exact hlive ⟨n, hn⟩

/-- An accepted token leads to the rest of the request. -/
theorem run_session {k : User → Handler α} {token : Int32} {s : SessionKey} {u : User}
    (hs : v.getSessionKey token = some s) (hlive : SessionLive s.validUntil (r.now 0).now)
    (hu : v.getUser s.user = some u) :
    (session r token k).run operate v = (k u).run operate v := by
  have hread : operate (.getSessionKey token) v = (.ok (v.getSessionKey token), v) := rfl
  have huser : operate (.getUser s.user) v = (.ok (v.getUser s.user), v) := rfl
  rw [hs] at hread
  rw [hu] at huser
  refine (run_call hread).trans ?_
  simp only [hlive, if_true]
  exact run_call huser

theorem run_logout {q : LogoutRequest} {s : SessionKey} {u : User}
    (hs : v.getSessionKey q.token = some s) (hlive : SessionLive s.validUntil (r.now 0).now)
    (hu : v.getUser s.user = some u) : (answer r (respond turns (.logout q))).run operate v =
      (.returned (.okay {}), v.removeSessionKeysOf u.id) := by
  rw [answer_token rfl, run_session hs hlive hu]
  rfl

/-- Only login and logout write sessions. -/
theorem Written.sessionKeys {env : Env} {w : World} {o : Outcome Exc Response} {db : Database}
    (h : Written env w req o db) (hlogin : ∀ q, req ≠ .login q) (hlogout : ∀ q, req ≠ .logout q) :
    db.sessionKeys = w.db.sessionKeys := by
  cases h with
  | session _ _ _ _ _ => exact absurd rfl (hlogin _)
  | noSessions _ => exact absurd rfl (hlogout _)
  | _ => rfl

theorem getSessionKey_removed (hdb : Sound db) (user key : Int32) :
    (db.removeSessionKeysOf user).getSessionKey key =
      (db.getSessionKey key).filter fun s => s.user ≠ user :=
  Table.lookup_filter hdb.sessionKeys _

section Logout

variable {rA : Readings} {turnsA : ℕ} {a : LogoutRequest} {s : SessionKey} {u : User}
  {oA : Outcome Exc Response}

/-- A request that is behind the check of its token goes before the logout. -/
theorem serial_before_logout (hdb : Sound db) (hs : db.getSessionKey a.token = some s)
    (hlive : SessionLive s.validUntil (rA.now 0).now) (hu : db.getUser s.user = some u)
    (hv : v = db.removeSessionKeysOf u.id) (hlogin : ∀ q, req ≠ .login q)
    (hlogout : ∀ q, req ≠ .logout q)
    (hq : Advances operate db (answer r (respond turns req)) q')
    (hrest : q'.run operate v = (o', db'))
    (hignores : Ignores operate (Database.withSessions v.sessionKeys) q') :
    Serial operate (answer r (respond turns req)) (answer rA (respond turnsA (.logout a))) db o'
      (.returned (.okay {})) db' := by
  rcases hrun : (answer r (respond turns req)).run operate db with ⟨o₁, d⟩
  obtain ⟨env, hwritten⟩ := written_of_answer hrun
  obtain ⟨hrel, hgrows⟩ := written_keeps hdb.relational hwritten
  have hsessions : d.sessionKeys = db.sessionKeys := hwritten.sessionKeys hlogin hlogout
  have hboth : (o', db') = (o₁, d.withSessions v.sessionKeys) := by
    have hv' : v = db.withSessions v.sessionKeys := by
      rw [hv]
      rfl
    rw [← hrest, hv', hignores.run, ← hq.run, hrun]
    rfl
  cases hboth
  refine ⟨d, hrun, ?_⟩
  obtain ⟨u', hu', hid, -⟩ := getUser_grown hrel hgrows hu
  have hs' : d.getSessionKey a.token = some s := by
    rw [← hs, Database.getSessionKey, hsessions]
    rfl
  rw [run_logout hs' hlive hu', hid, hv]
  congr 1
  simp only [Database.removeSessionKeysOf, hsessions]
  rfl

/-- A logout that has found its session is answered ok. -/
theorem advances_logout (hrel : Relational v) (hgrows : db.Grows v) {s' : SessionKey}
    (hdb : Relational db) (hs' : s' ∈ db.sessionKeys) {k : LogoutRequest}
    (hq : Advances operate db (asUserOf s' fun u => body r u (.logout k)) q') :
    q'.ended = true ∨ (q'.run operate v).1 = .returned (.okay {}) := by
  obtain ⟨u', hu'⟩ := getUser_of_session hdb hs'
  obtain ⟨u'', hu'', -, -⟩ := getUser_grown hrel hgrows hu'
  rcases hq.of_call with rfl | ⟨-, hq⟩
  · have huser : operate (.getUser s'.user) v = (.ok (v.getUser s'.user), v) := rfl
    rw [hu''] at huser
    exact .inr ((congrArg Prod.fst (run_call huser)).trans rfl)
  · simp only [operate, perform, hu'] at hq
    rcases advances_last (fun _ _ => rfl) hq with rfl | hended
    · exact .inr rfl
    · exact .inl hended

/-- Another request that has found its session does not look at it again. -/
theorem advances_ignores (rows : List SessionKey) {s' : SessionKey}
    (hreq : ∀ k, req ≠ .logout k)
    (hq : Advances operate db (asUserOf s' fun u => body r u req) q') :
    Ignores operate (Database.withSessions rows) q' := by
  refine Ignores.advances ?_ hq
  refine ignores_query (operate_withSessions _ rfl) ?_
  intro x
  cases x with
  | none => trivial
  | some x => exact body_ignores_sessions rows r x hreq

/-- Behind a logout. -/
theorem someOrder_behind_logout (hdb : Sound db) (hrel : Relational v) (hgrows : db.Grows v)
    (hs : db.getSessionKey a.token = some s) (hlive : SessionLive s.validUntil (rA.now 0).now)
    (hu : db.getUser s.user = some u) (hv : v = db.removeSessionKeysOf u.id)
    (hq : Advances operate db (answer r (respond turns req)) q')
    (hp : (answer rA (respond turnsA (.logout a))).run operate db = (.returned (.okay {}), v))
    (hrest : q'.run operate v = (o', db')) (hrunning : o' ≠ .running)
    (hclash : ∀ k s', req = .logout k → db.getSessionKey k.token = some s' → s.user = s'.user →
      o' ≠ .returned (.okay {})) :
    SomeOrder (answer rA (respond turnsA (.logout a))) (answer r (respond turns req)) db
      (.returned (.okay {})) o' db' := by
  have hid : u.id = s.user := (Table.mem_of_lookup hu).2
  have hkept : ∀ {key s'}, db.getSessionKey key = some s' → s.user ≠ s'.user →
      v.getSessionKey key = some s' := by
    intro key s' hs' hne
    rw [hv, getSessionKey_removed hdb, hs', hid]
    simp [Ne.symm hne]
  apply someOrder_of_carries (X := fun q' =>
    (∃ token, req.token = some token ∧ (∀ k, req ≠ .logout k) ∧
      Ignores operate (Database.withSessions v.sessionKeys) q') ∨
    (∃ k s', req = .logout k ∧ db.getSessionKey k.token = some s' ∧ s.user = s'.user ∧
      (q'.run operate v).1 = .returned (.okay {})) ∨
    ∃ l x others, req = .login l ∧ v.usersNamed l.user = x :: others ∧ x.pass = l.pass ∧
      v.getSessionKey (r.rand 0) = none ∧ turns ≠ 0 ∧
        Alike (issueScript (r.sessionOf x)) q' v v) hq hp hrest
  · apply carries_of_members hrel hgrows
    · rw [hv]
      rfl
    · intro token s' htoken hs' hlive'
      by_cases hsame : s.user = s'.user
      · right
        intro q' hq'
        by_cases hlogout : ∃ k, req = .logout k
        · obtain ⟨k, rfl⟩ := hlogout
          cases htoken
          have hmem := (Table.mem_of_lookup hs').1
          refine (advances_logout hrel hgrows hdb.relational hmem hq').imp_right ?_
          exact fun h => .inr (.inl ⟨k, s', rfl, hs', hsame, h⟩)
        · have hother : ∀ k, req ≠ .logout k := fun k hk => hlogout ⟨k, hk⟩
          exact .inr (.inl ⟨token, htoken, hother, advances_ignores _ hother hq'⟩)
      · exact .inl (hkept hs' hsame)
    · intro l x others hl hnamed hpass
      have hnamed' : v.usersNamed l.user = x :: others := by
        rw [hv]
        exact hnamed
      cases hk : v.getSessionKey (r.rand 0) with
      | none =>
        right
        intro q' hq'
        refine (advances_search hdb.relational hrel hgrows hq').imp_right ?_
        exact fun h => .inr (.inr ⟨l, x, others, hl, hnamed', hpass, rfl, h⟩)
      | some s' =>
        refine .inl ⟨⟨x, others, hnamed', rfl, rfl⟩, ?_⟩
        rw [hv, getSessionKey_removed hdb] at hk
        exact (Option.filter_eq_some_iff.mp hk).1.symm
  · rintro (⟨token, htoken, hlogout, hignores⟩ | ⟨k, s', hk, hs', hsame, hokay⟩ |
      ⟨l, x, others, rfl, hnamed, hpass, hnone, hturns, halike⟩)
    · have hlogin : ∀ l, req ≠ .login l := by
        rintro l rfl
        cases htoken
      exact .inr (serial_before_logout hdb hs hlive hu hv hlogin hlogout hq hrest hignores)
    · rw [hrest] at hokay
      exact absurd hokay (hclash k s' hk hs' hsame)
    · refine .inl (serial_behind_free hp hnamed hpass hturns ?_ hrest halike hrunning)
      intro s' hs'
      rw [hnone] at hs'
      cases hs'

end Logout

/-- A new membership is seen only by those who ask for it. -/
theorem filter_replaceChannelMember {row : ChannelMember} {f : ChannelMember → Bool}
    (hrow : f row = false) (db : Database) :
    (db.replaceChannelMember row).channelMembers.filter f = db.channelMembers.filter f := by
  have hkey : ∀ m : ChannelMember, f m = true → m.key ≠ row.key := by
    rintro ⟨user, channel⟩ hm hkey
    cases row
    cases hkey
    rw [hrow] at hm
    cases hm
  simp only [Database.replaceChannelMember, Table.replace, List.filter_append, List.filter_filter]
  rw [List.filter_cons_of_neg (by simp [hrow]), List.filter_nil, List.append_nil]
  apply List.filter_congr
  intro m _
  cases hm : f m with
  | false => rfl
  | true => simpa using hkey m hm

theorem getChannelMember_replaceChannelMember {row : ChannelMember} {user channel : Int32}
    (h : row.channel ≠ channel) (db : Database) :
    (db.replaceChannelMember row).getChannelMember user channel =
      db.getChannelMember user channel := by
  apply Table.lookup_replace_of_ne
  intro hkey
  exact h (congrArg Prod.snd hkey)

theorem membersOf_replaceChannelMember {row : ChannelMember} {channel : Int32}
    (h : row.channel ≠ channel) (db : Database) :
    (db.replaceChannelMember row).membersOf channel = db.membersOf channel := by
  rw [Database.membersOf, filter_replaceChannelMember (by simpa using h), Database.membersOf]

theorem membershipsOf_replaceChannelMember {row : ChannelMember} {channel user : Int32}
    (h : row.channel = channel → row.user ≠ user) (db : Database) :
    (db.replaceChannelMember row).membershipsOf channel user = db.membershipsOf channel user := by
  rw [Database.membershipsOf, filter_replaceChannelMember (by simpa using h),
    Database.membershipsOf]

/-- Behind an invitation. -/
theorem someOrder_behind_invite (hrel : Relational v) (hgrows : db.Grows v)
    {row : ChannelMember} (hv : v = db.replaceChannelMember row)
    (hq : Advances operate db (answer r (respond turns req)) q')
    (hp : p.run operate db = (o, v)) (hrest : q'.run operate v = (o', db'))
    (hclash : ∀ k, req = .inviteUser k → row.channel = k.chanId → row.user = k.uid →
      o' ≠ .returned (.okay {})) :
    SomeOrder p (answer r (respond turns req)) db o o' db' := by
  apply someOrder_of_carries (X := fun q' =>
    (∃ out, q'.run operate db = (out, db) ∧ q'.run operate v = (out, v)) ∨
    ∃ k, req = .inviteUser k ∧ row.channel = k.chanId ∧ row.user = k.uid ∧
      (q'.run operate v).1 = .returned (.okay {})) hq hp hrest
  · apply carries_request hrel hgrows
    · intro token s _ hs _
      rw [hv]
      exact .inl hs
    · intro q u _ _
      by_cases hchan : row.channel = q.chanId
      · right
        left
        have hread : operate (.getChannel q.chanId) db = (.ok (db.getChannel q.chanId), db) := rfl
        have hread' : operate (.getChannel q.chanId) v = (.ok (db.getChannel q.chanId), v) := by
          rw [hv]
          rfl
        cases hc : db.getChannel q.chanId with
        | none =>
          rw [hc] at hread hread'
          exact ⟨_, run_call hread, run_call hread'⟩
        | some c =>
          rw [hc] at hread hread'
          exact ⟨_, run_call hread, run_call hread'⟩
      · left
        rw [hv]
        exact membersOf_replaceChannelMember hchan db
    · intro q c w hreq _ _ hnone
      by_cases hsame : row.channel = q.chanId ∧ row.user = q.uid
      · exact .inr (.inr ⟨q, hreq, hsame.1, hsame.2, rfl⟩)
      · left
        rw [hv, membershipsOf_replaceChannelMember (fun hchan huser => hsame ⟨hchan, huser⟩)]
        exact hnone
    · intro l u others _ hnamed _
      rw [hv]
      exact .inl ⟨⟨u, others, hnamed, rfl, rfl⟩, rfl⟩
  · rintro (⟨out, hout, hout'⟩ | ⟨k, hreq, hchan, huser, hokay⟩)
    · rw [hrest] at hout'
      cases hout'
      exact .inr ⟨db, hq.run.trans hout, hp⟩
    · rw [hrest] at hokay
      exact absurd hokay (hclash k hreq hchan huser)

section ChangePass

variable {rA : Readings} {turnsA : ℕ} {a : ChangePassRequest} {s : SessionKey} {u : User}

theorem run_changePass (hrel : Relational v) (hs : v.getSessionKey a.token = some s)
    (hlive : SessionLive s.validUntil (rA.now 0).now) (hu : v.getUser s.user = some u) :
    (answer rA (respond turnsA (.changePass a))).run operate v = (.returned (.okay {}),
      { v with users := Table.update (·.id) { u with pass := a.newPass } v.users }) := by
  have hupd := updateUser_pass hrel (Table.mem_of_lookup hu).1 a.newPass
  rw [answer_token rfl, run_session hs hlive hu]
  show (Program.call _ _).run operate v = _
  simp only [Program.run, operate, perform, hupd]
  rfl

theorem usersNamed_update {row : User} (hrow : ∀ x ∈ db.users, x.id = row.id → row.name = x.name)
    (name : Bytes) :
    ({ db with users := Table.update (·.id) row db.users } : Database).usersNamed name =
      (db.usersNamed name).map fun x => if x.id = row.id then row else x := by
  simp only [Database.usersNamed, Table.update, List.filter_map]
  congr 1
  apply List.filter_congr
  intro x hx
  simp only [Function.comp_apply]
  split
  · rename_i hid
    rw [hrow x hx hid]
  · rfl

/-- Behind a change of a password. -/
theorem someOrder_behind_changePass (hdb : Sound db) (hrel : Relational v) (hgrows : db.Grows v)
    (hs : db.getSessionKey a.token = some s) (hlive : SessionLive s.validUntil (rA.now 0).now)
    (hu : db.getUser s.user = some u)
    (hv : v = { db with users := Table.update (·.id) { u with pass := a.newPass } db.users })
    (hq : Advances operate db (answer r (respond turns req)) q')
    (hp : (answer rA (respond turnsA (.changePass a))).run operate db = (.returned (.okay {}), v))
    (hrest : q'.run operate v = (o', db')) (hrunning : o' ≠ .running) :
    SomeOrder (answer rA (respond turnsA (.changePass a))) (answer r (respond turns req)) db
      (.returned (.okay {})) o' db' := by
  have hmem := (Table.mem_of_lookup hu).1
  have hnames : ∀ x ∈ db.users, x.id = ({ u with pass := a.newPass } : User).id →
      ({ u with pass := a.newPass } : User).name = x.name := by
    intro x hx hid
    rw [Table.eq_of_key hdb.relational.userIds hx hmem hid]
  apply someOrder_of_carries (X := fun q' => ∃ l x others, req = .login l ∧
    db.usersNamed l.user = x :: others ∧ x.pass = l.pass ∧
      Alike (issueScript (r.sessionOf x)) q' v db) hq hp hrest
  · apply carries_of_members hrel hgrows
    · rw [hv]
    · intro token s' _ hs' _
      rw [hv]
      exact .inl hs'
    · intro l x others hl hnamed hpass
      have hkey : db.getSessionKey (r.rand 0) = v.getSessionKey (r.rand 0) := by
        rw [hv]
        rfl
      by_cases hid : x.id = u.id
      · right
        intro q' hq'
        refine (advances_alike hdb.relational hrel hdb.relational hgrows (.refl db) hkey
          hq').imp_right ?_
        exact fun h => ⟨l, x, others, hl, hnamed, hpass, h⟩
      · have hnamed' : v.usersNamed l.user = x :: others.map fun x =>
            if x.id = u.id then { u with pass := a.newPass } else x := by
          rw [hv, usersNamed_update hnames, hnamed, List.map_cons, if_neg hid]
        exact .inl ⟨⟨x, _, hnamed', rfl, rfl⟩, hkey.symm⟩
  · rintro ⟨l, x, others, rfl, hnamed, hpass, ⟨hstuck, -⟩ | ⟨hissue, hissue'⟩⟩
    · rw [hrest] at hstuck
      cases hstuck
      exact absurd rfl hrunning
    · have hboth := hrest.symm.trans hissue
      cases hboth
      have hne : r.rand 0 ≠ a.token := by
        intro heq
        have hstuck := search_stuck (k := issueScript (r.sessionOf x)) hdb.relational
          (heq ▸ hs) (fun n => (hdb.live_iff hs _ n).mp hlive) r.afterRand turns
        rw [← run_login hnamed hpass, hq.run, hissue'] at hstuck
        cases hstuck
      have huser : db.HasUser (r.sessionOf x).user := by
        have hx : x ∈ db.usersNamed l.user := hnamed ▸ List.mem_cons_self
        exact ⟨x, (List.mem_filter.mp hx).1, rfl⟩
      have hrel' := (replaceSessionKey_keeps hdb.relational huser).1
      have hs' : (db.replaceSessionKey (r.sessionOf x)).getSessionKey a.token = some s := by
        rw [← hs]
        exact Table.lookup_replace_of_ne hne
      refine .inr ⟨_, hq.run.trans hissue', ?_⟩
      show Program.run operate _ (db.replaceSessionKey (r.sessionOf x)) = _
      rw [run_changePass hrel' hs' hlive hu, hv]
      rfl

end ChangePass

/-- A change that takes nothing from what a request relies on. -/
theorem carries_unrelated (hrel : Relational v) (hgrows : db.Grows v)
    (hsessions : v.sessionKeys = db.sessionKeys)
    (hnamed : ∀ name u others, db.usersNamed name = u :: others →
      ∃ others', v.usersNamed name = u :: others')
    (hmembers : ∀ channel, db.HasChannel channel → v.membersOf channel = db.membersOf channel ∧
      ∀ user, v.membershipsOf channel user = db.membershipsOf channel user)
    (hdb : Relational db) :
    Carries operate (fun _ => False) db v (answer r (respond turns req)) := by
  have hkeys : ∀ key, v.getSessionKey key = db.getSessionKey key := by
    intro key
    rw [Database.getSessionKey, hsessions]
    rfl
  apply carries_request hrel hgrows
  · exact fun token s _ hs _ => .inl ((hkeys token).trans hs)
  · intro q u _ hmem
    obtain ⟨x, hx, hx'⟩ := List.mem_map.mp hmem
    obtain ⟨hx, hchan⟩ := List.mem_filter.mp hx
    have hchannel := hdb.memberChannel x hx
    rw [decide_eq_true_eq.mp hchan] at hchannel
    exact .inl (hmembers _ hchannel).1
  · intro q c w _ hc _ hnone
    have hchannel : db.HasChannel q.chanId := ⟨c, Table.mem_of_lookup hc⟩
    exact .inl (((hmembers _ hchannel).2 _).trans hnone)
  · intro l u others _ hu _
    obtain ⟨others', hu'⟩ := hnamed _ _ _ hu
    exact .inl ⟨⟨u, others', hu', rfl, rfl⟩, hkeys _⟩

end Behind

/-- A request that another one overtakes comes to the same as in one of the two
orders, unless the two do the same thing twice. -/
theorem someOrder_of_overtaken {db db' : Database} (hdb : Sound db) {rA rB : Readings}
    {turnsA turnsB : ℕ} {a b : Request} {oA oB : Outcome Exc Response}
    (h : Overtaken operate (answer rA (respond turnsA a)) (answer rB (respond turnsB b)) db oA oB
      db') (hrunning : oB ≠ .running)
    (hclash : ∀ sA sB, oA = .returned sA → oB = .returned sB → ¬ Clash db rA a sA b sB) :
    SomeOrder (answer rA (respond turnsA a)) (answer rB (respond turnsB b)) db oA oB db' := by
  obtain ⟨q', v, hq, hp, hrest⟩ := h
  obtain ⟨env, hwritten⟩ := written_of_answer hp
  obtain ⟨hrel, hgrows⟩ := written_keeps hdb.relational hwritten
  cases hwritten with
  | nothing => exact .inl (hq.serial_of_advances hp hrest)
  | session hnamed hpass hpasses hkey _ =>
    obtain ⟨htoken, hv⟩ := run_login_ended hdb.relational hnamed hpass hp nofun
    apply someOrder_behind_login hdb hrel hgrows hv ?_ hq hp hrest hrunning
    · rintro l rfl ⟨n, hlive⟩ rfl
      refine hclash _ _ htoken rfl (.logins _ ?_)
      exact (sessionLive_expiry_iff _ n).mp hlive
    · simp only [Outcome.returned.injEq, Response.token.injEq, TokenResponse.mk.injEq] at htoken
      intro s hs n hlive
      refine hkey s ?_ ((hdb.live_iff hs _ _).mp hlive)
      rw [hpasses.db, htoken]
      exact hs
  | noSessions hu =>
    obtain ⟨s, hs, hlive, hu⟩ := hu
    apply someOrder_behind_logout hdb hrel hgrows hs ((hdb.live_iff hs _ _).mp hlive) hu rfl hq hp
      hrest hrunning
    rintro k s' rfl hs' hsame rfl
    exact hclash _ _ rfl rfl (.logouts hs hs' hsame)
  | message hu hmem =>
    refine someOrder_of_carries (X := fun _ => False) hq hp hrest ?_ False.elim
    exact carries_unrelated hrel hgrows rfl (fun _ _ others h => ⟨others, h⟩)
      (fun _ _ => ⟨rfl, fun _ => rfl⟩) hdb.relational
  | channel hu hfree =>
    refine someOrder_of_carries (X := fun _ => False) hq hp hrest ?_ False.elim
    refine carries_unrelated hrel hgrows rfl (fun _ _ others h => ⟨others, h⟩) ?_ hdb.relational
    intro channel hchannel
    have hne : db.nextChannelId ≠ channel := by
      rintro rfl
      obtain ⟨c, hc, hid⟩ := hchannel
      exact hfree ⟨c, hc, .inl hid⟩
    refine ⟨membersOf_replaceChannelMember hne _, ?_⟩
    exact fun user => membershipsOf_replaceChannelMember (fun h => absurd h hne) _
  | member hu hc howner hv hnew =>
    apply someOrder_behind_invite hrel hgrows rfl hq hp hrest
    rintro k rfl hchan huser rfl
    refine hclash _ _ rfl rfl (.invitations ?_ ?_)
    · exact (Table.mem_of_lookup hc).2.symm.trans hchan
    · exact (Table.mem_of_lookup hv).2.symm.trans huser
  | password hu =>
    obtain ⟨s, hs, hlive, hu⟩ := hu
    exact someOrder_behind_changePass hdb hrel hgrows hs ((hdb.live_iff hs _ _).mp hlive) hu rfl hq
      hp hrest hrunning
  | user hfree =>
    refine someOrder_of_carries (X := fun _ => False) hq hp hrest ?_ False.elim
    refine carries_unrelated hrel hgrows rfl ?_ (fun _ _ => ⟨rfl, fun _ => rfl⟩) hdb.relational
    intro name u others hnamed
    exact ⟨_, (List.filter_append _ _).trans (congrArg (· ++ _) hnamed)⟩

end Dotchat
