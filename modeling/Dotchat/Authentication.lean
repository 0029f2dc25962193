import Dotchat.Sessions

/-!
Where accepted tokens come from. A run is recorded as the list of its steps,
the latest first. The password of each user is the one that was last set for
its name, and each session was vouched for: its user has logged in with that
password, was answered with its key, and neither a logout of the user nor a
login that was answered with the same key came later. Names stand for users,
since they are unique and never change.
-/
namespace Dotchat

open Db Handlers

/-- A message, and the world in which it was processed. -/
structure Step where
  before : World
  turns : ℕ
  msg : Message

/-- The runs from the new database, with their steps, the latest first. -/
inductive Run (env : Env) : List Step → World → Prop
  | nil : Run env [] {}
  | serve {earlier : List Step} {w : World} (h : Run env earlier w) (turns : ℕ) (m : Message) :
      Run env (⟨w, turns, m⟩ :: earlier) (serve env turns m w).2

namespace Step

variable (env : Env) (s : Step)

def reply : Outcome Exc Message := (serve env s.turns s.msg s.before).1

def after : World := (serve env s.turns s.msg s.before).2

/-- The reply is an ok reply. -/
def Okay : Prop := ∃ m, s.reply env = .returned m ∧ m.cmd = ascii ResponseCommands.okay

/-- A new_user or change_pass that sets the password of the user with this name. -/
inductive Sets (name pass : Bytes) : Prop
  | newUser {r : NewUserRequest} (h : (Request.newUser r).Parses s.msg) (hok : s.Okay env)
      (hname : r.name = name) (hpass : r.pass = pass)
  | changePass {r : ChangePassRequest} {u : User} (h : (Request.changePass r).Parses s.msg)
      (hu : Accepted env s.before r.token u) (hok : s.Okay env) (hname : u.name = name)
      (hpass : r.newPass = pass)

/-- A login that is answered with the token. -/
def AnswersToken (t : Int32) : Prop :=
  ∃ r, (Request.login r).Parses s.msg ∧
    s.reply env = .returned (TokenResponse.toMessage { token := t })

/-- A logout with a token of the user with this name. -/
def LogsOut (name : Bytes) : Prop :=
  ∃ r u, (Request.logout r).Parses s.msg ∧ Accepted env s.before r.token u ∧ u.name = name

end Step

/-- The password that was last set for a name, if only by the initialisation. -/
inductive LastSet (env : Env) : List Step → Bytes → Bytes → Prop
  | initial {u : User} (h : u ∈ Database.initial.users) : LastSet env [] u.name u.pass
  | set {s : Step} {earlier : List Step} {name pass : Bytes} (h : s.Sets env name pass) :
      LastSet env (s :: earlier) name pass
  | keep {s : Step} {earlier : List Step} {name pass : Bytes} (h : LastSet env earlier name pass)
      (hs : ∀ p, ¬ s.Sets env name p) : LastSet env (s :: earlier) name pass

/-- Some login of the user was answered with the token, and it still counts. -/
def Vouched (env : Env) (steps : List Step) (name : Bytes) (t : Int32) : Prop :=
  ∃ later login earlier r, steps = later ++ login :: earlier ∧
    (Request.login r).Parses login.msg ∧ r.user = name ∧ LastSet env earlier name r.pass ∧
    login.reply env = .returned (TokenResponse.toMessage { token := t }) ∧
    ∀ s ∈ later, ¬ s.LogsOut env name ∧ ¬ s.AnswersToken env t

theorem Run.reachable {env : Env} {steps : List Step} {w : World} (h : Run env steps w) :
    Reachable env (fun _ => True) w := by
  induction h with
  | nil => exact .refl
  | serve _ turns _ ih => exact .serve ih turns trivial

section Step

variable {env : Env} {s : Step}

theorem Step.handled (env : Env) {req : Request} (h : req.Parses s.msg) : ∃ o,
    Handled env s.before req (o, s.after env) ∧ s.reply env = replyOf Response.toMessage o := by
  obtain ⟨o, w', hhandled, -, hserve⟩ := serve_of_parses env s.turns s.before h
  rw [Step.after, Step.reply, hserve]
  exact ⟨o, hhandled, rfl⟩

/-- What a step has written, if anything. -/
theorem Step.written (env : Env) (s : Step) : ∃ db, (s.after env).db = db ∧
    (db = s.before.db ∨ ∃ req o, req.Parses s.msg ∧ s.reply env = replyOf Response.toMessage o ∧
      Written env s.before req o db) :=
  ⟨_, rfl, serve_written env s.turns s.msg s.before⟩

/-- A step that sets a password leaves a user who has it. -/
theorem Step.Sets.user {name pass : Bytes} (h : s.Sets env name pass) :
    ∃ u ∈ (s.after env).db.users, u.name = name ∧ u.pass = pass := by
  cases h with
  | newUser hparse hok hname hpass =>
    obtain ⟨m, hreply, -⟩ := hok
    obtain ⟨o, hhandled, ho⟩ := Step.handled env hparse
    rw [ho] at hreply
    rcases hhandled.newUser_cases with ⟨-, rfl⟩ | ⟨-, -, hdb⟩
    · cases hreply
    · rw [hdb]
      exact ⟨_, List.mem_append_right _ List.mem_cons_self, hname, hpass⟩
  | changePass hparse hu hok hname hpass =>
    obtain ⟨m, hreply, -⟩ := hok
    obtain ⟨o, hhandled, ho⟩ := Step.handled env hparse
    rw [ho] at hreply
    rcases hhandled.changePass_of_accepted hu with rfl | ⟨-, hdb⟩
    · cases hreply
    · rw [hdb]
      exact ⟨_, List.mem_map.mpr ⟨_, hu.mem, if_pos rfl⟩, hname, hpass⟩

/-- The session that a login has written when it is answered with its key. -/
theorem Step.session_of_reply {r : LoginRequest} {t : Int32}
    (hparse : (Request.login r).Parses s.msg)
    (hreply : s.reply env = .returned (TokenResponse.toMessage { token := t })) :
    ∃ u ∈ s.before.db.users, u.name = r.user ∧ u.pass = r.pass ∧ ∃ validUntil,
      (s.after env).db = s.before.db.replaceSessionKey { key := t, user := u.id, validUntil } := by
  obtain ⟨o, hhandled, ho⟩ := Step.handled env hparse
  rw [ho] at hreply
  generalize s.after env = w' at hhandled
  cases hhandled with
  | rejected ht _ _ | orphaned ht _ | refused ht _ _ | answered ht _ _ => cases ht
  | unknownUser _ | wrongPass _ _ =>
    exact absurd (Outcome.returned.inj hreply) (error_ne_token _ _)
  | loginStuck _ _ _ | loginOrphaned _ _ _ _ _ => cases hreply
  | loggedIn hnamed hpass hv hkey hw =>
    rename_i u others v v'
    have hu : u ∈ s.before.db.usersNamed r.user := hnamed ▸ List.mem_cons_self
    obtain ⟨hmem, hname⟩ := List.mem_filter.mp hu
    obtain rfl := token_injective (Outcome.returned.inj hreply)
    exact ⟨u, hmem, by simpa using hname, hpass, _, rfl⟩

/-- A logout leaves no session of its user. -/
theorem Step.LogsOut.sessions {name : Bytes} (h : s.LogsOut env name) :
    ∃ u ∈ s.before.db.users, u.name = name ∧
      (s.after env).db = s.before.db.removeSessionKeysOf u.id := by
  obtain ⟨r, u, hparse, hu, hname⟩ := h
  obtain ⟨o, hhandled, -⟩ := Step.handled env hparse
  obtain ⟨-, hafter⟩ := hhandled.logout_of_accepted hu
  exact ⟨u, hu.mem, hname, by rw [hafter, World.store_db]⟩

end Step

/-- What the steps so far say about the rows of the database. -/
structure Authenticated (env : Env) (steps : List Step) (db : Database) : Prop where
  passes : ∀ u ∈ db.users, LastSet env steps u.name u.pass
  sessions : ∀ row ∈ db.sessionKeys, ∀ u ∈ db.users, u.id = row.user →
    Vouched env steps u.name row.key

section Authenticated

variable {env : Env} {earlier : List Step} {s : Step}

/-- A user who is not as before has got his password in this step. -/
theorem mem_users_or_sets {u : User} (hu : u ∈ (s.after env).db.users) :
    u ∈ s.before.db.users ∨ s.Sets env u.name u.pass := by
  obtain ⟨db, hdb, hwritten⟩ := s.written env
  rw [hdb] at hu
  rcases hwritten with rfl | ⟨req, o, hparse, hreply, hwritten⟩
  · exact .inl hu
  · cases hwritten with
    | nothing | session _ _ _ _ _ | noSessions _ | message _ _ | channel _ _ | member _ _ _ _ _ =>
      exact .inl hu
    | password hv =>
      rcases Table.mem_update hu with rfl | ⟨hu, -⟩
      · exact .inr (.changePass hparse hv ⟨_, hreply, rfl⟩ rfl rfl)
      · exact .inl hu
    | user _ =>
      rcases List.mem_append.mp hu with hu | hu
      · exact .inl hu
      · obtain rfl := List.mem_singleton.mp hu
        exact .inr (.newUser hparse ⟨_, hreply, rfl⟩ rfl rfl)

/-- A session that was not there was opened in this step. -/
theorem mem_sessions_or_answers {row : SessionKey} (hrow : row ∈ (s.after env).db.sessionKeys) :
    row ∈ s.before.db.sessionKeys ∨ s.AnswersToken env row.key := by
  obtain ⟨db, hdb, hwritten⟩ := s.written env
  rw [hdb] at hrow
  rcases hwritten with rfl | ⟨req, o, hparse, hreply, hwritten⟩
  · exact .inl hrow
  · cases hwritten with
    | nothing | message _ _ | channel _ _ | member _ _ _ _ _ | password _ | user _ =>
      exact .inl hrow
    | session _ _ _ _ _ =>
      rcases Table.mem_replace.mp hrow with rfl | ⟨hrow, -⟩
      · exact .inr ⟨_, hparse, hreply⟩
      · exact .inl hrow
    | noSessions _ => exact .inl (List.mem_filter.mp hrow).1

/-- The user of an old id has kept his name. -/
theorem exists_user_before (hc : Consistent s.before.db) {u v : User}
    (hu : u ∈ (s.after env).db.users) (hv : v ∈ s.before.db.users) (hid : v.id = u.id) :
    v.name = u.name := by
  have hsame : u ∈ s.before.db.users → v.name = u.name :=
    fun h => congrArg User.name (Table.eq_of_key hc.users hv h hid)
  obtain ⟨db, hdb, hwritten⟩ := s.written env
  rw [hdb] at hu
  rcases hwritten with rfl | ⟨req, o, -, -, hwritten⟩
  · exact hsame hu
  · cases hwritten with
    | nothing | session _ _ _ _ _ | noSessions _ | message _ _ | channel _ _ | member _ _ _ _ _ =>
      exact hsame hu
    | password haccept =>
      rcases Table.mem_update hu with rfl | ⟨hu, -⟩
      · rename_i r u
        have hsame : v = u := Table.eq_of_key hc.users hv haccept.mem hid
        rw [hsame]
      · exact hsame hu
    | user hfree =>
      rcases List.mem_append.mp hu with hu | hu
      · exact hsame hu
      · obtain rfl := List.mem_singleton.mp hu
        exact absurd ⟨v, hv, .inl hid⟩ hfree

theorem Vouched.step {name : Bytes} {t : Int32} (h : Vouched env earlier name t)
    (hout : ¬ s.LogsOut env name) (htoken : ¬ s.AnswersToken env t) :
    Vouched env (s :: earlier) name t := by
  obtain ⟨later, login, before, r, rfl, hparse, hname, hpass, hreply, hlater⟩ := h
  refine ⟨s :: later, login, before, r, rfl, hparse, hname, hpass, hreply, ?_⟩
  intro s' hs'
  rcases List.mem_cons.mp hs' with rfl | hs'
  · exact ⟨hout, htoken⟩
  · exact hlater s' hs'

theorem lastSet_step (hc' : Consistent (s.after env).db)
    (h : Authenticated env earlier s.before.db) :
    ∀ u ∈ (s.after env).db.users, LastSet env (s :: earlier) u.name u.pass := by
  intro u hu
  by_cases hset : ∃ p, s.Sets env u.name p
  · obtain ⟨p, hset⟩ := hset
    obtain ⟨v, hv, hname, rfl⟩ := hset.user
    obtain rfl := Table.eq_of_key hc'.names hv hu hname
    exact .set hset
  · rcases mem_users_or_sets hu with hold | hnew
    · exact .keep (h.passes u hold) fun p hp => hset ⟨p, hp⟩
    · exact absurd ⟨_, hnew⟩ hset

theorem vouched_step (hc : Consistent s.before.db) (hc' : Consistent (s.after env).db)
    (h : Authenticated env earlier s.before.db) :
    ∀ row ∈ (s.after env).db.sessionKeys, ∀ u ∈ (s.after env).db.users, u.id = row.user →
      Vouched env (s :: earlier) u.name row.key := by
  intro row hrow u hu hid
  by_cases htoken : s.AnswersToken env row.key
  · obtain ⟨r, hparse, hreply⟩ := htoken
    obtain ⟨v, hv, hname, hpass, validUntil, hdb⟩ := Step.session_of_reply hparse hreply
    have hwritten : { key := row.key, user := v.id, validUntil } ∈ (s.after env).db.sessionKeys :=
      hdb ▸ Table.mem_replace.mpr (.inl rfl)
    have hrow' := congrArg SessionKey.user (Table.eq_of_key hc'.sessions hwritten hrow rfl)
    have hvid : v.id = u.id := hrow'.trans hid.symm
    have hsame : v.name = u.name := exists_user_before hc hu hv hvid
    refine ⟨[], s, earlier, r, rfl, hparse, hname.symm.trans hsame, ?_, hreply, by simp⟩
    rw [← hsame, ← hpass]
    exact h.passes v hv
  · rcases mem_sessions_or_answers hrow with hold | hnew
    · obtain ⟨v, hv, hvrow⟩ := hc.sessionUser row hold
      have hname : v.name = u.name := exists_user_before hc hu hv (hvrow.trans hid.symm)
      rw [← hname]
      refine (h.sessions row hold v hv hvrow).step ?_ htoken
      intro hout
      obtain ⟨v', hv', hname', hdb⟩ := hout.sessions
      obtain rfl := Table.eq_of_key hc.names hv' hv hname'
      rw [hdb] at hrow
      have hne := (List.mem_filter.mp hrow).2
      simp [← hvrow] at hne
    · exact absurd hnew htoken

/-- The steps of a run account for every row. -/
theorem Run.authenticated {steps : List Step} {w : World} (h : Run env steps w) :
    Authenticated env steps w.db := by
  induction h with
  | nil => exact { passes := fun u hu => .initial hu, sessions := fun row hrow => nomatch hrow }
  | serve h turns m ih =>
    rename_i w
    have hc := h.reachable.consistent
    have hc' := (Run.serve h turns m).reachable.consistent
    exact {
      passes := lastSet_step (s := ⟨w, turns, m⟩) hc' ih
      sessions := vouched_step (s := ⟨w, turns, m⟩) hc hc' ih }

end Authenticated

/-- A token that is accepted for `u` was the answer to a login that named `u` with
the password of that time; `u` has not logged out since and no later login was
answered with the token. -/
theorem checkSessionKey_vouched {env : Env} {steps : List Step} {w : World} {t : Int32} {u : User}
    (hrun : Run env steps w)
    (hcheck : ((checkSessionKey t).run (perform env) w).1 = .returned u) :
    Vouched env steps u.name t := by
  obtain ⟨row, hrow, -, hu⟩ := accepted_iff.mpr hcheck
  obtain ⟨hmem, rfl⟩ := Table.mem_of_lookup hrow
  obtain ⟨huser, hid⟩ := Table.mem_of_lookup hu
  exact hrun.authenticated.sessions row hmem u huser hid

theorem checkSessionKey_vouched_master :
    Vouched twoDaysLater [⟨{}, 1, masterLogin⟩] master.name 7 :=
  checkSessionKey_vouched (u := master) (.serve .nil 1 masterLogin) (by decide +kernel)

end Dotchat
