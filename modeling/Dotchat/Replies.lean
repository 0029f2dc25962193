import Dotchat.Sessions

/-!
Which requests are answered. Only a `proto_error` becomes an error reply. A
violated constraint throws `std::system_error`, which nothing catches, and
nothing tests for a taken name before the insertion. The loop of login ends
only with a key under which no session is live, and it never draws another one.
In a reachable state nothing else keeps a request from being answered.
-/
namespace Dotchat

open Db Handlers Program

/-- A reply is sent, within enough turns of the loop of login. -/
def Answered (env : Env) (w : World) (m : Message) : Prop :=
  ∃ turns reply w', serve env turns m w = (.returned reply, w') ∧
    (reply.cmd = ascii ResponseCommands.okay ∨ reply.cmd = ascii ResponseCommands.error)

/-- The requests that meet a UNIQUE or primary-key violation, or a drawn key
under which a session is live. -/
inductive Unanswered (env : Env) (w : World) (m : Message) : Prop
  | user {r : NewUserRequest} (h : (Request.newUser r).Parses m) (hname : w.db.UserConflict r.name)
  | channel {r : NewChannelRequest} {u : User} (h : (Request.newChannel r).Parses m)
      (hu : Accepted env w r.token u) (hname : w.db.ChannelConflict r.name)
  | key {r : LoginRequest} {u v : User} {others : List User} (h : (Request.login r).Parses m)
      (hnamed : w.db.usersNamed r.user = u :: others) (hpass : u.pass = r.pass)
      (hkey : Accepted env w (env.rand w.draws) v)

section Serve

variable {env : Env} {turns : ℕ} {w : World} {m : Message}

theorem answered_of_returned {s : Response} {w' : World}
    (h : serve env turns m w = (replyOf Response.toMessage (.returned s), w')) :
    Answered env w m := by
  obtain ⟨mods, hmods⟩ := s.toMessage_eq_ok
  simp only [replyOf, hmods] at h
  exact ⟨turns, _, w', h, .inl rfl⟩

theorem answered_of_protoError {what : Bytes} {w' : World}
    (h : serve env turns m w = (replyToExc (.protoError what), w')) : Answered env w m :=
  ⟨turns, _, w', h, .inr rfl⟩

/-- A right password and a key that is not live: login is answered. -/
theorem run_login_of_rejected {r : LoginRequest} {u : User} {others : List User}
    (hnamed : w.db.usersNamed r.user = u :: others) (hpass : u.pass = r.pass)
    (hkey : Rejected env w (env.rand w.draws)) :
    ∃ w', (login 1 r).run (perform env) w =
      (.returned { token := env.rand w.draws }, w') := by
  have hlookup : (Dotchat.invoke (.usersNamed r.user)).run (perform env) w =
      (.returned (w.db.usersNamed r.user), w) := rfl
  have hgen : (Dotchat.invoke .genKey).run (perform env) w =
      (.returned (env.rand w.draws), { w with draws := w.draws + 1 }) := rfl
  have hkey' : Rejected env { w with draws := w.draws + 1 } (env.rand w.draws) := hkey
  obtain ⟨w', -, hfree⟩ := run_awaitFreeKey_of_rejected hkey' 0
  rw [login, run_bind_of_returned hlookup, hnamed]
  simp only [hpass, ne_eq, not_true_eq_false, if_false]
  rw [run_bind_of_returned hgen, run_bind_of_returned hfree]
  exact ⟨_, rfl⟩

/-- In a consistent database every other request is answered. -/
theorem answered_of_not_unanswered (hc : Consistent w.db)
    (h : ¬ Unanswered env w m) : Answered env w m := by
  have hstep := dispatched env 1 m w
  generalize hserve : (dispatch 1 m).run (perform env) w = r at hstep
  cases hstep with
  | unknown _ => exact ⟨1, _, w, hserve, .inr rfl⟩
  | malformed _ _ => exact answered_of_protoError hserve
  | handled hparse hrun =>
    rename_i req o w'
    have hhandled := handled env 1 w req
    rw [hrun] at hhandled
    cases hhandled with
    | rejected _ _ _ | refused _ _ _ | unknownUser _ | wrongPass _ _ =>
      exact answered_of_protoError hserve
    | orphaned _ horphan => exact absurd horphan (not_orphaned hc)
    | answered _ _ _ | loggedOut _ | sentMsg _ _ | createdChannel _ _ | changedPass _ _
    | invited _ _ _ _ _ | createdUser _ | loggedIn _ _ _ _ _ =>
      exact answered_of_returned hserve
    | channelConflict hu hins =>
      exact absurd (.channel hparse hu (Database.insertChannel_eq_error hins).1) h
    | passConflict hu hupd =>
      obtain ⟨⟨u', hu', hid, hname⟩, -⟩ := Database.updateUser_eq_error hupd
      exact absurd (congrArg User.id (Table.eq_of_key hc.names hu' hu.mem hname)) hid
    | userConflict hins => exact absurd (.user hparse (Database.insertUser_eq_error hins).1) h
    | loginOrphaned _ _ hv hkey _ => exact absurd hkey (not_orphaned (hv.db ▸ hc))
    | loginStuck hnamed hpass _ =>
      have hkey : Rejected env w (env.rand w.draws) := by
        by_contra hlive
        simp only [Rejected, not_forall, not_not] at hlive
        obtain ⟨s, hs, hlive⟩ := hlive
        obtain ⟨v, hv, hid⟩ := hc.sessionUser s (Table.mem_of_lookup hs).1
        have hget := (Table.lookup_eq_some hc.users).mpr ⟨hv, hid⟩
        exact h (.key hparse hnamed hpass ⟨s, hs, hlive, hget⟩)
      obtain ⟨w'', hlogin⟩ := run_login_of_rejected hnamed hpass hkey
      rw [respond, run_map _ _ hlogin] at hrun
      cases hrun

theorem Unanswered.not_answered (ht : Timeless w.db) (h : Unanswered env w m) :
    ¬ Answered env w m := by
  rintro ⟨turns, reply, w', hserve, -⟩
  cases h with
  | user hparse hname =>
    obtain ⟨o, v, hhandled, -, hrun⟩ := serve_of_parses env turns w hparse
    rw [hserve] at hrun
    rcases hhandled.newUser_cases with ⟨-, rfl⟩ | ⟨hfree, -⟩
    · cases hrun
    · exact hfree hname
  | channel hparse hu hname =>
    obtain ⟨o, v, hhandled, -, hrun⟩ := serve_of_parses env turns w hparse
    rw [hserve] at hrun
    rcases hhandled.newChannel_of_accepted hu with ⟨-, rfl⟩ | ⟨hfree, -⟩
    · cases hrun
    · exact hfree hname
  | key hparse hnamed hpass hkey =>
    rename_i r u v others
    obtain ⟨o, w'', hhandled, -, hrun⟩ := serve_of_parses env turns w hparse
    rw [hserve] at hrun
    cases hhandled with
    | rejected htoken _ _ | orphaned htoken _ | refused htoken _ _ | answered htoken _ _ =>
      cases htoken
    | unknownUser hnone => simp [hnone] at hnamed
    | wrongPass hnamed' hpass' =>
      rw [hnamed] at hnamed'
      cases hnamed'
      exact hpass' hpass
    | loginStuck _ _ _ | loginOrphaned _ _ _ _ _ => cases hrun
    | loggedIn _ _ hv hrejected _ =>
      exact hkey.not_rejected ((ht.rejected_iff hv).mp hrejected)

end Serve

/-- In every reachable state a message is answered exactly when its handling
does not meet a constraint violation or a live key. -/
theorem answered_iff {env : Env} {w : World} (hw : Reachable env (fun _ => True) w) (m : Message) :
    Answered env w m ↔ ¬ Unanswered env w m :=
  ⟨fun h hun => hun.not_answered hw.timeless h,
    answered_of_not_unanswered hw.consistent⟩

/-- A request for a second user named `master`. -/
def secondMaster : Message := NewUserRequest.toMessage { name := ascii "master", pass := [] }

theorem secondMaster_not_answered :
    Reachable twoDaysLater (fun _ => True) {} ∧ ¬ Answered twoDaysLater {} secondMaster :=
  ⟨.refl, Unanswered.not_answered (by simp [Timeless, Database.initial])
    (.user (r := { name := ascii "master", pass := [] }) rfl (by decide))⟩

theorem answered_iff_master :
    Answered twoDaysLater {} masterLogin ↔ ¬ Unanswered twoDaysLater {} masterLogin :=
  answered_iff .refl masterLogin

end Dotchat
