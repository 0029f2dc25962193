import Dotchat.Authentication

/-!
Requests during which an operation of the database fails. There are no
transactions: what a handler has written before the failure stays. All handlers
but that of new_channel write last and only once, so that their failed requests
leave the database as it was; new_channel writes a channel and then the
membership of its owner.
-/
namespace Dotchat

open Db Handlers Program

/-- The clocks and `RAND_bytes` are no operations of the database. -/
def Call.onDatabase : Call → Bool
  | .now | .nowUncut | .genKey => false
  | _ => true

/-- The operation of the database that comes after `k` others throws, without an
effect of its own. Beside the world stands the number of operations so far. -/
def faulty (env : Env) (k : ℕ) : Program.Store Call Call.Answer Exc (World × ℕ)
  | c, (w, n) =>
      if c.onDatabase then
        if n = k then (.error .systemError, w, n + 1)
        else ((perform env c w).1, (perform env c w).2, n + 1)
      else ((perform env c w).1, (perform env c w).2, n)

/-- Process one message while the operation `k` of the database fails. -/
def serveFaulty (env : Env) (k turns : ℕ) (m : Message) (w : World) :
    Outcome Exc Message × World × ℕ :=
  (dispatch turns m).run (faulty env k) (w, 0)

/-- The reply is an ok message. -/
def IsOkay (m : Message) : Prop := m.cmd = ascii ResponseCommands.okay

/-- The database of a world in which operations are counted. -/
def databaseOf (v : World × ℕ) : Database := v.1.db

section Effects

variable {env : Env} {k : ℕ}

/-- An operation answers or leaves the database alone. -/
theorem faulty_db (c : Call) (v : World × ℕ) : (∃ a, (faulty env k c v).1 = .ok a) ∨
    databaseOf (faulty env k c v).2 = databaseOf v := by
  obtain ⟨w, n⟩ := v
  have hperform : (∃ a, (perform env c w).1 = .ok a) ∨ (perform env c w).2.db = w.db := by
    refine (perform_cases env w c).imp_right ?_
    intro herror
    rw [herror]
  simp only [faulty]
  split
  · split
    · exact .inr rfl
    · exact hperform
  · exact hperform

/-- The operations that only read. -/
theorem keeps_of_reads {c : Call} (h : ∀ w, (perform env c w).2.db = w.db) :
    Keeps (faulty env k) databaseOf (invoke c) := by
  refine Keeps.invoke ?_
  rintro ⟨w, n⟩
  simp only [faulty]
  split
  · split
    · rfl
    · exact h w
  · exact h w

/-- One write. -/
theorem allOrNothing_invoke (c : Call) :
    AllOrNothing (faulty env k) databaseOf (fun _ => True) (invoke c) :=
  .invoke (faulty_db c)

theorem keeps_throw {α : Type} (e : Exc) :
    Keeps (faulty env k) databaseOf (Program.throw e : Handler α) :=
  .done _

theorem keeps_checkSessionKey (key : Int32) :
    Keeps (faulty env k) databaseOf (checkSessionKey key) := by
  refine .bind (keeps_of_reads fun _ => rfl) fun s => ?_
  cases s with
  | none => exact keeps_throw _
  | some s =>
    refine .bind (keeps_of_reads fun _ => rfl) fun now => ?_
    split
    · refine .bind (keeps_of_reads fun _ => rfl) fun u => ?_
      cases u with
      | none => exact keeps_throw _
      | some u => exact .done _
    · exact keeps_throw _

theorem keeps_catchProto {α : Type} {p : Handler α} {handler : Bytes → Handler α}
    (hp : Keeps (faulty env k) databaseOf p)
    (hh : ∀ what, Keeps (faulty env k) databaseOf (handler what)) :
    Keeps (faulty env k) databaseOf (catchProto p handler) := by
  refine hp.tryCatch fun e => ?_
  cases e with
  | protoError what => exact hh _
  | _ => exact keeps_throw _

theorem keeps_awaitFreeKey (key : Int32) (turns : ℕ) :
    Keeps (faulty env k) databaseOf (awaitFreeKey key turns) := by
  induction turns with
  | zero => exact .done _
  | succ turns ih =>
    have hfree : Keeps (faulty env k) databaseOf (keyIsFree key) :=
      keeps_catchProto (.bind (keeps_checkSessionKey key) fun _ =>
        .bind (keeps_of_reads fun _ => rfl) fun _ => .done _) fun _ => .done _
    refine .bind hfree fun okay => ?_
    split
    · exact .done _
    · exact ih

end Effects

section Handlers

variable {env : Env} {k : ℕ}

theorem keeps_channelList (r : ChannelListRequest) :
    Keeps (faulty env k) databaseOf (Handlers.channelList r) :=
  .bind (keeps_checkSessionKey _) fun _ => .bind (keeps_of_reads fun _ => rfl) fun _ => .done _

theorem keeps_userCanAccess (uid chanId : Int32) :
    Keeps (faulty env k) databaseOf (userCanAccess uid chanId) :=
  .bind (keeps_of_reads fun _ => rfl) fun _ => .done _

theorem keeps_channelMsg (r : ChannelMsgRequest) :
    Keeps (faulty env k) databaseOf (Handlers.channelMsg r) := by
  refine .bind (keeps_checkSessionKey _) fun u => .bind (keeps_userCanAccess _ _) fun access => ?_
  split
  · exact .bind (keeps_of_reads fun _ => rfl) fun _ => .done _
  · exact keeps_throw _

theorem keeps_channelDetails (r : ChannelDetailsRequest) :
    Keeps (faulty env k) databaseOf (Handlers.channelDetails r) := by
  refine .bind (keeps_checkSessionKey _) fun u => .bind (keeps_of_reads fun _ => rfl) fun ms => ?_
  split
  · refine .bind (keeps_of_reads fun _ => rfl) fun c => ?_
    cases c with
    | none => exact keeps_throw _
    | some c => exact .done _
  · exact keeps_throw _

theorem keeps_userDetails (r : UserDetailsRequest) :
    Keeps (faulty env k) databaseOf (Handlers.userDetails r) := by
  refine .bind (keeps_checkSessionKey _) fun _ => .bind (keeps_of_reads fun _ => rfl) fun u => ?_
  cases u with
  | none => exact keeps_throw _
  | some u => exact .bind (keeps_of_reads fun _ => rfl) fun _ => .done _

/-- A write behind which the handler only returns. -/
theorem allOrNothing_write {α : Type} (c : Call) (f : c.Answer → α) :
    AllOrNothing (faulty env k) databaseOf (fun _ => True) (invoke c >>= fun a => pure (f a)) :=
  (allOrNothing_invoke c).before fun _ => ⟨_, rfl, trivial⟩

theorem allOrNothing_login (turns : ℕ) (r : LoginRequest) :
    AllOrNothing (faulty env k) databaseOf (fun _ => True) (Handlers.login turns r) := by
  refine .after (keeps_of_reads fun _ => rfl) fun us => ?_
  cases us with
  | nil => exact (keeps_throw _).allOrNothing
  | cons u others =>
    by_cases hpass : u.pass = r.pass
    · simp only [hpass, ne_eq, not_true_eq_false, if_false]
      refine .after (keeps_of_reads fun _ => rfl) fun key => ?_
      refine .after (keeps_awaitFreeKey key turns) fun _ => ?_
      refine .after (keeps_of_reads fun _ => rfl) fun now => ?_
      exact allOrNothing_write _ _
    · simp only [hpass, ne_eq, not_false_eq_true, if_true]
      exact (keeps_throw _).allOrNothing

theorem allOrNothing_sendMsg (r : MessageSendRequest) :
    AllOrNothing (faulty env k) databaseOf (fun _ => True) (Handlers.sendMsg r) := by
  refine .after (keeps_checkSessionKey _) fun u => .after (keeps_userCanAccess _ _) fun access => ?_
  split
  · exact .after (keeps_of_reads fun _ => rfl) fun now => allOrNothing_write _ _
  · exact (keeps_throw _).allOrNothing

theorem allOrNothing_inviteUser (r : InviteUserRequest) :
    AllOrNothing (faulty env k) databaseOf (fun _ => True) (Handlers.inviteUser r) := by
  refine .after (keeps_checkSessionKey _) fun u => .after (keeps_of_reads fun _ => rfl) fun c => ?_
  cases c with
  | none => exact (keeps_throw _).allOrNothing
  | some c =>
    by_cases howner : c.ownerId = u.id
    · simp only [howner, ne_eq, not_true_eq_false, if_false]
      refine .after (keeps_of_reads fun _ => rfl) fun other => ?_
      cases other with
      | none => exact (keeps_throw _).allOrNothing
      | some other =>
        refine .after (keeps_of_reads fun _ => rfl) fun joined => ?_
        by_cases hnew : joined = []
        · simp only [hnew, ne_eq, not_true_eq_false, if_false]
          exact allOrNothing_write _ _
        · simp only [hnew, ne_eq, not_false_eq_true, if_true]
          exact (keeps_throw _).allOrNothing
    · simp only [howner, ne_eq, not_false_eq_true, if_true]
      exact (keeps_throw _).allOrNothing

theorem allOrNothing_logout (r : LogoutRequest) :
    AllOrNothing (faulty env k) databaseOf (fun _ => True) (Handlers.logout r) :=
  .after (keeps_checkSessionKey _) fun _ => allOrNothing_write _ _

theorem allOrNothing_changePass (r : ChangePassRequest) :
    AllOrNothing (faulty env k) databaseOf (fun _ => True) (Handlers.changePass r) :=
  .after (keeps_checkSessionKey _) fun _ => allOrNothing_write _ _

theorem allOrNothing_catchProto {p : Handler Message} {handler : Bytes → Handler Message}
    (hp : AllOrNothing (faulty env k) databaseOf IsOkay p)
    (hh : ∀ what, Keeps (faulty env k) databaseOf (handler what)) :
    AllOrNothing (faulty env k) databaseOf IsOkay (catchProto p handler) := by
  refine hp.tryCatch fun e => ?_
  cases e with
  | protoError what => exact hh _
  | _ => exact keeps_throw _

/-- The reply is ok when the handler has returned. -/
theorem allOrNothing_replyTo {Req Res : Type} {ofMessage : Message → Except Exc Req}
    {toMessage : Res → Except Exc Message} {f : Req → Handler Res} {m : Message}
    (wrap : Res → Response) (hto : ∀ res, (wrap res).toMessage = toMessage res)
    (hf : ∀ req, ofMessage m = .ok req →
      AllOrNothing (faulty env k) databaseOf (fun _ => True) (f req)) :
    AllOrNothing (faulty env k) databaseOf IsOkay
      (catchProto (replyTo ofMessage toMessage m f) fun what => return excToMessage what) := by
  apply allOrNothing_catchProto _ fun _ => .done _
  apply allOrNothing_catchProto _ fun _ => .done _
  cases hof : ofMessage m with
  | error e => exact (Keeps.done _).allOrNothing
  | ok req =>
    show AllOrNothing _ _ _ (f req >>= fun res => Program.ofExcept (toMessage res))
    apply (hf req hof).before
    intro res
    obtain ⟨mods, hmods⟩ := (wrap res).toMessage_eq_ok
    rw [hto] at hmods
    refine ⟨OkayResponse.okayWith mods, ?_, rfl⟩
    rw [hmods]
    rfl

/-- A message that is no new_channel request leaves a trace only if it is
answered ok. -/
theorem allOrNothing_dispatch (turns : ℕ) {m : Message}
    (h : ∀ r, ¬ (Request.newChannel r).Parses m) :
    AllOrNothing (faulty env k) databaseOf IsOkay (dispatch turns m) := by
  unfold dispatch
  cases hfind : (switcher turns).find? fun e => ascii e.1 = m.cmd with
  | none => exact (Keeps.done _).allOrNothing
  | some e =>
    have hmem := List.mem_of_find?_eq_some hfind
    simp only [switcher, List.mem_cons, List.not_mem_nil, or_false] at hmem
    rcases hmem with rfl | rfl | rfl | rfl | rfl | rfl | rfl | rfl | rfl | rfl | rfl
    · exact allOrNothing_replyTo .token (fun _ => rfl) fun r _ => allOrNothing_login turns r
    · exact allOrNothing_replyTo .okay (fun _ => rfl) fun r _ => allOrNothing_logout r
    · exact allOrNothing_replyTo .channelList (fun _ => rfl) fun r _ =>
        (keeps_channelList r).allOrNothing
    · exact allOrNothing_replyTo .channelMsg (fun _ => rfl) fun r _ =>
        (keeps_channelMsg r).allOrNothing
    · exact allOrNothing_replyTo .okay (fun _ => rfl) fun r _ => allOrNothing_sendMsg r
    · exact allOrNothing_replyTo .channelDetails (fun _ => rfl) fun r _ =>
        (keeps_channelDetails r).allOrNothing
    · exact allOrNothing_replyTo .id (fun _ => rfl) fun r hr => absurd hr (h r)
    · exact allOrNothing_replyTo .okay (fun _ => rfl) fun r _ => allOrNothing_write _ _
    · exact allOrNothing_replyTo .okay (fun _ => rfl) fun r _ => allOrNothing_changePass r
    · exact allOrNothing_replyTo .userDetails (fun _ => rfl) fun r _ =>
        (keeps_userDetails r).allOrNothing
    · exact allOrNothing_replyTo .okay (fun _ => rfl) fun r _ => allOrNothing_inviteUser r

end Handlers

section NewChannel

variable {env : Env} {k : ℕ} {w w' : World} {n : ℕ}

theorem run_invoke_faulty {c : Call} {a : c.Answer} (hc : c.onDatabase = true) (hn : n ≠ k)
    (h : perform env c w = (.ok a, w')) :
    (invoke c).run (faulty env k) (w, n) = (.returned a, w', n + 1) := by
  apply run_invoke_of_ok
  simp only [faulty, hc, if_true, hn, if_false, h]

theorem run_invoke_failing {c : Call} (hc : c.onDatabase = true) :
    (invoke c).run (faulty env k) (w, k) = (.threw .systemError, w, k + 1) := by
  apply run_invoke_of_error
  simp only [faulty, hc, if_true]

/-- `check_session_key` makes two operations of the database. -/
theorem checkSessionKey_faulty (env : Env) (k : ℕ) (key : Int32) (w : World) :
    (∃ u, Accepted env w key u ∧ 2 ≤ k ∧
      (checkSessionKey key).run (faulty env k) (w, 0) = (.returned u, w.tick, 2)) ∨
    ((2 ≤ k → ∀ u, ¬ Accepted env w key u) ∧ ∃ e v, databaseOf v = w.db ∧
      (checkSessionKey key).run (faulty env k) (w, 0) = (.threw e, v)) := by
  by_cases hfirst : k = 0
  · subst hfirst
    refine .inr ⟨fun h => absurd h (by decide), .systemError, (w, 1), rfl, ?_⟩
    exact run_bind_of_threw (run_invoke_failing rfl)
  have hkey : (invoke (.getSessionKey key)).run (faulty env k) (w, 0) =
      (.returned (w.db.getSessionKey key), w, 1) :=
    run_invoke_faulty rfl (Ne.symm hfirst) rfl
  rw [checkSessionKey, run_bind_of_returned hkey]
  cases hs : w.db.getSessionKey key with
  | none =>
    refine .inr ⟨?_, _, (w, 1), rfl, rfl⟩
    rintro - u ⟨s, hs', -⟩
    rw [hs] at hs'
    cases hs'
  | some s =>
    have hnow : (invoke .now).run (faulty env k) (w, 1) = (.returned (nowAt env w), w.tick, 1) :=
      rfl
    simp only [run_bind_of_returned hnow]
    by_cases hlive : SessionLive s.validUntil (nowAt env w)
    · simp only [hlive, if_true]
      by_cases hsecond : k = 1
      · subst hsecond
        refine .inr ⟨fun h => absurd h (by decide), .systemError, (w.tick, 2), rfl, ?_⟩
        exact run_bind_of_threw (run_invoke_failing rfl)
      have huser : (invoke (.getUser s.user)).run (faulty env k) (w.tick, 1) =
          (.returned (w.db.getUser s.user), w.tick, 2) :=
        run_invoke_faulty rfl (Ne.symm hsecond) rfl
      rw [run_bind_of_returned huser]
      cases hu : w.db.getUser s.user with
      | none =>
        refine .inr ⟨?_, _, (w.tick, 2), rfl, rfl⟩
        rintro - u ⟨s', hs', -, hu'⟩
        rw [hs] at hs'
        cases hs'
        rw [hu] at hu'
        cases hu'
      | some u => exact .inl ⟨u, ⟨s, hs, hlive, hu⟩, by omega, rfl⟩
    · simp only [hlive, if_false]
      refine .inr ⟨?_, _, (w.tick, 1), rfl, rfl⟩
      rintro - u ⟨s', hs', hlive', -⟩
      rw [hs] at hs'
      cases hs'
      exact hlive hlive'

/-- The failing operation is the insertion of the membership by new_channel,
which is its fourth: the channel has been inserted by then. -/
def Halfway (env : Env) (k : ℕ) (w : World) (r : NewChannelRequest) (u : User) : Prop :=
  k = 3 ∧ Accepted env w r.token u ∧ ¬ w.db.ChannelConflict r.name

/-- The row of the channel that new_channel inserts. -/
def createdRow (db : Database) (r : NewChannelRequest) (u : User) : Channel :=
  { id := db.nextChannelId, name := r.name, ownerId := u.id, desc := r.desc }

/-- What a new_channel comes to while an operation fails. -/
theorem newChannel_faulty (env : Env) (k : ℕ) (r : NewChannelRequest) (w : World) :
    (∃ res v, (newChannel r).run (faulty env k) (w, 0) = (.returned res, v)) ∨
    (∃ e v, (newChannel r).run (faulty env k) (w, 0) = (.threw e, v) ∧
      (databaseOf v = w.db ∧ (∀ u, ¬ Halfway env k w r u) ∨
        ∃ u, Halfway env k w r u ∧ e = .systemError ∧
          databaseOf v = { w.db with channels := w.db.channels ++ [createdRow w.db r u] })) := by
  rcases checkSessionKey_faulty env k r.token w with
    ⟨u, hu, hk, hcheck⟩ | ⟨hno, e, v, hv, hcheck⟩
  · rw [newChannel, run_bind_of_returned hcheck]
    by_cases hthird : k = 2
    · subst hthird
      rw [run_bind_of_threw (run_invoke_failing rfl)]
      exact .inr ⟨_, _, rfl, .inl ⟨rfl, fun u h => absurd h.1 (by decide)⟩⟩
    by_cases hconflict : w.db.ChannelConflict r.name
    · have hinsert : (invoke (.insertChannel r.name u.id r.desc)).run (faulty env k) (w.tick, 2) =
          (.threw .systemError, w.tick, 3) := by
        apply run_invoke_of_error
        simp [faulty, Call.onDatabase, Ne.symm hthird, perform, Database.insertChannel, hconflict]
      rw [run_bind_of_threw hinsert]
      exact .inr ⟨_, _, rfl, .inl ⟨rfl, fun u h => absurd hconflict h.2.2⟩⟩
    have hinsert : (invoke (.insertChannel r.name u.id r.desc)).run (faulty env k) (w.tick, 2) =
        (.returned w.db.nextChannelId, w.tick.store
          { w.db with channels := w.db.channels ++ [createdRow w.db r u] }, 3) := by
      apply run_invoke_faulty rfl (Ne.symm hthird)
      simp only [perform, Database.insertChannel, World.tick_db, hconflict, if_false]
      rfl
    rw [run_bind_of_returned hinsert]
    by_cases hfourth : k = 3
    · subst hfourth
      rw [run_bind_of_threw (run_invoke_failing rfl)]
      exact .inr ⟨_, _, rfl, .inr ⟨u, ⟨rfl, hu, hconflict⟩, rfl, rfl⟩⟩
    · rw [run_bind_of_returned (run_invoke_faulty rfl (Ne.symm hfourth) rfl)]
      exact .inl ⟨_, _, rfl⟩
  · rw [newChannel, run_bind_of_threw hcheck]
    refine .inr ⟨e, v, rfl, .inl ⟨hv, ?_⟩⟩
    intro u h
    exact hno (by have := h.1; omega) u h.2.1

/-- Catching a `proto_error` does not touch the store. -/
theorem run_catchProto_snd {α : Type} (p : Handler α) (f : Bytes → α) (v : World × ℕ) :
    ((catchProto p fun what => pure (f what)).run (faulty env k) v).2 =
      (p.run (faulty env k) v).2 := by
  rw [catchProto, run_tryCatch]
  rcases p.run (faulty env k) v with ⟨a | e | _, v'⟩
  · rfl
  · cases e <;> rfl
  · rfl

theorem run_catchProto_of_returned {α : Type} {p : Handler α} {handler : Bytes → Handler α}
    {v v' : World × ℕ} {a : α} (h : p.run (faulty env k) v = (.returned a, v')) :
    (catchProto p handler).run (faulty env k) v = (.returned a, v') := by
  rw [catchProto, run_tryCatch, h]

/-- The reply to a new_channel is made of the outcome of its handler. -/
theorem serveFaulty_newChannel (env : Env) {turns : ℕ} {m : Message} {r : NewChannelRequest}
    (h : (Request.newChannel r).Parses m) :
    (∀ res v, (newChannel r).run (faulty env k) (w, 0) = (.returned res, v) →
      serveFaulty env k turns m w = (.returned res.toMessage, v)) ∧
    ∀ e v, (newChannel r).run (faulty env k) (w, 0) = (.threw e, v) →
      (serveFaulty env k turns m w).2 = v := by
  have hof : NewChannelRequest.ofMessage m = .ok r := h
  have hdispatch : dispatch turns m = catchProto
      (catchProto (newChannel r >>= fun res => Program.ofExcept (.ok (IdResponse.toMessage res)))
        fun reason => return ErrorResponse.toMessage { reason := reason })
      fun what => return excToMessage what := by
    rw [dispatch_eq (k := 6) (by decide) h.cmd]
    show catchProto (replyTo NewChannelRequest.ofMessage
      (fun res => .ok (IdResponse.toMessage res)) m newChannel) _ = _
    rw [replyTo, hof]
    rfl
  rw [serveFaulty, hdispatch]
  constructor
  · intro res v hrun
    apply run_catchProto_of_returned
    apply run_catchProto_of_returned
    rw [run_bind_of_returned hrun]
    rfl
  · intro e v hrun
    rw [run_catchProto_snd, run_catchProto_snd, run_bind_of_threw hrun]

/-- A message that no handler answers ok leaves no trace, unless it is halfway
through a new_channel: then the channel stays, without a member. -/
theorem failed_request_traceless {env : Env} {k turns : ℕ} {m : Message} {w : World}
    (hfail : ∀ reply, (serveFaulty env k turns m w).1 = .returned reply → ¬ IsOkay reply) :
    ((∀ r u, (Request.newChannel r).Parses m → ¬ Halfway env k w r u) →
      databaseOf (serveFaulty env k turns m w).2 = w.db) ∧
    ∀ r u, (Request.newChannel r).Parses m → Halfway env k w r u →
      databaseOf (serveFaulty env k turns m w).2 =
        { w.db with channels := w.db.channels ++ [createdRow w.db r u] } := by
  by_cases hparse : ∃ r, (Request.newChannel r).Parses m
  · obtain ⟨r, hr⟩ := hparse
    obtain ⟨hreturned, hthrew⟩ := serveFaulty_newChannel env hr
    have hsame : ∀ r', (Request.newChannel r').Parses m → r' = r := by
      intro r' hr'
      exact Except.ok.inj (Eq.trans (Eq.symm hr') hr)
    rcases newChannel_faulty env k r w with ⟨res, v, hrun⟩ | ⟨e, v, hrun, hleft⟩
    · have hreply := congrArg Prod.fst (hreturned res v hrun)
      have hok : IsOkay res.toMessage := rfl
      exact absurd hok (hfail _ hreply)
    · rw [hthrew e v hrun]
      rcases hleft with ⟨hdb, hno⟩ | ⟨u, hhalf, -, hdb⟩
      · refine ⟨fun _ => hdb, ?_⟩
        intro r' u hr' hhalf
        obtain rfl := hsame r' hr'
        exact absurd hhalf (hno u)
      · refine ⟨fun hno => absurd hhalf (hno r u hr), ?_⟩
        intro r' u' hr' hhalf'
        obtain rfl := hsame r' hr'
        obtain rfl := hhalf.2.1.unique hhalf'.2.1
        exact hdb
  · have hnone : ∀ r, ¬ (Request.newChannel r).Parses m := fun r hr => hparse ⟨r, hr⟩
    have hdb : databaseOf (serveFaulty env k turns m w).2 = w.db := by
      rcases allOrNothing_dispatch turns hnone (w, 0) with ⟨reply, hreply, hok⟩ | hdb
      · exact absurd hok (hfail reply hreply)
      · exact hdb
    exact ⟨fun _ => hdb, fun r _ hr => absurd hr (hnone r)⟩

end NewChannel

def newRoom : Message :=
  NewChannelRequest.toMessage { token := 7, name := ascii "room", desc := none }

theorem newRoom_fails :
    (serveFaulty twoDaysLater 3 0 newRoom masterSession).1 = .threw .systemError := by
  decide +kernel

/-- The channel is there, and nobody is a member of it. -/
theorem newRoom_leaves_trace :
    Reachable twoDaysLater (fun _ => True) masterSession ∧
      (serveFaulty twoDaysLater 3 0 newRoom masterSession).1 = .threw .systemError ∧
      databaseOf (serveFaulty twoDaysLater 3 0 newRoom masterSession).2 ≠ masterSession.db := by
  refine ⟨.serve .refl 1 trivial, newRoom_fails, ?_⟩
  decide +kernel

theorem failed_request_traceless_newRoom :
    ((∀ r u, (Request.newChannel r).Parses newRoom → ¬ Halfway twoDaysLater 3 masterSession r u) →
      databaseOf (serveFaulty twoDaysLater 3 0 newRoom masterSession).2 = masterSession.db) ∧
    ∀ r u, (Request.newChannel r).Parses newRoom → Halfway twoDaysLater 3 masterSession r u →
      databaseOf (serveFaulty twoDaysLater 3 0 newRoom masterSession).2 =
        { masterSession.db with
          channels := masterSession.db.channels ++ [createdRow masterSession.db r u] } := by
  apply failed_request_traceless
  intro reply hreply
  rw [newRoom_fails] at hreply
  cases hreply

end Dotchat
