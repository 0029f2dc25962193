import Dotchat.Library.Overlap
import Dotchat.InterleavedHandlers

/-!
Requests as programs of database operations only. What the clocks show a request
and what is drawn for it is fixed beforehand, so it reads the same in whichever
order its operations and those of others happen. `answer` puts the readings in;
an answered request is one that is served with some clocks and draws, and two
requests whose operations alternate on a running server are two answered
requests that do.
-/
namespace Dotchat

open Db Handlers Program

/-- What a request reads from outside: the moments of its calls of `now()` and of
`now_uncut()` in order, and what `RAND_bytes` fills in for it. -/
structure Readings where
  now : ℕ → Instant
  nowUncut : ℕ → Instant
  rand : ℕ → Int32

/-- A sequence behind a first element. -/
def following {α : Type} (a : α) (s : ℕ → α) : ℕ → α
  | 0 => a
  | i + 1 => s i

namespace Readings

def afterNow (r : Readings) : Readings := { r with now := fun i => r.now (i + 1) }

def afterNowUncut (r : Readings) : Readings := { r with nowUncut := fun i => r.nowUncut (i + 1) }

def afterRand (r : Readings) : Readings := { r with rand := fun i => r.rand (i + 1) }

end Readings

/-- The database operations of a handler with these readings. -/
def answer {α : Type} (r : Readings) : Handler α → Handler α
  | .done o => .done o
  | .call .now next => answer r.afterNow (next (.ok (r.now 0).now))
  | .call .nowUncut next => answer r.afterNowUncut (next (.ok (r.nowUncut 0).nowUncut))
  | .call .genKey next => answer r.afterRand (next (.ok (r.rand 0)))
  | .call c next => .call c fun a => answer r (next a)

/-- The operations that touch the database. -/
def Call.shared : Call → Bool
  | .now | .nowUncut | .genKey => false
  | _ => true

/-- Clocks that stand still. -/
def stopped : Env where
  clock _ := ⟨0, 0, Nat.two_pow_pos 63⟩
  rand _ := 0

/-- `perform`, for the operations that touch the database. -/
def operate : Program.Store Call Call.Answer Exc Database := fun c db =>
  ((perform stopped c { db := db }).1, (perform stopped c { db := db }).2.db)

section Answer

variable {α β : Type}

theorem answer_shared {c : Call} (h : c.shared = true) (r : Readings)
    (next : Except Exc c.Answer → Handler α) :
    answer r (.call c next) = .call c fun a => answer r (next a) := by
  cases c with
  | now | nowUncut | genKey => cases h
  | _ => rfl

/-- Only the database decides what the operations on it do. -/
theorem perform_shared (env : Env) {c : Call} (h : c.shared = true) (w : World) :
    perform env c w = ((operate c w.db).1, { w with db := (operate c w.db).2 }) := by
  cases c with
  | now | nowUncut | genKey => cases h
  | insertUser name pass =>
    simp only [operate, perform]
    cases w.db.insertUser name pass <;> rfl
  | insertChannel name ownerId desc =>
    simp only [operate, perform]
    cases w.db.insertChannel name ownerId desc <;> rfl
  | updateUser row =>
    simp only [operate, perform]
    cases w.db.updateUser row <;> rfl
  | _ => rfl

/-- Only the readings and draws to come decide a run. -/
theorem run_congr (env env' : Env) (p : Handler α) {w : World}
    (hclock : ∀ i, w.readings ≤ i → env.clock i = env'.clock i)
    (hrand : ∀ i, w.draws ≤ i → env.rand i = env'.rand i) :
    p.run (perform env) w = p.run (perform env') w := by
  induction p generalizing w with
  | done o => rfl
  | call c next ih =>
    show (next (perform env c w).1).run (perform env) (perform env c w).2 =
      (next (perform env' c w).1).run (perform env') (perform env' c w).2
    by_cases hshared : c.shared = true
    · rw [perform_shared env hshared, perform_shared env' hshared]
      exact ih _ hclock hrand
    · cases c with
      | now =>
        simp only [perform, hclock w.readings (Nat.le_refl _)]
        exact ih _ (fun i hi => hclock i (Nat.le_of_succ_le hi)) hrand
      | nowUncut =>
        simp only [perform, hclock w.readings (Nat.le_refl _)]
        exact ih _ (fun i hi => hclock i (Nat.le_of_succ_le hi)) hrand
      | genKey =>
        simp only [perform, hrand w.draws (Nat.le_refl _)]
        exact ih _ hclock fun i hi => hrand i (Nat.le_of_succ_le hi)
      | _ => exact absurd rfl hshared

/-- A request that is answered beforehand is served so with some clocks and draws. -/
theorem exists_served (r : Readings) (p : Handler α) (w : World) :
    ∃ env, ∃ w', p.run (perform env) w = (((answer r p).run operate w.db).1, w') ∧
      w'.db = ((answer r p).run operate w.db).2 := by
  induction p generalizing r w with
  | done o => exact ⟨stopped, w, rfl, rfl⟩
  | call c next ih =>
    by_cases hshared : c.shared = true
    · obtain ⟨env, w', hrun, hdb⟩ := ih (operate c w.db).1 r { w with db := (operate c w.db).2 }
      refine ⟨env, w', ?_, ?_⟩
      · show (next (perform env c w).1).run (perform env) (perform env c w).2 = _
        rw [perform_shared env hshared, hrun, answer_shared hshared]
        rfl
      · rw [hdb, answer_shared hshared]
        rfl
    · cases c with
      | now =>
        obtain ⟨env, w', hrun, hdb⟩ := ih (.ok (r.now 0).now) r.afterNow
          { w with readings := w.readings + 1 }
        refine ⟨{ env with clock := fun i => if i = w.readings then r.now 0 else env.clock i },
          w', ?_, hdb⟩
        simp only [Program.run, perform, if_true]
        rw [run_congr _ env, hrun]
        · rfl
        · exact fun i hi => if_neg (Nat.ne_of_gt hi)
        · exact fun _ _ => rfl
      | nowUncut =>
        obtain ⟨env, w', hrun, hdb⟩ := ih (.ok (r.nowUncut 0).nowUncut) r.afterNowUncut
          { w with readings := w.readings + 1 }
        refine ⟨{ env with clock := fun i => if i = w.readings then r.nowUncut 0 else env.clock i },
          w', ?_, hdb⟩
        simp only [Program.run, perform, if_true]
        rw [run_congr _ env, hrun]
        · rfl
        · exact fun i hi => if_neg (Nat.ne_of_gt hi)
        · exact fun _ _ => rfl
      | genKey =>
        obtain ⟨env, w', hrun, hdb⟩ := ih (.ok (r.rand 0)) r.afterRand
          { w with draws := w.draws + 1 }
        refine ⟨{ env with rand := fun i => if i = w.draws then r.rand 0 else env.rand i },
          w', ?_, hdb⟩
        simp only [Program.run, perform, if_true]
        rw [run_congr _ env, hrun]
        · rfl
        · exact fun _ _ => rfl
        · exact fun i hi => if_neg (Nat.ne_of_gt hi)
      | _ => exact absurd rfl hshared

/-- Two requests whose operations alternate on a running server are two answered
requests that do. -/
theorem exists_answers {env : Env} {p : Handler α} {q : Handler β} {w w' : World}
    {o : Outcome Exc α} {o' : Outcome Exc β} (h : Interleaved (perform env) p q w o o' w') :
    ∃ r r', Interleaved operate (answer r p) (answer r' q) w.db o o' w'.db := by
  induction h with
  | done o o' w =>
    let r : Readings := { now := env.clock, nowUncut := env.clock, rand := env.rand }
    exact ⟨r, r, .done o o' w.db⟩
  | @left c next q w w' o o' _ ih =>
    obtain ⟨r, r', hrest⟩ := ih
    by_cases hshared : c.shared = true
    · rw [perform_shared env hshared] at hrest
      refine ⟨r, r', ?_⟩
      rw [answer_shared hshared]
      exact .left hrest
    · cases c with
      | now => exact ⟨{ r with now := following (env.clock w.readings) r.now }, r', hrest⟩
      | nowUncut =>
        exact ⟨{ r with nowUncut := following (env.clock w.readings) r.nowUncut }, r', hrest⟩
      | genKey => exact ⟨{ r with rand := following (env.rand w.draws) r.rand }, r', hrest⟩
      | _ => exact absurd rfl hshared
  | @right c next p w w' o o' _ ih =>
    obtain ⟨r, r', hrest⟩ := ih
    by_cases hshared : c.shared = true
    · rw [perform_shared env hshared] at hrest
      refine ⟨r, r', ?_⟩
      rw [answer_shared hshared]
      exact .right hrest
    · cases c with
      | now => exact ⟨r, { r' with now := following (env.clock w.readings) r'.now }, hrest⟩
      | nowUncut =>
        exact ⟨r, { r' with nowUncut := following (env.clock w.readings) r'.nowUncut }, hrest⟩
      | genKey => exact ⟨r, { r' with rand := following (env.rand w.draws) r'.rand }, hrest⟩
      | _ => exact absurd rfl hshared

theorem answer_finish (g : Outcome Exc α → Outcome Exc β) (p : Handler α) (r : Readings) :
    answer r (p.finish g) = (answer r p).finish g := by
  induction p generalizing r with
  | done o => rfl
  | call c next ih =>
    by_cases hshared : c.shared = true
    · rw [answer_shared hshared]
      show answer r (.call c fun a => (next a).finish g) = _
      rw [answer_shared hshared]
      exact congrArg (Program.call c) (funext fun a => ih a r)
    · cases c with
      | now => exact ih _ _
      | nowUncut => exact ih _ _
      | genKey => exact ih _ _
      | _ => exact absurd rfl hshared

end Answer

/-- Make a call and go on with its answer. -/
def query {α : Type} (c : Call) (k : c.Answer → Handler α) : Handler α :=
  .call c fun
    | .ok a => k a
    | .error e => .done (.threw e)

section Query

variable {α β : Type}

theorem invoke_bind (c : Call) (k : c.Answer → Handler α) : (invoke c >>= k) = query c k :=
  congrArg (Program.call c) (funext fun a => by cases a <;> rfl)

theorem query_bind (c : Call) (k : c.Answer → Handler α) (f : α → Handler β) :
    (query c k >>= f) = query c fun a => k a >>= f :=
  congrArg (Program.call c) (funext fun a => by cases a <;> rfl)

/-- What a request with a token starts with. -/
theorem checkSessionKey_bind (key : Int32) (f : User → Handler α) :
    (checkSessionKey key >>= f) = query (.getSessionKey key) fun
      | some s => query .now fun now =>
          if SessionLive s.validUntil now then query (.getUser s.user) fun
            | some u => f u
            | none => .done (.threw .badOptionalAccess)
          else protoThrow (tokenText key)
      | none => protoThrow (tokenText key) := by
  unfold checkSessionKey
  rw [invoke_bind, query_bind]
  congr 1
  funext s
  cases s with
  | none => rfl
  | some s =>
    show ((invoke .now >>= _) >>= f) = _
    rw [invoke_bind, query_bind]
    congr 1
    funext now
    by_cases hlive : SessionLive s.validUntil now
    · simp only [hlive, if_true]
      rw [invoke_bind, query_bind]
      congr 1
      funext u
      cases u <;> rfl
    · simp only [hlive, if_false]
      rfl

end Query

section Dispatch

variable {turns : ℕ} {m : Message}

/-- What `catch(const proto_error &e)` makes of an outcome. -/
def recovered {α : Type} (handler : Bytes → Outcome Exc α) : Outcome Exc α → Outcome Exc α
  | .threw (.protoError what) => handler (cString what)
  | o => o

theorem catchProto_eq_finish {α : Type} {handler : Bytes → Handler α}
    {g : Bytes → Outcome Exc α} (h : ∀ what, handler what = .done (g what)) (p : Handler α) :
    catchProto p handler = p.finish (recovered g) := by
  apply tryCatch_eq_finish
  · intro e
    cases e with
    | protoError what => exact h (cString what)
    | _ => rfl
  · exact fun _ => rfl
  · rfl

/-- The outcome of `toMessage` behind a handler. -/
def converted {Res : Type} (toMessage : Res → Except Exc Message) :
    Outcome Exc Res → Outcome Exc Message
  | .returned res =>
      match toMessage res with
      | .ok m => .returned m
      | .error e => .threw e
  | .threw e => .threw e
  | .running => .running

theorem bind_toMessage {Res : Type} (toMessage : Res → Except Exc Message) (p : Handler Res) :
    (p >>= fun res => Program.ofExcept (toMessage res)) = p.finish (converted toMessage) := by
  apply bind_eq_finish
  · intro res
    simp only [converted]
    cases toMessage res <;> rfl
  · exact fun _ => rfl
  · rfl

/-- A command is handled by its request type, or its message does not parse. -/
theorem replyTo_finish {Req Res : Type} {ofMessage : Message → Except Exc Req}
    {toMessage : Res → Except Exc Message} {f : Req → Handler Res} (inj : Req → Request)
    (wrap : Res → Response) (hparse : ∀ req, ofMessage m = .ok req → (inj req).Parses m)
    (hrespond : ∀ req, respond turns (inj req) = wrap <$> f req)
    (hto : ∀ res, (wrap res).toMessage = toMessage res) {handler : Bytes → Handler Message}
    {g : Bytes → Outcome Exc Message} (hhandler : ∀ what, handler what = .done (g what)) :
    (∃ o, catchProto (replyTo ofMessage toMessage m f) handler = .done o) ∨
      ∃ req : Request, req.Parses m ∧ catchProto (replyTo ofMessage toMessage m f) handler =
        (respond turns req).finish (replyOf Response.toMessage) := by
  have hreply : replyTo ofMessage toMessage m f =
      ((Program.ofExcept (ofMessage m) : Handler Req) >>= fun req =>
        f req >>= fun res => Program.ofExcept (toMessage res)).finish
      (recovered fun reason => .returned (ErrorResponse.toMessage { reason := reason })) :=
    catchProto_eq_finish (fun _ => rfl) _
  rw [catchProto_eq_finish hhandler, hreply, finish_finish]
  cases hof : ofMessage m with
  | error e => exact .inl ⟨_, rfl⟩
  | ok req =>
    refine .inr ⟨inj req, hparse req hof, ?_⟩
    have hreq : ((Program.ofExcept (.ok req) : Handler Req) >>= fun req =>
        f req >>= fun res => Program.ofExcept (toMessage res)) =
        (f req).finish (converted toMessage) := bind_toMessage toMessage (f req)
    rw [hreq, finish_finish, hrespond, map_eq_finish, finish_finish]
    congr 1
    funext o
    rcases o with res | (_ | _ | _ | _ | _) | _
    · simp only [Outcome.map, replyOf, converted, hto]
      rcases toMessage res with (_ | _ | _ | _ | _) | m' <;> rfl
    all_goals rfl

/-- Dispatching a message makes the calls of its request, or none. -/
theorem dispatch_finish (turns : ℕ) (m : Message) :
    (∃ o, dispatch turns m = .done o) ∨ ∃ req : Request, req.Parses m ∧
      dispatch turns m = (respond turns req).finish (replyOf Response.toMessage) := by
  unfold dispatch
  cases hfind : (switcher turns).find? fun e => ascii e.1 = m.cmd with
  | none => exact .inl ⟨_, rfl⟩
  | some e =>
    have hmem := List.mem_of_find?_eq_some hfind
    simp only [switcher, List.mem_cons, List.not_mem_nil, or_false] at hmem
    rcases hmem with rfl | rfl | rfl | rfl | rfl | rfl | rfl | rfl | rfl | rfl | rfl
    · exact replyTo_finish .login .token (fun _ h => h) (fun _ => rfl) (fun _ => rfl)
        fun _ => rfl
    · exact replyTo_finish .logout .okay (fun _ h => h) (fun _ => rfl) (fun _ => rfl)
        fun _ => rfl
    · exact replyTo_finish .channelList .channelList (fun _ h => h) (fun _ => rfl)
        (fun _ => rfl) fun _ => rfl
    · exact replyTo_finish .channelMsg .channelMsg (fun _ h => h) (fun _ => rfl)
        (fun _ => rfl) fun _ => rfl
    · exact replyTo_finish .sendMsg .okay (fun _ h => h) (fun _ => rfl) (fun _ => rfl)
        fun _ => rfl
    · exact replyTo_finish .channelDetails .channelDetails (fun _ h => h) (fun _ => rfl)
        (fun _ => rfl) fun _ => rfl
    · exact replyTo_finish .newChannel .id (fun _ h => h) (fun _ => rfl) (fun _ => rfl)
        fun _ => rfl
    · exact replyTo_finish .newUser .okay (fun _ h => h) (fun _ => rfl) (fun _ => rfl)
        fun _ => rfl
    · exact replyTo_finish .changePass .okay (fun _ h => h) (fun _ => rfl) (fun _ => rfl)
        fun _ => rfl
    · exact replyTo_finish .userDetails .userDetails (fun _ h => h) (fun _ => rfl)
        (fun _ => rfl) fun _ => rfl
    · exact replyTo_finish .inviteUser .okay (fun _ h => h) (fun _ => rfl) (fun _ => rfl)
        fun _ => rfl

end Dispatch
end Dotchat
