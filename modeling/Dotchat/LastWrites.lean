import Dotchat.Scripts
import Dotchat.ConcurrentRuns

/-!
Every handler reads first and writes with its last operation; only new_channel
inserts a channel and then a membership. So a request is carried out, for
everyone else, at the moment of its write. The shape of the handlers also shows
what they write: the expiry of a session is always that of a login.
-/
namespace Dotchat

open Db Handlers Program Threads

/-- A session that is written has the expiry of a login. -/
def Call.Stamped : Call → Prop
  | .replaceSessionKey row => ∃ t : Instant, row.validUntil = t.nowUncut + sessionLength
  | _ => True

/-- What may follow a write: nothing, or the membership of the owner of the
channel that was inserted. -/
inductive LastWrite {α : Type} : (c : Call) → (Except Exc c.Answer → Handler α) → Prop
  | last {c : Call} {next : Except Exc c.Answer → Handler α} (h : ∀ a, (next a).ended = true) :
      LastWrite c next
  | join {name : Bytes} {ownerId : Int32} {desc : Option Bytes}
      {next : Except Exc Int32 → Handler α} (herror : ∀ e, (next (.error e)).ended = true)
      (h : ∀ id, ∃ next', next (.ok id) =
          .call (.replaceChannelMember { user := ownerId, channel := id }) next' ∧
        ∀ a, (next' a).ended = true) : LastWrite (.insertChannel name ownerId desc) next

/-- The program reads, and what it writes comes last. -/
def WritesLast {α : Type} : Handler α → Prop
  | .done _ => True
  | .call c next =>
      c.reads = true ∧ (∀ a, WritesLast (next (.ok a))) ∨
        c.reads = false ∧ c.Stamped ∧ LastWrite c next

section Rules

variable {α β : Type}

theorem WritesLast.of_ended {p : Handler α} (h : p.ended = true) : WritesLast p := by
  obtain ⟨o, rfl⟩ := ended_iff.mp h
  trivial

theorem LastWrite.writesLast {c : Call} {next : Except Exc c.Answer → Handler α}
    (h : LastWrite c next) (a : Except Exc c.Answer) : WritesLast (next a) := by
  cases h with
  | last h => exact .of_ended (h a)
  | join herror h =>
    cases a with
    | error e => exact .of_ended (herror e)
    | ok id =>
      obtain ⟨next', hnext, hend⟩ := h id
      rw [hnext]
      exact .inr ⟨rfl, trivial, .last hend⟩

theorem WritesLast.finish {p : Handler α} (h : WritesLast p) (g : Outcome Exc α → Outcome Exc β) :
    WritesLast (p.finish g) := by
  have hended : ∀ q : Handler α, q.ended = true → (q.finish g).ended = true := by
    intro q hq
    obtain ⟨o, rfl⟩ := ended_iff.mp hq
    rfl
  induction p with
  | done o => trivial
  | call c next ih =>
    rcases h with ⟨hc, h⟩ | ⟨hc, hstamped, hlast⟩
    · exact .inl ⟨hc, fun a => ih _ (h a)⟩
    · refine .inr ⟨hc, hstamped, ?_⟩
      cases hlast with
      | last h => exact .last fun a => hended _ (h a)
      | @join name ownerId desc next herror h =>
        refine .join (fun e => hended _ (herror e)) ?_
        intro id
        obtain ⟨next', hnext, hend⟩ := h id
        refine ⟨fun a => (next' a).finish g, ?_, fun a => hended _ (hend a)⟩
        show (next (.ok id)).finish g = _
        rw [hnext]
        rfl

theorem WritesLast.read {c : Call} {k : c.Answer → Handler α} (hc : c.reads = true)
    (h : ∀ a, WritesLast (k a)) : WritesLast (query c k) :=
  .inl ⟨hc, h⟩

theorem WritesLast.write {c : Call} {k : c.Answer → Handler α} (hc : c.reads = false)
    (hstamped : c.Stamped) (h : ∀ a, (k a).ended = true) : WritesLast (query c k) := by
  refine .inr ⟨hc, hstamped, .last ?_⟩
  intro a
  cases a with
  | ok a => exact h a
  | error e => rfl

theorem writesLast_session (r : Readings) (token : Int32) {k : User → Handler α}
    (h : ∀ u, WritesLast (k u)) : WritesLast (session r token k) := by
  apply WritesLast.read rfl
  intro s
  cases s with
  | none => trivial
  | some s =>
    show WritesLast (ite _ _ _)
    split
    · apply WritesLast.read rfl
      intro u
      cases u with
      | none => trivial
      | some u => exact h u
    · trivial

theorem writesLast_search (key : Int32) {k : Handler α} (h : WritesLast k) (r : Readings)
    (turns : ℕ) : WritesLast (search key k r turns) := by
  induction turns generalizing r with
  | zero => trivial
  | succ turns ih =>
    refine .inl ⟨rfl, ?_⟩
    intro s
    cases s with
    | none => exact h
    | some s =>
      show WritesLast (ite _ _ _)
      split
      · refine .inl ⟨rfl, ?_⟩
        intro u
        cases u with
        | none => trivial
        | some u => exact ih _
      · exact h

theorem writesLast_body (r : Readings) (u : User) (req : Request) :
    WritesLast (body r u req) := by
  cases req with
  | login _ | newUser _ => trivial
  | logout _ => exact .write rfl trivial fun _ => rfl
  | channelList _ => exact .read rfl fun _ => trivial
  | changePass _ => exact .write rfl trivial fun _ => rfl
  | newChannel q =>
    refine .inr ⟨rfl, trivial, .join (fun _ => rfl) ?_⟩
    intro id
    refine ⟨_, rfl, ?_⟩
    intro a
    cases a <;> rfl
  | channelMsg q =>
    apply WritesLast.read rfl
    intro m
    show WritesLast (ite _ _ _)
    split
    · exact .read rfl fun _ => trivial
    · trivial
  | sendMsg q =>
    apply WritesLast.read rfl
    intro m
    show WritesLast (ite _ _ _)
    split
    · exact .write rfl trivial fun _ => rfl
    · trivial
  | channelDetails q =>
    apply WritesLast.read rfl
    intro members
    show WritesLast (ite _ _ _)
    split
    · apply WritesLast.read rfl
      intro c
      cases c <;> trivial
    · trivial
  | userDetails q =>
    apply WritesLast.read rfl
    intro v
    cases v with
    | none => trivial
    | some v => exact .read rfl fun _ => trivial
  | inviteUser q =>
    apply WritesLast.read rfl
    intro c
    cases c with
    | none => trivial
    | some c =>
      show WritesLast (ite _ _ _)
      split
      · trivial
      · apply WritesLast.read rfl
        intro v
        cases v with
        | none => trivial
        | some v =>
          apply WritesLast.read rfl
          intro joined
          show WritesLast (ite _ _ _)
          split
          · trivial
          · exact .write rfl trivial fun _ => rfl

theorem writesLast_login (r : Readings) (turns : ℕ) (l : LoginRequest) :
    WritesLast (loginScript r turns l) := by
  apply WritesLast.read rfl
  intro users
  cases users with
  | nil => trivial
  | cons u others =>
    show WritesLast (ite _ _ _)
    split
    · trivial
    · apply writesLast_search
      exact .write rfl ⟨_, rfl⟩ fun _ => rfl

theorem operate_reads {c : Call} (hc : c.reads = true) (db : Database) :
    ∃ a, operate c db = (.ok a, db) := by
  obtain ⟨a, ha, hdb⟩ := reads_spec stopped hc { db := db }
  exact ⟨a, Prod.ext ha hdb⟩

theorem WritesLast.advances {db : Database} {p p' : Handler α} (h : WritesLast p)
    (hp : Advances operate db p p') : WritesLast p' := by
  induction hp with
  | refl p => exact h
  | call _ _ ih =>
    apply ih
    rcases h with ⟨hc, h⟩ | ⟨-, -, hlast⟩
    · obtain ⟨a, ha⟩ := operate_reads hc db
      rw [ha]
      exact h a
    · exact hlast.writesLast _

end Rules

/-- Every request reads first and writes last. -/
theorem writesLast_answer (r : Readings) (turns : ℕ) (req : Request) :
    WritesLast (answer r (respond turns req)) := by
  cases htoken : req.token with
  | some token =>
    rw [answer_token htoken]
    exact writesLast_session r token fun u => writesLast_body _ u req
  | none =>
    cases req with
    | login l =>
      rw [answer_login]
      exact writesLast_login r turns l
    | newUser q =>
      rw [answer_newUser]
      exact .write rfl trivial fun _ => rfl
    | _ => cases htoken

theorem writesLast_dispatch (r : Readings) (turns : ℕ) (m : Message) :
    WritesLast (answer r (dispatch turns m)) := by
  rcases dispatch_finish turns m with ⟨o, ho⟩ | ⟨req, -, hreq⟩
  · rw [ho]
    trivial
  · rw [hreq, answer_finish]
    exact (writesLast_answer r turns req).finish _

section Pools

variable {env : Env} {α : Type}

/-- What a program with this shape does, and that the rest of it has the shape. -/
theorem writesLast_next {c : Call} {next : Except Exc c.Answer → Handler α}
    (h : ∀ r, WritesLast (answer r (.call c next))) (w : World) :
    c.Stamped ∧ ∀ r, WritesLast (answer r (next (perform env c w).1)) := by
  by_cases hshared : c.shared = true
  · simp only [answer_shared hshared] at h
    constructor
    · rcases h { now := env.clock, nowUncut := env.clock, rand := env.rand } with
        ⟨hc, -⟩ | ⟨-, hstamped, -⟩
      · cases c with
        | replaceSessionKey row => cases hc
        | _ => trivial
      · exact hstamped
    · intro r
      rcases h r with ⟨hc, hnext⟩ | ⟨-, -, hlast⟩
      · obtain ⟨a, ha, -⟩ := reads_spec env hc w
        rw [ha]
        exact hnext a
      · exact hlast.writesLast _
  · cases c with
    | now =>
      exact ⟨trivial, fun r => h { r with now := following (env.clock w.readings) r.now }⟩
    | nowUncut =>
      exact ⟨trivial, fun r => h { r with nowUncut := following (env.clock w.readings) r.nowUncut }⟩
    | genKey => exact ⟨trivial, fun r => h { r with rand := following (env.rand w.draws) r.rand }⟩
    | _ => exact absurd rfl hshared

/-- Keys are unique and every expiry is that of a login. -/
def sessions : Discipline World where
  Inv w := Table.Keyed (·.key) w.db.sessionKeys ∧ Timeless w.db
  Grows _ _ := True
  refl _ := trivial
  trans _ _ := trivial

theorem stamped_keeps {c : Call} (hc : c.Stamped) {w : World} (h : sessions.Inv w) :
    sessions.Inv (perform env c w).2 := by
  obtain ⟨hkeyed, htimeless⟩ := h
  cases c with
  | replaceSessionKey row =>
    refine ⟨Table.keyed_replace hkeyed, ?_⟩
    intro s hs
    rcases Table.mem_replace.mp hs with rfl | ⟨hs, -⟩
    · exact hc
    · exact htimeless s hs
  | removeSessionKeysOf user =>
    refine ⟨Table.keyed_filter hkeyed _, ?_⟩
    exact fun s hs => htimeless s (List.mem_filter.mp hs).1
  | insertUser name pass =>
    obtain ⟨users, hw⟩ := perform_insertUser env w name pass
    rw [hw]
    exact ⟨hkeyed, htimeless⟩
  | insertChannel name ownerId desc =>
    obtain ⟨channels, hw⟩ := perform_insertChannel env w name ownerId desc
    rw [hw]
    exact ⟨hkeyed, htimeless⟩
  | updateUser row =>
    obtain ⟨users, hw⟩ := perform_updateUser env w row
    rw [hw]
    exact ⟨hkeyed, htimeless⟩
  | _ => exact ⟨hkeyed, htimeless⟩

theorem meets_sessions {p : Handler α} (h : ∀ r, WritesLast (answer r p)) (tr : Trace) (w : World) :
    Meets (perform env) sessions (fun _ _ _ => True) p tr w := by
  induction p generalizing tr w with
  | done o => exact fun _ _ _ => trivial
  | call c next ih =>
    intro v _ hinv
    obtain ⟨hstamped, hnext⟩ := writesLast_next h v
    exact ⟨stamped_keeps hstamped hinv, trivial, ih _ hnext _ _⟩

/-- What holds of the tables whatever the handlers are doing. -/
structure Sound (db : Database) : Prop where
  relational : Relational db
  sessionKeys : Table.Keyed (·.key) db.sessionKeys
  timeless : Timeless db

theorem Sound.live_iff {db : Database} (h : Sound db) {key : Int32} {s : SessionKey}
    (hs : db.getSessionKey key = some s) (n n' : UInt32) :
    SessionLive s.validUntil n ↔ SessionLive s.validUntil n' :=
  Timeless.live_iff (w := { db := db }) h.timeless hs n n'

theorem sound_of_reached {pool : ServerPool} (h : ReachedPool env pool) : Sound pool.store.db := by
  have hstart : sessions.Inv ({} : World) := by simp [sessions, Table.Keyed, Timeless,
    Database.initial]
  obtain ⟨⟨hkeyed, htimeless⟩, -, -⟩ := h.meets hstart fun (j : Job) v _ =>
    meets_sessions (fun r => writesLast_dispatch r j.turns j.msg) [] v
  exact ⟨(pool_meets h).1, hkeyed, htimeless⟩

end Pools
end Dotchat
