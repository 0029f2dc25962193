import Dotchat.Invariants

/-!
How long a session lives. Login writes an expiry in nanoseconds of the steady
clock, and `check_session_key` compares it with milliseconds of the system clock
cut to 32 bits. Every representable expiry is above every such number, so a
session is either live at all times or, when adding 24 hours has overflown, at
none. A session row stays as it is until its user logs out.
-/
namespace Dotchat

open Db Handlers

/-- 24 hours, in nanoseconds -/
def day : ℕ := 24 * 60 * 60 * 1000000000

/-- The expiry of a login at this moment can be represented. -/
def Instant.Fits (t : Instant) : Prop := t.steady + day < 2 ^ 63

instance (t : Instant) : Decidable t.Fits := inferInstanceAs (Decidable (_ < _))

/-- Both clocks only move forward. -/
structure Env.Forward (env : Env) : Prop where
  steady : ∀ i j, i ≤ j → (env.clock i).steady ≤ (env.clock j).steady
  system : ∀ i j, i ≤ j → (env.clock i).system ≤ (env.clock j).system

section Expiry

theorem toInt_now (n : UInt32) : n.toUInt64.toInt64.toInt = n.toNat := by
  have h := n.toNat_lt
  have hbmod : (n.toNat : Int).bmod (2 ^ 64) = n.toNat :=
    Int.bmod_eq_of_le (by omega) (by omega)
  rw [← Int64.toInt_toBitVec, UInt64.toBitVec_toInt64, BitVec.toInt_eq_toNat_bmod]
  simpa using hbmod

theorem toInt_expiry (t : Instant) :
    (t.nowUncut + sessionLength).toInt = (t.steady + day : Int).bmod (2 ^ 64) := by
  have h := t.steady_lt
  have hnow : t.nowUncut.toInt = t.steady := by
    rw [Instant.nowUncut, Int64.toInt_ofNat']
    exact Int.bmod_eq_of_le (by simp [Int64.size]) (by simp [Int64.size]; omega)
  have hlength : sessionLength.toInt = day := by decide
  rw [Int64.toInt_add, hnow, hlength]

/-- The clocks do not matter: an expiry is in the future of every reading, or
of none. -/
theorem sessionLive_expiry_iff (t : Instant) (n : UInt32) :
    SessionLive (t.nowUncut + sessionLength) n ↔ t.Fits := by
  have hn := n.toNat_lt
  have h := t.steady_lt
  rw [SessionLive, Int64.le_iff_toInt_le, toInt_now, toInt_expiry, Instant.Fits, Int.bmod_def, day]
  split <;> omega

end Expiry

/-- Every expiry was written by a login. -/
def Timeless (db : Database) : Prop :=
  ∀ s ∈ db.sessionKeys, ∃ t : Instant, s.validUntil = t.nowUncut + sessionLength

section Timeless

variable {env : Env} {w v : World} {key : Int32}

theorem timeless_written {req : Request} {o : Outcome Exc Response} {db : Database}
    (ht : Timeless w.db) (h : Written env w req o db) : Timeless db := by
  cases h with
  | nothing | message _ _ | channel _ _ | member _ _ _ _ _ | password _ | user _ => exact ht
  | session _ _ _ _ _ =>
    intro s hs
    rcases Table.mem_replace.mp hs with rfl | ⟨hs, -⟩
    · exact ⟨_, rfl⟩
    · exact ht s hs
  | noSessions _ => exact fun s hs => ht s (List.mem_filter.mp hs).1

theorem Reachable.timeless {Admitted : Message → Prop} (h : Reachable env Admitted w) :
    Timeless w.db :=
  Steps.invariant h (by simp [Timeless, Database.initial])
    fun _ _ _ _ _ _ _ _ ht hw => timeless_written ht hw

/-- In a timeless database liveness does not depend on the reading. -/
theorem Timeless.live_iff (h : Timeless w.db) {s : SessionKey}
    (hs : w.db.getSessionKey key = some s) (n n' : UInt32) :
    SessionLive s.validUntil n ↔ SessionLive s.validUntil n' := by
  obtain ⟨t, ht⟩ := h s (Table.mem_of_lookup hs).1
  rw [ht, sessionLive_expiry_iff, sessionLive_expiry_iff]

/-- Waiting does not change whether a token is rejected. -/
theorem Timeless.rejected_iff (h : Timeless w.db) (hv : w.Passes v) :
    Rejected env v key ↔ Rejected env w key := by
  have hdb : v.db.getSessionKey key = w.db.getSessionKey key := by rw [hv.db]
  unfold Rejected
  rw [hdb]
  constructor
  · exact fun hr s hs hlive => hr s hs ((h.live_iff hs _ _).mp hlive)
  · exact fun hr s hs hlive => hr s hs ((h.live_iff hs _ _).mp hlive)

theorem not_orphaned (hc : Consistent w.db) : ¬ Orphaned env w key := by
  rintro ⟨s, hs, -, hnone⟩
  obtain ⟨u, hu, hid⟩ := hc.sessionUser s (Table.mem_of_lookup hs).1
  exact Table.lookup_eq_none.mp hnone u hu hid

end Timeless

/-- A login of `u` is answered with the token `t`. -/
def Issued (env : Env) (turns : ℕ) (m : Message) (w w' : World) (u : User) (t : Int32) : Prop :=
  ∃ r, (Request.login r).Parses m ∧ (w.db.usersNamed r.user).head? = some u ∧
    serve env turns m w = (.returned (TokenResponse.toMessage { token := t }), w')

section Issued

variable {env : Env} {turns : ℕ} {m : Message} {w w' : World} {u : User} {t : Int32}

theorem error_ne_token (reason : Bytes) (t : Int32) :
    ErrorResponse.toMessage { reason := reason } ≠ TokenResponse.toMessage { token := t } := by
  intro h
  have hcmd : ascii "err" = ascii "ok" := congrArg Message.cmd h
  exact absurd hcmd (by decide)

theorem error_ne_okay (reason : Bytes) :
    ErrorResponse.toMessage { reason := reason } ≠ OkayResponse.toMessage {} := by
  intro h
  have hcmd : ascii "err" = ascii "ok" := congrArg Message.cmd h
  exact absurd hcmd (by decide)

theorem token_injective {t t' : Int32}
    (h : TokenResponse.toMessage { token := t } = TokenResponse.toMessage { token := t' }) :
    t = t' := by
  have hof := congrArg TokenResponse.ofMessage h
  rw [TokenResponse.ofMessage_toMessage, TokenResponse.ofMessage_toMessage] at hof
  cases hof
  rfl

/-- The session that an answered login has written. -/
theorem Issued.session (h : Issued env turns m w w' u t) :
    w'.db = w.db.replaceSessionKey {
      key := t
      user := u.id
      validUntil := (env.clock (w'.readings - 1)).nowUncut + sessionLength } ∧
    w.readings < w'.readings ∧ ∃ v, w.Passes v ∧ Rejected env v t := by
  obtain ⟨r, hparse, hhead, hserve⟩ := h
  have hhandled := handled env turns w (.login r)
  generalize hrun : (respond turns (.login r)).run (perform env) w = out at hhandled
  obtain ⟨o, v'⟩ := out
  rw [serve, dispatch_of_parses hparse hrun, Prod.mk.injEq] at hserve
  obtain ⟨hreply, rfl⟩ := hserve
  cases hhandled with
  | rejected ht _ _ | orphaned ht _ | refused ht _ _ | answered ht _ _ => cases ht
  | unknownUser _ | wrongPass _ _ =>
    exact absurd (Outcome.returned.inj hreply) (error_ne_token _ _)
  | loginStuck _ _ _ | loginOrphaned _ _ _ _ _ => cases hreply
  | loggedIn hnamed _ hv hkey hw =>
    have ht := token_injective (Outcome.returned.inj hreply)
    subst ht
    rw [hnamed] at hhead
    cases hhead
    exact ⟨rfl, Nat.lt_succ_of_le (hv.trans hw).readings, _, hv, hkey⟩

end Issued

/-- The message is no logout that is carried out for `u`. -/
def NoLogout (env : Env) (u : User) (w : World) (m : Message) : Prop :=
  ∀ r v, (Request.logout r).Parses m → Accepted env w r.token v → v.id ≠ u.id

/-- The session under `t` was written at `t0`: `check_session_key(t)` succeeds
within 24 hours and fails later. -/
def SessionLifetime (env : Env) (t0 : Instant) (w : World) (t : Int32) : Prop :=
  ((env.clock w.readings).steady ≤ t0.steady + day →
    ∃ u, ((checkSessionKey t).run (perform env) w).1 = .returned u) ∧
  (t0.steady + day < (env.clock w.readings).steady →
    ¬ ∃ u, ((checkSessionKey t).run (perform env) w).1 = .returned u)

section Lifetime

variable {env : Env} {w : World} {u : User} {t : Int32}

/-- A session that is always live stays until its user logs out. -/
theorem session_written {s : SessionKey} {m : Message} {req : Request}
    {o : Outcome Exc Response} {db : Database} (hs : w.db.getSessionKey t = some s)
    (hlive : ∀ n, SessionLive s.validUntil n) (hu : s.user = u.id) (hno : NoLogout env u w m)
    (hparse : req.Parses m) (h : Written env w req o db) : db.getSessionKey t = some s := by
  cases h with
  | nothing | message _ _ | channel _ _ | member _ _ _ _ _ | password _ | user _ => exact hs
  | session _ _ hv hkey _ =>
    by_cases heq : env.rand w.draws = t
    · rw [heq] at hkey
      exact absurd (hlive _) (hkey s (hv.db ▸ hs))
    · rw [← hs]
      exact Table.lookup_replace_of_ne heq
  | noSessions haccept =>
    have hne := hno _ _ hparse haccept
    rw [← hu] at hne
    exact Table.lookup_filter_of_pos hs (by simpa using Ne.symm hne)

/-- Sessions written after an instant whose expiry overflows are never live. -/
theorem dead_written {i : ℕ} {req : Request} {o : Outcome Exc Response} {db : Database}
    (hclock : env.Forward) (hi : i ≤ w.readings) (hfits : ¬ (env.clock i).Fits)
    (hdead : ∀ s ∈ w.db.sessionKeys, s.key = t → ∀ n, ¬ SessionLive s.validUntil n)
    (h : Written env w req o db) :
    ∀ s ∈ db.sessionKeys, s.key = t → ∀ n, ¬ SessionLive s.validUntil n := by
  cases h with
  | nothing | message _ _ | channel _ _ | member _ _ _ _ _ | password _ | user _ => exact hdead
  | session _ _ hv _ hv' =>
    intro s hs hkey n
    rcases Table.mem_replace.mp hs with rfl | ⟨hs, -⟩
    · rw [sessionLive_expiry_iff]
      have hsteady := hclock.steady i _ (hi.trans (hv.trans hv').readings)
      simp only [Instant.Fits] at hfits ⊢
      omega
    · exact hdead s hs hkey n
  | noSessions _ => exact fun s hs => hdead s (List.mem_filter.mp hs).1

end Lifetime

/-- The lifetime is 24 hours exactly when the expiry can be represented and at
most 24 hours have passed, or it cannot and more have passed: a session that is
written in range never ends by itself. -/
theorem sessionLifetime_iff {env : Env} {turns : ℕ} {m : Message} {w w₁ w₂ : World} {u : User}
    {t : Int32} (hclock : env.Forward) (hreach : Reachable env (fun _ => True) w)
    (hissued : Issued env turns m w w₁ u t) (hrun : Steps env (NoLogout env u) w₁ w₂) :
    SessionLifetime env (env.clock (w₁.readings - 1)) w₂ t ↔
      ((env.clock (w₁.readings - 1)).Fits ↔
        (env.clock w₂.readings).steady ≤ (env.clock (w₁.readings - 1)).steady + day) := by
  obtain ⟨hdb, hlt, -⟩ := hissued.session
  have hconsistent : Consistent w₂.db := by
    obtain ⟨r, -, -, hserve⟩ := hissued
    have hw₁ : Reachable env (fun _ => True) (serve env turns m w).2 := .serve hreach turns trivial
    rw [hserve] at hw₁
    exact hrun.invariant hw₁.consistent fun _ _ _ _ _ _ _ _ hc hw => consistent_written hc hw
  simp only [SessionLifetime, ← accepted_iff]
  by_cases hfits : (env.clock (w₁.readings - 1)).Fits
  · have hwritten := Database.getSessionKey_replaceSessionKey w.db {
      key := t
      user := u.id
      validUntil := (env.clock (w₁.readings - 1)).nowUncut + sessionLength }
    rw [← hdb] at hwritten
    have hkept := hrun.invariant (P := fun db => db.getSessionKey t = some _) hwritten
      fun v m' _ _ _ _ hno hparse hs hw =>
        session_written hs (fun n => (sessionLive_expiry_iff _ n).mpr hfits) rfl hno hparse hw
    have haccepted : ∃ v, Accepted env w₂ t v := by
      obtain ⟨v, hv, hid⟩ := hconsistent.sessionUser _ (Table.mem_of_lookup hkept).1
      exact ⟨v, _, hkept, (sessionLive_expiry_iff _ _).mpr hfits,
        (Table.lookup_eq_some hconsistent.users).mpr ⟨hv, hid⟩⟩
    simp only [haccepted, hfits, imp_true_iff, true_and, not_true_eq_false, imp_false, true_iff,
      Nat.not_lt]
  · have hdead : ∀ s ∈ w₂.db.sessionKeys, s.key = t → ∀ n, ¬ SessionLive s.validUntil n := by
      refine hrun.invariant (P := fun db => ∀ s ∈ db.sessionKeys, s.key = t → ∀ n,
        ¬ SessionLive s.validUntil n) ?_ fun v _ _ _ _ hle _ _ hd hw =>
          dead_written hclock ((Nat.sub_le _ _).trans hle) hfits hd hw
      intro s hs hkey n
      rw [hdb] at hs
      rcases Table.mem_replace.mp hs with rfl | ⟨-, hne⟩
      · rwa [sessionLive_expiry_iff]
      · exact absurd hkey hne
    have hrejected : ¬ ∃ v, Accepted env w₂ t v := by
      rintro ⟨v, s, hs, hlive, -⟩
      obtain ⟨hmem, hkey⟩ := Table.mem_of_lookup hs
      exact hdead s hmem hkey _ hlive
    simp only [hrejected, hfits, imp_false, not_false_eq_true, imp_true_iff, and_true, false_iff]

/-- The clocks of a server on which the second reading comes two days after the
first. -/
def twoDaysLater : Env where
  clock i := if i = 0 then ⟨0, 0, by decide⟩ else ⟨2 * day, 0, by decide⟩
  rand _ := 7

def master : User := { id := 1, name := ascii "master", pass := ascii "pass" }

def masterLogin : Message := LoginRequest.toMessage { user := master.name, pass := master.pass }

/-- The server after `masterLogin`. -/
def masterSession : World := (serve twoDaysLater 1 masterLogin {}).2

theorem twoDaysLater_forward : twoDaysLater.Forward := by
  constructor <;> intro i j hij <;> simp only [twoDaysLater] <;> split <;> split <;>
    first | omega | decide

theorem masterLogin_issued :
    Issued twoDaysLater 1 masterLogin {} masterSession master 7 := by
  refine ⟨{ user := master.name, pass := master.pass }, rfl, by decide, ?_⟩
  have hreply : (serve twoDaysLater 1 masterLogin {}).1 =
      .returned (TokenResponse.toMessage { token := 7 }) := by decide +kernel
  rw [← hreply, masterSession]

/-- Two days after the login the session is still accepted. -/
theorem masterSession_not_lifetime :
    twoDaysLater.Forward ∧ Issued twoDaysLater 1 masterLogin {} masterSession master 7 ∧
      Steps twoDaysLater (NoLogout twoDaysLater master) masterSession masterSession ∧
      ¬ SessionLifetime twoDaysLater (twoDaysLater.clock (masterSession.readings - 1))
        masterSession 7 := by
  refine ⟨twoDaysLater_forward, masterLogin_issued, .refl, ?_⟩
  intro h
  have hlate : (twoDaysLater.clock (masterSession.readings - 1)).steady + day <
      (twoDaysLater.clock masterSession.readings).steady := by decide +kernel
  have hcheck : ((checkSessionKey 7).run (perform twoDaysLater) masterSession).1 =
      .returned master := by decide +kernel
  exact h.2 hlate ⟨master, hcheck⟩

theorem sessionLifetime_iff_master :
    SessionLifetime twoDaysLater (twoDaysLater.clock (masterSession.readings - 1))
      masterSession 7 ↔
      ((twoDaysLater.clock (masterSession.readings - 1)).Fits ↔
        (twoDaysLater.clock masterSession.readings).steady ≤
          (twoDaysLater.clock (masterSession.readings - 1)).steady + day) :=
  sessionLifetime_iff twoDaysLater_forward .refl masterLogin_issued .refl

end Dotchat
