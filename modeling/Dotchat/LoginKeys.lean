import Dotchat.Replies

/-!
The keys that login draws for its tokens. The loop tests one key until no session
is live under it; the keys it draws on the way are not looked at. A session stays
live while the loop waits, so that the first key decides: it is the token, or the
loop never ends, whatever keys are still to come. No other message keeps the
server busy for ever.
-/
namespace Dotchat

open Db Handlers Program

/-- Some number of turns of the loop gives the first drawn key that is free. -/
def FreshToken (env : Env) (w : World) (m : Message) : Prop :=
  ∃ turns n w',
    serve env turns m w =
      (.returned (TokenResponse.toMessage { token := env.rand (w.draws + n) }), w') ∧
    Rejected env w (env.rand (w.draws + n)) ∧ ∀ i < n, ¬ Rejected env w (env.rand (w.draws + i))

/-- A login with an existing name and its password. -/
structure RightLogin (w : World) (m : Message) (r : LoginRequest) : Prop where
  parses : (Request.login r).Parses m
  named : ∃ u others, w.db.usersNamed r.user = u :: others ∧ u.pass = r.pass

section Login

variable {env : Env} {w : World} {m : Message} {r : LoginRequest}

variable (env) in
/-- The loop returns with the first key, and only if that key is free. -/
theorem RightLogin.cases (h : RightLogin w m r) (hc : Consistent w.db) (ht : Timeless w.db)
    (turns : ℕ) :
    (Rejected env w (env.rand w.draws) ∧ ∃ w', serve env turns m w =
        (.returned (TokenResponse.toMessage { token := env.rand w.draws }), w')) ∨
      (serve env turns m w).1 = .running := by
  obtain ⟨u, others, hnamed, hpass⟩ := h.named
  obtain ⟨o, w', hhandled, -, hserve⟩ := serve_of_parses env turns w h.parses
  rw [hserve]
  cases hhandled with
  | rejected htoken _ _ | orphaned htoken _ | refused htoken _ _ | answered htoken _ _ =>
    cases htoken
  | unknownUser hnone =>
    rw [hnamed] at hnone
    cases hnone
  | wrongPass hnamed' hpass' =>
    rw [hnamed] at hnamed'
    cases hnamed'
    exact absurd hpass hpass'
  | loginOrphaned _ _ hv hkey _ => exact absurd hkey (not_orphaned (hv.db ▸ hc))
  | loginStuck _ _ _ => exact .inr rfl
  | loggedIn _ _ hv hkey _ => exact .inl ⟨(ht.rejected_iff hv).mp hkey, _, rfl⟩

/-- A live key keeps the loop going forever. -/
theorem RightLogin.running (h : RightLogin w m r) (hc : Consistent w.db) (ht : Timeless w.db)
    (hlive : ¬ Rejected env w (env.rand w.draws)) (turns : ℕ) :
    (serve env turns m w).1 = .running := by
  rcases h.cases env hc ht turns with ⟨hkey, -⟩ | hrunning
  · exact absurd hkey hlive
  · exact hrunning

/-- A free key is taken in the first turn. -/
theorem RightLogin.returned (h : RightLogin w m r)
    (hkey : Rejected env w (env.rand w.draws)) :
    ∃ w', serve env 1 m w =
      (.returned (TokenResponse.toMessage { token := env.rand w.draws }), w') := by
  obtain ⟨u, others, hnamed, hpass⟩ := h.named
  obtain ⟨w', hlogin⟩ := run_login_of_rejected hnamed hpass hkey
  exact ⟨w', dispatch_of_parses h.parses (run_map _ _ hlogin)⟩

end Login

/-- The same database at a later reading of the clocks. -/
def World.later (w : World) (n : ℕ) : World := { w with readings := w.readings + n }

/-- There is a session under the key that is live at every reading of the clock. -/
def LiveThroughout (env : Env) (w : World) (key : Int32) : Prop :=
  ∀ n, ∃ u, Accepted env (w.later n) key u

section Waiting

variable {env : Env} {w v : World} {key : Int32} {m : Message} {r : LoginRequest}

theorem accepted_congr (hdb : v.db = w.db) (hreadings : v.readings = w.readings) {u : User} :
    Accepted env v key u ↔ Accepted env w key u := by
  unfold Accepted nowAt
  rw [hdb, hreadings]

theorem LiveThroughout.now (h : LiveThroughout env w key) : ∃ u, Accepted env w key u := h 0

/-- After a test and a draw, and without them. -/
theorem LiveThroughout.mono (h : LiveThroughout env w key) (hv : w.Passes v) :
    LiveThroughout env v key := by
  intro n
  obtain ⟨u, hu⟩ := h (v.readings - w.readings + n)
  have hreadings : (v.later n).readings = (w.later (v.readings - w.readings + n)).readings := by
    have hle := hv.readings
    simp only [World.later]
    omega
  have hdb : (v.later n).db = (w.later (v.readings - w.readings + n)).db := hv.db
  exact ⟨u, (accepted_congr hdb hreadings).mpr hu⟩

end Waiting

/-- Login gives the first free key exactly when the first key is free. -/
theorem freshToken_iff {env : Env} {Admitted : Message → Prop} {w : World}
    (hw : Reachable env Admitted w) {m : Message} {r : LoginRequest} (h : RightLogin w m r) :
    FreshToken env w m ↔ Rejected env w (env.rand w.draws) := by
  constructor
  · rintro ⟨turns, n, w', hserve, -, -⟩
    rcases h.cases env hw.consistent hw.timeless turns with ⟨hkey, -⟩ | hrunning
    · exact hkey
    · rw [hserve] at hrunning
      cases hrunning
  · intro hkey
    obtain ⟨w', hserve⟩ := h.returned hkey
    exact ⟨1, 0, w', hserve, hkey, fun i hi => absurd hi (Nat.not_lt_zero i)⟩

/-- The third key that is drawn differs from the first two. -/
def collidingKeys : Env := { twoDaysLater with rand := fun n => if n < 2 then 7 else 8 }

/-- The server after a login that has taken the first key. -/
def takenSession : World := (serve collidingKeys 1 masterLogin {}).2

theorem masterLogin_right : RightLogin takenSession masterLogin
    { user := master.name, pass := master.pass } :=
  ⟨rfl, master, [], by decide +kernel, rfl⟩

/-- The second login draws the key of the first, and never comes to the free one. -/
theorem masterLogin_not_fresh :
    Reachable collidingKeys (fun _ => True) takenSession ∧
      Rejected collidingKeys takenSession (collidingKeys.rand (takenSession.draws + 1)) ∧
      (∀ turns, (serve collidingKeys turns masterLogin takenSession).1 = .running) ∧
      ¬ FreshToken collidingKeys takenSession masterLogin := by
  have hreach : Reachable collidingKeys (fun _ => True) takenSession := .serve .refl 1 trivial
  have hfree : Rejected collidingKeys takenSession
      (collidingKeys.rand (takenSession.draws + 1)) := by
    have hnone : takenSession.db.getSessionKey
        (collidingKeys.rand (takenSession.draws + 1)) = none := by decide +kernel
    intro s hs
    rw [hnone] at hs
    cases hs
  have hlive : ¬ Rejected collidingKeys takenSession (collidingKeys.rand takenSession.draws) := by
    have haccepted : Accepted collidingKeys takenSession
        (collidingKeys.rand takenSession.draws) master :=
      accepted_iff.mpr (by decide +kernel)
    exact haccepted.not_rejected
  have hrunning := masterLogin_right.running hreach.consistent hreach.timeless hlive
  refine ⟨hreach, hfree, hrunning, ?_⟩
  rintro ⟨turns, n, w', hserve, -⟩
  have hstuck := hrunning turns
  rw [hserve] at hstuck
  cases hstuck

theorem freshToken_iff_master :
    FreshToken collidingKeys takenSession masterLogin ↔
      Rejected collidingKeys takenSession (collidingKeys.rand takenSession.draws) :=
  freshToken_iff (.serve .refl 1 trivial : Reachable _ (fun _ => True) _) masterLogin_right

end Dotchat
