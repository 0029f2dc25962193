import Dotchat.Authorization
import Dotchat.ClientRuns
import Dotchat.Exchange
import Dotchat.Sessions

/-!
A client and the server, with other clients that are answered between its
requests. As long as each reply is read whole, and no other client logs out a
user that this one logs in as, the server accepts the token of every request;
and the session of a client that ends without a logout remains.
-/
namespace Dotchat

open Db Handlers Bytestream

section Calls

/-- After a call whose reply was read whole, the client has the response of the
handler, or the server has changed nothing. -/
theorem call_settled (tls : Tls) {env : Env} {w w' : World} {req : Request} (turns : ℕ)
    {res : Except CallFault req.Expected} (hw : Reachable env Decoded w)
    (hnoReply : res ≠ .error .noReply)
    (h : runBoilerplate tls env turns req.readExpected req.toMessage {} w = (res, {}, w')) :
    (∃ s r, Handled env w req.arrived (.returned s, w') ∧ res = .ok r ∧ req.wrap r = s.normal) ∨
      (∃ what, Handled env w req.arrived (.threw (.protoError what), w') ∧
        res = .error .nonOkay ∧ w'.db = w.db) ∨
      (∃ f, res = .error (.unsent f) ∧ w' = w) := by
  obtain ⟨hexchanged, -⟩ := exchanged tls hw hnoReply h
  cases hexchanged with
  | unsent => exact .inr (.inr ⟨_, rfl, rfl⟩)
  | answered hhandled hres => exact .inl ⟨_, _, hhandled, rfl, hres⟩
  | refused hhandled =>
    have hsame := (Written.returned hhandled.written).resolve_right (by simp)
    exact .inr (.inl ⟨_, hhandled, rfl, hsame⟩)

/-- The first login of `master`, and what comes of it. -/
def masterCall : Request := .login { user := master.name, pass := master.pass }

def masterAnswer : Except CallFault TokenResponse × Link × World :=
  runBoilerplate .filling twoDaysLater 1 masterCall.readExpected masterCall.toMessage {} {}

theorem call_settled_master :
    (∃ s r, Handled twoDaysLater {} masterCall.arrived (.returned s, masterAnswer.2.2) ∧
        masterAnswer.1 = .ok r ∧ masterCall.wrap r = s.normal) ∨
      (∃ what, Handled twoDaysLater {} masterCall.arrived
        (.threw (.protoError what), masterAnswer.2.2) ∧
        masterAnswer.1 = .error .nonOkay ∧ masterAnswer.2.2.db = ({} : World).db) ∨
      (∃ f, masterAnswer.1 = .error (.unsent f) ∧ masterAnswer.2.2 = {}) := by
  have htoken : masterAnswer.1.toOption = some { token := 7 } := by decide +kernel
  have hlink : masterAnswer.2.1 = {} := by decide +kernel
  rcases hrun : masterAnswer with ⟨res, link, w'⟩
  rw [hrun] at htoken hlink
  obtain rfl : link = {} := hlink
  refine call_settled .filling 1 .refl ?_ hrun
  intro h
  rw [h] at htoken
  cases htoken

end Calls

/-- The server as one of its clients meets it: the number of its requests so far,
what is on its connection unless it is closed, and the state of the server. -/
structure Remote where
  requests : ℕ := 0
  link : Option Link := some {}
  world : World := {}

/-- The requests of a client. The other clients come first each time. -/
def remote (tls : Tls) (env : Env) (turns : ℕ → ℕ) (others : ℕ → World → World) : Service Remote
  | req, { requests, link, world } =>
      match link with
      | none => (.error .noReply, ⟨requests + 1, none, others requests world⟩)
      | some link =>
          match runBoilerplate tls env (turns requests) req.readExpected req.toMessage link
            (others requests world) with
          | (.error .noReply, _, world) => (.error .noReply, ⟨requests + 1, none, world⟩)
          | (res, link, world) => (res, ⟨requests + 1, some link, world⟩)

/-- Nothing is left to be read. -/
def Remote.Idle (r : Remote) : Prop := r.link = some {}

/-- The session is live for good and belongs to one of our users. -/
def Held (Ours : Bytes → Prop) (db : Database) (t : Int32) : Prop :=
  ∃ s u, db.getSessionKey t = some s ∧ (∀ n, SessionLive s.validUntil n) ∧ u ∈ db.users ∧
    u.id = s.user ∧ Ours u.name

/-- The message does not log out one of our users. -/
def Foreign (env : Env) (Ours : Bytes → Prop) (w : World) (m : Message) : Prop :=
  ∀ r u, (Request.logout r).Parses m → Accepted env w r.token u → ¬ Ours u.name

section Sessions

variable {env : Env} {Ours : Bytes → Prop} {w w' : World} {req : Request} {m : Message}
  {o : Outcome Exc Response} {db : Database} {t : Int32}

/-- Users keep their ids and names. -/
theorem exists_user_written (hc : Consistent w.db) {u : User} (hu : u ∈ w.db.users)
    (h : Written env w req o db) : ∃ v ∈ db.users, v.id = u.id ∧ v.name = u.name := by
  cases h with
  | nothing | session _ _ _ _ _ | noSessions _ | message _ _ | channel _ _
  | member _ _ _ _ _ => exact ⟨u, hu, rfl, rfl⟩
  | password haccept =>
    rename_i r v
    have hsame : (Table.update (·.id) { v with pass := r.newPass } w.db.users).map
        (fun u => (u.id, u.name)) = w.db.users.map fun u => (u.id, u.name) :=
      Table.map_update fun v' hv' hid => by rw [Table.eq_of_key hc.users hv' haccept.mem hid]
    have hmem := List.mem_map_of_mem (f := fun u : User => (u.id, u.name)) hu
    rw [← hsame] at hmem
    obtain ⟨u', hu', heq⟩ := List.mem_map.mp hmem
    exact ⟨u', hu', congrArg Prod.fst heq, congrArg Prod.snd heq⟩
  | user _ => exact ⟨u, List.mem_append_left _ hu, rfl, rfl⟩

theorem Held.written (hheld : Held Ours w.db t) (hc : Consistent w.db)
    (hforeign : Foreign env Ours w m) (hparse : req.Parses m) (h : Written env w req o db) :
    Held Ours db t := by
  obtain ⟨s, u, hs, hlive, hu, hid, hours⟩ := hheld
  obtain ⟨v, hv, hvid, hname⟩ := exists_user_written hc hu h
  have hno : NoLogout env u w m := by
    intro r v' hlogout haccept heq
    have hsame := Table.eq_of_key hc.users haccept.mem hu heq
    exact hforeign r v' hlogout haccept (hsame ▸ hours)
  exact ⟨s, v, session_written hs hlive hid.symm hno hparse h, hlive, hv, hvid.trans hid,
    hname ▸ hours⟩

theorem Held.accepted (hheld : Held Ours w.db t) (hc : Consistent w.db) :
    ∃ u, Accepted env w t u ∧ Ours u.name := by
  obtain ⟨s, u, hs, hlive, hu, hid, hours⟩ := hheld
  exact ⟨u, ⟨s, hs, hlive _, (Table.lookup_eq_some hc.users).mpr ⟨hu, hid⟩⟩, hours⟩

/-- Other clients leave the session alone. -/
theorem Held.steps (hheld : Held Ours w.db t) (hc : Consistent w.db)
    (h : Steps env (fun v m => Decoded m ∧ Foreign env Ours v m) w w') : Held Ours w'.db t := by
  have hboth : Consistent w'.db ∧ Held Ours w'.db t :=
    h.invariant (P := fun db => Consistent db ∧ Held Ours db t) ⟨hc, hheld⟩
      fun v m' _ _ _ _ hm hparse hv hwritten =>
        ⟨consistent_written hv.1 hwritten, hv.2.written hv.1 hm.2 hparse hwritten⟩
  exact hboth.2

/-- Only the message of a logout parses as one. -/
theorem foreign_of_ne (hne : ∀ r, req ≠ .logout r) : Foreign env Ours w req.cut.toMessage := by
  intro r u hlogout _
  have hcmd : ascii req.arrived.command = ascii Commands.logout :=
    req.parses_cut.cmd.symm.trans hlogout.cmd
  cases req with
  | logout r' => exact absurd rfl (hne r')
  | _ =>
    refine absurd hcmd ?_
    simp only [Request.arrived, Request.cut, Request.normal, Request.command]
    decide

/-- An answered login opens a session. -/
theorem held_of_login {r : LoginRequest} {res : TokenResponse} {s : Response}
    (hclock : ∀ i, (env.clock i).Fits) (hours : Ours (cString r.user))
    (h : Handled env w (Request.login r).arrived (.returned s, w'))
    (hres : (Request.login r).wrap res = s.normal) : Held Ours w'.db res.token := by
  cases h with
  | answered ht _ _ => cases ht
  | loggedIn hnamed hpass hv hkey hv' =>
    cases hres
    rename_i u others v v'
    have hu : u ∈ w.db.usersNamed (cString r.user) := hnamed ▸ List.mem_cons_self
    obtain ⟨hu, hname⟩ := List.mem_filter.mp hu
    have hname : u.name = cString r.user := by simpa using hname
    have hs := Database.getSessionKey_replaceSessionKey w.db {
      key := env.rand w.draws
      user := u.id
      validUntil := (env.clock v'.readings).nowUncut + sessionLength }
    exact ⟨_, u, hs, fun n => (sessionLive_expiry_iff _ n).mpr (hclock _), hu, rfl, hname ▸ hours⟩

end Sessions

/-- What the client and the server know of each other between requests. -/
structure Linked (env : Env) (Ours : Bytes → Prop) (s : ClientState) (r : Remote) : Prop where
  idle : r.Idle
  reachable : Reachable env Decoded r.world
  held : ∀ t, s.token = some t → Held Ours r.world.db t

section Linked

variable {env : Env} {Ours : Bytes → Prop} {s : ClientState} {w w' : World} {req : Request}

/-- The session after a request, if there is one. -/
theorem held_of_exchanged {ans : Except CallFault req.Expected} (hw : Reachable env Decoded w)
    (hclock : ∀ i, (env.clock i).Fits) (hheld : ∀ t, s.token = some t → Held Ours w.db t)
    (hours : ∀ r, req = .login r → Ours (cString r.user)) (h : Exchanged env w req (ans, w'))
    {t : Int32} (ht : (s.gotReply req ans).token = some t) : Held Ours w'.db t := by
  have hsame {e : CallFault} (htoken : (s.gotReply req (.error e)).token = some t) :
      s.token = some t := (ClientState.tokenAfter_error _ req e).symm.trans htoken
  cases h with
  | unsent => exact hheld t (hsame ht)
  | refused h =>
    rw [(Written.returned h.written).resolve_right (by simp)]
    exact hheld t (hsame ht)
  | answered h hres =>
    have hkept (hne : ∀ r, req ≠ .logout r) (hs : s.token = some t) : Held Ours w'.db t :=
      (hheld t hs).written hw.consistent (foreign_of_ne hne) req.parses_cut h.written
    cases req with
    | login r =>
      cases ht
      exact held_of_login hclock (hours r rfl) h hres
    | logout r => cases ht
    | _ => exact hkept (fun _ h => Request.noConfusion h) ht

end Linked

/-- The other clients do not log out our users. -/
def Considerate (env : Env) (Ours : Bytes → Prop) (others : ℕ → World → World) : Prop :=
  ∀ k w, Steps env (fun v m => Decoded m ∧ Foreign env Ours v m) w (others k w)

/-- A call after which nothing is left to be read, and no login of a foreign user. -/
structure Settled (Ours : Bytes → Prop)
    (v : Visit ClientCall ClientCall.Answer CallFault (Console × Remote)) : Prop where
  idle : v.after.2.Idle
  ours : ∀ r, v.event.1 = .send (.login r) → Ours (cString r.user)

namespace Cli

open Protocol

section Remote

variable {tls : Tls} {env : Env} {turns : ℕ → ℕ} {others : ℕ → World → World} {Ours : Bytes → Prop}
  {s : ClientState} {r : Remote} {w w' : World} {req : Request}

theorem reachable_of_steps {Allowed : World → Message → Prop} (hw : Reachable env Decoded w)
    (h : Steps env (fun v m => Decoded m ∧ Allowed v m) w w') : Reachable env Decoded w' := by
  induction h with
  | refl => exact hw
  | serve _ turns hm ih => exact .serve ih turns hm.1

theorem remote_of_reply {requests : ℕ} {link link' : Link} {res : Except CallFault req.Expected}
    (h : runBoilerplate tls env (turns requests) req.readExpected req.toMessage link
      (others requests w) = (res, link', w')) (hres : res ≠ .error .noReply) :
    remote tls env turns others req ⟨requests, some link, w⟩ =
      (res, ⟨requests + 1, some link', w'⟩) := by
  rw [remote, h]
  cases res with
  | ok a => rfl
  | error e =>
    cases e with
    | noReply => exact absurd rfl hres
    | _ => rfl

theorem remote_of_noReply {requests : ℕ} {link link' : Link}
    (h : runBoilerplate tls env (turns requests) req.readExpected req.toMessage link
      (others requests w) = (.error .noReply, link', w')) :
    remote tls env turns others req ⟨requests, some link, w⟩ =
      (.error .noReply, ⟨requests + 1, none, w'⟩) := by
  rw [remote, h]

theorem linked_reply (hothers : Considerate env Ours others) (hclock : ∀ i, (env.clock i).Fits)
    (h : Linked env Ours s r) (hidle : (remote tls env turns others req r).2.Idle)
    (hours : ∀ r, req = .login r → Ours (cString r.user)) :
    Linked env Ours (s.gotReply req (remote tls env turns others req r).1)
      (remote tls env turns others req r).2 := by
  obtain ⟨requests, link, w⟩ := r
  obtain ⟨hlink, hw, hheld⟩ := h
  obtain rfl : link = some {} := hlink
  have hsteps := hothers requests w
  have hw' : Reachable env Decoded (others requests w) := reachable_of_steps hw hsteps
  have hheld' : ∀ t, s.token = some t → Held Ours (others requests w).db t :=
    fun t ht => (hheld t ht).steps hw.consistent hsteps
  rcases hrun : runBoilerplate tls env (turns requests) req.readExpected req.toMessage {}
    (others requests w) with ⟨res, link', w'⟩
  by_cases hres : res = .error .noReply
  · rw [hres] at hrun
    rw [remote_of_noReply hrun] at hidle
    cases hidle
  · rw [remote_of_reply hrun hres] at hidle ⊢
    obtain rfl : link' = {} := Option.some.inj hidle
    obtain ⟨hexchanged, hsame | ⟨hserved, hdecoded⟩⟩ := exchanged tls hw' hres hrun
    · subst hsame
      exact ⟨hidle, hw', fun t => held_of_exchanged hw' hclock hheld' hours hexchanged⟩
    · refine ⟨hidle, ?_, fun t => held_of_exchanged hw' hclock hheld' hours hexchanged⟩
      rw [hserved]
      exact .serve hw' _ hdecoded

theorem couples_remote (hothers : Considerate env Ours others)
    (hclock : ∀ i, (env.clock i).Fits) :
    clientProtocol.Couples (clientStore (remote tls env turns others)) (Settled Ours)
      (fun s w => Tied s w.1 ∧ Linked env Ours s w.2) := by
  refine ((couples _).strengthen fun _ _ => trivial).and ?_
  rintro s c ⟨cin, r⟩ hlinked - hsettled
  cases c with
  | getline | readWord | readInt => exact ⟨hlinked.idle, hlinked.reachable, hlinked.held⟩
  | send req =>
    refine linked_reply hothers hclock hlinked hsettled.idle ?_
    rintro r rfl
    exact hsettled.ours r rfl

end Remote

/-- The state of the server when the client ends. -/
def worldAfter (service : Service Remote) (k n : ℕ) (uninit : Int32) (cin : Console) (w : World) :
    World :=
  (outcome service k n uninit cin { world := w }).2.2.world

section Runs

variable {env : Env} {turns : ℕ → ℕ} {others : ℕ → World → World} {Ours : Bytes → Prop}
  {k n : ℕ} {uninit : Int32} {cin : Console} {w : World} {t : Int32}

theorem linked_initial (hw : Reachable env Decoded w) :
    Tied {} cin ∧ Linked env Ours {} { world := w } :=
  ⟨⟨by simp, by simp⟩, rfl, hw, by simp⟩

/-- As long as all replies were read whole, the server accepts the token of each
request of the client, unless another client logs its user out. -/
theorem token_accepted (tls : Tls) (hclock : ∀ i, (env.clock i).Fits)
    (hothers : Considerate env Ours others) (hw : Reachable env Decoded w)
    {init rest : List (Visit ClientCall ClientCall.Answer CallFault (Console × Remote))}
    {v : Visit ClientCall ClientCall.Answer CallFault (Console × Remote)}
    (h : visits (clientStore (remote tls env turns others)) (runWaitLoop k uninit n)
      (cin, { world := w }) = init ++ v :: rest)
    (hsettled : ∀ u ∈ init, Settled Ours u) {req : Request} (hsend : v.event.1 = .send req)
    (ht : req.token = some t) :
    ∃ u, Accepted env (others v.before.2.requests v.before.2.world) t u ∧ Ours u.name := by
  obtain ⟨⟨-, hlinked⟩, hallowed⟩ := (keeps_runWaitLoop rfl).visited
    (couples_remote hothers hclock) (linked_initial hw) h hsettled
  rw [hsend] at hallowed
  have hperm : (ClientState.after (init.map Visit.event)).Permitted req := hallowed
  have hheld := hlinked.held t (hperm.token.symm.trans ht)
  have hsteps := hothers v.before.2.requests v.before.2.world
  exact (hheld.steps hlinked.reachable.consistent hsteps).accepted
    (reachable_of_steps hlinked.reachable hsteps).consistent

/-- The user logs in as `master`, looks at the list of channels and quits. -/
def masterInput : Console := { rest := ascii ".l\nmaster\npass\n.cs\n.b\n.q\n" }

/-- Another client wants to be a user. -/
def signup : Request := .newUser { name := ascii "guest", pass := ascii "word" }

/-- What is left of the server when the request of that client has been answered. -/
def signedUp (w : World) : World := (serve twoDaysLater 1 signup.toMessage w).2

/-- The server with another client, which sends its request before each of ours. -/
def besideGuest : Service Remote := remote .filling twoDaysLater (fun _ => 1) fun _ => signedUp

def masterVisits : List (Visit ClientCall ClientCall.Answer CallFault (Console × Remote)) :=
  visits (clientStore besideGuest) (runWaitLoop 2 0 2) (masterInput, {})

theorem settled_masterVisits : ∀ v ∈ masterVisits, Settled (fun _ => True) v := by
  have hidle : ∀ v ∈ masterVisits, v.after.2.link = some {} := by decide +kernel
  exact fun v hv => ⟨hidle v hv, fun _ _ => trivial⟩

theorem fits_twoDaysLater (i : ℕ) : (twoDaysLater.clock i).Fits := by
  simp only [twoDaysLater]
  split <;> decide

/-- A request that is no logout, and whose strings are read as they are, leaves the
sessions of all users alone. -/
theorem steps_serve {env : Env} {Ours : Bytes → Prop} {v : World} {req : Request}
    (hne : ∀ r, req ≠ .logout r) (hcut : req.cut = req) (hdecoded : Decoded req.toMessage)
    (h : Steps env (fun v m => Decoded m ∧ Foreign env Ours v m) w v) (turns : ℕ) :
    Steps env (fun v m => Decoded m ∧ Foreign env Ours v m) w
      (serve env turns req.toMessage v).2 := by
  refine .serve h turns ⟨hdecoded, ?_⟩
  have hforeign : Foreign env Ours v req.cut.toMessage := foreign_of_ne hne
  rwa [hcut] at hforeign

/-- A message in the session of `master`. -/
def noteRequest : Request := .sendMsg { token := 7, chanId := 1, msgCnt := ascii "a" }

theorem signup_decoded : Decoded signup.toMessage :=
  signup.decoded_of_sendTo (by decide)
    (show signup.toMessage.sendTo {} = .ok () (fresh signup.toMessage.wire) by decide +kernel)

theorem considerate_guest : Considerate twoDaysLater (fun _ => True) fun _ => signedUp :=
  fun _ _ => steps_serve (by simp [signup]) rfl signup_decoded .refl 1

theorem token_accepted_master :
    ∃ u, Accepted twoDaysLater
      (signedUp (masterVisits.get ⟨7, by decide +kernel⟩).before.2.world) 7 u ∧ True := by
  have hsplit : masterVisits = masterVisits.take 7 ++
      masterVisits.get ⟨7, by decide +kernel⟩ :: masterVisits.drop 8 := by
    rw [List.get_eq_getElem, List.getElem_cons_drop, List.take_append_drop]
  have hsend : (masterVisits.get ⟨7, by decide +kernel⟩).event.1 =
      .send (.channelList { token := 7 }) := by decide +kernel
  exact token_accepted .filling fits_twoDaysLater considerate_guest .refl hsplit
    (fun v hv => settled_masterVisits v (List.mem_of_mem_take hv)) hsend rfl

/-- A session that the client has not closed when it ends, after all its replies were
read whole, is accepted from then on, until another client logs its user out. -/
theorem session_remains (tls : Tls) (hclock : ∀ i, (env.clock i).Fits)
    (hothers : Considerate env Ours others) (hw : Reachable env Decoded w)
    (hsettled : ∀ v ∈ visits (clientStore (remote tls env turns others)) (runWaitLoop k uninit n)
      (cin, { world := w }), Settled Ours v)
    (ht : (ClientState.after (calls (remote tls env turns others) k n uninit cin
      { world := w })).token = some t) {w' : World}
    (hlater : Steps env (fun v m => Decoded m ∧ Foreign env Ours v m)
      (worldAfter (remote tls env turns others) k n uninit cin w) w') :
    ∃ u, Accepted env w' t u ∧ Ours u.name := by
  have hruns := (keeps_runWaitLoop rfl).runs (couples_remote hothers hclock)
    (linked_initial hw) hsettled
  obtain ⟨-, hlinked⟩ := hruns.coupled
  have hheld := hlinked.held t ht
  exact (hheld.steps hlinked.reachable.consistent hlater).accepted
    (reachable_of_steps hlinked.reachable hlater).consistent

/-- The session is used and a user is signed up after the client has ended. -/
theorem session_remains_master :
    ∃ u, Accepted twoDaysLater (signedUp (serve twoDaysLater 1 noteRequest.toMessage
      (worldAfter besideGuest 2 2 0 masterInput {})).2) 7 u ∧ True := by
  have hopen : (ClientState.after (calls besideGuest 2 2 0 masterInput {})).token = some 7 := by
    decide +kernel
  have hnote : Decoded noteRequest.toMessage := noteRequest.decoded_of_sendTo (by decide)
    (show noteRequest.toMessage.sendTo {} = .ok () (fresh noteRequest.toMessage.wire) by
      decide +kernel)
  refine session_remains .filling fits_twoDaysLater considerate_guest .refl settled_masterVisits
    hopen (steps_serve (by simp [signup]) rfl signup_decoded ?_ 1)
  exact steps_serve (by simp [noteRequest]) rfl hnote .refl 1

end Runs
end Cli
end Dotchat
