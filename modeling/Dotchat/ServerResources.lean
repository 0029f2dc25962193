import Dotchat.ThreadManager
import Dotchat.TlsOwnership
import Mathlib.Data.Fintype.EquivFin

/-!
What the server holds of the TLS library and of the system. When a connection is closed
follows from what the `callback` of its thread has done. The process is then run
together with its objects: the socket of `main` and, for each
listed thread, the member `conn`.
-/
namespace Dotchat

/-- The exceptions behind which `callback` closes the connection. -/
def CallbackEvent.Escapes (e : CallbackEvent) : Prop :=
  e = .handled (some .exception) ∨ e = .sent (some .exception)

/-- Where `callback` calls `conn.close()`. -/
def CallbackPoint.closes : CallbackPoint → Bool
  | .closeEmpty | .closeStopping | .closeCaught => true
  | .setRunning | .testLoop | .read | .setFinished | .handle | .send | .testStopping | .setStopped
  | .returned => false

/-- What `callback` of a thread does in a step of the server. -/
def ServerEvent.callbackOf (id : ℕ) : ServerEvent → Option CallbackEvent
  | .callback id' e => if id' = id then some e else none
  | .enlist | .interrupt | .acceptThrows | .main | .cleanup _ => none

namespace ThreadConn

section Closing

variable {c c' : ThreadConn} {e : CallbackEvent} {events : List CallbackEvent}

theorem point_of_escapes (he : e.Escapes) (hstep : c.step e = some c') :
    c'.point = .closeCaught := by
  rcases he with rfl | rfl
  · simp only [step] at hstep
    split at hstep <;> cases hstep
    rfl
  · simp only [step] at hstep
    split at hstep <;> cases hstep
    rfl

theorem escapes_of_point (he : e ≠ .requestStop) (hstep : c.step e = some c')
    (hpoint : c'.point = .closeCaught) : e.Escapes := by
  have hnext := (advances he hstep).point
  rw [hpoint] at hnext
  have hat : c.point = .handle ∨ c.point = .send := by
    cases hat : c.point <;> simp [hat, CallbackPoint.next] at hnext ⊢
  rcases hat with hat | hat
  · cases e with
    | requestStop => exact absurd rfl he
    | handled thrown =>
      rcases thrown with _ | _ | _
      · simp only [step, if_pos hat] at hstep
        cases hstep
        cases hpoint
      · simp only [step, if_pos hat] at hstep
        cases hstep
        cases hpoint
      · exact .inl rfl
    | proceed | shutdown _ | sslRead _ | sent _ => simp [step, hat] at hstep
  · cases e with
    | requestStop => exact absurd rfl he
    | sent thrown =>
      rcases thrown with _ | _ | _
      · simp only [step, if_pos hat] at hstep
        cases hstep
        cases hpoint
      · simp only [step, if_pos hat] at hstep
        cases hstep
        cases hpoint
      · exact .inr rfl
    | proceed | shutdown _ | sslRead _ | handled _ => simp [step, hat] at hstep

/-- The connection of a thread that nobody has asked to stop: what its `callback` has
done tells whether it is closed. -/
structure Closing (events : List CallbackEvent) (c : ThreadConn) : Prop where
  unasked : c.Unasked
  caught : c.point = .closeCaught ↔ ∃ before e, events = before ++ [e] ∧ e.Escapes
  closed : c.ssl = false ↔ ∃ before e, events = before ++ [e, .proceed] ∧ e.Escapes
  returned : c.ssl = false → c.point = .returned

theorem closing_start : Closing [] {} := ⟨unasked_start, by simp, by simp, by simp⟩

theorem Closing.initState (h : c.Closing events) : c.initState.Closing events :=
  ⟨unasked_initState h.unasked, h.caught, h.closed, h.returned⟩

theorem Closing.step (h : c.Closing events) (he : e ≠ .requestStop) (hstep : c.step e = some c') :
    c'.Closing (events ++ [e]) := by
  have hadvances := advances he hstep
  have hopen : c.ssl = true := by
    by_contra hclosed
    have hnext := hadvances.point
    rw [h.returned (by simpa using hclosed)] at hnext
    cases hnext
  -- the connection is closed behind an exception only
  have hcaught : c'.ssl = false → c.point = .closeCaught := by
    intro hssl
    rw [hadvances.ssl, sslNext] at hssl
    cases hat : c.point with
    | closeCaught => rfl
    | closeEmpty | closeStopping => exact absurd (hat ▸ by decide) h.unasked.2
    | _ => simp [hat, hopen] at hssl
  refine ⟨unasked_step h.unasked he hstep, ?_, ?_, ?_⟩
  · constructor
    · intro hpoint
      exact ⟨events, e, rfl, escapes_of_point he hstep hpoint⟩
    · rintro ⟨before, e', heq, hescapes⟩
      obtain ⟨-, hlast⟩ := List.append_inj' heq rfl
      obtain rfl : e = e' := by simpa using hlast
      exact point_of_escapes hescapes hstep
  · constructor
    · intro hssl
      obtain ⟨before, e', rfl, hescapes⟩ := h.caught.mp (hcaught hssl)
      refine ⟨before, e', ?_, hescapes⟩
      cases e with
      | requestStop => exact absurd rfl he
      | proceed => simp
      | shutdown _ | sslRead _ | handled _ | sent _ =>
        simp [ThreadConn.step, hcaught hssl] at hstep
    · rintro ⟨before, e', heq, hescapes⟩
      have hsplit : events ++ [e] = (before ++ [e']) ++ [.proceed] := by simpa using heq
      obtain ⟨hinit, hlast⟩ := List.append_inj' hsplit rfl
      obtain rfl : e = .proceed := by simpa using hlast
      have hpoint := h.caught.mpr ⟨before, e', hinit, hescapes⟩
      rw [hadvances.ssl, sslNext, hpoint]
  · intro hssl
    have hnext := hadvances.point
    rw [hcaught hssl] at hnext
    exact List.mem_singleton.mp hnext

/-- What `callback` does to the connection in a step. -/
theorem ssl_step (he : e ≠ .requestStop) (hstep : c.step e = some c') :
    c'.ssl = if e = .proceed ∧ c.point.closes then false else c.ssl := by
  have hssl := (advances he hstep).ssl
  rw [sslNext] at hssl
  cases hat : c.point with
  | closeEmpty | closeStopping | closeCaught =>
    have hproceed : e = .proceed := by
      cases e with
      | requestStop => exact absurd rfl he
      | proceed => rfl
      | shutdown _ | sslRead _ | handled _ | sent _ => simp [step, hat] at hstep
    rw [hat] at hssl
    simp [hssl, hproceed, CallbackPoint.closes]
  | _ =>
    rw [hat] at hssl
    simp [hssl, CallbackPoint.closes]

end Closing
end ThreadConn

namespace ServerProcess

section Threads

variable {p p' : ServerProcess} {e : ServerEvent} {events : List ServerEvent} {t : Listed} {id : ℕ}

theorem callbackOf_of_nextId_le (hrun : run {} events = some p) (hid : p.nextId ≤ id) :
    events.filterMap (·.callbackOf id) = [] := by
  refine Machine.run_history (H := fun events p => p.nextId ≤ id →
    events.filterMap (·.callbackOf id) = []) (fun _ => rfl) ?_ hrun hid
  intro before p e p' hp hbefore hstep hid
  rw [List.filterMap_append]
  cases step_cases hstep with
  | enlist _ =>
    rw [hbefore (Nat.le_of_succ_le hid)]
    rfl
  | constructs _ _ | interrupt _ | acceptThrows _ | moves _ | requests _ _ | requestsAgain _ _
  | cleanup _ _ _ =>
    rw [hbefore hid]
    rfl
  | callback _ ht _ =>
    obtain ⟨hmem, rfl⟩ := mem_of_find ht
    have hne := (lt_of_lt_of_le ((regular_start.run hp).numbered.lt _ hmem) hid).ne
    rw [hbefore hid]
    simp [ServerEvent.callbackOf, hne]

/-- Until the server is interrupted, each thread of the list closes its connection as its
`callback` tells. -/
theorem closing_run (hrun : run {} events = some p) (h : .interrupt ∉ events)
    (ht : t ∈ p.threads) : t.conn.Closing (events.filterMap (·.callbackOf t.id)) := by
  refine Machine.run_history (H := fun events p => .interrupt ∉ events → ∀ t ∈ p.threads,
    t.conn.Closing (events.filterMap (·.callbackOf t.id))) (by simp) ?_ hrun h t ht
  intro before p e p' hp hbefore hstep hint t ht
  obtain ⟨hinit, hlast⟩ := not_or.mp (mt List.mem_append.mpr hint)
  have hunstopped := unstopped_run hp hinit
  rw [List.filterMap_append]
  cases step_cases hstep with
  | enlist _ =>
    rcases List.mem_append.mp ht with ht | ht
    · simpa [ServerEvent.callbackOf] using hbefore hinit t ht
    · obtain rfl := List.mem_singleton.mp ht
      rw [callbackOf_of_nextId_le hp le_rfl]
      exact ThreadConn.closing_start
  | interrupt _ => exact absurd (List.mem_singleton.mpr rfl) hlast
  | constructs _ hfind =>
    rcases mem_setConn ht with rfl | ⟨hother, -⟩
    · obtain ⟨hmem, rfl⟩ := mem_of_find hfind
      simpa [ServerEvent.callbackOf] using (hbefore hinit _ hmem).initState
    · simpa [ServerEvent.callbackOf] using hbefore hinit t hother
  | acceptThrows _ => simpa [ServerEvent.callbackOf] using hbefore hinit t ht
  | cleanup _ _ _ =>
    simpa [ServerEvent.callbackOf] using hbefore hinit t (List.mem_of_mem_filter ht)
  | moves hmove => exact absurd hunstopped.main hmove.shutsDown
  | requests hmain _ | requestsAgain hmain _ =>
    have hat := hunstopped.main
    simp [hmain, MainPoint.Accepting] at hat
  | callback he hfind hc =>
    obtain ⟨hmem, rfl⟩ := mem_of_find hfind
    rcases mem_setConn ht with rfl | ⟨hother, hne⟩
    · simpa [ServerEvent.callbackOf] using (hbefore hinit _ hmem).step he hc
    · simpa [ServerEvent.callbackOf, Ne.symm hne] using hbefore hinit t hother

/-- Until the server is interrupted, a connection that it has accepted is closed only
if `handle` or `send` throws an exception: when the client goes away it stays open. -/
theorem closed_iff (hrun : run {} events = some p) (h : .interrupt ∉ events)
    (ht : t ∈ p.threads) :
    t.conn.ssl = false ↔ ∃ before e, e.Escapes ∧
      events.filterMap (·.callbackOf t.id) = before ++ [e, .proceed] := by
  rw [(closing_run hrun h ht).closed]
  constructor
  · rintro ⟨before, e, heq, he⟩
    exact ⟨before, e, he, heq⟩
  · rintro ⟨before, e, he, heq⟩
    exact ⟨before, e, heq, he⟩

/-- A client sends something that is not a message; its thread is faster than the
constructor. -/
def intrusion : List ServerEvent :=
  [.enlist, .callback 0 .proceed, .callback 0 (.shutdown 0), .main, .callback 0 (.sslRead 7),
    .callback 0 (.handled (some .exception)), .callback 0 .proceed]

def repelled : Listed where
  id := 0
  conn := { state := .waiting, ssl := false, point := .returned }

theorem closed_iff_intrusion : repelled.conn.ssl = false ↔ ∃ before e, e.Escapes ∧
    intrusion.filterMap (·.callbackOf 0) = before ++ [e, .proceed] :=
  closed_iff (by decide : run {} intrusion = some { threads := [repelled], nextId := 1 })
    (by decide) List.mem_cons_self

end Threads
end ServerProcess

/-- What `accept`, `SSL_new` and `SSL_accept` return to the server. -/
structure Handed where
  client : ℤ
  ssl : ℕ
  result : ℤ
  deriving DecidableEq

/-- The constructor of the connection returns. -/
def Handed.Connects (h : Handed) : Prop := ¬ h.client < 0 ∧ Mode.server.shakesHands h.result = true

instance (h : Handed) : Decidable h.Connects := inferInstanceAs (Decidable (_ ∧ _))

/-- The process and its objects of the TLS library. -/
structure ServerState where
  process : ServerProcess := {}
  tls : TlsObjects
  deriving DecidableEq

namespace ServerState

/-- What a step of the process does to the objects. `accept` returns its connection
at 0, `accept_nonblock` the optional at 1, and the member `conn` of a thread is found
behind the two. The socket is a variable of the block that `main` leaves at its end or
when accepting throws. -/
def tlsOps (p : ServerProcess) (h : Handed) : ServerEvent → List TlsOp
  | .enlist =>
      [.accept 0 0 h.client .server h.ssl h.result, .moveConstruct 1 0, .destroy 0,
        .moveConstruct (p.nextId + 2) 1, .destroy 1]
  | .acceptThrows => [.accept 0 0 h.client .server h.ssl h.result, .destroySocket 0]
  | .main => if p.main = .stopSync none then [.destroySocket 0] else []
  | .callback id e =>
      if e = .proceed ∧ (p.find id).any (·.conn.point.closes) then [.close (id + 2)] else []
  | .cleanup id => [.destroy (id + 2)]
  | .interrupt => []

/-- A step of the process with its objects; whether accepting throws depends on what
the calls return. -/
def step (s : ServerState) (e : ServerEvent × Handed) : Option ServerState :=
  if e.1 = .enlist ∧ ¬ e.2.Connects ∨ e.1 = .acceptThrows ∧ e.2.Connects then none
  else do
    let process ← s.process.step e.1
    let tls ← s.tls.run (tlsOps s.process e.2 e.1)
    pure { process := process, tls := tls }

/-- The server in front of its loop. -/
def listening (fd : ℤ) : ServerState where
  tls := { sockets := [{ loc := 0, side := .server, handle := fd }], fds := { used := [fd] } }

/-- Where a connection is, and whether it is open. -/
def connView (r : StoredConnection) : ℕ × Bool := (r.loc, r.conn.ssl.isSome)

def threadView (t : Listed) : ℕ × Bool := (t.id + 2, t.conn.ssl)

/-- The objects are the socket of `main` and the connections of the threads. -/
structure Coupled (fd : ℤ) (s : ServerState) : Prop where
  connections : s.tls.connections.map connView = s.process.threads.map threadView
  sockets : s.tls.sockets =
    if s.process.main = .done then [] else [{ loc := 0, side := .server, handle := fd }]
  numbered : s.process.Numbered

section Objects

variable {q : TlsObjects}

/-- Moving a connection into a new one and destroying the old one moves it to
another place. -/
theorem run_moveOut (q : TlsObjects) {conns : List StoredConnection} (conn : OwningConnection)
    {a b : ℕ} (hconns : ∀ r ∈ conns, r.loc ≠ a ∧ r.loc ≠ b) (hne : a ≠ b) :
    TlsObjects.run { q with connections := conns ++ [{ loc := a, conn := conn }] }
        [.moveConstruct b a, .destroy a] =
      some { q with connections := conns ++ [{ loc := b, conn := conn }] } := by
  have hfresh : ∀ r ∈ conns, r.loc ≠ a := fun r hr => (hconns r hr).1
  have hfind (x : StoredConnection) (hx : x.loc = a) :
      Table.lookup (·.loc) a (conns ++ [x]) = some x := by
    rw [Table.lookup_append (by rwa [hx]), if_pos hx]
  have hnone : Table.lookup (·.loc) b (conns ++ [{ loc := a, conn := conn }]) = none := by
    rw [Table.lookup_append hfresh, if_neg hne, Table.lookup_eq_none]
    exact fun r hr => (hconns r hr).2
  have hempty : Table.update (·.loc) (⟨a, {}⟩ : StoredConnection) (conns ++ [⟨a, conn⟩]) =
      conns ++ [⟨a, {}⟩] := Table.update_concat hfresh rfl
  have hfound : Table.lookup (·.loc) a (conns ++ [⟨a, {}⟩] ++ [⟨b, conn⟩]) =
      some (⟨a, {}⟩ : StoredConnection) := by
    have hb : ∀ r ∈ conns ++ [(⟨a, {}⟩ : StoredConnection)], r.loc ≠ b := by
      intro r hr
      rcases List.mem_append.mp hr with hr | hr
      · exact (hconns r hr).2
      · rw [List.mem_singleton.mp hr]
        exact hne
    rw [Table.lookup_append hb, if_neg (Ne.symm hne), hfind _ rfl]
  have hdrop : List.filter (·.loc ≠ a) (conns ++ [(⟨a, {}⟩ : StoredConnection)] ++ [⟨b, conn⟩]) =
      conns ++ [⟨b, conn⟩] := by
    rw [List.filter_append, List.filter_append, List.filter_eq_self.mpr (by simpa using hfresh)]
    simp [Ne.symm hne]
  have hmove : TlsObjects.step { q with connections := conns ++ [⟨a, conn⟩] } (.moveConstruct b a) =
      some { q with connections := conns ++ [⟨a, {}⟩] ++ [⟨b, conn⟩] } := by
    simp only [TlsObjects.step, TlsObjects.find, hnone, hfind ⟨a, conn⟩ rfl, TlsObjects.setConn,
      hempty]
    rfl
  have hdestroy : TlsObjects.step
      { q with connections := conns ++ [⟨a, {}⟩] ++ [⟨b, conn⟩] } (.destroy a) =
      some { q with connections := conns ++ [⟨b, conn⟩] } := by
    simp only [TlsObjects.step, TlsObjects.find, hfound, hdrop]
    rfl
  rw [TlsObjects.run, Machine.run, hmove, Option.bind_some, Machine.run_singleton, hdestroy]

/-- The objects with one more connection. -/
def accepted (q : TlsObjects) (c : ℕ) (h : Handed) : Option TlsObjects := do
  let fds ← q.fds.acquire h.client
  let ssls ← q.ssls.acquire h.ssl
  pure { q with
    fds := fds, ssls := ssls
    connections := q.connections ++
      [{ loc := c, conn := { ssl := some h.ssl, connHandle := h.client } }] }

theorem step_accept {h : Handed} {s : StoredSocket} (hs : q.findSocket .server 0 = some s)
    (hnone : q.find 0 = none) (hconnects : h.Connects) :
    q.step (.accept 0 0 h.client .server h.ssl h.result) = accepted q 0 h := by
  obtain ⟨hclient, hshakes⟩ := hconnects
  have hfree (fds : HandlePool ℤ) : TlsObjects.find { q with fds := fds } 0 = none := hnone
  simp only [TlsObjects.step, hs, if_neg hclient, TlsObjects.construct, hfree, hshakes]
  rfl

/-- A connection that is accepted ends up in a thread. -/
theorem run_enlist {p : ServerProcess} {h : Handed} {s : StoredSocket}
    (hs : q.findSocket .server 0 = some s)
    (hlocs : ∀ r ∈ q.connections, 2 ≤ r.loc ∧ r.loc ≠ p.nextId + 2) (hconnects : h.Connects) :
    q.run (tlsOps p h .enlist) = accepted q (p.nextId + 2) h := by
  have hnone : q.find 0 = none := by
    rw [TlsObjects.find_eq_none]
    intro r hr
    have := (hlocs r hr).1
    omega
  have hout (q' : TlsObjects) (conn : OwningConnection) :
      TlsObjects.run { q' with connections := q.connections ++ [⟨0, conn⟩] }
        [.moveConstruct 1 0, .destroy 0, .moveConstruct (p.nextId + 2) 1, .destroy 1] =
      some { q' with connections := q.connections ++ [⟨p.nextId + 2, conn⟩] } := by
    have htemporary : ∀ r ∈ q.connections, r.loc ≠ 0 ∧ r.loc ≠ 1 := by
      intro r hr
      have := (hlocs r hr).1
      omega
    have hoptional : ∀ r ∈ q.connections, r.loc ≠ 1 ∧ r.loc ≠ p.nextId + 2 := by
      intro r hr
      have := hlocs r hr
      omega
    exact Machine.run_append_eq_some.mpr
      ⟨_, run_moveOut q' conn htemporary (by omega), run_moveOut q' conn hoptional (by omega)⟩
  rw [tlsOps, TlsObjects.run, Machine.run, step_accept hs hnone hconnects, accepted, accepted]
  cases q.fds.acquire h.client with
  | none => rfl
  | some fds =>
    cases q.ssls.acquire h.ssl with
    | none => rfl
    | some ssls => exact hout { q with fds := fds, ssls := ssls } _

/-- Accepting that throws leaves the connections and the sockets alone. -/
theorem step_accept_throws {q' : TlsObjects} {h : Handed} (hconnects : ¬ h.Connects)
    (hstep : q.step (.accept 0 0 h.client .server h.ssl h.result) = some q') :
    q'.connections = q.connections ∧ q'.sockets = q.sockets := by
  obtain ⟨s, -, hstep⟩ := Option.bind_eq_some_iff.mp hstep
  split at hstep
  · cases hstep
    exact ⟨rfl, rfl⟩
  · rename_i hclient
    obtain ⟨fds, -, hstep⟩ := Option.bind_eq_some_iff.mp hstep
    obtain ⟨ssls, -, -, ⟨-, rfl⟩ | ⟨hshakes, -⟩⟩ := TlsObjects.construct_cases hstep
    · exact ⟨rfl, rfl⟩
    · exact absurd ⟨hclient, hshakes⟩ hconnects

theorem step_destroySocket {q' : TlsObjects} {fd : ℤ} (hsockets : q.sockets = [⟨0, .server, fd⟩])
    (hstep : q.step (.destroySocket 0) = some q') :
    q'.connections = q.connections ∧ q'.sockets = [] := by
  obtain ⟨s, -, hstep⟩ := Option.bind_eq_some_iff.mp hstep
  cases hstep
  simp [hsockets]

theorem exists_destroySocket {fd : ℤ} (hsockets : q.sockets = [⟨0, .server, fd⟩]) :
    ∃ q', q.step (.destroySocket 0) = some q' := by
  rw [TlsObjects.step, hsockets]
  exact ⟨_, rfl⟩

end Objects

section Coupling

variable {fd : ℤ} {s s' : ServerState} {e : ServerEvent} {h : Handed} {id : ℕ} {t : Listed}

theorem Coupled.loc (hs : Coupled fd s) {r : StoredConnection} (hr : r ∈ s.tls.connections) :
    ∃ t ∈ s.process.threads, threadView t = connView r := by
  have hmem := List.mem_map_of_mem (f := connView) hr
  rw [hs.connections] at hmem
  exact List.mem_map.mp hmem

theorem Coupled.find (hs : Coupled fd s) (ht : s.process.find id = some t) :
    ∃ r, s.tls.find (id + 2) = some r := by
  obtain ⟨hmem, rfl⟩ := ServerProcess.mem_of_find ht
  have hview := List.mem_map_of_mem (f := threadView) hmem
  rw [← hs.connections] at hview
  obtain ⟨r, hr, heq⟩ := List.mem_map.mp hview
  exact Option.isSome_iff_exists.mp
    (Table.lookup_isSome.mpr ⟨r, hr, congrArg Prod.fst heq⟩)

/-- The place of the next thread is free. -/
theorem Coupled.locs (hs : Coupled fd s) :
    ∀ r ∈ s.tls.connections, 2 ≤ r.loc ∧ r.loc ≠ s.process.nextId + 2 := by
  intro r hr
  obtain ⟨t, ht, hview⟩ := hs.loc hr
  have hloc : t.id + 2 = r.loc := congrArg Prod.fst hview
  have hlt := hs.numbered.lt t ht
  omega

theorem Coupled.findSocket (hs : Coupled fd s) (hmain : s.process.main ≠ .done) :
    s.tls.findSocket .server 0 = some { loc := 0, side := .server, handle := fd } := by
  rw [TlsObjects.findSocket, hs.sockets, if_neg hmain]
  rfl

/-- The thread and its connection change together. -/
theorem Coupled.update (hs : Coupled fd s) {c : ThreadConn} {conn : OwningConnection}
    (hssl : conn.ssl.isSome = c.ssl) :
    (s.tls.setConn (id + 2) conn).connections.map connView =
      (s.process.setConn id c).threads.map threadView := by
  have hleft : (s.tls.setConn (id + 2) conn).connections.map connView =
      Table.update Prod.fst (connView ⟨id + 2, conn⟩) (s.tls.connections.map connView) :=
    Table.map_update_view fun _ => Iff.rfl
  have hright : (s.process.setConn id c).threads.map threadView =
      Table.update Prod.fst (threadView ⟨id, c⟩) (s.process.threads.map threadView) :=
    Table.map_update_view fun t => by simp [threadView]
  have hsame : connView ⟨id + 2, conn⟩ = threadView ⟨id, c⟩ := by
    simp [connView, threadView, hssl]
  rw [hleft, hright, hs.connections, hsame]

/-- A step of a thread that leaves its connection alone. -/
theorem threadView_setConn {p : ServerProcess} (hp : p.Numbered) (ht : p.find id = some t)
    {c : ThreadConn} (hssl : c.ssl = t.conn.ssl) :
    (p.setConn id c).threads.map threadView = p.threads.map threadView := by
  obtain ⟨hmem, rfl⟩ := ServerProcess.mem_of_find ht
  refine Table.map_update ?_
  intro t' ht' hid
  rw [Table.eq_of_key hp.keyed ht' hmem hid, threadView, threadView, hssl]

theorem step_eq_some : s.step (e, h) = some s' ↔
    ¬ (e = .enlist ∧ ¬ h.Connects ∨ e = .acceptThrows ∧ h.Connects) ∧
      s.process.step e = some s'.process ∧ s.tls.run (tlsOps s.process h e) = some s'.tls := by
  unfold step
  split
  · rename_i hbad
    exact iff_of_false (by simp) fun hs => hs.1 hbad
  · rename_i hok
    obtain ⟨p', q'⟩ := s'
    simp only [Option.bind_eq_bind, Option.bind_eq_some_iff, hok, not_false_eq_true, true_and]
    constructor
    · rintro ⟨p, hp, q, hq, heq⟩
      cases heq
      exact ⟨hp, hq⟩
    · rintro ⟨hp, hq⟩
      exact ⟨p', hp, q', hq, rfl⟩

/-- The step of the process, and what becomes of the objects. -/
theorem Coupled.step (hs : Coupled fd s) (hstep : s.step (e, h) = some s') : Coupled fd s' := by
  obtain ⟨hok, hprocess, htls⟩ := step_eq_some.mp hstep
  obtain ⟨p', q'⟩ := s'
  have hp := ServerProcess.step_cases hprocess
  have hnumbered := hs.numbered.step hp
  obtain ⟨p, q⟩ := s
  obtain ⟨hconnections, hsockets, hn⟩ := id hs
  simp only at hconnections hsockets hn hp hprocess htls hnumbered
  have hstays {m : MainPoint} (hbefore : p.main ≠ .done) (hafter : m ≠ .done) :
      q.sockets = if m = .done then [] else [{ loc := 0, side := .server, handle := fd }] := by
    rw [hsockets, if_neg hbefore, if_neg hafter]
  cases hp with
  | enlist hmain =>
    have hconnects : h.Connects := by
      by_contra hfails
      exact hok (.inl ⟨rfl, hfails⟩)
    rw [run_enlist (hs.findSocket (by simp [hmain])) hs.locs hconnects] at htls
    obtain ⟨fds, -, htls⟩ := Option.bind_eq_some_iff.mp htls
    obtain ⟨ssls, -, htls⟩ := Option.bind_eq_some_iff.mp htls
    cases htls
    refine ⟨?_, ?_, hnumbered⟩
    · rw [List.map_append, List.map_append, hconnections]
      rfl
    · exact hstays (by simp [hmain]) (by simp)
  | constructs hmain ht =>
    rw [tlsOps, if_neg (by simp [hmain])] at htls
    cases htls
    refine ⟨?_, ?_, hnumbered⟩
    · rw [hconnections]
      exact (threadView_setConn (c := ThreadConn.initState _) hn ht rfl).symm
    · exact hstays (by simp [hmain]) (by simp)
  | interrupt hmain =>
    cases htls
    exact ⟨hconnections, hstays (by simp [hmain]) (by simp), hnumbered⟩
  | acceptThrows hmain =>
    have hfails : ¬ h.Connects := fun hconnects => hok (.inr ⟨rfl, hconnects⟩)
    obtain ⟨q₁, haccept, hrest⟩ := Machine.run_cons_eq_some.mp htls
    rw [Machine.run_singleton] at hrest
    obtain ⟨hsame, hsame'⟩ := step_accept_throws hfails haccept
    rw [hsockets, if_neg (by simp [hmain])] at hsame'
    obtain ⟨hconns, hclosed⟩ := step_destroySocket hsame' hrest
    exact ⟨by rw [hconns, hsame, hconnections], by rw [hclosed, if_pos rfl], hnumbered⟩
  | @moves m hmove =>
    have hopen : p.main ≠ .done := fun hdone => hmove.shutsDown (.inr hdone)
    by_cases hlast : p.main = .stopSync none
    · obtain rfl := hmove.done_iff.mpr hlast
      rw [if_neg hopen] at hsockets
      rw [tlsOps, if_pos hlast, TlsObjects.run, Machine.run_singleton] at htls
      obtain ⟨hconns, hclosed⟩ := step_destroySocket hsockets htls
      exact ⟨by rw [hconns, hconnections], by rw [hclosed, if_pos rfl], hnumbered⟩
    · rw [tlsOps, if_neg hlast] at htls
      cases htls
      exact ⟨hconnections, hstays hopen (mt hmove.done_iff.mp hlast), hnumbered⟩
  | requests hmain ht | requestsAgain hmain ht =>
    rw [tlsOps, if_neg (by simp [hmain])] at htls
    cases htls
    refine ⟨?_, ?_, hnumbered⟩
    · rw [hconnections]
      exact (threadView_setConn hn ht ThreadConn.requestStop_ssl).symm
    · exact hstays (by simp [hmain]) (by simp)
  | @callback id t e c he ht hc =>
    have hssl := ThreadConn.ssl_step he hc
    by_cases hcloses : e = .proceed ∧ t.conn.point.closes
    · rw [tlsOps, ht, Option.any_some, if_pos hcloses, TlsObjects.run] at htls
      rw [Machine.run_singleton] at htls
      rw [if_pos hcloses] at hssl
      obtain ⟨r, hr, htls⟩ := Option.bind_eq_some_iff.mp htls
      cases htls
      have hfreed : Coupled fd ⟨p, q.free r.conn⟩ :=
        ⟨by rw [TlsObjects.free_connections, hconnections],
          by rw [TlsObjects.free_sockets, hsockets], hn⟩
      exact ⟨hfreed.update hssl.symm, hfreed.sockets, hnumbered⟩
    · rw [tlsOps, ht, Option.any_some, if_neg hcloses] at htls
      rw [if_neg hcloses] at hssl
      cases htls
      exact ⟨hconnections.trans (threadView_setConn hn ht hssl).symm, hsockets, hnumbered⟩
  | @cleanup id t ht hstopped _ =>
    rw [tlsOps, TlsObjects.run, Machine.run_singleton] at htls
    obtain ⟨r, hr, htls⟩ := Option.bind_eq_some_iff.mp htls
    cases htls
    have hleft : (q.connections.filter (·.loc ≠ id + 2)).map connView =
        (q.connections.map connView).filter (·.1 ≠ id + 2) := by
      rw [List.filter_map]
      rfl
    have hright : (p.threads.filter (·.id ≠ id)).map threadView =
        (p.threads.map threadView).filter (·.1 ≠ id + 2) := by
      rw [List.filter_map]
      refine congrArg (List.map _) (List.filter_congr fun t _ => ?_)
      simp [threadView]
    refine ⟨by rw [hleft, hright, hconnections], ?_, hnumbered⟩
    exact (TlsObjects.free_sockets (p := q)).trans hsockets

end Coupling

/-- The server after the events. -/
abbrev run (s : ServerState) (events : List (ServerEvent × Handed)) : Option ServerState :=
  Machine.run step s events

/-- Accepting has thrown after the system had handed out a connection. -/
def Abandons (e : ServerEvent × Handed) : Prop := e.1 = .acceptThrows ∧ ¬ e.2.client < 0

instance (e : ServerEvent × Handed) : Decidable (Abandons e) := inferInstanceAs (Decidable (_ ∧ _))

section Runs

variable {fd : ℤ} {s s' : ServerState} {e : ServerEvent} {h : Handed}
  {events : List (ServerEvent × Handed)}

theorem coupled_run (hrun : run (listening fd) events = some s) : Coupled fd s := by
  have hstart : Coupled fd (listening fd) := ⟨rfl, rfl, ServerProcess.regular_start.numbered⟩
  exact Machine.run_invariant (fun _ _ _ hs hstep => Coupled.step hs hstep) hstart hrun

theorem process_run (hrun : run (listening fd) events = some s) :
    ServerProcess.run {} (events.map Prod.fst) = some s.process := by
  refine Machine.run_history (H := fun events s =>
    ServerProcess.run {} (events.map Prod.fst) = some s.process) rfl ?_ hrun
  intro before s e s' _ hbefore hstep
  rw [List.map_append, List.map_singleton]
  exact Machine.run_concat_eq_some.mpr ⟨_, hbefore, (step_eq_some.mp hstep).2.1⟩

/-- The objects do not hold the process up, as long as the system hands out handles
that are not in use and accepting throws when it fails. -/
theorem exists_step (hs : Coupled fd s) {p' : ServerProcess} (hp : s.process.step e = some p')
    (hclient : h.client ∉ s.tls.fds.used) (hssl : h.ssl ∉ s.tls.ssls.used)
    (hok : ¬ (e = .enlist ∧ ¬ h.Connects ∨ e = .acceptThrows ∧ h.Connects)) :
    ∃ q, s.step (e, h) = some ⟨p', q⟩ := by
  suffices hrun : ∃ q, s.tls.run (tlsOps s.process h e) = some q by
    obtain ⟨q, hq⟩ := hrun
    exact ⟨q, step_eq_some.mpr ⟨hok, hp, hq⟩⟩
  have hfds := HandlePool.acquire_eq_some.mpr ⟨hclient, rfl⟩
  have hssls := HandlePool.acquire_eq_some.mpr ⟨hssl, rfl⟩
  cases ServerProcess.step_cases hp with
  | enlist hmain =>
    have hconnects : h.Connects := by
      by_contra hfails
      exact hok (.inl ⟨rfl, hfails⟩)
    rw [run_enlist (hs.findSocket (by simp [hmain])) hs.locs hconnects, accepted, hfds]
    simp only [Option.bind_eq_bind, Option.bind_some, hssls]
    exact ⟨_, rfl⟩
  | interrupt _ => exact ⟨_, rfl⟩
  | acceptThrows hmain =>
    have hfails : ¬ h.Connects := fun hconnects => hok (.inr ⟨rfl, hconnects⟩)
    have hsocket := hs.findSocket (by simp [hmain])
    obtain ⟨q, hq⟩ : ∃ q, s.tls.step (.accept 0 0 h.client .server h.ssl h.result) = some q := by
      by_cases hneg : h.client < 0
      · exact ⟨s.tls, by rw [TlsObjects.step, hsocket]; exact if_pos hneg⟩
      · have hshakes : Mode.server.shakesHands h.result = false := by
          by_contra hshakes
          exact hfails ⟨hneg, by simpa using hshakes⟩
        have hfree (fds : HandlePool ℤ) : TlsObjects.find { s.tls with fds := fds } 0 = none := by
          refine TlsObjects.find_eq_none.mpr fun r hr => ?_
          have := (hs.locs r hr).1
          omega
        refine ⟨{ s.tls with
          fds := { s.tls.fds with used := h.client :: s.tls.fds.used }
          ssls := { s.tls.ssls with used := h.ssl :: s.tls.ssls.used } }, ?_⟩
        simp only [TlsObjects.step, hsocket, if_neg hneg, hfds, TlsObjects.construct, hfree, hssls,
          hshakes, Option.bind_eq_bind, Option.bind_some]
        rfl
    have hsockets := hs.sockets
    rw [if_neg (by simp [hmain]), ← (step_accept_throws hfails hq).2] at hsockets
    obtain ⟨q', hq'⟩ := exists_destroySocket hsockets
    exact ⟨q', Machine.run_cons_eq_some.mpr ⟨q, hq, Machine.run_singleton.trans hq'⟩⟩
  | moves hmove =>
    rw [tlsOps]
    split
    · have hsockets := hs.sockets
      rw [if_neg fun hdone => hmove.shutsDown (.inr hdone)] at hsockets
      obtain ⟨q', hq'⟩ := exists_destroySocket hsockets
      exact ⟨q', Machine.run_singleton.trans hq'⟩
    · exact ⟨_, rfl⟩
  | constructs hmain _ | requests hmain _ | requestsAgain hmain _ =>
    rw [tlsOps, if_neg (by simp [hmain])]
    exact ⟨_, rfl⟩
  | callback he ht hc =>
    rw [tlsOps]
    split
    · obtain ⟨r, hr⟩ := hs.find ht
      exact ⟨_, by rw [TlsObjects.run, Machine.run_singleton, TlsObjects.step, hr]; rfl⟩
    · exact ⟨_, rfl⟩
  | cleanup ht hstopped =>
    obtain ⟨r, hr⟩ := hs.find ht
    exact ⟨_, by rw [tlsOps, TlsObjects.run, Machine.run_singleton, TlsObjects.step, hr]; rfl⟩

theorem exists_fresh (l : List ℤ) : ∃ n : ℕ, (n : ℤ) ∉ l := by
  obtain ⟨n, hn⟩ := Infinite.exists_notMem_finset (l.map Int.toNat).toFinset
  refine ⟨n, fun hmem => hn ?_⟩
  rw [List.mem_toFinset]
  exact List.mem_map.mpr ⟨n, hmem, Int.toNat_natCast n⟩

/-- Whatever the process does, it can do with its objects. -/
theorem exists_run (fd : ℤ) {events : List ServerEvent} {p : ServerProcess}
    (hrun : ServerProcess.run {} events = some p) :
    ∃ both q, both.map Prod.fst = events ∧ run (listening fd) both = some ⟨p, q⟩ := by
  refine Machine.run_history (H := fun events p => ∃ both q, both.map Prod.fst = events ∧
    run (listening fd) both = some ⟨p, q⟩) ⟨[], _, rfl, rfl⟩ ?_ hrun
  rintro before p e p' - ⟨both, q, rfl, hboth⟩ hstep
  obtain ⟨client, hclient⟩ := exists_fresh q.fds.used
  obtain ⟨ssl, hssl⟩ := Infinite.exists_notMem_finset q.ssls.used.toFinset
  have hok : ¬ (e = .enlist ∧ ¬ Handed.Connects ⟨client, ssl, if e = .enlist then 1 else -1⟩ ∨
      e = .acceptThrows ∧ Handed.Connects ⟨client, ssl, if e = .enlist then 1 else -1⟩) := by
    rintro (⟨rfl, hfails⟩ | ⟨rfl, -, hshakes⟩)
    · exact hfails ⟨by simp, rfl⟩
    · cases hshakes
  obtain ⟨q', hq'⟩ := exists_step (coupled_run hboth) hstep hclient (by simpa using hssl) hok
  exact ⟨both ++ [(e, _)], q', by simp, Machine.run_concat_eq_some.mpr ⟨_, hboth, hq'⟩⟩

theorem exists_run_visit : ∃ both q, both.map Prod.fst = ServerProcess.visit ∧
    run (listening 3) both = some ⟨ServerProcess.visited, q⟩ :=
  exists_run 3 (by decide : ServerProcess.run {} ServerProcess.visit = some ServerProcess.visited)

/-- What the operations of a step leave behind. -/
theorem lost_tlsOps (hstep : s.step (e, h) = some s') :
    (∀ op ∈ tlsOps s.process h e, op.shared = 0) ∧
      (tlsOps s.process h e).flatMap TlsOp.lostFds =
        (if Abandons (e, h) then [h.client] else []) ∧
      (tlsOps s.process h e).flatMap TlsOp.lostSsls =
        (if Abandons (e, h) then [h.ssl] else []) := by
  have hok := (step_eq_some.mp hstep).1
  cases e with
  | enlist =>
    have hconnects : h.Connects := by
      by_contra hfails
      exact hok (.inl ⟨rfl, hfails⟩)
    simp [tlsOps, TlsOp.shared, TlsOp.lostFds, TlsOp.lostSsls, Abandons, hconnects.2]
  | acceptThrows =>
    by_cases hclient : h.client < 0
    · simp [tlsOps, TlsOp.shared, TlsOp.lostFds, TlsOp.lostSsls, Abandons, hclient]
    · have hshakes : Mode.server.shakesHands h.result = false := by
        by_contra hshakes
        exact hok (.inr ⟨rfl, hclient, by simpa using hshakes⟩)
      simp [tlsOps, TlsOp.shared, TlsOp.lostFds, TlsOp.lostSsls, Abandons, hclient, hshakes]
  | main =>
    rw [tlsOps]
    split <;> simp [TlsOp.shared, TlsOp.lostFds, TlsOp.lostSsls, Abandons]
  | callback id e =>
    rw [tlsOps]
    split <;> simp [TlsOp.shared, TlsOp.lostFds, TlsOp.lostSsls, Abandons]
  | interrupt | cleanup _ => simp [tlsOps, TlsOp.shared, TlsOp.lostFds, TlsOp.lostSsls, Abandons]

/-- As long as `main` accepts connections, it has not been interrupted and accepting
has not thrown. -/
theorem accepting_run (hrun : run (listening fd) events = some s)
    (hmain : s.process.main.Accepting) :
    s.process.Unstopped ∧ events.countP Abandons = 0 := by
  refine Machine.run_history (H := fun events s => s.process.main.Accepting →
    s.process.Unstopped ∧ events.countP Abandons = 0) ?_ ?_ hrun hmain
  · exact fun _ => ⟨⟨.inl trivial, by simp [listening], rfl⟩, rfl⟩
  · rintro before s ⟨e, h⟩ s' - hbefore hstep hmain
    have hp := ServerProcess.step_cases (step_eq_some.mp hstep).2.1
    obtain ⟨haccept, hint, hthrows⟩ := hp.accepting hmain
    obtain ⟨hunstopped, hnone⟩ := hbefore haccept
    refine ⟨hunstopped.step hint hp, ?_⟩
    rw [List.countP_append, hnone]
    simp [Abandons, hthrows]

/-- Each open connection holds one handle of either kind. -/
theorem length_held {η : Type} {f : OwningConnection → Option η}
    (hf : ∀ conn, (f conn).isSome = conn.ssl.isSome) (hs : Coupled fd s) :
    (held f s.tls.connections).length = s.process.threads.countP (·.conn.ssl) := by
  have hconns : (held f s.tls.connections).length =
      (s.tls.connections.map connView).countP (·.2) := by
    induction s.tls.connections with
    | nil => rfl
    | cons r rest ih =>
      have hr : (f r.conn).toList.length = if (connView r).2 then 1 else 0 := by
        rw [connView, ← hf]
        cases f r.conn <;> rfl
      rw [held] at ih ⊢
      rw [List.flatMap_cons, List.length_append, ih, hr, List.map_cons, List.countP_cons]
      exact Nat.add_comm _ _
  rw [hconns, hs.connections, List.countP_map]
  rfl

/-- The objects of the server have come about by operations that share no descriptor. -/
theorem exists_ops (hfd : 0 ≤ fd) (hrun : run (listening fd) events = some s) :
    ∃ ops, TlsObjects.run {} ops = some s.tls ∧ (∀ op ∈ ops, op.shared = 0) ∧
      (ops.flatMap TlsOp.lostFds).length = events.countP Abandons ∧
      (ops.flatMap TlsOp.lostSsls).length = events.countP Abandons := by
  refine Machine.run_history (H := fun events s => ∃ ops, TlsObjects.run {} ops = some s.tls ∧
    (∀ op ∈ ops, op.shared = 0) ∧ (ops.flatMap TlsOp.lostFds).length = events.countP Abandons ∧
    (ops.flatMap TlsOp.lostSsls).length = events.countP Abandons) ?_ ?_ hrun
  · refine ⟨[.serverSocket 0 fd 0 0], ?_, by simp [TlsOp.shared], ?_, rfl⟩
    · have hvalid : ¬ fd < 0 := by omega
      rw [TlsObjects.run, Machine.run_singleton, TlsObjects.step, TlsObjects.addSocket,
        if_neg hvalid]
      rfl
    · simp [TlsOp.lostFds]
  · rintro before s ⟨e, h⟩ s' - ⟨ops, hops, hshared, hfds, hssls⟩ hstep
    obtain ⟨hshared', hfds', hssls'⟩ := lost_tlsOps hstep
    refine ⟨ops ++ tlsOps s.process h e, ?_, ?_, ?_, ?_⟩
    · exact Machine.run_append_eq_some.mpr ⟨_, hops, (step_eq_some.mp hstep).2.2⟩
    · intro op hop
      exact (List.mem_append.mp hop).elim (hshared op) (hshared' op)
    · rw [List.flatMap_append, List.length_append, hfds, hfds', List.countP_append]
      split <;> rename_i habandons <;> simp [habandons]
    · rw [List.flatMap_append, List.length_append, hssls, hssls', List.countP_append]
      split <;> rename_i habandons <;> simp [habandons]

theorem ssls_run (hfd : 0 ≤ fd) (hrun : run (listening fd) events = some s) :
    s.tls.ssls.faults = 0 ∧ s.tls.ssls.used.length =
      s.process.threads.countP (·.conn.ssl) + events.countP Abandons := by
  obtain ⟨ops, hops, -, -, hlost⟩ := exists_ops hfd hrun
  have hssls := TlsObjects.accounts_ssls hops
  refine ⟨hssls.faults, ?_⟩
  rw [hssls.perm.length_eq, List.length_append, hlost, TlsObjects.heldSsls,
    length_held (fun _ => rfl) (coupled_run hrun)]

theorem fds_run (hfd : 0 ≤ fd) (hrun : run (listening fd) events = some s) :
    s.tls.fds.faults = 0 ∧ s.tls.fds.used.length = (if s.process.main = .done then 0 else 1) +
      s.process.threads.countP (·.conn.ssl) + events.countP Abandons := by
  obtain ⟨ops, hops, hshared, hlost, -⟩ := exists_ops hfd hrun
  have hs := coupled_run hrun
  have hfds := TlsObjects.accounts_fds hops hshared
  have hsockets : (s.tls.sockets.map (·.handle)).length =
      if s.process.main = .done then 0 else 1 := by
    rw [hs.sockets]
    split <;> rfl
  refine ⟨hfds.faults, ?_⟩
  rw [hfds.perm.length_eq, List.length_append, hlost, TlsObjects.heldFds, List.length_append,
    hsockets, length_held (f := OwningConnection.fd) (fun _ => Option.isSome_map) hs]

/-- At any time the server has an `SSL` and a descriptor for each thread whose
connection it has not closed, the descriptor of its socket, and what it lost when
accepting threw. It frees or closes nothing twice. -/
theorem resources (hfd : 0 ≤ fd) (hrun : run (listening fd) events = some s) :
    s.tls.ssls.faults = 0 ∧ s.tls.fds.faults = 0 ∧
      s.tls.ssls.used.length =
        s.process.threads.countP (·.conn.ssl) + events.countP Abandons ∧
      s.tls.fds.used.length = (if s.process.main = .done then 0 else 1) +
        s.process.threads.countP (·.conn.ssl) + events.countP Abandons :=
  ⟨(ssls_run hfd hrun).1, (fds_run hfd hrun).1, (ssls_run hfd hrun).2, (fds_run hfd hrun).2⟩

/-- The handshake of the second client fails. -/
def losing : List (ServerEvent × Handed) :=
  [(.enlist, ⟨4, 100, 1⟩), (.main, ⟨0, 0, 0⟩), (.acceptThrows, ⟨5, 101, -1⟩)]

def losingEnd : ServerState where
  process := { threads := [{ id := 0, conn := {} }], nextId := 1, main := .done }
  tls :=
    { connections := [{ loc := 2, conn := { ssl := some 100, connHandle := 4 } }]
      ssls := { used := [101, 100] }
      fds := { used := [5, 4] } }

theorem resources_losing : losingEnd.tls.ssls.faults = 0 ∧ losingEnd.tls.fds.faults = 0 ∧
    losingEnd.tls.ssls.used.length =
      losingEnd.process.threads.countP (·.conn.ssl) + losing.countP Abandons ∧
    losingEnd.tls.fds.used.length = (if losingEnd.process.main = .done then 0 else 1) +
      losingEnd.process.threads.countP (·.conn.ssl) + losing.countP Abandons :=
  resources (by decide) (by decide : run (listening 3) losing = some losingEnd)

/-- Until it is interrupted the server has a descriptor for every connection that it
has ever accepted, unless an exception of `handle` or `send` has closed it. -/
theorem descriptors_pile_up (hfd : 0 ≤ fd) (hrun : run (listening fd) events = some s)
    (hmain : s.process.main.Accepting) :
    s.tls.fds.used.length + s.process.threads.countP (fun t => ¬ t.conn.ssl) =
      1 + (events.map Prod.fst).count .enlist := by
  obtain ⟨hunstopped, hnone⟩ := accepting_run hrun hmain
  obtain ⟨-, hused⟩ := fds_run hfd hrun
  have hlength : s.process.threads.length = (events.map Prod.fst).count .enlist := by
    have hids := congrArg List.length hunstopped.ids
    rwa [List.length_map, List.length_range, ServerProcess.nextId_run (process_run hrun)] at hids
  have hsplit := List.length_eq_countP_add_countP (p := fun t : Listed => t.conn.ssl)
    (l := s.process.threads)
  have hopen : s.process.main ≠ .done := by
    intro hdone
    rw [hdone] at hmain
    exact hmain
  rw [if_neg hopen, hnone] at hused
  simp only [Bool.not_eq_true] at hsplit ⊢
  omega

/-- A client has come and gone. -/
def visiting : List (ServerEvent × Handed) :=
  ServerProcess.visit.map fun e => (e, ⟨4, 100, 1⟩)

def visitedEnd : ServerState where
  process := ServerProcess.visited
  tls :=
    { connections := [{ loc := 2, conn := { ssl := some 100, connHandle := 4 } }]
      sockets := [{ loc := 0, side := .server, handle := 3 }]
      ssls := { used := [100] }
      fds := { used := [4, 3] } }

theorem descriptors_pile_up_visiting :
    visitedEnd.tls.fds.used.length + visitedEnd.process.threads.countP (fun t => ¬ t.conn.ssl) =
      1 + (visiting.map Prod.fst).count .enlist :=
  descriptors_pile_up (by decide) (by decide : run (listening 3) visiting = some visitedEnd) trivial

end Runs
end ServerState
end Dotchat
