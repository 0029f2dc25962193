import Dotchat.TlsObjects

/-!
Who owns the `SSL` objects and the descriptors in a program on the objects of the
TLS library. Each `SSL` belongs to one connection, or to none because a handshake has
failed. Descriptors are closed by their owner as well, unless a client socket
has shared its own with a connection.
-/
namespace Dotchat

open HandlePool (Transfer)

/-- What an operation leaves behind without an owner, and how many descriptors
it gives to a second one. -/
structure TlsOp.Leaves (op : TlsOp) (ssls : List ℕ) (fds : List ℤ) (shared : ℕ) : Prop where
  ssls : op.lostSsls = ssls
  fds : op.lostFds = fds
  shared : op.shared = shared

/-- What the operations do. -/
inductive TlsStep (p : TlsObjects) (op : TlsOp) : TlsObjects → Prop
  | throws (h : op.Leaves [] [] 0) : TlsStep p op p
  | losesSocket {fd : ℤ} {fds : HandlePool ℤ} (h : op.Leaves [] [fd] 0)
      (hfds : p.fds.acquire fd = some fds) : TlsStep p op { p with fds := fds }
  | socket {s : StoredSocket} {fds : HandlePool ℤ} (h : op.Leaves [] [] 0)
      (hfresh : ∀ s' ∈ p.sockets, s'.loc ≠ s.loc) (hfds : p.fds.acquire s.handle = some fds) :
      TlsStep p op { p with fds := fds, sockets := p.sockets ++ [s] }
  | refused {client : ℤ} {ssl : ℕ} {fds : HandlePool ℤ} {ssls : HandlePool ℕ}
      (h : op.Leaves [ssl] [client] 0) (hfds : p.fds.acquire client = some fds)
      (hssls : p.ssls.acquire ssl = some ssls) : TlsStep p op { p with fds := fds, ssls := ssls }
  | accepted {c ssl : ℕ} {client : ℤ} {fds : HandlePool ℤ} {ssls : HandlePool ℕ}
      (h : op.Leaves [] [] 0) (hfresh : p.find c = none) (hfds : p.fds.acquire client = some fds)
      (hssls : p.ssls.acquire ssl = some ssls) :
      TlsStep p op { p with
        fds := fds, ssls := ssls
        connections := p.connections ++
          [{ loc := c, conn := { ssl := some ssl, connHandle := client } }] }
  | unconnected {ssl : ℕ} {ssls : HandlePool ℕ} (h : op.Leaves [ssl] [] 0)
      (hssls : p.ssls.acquire ssl = some ssls) : TlsStep p op { p with ssls := ssls }
  | connected {c ssl : ℕ} {s : StoredSocket} {ssls : HandlePool ℕ} (h : op.Leaves [] [] 1)
      (hfresh : p.find c = none) (hssls : p.ssls.acquire ssl = some ssls) :
      TlsStep p op { p with
        ssls := ssls
        connections := p.connections ++
          [{ loc := c, conn := { ssl := some ssl, connHandle := s.handle } }] }
  | moveConstruct {c src : ℕ} {other : StoredConnection} (h : op.Leaves [] [] 0)
      (hfresh : p.find c = none) (hother : p.find src = some other) :
      TlsStep p op { p.setConn src {} with
        connections := (p.setConn src {}).connections ++ [{ loc := c, conn := other.conn }] }
  | moveAssign {c src : ℕ} {this other : StoredConnection} (h : op.Leaves [] [] 0)
      (hthis : p.find c = some this) (hother : p.find src = some other) :
      TlsStep p op ((p.setConn c other.conn).setConn src this.conn)
  | close {c : ℕ} {this : StoredConnection} (h : op.Leaves [] [] 0)
      (hthis : p.find c = some this) :
      TlsStep p op ((p.free this.conn).setConn c { this.conn with ssl := none })
  | destroy {c : ℕ} {this : StoredConnection} (h : op.Leaves [] [] 0)
      (hthis : p.find c = some this) :
      TlsStep p op { p.free this.conn with connections := p.connections.filter (·.loc ≠ c) }
  | destroySocket {i : ℕ} {s : StoredSocket} (h : op.Leaves [] [] 0)
      (hs : Table.lookup (·.loc) i p.sockets = some s) :
      TlsStep p op { p with
        fds := p.fds.release s.handle, sockets := p.sockets.filter (·.loc ≠ i) }

namespace TlsObjects

section Steps

variable {p p' : TlsObjects} {op : TlsOp}

theorem addSocket_cases {i : ℕ} {side : Mode} {fd : ℤ} {succeeds : Bool}
    (h : p.addSocket i side fd succeeds = some p')
    (hleaves : op.Leaves [] (if fd < 0 ∨ succeeds then [] else [fd]) 0) : TlsStep p op p' := by
  unfold addSocket at h
  split at h
  · cases h
  rename_i hfree
  split at h
  · rename_i hneg
    cases h
    rw [if_pos (.inl hneg)] at hleaves
    exact .throws hleaves
  rename_i hneg
  obtain ⟨fds, hfds, h⟩ := Option.bind_eq_some_iff.mp h
  split at h
  · rename_i hsucceeds
    cases h
    rw [if_pos (.inr hsucceeds)] at hleaves
    have hnone : Table.lookup (·.loc) i p.sockets = none := by simpa using hfree
    exact .socket hleaves (Table.lookup_eq_none.mp hnone) hfds
  · rename_i hfails
    cases h
    rw [if_neg (not_or.mpr ⟨hneg, hfails⟩)] at hleaves
    exact .losesSocket hleaves hfds

theorem construct_cases {c ssl : ℕ} {fd result : ℤ} {mode : Mode}
    (h : p.construct c fd mode ssl result = some p') :
    ∃ ssls, p.find c = none ∧ p.ssls.acquire ssl = some ssls ∧
      (mode.shakesHands result = false ∧ p' = { p with ssls := ssls } ∨
        mode.shakesHands result = true ∧ p' = { p with
          ssls := ssls
          connections := p.connections ++
            [{ loc := c, conn := { ssl := some ssl, connHandle := fd } }] }) := by
  unfold construct at h
  split at h
  · cases h
  rename_i hfree
  obtain ⟨ssls, hssls, h⟩ := Option.bind_eq_some_iff.mp h
  refine ⟨ssls, by simpa using hfree, hssls, ?_⟩
  split at h
  · rename_i hshakes
    cases h
    exact .inr ⟨hshakes, rfl⟩
  · rename_i hfails
    cases h
    exact .inl ⟨by simpa using hfails, rfl⟩

theorem tlsStep_of_step (h : p.step op = some p') : TlsStep p op p' := by
  cases op with
  | serverSocket i fd bound listening =>
    refine addSocket_cases h ⟨rfl, ?_, rfl⟩
    simp [TlsOp.lostFds]
  | clientSocket i fd =>
    refine addSocket_cases h ⟨rfl, ?_, rfl⟩
    simp [TlsOp.lostFds]
  | accept i c client mode ssl result =>
    obtain ⟨s, hs, h⟩ := Option.bind_eq_some_iff.mp h
    split at h
    · rename_i hneg
      cases h
      exact .throws ⟨if_pos (.inl hneg), if_pos (.inl hneg), rfl⟩
    · rename_i hclient
      obtain ⟨fds, hfds, h⟩ := Option.bind_eq_some_iff.mp h
      obtain ⟨ssls, hfresh, hssls, ⟨hfails, rfl⟩ | ⟨hshakes, rfl⟩⟩ := construct_cases h
      · have hlost : ¬ (client < 0 ∨ mode.shakesHands result = true) := by simp [hclient, hfails]
        exact .refused ⟨if_neg hlost, if_neg hlost, rfl⟩ hfds hssls
      · exact .accepted ⟨if_pos (.inr hshakes), if_pos (.inr hshakes), rfl⟩ hfresh hfds hssls
  | connect i c parsed connected mode ssl result =>
    obtain ⟨s, hs, h⟩ := Option.bind_eq_some_iff.mp h
    split at h
    · rename_i hneg
      cases h
      refine .throws ⟨if_pos ?_, rfl, if_pos ?_⟩
      · exact or_assoc.mp (.inl hneg)
      · exact or_assoc.mp (.inl hneg)
    · rename_i hcalls
      obtain ⟨hparsed, hconnected⟩ := not_or.mp hcalls
      obtain ⟨ssls, hfresh, hssls, ⟨hfails, rfl⟩ | ⟨hshakes, rfl⟩⟩ := construct_cases h
      · refine .unconnected ⟨if_neg ?_, rfl, if_pos ?_⟩ hssls
        · simp [hparsed, hconnected, hfails]
        · simp [hfails]
      · refine .connected ⟨if_pos (.inr (.inr hshakes)), rfl, if_neg ?_⟩ hfresh hssls
        simp [hparsed, hconnected, hshakes]
  | moveConstruct c src =>
    simp only [step] at h
    split at h
    · cases h
    rename_i hfree
    obtain ⟨other, hother, h⟩ := Option.bind_eq_some_iff.mp h
    cases h
    exact .moveConstruct ⟨rfl, rfl, rfl⟩ (by simpa using hfree) hother
  | moveAssign c src =>
    obtain ⟨this, hthis, h⟩ := Option.bind_eq_some_iff.mp h
    obtain ⟨other, hother, h⟩ := Option.bind_eq_some_iff.mp h
    cases h
    exact .moveAssign ⟨rfl, rfl, rfl⟩ hthis hother
  | close c =>
    obtain ⟨this, hthis, h⟩ := Option.bind_eq_some_iff.mp h
    cases h
    exact .close ⟨rfl, rfl, rfl⟩ hthis
  | destroy c =>
    obtain ⟨this, hthis, h⟩ := Option.bind_eq_some_iff.mp h
    cases h
    exact .destroy ⟨rfl, rfl, rfl⟩ hthis
  | destroySocket i =>
    obtain ⟨s, hs, h⟩ := Option.bind_eq_some_iff.mp h
    cases h
    exact .destroySocket ⟨rfl, rfl, rfl⟩ hs

end Steps

/-- No two connections are stored in one place, and no two sockets. -/
structure Placed (p : TlsObjects) : Prop where
  connections : Table.Keyed (·.loc) p.connections
  sockets : Table.Keyed (·.loc) p.sockets

section Holders

variable {η : Type} {f : OwningConnection → Option η} {p p' : TlsObjects} {op : TlsOp}
  {c src : ℕ} {r : StoredConnection} {conn : OwningConnection}

@[simp] theorem setConn_sockets : (p.setConn c conn).sockets = p.sockets := rfl

@[simp] theorem setConn_ssls : (p.setConn c conn).ssls = p.ssls := rfl

@[simp] theorem setConn_fds : (p.setConn c conn).fds = p.fds := rfl

@[simp] theorem free_connections : (p.free conn).connections = p.connections := by
  unfold free
  split <;> rfl

@[simp] theorem free_sockets : (p.free conn).sockets = p.sockets := by
  unfold free
  split <;> rfl

@[simp] theorem free_find : (p.free conn).find c = p.find c := by
  rw [find, free_connections, find]

theorem find_eq_none : p.find c = none ↔ ∀ r ∈ p.connections, r.loc ≠ c := Table.lookup_eq_none

theorem Placed.setConn (h : p.Placed) : (p.setConn c conn).Placed :=
  ⟨Table.keyed_update h.connections, h.sockets⟩

theorem Placed.free (h : p.Placed) : (p.free conn).Placed :=
  ⟨by rw [free_connections]; exact h.connections, by rw [free_sockets]; exact h.sockets⟩

theorem find_setConn_of_ne (hne : c ≠ src) : (p.setConn c conn).find src = p.find src :=
  Table.lookup_update_of_ne (r := (⟨c, conn⟩ : StoredConnection)) hne

/-- What one connection holds, and what the others hold. -/
theorem held_of_find (h : p.Placed) (hfind : p.find c = some r) :
    (held f p.connections).Perm
      ((f r.conn).toList ++ held f (p.connections.filter (·.loc ≠ c))) :=
  Table.flatMap_of_lookup h.connections hfind

/-- Another value of a connection changes what that connection holds. -/
theorem held_setConn (h : p.Placed) (conn : OwningConnection) (hfind : p.find c = some r) :
    (held f (p.setConn c conn).connections ++ (f r.conn).toList).Perm
      (held f p.connections ++ (f conn).toList) :=
  Table.flatMap_update (r := (⟨c, conn⟩ : StoredConnection)) h.connections hfind

theorem held_concat (connections : List StoredConnection) :
    held f (connections ++ [r]) = held f connections ++ (f r.conn).toList := by
  rw [held, List.flatMap_append, List.flatMap_singleton, held]

/-- Moves leave what is held in the hands of some connection. -/
theorem held_moveConstruct (h : p.Placed) {other : StoredConnection}
    (hother : p.find src = some other) (hnone : f {} = none) :
    (held f ((p.setConn src {}).connections ++ [{ loc := c, conn := other.conn }])).Perm
      (held f p.connections) := by
  have hset := held_setConn (f := f) h {} hother
  rw [hnone, Option.toList_none, List.append_nil] at hset
  rw [held_concat]
  exact hset

theorem held_moveAssign (h : p.Placed) {this other : StoredConnection}
    (hthis : p.find c = some this) (hother : p.find src = some other) :
    (held f ((p.setConn c other.conn).setConn src this.conn).connections).Perm
      (held f p.connections) := by
  have hthis' : Table.lookup (·.loc) (⟨c, other.conn⟩ : StoredConnection).loc p.connections =
      some this := hthis
  have hother' : Table.lookup (·.loc) (⟨src, this.conn⟩ : StoredConnection).loc p.connections =
      some other := hother
  exact Table.flatMap_swap h.connections hthis' hother' rfl rfl

/-- After `close` the connection holds nothing. -/
theorem held_close (h : p.Placed) {this : StoredConnection} (hthis : p.find c = some this)
    (hnone : f { this.conn with ssl := none } = none) :
    (held f p.connections).Perm ((f this.conn).toList ++
      held f ((p.free this.conn).setConn c { this.conn with ssl := none }).connections) := by
  have hfree : (p.free this.conn).Placed := h.free
  have hset := held_setConn (f := f) hfree { this.conn with ssl := none } (free_find.trans hthis)
  rw [hnone, Option.toList_none, List.append_nil, free_connections] at hset
  exact hset.symm.trans List.perm_append_comm

/-- `SSL_free` and `::close` take what the connection holds. -/
theorem transfer_free_ssl {mine rest : List ℕ} (h : mine.Perm (conn.ssl.toList ++ rest)) :
    Transfer p.ssls mine 0 (p.free conn).ssls rest := by
  unfold free
  cases hssl : conn.ssl with
  | none =>
    rw [hssl] at h
    exact .keeps h
  | some ssl =>
    rw [hssl] at h
    exact HandlePool.transfer_gives h

theorem transfer_free_fd {mine rest : List ℤ} (h : mine.Perm (conn.fd.toList ++ rest)) :
    Transfer p.fds mine 0 (p.free conn).fds rest := by
  unfold OwningConnection.fd at h
  unfold free
  cases hssl : conn.ssl with
  | none =>
    rw [hssl] at h
    exact .keeps h
  | some ssl =>
    rw [hssl] at h
    exact HandlePool.transfer_gives h

theorem Placed.step (h : p.Placed) (hstep : TlsStep p op p') : p'.Placed := by
  cases hstep with
  | throws _ => exact h
  | losesSocket _ _ | refused _ _ _ | unconnected _ _ => exact ⟨h.connections, h.sockets⟩
  | socket _ hfresh _ => exact ⟨h.connections, Table.keyed_append h.sockets hfresh⟩
  | accepted _ hfresh _ _ | connected _ hfresh _ =>
    exact ⟨Table.keyed_append h.connections (find_eq_none.mp hfresh), h.sockets⟩
  | moveConstruct _ hfresh hother =>
    refine ⟨Table.keyed_append h.setConn.connections (find_eq_none.mp ?_), h.sockets⟩
    rw [find_setConn_of_ne, hfresh]
    intro hself
    rw [hself, hfresh] at hother
    cases hother
  | moveAssign _ _ _ => exact h.setConn.setConn
  | close _ _ => exact h.free.setConn
  | destroy _ _ => exact ⟨Table.keyed_filter h.connections _, by rw [free_sockets]; exact h.sockets⟩
  | destroySocket _ _ => exact ⟨h.connections, Table.keyed_filter h.sockets _⟩

/-- Each `SSL` keeps one owner. -/
theorem ssls_step (h : p.Placed) (hstep : TlsStep p op p') :
    Transfer p.ssls p.heldSsls 0 p'.ssls (p'.heldSsls ++ op.lostSsls) := by
  unfold heldSsls
  cases hstep with
  | throws hleaves | losesSocket hleaves _ | socket hleaves _ _ | destroySocket hleaves _ =>
    rw [hleaves.ssls, List.append_nil]
    exact .keeps .rfl
  | refused hleaves _ hssls | unconnected hleaves hssls =>
    rw [hleaves.ssls]
    exact HandlePool.transfer_takes hssls List.perm_append_comm
  | accepted hleaves _ _ hssls | connected hleaves _ hssls =>
    rw [hleaves.ssls, List.append_nil, held_concat]
    exact HandlePool.transfer_takes hssls List.perm_append_comm
  | moveConstruct hleaves _ hother =>
    rw [hleaves.ssls, List.append_nil]
    exact .keeps (held_moveConstruct h hother rfl).symm
  | moveAssign hleaves hthis hother =>
    rw [hleaves.ssls, List.append_nil]
    exact .keeps (held_moveAssign h hthis hother).symm
  | close hleaves hthis =>
    rw [hleaves.ssls, List.append_nil]
    exact transfer_free_ssl (held_close h hthis rfl)
  | destroy hleaves hthis =>
    rw [hleaves.ssls, List.append_nil]
    exact transfer_free_ssl (held_of_find h hthis)

/-- A connection that a client socket has got is the second owner of a descriptor. -/
theorem fds_step (h : p.Placed) (hstep : TlsStep p op p') :
    Transfer p.fds p.heldFds op.shared p'.fds (p'.heldFds ++ op.lostFds) := by
  unfold heldFds
  cases hstep with
  | throws hleaves | unconnected hleaves _ =>
    rw [hleaves.fds, hleaves.shared, List.append_nil]
    exact .keeps .rfl
  | losesSocket hleaves hfds | refused hleaves hfds _ =>
    rw [hleaves.fds, hleaves.shared]
    exact HandlePool.transfer_takes hfds List.perm_append_comm
  | socket hleaves _ hfds =>
    rw [hleaves.fds, hleaves.shared, List.append_nil, List.map_append, List.append_assoc]
    exact HandlePool.transfer_takes hfds List.perm_middle
  | accepted hleaves _ hfds _ =>
    rw [hleaves.fds, hleaves.shared, List.append_nil, held_concat, ← List.append_assoc]
    exact HandlePool.transfer_takes hfds List.perm_append_comm
  | connected hleaves _ hssls =>
    rw [hleaves.fds, hleaves.shared, List.append_nil, held_concat, ← List.append_assoc]
    exact HandlePool.transfer_shares List.perm_append_comm
  | moveConstruct hleaves _ hother =>
    rw [hleaves.fds, hleaves.shared, List.append_nil]
    exact .keeps ((held_moveConstruct h hother rfl).symm.append_left _)
  | moveAssign hleaves hthis hother =>
    rw [hleaves.fds, hleaves.shared, List.append_nil]
    exact .keeps ((held_moveAssign h hthis hother).symm.append_left _)
  | close hleaves hthis =>
    rw [hleaves.fds, hleaves.shared, List.append_nil, setConn_sockets, free_sockets]
    exact transfer_free_fd
      (((held_close h hthis rfl).append_left _).trans (List.perm_append_comm_assoc ..))
  | destroy hleaves hthis =>
    rw [hleaves.fds, hleaves.shared, List.append_nil, free_sockets]
    exact transfer_free_fd
      (((held_of_find h hthis).append_left _).trans (List.perm_append_comm_assoc ..))
  | destroySocket hleaves hs =>
    rw [hleaves.fds, hleaves.shared, List.append_nil]
    exact HandlePool.transfer_gives (((Table.perm_of_lookup h.sockets hs).map _).append_right _)

end Holders

section Runs

variable {p p' : TlsObjects} {ops : List TlsOp}

theorem placed_run (hrun : run {} ops = some p) : p.Placed := by
  have hstart : Placed {} := ⟨.nil, .nil⟩
  exact Machine.run_invariant (fun _ _ _ hp hstep => hp.step (tlsStep_of_step hstep)) hstart hrun

theorem accounts_ssls (hrun : run {} ops = some p) :
    p.ssls.Accounts (p.heldSsls ++ ops.flatMap TlsOp.lostSsls) := by
  refine Machine.run_history (H := fun ops p => p.ssls.Accounts
    (p.heldSsls ++ ops.flatMap TlsOp.lostSsls)) HandlePool.accounts_start ?_ hrun
  intro before q op q' hq hbefore hstep
  rw [List.flatMap_append, List.flatMap_singleton]
  exact hbefore.transfer (ssls_step (placed_run hq) (tlsStep_of_step hstep)).behind rfl

theorem accounts_fds (hrun : run {} ops = some p) (hshared : ∀ op ∈ ops, op.shared = 0) :
    p.fds.Accounts (p.heldFds ++ ops.flatMap TlsOp.lostFds) := by
  refine Machine.run_history (H := fun ops p => (∀ op ∈ ops, op.shared = 0) →
    p.fds.Accounts (p.heldFds ++ ops.flatMap TlsOp.lostFds))
    (fun _ => HandlePool.accounts_start) ?_ hrun hshared
  intro before q op q' hq hbefore hstep hshared
  have hop : op.shared = 0 := hshared op (by simp)
  have hfds := fds_step (placed_run hq) (tlsStep_of_step hstep)
  rw [List.flatMap_append, List.flatMap_singleton]
  exact (hbefore fun op hmem => hshared op (List.mem_append_left _ hmem)).transfer hfds.behind hop

/-- In no program is an `SSL` freed twice: those that are not freed belong to one
connection each, or their handshake has failed. The same holds of descriptors and the
objects that close them, unless a client socket gets a connection. -/
theorem objects_accounted (hrun : run {} ops = some p) :
    p.ssls.Accounts (p.heldSsls ++ ops.flatMap TlsOp.lostSsls) ∧
      ((∀ op ∈ ops, op.shared = 0) →
        p.fds.Accounts (p.heldFds ++ ops.flatMap TlsOp.lostFds)) :=
  ⟨accounts_ssls hrun, accounts_fds hrun⟩

/-- The server accepts two connections. The second handshake fails, and the first
connection is moved, closed and destroyed. -/
def acceptingTwo : List TlsOp :=
  [.serverSocket 0 3 0 0, .accept 0 0 4 .server 100 1, .moveConstruct 1 0, .destroy 0,
    .accept 0 2 5 .server 101 (-1), .close 1, .destroy 1]

def acceptedTwo : TlsObjects where
  sockets := [{ loc := 0, side := .server, handle := 3 }]
  ssls := { used := [101] }
  fds := { used := [5, 3] }

theorem objects_accounted_acceptingTwo :
    acceptedTwo.ssls.Accounts (acceptedTwo.heldSsls ++ acceptingTwo.flatMap TlsOp.lostSsls) ∧
      ((∀ op ∈ acceptingTwo, op.shared = 0) →
        acceptedTwo.fds.Accounts (acceptedTwo.heldFds ++ acceptingTwo.flatMap TlsOp.lostFds)) :=
  objects_accounted (by decide : run {} acceptingTwo = some acceptedTwo)

/-- What the destructors will close and what nobody closes, and the calls of `close`
that failed so far, are the open descriptors and one more for each connection that a
client socket has got. -/
theorem fds_balance (hrun : run {} ops = some p) :
    p.fds.faults + (p.heldFds ++ ops.flatMap TlsOp.lostFds).length =
      (ops.map TlsOp.shared).sum + p.fds.used.length := by
  refine Machine.run_history (H := fun ops p => p.fds.Balances
    (p.heldFds ++ ops.flatMap TlsOp.lostFds).length (ops.map TlsOp.shared).sum)
    HandlePool.balances_start ?_ hrun
  intro before q op q' hq hbefore hstep
  rw [List.flatMap_append, List.flatMap_singleton, List.map_append, List.sum_append,
    List.map_singleton, List.sum_singleton]
  exact hbefore.transfer (fds_step (placed_run hq) (tlsStep_of_step hstep)).behind

/-- `main` of the client: the connection is destroyed before the socket. -/
def clientMain : List TlsOp :=
  [.clientSocket 0 3, .connect 0 0 1 0 .client 100 1, .destroy 0, .destroySocket 0]

def closedTwice : TlsObjects where
  fds := { faults := 1 }

theorem fds_balance_clientMain :
    closedTwice.fds.faults +
        (closedTwice.heldFds ++ clientMain.flatMap TlsOp.lostFds).length =
      (clientMain.map TlsOp.shared).sum + closedTwice.fds.used.length :=
  fds_balance (by decide : run {} clientMain = some closedTwice)

end Runs
end TlsObjects
end Dotchat
