import Dotchat.Library.Handles
import Dotchat.Library.Machine
import Dotchat.Library.Table
import Dotchat.Transmission

/-!
The objects that own what the TLS library and the system hand out: a socket owns a
descriptor, and a connection an `SSL` and a descriptor. Programs make, move, close
and destroy them in any order. What the calls outside return comes with the
operation; the handles among it are any that are not in use.
-/
namespace Dotchat

/-- `tls_context::mode` -/
inductive Mode
  | client | server
  deriving DecidableEq

/-- `tls_connection` with all its members. -/
structure OwningConnection extends TlsConnection where
  /-- the `SSL` it points to -/
  ssl : Option ℕ := none
  connHandle : ℤ := -1
  connected : Bool := false
  deriving DecidableEq

/-- A connection, and where it is stored. -/
structure StoredConnection where
  loc : ℕ
  conn : OwningConnection
  deriving DecidableEq

/-- A `tls_server_socket` or a `tls_client_socket`. -/
structure StoredSocket where
  loc : ℕ
  side : Mode
  handle : ℤ
  deriving DecidableEq

/-- The objects of a program, and what is not yet freed or closed. -/
structure TlsObjects where
  connections : List StoredConnection := []
  sockets : List StoredSocket := []
  ssls : HandlePool ℕ := {}
  fds : HandlePool ℤ := {}
  deriving DecidableEq

/-- The operations, with the results of `socket`, `bind` and `listen`; of `accept`,
`SSL_new` and `SSL_accept`; and of `inet_pton`, `connect`, `SSL_new` and
`SSL_connect`. The mode is that of the context of the socket. -/
inductive TlsOp
  | serverSocket (i : ℕ) (fd bound listening : ℤ)
  | clientSocket (i : ℕ) (fd : ℤ)
  | accept (i c : ℕ) (client : ℤ) (mode : Mode) (ssl : ℕ) (result : ℤ)
  | connect (i c : ℕ) (parsed connected : ℤ) (mode : Mode) (ssl : ℕ) (result : ℤ)
  | moveConstruct (c src : ℕ)
  | moveAssign (c src : ℕ)
  | close (c : ℕ)
  | destroy (c : ℕ)
  | destroySocket (i : ℕ)
  deriving DecidableEq

/-- What the constructor of `tls_connection` makes of the result of the handshake. -/
def Mode.shakesHands : Mode → ℤ → Bool
  | .server, result => ¬ result < 0
  | .client, result => ¬ result ≤ 0

namespace TlsObjects

variable (p : TlsObjects)

def find (c : ℕ) : Option StoredConnection := Table.lookup (·.loc) c p.connections

def findSocket (side : Mode) (i : ℕ) : Option StoredSocket :=
  (Table.lookup (·.loc) i p.sockets).filter (·.side = side)

def setConn (c : ℕ) (conn : OwningConnection) : TlsObjects :=
  { p with connections := Table.update (·.loc) { loc := c, conn := conn } p.connections }

/-- `tls_connection::tls_connection(ctxt, conn_handle)`: when it throws there is no
object and no destructor. -/
def construct (c : ℕ) (fd : ℤ) (mode : Mode) (ssl : ℕ) (result : ℤ) : Option TlsObjects :=
  if (p.find c).isSome then none
  else do
    let ssls ← p.ssls.acquire ssl
    if mode.shakesHands result then
      pure { p with
        ssls := ssls
        connections := p.connections ++
          [{ loc := c, conn := { ssl := some ssl, connHandle := fd } }] }
    else pure { p with ssls := ssls }

/-- The constructor of a socket behind the call of `socket`. -/
def addSocket (i : ℕ) (side : Mode) (fd : ℤ) (succeeds : Bool) : Option TlsObjects :=
  if (Table.lookup (·.loc) i p.sockets).isSome then none
  else if fd < 0 then some p
  else do
    let fds ← p.fds.acquire fd
    if succeeds then
      pure { p with fds := fds, sockets := p.sockets ++ [{ loc := i, side := side, handle := fd }] }
    else pure { p with fds := fds }

/-- `SSL_free` and `::close`, unless `ssl` is null. -/
def free (conn : OwningConnection) : TlsObjects :=
  match conn.ssl with
  | none => p
  | some ssl => { p with ssls := p.ssls.release ssl, fds := p.fds.release conn.connHandle }

def step : TlsOp → Option TlsObjects
  | .serverSocket i fd bound listening =>
      p.addSocket i .server fd (¬ bound < 0 ∧ ¬ listening < 0)
  | .clientSocket i fd => p.addSocket i .client fd true
  | .accept i c client mode ssl result => do
      let _ ← p.findSocket .server i
      if client < 0 then pure p
      else do
        let fds ← p.fds.acquire client
        { p with fds := fds }.construct c client mode ssl result
  | .connect i c parsed connected mode ssl result => do
      let s ← p.findSocket .client i
      if parsed ≤ 0 ∨ connected < 0 then pure p else p.construct c s.handle mode ssl result
  | .moveConstruct c src =>
      if (p.find c).isSome then none
      else do
        let other ← p.find src
        let q := p.setConn src {}
        pure { q with connections := q.connections ++ [{ loc := c, conn := other.conn }] }
  | .moveAssign c src => do
      let this ← p.find c
      let other ← p.find src
      pure ((p.setConn c other.conn).setConn src this.conn)
  | .close c => do
      let this ← p.find c
      pure ((p.free this.conn).setConn c { this.conn with ssl := none })
  | .destroy c => do
      let this ← p.find c
      pure { p.free this.conn with connections := p.connections.filter (·.loc ≠ c) }
  | .destroySocket i => do
      let s ← Table.lookup (·.loc) i p.sockets
      pure { p with
        fds := p.fds.release s.handle, sockets := p.sockets.filter (·.loc ≠ i) }

def run (ops : List TlsOp) : Option TlsObjects := Machine.run step p ops

end TlsObjects

/-- What connections hold of a kind. -/
def held {η : Type} (f : OwningConnection → Option η) (connections : List StoredConnection) :
    List η :=
  connections.flatMap fun r => (f r.conn).toList

/-- The descriptor that a connection will close. -/
def OwningConnection.fd (conn : OwningConnection) : Option ℤ :=
  conn.ssl.map fun _ => conn.connHandle

/-- The `SSL` objects that connections point to. -/
def TlsObjects.heldSsls (p : TlsObjects) : List ℕ := held (·.ssl) p.connections

/-- The descriptors that the destructors of the objects will close. -/
def TlsObjects.heldFds (p : TlsObjects) : List ℤ :=
  p.sockets.map (·.handle) ++ held (·.fd) p.connections

namespace TlsOp

/-- A handshake has failed and the constructor of the connection has thrown. -/
def lostSsls : TlsOp → List ℕ
  | .accept _ _ client mode ssl result =>
      if client < 0 ∨ mode.shakesHands result then [] else [ssl]
  | .connect _ _ parsed connected mode ssl result =>
      if parsed ≤ 0 ∨ connected < 0 ∨ mode.shakesHands result then [] else [ssl]
  | .serverSocket .. | .clientSocket .. | .moveConstruct .. | .moveAssign .. | .close _ | .destroy _
  | .destroySocket _ => []

/-- A constructor has thrown that was in charge of a descriptor. -/
def lostFds : TlsOp → List ℤ
  | .serverSocket _ fd bound listening =>
      if fd < 0 ∨ (¬ bound < 0 ∧ ¬ listening < 0) then [] else [fd]
  | .accept _ _ client mode _ result =>
      if client < 0 ∨ mode.shakesHands result then [] else [client]
  | .clientSocket .. | .connect .. | .moveConstruct .. | .moveAssign .. | .close _ | .destroy _
  | .destroySocket _ => []

/-- A client socket has got a connection, to which it has given its own descriptor. -/
def shared : TlsOp → ℕ
  | .connect _ _ parsed connected mode _ result =>
      if parsed ≤ 0 ∨ connected < 0 ∨ ¬ mode.shakesHands result then 0 else 1
  | .serverSocket .. | .clientSocket .. | .accept .. | .moveConstruct .. | .moveAssign .. | .close _
  | .destroy _ | .destroySocket _ => 0

end TlsOp
end Dotchat
