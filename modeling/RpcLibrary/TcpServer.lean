import Mathlib.Data.Finset.Basic
import RpcLibrary.BinderDatabase

/-! A server's bookkeeping of its connections in a process that opens and closes
other descriptors as well. -/

namespace RpcLibrary

abbrev Fd := Nat

/-- What an `fd_set` has room for; to put a larger descriptor into one is undefined. -/
def FD_SETSIZE : Nat := 1024

structure TcpSocket where
  address : SocketPtr
  socket : Fd
deriving DecidableEq

def TcpSocket.fd (s : TcpSocket) : Fd := s.socket

abbrev Connections := OrderedMap Fd TcpSocket id

structure TcpServer where
  listener : Fd
  connections : Connections
  fdMaster : Finset Fd
  fdMax : Fd

inductive TcpServerError
  | selectError
  | outOfRange
deriving DecidableEq

/-- The process around a server: the descriptors it has open, and those among
them that are not the server's to close. -/
structure Process where
  server : TcpServer
  openFds : Finset Fd
  foreign : Finset Fd

/-- `select` leaves the ready ones of the descriptors below `nfds`, or fails. -/
def select (ready : Option (Finset Fd)) (nfds : Nat) (fds : Finset Fd) : Option (Finset Fd) :=
  ready.map fun ready => fds.filter fun fd => fd < nfds ∧ fd ∈ ready

namespace Process

def new (listener : Fd) (foreign : Finset Fd) : Process where
  server := ⟨listener, ∅, {listener}, listener⟩
  openFds := insert listener foreign
  foreign := foreign.erase listener

def close (p : Process) (fd : Fd) : Process := { p with openFds := p.openFds.erase fd }

/-- `connections.emplace` on a new object, which is destroyed at once where the
key is occupied. -/
def emplace (p : Process) (newfd : Fd) (client : TcpSocket) : Process :=
  if p.server.connections.contains newfd then p.close client.socket
  else { p with server.connections := p.server.connections.insert (newfd, client) }

/-- `accept` takes a new descriptor and an address for its object, or fails. -/
def acceptIfAny (p : Process) (ready : Option (Finset Fd)) (accept : Option (Fd × SocketPtr)) :
    Except TcpServerError Process :=
  match select ready (p.server.fdMax + 1) p.server.fdMaster with
  | none => .error .selectError
  | some readFds =>
    if p.server.listener ∈ readFds then
      match accept with
      | none => .ok p
      | some (newfd, address) =>
        let p := { p with openFds := insert newfd p.openFds }
        let p := { p with server.fdMaster := insert newfd p.server.fdMaster }
        let p := { p with server.fdMax := max p.server.fdMax newfd }
        .ok (p.emplace newfd ⟨address, newfd⟩)
    else .ok p

end Process

def TcpServer.collect (server : TcpServer) (readFds : Finset Fd) :
    List Fd → Except TcpServerError (List TcpSocket)
  | [] => .ok []
  | fd :: fds =>
    if fd = server.listener then server.collect readFds fds
    else if fd ∈ readFds then
      match server.connections.get? fd with
      | none => .error .outOfRange
      | some client => (server.collect readFds fds).map (client :: ·)
    else server.collect readFds fds

def TcpServer.connectionsWithData (server : TcpServer) (ready : Option (Finset Fd)) :
    Except TcpServerError (List TcpSocket) :=
  match select ready (server.fdMax + 1) server.fdMaster with
  | none => .error .selectError
  | some readFds => server.collect readFds (List.range (server.fdMax + 1))

namespace Process

/-- The descriptor is closed by name, and once more by the object that goes. -/
def connectionClosed (p : Process) (client : TcpSocket) : Process :=
  let fd := client.fd
  let p := p.close fd
  let p := match p.server.connections.get? fd with
    | none => p
    | some client => p.close client.socket
  { p with
    server.connections := p.server.connections.remove fd
    server.fdMaster := p.server.fdMaster.erase fd }

def releaseConnection (p : Process) (client : TcpSocket) : Option TcpSocket × Process :=
  let fd := client.fd
  (p.server.connections.get? fd,
    { p with
      server.fdMaster := p.server.fdMaster.erase fd
      server.connections := p.server.connections.remove fd
      foreign := insert fd p.foreign })

end Process

inductive ServerRequest
  | acceptIfAny (ready : Option (Finset Fd)) (accept : Option (Fd × SocketPtr))
  | connectionsWithData (ready : Option (Finset Fd))
  | connectionClosed (client : TcpSocket)
  | releaseConnection (client : TcpSocket)
  | openElsewhere (fd : Fd)
  | closeElsewhere (fd : Fd)
deriving DecidableEq

inductive ServerAnswer
  | done
  | threw (error : TcpServerError)
  | clients (clients : List TcpSocket)
  | released (client : Option TcpSocket)
deriving DecidableEq

abbrev ServerEvent := ServerRequest × ServerAnswer

def TcpServer.Manages (server : TcpServer) (client : TcpSocket) : Prop :=
  ∃ e ∈ server.connections.elems, e.2 = client

instance (server : TcpServer) (client : TcpSocket) : Decidable (server.Manages client) :=
  inferInstanceAs (Decidable (∃ e ∈ server.connections.elems, e.2 = client))

namespace Process

/-- The system hands out no descriptor that is open, and one that the set of
descriptors cannot hold has no outcome. Connections are closed and released while
they are managed. -/
def step (p : Process) : ServerRequest → Option (ServerAnswer × Process)
  | .acceptIfAny ready accept =>
    if ∀ r ∈ accept, r.1 ∉ p.openFds ∧ r.1 < FD_SETSIZE then
      match p.acceptIfAny ready accept with
      | .ok p' => some (.done, p')
      | .error e => some (.threw e, p)
    else none
  | .connectionsWithData ready =>
    match p.server.connectionsWithData ready with
    | .ok clients => some (.clients clients, p)
    | .error e => some (.threw e, p)
  | .connectionClosed client =>
    if p.server.Manages client then some (.done, p.connectionClosed client) else none
  | .releaseConnection client =>
    if p.server.Manages client then
      let r := p.releaseConnection client
      some (.released r.1, r.2)
    else none
  | .openElsewhere fd =>
    if fd ∈ p.openFds then none
    else some (.done, { p with openFds := insert fd p.openFds, foreign := insert fd p.foreign })
  | .closeElsewhere fd =>
    if fd ∈ p.foreign then some (.done, { p.close fd with foreign := p.foreign.erase fd })
    else none

end Process

end RpcLibrary
