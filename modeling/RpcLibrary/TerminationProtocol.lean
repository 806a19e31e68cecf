import RpcLibrary.TerminationLink

/-! The binder, its servers and the clients that terminate them, each with a
connection to the binder, where any of them may take the next step. -/

namespace RpcLibrary

open BinderDatabase

/-- Where the binder stands in its main loop or, with what its exchanges came to
so far, in `handleTerminate`. -/
inductive LoopPhase
  | serving (clients : List SocketPtr)
  | replying (client : SocketPtr) (response : RawMessage) (clients : List SocketPtr)
  | telling (client : SocketPtr) (exchanges : List TerminateExchange)
  | hearing (client : SocketPtr) (exchanges : List TerminateExchange)
  | ended
deriving DecidableEq

def LoopPhase.exchanges : LoopPhase → List TerminateExchange
  | telling _ exchanges => exchanges
  | hearing _ exchanges => exchanges
  | _ => []

structure Network where
  database : BinderDatabase
  loop : LoopPhase
  links : SocketPtr → Link

inductive BinderAction
  | polls (ready : List SocketPtr)
  /-- A connection that failed is found closed or its error is ignored. -/
  | receives (closed : Bool)
  | replies (error : Option TcpError)
  | tells (error : Option TcpError)
  | hears (error : TcpError)
  | reports
deriving DecidableEq

inductive ProtocolEvent
  | peer (s : SocketPtr) (e : PeerEvent)
  | binder (e : BinderAction)
deriving DecidableEq

namespace Network

def new (programs : SocketPtr → Program) : Network :=
  ⟨.new, .serving [], fun s => (programs s).start⟩

def setLink (net : Network) (s : SocketPtr) (l : Link) : Network :=
  { net with links := Function.update net.links s l }

def targets (net : Network) : List SocketPtr :=
  net.database.serverToTimestamp.elems.map fun e => e.1.serverSocket

/-- The socket that `handleTerminate` exchanges messages with. -/
def current? (net : Network) : Option SocketPtr := net.targets[net.loop.exchanges.length]?

def response (net : Network) (exchanges : List TerminateExchange) : Except Halt RawMessage :=
  (net.database.handleTerminate fun i => exchanges.getD i (.received (.threw .recvError))).2

def handle (net : Network) (s : SocketPtr) (raw : RawMessage) (clients : List SocketPtr) :
    Option Network :=
  match raw.getMessageType with
  | .register => do
    let message ← Register.deserialize raw
    let (response, database) ← net.database.handleRegister message s
    some { net with database, loop := .replying s response clients }
  | .locateRequest => do
    let message ← LocateRequest.deserialize raw
    let (response, database) ← net.database.handleLocate message
    some { net with database, loop := .replying s response clients }
  | .terminate => do
    let _message ← (StatusMessage.deserialize raw : Option Terminate)
    some { net with loop := .telling s [] }
  | _ => some { net with loop := .serving clients }

def receive (net : Network) (s : SocketPtr) (clients : List SocketPtr) (closed : Bool) :
    Option (Option RawMessage × Network) :=
  let l := net.links s
  match l.toBinder with
  | raw :: rest => do
    let net' ← handle net s raw clients
    some (some raw, net'.setLink s { l with toBinder := rest })
  | [] =>
    if l.failed then
      let database := if closed then net.database.removeIfServer s else net.database
      some (none, { net with database, loop := .serving clients })
    else none

def reply (net : Network) (s : SocketPtr) (response : RawMessage) (clients : List SocketPtr) :
    Option TcpError → Option Network
  | none =>
    let l := net.links s
    some { net.setLink s { l with toPeer := l.toPeer ++ [response] } with loop := .serving clients }
  | some e =>
    if (net.links s).failed then
      let database := if e = .connectionClosed then net.database.removeIfServer s else net.database
      some { net with database, loop := .serving clients }
    else none

def tell (net : Network) (client : SocketPtr) (exchanges : List TerminateExchange) (s : SocketPtr) :
    Option TcpError → Option Network
  | none =>
    let l := net.links s
    some { net.setLink s { l with toPeer := l.toPeer ++ [terminateRequest] } with
      loop := .hearing client exchanges }
  | some e =>
    if (net.links s).failed then
      some { net with loop := .telling client (exchanges ++ [.sendFails e]) }
    else none

def hear (net : Network) (client : SocketPtr) (exchanges : List TerminateExchange) (s : SocketPtr)
    (error : TcpError) : Option (Option RawMessage × Network) :=
  let l := net.links s
  match l.toBinder with
  | raw :: rest =>
    some (some raw, { net.setLink s { l with toBinder := rest } with
      loop := .telling client (exchanges ++ [.received (.returned raw.buffer)]) })
  | [] =>
    if l.failed then
      some (none, { net with loop := .telling client (exchanges ++ [.received (.threw error)]) })
    else none

def report (net : Network) (client : SocketPtr) (exchanges : List TerminateExchange) :
    Option (Option RawMessage × Network) :=
  let l := net.links client
  match net.response exchanges with
  | .ok response =>
    some (some response, { net.setLink client { l with toPeer := l.toPeer ++ [response] } with
      loop := .ended })
  | .error _ => none

def binderStep (net : Network) (e : BinderAction) : Option (Option RawMessage × Network) :=
  match net.loop, e with
  | .serving [], .polls ready =>
    if ready.Nodup ∧ ∀ s ∈ ready, (net.links s).toBinder ≠ [] ∨ (net.links s).failed = true then
      some (none, { net with loop := .serving ready })
    else none
  | .serving (s :: clients), .receives closed => net.receive s clients closed
  | .replying s response clients, .replies error =>
    (net.reply s response clients error).map fun net' => (none, net')
  | .telling client exchanges, .tells error => do
    let s ← net.targets[exchanges.length]?
    (net.tell client exchanges s error).map fun net' => (none, net')
  | .hearing client exchanges, .hears error => do
    let s ← net.targets[exchanges.length]?
    net.hear client exchanges s error
  | .telling client exchanges, .reports =>
    if exchanges.length = net.targets.length then net.report client exchanges else none
  | _, _ => none

def step (net : Network) : ProtocolEvent → Option (Option RawMessage × Network)
  | .peer s e => ((net.links s).step e).map fun r => (r.1, net.setLink s r.2)
  | .binder e => net.binderStep e

theorem handle_cases {net net' : Network} {s : SocketPtr} {raw : RawMessage}
    {clients : List SocketPtr} (hs : net.handle s raw clients = some net') :
    net'.links = net.links ∧ ((∃ response, net'.loop = .replying s response clients) ∨
      (raw.getMessageType ≠ .register ∧
        (net'.loop = .telling s [] ∨ net'.loop = .serving clients))) := by
  unfold handle at hs
  split at hs
  · obtain ⟨message, -, hs⟩ := Option.bind_eq_some_iff.mp hs
    obtain ⟨r, -, hs⟩ := Option.bind_eq_some_iff.mp hs
    obtain rfl := Option.some.inj hs
    exact ⟨rfl, .inl ⟨_, rfl⟩⟩
  · obtain ⟨message, -, hs⟩ := Option.bind_eq_some_iff.mp hs
    obtain ⟨r, -, hs⟩ := Option.bind_eq_some_iff.mp hs
    obtain rfl := Option.some.inj hs
    exact ⟨rfl, .inl ⟨_, rfl⟩⟩
  · rename_i ht
    obtain ⟨message, -, hs⟩ := Option.bind_eq_some_iff.mp hs
    obtain rfl := Option.some.inj hs
    exact ⟨rfl, .inr ⟨by simp [ht], .inl rfl⟩⟩
  · rename_i hr _ _
    obtain rfl := Option.some.inj hs
    exact ⟨rfl, .inr ⟨hr, .inr rfl⟩⟩

inductive ProtocolCase (net : Network) : ProtocolEvent → Option RawMessage → Network → Prop
  | peer {s e o l} (hs : (net.links s).step e = some (o, l)) :
      ProtocolCase net (.peer s e) o (net.setLink s l)
  | polls {ready} (hloop : net.loop = .serving []) :
      ProtocolCase net (.binder (.polls ready)) none { net with loop := .serving ready }
  | receives {s clients closed raw rest net'} (hloop : net.loop = .serving (s :: clients))
      (hraw : (net.links s).toBinder = raw :: rest) (hs : net.handle s raw clients = some net') :
      ProtocolCase net (.binder (.receives closed)) (some raw)
        (net'.setLink s { net.links s with toBinder := rest })
  | receiveFails {s clients closed database} (hloop : net.loop = .serving (s :: clients))
      (hempty : (net.links s).toBinder = []) (hf : (net.links s).failed = true)
      (hd : database = net.database ∨ database = net.database.removeIfServer s) :
      ProtocolCase net (.binder (.receives closed)) none
        { net with database, loop := .serving clients }
  | replies {s response clients} (hloop : net.loop = .replying s response clients) :
      ProtocolCase net (.binder (.replies none)) none
        { net.setLink s { net.links s with toPeer := (net.links s).toPeer ++ [response] } with
          loop := .serving clients }
  | replyFails {s response clients error database}
      (hloop : net.loop = .replying s response clients) (hf : (net.links s).failed = true)
      (hd : database = net.database ∨ database = net.database.removeIfServer s) :
      ProtocolCase net (.binder (.replies (some error))) none
        { net with database, loop := .serving clients }
  | tells {client exchanges s} (hloop : net.loop = .telling client exchanges)
      (hcur : net.targets[exchanges.length]? = some s) :
      ProtocolCase net (.binder (.tells none)) none
        { net.setLink s
            { net.links s with toPeer := (net.links s).toPeer ++ [terminateRequest] } with
          loop := .hearing client exchanges }
  | tellFails {client exchanges s error} (hloop : net.loop = .telling client exchanges)
      (hcur : net.targets[exchanges.length]? = some s) (hf : (net.links s).failed = true) :
      ProtocolCase net (.binder (.tells (some error))) none
        { net with loop := .telling client (exchanges ++ [.sendFails error]) }
  | hears {client exchanges s error raw rest} (hloop : net.loop = .hearing client exchanges)
      (hcur : net.targets[exchanges.length]? = some s)
      (hraw : (net.links s).toBinder = raw :: rest) :
      ProtocolCase net (.binder (.hears error)) (some raw)
        { net.setLink s { net.links s with toBinder := rest } with
          loop := .telling client (exchanges ++ [.received (.returned raw.buffer)]) }
  | hearFails {client exchanges s error} (hloop : net.loop = .hearing client exchanges)
      (hcur : net.targets[exchanges.length]? = some s) (hempty : (net.links s).toBinder = [])
      (hf : (net.links s).failed = true) :
      ProtocolCase net (.binder (.hears error)) none
        { net with loop := .telling client (exchanges ++ [.received (.threw error)]) }
  | reports {client exchanges response} (hloop : net.loop = .telling client exchanges)
      (hlength : exchanges.length = net.targets.length)
      (hresponse : net.response exchanges = .ok response) :
      ProtocolCase net (.binder .reports) (some response)
        { net.setLink client { net.links client with
            toPeer := (net.links client).toPeer ++ [response] } with loop := .ended }

theorem receive_cases {net net' : Network} {s : SocketPtr} {clients : List SocketPtr}
    {closed : Bool} {o : Option RawMessage} (hloop : net.loop = .serving (s :: clients))
    (hs : net.receive s clients closed = some (o, net')) :
    ProtocolCase net (.binder (.receives closed)) o net' := by
  simp only [Network.receive] at hs
  split at hs
  next raw rest hraw =>
    obtain ⟨net'', hh, hs⟩ := Option.bind_eq_some_iff.mp hs
    obtain ⟨rfl, rfl⟩ := Prod.mk.inj (Option.some.inj hs)
    exact .receives hloop hraw hh
  next hempty =>
    obtain ⟨hf, he⟩ := Option.ite_none_right_eq_some.mp hs
    obtain ⟨rfl, rfl⟩ := Prod.mk.inj (Option.some.inj he)
    exact .receiveFails hloop hempty hf (ite_eq_or_eq _ _ _).symm

theorem reply_cases {net net' : Network} {s : SocketPtr} {response : RawMessage}
    {clients : List SocketPtr} {error : Option TcpError}
    (hloop : net.loop = .replying s response clients)
    (hs : net.reply s response clients error = some net') :
    ProtocolCase net (.binder (.replies error)) none net' := by
  cases error with
  | none =>
    obtain rfl := Option.some.inj hs
    exact .replies hloop
  | some e =>
    obtain ⟨hf, he⟩ := Option.ite_none_right_eq_some.mp hs
    obtain rfl := Option.some.inj he
    exact .replyFails hloop hf (ite_eq_or_eq _ _ _).symm

theorem tell_cases {net net' : Network} {client s : SocketPtr} {exchanges : List TerminateExchange}
    {error : Option TcpError} (hloop : net.loop = .telling client exchanges)
    (hcur : net.targets[exchanges.length]? = some s)
    (hs : net.tell client exchanges s error = some net') :
    ProtocolCase net (.binder (.tells error)) none net' := by
  cases error with
  | none =>
    obtain rfl := Option.some.inj hs
    exact .tells hloop hcur
  | some e =>
    obtain ⟨hf, he⟩ := Option.ite_none_right_eq_some.mp hs
    obtain rfl := Option.some.inj he
    exact .tellFails hloop hcur hf

theorem hear_cases {net net' : Network} {client s : SocketPtr} {exchanges : List TerminateExchange}
    {error : TcpError} {o : Option RawMessage} (hloop : net.loop = .hearing client exchanges)
    (hcur : net.targets[exchanges.length]? = some s)
    (hs : net.hear client exchanges s error = some (o, net')) :
    ProtocolCase net (.binder (.hears error)) o net' := by
  simp only [Network.hear] at hs
  split at hs
  next raw rest hraw =>
    obtain ⟨rfl, rfl⟩ := Prod.mk.inj (Option.some.inj hs)
    exact .hears hloop hcur hraw
  next hempty =>
    obtain ⟨hf, he⟩ := Option.ite_none_right_eq_some.mp hs
    obtain ⟨rfl, rfl⟩ := Prod.mk.inj (Option.some.inj he)
    exact .hearFails hloop hcur hempty hf

theorem report_cases {net net' : Network} {client : SocketPtr} {exchanges : List TerminateExchange}
    {o : Option RawMessage} (hloop : net.loop = .telling client exchanges)
    (hlength : exchanges.length = net.targets.length)
    (hs : net.report client exchanges = some (o, net')) :
    ProtocolCase net (.binder .reports) o net' := by
  simp only [Network.report] at hs
  split at hs
  next response hresponse =>
    obtain ⟨rfl, rfl⟩ := Prod.mk.inj (Option.some.inj hs)
    exact .reports hloop hlength hresponse
  next => cases hs

theorem step_cases {net net' : Network} {e : ProtocolEvent} {o : Option RawMessage}
    (hs : net.step e = some (o, net')) : ProtocolCase net e o net' := by
  cases e with
  | peer s e =>
    obtain ⟨r, hr, he⟩ := Option.map_eq_some_iff.mp hs
    obtain ⟨rfl, rfl⟩ := Prod.mk.inj he
    exact .peer hr
  | binder e =>
    simp only [Network.step, binderStep] at hs
    split at hs
    next ready hloop =>
      obtain ⟨-, he⟩ := Option.ite_none_right_eq_some.mp hs
      obtain ⟨rfl, rfl⟩ := Prod.mk.inj (Option.some.inj he)
      exact .polls hloop
    next s clients closed hloop => exact receive_cases hloop hs
    next s response clients error hloop =>
      obtain ⟨net'', hr, he⟩ := Option.map_eq_some_iff.mp hs
      obtain ⟨rfl, rfl⟩ := Prod.mk.inj he
      exact reply_cases hloop hr
    next client exchanges error hloop =>
      obtain ⟨s, hcur, hs⟩ := Option.bind_eq_some_iff.mp hs
      obtain ⟨net'', ht, he⟩ := Option.map_eq_some_iff.mp hs
      obtain ⟨rfl, rfl⟩ := Prod.mk.inj he
      exact tell_cases hloop hcur ht
    next client exchanges error hloop =>
      obtain ⟨s, hcur, hs⟩ := Option.bind_eq_some_iff.mp hs
      exact hear_cases hloop hcur hs
    next client exchanges hloop =>
      obtain ⟨hlength, hs⟩ := Option.ite_none_right_eq_some.mp hs
      exact report_cases hloop hlength hs
    next => cases hs

theorem register_replied {net net' : Network} {closed : Bool} {raw : RawMessage}
    (hs : net.step (.binder (.receives closed)) = some (some raw, net'))
    (hraw : raw.getMessageType = .register) :
    ∃ s clients response, net.loop = .serving (s :: clients) ∧
      net'.loop = .replying s response clients := by
  cases step_cases hs with
  | @receives s clients _ _ _ _ hloop _ hh =>
    obtain ⟨response, hr⟩ := (handle_cases hh).2.resolve_right fun hn => hn.1 hraw
    exact ⟨s, clients, response, hloop, hr⟩

def SamePeer (l l' : Link) : Prop := l'.peer = l.peer ∧ l'.failed = l.failed

theorem SamePeer.of_update {net net' : Network} {s : SocketPtr} {l : Link}
    (hlinks : net'.links = Function.update net.links s l) (hl : SamePeer (net.links s) l)
    (t : SocketPtr) : SamePeer (net.links t) (net'.links t) := by
  rw [hlinks]
  by_cases hts : t = s
  · subst hts
    rwa [Function.update_self]
  · rw [Function.update_of_ne hts]
    exact ⟨rfl, rfl⟩

/-- A step changes the state of a peer only when it is a step of that peer. -/
theorem ProtocolCase.peer_or_same {net net' : Network} {e : ProtocolEvent} {o : Option RawMessage}
    (hs : ProtocolCase net e o net') (t : SocketPtr) :
    (∃ e', e = .peer t e' ∧ (net.links t).step e' = some (o, net'.links t)) ∨
      SamePeer (net.links t) (net'.links t) := by
  have hsame : SamePeer (net.links t) (net.links t) := ⟨rfl, rfl⟩
  cases hs with
  | @peer s e o l hs =>
    by_cases hts : t = s
    · subst hts
      exact .inl ⟨e, rfl, by simpa only [setLink, Function.update_self] using hs⟩
    · right
      simpa only [setLink, Function.update_of_ne hts] using hsame
  | receives _ _ hs =>
    refine .inr (.of_update (by rw [setLink, (handle_cases hs).1]) ?_ t)
    exact ⟨rfl, rfl⟩
  | replies =>
    refine .inr (.of_update rfl ?_ t)
    exact ⟨rfl, rfl⟩
  | tells =>
    refine .inr (.of_update rfl ?_ t)
    exact ⟨rfl, rfl⟩
  | hears =>
    refine .inr (.of_update rfl ?_ t)
    exact ⟨rfl, rfl⟩
  | reports =>
    refine .inr (.of_update rfl ?_ t)
    exact ⟨rfl, rfl⟩
  | _ => exact .inr hsame

/-- The binder waits for an answer only where it has sent the question. -/
theorem ProtocolCase.of_hearing {net net' : Network} {e : ProtocolEvent} {o : Option RawMessage}
    {client : SocketPtr} {exchanges : List TerminateExchange} (hs : ProtocolCase net e o net')
    (hloop : net'.loop = .hearing client exchanges) :
    (net.loop = .hearing client exchanges ∧ net'.current? = net.current?) ∨
      ∃ s, net'.current? = some s := by
  cases hs with
  | peer => exact .inl ⟨hloop, rfl⟩
  | @receives s clients closed raw rest net'' _ _ hs =>
    have hloop' : net''.loop = .hearing client exchanges := hloop
    obtain ⟨-, ⟨response, hr⟩ | ⟨-, hr | hr⟩⟩ := handle_cases hs <;> cases hr.symm.trans hloop'
  | tells _ hcur => exact .inr ⟨_, hcur⟩
  | _ => cases hloop

end Network

end RpcLibrary
