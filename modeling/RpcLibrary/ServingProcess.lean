import Mathlib.Data.List.ReduceOption
import RpcLibrary.ConnectionBookkeeping
import RpcLibrary.ServeTermination

/-! A serving server with its connections: the listener accepts and polls them and
hands each to a thread of its own, which deletes it before it counts itself out. -/

namespace RpcLibrary

open Runs

structure ServingProcess where
  serve : Serve
  process : Process
  /-- The connections of the listener's poll that it has still to release. -/
  polled : List TcpSocket
  /-- The connection released for the thread that comes next. -/
  released : Option TcpSocket
  /-- The connection each client thread has, in order of creation, until it deletes it. -/
  threads : List (Option TcpSocket)
  /-- The connections released for threads that could not be created. -/
  leaked : List TcpSocket

inductive ServingEvent
  /-- A step of some thread that leaves the connections alone. -/
  | proceeds (e : ServeEvent)
  | selects (ready : Option (Finset Fd))
  | accepts (accept : Option (Fd × SocketPtr))
  | polls (ready : Option (Finset Fd))
  | releases
  | creates (created : Bool)
  | deletes (i : Nat)
  | countsOut (i : Nat)
  | opensElsewhere (fd : Fd)
  | closesElsewhere (fd : Fd)
deriving DecidableEq

/-- What the threads do in a step, and the connections that come and go with it. -/
structure ServingOutput where
  threads : List (ServeEvent × Option RawMessage) := []
  accepted : List TcpSocket := []
  deleted : List TcpSocket := []
deriving DecidableEq

def ServeEvent.touchesConnections : ServeEvent → Bool
  | listenerSelects _ => true
  | listenerAccepts _ => true
  | listenerPolls _ => true
  | listenerCounts => true
  | listenerCreates _ => true
  | threadCountsOut _ => true
  | _ => false

def TcpServer.listenerReady (server : TcpServer) (ready : Option (Finset Fd)) : Bool :=
  match select ready (server.fdMax + 1) server.fdMaster with
  | none => false
  | some readFds => server.listener ∈ readFds

def TcpServer.clients (server : TcpServer) : List TcpSocket := server.connections.elems.map Prod.snd

namespace ServingProcess

def new (listener : Fd) (foreign : Finset Fd) : ServingProcess :=
  ⟨.new, .new listener foreign, [], none, [], []⟩

def held (s : ServingProcess) : List TcpSocket := s.released.toList ++ s.threads.reduceOption

/-- The open connections that the server has forgotten. -/
def unmanaged (s : ServingProcess) : List TcpSocket := s.held ++ s.leaked

/-- The threads take the step `e`, and the connections are those of `s'` after it. -/
def along (s : ServingProcess) (e : ServeEvent) (s' : ServingProcess) (accepted : List TcpSocket) :
    Option (ServingOutput × ServingProcess) :=
  (s.serve.step e).map fun r => ({ threads := [(e, r.1)], accepted }, { s' with serve := r.2 })

/-- The error of a poll is caught nowhere and ends the process, and nothing has
the connection of a thread that could not be created. Code elsewhere closes
descriptors of its own. -/
def step (s : ServingProcess) : ServingEvent → Option (ServingOutput × ServingProcess)
  | .proceeds e => if e.touchesConnections then none else s.along e s []
  | .selects ready => s.along (.listenerSelects (s.process.server.listenerReady ready)) s []
  | .accepts accept =>
    match s.process.step (.acceptIfAny (some {s.process.server.listener}) accept) with
    | none => none
    | some (_, process) =>
      s.along (.listenerAccepts accept.isSome) { s with process }
        (accept.map fun r => ⟨r.2, r.1⟩).toList
  | .polls ready =>
    match s.process.server.connectionsWithData ready with
    | .error _ => none
    | .ok polled => s.along (.listenerPolls polled.length) { s with polled } []
  | .releases =>
    match s.polled with
    | [] => none
    | client :: polled =>
      let (released, process) := s.process.releaseConnection client
      s.along .listenerCounts { s with process, polled, released } []
  | .creates true =>
    s.along (.listenerCreates true)
      { s with released := none, threads := s.threads ++ [s.released] } []
  | .creates false =>
    s.along (.listenerCreates false)
      { s with released := none, leaked := s.leaked ++ s.released.toList } []
  | .deletes i =>
    match s.serve.clients[i]?, s.threads[i]? with
    | some .running, some (some client) =>
      some ({ deleted := [client] },
        { s with
          process := { s.process.close client.fd with
            foreign := s.process.foreign.erase client.fd }
          threads := s.threads.set i none })
    | _, _ => none
  | .countsOut i => if s.threads[i]? = some none then s.along (.threadCountsOut i) s [] else none
  | .opensElsewhere fd =>
    (s.process.step (.openElsewhere fd)).map fun r => ({}, { s with process := r.2 })
  | .closesElsewhere fd =>
    if ∀ client ∈ s.unmanaged, client.fd ≠ fd then
      (s.process.step (.closeElsewhere fd)).map fun r => ({}, { s with process := r.2 })
    else none

end ServingProcess

/-- How many connections of the poll the listener has still to release. -/
def ClientListenerPhase.left : ClientListenerPhase → Nat
  | counting left => left + 1
  | creating left => left
  | _ => 0

def ClientListenerPhase.creates : ClientListenerPhase → Bool
  | creating _ => true
  | _ => false

@[simp] theorem ClientListenerPhase.left_next (n : Nat) : (next n).left = n := by cases n <;> rfl

@[simp] theorem ClientListenerPhase.creates_next (n : Nat) : (next n).creates = false := by
  cases n <;> rfl

theorem ClientListenerPhase.cancellable_cases {l : ClientListenerPhase}
    (h : l.cancellable = true) : l.left = 0 ∧ l.creates = false := by
  cases l <;> first | exact ⟨rfl, rfl⟩ | cases h

/-- The threads as they stand agree with the connections that are there. -/
structure ServingProcess.InStep (s : ServingProcess) : Prop where
  started : s.serve.Started
  managed : s.serve.managed = s.process.server.clients.length
  polled : s.polled.length = s.serve.listenToClients.left
  released : s.released.isSome = s.serve.listenToClients.creates
  threads : s.threads.length = s.serve.clients.length
  leaked : s.leaked.length = s.serve.lost
  serving : ∀ (i : Nat) client, s.threads[i]? = some (some client) →
    s.serve.clients[i]? = some ClientThreadPhase.running

/-- Every open connection belongs to the server or to one thread or is leaked, and
its descriptor belongs to nothing else. -/
structure ServingProcess.Custody (s : ServingProcess) : Prop where
  kept : s.process.Kept
  polled : ∀ client ∈ s.polled, s.process.server.Manages client
  nodup : s.polled.Nodup
  foreign : ∀ client ∈ s.unmanaged, client.fd ∈ s.process.foreign
  distinct : (s.unmanaged.map TcpSocket.fd).Nodup

theorem Process.clients_accepted {p : Process} {client : TcpSocket} (h : p.Kept)
    (hfresh : client.fd ∉ p.openFds) :
    (p.accepted client).server.clients.Perm (client :: p.server.clients) :=
  (OrderedSet.insert_perm (x := (client.fd, client)) (h.not_contains hfresh)).map Prod.snd

theorem Process.clients_forgotten {p : Process} {client : TcpSocket} (h : p.Kept)
    (hm : p.server.Manages client) :
    p.server.clients.Perm (client :: (p.forgotten client).clients) :=
  (OrderedSet.perm_erase (h.manages_iff.mp hm)).map Prod.snd

/-- What a step that leaves the connections alone keeps of the threads. -/
theorem Serve.StepCase.connections_kept {s s' : Serve} {e : ServeEvent} (hs : StepCase s e s')
    (hstarted : s.Started) (he : e.touchesConnections = false) :
    s'.managed = s.managed ∧ s'.listenToClients.left = s.listenToClients.left ∧
      s'.listenToClients.creates = s.listenToClients.creates ∧
      s'.clients.length = s.clients.length ∧ s'.lost = s.lost ∧
      ∀ i : Nat, s.clients[i]? = some .running → s'.clients[i]? = some .running := by
  cases hs with
  | mainCreatesClientListener hm =>
    rw [hstarted.clients (.inr (.inr hm))]
    exact ⟨rfl, rfl, rfl, rfl, rfl, fun _ h => h⟩
  | listenerCancelled hl _ =>
    obtain ⟨hleft, hcreates⟩ := ClientListenerPhase.cancellable_cases hl
    exact ⟨rfl, hleft.symm, hcreates.symm, rfl, rfl, fun _ h => h⟩
  | @threadExits i ht =>
    refine ⟨rfl, rfl, rfl, List.length_set .., rfl, fun j hj => ?_⟩
    have hne : i ≠ j := by
      rintro rfl
      cases ht.symm.trans hj
    rw [List.getElem?_set_ne hne, hj]
  | listenerSelects => cases he
  | listenerAccepts => cases he
  | listenerPolls => cases he
  | listenerCounts => cases he
  | listenerCreates => cases he
  | listenerLoses => cases he
  | threadCountsOut => cases he
  | _ => exact ⟨rfl, rfl, rfl, rfl, rfl, fun _ h => h⟩

namespace ServingProcess

inductive StepCase (s : ServingProcess) : ServingOutput → ServingProcess → Prop
  | proceeds {e o serve} (he : e.touchesConnections = false)
      (hs : s.serve.step e = some (o, serve)) :
      StepCase s { threads := [(e, o)] } { s with serve }
  | selects {ready o serve} (hs : s.serve.step (.listenerSelects ready) = some (o, serve)) :
      StepCase s { threads := [(.listenerSelects ready, o)] } { s with serve }
  | acceptsNobody {o serve} (hs : s.serve.step (.listenerAccepts false) = some (o, serve)) :
      StepCase s { threads := [(.listenerAccepts false, o)] } { s with serve }
  | accepts {client o serve} (hfresh : client.fd ∉ s.process.openFds)
      (hs : s.serve.step (.listenerAccepts true) = some (o, serve)) :
      StepCase s { threads := [(.listenerAccepts true, o)], accepted := [client] }
        { s with serve, process := s.process.accepted client }
  | polls {ready polled o serve}
      (h : s.process.server.connectionsWithData (some ready) = .ok polled)
      (hs : s.serve.step (.listenerPolls polled.length) = some (o, serve)) :
      StepCase s { threads := [(.listenerPolls polled.length, o)] } { s with serve, polled }
  | releases {client polled o serve} (h : s.polled = client :: polled)
      (hs : s.serve.step .listenerCounts = some (o, serve)) :
      StepCase s { threads := [(.listenerCounts, o)] }
        { s with
          serve
          process := { s.process with
            server := s.process.forgotten client
            foreign := insert client.fd s.process.foreign }
          polled
          released := some client }
  | creates {o serve} (hs : s.serve.step (.listenerCreates true) = some (o, serve)) :
      StepCase s { threads := [(.listenerCreates true, o)] }
        { s with serve, released := none, threads := s.threads ++ [s.released] }
  | loses {o serve} (hs : s.serve.step (.listenerCreates false) = some (o, serve)) :
      StepCase s { threads := [(.listenerCreates false, o)] }
        { s with serve, released := none, leaked := s.leaked ++ s.released.toList }
  | deletes {i client} (ht : s.threads[i]? = some (some client)) :
      StepCase s { deleted := [client] }
        { s with
          process := { s.process.close client.fd with
            foreign := s.process.foreign.erase client.fd }
          threads := s.threads.set i none }
  | countsOut {i o serve} (ht : s.threads[i]? = some none)
      (hs : s.serve.step (.threadCountsOut i) = some (o, serve)) :
      StepCase s { threads := [(.threadCountsOut i, o)] } { s with serve }
  | opensElsewhere {fd} (h : fd ∉ s.process.openFds) :
      StepCase s {}
        { s with
          process := { s.process with
            openFds := insert fd s.process.openFds
            foreign := insert fd s.process.foreign } }
  | closesElsewhere {fd} (h : fd ∈ s.process.foreign)
      (hheld : ∀ client ∈ s.unmanaged, client.fd ≠ fd) :
      StepCase s {}
        { s with
          process := { s.process.close fd with foreign := s.process.foreign.erase fd } }

theorem along_cases {s s' t : ServingProcess} {e : ServeEvent} {accepted : List TcpSocket}
    {output : ServingOutput} (h : s.along e s' accepted = some (output, t)) :
    ∃ o serve, s.serve.step e = some (o, serve) ∧ output = { threads := [(e, o)], accepted } ∧
      t = { s' with serve } := by
  obtain ⟨⟨o, serve⟩, hs, he⟩ := Option.map_eq_some_iff.mp h
  obtain ⟨rfl, rfl⟩ := Prod.mk.inj he
  exact ⟨o, serve, hs, rfl, rfl⟩

theorem Custody.step_cases {s t : ServingProcess} {e : ServingEvent} {output : ServingOutput}
    (h : s.Custody) (hs : s.step e = some (output, t)) : StepCase s output t := by
  cases e with
  | proceeds e =>
    rw [step] at hs
    split_ifs at hs with he
    obtain ⟨o, serve, hserve, rfl, rfl⟩ := along_cases hs
    exact .proceeds (Bool.eq_false_iff.mpr he) hserve
  | selects ready =>
    obtain ⟨o, serve, hserve, rfl, rfl⟩ := along_cases hs
    exact .selects hserve
  | accepts accept =>
    rw [step] at hs
    split at hs
    · cases hs
    · rename_i answer process haccept
      obtain ⟨o, serve, hserve, rfl, rfl⟩ := along_cases hs
      have hlistener := Finset.mem_singleton_self s.process.server.listener
      cases h.kept.step_cases haccept with
      | acceptsNobody hnone =>
        obtain rfl := hnone hlistener
        exact .acceptsNobody hserve
      | accepts hl hfresh => exact .accepts hfresh hserve
  | polls ready =>
    rw [step] at hs
    split at hs
    · cases hs
    · rename_i polled hpoll
      obtain ⟨o, serve, hserve, rfl, rfl⟩ := along_cases hs
      cases ready with
      | none => cases hpoll
      | some ready => exact .polls hpoll hserve
  | releases =>
    rw [step] at hs
    split at hs
    · cases hs
    · rename_i client polled hpolled
      have hm : s.process.server.Manages client := h.polled client (by simp [hpolled])
      obtain ⟨o, serve, hserve, rfl, rfl⟩ := along_cases hs
      have hget := h.kept.get?_of_manages hm
      simp only [hget]
      exact .releases hpolled hserve
  | creates created =>
    cases created with
    | true =>
      obtain ⟨o, serve, hserve, rfl, rfl⟩ := along_cases hs
      exact .creates hserve
    | false =>
      obtain ⟨o, serve, hserve, rfl, rfl⟩ := along_cases hs
      exact .loses hserve
  | deletes i =>
    rw [step] at hs
    split at hs
    · obtain ⟨rfl, rfl⟩ := Prod.mk.inj (Option.some.inj hs)
      exact .deletes ‹_›
    · cases hs
  | countsOut i =>
    rw [step] at hs
    split_ifs at hs with ht
    obtain ⟨o, serve, hserve, rfl, rfl⟩ := along_cases hs
    exact .countsOut ht hserve
  | opensElsewhere fd =>
    obtain ⟨⟨answer, process⟩, hopen, he⟩ := Option.map_eq_some_iff.mp hs
    obtain ⟨rfl, rfl⟩ := Prod.mk.inj he
    cases h.kept.step_cases hopen with
    | opensElsewhere hfd => exact .opensElsewhere hfd
  | closesElsewhere fd =>
    rw [step] at hs
    split_ifs at hs with hheld
    obtain ⟨⟨answer, process⟩, hclose, he⟩ := Option.map_eq_some_iff.mp hs
    obtain ⟨rfl, rfl⟩ := Prod.mk.inj he
    cases h.kept.step_cases hclose with
    | closesElsewhere hfd => exact .closesElsewhere hfd hheld

end ServingProcess

end RpcLibrary
