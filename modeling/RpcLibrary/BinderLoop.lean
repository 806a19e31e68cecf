import RpcLibrary.HandleTerminate
import RpcLibrary.ConnectionBookkeeping

/-! The main loop of the binder. Its database keeps pointers to sockets that the
server it runs on destroys. -/

namespace RpcLibrary

open Runs BinderDatabase

/-- Where the loop stands, with the clients of this round that it has not served. -/
inductive BinderPhase
  | accepting
  | polling
  | serving (clients : List TcpSocket)
  | handling (client : TcpSocket) (message : RawMessage) (clients : List TcpSocket)
  | replying (client : TcpSocket) (response : RawMessage) (running : Bool)
      (clients : List TcpSocket)
  | ended
deriving DecidableEq

structure Binder where
  process : Process
  database : BinderDatabase
  phase : BinderPhase

/-- What the system calls of one step come to. -/
inductive BinderInput
  | accept (ready : Option (Finset Fd)) (accept : Option (Fd × SocketPtr))
  | poll (ready : Option (Finset Fd))
  | recv (outcome : RecvOutcome)
  | handle (exchange : Nat → TerminateExchange)
  | send (outcome : Except TcpError Unit)
  | roundOver

namespace Binder

def new (listener : Fd) (foreign : Finset Fd) : Binder :=
  ⟨.new listener foreign, .new, .accepting⟩

/-- A new object gets an address at which no other object lives. -/
def acceptIfAny (b : Binder) (ready : Option (Finset Fd)) (accept : Option (Fd × SocketPtr)) :
    Option Binder :=
  if ∀ r ∈ accept, ∀ e ∈ b.process.server.connections.elems, e.2.address ≠ r.2 then
    (b.process.step (.acceptIfAny ready accept)).map fun r =>
      { b with process := r.2, phase := .polling }
  else none

/-- An error of `select` is not caught here and ends the program. -/
def poll (b : Binder) (ready : Option (Finset Fd)) : Binder :=
  match b.process.server.connectionsWithData ready with
  | .ok clients => { b with phase := .serving clients }
  | .error _ => { b with phase := .ended }

def recv (b : Binder) (client : TcpSocket) (clients : List TcpSocket) :
    RecvOutcome → Option (List BinderEvent × Binder)
  | .returned buffer =>
    if buffer.isEmpty then some ([], { b with phase := .serving clients })
    else some ([], { b with phase := .handling client ⟨buffer⟩ clients })
  | .threw .connectionClosed =>
    some ([(.remove client.address, none)],
      { process := b.process.connectionClosed client
        database := b.database.removeIfServer client.address
        phase := .serving clients })
  | .threw _ => some ([], { b with phase := .serving clients })
  | .badArrayLength => some ([], { b with phase := .ended })
  | .undefined => none
  | .blocked => none

def handle (b : Binder) (client : TcpSocket) (raw : RawMessage) (clients : List TcpSocket)
    (exchange : Nat → TerminateExchange) : Option (List BinderEvent × Binder) :=
  match raw.getMessageType with
  | .register => do
    let message ← Register.deserialize raw
    let (response, database) ← b.database.handleRegister message client.address
    some ([(.register message client.address, some response)],
      { b with database, phase := .replying client response true clients })
  | .locateRequest => do
    let message ← LocateRequest.deserialize raw
    let (response, database) ← b.database.handleLocate message
    some ([(.locate message, some response)],
      { b with database, phase := .replying client response true clients })
  | .terminate => do
    let _message ← (StatusMessage.deserialize raw : Option Terminate)
    match (b.database.handleTerminate exchange).2 with
    | .ok response => some ([], { b with phase := .replying client response false clients })
    | .error .badArrayLength => some ([], { b with phase := .ended })
    | .error .undefined => none
    | .error .blocked => none
  | _ => some ([], { b with phase := .serving clients })

/-- The connection stays open when the response finds it closed: only its
registrations go. -/
def send (b : Binder) (client : TcpSocket) (running : Bool) (clients : List TcpSocket)
    (outcome : Except TcpError Unit) : List BinderEvent × Binder :=
  let phase := if running then .serving clients else .ended
  match outcome with
  | .error .connectionClosed =>
    ([(.remove client.address, none)],
      { b with database := b.database.removeIfServer client.address, phase })
  | _ => ([], { b with phase })

def step (b : Binder) (input : BinderInput) : Option (List BinderEvent × Binder) :=
  match b.phase, input with
  | .accepting, .accept ready accept => (b.acceptIfAny ready accept).map fun b' => ([], b')
  | .polling, .poll ready => some ([], b.poll ready)
  | .serving (client :: clients), .recv outcome => b.recv client clients outcome
  | .serving [], .roundOver => some ([], { b with phase := .accepting })
  | .handling client raw clients, .handle exchange => b.handle client raw clients exchange
  | .replying client _ running clients, .send outcome =>
    some (b.send client running clients outcome)
  | _, _ => none

end Binder

def BinderPhase.clients : BinderPhase → List TcpSocket
  | accepting => []
  | polling => []
  | serving clients => clients
  | handling client _ clients => client :: clients
  | replying client _ _ clients => client :: clients
  | ended => []

def HeldSocketsManaged (server : TcpServer) (db : BinderDatabase) : Prop :=
  ∀ x, Holds db x → ∃ client, server.Manages client ∧ client.address = x.serverSocket

namespace Binder

inductive StepCase (b : Binder) : List BinderEvent → Binder → Prop
  | accepts {ready accept answer process}
      (hfresh : ∀ r ∈ accept, ∀ e ∈ b.process.server.connections.elems, e.2.address ≠ r.2)
      (hs : b.process.step (.acceptIfAny ready accept) = some (answer, process)) :
      StepCase b [] { b with process, phase := .polling }
  | polls {ready clients} (h : b.process.server.connectionsWithData (some ready) = .ok clients) :
      StepCase b [] { b with phase := .serving clients }
  | goesOn {phase} (h : List.Sublist phase.clients b.phase.clients) : StepCase b [] { b with phase }
  | calls {request reply database phase} (hs : b.database.step request = some (reply, database))
      (hsocket : ∀ message s, request = .register message s →
        ∃ client ∈ b.phase.clients, client.address = s)
      (h : List.Sublist phase.clients b.phase.clients) :
      StepCase b [(request, reply)] { b with database, phase }
  | closes {client clients} (h : b.phase.clients = client :: clients) :
      StepCase b [(.remove client.address, none)]
        { process := b.process.connectionClosed client
          database := b.database.removeIfServer client.address
          phase := .serving clients }

theorem acceptIfAny_cases {b b' : Binder} {ready : Option (Finset Fd)}
    {accept : Option (Fd × SocketPtr)} (h : b.acceptIfAny ready accept = some b') :
    StepCase b [] b' := by
  rw [acceptIfAny] at h
  split_ifs at h with hfresh
  obtain ⟨⟨answer, process⟩, hs, rfl⟩ := Option.map_eq_some_iff.mp h
  exact .accepts hfresh hs

theorem poll_cases (b : Binder) (ready : Option (Finset Fd)) : StepCase b [] (b.poll ready) := by
  cases hc : b.process.server.connectionsWithData ready with
  | error e =>
    simp only [poll, hc]
    exact .goesOn (List.nil_sublist _)
  | ok clients =>
    simp only [poll, hc]
    cases ready with
    | none => cases hc
    | some ready => exact .polls hc

theorem recv_cases {b b' : Binder} {client : TcpSocket} {clients : List TcpSocket}
    {outcome : RecvOutcome} {events : List BinderEvent}
    (hclients : b.phase.clients = client :: clients)
    (h : b.recv client clients outcome = some (events, b')) : StepCase b events b' := by
  have hrest : List.Sublist clients b.phase.clients := hclients ▸ List.sublist_cons_self ..
  cases outcome with
  | returned buffer =>
    rw [recv] at h
    split_ifs at h
    · obtain ⟨rfl, rfl⟩ := Prod.mk.inj (Option.some.inj h)
      exact .goesOn hrest
    · obtain ⟨rfl, rfl⟩ := Prod.mk.inj (Option.some.inj h)
      exact .goesOn (hclients ▸ List.Sublist.refl _)
  | threw e =>
    cases e with
    | connectionClosed =>
      obtain ⟨rfl, rfl⟩ := Prod.mk.inj (Option.some.inj h)
      exact .closes hclients
    | sendError =>
      obtain ⟨rfl, rfl⟩ := Prod.mk.inj (Option.some.inj h)
      exact .goesOn hrest
    | recvError =>
      obtain ⟨rfl, rfl⟩ := Prod.mk.inj (Option.some.inj h)
      exact .goesOn hrest
  | badArrayLength =>
    obtain ⟨rfl, rfl⟩ := Prod.mk.inj (Option.some.inj h)
    exact .goesOn (List.nil_sublist _)
  | undefined => cases h
  | blocked => cases h

theorem handle_cases {b b' : Binder} {client : TcpSocket} {raw : RawMessage}
    {clients : List TcpSocket} {exchange : Nat → TerminateExchange} {events : List BinderEvent}
    (hclients : b.phase.clients = client :: clients)
    (h : b.handle client raw clients exchange = some (events, b')) : StepCase b events b' := by
  have hsame : List.Sublist (client :: clients) b.phase.clients := hclients ▸ List.Sublist.refl _
  rw [handle] at h
  split at h
  · obtain ⟨message, -, h⟩ := Option.bind_eq_some_iff.mp h
    obtain ⟨⟨response, database⟩, hr, h⟩ := Option.bind_eq_some_iff.mp h
    obtain ⟨rfl, rfl⟩ := Prod.mk.inj (Option.some.inj h)
    refine .calls ?_ (fun message' s he => ?_) hsame
    · rw [BinderDatabase.step, hr, Option.map_some]
    · obtain ⟨-, rfl⟩ := BinderRequest.register.inj he
      exact ⟨client, by simp [hclients], rfl⟩
  · obtain ⟨message, -, h⟩ := Option.bind_eq_some_iff.mp h
    obtain ⟨⟨response, database⟩, hr, h⟩ := Option.bind_eq_some_iff.mp h
    obtain ⟨rfl, rfl⟩ := Prod.mk.inj (Option.some.inj h)
    refine .calls ?_ (fun _ _ he => by cases he) hsame
    rw [BinderDatabase.step, hr, Option.map_some]
  · obtain ⟨message, -, h⟩ := Option.bind_eq_some_iff.mp h
    split at h
    · obtain ⟨rfl, rfl⟩ := Prod.mk.inj (Option.some.inj h)
      exact .goesOn hsame
    · obtain ⟨rfl, rfl⟩ := Prod.mk.inj (Option.some.inj h)
      exact .goesOn (List.nil_sublist _)
    · cases h
    · cases h
  · obtain ⟨rfl, rfl⟩ := Prod.mk.inj (Option.some.inj h)
    exact .goesOn (hclients ▸ List.sublist_cons_self ..)

theorem send_cases {b : Binder} {client : TcpSocket} {clients : List TcpSocket}
    (hclients : b.phase.clients = client :: clients) (running : Bool)
    (outcome : Except TcpError Unit) :
    StepCase b (b.send client running clients outcome).1
      (b.send client running clients outcome).2 := by
  have hsub : List.Sublist (if running then BinderPhase.serving clients else .ended).clients
      b.phase.clients := by
    rw [hclients]
    split_ifs
    · exact List.sublist_cons_self ..
    · exact List.nil_sublist _
  cases outcome with
  | ok => exact .goesOn hsub
  | error e =>
    cases e with
    | connectionClosed =>
      have hremove : b.database.step (.remove client.address) =
          some (none, b.database.removeIfServer client.address) := rfl
      exact .calls hremove (fun _ _ he => by cases he) hsub
    | sendError => exact .goesOn hsub
    | recvError => exact .goesOn hsub

theorem step_cases {b b' : Binder} {input : BinderInput} {events : List BinderEvent}
    (h : b.step input = some (events, b')) : StepCase b events b' := by
  unfold step at h
  split at h
  · obtain ⟨b'', hb, he⟩ := Option.map_eq_some_iff.mp h
    obtain ⟨rfl, rfl⟩ := Prod.mk.inj he
    exact acceptIfAny_cases hb
  · obtain ⟨rfl, rfl⟩ := Prod.mk.inj (Option.some.inj h)
    exact poll_cases b _
  · exact recv_cases (congrArg BinderPhase.clients ‹b.phase = .serving _›) h
  · obtain ⟨rfl, rfl⟩ := Prod.mk.inj (Option.some.inj h)
    exact .goesOn (List.nil_sublist _)
  · exact handle_cases (congrArg BinderPhase.clients ‹b.phase = .handling ..›) h
  · obtain ⟨rfl, rfl⟩ := Prod.mk.inj (Option.some.inj h)
    exact send_cases (congrArg BinderPhase.clients ‹b.phase = .replying ..›) _ _
  · cases h

end Binder

structure Binder.Sound (b : Binder) : Prop where
  kept : b.process.Kept
  held : HeldSocketsManaged b.process.server b.database
  pending : ∀ client ∈ b.phase.clients, b.process.server.Manages client
  nodup : b.phase.clients.Nodup

theorem HeldSocketsManaged.step {server : TcpServer} {db db' : BinderDatabase}
    {request : BinderRequest} {reply : Option RawMessage} (h : HeldSocketsManaged server db)
    (hs : db.step request = some (reply, db'))
    (hsocket : ∀ message s, request = .register message s →
      ∃ client, server.Manages client ∧ client.address = s) : HeldSocketsManaged server db' := by
  intro x hx
  rcases Holds.of_step (step_cases hs) hx with ⟨hx, -⟩ | ⟨message, hm, -⟩
  · exact h x hx
  · exact hsocket message _ hm

theorem not_holds_removed {db : BinderDatabase} {s : SocketPtr} {x : ServerData}
    (hx : Holds (db.removeIfServer s) x) : x.serverSocket ≠ s := by
  rcases Holds.of_step StepCase.removed hx with ⟨-, hne⟩ | ⟨_, hm, -⟩
  · exact fun he => hne (by rw [he])
  · cases hm

namespace Binder

theorem Sound.new (listener : Fd) (foreign : Finset Fd) : (Binder.new listener foreign).Sound where
  kept := .new listener foreign
  held x hx := by
    rcases hx with ⟨f, hx⟩ | ⟨t, hx⟩ | ⟨t, hx⟩ <;> cases hx
  pending client h := absurd h List.not_mem_nil
  nodup := .nil

theorem Sound.step {b b' : Binder} {events : List BinderEvent} (h : b.Sound)
    (hs : StepCase b events b') : b'.Sound := by
  cases hs with
  | @accepts ready accept answer process _ hs =>
    have hcase := h.kept.step_cases hs
    refine ⟨h.kept.step hcase, fun x hx => ?_, fun _ hc => absurd hc List.not_mem_nil, .nil⟩
    obtain ⟨client, hm, ha⟩ := h.held x hx
    have hopen : ¬ ClosedOrReleased client (.acceptIfAny ready accept, answer) := by
      simp [ClosedOrReleased]
    exact ⟨client, (Process.manages_step h.kept hcase).mpr (.inr ⟨hm, hopen⟩), ha⟩
  | @polls ready clients hc =>
    obtain ⟨clients', hc', hnodup, hmem⟩ := h.kept.connectionsWithData ready
    obtain rfl := Except.ok.inj (hc.symm.trans hc')
    exact ⟨h.kept, h.held, fun client hm => ((hmem client).mp hm).2, hnodup⟩
  | goesOn hsub =>
    exact ⟨h.kept, h.held, fun client hc => h.pending client (hsub.subset hc), h.nodup.sublist hsub⟩
  | calls hs hsocket hsub =>
    refine ⟨h.kept, h.held.step hs fun message s he => ?_,
      fun client hc => h.pending client (hsub.subset hc), h.nodup.sublist hsub⟩
    obtain ⟨client, hc, ha⟩ := hsocket message s he
    exact ⟨client, h.pending client hc, ha⟩
  | @closes client clients hclients =>
    have hpending := h.pending
    have hnodup := h.nodup
    rw [hclients] at hpending hnodup
    obtain ⟨hclient, hrest⟩ := List.nodup_cons.mp hnodup
    obtain ⟨hkept, hmanages⟩ := h.kept.connectionClosed (hpending client List.mem_cons_self)
    refine ⟨hkept, fun x hx => ?_, fun client' hc => ?_, hrest⟩
    · have hremove : b.database.step (.remove client.address) =
          some (none, b.database.removeIfServer client.address) := rfl
      have hheld := h.held.step hremove (fun _ _ he => by cases he)
      obtain ⟨client', hm', ha⟩ := hheld x hx
      refine ⟨client', (hmanages client').mpr ⟨hm', ?_⟩, ha⟩
      rintro rfl
      exact not_holds_removed hx ha.symm
    · refine (hmanages client').mpr ⟨hpending client' (List.mem_cons_of_mem _ hc), ?_⟩
      rintro rfl
      exact hclient hc

theorem StepCase.run_database {b b' : Binder} {events : List BinderEvent}
    (hs : StepCase b events b') : Run BinderDatabase.step b.database events b'.database := by
  cases hs with
  | accepts => exact .nil _
  | polls => exact .nil _
  | goesOn => exact .nil _
  | calls hs => exact .single hs
  | closes => exact .single rfl

end Binder

abbrev BinderLoopRun (listener : Fd) (foreign : Finset Fd)
    (trace : List (BinderInput × List BinderEvent)) (b : Binder) : Prop :=
  Run Binder.step (.new listener foreign) trace b

theorem BinderLoopRun.sound {trace : List (BinderInput × List BinderEvent)} {b : Binder}
    {listener : Fd} {foreign : Finset Fd} (hrun : BinderLoopRun listener foreign trace b) :
    b.Sound :=
  hrun.history (P := fun _ b => b.Sound) (.new listener foreign)
    (fun _ _ _ _ _ _ h hs => h.step (Binder.step_cases hs))

/-- Along the loop the database goes through one of its runs, so whatever holds
of these holds of the loop. -/
theorem BinderLoopRun.binderRun {trace : List (BinderInput × List BinderEvent)} {b : Binder}
    {listener : Fd} {foreign : Finset Fd} (hrun : BinderLoopRun listener foreign trace b) :
    BinderRun (trace.flatMap Prod.snd) b.database := by
  refine hrun.history (P := fun past b => BinderRun (past.flatMap Prod.snd) b.database) (.nil _) ?_
  intro past a input events b _ h hs
  rw [List.flatMap_append, List.flatMap_singleton]
  exact h.append (Binder.step_cases hs).run_database

theorem handleTerminate_holds {db : BinderDatabase} {exchange : Nat → TerminateExchange}
    {sent : TerminateSent} (h : sent ∈ (db.handleTerminate exchange).1) :
    ∃ x, Holds db x ∧ x.serverSocket = sent.serverSocket := by
  have hmem := (terminateLoop_sockets_sublist exchange _ 0 _).subset
    (List.mem_map_of_mem (f := TerminateSent.serverSocket) h)
  obtain ⟨x, hx, hs⟩ := List.mem_map.mp hmem
  obtain ⟨e, he, rfl⟩ := List.mem_map.mp hx
  exact ⟨e.1, .of_timestamp he, hs⟩

/-- Wherever the loop stands, the database points only at connections of the
server, and so do the clients that are still to be served. So termination uses
no destroyed socket, and nothing points at an address that is free for a new
connection. -/
theorem no_dangling_sockets {trace : List (BinderInput × List BinderEvent)} {b : Binder}
    {listener : Fd} {foreign : Finset Fd} (hrun : BinderLoopRun listener foreign trace b) :
    HeldSocketsManaged b.process.server b.database ∧
    (∀ client ∈ b.phase.clients, b.process.server.Manages client) ∧
    (∀ exchange, ∀ sent ∈ (b.database.handleTerminate exchange).1,
      ∃ client, b.process.server.Manages client ∧ client.address = sent.serverSocket) ∧
    ∀ address, (∀ client, b.process.server.Manages client → client.address ≠ address) →
      ∀ x, Holds b.database x → x.serverSocket ≠ address := by
  have h := hrun.sound
  refine ⟨h.held, h.pending, fun exchange sent hsent => ?_, fun address hfree x hx he => ?_⟩
  · obtain ⟨x, hx, hs⟩ := handleTerminate_holds hsent
    exact hs ▸ h.held x hx
  · obtain ⟨client, hm, ha⟩ := h.held x hx
    exact hfree client hm (ha.trans he)

theorem no_dangling_sockets_sample :
    ∃ b, BinderLoopRun 3 {0}
        [(.accept (some {3}) (some (4, 100)), []), (.poll (some {4}), []),
          (.recv (.returned (sampleRegister 102 80).serialize.buffer), []),
          (.handle (fun _ => .received (.threw .connectionClosed)),
            [(.register (sampleRegister 102 80) 100, some (registered 0))]),
          (.send (.ok ()), []), (.roundOver, [])] b ∧
      ∃ sent ∈ (b.database.handleTerminate fun _ => .received (.threw .connectionClosed)).1,
        ∃ client, b.process.server.Manages client ∧ client.address = sent.serverSocket := by
  obtain ⟨b, hrun, hsent⟩ : ∃ b, BinderLoopRun 3 {0}
      [(.accept (some {3}) (some (4, 100)), []), (.poll (some {4}), []),
        (.recv (.returned (sampleRegister 102 80).serialize.buffer), []),
        (.handle (fun _ => .received (.threw .connectionClosed)),
          [(.register (sampleRegister 102 80) 100, some (registered 0))]),
        (.send (.ok ()), []), (.roundOver, [])] b ∧
      (b.database.handleTerminate fun _ =>
        .received (.threw .connectionClosed)).1.head?.isSome = true :=
    ⟨_, .cons rfl (.cons rfl (.cons rfl (.cons rfl (.cons rfl (.cons rfl (.nil _)))))), rfl⟩
  obtain ⟨sent, hhead⟩ := Option.isSome_iff_exists.mp hsent
  have hmem := List.mem_of_head? hhead
  exact ⟨b, hrun, sent, hmem, (no_dangling_sockets hrun).2.2.1 _ sent hmem⟩

end RpcLibrary
