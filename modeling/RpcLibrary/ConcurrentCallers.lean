import RpcLibrary.BinderLoop
import RpcLibrary.BinderRefinement
import RpcLibrary.Linearizability

/-! Servers that register and clients that locate, any number of them, each with
a connection to the binder over which it waits for one answer at a time. -/

namespace RpcLibrary

open Runs BinderDatabase Linearizability

/-- What `rpcRegister` and `rpcCall` send to the binder. -/
inductive CallerRequest
  | register (message : Register)
  | locate (message : LocateRequest)
deriving DecidableEq

def CallerRequest.encode : CallerRequest → RawMessage
  | register message => message.serialize
  | locate message => message.serialize

/-- What the database is asked when the request has come over a connection. -/
def CallerRequest.asked (socket : SocketPtr) : CallerRequest → BinderRequest
  | register message => .register message socket
  | locate message => .locate message

/-- One connection: whether its caller waits for an answer, and the messages in
flight. -/
structure CallerLink where
  waiting : Bool
  toBinder : List RawMessage
  toCaller : List RawMessage
deriving DecidableEq

def CallerLink.new : CallerLink := ⟨false, [], []⟩

/-- The connection after the binder has received a message from it. -/
def CallerLink.take? (l : CallerLink) (buffer : Bytes) : Option CallerLink :=
  match l.toBinder with
  | raw :: rest => if raw.buffer = buffer then some { l with toBinder := rest } else none
  | [] => none

def CallerLink.put (l : CallerLink) (response : RawMessage) : CallerLink :=
  { l with toCaller := l.toCaller ++ [response] }

structure Callers where
  binder : Binder
  links : SocketPtr → CallerLink

inductive CallersEvent
  | calls (socket : SocketPtr) (request : CallerRequest)
  | returns (socket : SocketPtr)
  | loop (input : BinderInput)

abbrev CallersMark := Mark SocketPtr BinderRequest (Option RawMessage)

/-- What the database is told of a client whose connection is closed. -/
def closed (s : SocketPtr) : BinderEvent := (.remove s, none)

abbrev CallerPhases := SocketPtr → CallerPhase BinderRequest (Option RawMessage)

/-- The message that the loop has taken from a connection belongs to its client. -/
def BinderPhase.client? : BinderPhase → Option SocketPtr
  | handling client _ _ => some client.address
  | replying client _ _ _ => some client.address
  | _ => none

namespace Callers

def new (listener : Fd) (foreign : Finset Fd) : Callers := ⟨.new listener foreign, fun _ => .new⟩

def setLink (sys : Callers) (s : SocketPtr) (l : CallerLink) : SocketPtr → CallerLink :=
  Function.update sys.links s l

/-- The connection that is accepted, if any. What its caller has sent before
counts from then on. -/
def newcomer (sys : Callers) (ready : Option (Finset Fd)) (accept : Option (Fd × SocketPtr)) :
    Option SocketPtr :=
  let server := sys.binder.process.server
  match select ready (server.fdMax + 1) server.fdMaster with
  | some readFds => if server.listener ∈ readFds then accept.map Prod.snd else none
  | none => none

/-- What a step of the loop takes out of the connections and puts into them. -/
def transfer (sys : Callers) (input : BinderInput) : Option (SocketPtr → CallerLink) :=
  match sys.binder.phase, input with
  | .accepting, .accept ready accept =>
    match sys.newcomer ready accept with
    | some s => some (sys.setLink s .new)
    | none => some sys.links
  | .serving (client :: _), .recv (.returned buffer) =>
    ((sys.links client.address).take? buffer).map (sys.setLink client.address)
  | .replying client response _ _, .send (.ok _) =>
    some (sys.setLink client.address ((sys.links client.address).put response))
  | _, _ => some sys.links

/-- The handling of a client's message answers that client. All else that reaches
the database is the removal of a client whose connection the loop finds closed. -/
def marks : BinderPhase → List BinderEvent → List CallersMark
  | .handling client _ _, events => events.map fun e => .commits client.address e.1 e.2
  | .serving (client :: _), events => events.map fun e => .leaves client.address e.1 e.2
  | .replying client _ _ _, events => events.map fun e => .leaves client.address e.1 e.2
  | _, _ => []

def joins (sys : Callers) (input : BinderInput) : List CallersMark :=
  match sys.binder.phase, input with
  | .accepting, .accept ready accept =>
    (sys.newcomer ready accept).toList.map fun s => .visible (.joins s)
  | _, _ => []

def loopStep (sys : Callers) (input : BinderInput) : Option (List CallersMark × Callers) := do
  let (events, binder) ← sys.binder.step input
  let links ← sys.transfer input
  some (sys.joins input ++ marks sys.binder.phase events, ⟨binder, links⟩)

def step (sys : Callers) : CallersEvent → Option (List CallersMark × Callers)
  | .calls s request =>
    let l := sys.links s
    if l.waiting = false ∧ request.encode.buffer.length < 2147483647 then
      some ([.visible (.calls s (request.asked s))],
        { sys with links :=
          sys.setLink s { l with waiting := true, toBinder := l.toBinder ++ [request.encode] } })
    else none
  | .returns s =>
    let l := sys.links s
    match l.toCaller with
    | raw :: rest =>
      some ([.visible (.returns s (some raw))],
        { sys with links := sys.setLink s { l with waiting := false, toCaller := rest } })
    | [] => none
  | .loop input => sys.loopStep input

end Callers

/-- Where a request is: on its way, in the hands of the loop or answered, unless
its connection has failed. -/
inductive Standing (phase : BinderPhase) (s : SocketPtr) :
    CallerPhase BinderRequest (Option RawMessage) → CallerLink → Prop
  | idle (h : phase.client? ≠ some s) : Standing phase s .idle .new
  | requested {request : CallerRequest} (h : phase.client? ≠ some s)
      (hfits : request.encode.buffer.length < 2147483647) :
      Standing phase s (.called (request.asked s)) ⟨true, [request.encode], []⟩
  | handled {request : CallerRequest} {client : TcpSocket} {clients : List TcpSocket}
      (h : phase = .handling client request.encode clients) (ha : client.address = s)
      (hfits : request.encode.buffer.length < 2147483647) :
      Standing phase s (.called (request.asked s)) ⟨true, [], []⟩
  | replied {response : RawMessage} {client : TcpSocket} {running : Bool}
      {clients : List TcpSocket} (h : phase = .replying client response running clients)
      (ha : client.address = s) : Standing phase s (.committed (some response)) ⟨true, [], []⟩
  | answered {response : RawMessage} (h : phase.client? ≠ some s) :
      Standing phase s (.committed (some response)) ⟨true, [], [response]⟩
  | lost {o : Option RawMessage} (h : phase.client? ≠ some s) :
      Standing phase s (.committed o) ⟨true, [], []⟩

theorem Standing.of_ne {phase phase' : BinderPhase} {s : SocketPtr}
    {p : CallerPhase BinderRequest (Option RawMessage)} {l : CallerLink} (h : Standing phase s p l)
    (hne : phase.client? ≠ some s) (hne' : phase'.client? ≠ some s) : Standing phase' s p l := by
  cases h with
  | idle => exact .idle hne'
  | requested _ hfits => exact .requested hne' hfits
  | handled h ha =>
    subst h
    exact absurd (congrArg some ha) hne
  | replied h ha =>
    subst h
    exact absurd (congrArg some ha) hne
  | answered => exact .answered hne'
  | lost => exact .lost hne'

namespace Callers

/-- Every caller stands where the marks so far have brought it. -/
def Standings (p : CallerPhases) (sys : Callers) :
    Prop :=
  ∀ s, Standing sys.binder.phase s (p s) (sys.links s)

theorem Standings.new (listener : Fd) (foreign : Finset Fd) :
    Standings (fun _ => .idle) (.new listener foreign) := by
  intro s
  exact .idle fun h => by cases h

theorem Standings.update {p : CallerPhases}
    {sys : Callers} {binder : Binder} {s : SocketPtr}
    {c : CallerPhase BinderRequest (Option RawMessage)} {l : CallerLink} (h : Standings p sys)
    (hs : Standing binder.phase s c l)
    (hother : ∀ t, t ≠ s → sys.binder.phase.client? ≠ some t ∧ binder.phase.client? ≠ some t) :
    Standings (Function.update p s c) ⟨binder, sys.setLink s l⟩ := by
  intro t
  by_cases ht : t = s
  · subst ht
    simpa only [setLink, Function.update_self] using hs
  · simp only [setLink, Function.update_of_ne ht]
    exact (h t).of_ne (hother t ht).1 (hother t ht).2

theorem Standings.set {p : CallerPhases}
    {sys : Callers} {s : SocketPtr} {c : CallerPhase BinderRequest (Option RawMessage)}
    {l : CallerLink} (h : Standings p sys) (hs : Standing sys.binder.phase s c l) :
    Standings (Function.update p s c) { sys with links := sys.setLink s l } := by
  intro t
  by_cases ht : t = s
  · subst ht
    simpa only [setLink, Function.update_self] using hs
  · simp only [setLink, Function.update_of_ne ht]
    exact h t

theorem Standings.quiet {p : CallerPhases}
    {sys : Callers} {binder : Binder} (h : Standings p sys)
    (hnone : sys.binder.phase.client? = none) (hnone' : binder.phase.client? = none) :
    Standings p ⟨binder, sys.links⟩ := by
  intro s
  exact (h s).of_ne (by simp [hnone]) (by simp [hnone'])

theorem encode_nonempty (request : CallerRequest) : request.encode.buffer.isEmpty = false := by
  cases request <;> rfl

/-- A request that the loop has taken is decoded to what its caller asked, and
answered unless its signature has no meaning. -/
theorem handle_encode {b b' : Binder} {client : TcpSocket} {clients : List TcpSocket}
    {request : CallerRequest} {exchange : Nat → TerminateExchange} {events : List BinderEvent}
    (hfits : request.encode.buffer.length < 2147483647)
    (hs : b.handle client request.encode clients exchange = some (events, b')) :
    ∃ response database,
      b.database.step (request.asked client.address) = some (some response, database) ∧
      events = [(request.asked client.address, some response)] ∧
      b' = { b with database, phase := .replying client response true clients } := by
  have hlen : request.encode.buffer.length < 2 ^ 31 := by omega
  cases request with
  | register message =>
    have hd : Register.deserialize message.serialize = some message :=
      message.deserialize_serialize hlen
    simp only [Binder.handle, CallerRequest.encode,
      show message.serialize.getMessageType = .register from rfl, hd, Option.bind_eq_bind,
      Option.bind_some] at hs
    obtain ⟨⟨response, database⟩, hr, hs⟩ := Option.bind_eq_some_iff.mp hs
    obtain ⟨rfl, rfl⟩ := Prod.mk.inj (Option.some.inj hs)
    refine ⟨response, database, ?_, rfl, rfl⟩
    rw [CallerRequest.asked, BinderDatabase.step, hr, Option.map_some]
  | locate message =>
    have hd : LocateRequest.deserialize message.serialize = some message :=
      message.deserialize_serialize hlen
    simp only [Binder.handle, CallerRequest.encode,
      show message.serialize.getMessageType = .locateRequest from rfl, hd, Option.bind_eq_bind,
      Option.bind_some] at hs
    obtain ⟨⟨response, database⟩, hr, hs⟩ := Option.bind_eq_some_iff.mp hs
    obtain ⟨rfl, rfl⟩ := Prod.mk.inj (Option.some.inj hs)
    refine ⟨response, database, ?_, rfl, rfl⟩
    rw [CallerRequest.asked, BinderDatabase.step, hr, Option.map_some]

theorem marked_leaves {p : CallerPhases} {events : List BinderEvent} {s : SocketPtr}
    (h : ∀ e ∈ events, e = closed s) :
    Marked closed p (events.map fun e => .leaves s e.1 e.2) p := by
  induction events with
  | nil => exact .nil p
  | cons e events ih =>
    obtain ⟨he, hevents⟩ := List.forall_mem_cons.mp h
    exact .cons (.leaves he.symm) (ih hevents)

theorem effects_leaves (events : List BinderEvent) (s : SocketPtr) :
    effects (events.map fun e => (.leaves s e.1 e.2 : CallersMark)) = events := by
  rw [effects, List.filterMap_map]
  exact List.filterMap_some

theorem recv_events {b b' : Binder} {client : TcpSocket} {clients : List TcpSocket}
    {outcome : RecvOutcome} {events : List BinderEvent}
    (h : b.recv client clients outcome = some (events, b')) :
    ∀ e ∈ events, e = closed client.address := by
  cases outcome with
  | returned buffer =>
    rw [Binder.recv] at h
    split_ifs at h <;> cases h <;> simp
  | threw e => cases e <;> cases h <;> simp [closed]
  | badArrayLength =>
    cases h
    simp
  | undefined => cases h
  | blocked => cases h

theorem send_events (b : Binder) (client : TcpSocket) (running : Bool) (clients : List TcpSocket)
    (outcome : Except TcpError Unit) :
    ∀ e ∈ (b.send client running clients outcome).1, e = closed client.address := by
  rcases outcome with e | u
  · cases e <;> simp [Binder.send, closed]
  · simp [Binder.send]

theorem Standings.accepting {p : CallerPhases}
    {sys : Callers} {binder : Binder} {ready : Option (Finset Fd)}
    {accept : Option (Fd × SocketPtr)} {links : SocketPtr → CallerLink} (h : Standings p sys)
    (hphase : sys.binder.phase = .accepting) (hafter : binder.phase.client? = none)
    (ht : sys.transfer (.accept ready accept) = some links) :
    ∃ q, Marked closed p (sys.joins (.accept ready accept)) q ∧ Standings q ⟨binder, links⟩ := by
  have hnone : sys.binder.phase.client? = none := by rw [hphase]; rfl
  simp only [transfer, joins, hphase] at ht ⊢
  cases hn : sys.newcomer ready accept with
  | none =>
    obtain rfl := Option.some.inj (hn ▸ ht)
    exact ⟨p, .nil p, h.quiet hnone hafter⟩
  | some s =>
    obtain rfl := Option.some.inj (hn ▸ ht)
    refine ⟨_, .single .joins, h.update (.idle ?_) fun t _ => ?_⟩
    · simp [hafter]
    · simp [hnone, hafter]

/-- The loop takes from a connection only the request its caller waits for. -/
theorem Standings.requested {p : CallerPhases}
    {sys : Callers} {s : SocketPtr} {buffer : Bytes} {l : CallerLink} (h : Standings p sys)
    (hl : (sys.links s).take? buffer = some l) :
    ∃ request : CallerRequest, request.encode.buffer.length < 2147483647 ∧
      buffer = request.encode.buffer ∧ l = ⟨true, [], []⟩ ∧ p s = .called (request.asked s) := by
  have hs := h s
  generalize p s = c at hs
  generalize sys.links s = link at hs hl
  cases hs with
  | @requested request _ hfits =>
    simp only [CallerLink.take?] at hl
    split_ifs at hl with hb
    exact ⟨request, hfits, hb.symm, (Option.some.inj hl).symm, rfl⟩
  | idle => cases hl
  | handled => cases hl
  | replied => cases hl
  | answered => cases hl
  | lost => cases hl

theorem Standings.receiving {p : CallerPhases}
    {sys : Callers} {binder : Binder} {client : TcpSocket} {clients : List TcpSocket}
    {outcome : RecvOutcome} {events : List BinderEvent} {links : SocketPtr → CallerLink}
    (h : Standings p sys) (hphase : sys.binder.phase = .serving (client :: clients))
    (hs : sys.binder.recv client clients outcome = some (events, binder))
    (ht : sys.transfer (.recv outcome) = some links) : Standings p ⟨binder, links⟩ := by
  have hnone : sys.binder.phase.client? = none := by rw [hphase]; rfl
  simp only [transfer, hphase] at ht
  cases outcome with
  | returned buffer =>
    obtain ⟨l, hl, rfl⟩ := Option.map_eq_some_iff.mp ht
    obtain ⟨request, hfits, rfl, rfl, hcalled⟩ := h.requested hl
    rw [Binder.recv, encode_nonempty, if_neg Bool.false_ne_true] at hs
    obtain ⟨-, rfl⟩ := Prod.mk.inj (Option.some.inj hs)
    have hupdate : Standings (Function.update p client.address (.called _))
        ⟨{ sys.binder with phase := .handling client request.encode clients }, _⟩ :=
      h.update (.handled rfl rfl hfits) fun t ht =>
        ⟨by simp [hnone], by simpa [BinderPhase.client?] using ht.symm⟩
    rw [← hcalled, Function.update_eq_self] at hupdate
    exact hupdate
  | threw e =>
    obtain rfl := Option.some.inj ht
    refine h.quiet hnone ?_
    cases e <;> cases hs <;> rfl
  | badArrayLength =>
    obtain rfl := Option.some.inj ht
    refine h.quiet hnone ?_
    cases hs
    rfl
  | undefined => cases hs
  | blocked => cases hs

theorem Standings.handling {p : CallerPhases}
    {sys : Callers} {binder : Binder} {client : TcpSocket} {raw : RawMessage}
    {clients : List TcpSocket} {exchange : Nat → TerminateExchange} {events : List BinderEvent}
    (h : Standings p sys) (hphase : sys.binder.phase = .handling client raw clients)
    (hs : sys.binder.handle client raw clients exchange = some (events, binder)) :
    ∃ q, Marked closed p (marks sys.binder.phase events) q ∧ Standings q ⟨binder, sys.links⟩ ∧
      effects (marks sys.binder.phase events) = events := by
  have hclient := h client.address
  rw [hphase] at hclient
  obtain ⟨request, hfits, rfl, hlink, hcalled⟩ : ∃ request : CallerRequest,
      request.encode.buffer.length < 2147483647 ∧ raw = request.encode ∧
        sys.links client.address = ⟨true, [], []⟩ ∧
        p client.address = .called (request.asked client.address) := by
    generalize p client.address = c at hclient
    generalize sys.links client.address = l at hclient
    cases hclient with
    | handled he _ hfits =>
      obtain ⟨-, rfl, -⟩ := BinderPhase.handling.inj he
      exact ⟨_, hfits, rfl, rfl, rfl⟩
    | replied he => cases he
    | idle hne => exact absurd rfl hne
    | requested hne => exact absurd rfl hne
    | answered hne => exact absurd rfl hne
    | lost hne => exact absurd rfl hne
  obtain ⟨response, database, -, rfl, rfl⟩ := handle_encode hfits hs
  have hmark : marks sys.binder.phase [(request.asked client.address, some response)] =
      [.commits client.address (request.asked client.address) (some response)] := by
    rw [hphase]
    rfl
  rw [hmark]
  refine ⟨_, .single (.commits hcalled), ?_, rfl⟩
  have hupdate : Standings (Function.update p client.address (.committed (some response)))
      ⟨{ sys.binder with database, phase := .replying client response true clients }, _⟩ :=
    h.update (.replied rfl rfl) fun t ht =>
      ⟨by simpa [hphase, BinderPhase.client?] using ht.symm,
        by simpa [BinderPhase.client?] using ht.symm⟩
  rw [setLink, ← hlink, Function.update_eq_self] at hupdate
  exact hupdate

theorem Standings.replying {p : CallerPhases}
    {sys : Callers} {client : TcpSocket} {response : RawMessage} {running : Bool}
    {clients : List TcpSocket} {outcome : Except TcpError Unit} {links : SocketPtr → CallerLink}
    (h : Standings p sys) (hphase : sys.binder.phase = .replying client response running clients)
    (ht : sys.transfer (.send outcome) = some links) :
    Standings p ⟨(sys.binder.send client running clients outcome).2, links⟩ := by
  have hclient := h client.address
  rw [hphase] at hclient
  obtain ⟨hlink, hcommitted⟩ : sys.links client.address = ⟨true, [], []⟩ ∧
      p client.address = .committed (some response) := by
    generalize p client.address = c at hclient
    generalize sys.links client.address = l at hclient
    cases hclient with
    | replied he _ =>
      obtain ⟨-, rfl, -⟩ := BinderPhase.replying.inj he
      exact ⟨rfl, rfl⟩
    | handled he => cases he
    | idle hne => exact absurd rfl hne
    | requested hne => exact absurd rfl hne
    | answered hne => exact absurd rfl hne
    | lost hne => exact absurd rfl hne
  have hafter : (sys.binder.send client running clients outcome).2.phase.client? = none := by
    rcases outcome with e | u
    · cases e <;> cases running <;> rfl
    · cases running <;> rfl
  have hother : ∀ t, t ≠ client.address → sys.binder.phase.client? ≠ some t ∧
      (sys.binder.send client running clients outcome).2.phase.client? ≠ some t := fun t ht =>
    ⟨by simpa [hphase, BinderPhase.client?] using ht.symm, by simp [hafter]⟩
  simp only [transfer, hphase] at ht
  have hput : links = sys.setLink client.address ⟨true, [], [response]⟩ ∨ links = sys.links := by
    cases outcome with
    | ok u =>
      have hlinks : links = sys.setLink client.address ((sys.links client.address).put response) :=
        (Option.some.inj ht).symm
      rw [hlink] at hlinks
      exact .inl hlinks
    | error e => exact .inr (Option.some.inj ht).symm
  rcases hput with rfl | rfl
  · have hanswered : Standing (sys.binder.send client running clients outcome).2.phase
        client.address (.committed (some response)) ⟨true, [], [response]⟩ :=
      .answered (by simp [hafter])
    have hupdate := h.update hanswered hother
    rw [← hcommitted, Function.update_eq_self] at hupdate
    exact hupdate
  · have hlost : Standing (sys.binder.send client running clients outcome).2.phase
        client.address (.committed (some response)) ⟨true, [], []⟩ := .lost (by simp [hafter])
    have hupdate := h.update hlost hother
    rw [← hcommitted, Function.update_eq_self, setLink, ← hlink, Function.update_eq_self] at hupdate
    exact hupdate

theorem effects_joins (sys : Callers) (input : BinderInput) : effects (sys.joins input) = [] := by
  unfold joins
  split
  · cases sys.newcomer _ _ <;> rfl
  · rfl

theorem Standings.loop {p : CallerPhases}
    {sys : Callers} {binder : Binder} {input : BinderInput} {events : List BinderEvent}
    {links : SocketPtr → CallerLink} (h : Standings p sys)
    (hs : sys.binder.step input = some (events, binder)) (ht : sys.transfer input = some links) :
    ∃ q, Marked closed p (sys.joins input ++ marks sys.binder.phase events) q ∧
      Standings q ⟨binder, links⟩ ∧
      effects (sys.joins input ++ marks sys.binder.phase events) = events := by
  unfold Binder.step at hs
  split at hs
  · rename_i ready accept hphase
    obtain ⟨b, hb, he⟩ := Option.map_eq_some_iff.mp hs
    obtain ⟨rfl, rfl⟩ := Prod.mk.inj he
    have hafter : b.phase.client? = none := by
      rw [Binder.acceptIfAny] at hb
      split_ifs at hb
      obtain ⟨r, -, rfl⟩ := Option.map_eq_some_iff.mp hb
      rfl
    obtain ⟨q, hq, hstandings⟩ := h.accepting hphase hafter ht
    have hmarks : marks sys.binder.phase [] = [] := by rw [hphase]; rfl
    rw [hmarks, List.append_nil]
    exact ⟨q, hq, hstandings, effects_joins sys _⟩
  · rename_i ready hphase
    obtain ⟨rfl, rfl⟩ := Prod.mk.inj (Option.some.inj hs)
    obtain rfl : sys.links = links := by simpa [transfer, hphase] using ht
    have hmarks : sys.joins (.poll ready) ++ marks sys.binder.phase [] = [] := by
      simp [joins, marks, hphase]
    rw [hmarks]
    refine ⟨p, .nil p, h.quiet (by rw [hphase]; rfl) ?_, rfl⟩
    rw [Binder.poll]
    split <;> rfl
  · rename_i client clients outcome hphase
    have hmarks : sys.joins (.recv outcome) ++ marks sys.binder.phase events =
        events.map fun e => .leaves client.address e.1 e.2 := by
      simp [joins, marks, hphase]
    rw [hmarks]
    exact ⟨p, marked_leaves (recv_events hs), h.receiving hphase hs ht, effects_leaves _ _⟩
  · rename_i hphase
    obtain ⟨rfl, rfl⟩ := Prod.mk.inj (Option.some.inj hs)
    obtain rfl : sys.links = links := by simpa [transfer, hphase] using ht
    have hmarks : sys.joins .roundOver ++ marks sys.binder.phase [] = [] := by
      simp [joins, marks, hphase]
    rw [hmarks]
    exact ⟨p, .nil p, h.quiet (by rw [hphase]; rfl) rfl, rfl⟩
  · rename_i client raw clients exchange hphase
    have hjoins : sys.joins (.handle exchange) = [] := by simp [joins, hphase]
    obtain rfl : sys.links = links := by simpa [transfer, hphase] using ht
    rw [hjoins, List.nil_append]
    exact h.handling hphase hs
  · rename_i client response running clients outcome hphase
    obtain ⟨hevents, rfl⟩ := Prod.mk.inj (Option.some.inj hs)
    have hmarks : sys.joins (.send outcome) ++ marks sys.binder.phase events =
        events.map fun e => .leaves client.address e.1 e.2 := by
      simp [joins, marks, hphase]
    rw [hmarks]
    refine ⟨p, marked_leaves ?_, h.replying hphase ht, effects_leaves _ _⟩
    exact hevents ▸ send_events sys.binder client running clients outcome
  · cases hs

/-- One step of a caller or of the loop: what the callers see advances by its
marks, and the database by their effects. -/
theorem Standings.step {p : CallerPhases}
    {sys sys' : Callers} {e : CallersEvent} {marks : List CallersMark} (h : Standings p sys)
    (hs : sys.step e = some (marks, sys')) :
    ∃ q, Marked closed p marks q ∧ Standings q sys' ∧
      Run BinderDatabase.step sys.binder.database (effects marks) sys'.binder.database := by
  cases e with
  | calls s request =>
    obtain ⟨⟨hw, hfits⟩, he⟩ := Option.ite_none_right_eq_some.mp hs
    obtain ⟨rfl, rfl⟩ := Prod.mk.inj (Option.some.inj he)
    have hstanding := h s
    obtain ⟨hphase, hlink, hidle⟩ : sys.binder.phase.client? ≠ some s ∧
        sys.links s = .new ∧ p s = .idle := by
      generalize p s = c at hstanding
      generalize sys.links s = l at hstanding hw
      cases hstanding with
      | idle hne => exact ⟨hne, rfl, rfl⟩
      | requested => cases hw
      | handled => cases hw
      | replied => cases hw
      | answered => cases hw
      | lost => cases hw
    rw [hlink]
    exact ⟨_, .single (.calls hidle), h.set (.requested hphase hfits), .nil _⟩
  | returns s =>
    simp only [Callers.step] at hs
    split at hs
    · rename_i raw rest hcaller
      obtain ⟨rfl, rfl⟩ := Prod.mk.inj (Option.some.inj hs)
      have hstanding := h s
      obtain ⟨hphase, hlink, rfl, hcommitted⟩ : sys.binder.phase.client? ≠ some s ∧
          sys.links s = ⟨true, [], [raw]⟩ ∧ rest = [] ∧ p s = .committed (some raw) := by
        generalize p s = c at hstanding
        generalize sys.links s = l at hstanding hcaller
        cases hstanding with
        | answered hne =>
          obtain ⟨rfl, rfl⟩ := List.cons.inj hcaller
          exact ⟨hne, rfl, rfl, rfl⟩
        | idle => cases hcaller
        | requested => cases hcaller
        | handled => cases hcaller
        | replied => cases hcaller
        | lost => cases hcaller
      rw [hlink]
      exact ⟨_, .single (.returns hcommitted), h.set (.idle hphase), .nil _⟩
    · cases hs
  | loop input =>
    obtain ⟨⟨events, binder⟩, hb, hs⟩ := Option.bind_eq_some_iff.mp hs
    obtain ⟨links, ht, hs⟩ := Option.bind_eq_some_iff.mp hs
    obtain ⟨rfl, rfl⟩ := Prod.mk.inj (Option.some.inj hs)
    obtain ⟨q, hq, hstandings, heffects⟩ := h.loop hb ht
    refine ⟨q, hq, hstandings, ?_⟩
    rw [heffects]
    exact (Binder.step_cases hb).run_database

end Callers

abbrev CallersRun (listener : Fd) (foreign : Finset Fd)
    (trace : List (CallersEvent × List CallersMark)) (sys : Callers) : Prop :=
  Run Callers.step (.new listener foreign) trace sys

/-- All that happened in a run, in order. -/
def marksOf (trace : List (CallersEvent × List CallersMark)) : List CallersMark :=
  trace.flatMap Prod.snd

theorem CallersRun.marked {trace : List (CallersEvent × List CallersMark)} {sys : Callers}
    {listener : Fd} {foreign : Finset Fd} (hrun : CallersRun listener foreign trace sys) :
    ∃ p, Marked closed (fun _ => .idle) (marksOf trace) p ∧ Callers.Standings p sys ∧
      BinderRun (effects (marksOf trace)) sys.binder.database := by
  refine hrun.history (P := fun past sys => ∃ p, Marked closed (fun _ => .idle) (marksOf past) p ∧
    Callers.Standings p sys ∧ BinderRun (effects (marksOf past)) sys.binder.database)
    ⟨_, .nil _, .new listener foreign, .nil _⟩ ?_
  rintro past a e marks b - ⟨p, hp, hstandings, hdb⟩ hs
  obtain ⟨q, hq, hstandings', hdb'⟩ := hstandings.step hs
  rw [marksOf, List.flatMap_append, List.flatMap_singleton, effects_append]
  exact ⟨q, hp.append hq, hstandings', hdb.append hdb'⟩

end RpcLibrary
