import RpcLibrary.BinderRuns
import RpcLibrary.Rpc

/-! One server registering over its binder connection while others use the
binder: the binder's database and the server's own are kept in agreement. -/

namespace RpcLibrary

open Runs BinderDatabase

/-- The binder and the database of one server. -/
structure System where
  binder : BinderDatabase
  server : ServerDatabase

def System.new : System := ⟨.new, ∅⟩

inductive SystemRequest
  | register (name : Bytes) (argTypes : ArgTypes) (f : Skeleton)
  | other (request : BinderRequest)

inductive SystemAnswer
  | returned (status : Word)
  | replied (reply : Option RawMessage)

abbrev SystemEvent := SystemRequest × SystemAnswer

/-- The binder's main loop on a message of type `register`. -/
def BinderDatabase.receiveRegister (db : BinderDatabase) (raw : RawMessage) (client : SocketPtr) :
    Option (RawMessage × BinderDatabase) := do
  let message ← Register.deserialize raw
  db.handleRegister message client

/-- The server sits at `own` and is connected to the binder by `socket`. -/
def System.step (own : Address) (socket : SocketPtr) (sys : System) :
    SystemRequest → Option (SystemAnswer × System)
  | .register name argTypes f => do
    let request ← transmit (Register.serialize ⟨own.hostname, own.port, name, argTypes⟩)
    let (response, binder) ← sys.binder.receiveRegister request socket
    let (status, server) ← rpcRegister (some own) (fun _ => .answered response) name argTypes.words
      f sys.server
    some (.returned status, ⟨binder, server⟩)
  | .other request => do
    let (reply, binder) ← sys.binder.step request
    some (.replied reply, ⟨binder, sys.server⟩)

/-- The requests of servers at other addresses and of clients. -/
def Foreign (own : Address) (socket : SocketPtr) : SystemRequest → Prop
  | .register .. => True
  | .other (.register message _) => message.address ≠ own
  | .other (.locate _) => True
  | .other (.remove s) => s ≠ socket

def RegisteredOwn (f : Signature) (skeleton : Skeleton) (e : SystemEvent) : Prop :=
  ∃ name argTypes, e.1 = .register name argTypes skeleton ∧
    signatureOfArgTypes name argTypes = some f

theorem System.register_cases {own : Address} {socket : SocketPtr} {sys sys' : System}
    {name : Bytes} {argTypes : ArgTypes} {skeleton : Skeleton} {answer : SystemAnswer}
    (h : System.step own socket sys (.register name argTypes skeleton) = some (answer, sys')) :
    ∃ f reply, signatureOfArgTypes name argTypes = some f ∧
      StepCase sys.binder (.register ⟨own.hostname, own.port, name, argTypes⟩ socket) (some reply)
        sys'.binder ∧
      answer = .returned 0 ∧ sys'.server = sys.server.assign f skeleton := by
  obtain ⟨request, hrequest, h⟩ := Option.bind_eq_some_iff.mp h
  obtain ⟨⟨response, binder⟩, hresponse, h⟩ := Option.bind_eq_some_iff.mp h
  obtain ⟨⟨status, server⟩, hserver, h⟩ := Option.bind_eq_some_iff.mp h
  obtain ⟨rfl, rfl⟩ := Prod.mk.inj (Option.some.inj h)
  obtain ⟨rfl, hlen⟩ := transmit_eq_some hrequest
  rw [receiveRegister, Register.deserialize_serialize _ hlen, Option.bind_eq_bind,
    Option.bind_some] at hresponse
  have hstep : sys.binder.step (.register ⟨own.hostname, own.port, name, argTypes⟩ socket) =
      some (some response, binder) := by
    simp only [BinderDatabase.step, hresponse, Option.map_some]
  have hcase := step_cases hstep
  have htype : response.getMessageType = .registerSuccess ∧
      (signatureOfArgTypes name argTypes).isSome = true := by
    generalize hreply : some response = reply at hcase
    cases hcase with
    | known hf =>
      rw [Option.some.inj hreply]
      exact ⟨rfl, Option.isSome_iff_exists.mpr ⟨_, hf⟩⟩
    | added hf =>
      rw [Option.some.inj hreply]
      exact ⟨rfl, Option.isSome_iff_exists.mpr ⟨_, hf⟩⟩
  obtain ⟨f, hf⟩ := Option.isSome_iff_exists.mp htype.2
  simp only [rpcRegister, htype.1, ArgTypes.ofArray_words, hf, Option.bind_eq_bind,
    Option.bind_some, Option.some.injEq, Prod.mk.injEq] at hserver
  obtain ⟨rfl, rfl⟩ := hserver
  exact ⟨f, response, hf, hcase, rfl, rfl⟩

def OwnSockets (own : Address) (socket : SocketPtr) (db : BinderDatabase) : Prop :=
  ∀ f, ∀ x ∈ db.servers f, x.address = own → x.serverSocket = socket

theorem OwnSockets.registered {own : Address} {socket : SocketPtr} {db db' : BinderDatabase}
    {name : Bytes} {argTypes : ArgTypes} {f : Signature} {reply : Option RawMessage}
    (h : OwnSockets own socket db) (hf : signatureOfArgTypes name argTypes = some f)
    (hs : StepCase db (.register ⟨own.hostname, own.port, name, argTypes⟩ socket) reply db') :
    OwnSockets own socket db' ∧ ∀ g, (db'.servers g).contains own = true ↔
      g = f ∨ (db.servers g).contains own = true := by
  cases hs with
  | @known _ _ f' hf' hc =>
    obtain rfl := Option.some.inj (hf.symm.trans hf')
    refine ⟨h, fun g => ⟨.inr, ?_⟩⟩
    rintro (rfl | hg)
    · exact hc
    · exact hg
  | @added _ _ f' hf' hc =>
    obtain rfl := Option.some.inj (hf.symm.trans hf')
    constructor
    · intro g x hx ha
      rcases mem_servers_added.mp hx with hx | ⟨rfl, -⟩
      · exact h g x hx ha
      · rfl
    · intro g
      rw [contains_servers_added, or_comm]
      exact or_congr_left (and_iff_left rfl)

theorem OwnSockets.foreign {own : Address} {socket : SocketPtr} {db db' : BinderDatabase}
    {request : BinderRequest} {reply : Option RawMessage} (h : OwnSockets own socket db)
    (hforeign : Foreign own socket (.other request)) (hs : StepCase db request reply db') :
    OwnSockets own socket db' ∧ ∀ g, (db'.servers g).contains own = true ↔
      (db.servers g).contains own = true := by
  cases hs with
  | known => exact ⟨h, fun g => Iff.rfl⟩
  | @added message s f hf hc =>
    have hne : ServerData.address ⟨message.serverHostname, message.serverPort, s⟩ ≠ own := hforeign
    constructor
    · intro g x hx ha
      rcases mem_servers_added.mp hx with hx | ⟨rfl, -⟩
      · exact h g x hx ha
      · exact absurd ha hne
    · intro g
      rw [contains_servers_added]
      exact or_iff_left fun hg => hne hg.2
  | notFound => exact ⟨fun g => by simpa only [servers_pruned] using h g, by simp⟩
  | found => exact ⟨fun g => by simpa only [servers_touched] using h g, by simp⟩
  | @removed s =>
    have hne : s ≠ socket := hforeign
    constructor
    · intro g x hx ha
      exact h g x (mem_servers_removeIfServer.mp hx).1 ha
    · intro g
      constructor
      · intro hc
        obtain ⟨x, hx, rfl⟩ := OrderedSet.contains_iff.mp hc
        exact OrderedSet.contains_of_mem (mem_servers_removeIfServer.mp hx).1
      · intro hc
        obtain ⟨x, hx, hxa⟩ := OrderedSet.contains_iff.mp hc
        have hkept : x.serverSocket ≠ s := h g x hx hxa ▸ hne.symm
        exact hxa ▸ OrderedSet.contains_of_mem (mem_servers_removeIfServer.mpr ⟨hx, hkept⟩)

/-- The binder offers the server for exactly the signatures in the server's
database, which holds the skeleton registered last for each of them. -/
structure Agreement (own : Address) (socket : SocketPtr) (past : List SystemEvent) (sys : System) :
    Prop where
  sockets : OwnSockets own socket sys.binder
  offered : ∀ f, (sys.binder.servers f).contains own = true ↔ (sys.server.get? f).isSome = true
  last : ∀ f skeleton, sys.server.get? f = some skeleton ↔
    Since (RegisteredOwn f skeleton) (fun e => ∃ other, RegisteredOwn f other e) past

theorem Agreement.new (own : Address) (socket : SocketPtr) :
    Agreement own socket [] System.new where
  sockets f x hx := absurd hx (OrderedSet.not_mem_empty x)
  offered f := by simp [System.new, OrderedSet.contains]
  last f skeleton := by simp [System.new, not_since_nil]

theorem Agreement.step {own : Address} {socket : SocketPtr} {past : List SystemEvent}
    {sys sys' : System} {request : SystemRequest} {answer : SystemAnswer}
    (h : Agreement own socket past sys) (hforeign : Foreign own socket request)
    (hs : System.step own socket sys request = some (answer, sys')) :
    Agreement own socket (past ++ [(request, answer)]) sys' := by
  cases request with
  | register name argTypes skeleton =>
    obtain ⟨f, reply, hf, hcase, -, hserver⟩ := System.register_cases hs
    obtain ⟨hsockets, hoffered⟩ := h.sockets.registered hf hcase
    have hget (g : Signature) : sys'.server.get? g =
        if g = f then some skeleton else sys.server.get? g := by
      rw [hserver, OrderedMap.get?_assign, id, id]
    have howned (g : Signature) (other : Skeleton) :
        RegisteredOwn g other (.register name argTypes skeleton, answer) ↔
          g = f ∧ skeleton = other := by
      constructor
      · rintro ⟨name', argTypes', he, hg⟩
        obtain ⟨rfl, rfl, rfl⟩ := SystemRequest.register.inj he
        exact ⟨Option.some.inj (hg.symm.trans hf), rfl⟩
      · rintro ⟨rfl, rfl⟩
        exact ⟨name, argTypes, rfl, hf⟩
    refine ⟨hsockets, fun g => ?_, fun g other => ?_⟩
    · rw [hoffered, h.offered, hget]
      split_ifs with hgf
      · simp only [hgf, true_or, Option.isSome_some]
      · simp only [hgf, false_or]
    · rw [since_append_singleton, ← h.last, hget]
      simp only [howned]
      split_ifs with hgf
      · simp [hgf]
      · simp [hgf]
  | other request =>
    obtain ⟨⟨reply, binder⟩, hstep, h'⟩ := Option.bind_eq_some_iff.mp hs
    obtain ⟨rfl, rfl⟩ := Prod.mk.inj (Option.some.inj h')
    obtain ⟨hsockets, hoffered⟩ := h.sockets.foreign hforeign (step_cases hstep)
    have hother (g : Signature) (skeleton : Skeleton) :
        ¬ RegisteredOwn g skeleton (.other request, .replied reply) := by
      rintro ⟨_, _, he, -⟩
      cases he
    refine ⟨hsockets, fun g => (hoffered g).trans (h.offered g), fun g skeleton => ?_⟩
    rw [since_append_singleton, ← h.last]
    simp [hother]

theorem System.agreement {own : Address} {socket : SocketPtr} {trace : List SystemEvent}
    {sys : System} (hrun : Run (System.step own socket) System.new trace sys)
    (hforeign : ∀ e ∈ trace, Foreign own socket e.1) : Agreement own socket trace sys := by
  revert hforeign
  refine hrun.history (P := fun past sys => (∀ e ∈ past, Foreign own socket e.1) →
    Agreement own socket past sys) (fun _ => .new own socket) ?_
  intro past a request answer b _ ih hs hforeign
  obtain ⟨hpast, hlast⟩ := List.forall_mem_append.mp hforeign
  exact (ih hpast).step (hlast _ List.mem_cons_self) hs

/-- What a client is told and what it then finds: the address is located for the
signature of a call exactly when the server finds an entry for the call, and the
entry it finds is exactly the skeleton registered last. -/
theorem binder_and_server_agree {own : Address} {socket : SocketPtr} {trace : List SystemEvent}
    {sys : System} {name : Bytes} {argTypes : ArgTypes} {args : List Bytes}
    (hrun : Run (System.step own socket) System.new trace sys)
    (hforeign : ∀ e ∈ trace, Foreign own socket e.1)
    (hwords : ∀ w ∈ argTypes.words, WellFormedWord w) (hargs : Sized argTypes.words args)
    (hlen : (Execute.mk name argTypes args hargs).serialize.buffer.length < 2 ^ 31) :
    ∃ locate execute f found,
      LocateRequest.deserialize (LocateRequest.mk name argTypes).serialize = some locate ∧
      Execute.deserialize (Execute.mk name argTypes args hargs).serialize = some execute ∧
      locate.signature = some f ∧ findSkeleton execute sys.server = some found ∧
      ((sys.binder.servers f).contains own = true ↔ found.isSome = true) ∧
      ∀ skeleton, found = some skeleton ↔
        Since (RegisteredOwn f skeleton) (fun e => ∃ other, RegisteredOwn f other e) trace := by
  have hagreement := System.agreement hrun hforeign
  have hlocate : (LocateRequest.mk name argTypes).serialize.buffer.length < 2 ^ 31 := by
    simp only [Execute.serialize, LocateRequest.serialize, List.length_cons,
      List.length_append] at hlen ⊢
    omega
  have hsome : (signatureOfArgTypes name argTypes).isSome = true :=
    signatureOfArgTypes_isSome_iff.mpr hwords
  obtain ⟨f, hf⟩ := Option.isSome_iff_exists.mp hsome
  refine ⟨_, _, f, sys.server.get? f, LocateRequest.deserialize_serialize _ hlocate,
    Execute.deserialize_serialize _ hlen, hf, ?_, hagreement.offered f, hagreement.last f⟩
  rw [findSkeleton, hf, Option.map_some]

/-- Always returns 1. -/
def busySkeleton : Skeleton := fun argTypes args => some ⟨1, argTypes, args⟩

/-- A server registers one function twice, and another server registers it in between. -/
def sampleSystemTrace : List SystemEvent :=
  [(.register [102] (.ofArray []) idleSkeleton, .returned 0),
    (.other (.register (sampleRegister 102 81) 2), .replied (some (registered 0))),
    (.register [102] (.ofArray []) busySkeleton, .returned 0)]

/-- The binder offers the server, and a call finds the second skeleton there. -/
theorem binder_and_server_agree_sample :
    ∃ sys locate execute f,
      Run (System.step (sampleAddress 80) 1) System.new sampleSystemTrace sys ∧
      LocateRequest.deserialize (LocateRequest.mk [102] (.ofArray [])).serialize = some locate ∧
      Execute.deserialize (Execute.mk [102] (.ofArray []) [] .nil).serialize = some execute ∧
      locate.signature = some f ∧ (sys.binder.servers f).contains (sampleAddress 80) = true ∧
      findSkeleton execute sys.server = some (some busySkeleton) := by
  have hrun : Run (System.step (sampleAddress 80) 1) System.new sampleSystemTrace _ :=
    .cons rfl (.cons rfl (.single rfl))
  have hforeign : ∀ e ∈ sampleSystemTrace, Foreign (sampleAddress 80) 1 e.1 := by
    simp only [sampleSystemTrace, List.forall_mem_cons, Foreign, true_and, List.not_mem_nil,
      false_implies, implies_true, and_true]
    decide
  have hwords : ∀ w ∈ (ArgTypes.ofArray []).words, WellFormedWord w := by
    intro w hw
    cases hw
  have hlen : (Execute.mk [102] (.ofArray []) [] .nil).serialize.buffer.length < 2 ^ 31 :=
    show 10 < 2 ^ 31 by decide
  obtain ⟨locate, execute, f, found, hlocate, hexecute, hf, hfound, hoffered, hlast⟩ :=
    binder_and_server_agree hrun hforeign hwords .nil hlen
  have hsame : LocateRequest.deserialize (LocateRequest.mk [102] (.ofArray [])).serialize =
      some ⟨[102], .ofArray []⟩ := LocateRequest.deserialize_serialize _ (by decide)
  obtain rfl := Option.some.inj (hlocate.symm.trans hsame)
  obtain rfl : sampleSignature 102 = f := Option.some.inj hf
  obtain rfl : found = some busySkeleton :=
    (hlast busySkeleton).mpr ⟨[_, _], _, [], rfl, ⟨[102], .ofArray [], rfl, rfl⟩, by simp⟩
  exact ⟨_, _, _, _, hrun, hlocate, hexecute, hf, hoffered.mpr rfl, hfound⟩

end RpcLibrary
