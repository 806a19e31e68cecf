import RpcLibrary.RemoteTermination

/-! The library calls of one process, which share the globals of `rpc.cc`: which of
its registrations a server still stands for when it comes to serve. -/

namespace RpcLibrary

open Runs

/-- The globals, and all connections to the binder and all listeners that the
process has made: it never closes one. -/
structure Library where
  binder : Option SocketPtr
  localServer : Option Address
  database : ServerDatabase
  connections : List SocketPtr
  listeners : List Address

/-- A call, with the connection to the binder and the listener it comes to where it
asks for them, and what the others answer: sending and receiving can throw. -/
inductive LibraryCall
  | init (connect : Option SocketPtr) (create : Option Address)
  | register (name : Bytes) (argTypes : ArgTypes) (f : Skeleton)
      (answer : RawMessage → Option RawMessage)
  | execute (connect : Option SocketPtr)
  | call (connect : Option SocketPtr) (call : Call) (answer : RawMessage → Option RawMessage)
      (servers : Address → ServerExchange)
  | terminate (connect : Option SocketPtr) (answer : RawMessage → Option RawMessage)

inductive LibraryAnswer
  | returned (status : Word)
  | registered (status : Word) (sent : Option (SocketPtr × Register))
  /-- `serve` begins, with these arguments. -/
  | serves (database : ServerDatabase) (localServer : Address) (binder : SocketPtr)
  | called (outcome : CallOutcome)

abbrev LibraryEvent := LibraryCall × LibraryAnswer

namespace Library

def new : Library := ⟨none, none, ∅, [], []⟩

/-- A connection is not one that is still open. -/
def connectToBinder (l : Library) : Option SocketPtr → Option Library
  | none => some { l with binder := none }
  | some s =>
    if s ∈ l.connections then none
    else some { l with binder := some s, connections := s :: l.connections }

def createServerSocket (l : Library) : Option Address → Option Library
  | none => some { l with localServer := none }
  | some a =>
    if a ∈ l.listeners then none
    else some { l with localServer := some a, listeners := a :: l.listeners }

/-- The connection there is, else a new one. -/
def connected (l : Library) (connect : Option SocketPtr) : Option Library :=
  match l.binder with
  | some _ => some l
  | none => l.connectToBinder connect

def exchange (l : Library) (answer : RawMessage → Option RawMessage) (message : RawMessage) :
    BinderExchange :=
  match l.binder, answer message with
  | none, _ => .missing
  | some _, none => .failed
  | some _, some response => .answered response

/-- What `rpcRegister` sends, and over which connection. -/
def sent (l : Library) (name : Bytes) (argTypes : ArgTypes) : Option (SocketPtr × Register) := do
  let a ← l.localServer
  let s ← l.binder
  some (s, ⟨a.hostname, a.port, name, argTypes⟩)

/-- Without a listener, `rpcExecute` dereferences a null pointer. -/
def step (l : Library) : LibraryCall → Option (LibraryAnswer × Library)
  | .init connect create => do
    let l ← l.connectToBinder connect
    match l.binder with
    | none => some (.returned StatusCodes.binderConnectionError.toInt, l)
    | some _ => do
      let l ← l.createServerSocket create
      match l.localServer with
      | none => some (.returned StatusCodes.serverSocketCreationError.toInt, l)
      | some _ => some (.returned 0, l)
  | .register name argTypes f answer => do
    let (status, database) ←
      rpcRegister l.localServer (l.exchange answer) name argTypes.words f l.database
    some (.registered status (l.sent name argTypes), { l with database })
  | .execute connect => do
    let l ← l.connected connect
    match l.binder, l.localServer with
    | none, _ => some (.returned StatusCodes.binderConnectionError.toInt, l)
    | some s, some a => some (.serves l.database a s, l)
    | some _, none => none
  | .call connect call answer servers => do
    let l ← l.connected connect
    let outcome ← rpcCall (l.exchange answer) servers call.name call.argTypes.words call.args
    some (.called outcome, l)
  | .terminate connect answer => do
    let l ← l.connected connect
    let status ← rpcTerminate (l.exchange answer)
    some (.returned status, l)

/-- What the calls do to the globals. -/
inductive StepCase (l : Library) : LibraryCall → LibraryAnswer → Library → Prop
  | unconnected {create : Option Address} {status : Word} :
      StepCase l (.init none create) (.returned status) { l with binder := none }
  | unheard {s : SocketPtr} {status : Word} (hs : s ∉ l.connections) :
      StepCase l (.init (some s) none) (.returned status)
        { l with binder := some s, localServer := none, connections := s :: l.connections }
  | initialised {s : SocketPtr} {a : Address} {status : Word} (hs : s ∉ l.connections)
      (ha : a ∉ l.listeners) :
      StepCase l (.init (some s) (some a)) (.returned status)
        { l with
          binder := some s
          localServer := some a
          connections := s :: l.connections
          listeners := a :: l.listeners }
  | registered {name : Bytes} {argTypes : ArgTypes} {f : Skeleton}
      {answer : RawMessage → Option RawMessage} {status : Word} {database : ServerDatabase}
      (h : rpcRegister l.localServer (l.exchange answer) name argTypes.words f l.database =
        some (status, database)) :
      StepCase l (.register name argTypes f answer) (.registered status (l.sent name argTypes))
        { l with database }
  | connects {call : LibraryCall} {answer : LibraryAnswer} {connect : Option SocketPtr}
      {l' : Library} (h : l.connected connect = some l') (hinit : ∀ c a, call ≠ .init c a)
      (hregister : ∀ n t f x, call ≠ .register n t f x)
      (hanswer : ∀ status sent, answer ≠ .registered status sent) : StepCase l call answer l'

theorem connectToBinder_some {l l' : Library} {s : SocketPtr}
    (h : l.connectToBinder (some s) = some l') : s ∉ l.connections ∧
      l' = { l with binder := some s, connections := s :: l.connections } := by
  obtain ⟨hs, h⟩ := Option.ite_none_left_eq_some.mp h
  exact ⟨hs, (Option.some.inj h).symm⟩

theorem createServerSocket_some {l l' : Library} {a : Address}
    (h : l.createServerSocket (some a) = some l') : a ∉ l.listeners ∧
      l' = { l with localServer := some a, listeners := a :: l.listeners } := by
  obtain ⟨ha, h⟩ := Option.ite_none_left_eq_some.mp h
  exact ⟨ha, (Option.some.inj h).symm⟩

theorem connected_cases {l l' : Library} {connect : Option SocketPtr}
    (h : l.connected connect = some l') : l' = l ∨ ∃ s, l.binder = none ∧ s ∉ l.connections ∧
      l' = { l with binder := some s, connections := s :: l.connections } := by
  rw [connected] at h
  cases hb : l.binder with
  | some s =>
    rw [hb] at h
    exact .inl (Option.some.inj h).symm
  | none =>
    rw [hb] at h
    cases connect with
    | none =>
      refine .inl ((Option.some.inj h).symm.trans ?_)
      rw [← hb]
    | some s =>
      obtain ⟨hs, rfl⟩ := connectToBinder_some h
      exact .inr ⟨s, rfl, hs, rfl⟩

theorem step_cases {l l' : Library} {call : LibraryCall} {answer : LibraryAnswer}
    (h : l.step call = some (answer, l')) : StepCase l call answer l' := by
  cases call with
  | init connect create =>
    obtain ⟨l₁, hconnect, h⟩ := Option.bind_eq_some_iff.mp h
    cases connect with
    | none =>
      obtain rfl := Option.some.inj hconnect
      obtain ⟨rfl, rfl⟩ := Prod.mk.inj (Option.some.inj h)
      exact .unconnected
    | some s =>
      obtain ⟨hs, rfl⟩ := connectToBinder_some hconnect
      obtain ⟨l₂, hcreate, h⟩ := Option.bind_eq_some_iff.mp h
      cases create with
      | none =>
        obtain rfl := Option.some.inj hcreate
        obtain ⟨rfl, rfl⟩ := Prod.mk.inj (Option.some.inj h)
        exact .unheard hs
      | some a =>
        obtain ⟨ha, rfl⟩ := createServerSocket_some hcreate
        obtain ⟨rfl, rfl⟩ := Prod.mk.inj (Option.some.inj h)
        exact .initialised hs ha
  | register name argTypes f x =>
    obtain ⟨⟨status, database⟩, hregister, h⟩ := Option.bind_eq_some_iff.mp h
    obtain ⟨rfl, rfl⟩ := Prod.mk.inj (Option.some.inj h)
    exact .registered hregister
  | execute connect =>
    obtain ⟨l₁, hconnect, h⟩ := Option.bind_eq_some_iff.mp h
    split at h
    · obtain ⟨rfl, rfl⟩ := Prod.mk.inj (Option.some.inj h)
      exact .connects hconnect (by simp) (by simp) (by simp)
    · obtain ⟨rfl, rfl⟩ := Prod.mk.inj (Option.some.inj h)
      exact .connects hconnect (by simp) (by simp) (by simp)
    · cases h
  | call connect call x servers =>
    obtain ⟨l₁, hconnect, h⟩ := Option.bind_eq_some_iff.mp h
    obtain ⟨outcome, -, h⟩ := Option.bind_eq_some_iff.mp h
    obtain ⟨rfl, rfl⟩ := Prod.mk.inj (Option.some.inj h)
    exact .connects hconnect (by simp) (by simp) (by simp)
  | terminate connect x =>
    obtain ⟨l₁, hconnect, h⟩ := Option.bind_eq_some_iff.mp h
    obtain ⟨status, -, h⟩ := Option.bind_eq_some_iff.mp h
    obtain ⟨rfl, rfl⟩ := Prod.mk.inj (Option.some.inj h)
    exact .connects hconnect (by simp) (by simp) (by simp)

/-- A registration is sent over the connection and for the listener there are. -/
theorem sent_cases {l l' : Library} {call : LibraryCall} {status : Word} {s : SocketPtr}
    {message : Register} (h : l.step call = some (.registered status (some (s, message)), l')) :
    l'.binder = some s ∧ l'.localServer = some message.address := by
  generalize hanswer : LibraryAnswer.registered status (some (s, message)) = answer at h
  cases step_cases h with
  | unconnected => cases hanswer
  | unheard => cases hanswer
  | initialised => cases hanswer
  | registered =>
    obtain ⟨-, hsent⟩ := LibraryAnswer.registered.inj hanswer
    obtain ⟨a, ha, hsent⟩ := Option.bind_eq_some_iff.mp hsent.symm
    obtain ⟨s', hs, hsent⟩ := Option.bind_eq_some_iff.mp hsent
    obtain ⟨rfl, rfl⟩ := Prod.mk.inj (Option.some.inj hsent)
    exact ⟨hs, ha⟩
  | connects _ _ _ hne => exact absurd hanswer.symm (hne _ _)

theorem serves_cases {l l' : Library} {connect : Option SocketPtr} {database : ServerDatabase}
    {a : Address} {b : SocketPtr}
    (h : l.step (.execute connect) = some (.serves database a b, l')) :
    database = l.database ∧ l.localServer = some a ∧
      (l.binder = some b ∨ l.binder = none ∧ b ∉ l.connections) := by
  obtain ⟨l₁, hconnect, h⟩ := Option.bind_eq_some_iff.mp h
  split at h
  · cases (Prod.mk.inj (Option.some.inj h)).1
  · rename_i s a' hb ha
    obtain ⟨rfl, rfl, rfl⟩ := LibraryAnswer.serves.inj (Prod.mk.inj (Option.some.inj h)).1
    rcases connected_cases hconnect with rfl | ⟨s', hnone, hs', rfl⟩
    · exact ⟨rfl, ha, .inl hb⟩
    · exact ⟨rfl, ha, .inr ⟨hnone, Option.some.inj hb ▸ hs'⟩⟩
  · cases h

theorem isSome_execute {l : Library} {connect : Option SocketPtr}
    (hnew : ∀ s, connect = some s → s ∉ l.connections) :
    (l.step (.execute connect)).isSome = true ↔
      l.binder.or connect = none ∨ l.localServer.isSome = true := by
  cases hb : l.binder with
  | some s => cases ha : l.localServer <;> simp [step, connected, hb, ha]
  | none =>
    cases connect with
    | none => simp [step, connected, hb, connectToBinder]
    | some s => cases ha : l.localServer <;> simp [step, connected, hb, connectToBinder, hnew, ha]

end Library

def LibraryCall.Inits (call : LibraryCall) : Prop := ∃ connect create, call = .init connect create

/-- An `rpcInit` that gets a connection to the binder. -/
def LibraryCall.Reconnects (call : LibraryCall) : Prop := ∃ s create, call = .init (some s) create

def LibraryCall.Listens (call : LibraryCall) : Prop := ∃ s a, call = .init (some s) (some a)

def SentRegister (s : SocketPtr) (message : Register) (e : LibraryEvent) : Prop :=
  ∃ status, e.2 = .registered status (some (s, message))

/-- The binder answers the registration of the skeleton with a success. -/
def Acknowledges (f : Signature) (skeleton : Skeleton) (e : LibraryEvent) : Prop :=
  ∃ name argTypes answer status s message response,
    e = (.register name argTypes skeleton answer, .registered status (some (s, message))) ∧
    message.signature = some f ∧ answer message.serialize = some response ∧
    response.getMessageType = .registerSuccess

/-- The globals are among what the process has made. -/
structure Library.Sound (l : Library) : Prop where
  binder : ∀ s, l.binder = some s → s ∈ l.connections
  localServer : ∀ a, l.localServer = some a → a ∈ l.listeners

theorem Library.Sound.step {l l' : Library} {call : LibraryCall} {answer : LibraryAnswer}
    (h : l.Sound) (hs : l.step call = some (answer, l')) : l'.Sound := by
  cases Library.step_cases hs with
  | unconnected => exact ⟨nofun, h.localServer⟩
  | unheard => exact ⟨fun s hb => Option.some.inj hb ▸ List.mem_cons_self, nofun⟩
  | initialised =>
    exact ⟨fun s hb => Option.some.inj hb ▸ List.mem_cons_self,
      fun a ha => Option.some.inj ha ▸ List.mem_cons_self⟩
  | registered => exact ⟨h.binder, h.localServer⟩
  | connects hconnect =>
    rcases Library.connected_cases hconnect with rfl | ⟨s, -, -, rfl⟩
    · exact h
    · exact ⟨fun s hb => Option.some.inj hb ▸ List.mem_cons_self, h.localServer⟩

theorem Library.sound {past : List LibraryEvent} {l : Library}
    (hrun : Run Library.step .new past l) : l.Sound :=
  hrun.history (P := fun _ l => l.Sound) ⟨nofun, nofun⟩
    fun _ _ _ _ _ _ h hs => h.step hs

/-- Where the process stands with the connection and the listener of a registration
it has sent: the calls since tell whether they are still the ones it uses. -/
structure Library.Standing (s : SocketPtr) (a : Address) (since : List LibraryEvent)
    (l : Library) : Prop where
  connection : s ∈ l.connections
  listener : a ∈ l.listeners
  binder : l.binder = some s ↔ ∀ x ∈ since, ¬ x.1.Inits
  localServer : l.localServer = some a ↔ ∀ x ∈ since, ¬ x.1.Reconnects

theorem holds_since {P : LibraryEvent → Prop} {Q Q' : Prop} {since : List LibraryEvent}
    {e : LibraryEvent} (h : Q ↔ ∀ x ∈ since, P x) (he : Q' ↔ Q ∧ P e) :
    Q' ↔ ∀ x ∈ since ++ [e], P x := by
  rw [he, h, List.forall_mem_append, List.forall_mem_singleton]

theorem Library.Standing.step {s : SocketPtr} {a : Address} {since : List LibraryEvent}
    {l l' : Library} {call : LibraryCall} {answer : LibraryAnswer} (h : l.Standing s a since)
    (hs : l.step call = some (answer, l')) : l'.Standing s a (since ++ [(call, answer)]) := by
  cases Library.step_cases hs with
  | unconnected =>
    exact ⟨h.connection, h.listener, holds_since h.binder (by simp [LibraryCall.Inits]),
      holds_since h.localServer (by simp [LibraryCall.Reconnects])⟩
  | @unheard s' _ hs' =>
    have hne : s' ≠ s := fun he => hs' (he ▸ h.connection)
    exact ⟨List.mem_cons_of_mem _ h.connection, h.listener,
      holds_since h.binder (by simp [LibraryCall.Inits, hne]),
      holds_since h.localServer (by simp [LibraryCall.Reconnects])⟩
  | @initialised s' a' _ hs' ha' =>
    have hne : s' ≠ s := fun he => hs' (he ▸ h.connection)
    have hne' : a' ≠ a := fun he => ha' (he ▸ h.listener)
    exact ⟨List.mem_cons_of_mem _ h.connection, List.mem_cons_of_mem _ h.listener,
      holds_since h.binder (by simp [LibraryCall.Inits, hne]),
      holds_since h.localServer (by simp [LibraryCall.Reconnects, hne'])⟩
  | registered =>
    exact ⟨h.connection, h.listener, holds_since h.binder (by simp [LibraryCall.Inits]),
      holds_since h.localServer (by simp [LibraryCall.Reconnects])⟩
  | connects hconnect hinit =>
    have hinits : ¬ call.Inits := fun ⟨c, a, he⟩ => hinit c a he
    have hreconnects : ¬ call.Reconnects := fun ⟨s, a, he⟩ => hinit (some s) a he
    rcases Library.connected_cases hconnect with rfl | ⟨s', hnone, hs', rfl⟩
    · exact ⟨h.connection, h.listener, holds_since h.binder (by simp [hinits]),
        holds_since h.localServer (by simp [hreconnects])⟩
    · have hne : s' ≠ s := fun he => hs' (he ▸ h.connection)
      exact ⟨List.mem_cons_of_mem _ h.connection, h.listener,
        holds_since h.binder (by simp [hnone, hne]),
        holds_since h.localServer (by simp [hreconnects])⟩

/-- There is a listener when the last `rpcInit` to connect got one. -/
theorem Library.localServer_isSome_iff {past : List LibraryEvent} {l : Library}
    (hrun : Run Library.step .new past l) : l.localServer.isSome = true ↔
      Since (fun e => e.1.Listens) (fun e => e.1.Reconnects) past := by
  refine hrun.history (P := fun past l => l.localServer.isSome = true ↔
    Since (fun e => e.1.Listens) (fun e => e.1.Reconnects) past) ?_ ?_
  · simp [Library.new, not_since_nil]
  · intro past l call answer l' _ ih hs
    rw [since_append_singleton, ← ih]
    cases Library.step_cases hs with
    | unconnected => simp [LibraryCall.Listens, LibraryCall.Reconnects]
    | unheard => simp [LibraryCall.Listens, LibraryCall.Reconnects]
    | initialised => simp [LibraryCall.Listens]
    | registered => simp [LibraryCall.Listens, LibraryCall.Reconnects]
    | connects hconnect hinit =>
      have hlistens : ¬ call.Listens := fun ⟨s, a, he⟩ => hinit (some s) (some a) he
      have hreconnects : ¬ call.Reconnects := fun ⟨s, a, he⟩ => hinit (some s) a he
      rcases Library.connected_cases hconnect with rfl | ⟨s', -, -, rfl⟩
      · simp [hlistens, hreconnects]
      · simp [hlistens, hreconnects]

theorem Library.not_acknowledges_of_unsent {l : Library} {name : Bytes} {argTypes : ArgTypes}
    {f g : Skeleton} {answer : RawMessage → Option RawMessage} {status : Word}
    {signature : Signature} (h : l.sent name argTypes = none) : ¬ Acknowledges signature g
      (.register name argTypes f answer, .registered status (l.sent name argTypes)) := by
  rintro ⟨_, _, _, _, s, message, response, he, -⟩
  obtain ⟨-, hsent⟩ := LibraryAnswer.registered.inj (Prod.mk.inj he).2
  rw [h] at hsent
  cases hsent

theorem Library.acknowledges_iff_of_sent {l : Library} {name : Bytes} {argTypes : ArgTypes}
    {f g : Skeleton} {answer : RawMessage → Option RawMessage} {status : Word}
    {signature : Signature} {s : SocketPtr} {message : Register}
    (h : l.sent name argTypes = some (s, message)) : Acknowledges signature g
      (.register name argTypes f answer, .registered status (l.sent name argTypes)) ↔
    f = g ∧ message.signature = some signature ∧ ∃ response,
      answer message.serialize = some response ∧ response.getMessageType = .registerSuccess := by
  constructor
  · rintro ⟨_, _, _, _, s', message', response, he, hf, hanswer, htype⟩
    obtain ⟨hcall, hsent⟩ := Prod.mk.inj he
    obtain ⟨rfl, rfl, rfl, rfl⟩ := LibraryCall.register.inj hcall
    obtain ⟨-, hsent⟩ := LibraryAnswer.registered.inj hsent
    obtain ⟨rfl, rfl⟩ := Prod.mk.inj (Option.some.inj (h.symm.trans hsent))
    exact ⟨rfl, hf, response, hanswer, htype⟩
  · rintro ⟨rfl, hf, response, hanswer, htype⟩
    exact ⟨_, _, _, _, s, message, response, by rw [h], hf, hanswer, htype⟩

/-- A registration changes the database where it is acknowledged and only there. -/
theorem Library.register_cases {l : Library} {name : Bytes} {argTypes : ArgTypes} {f : Skeleton}
    {answer : RawMessage → Option RawMessage} {status : Word} {database : ServerDatabase}
    (h : rpcRegister l.localServer (l.exchange answer) name argTypes.words f l.database =
      some (status, database)) :
    (∃ signature, database = l.database.assign signature f ∧
      ∀ signature' g, Acknowledges signature' g
        (.register name argTypes f answer, .registered status (l.sent name argTypes)) ↔
          signature' = signature ∧ g = f) ∨
    database = l.database ∧ ∀ signature g, ¬ Acknowledges signature g
      (.register name argTypes f answer, .registered status (l.sent name argTypes)) := by
  cases ha : l.localServer with
  | none =>
    have hunsent : l.sent name argTypes = none := by rw [sent, ha]; rfl
    rw [ha] at h
    exact .inr ⟨(Prod.mk.inj (Option.some.inj h)).2.symm,
      fun _ _ => not_acknowledges_of_unsent hunsent⟩
  | some a =>
    cases hb : l.binder with
    | none =>
      have hunsent : l.sent name argTypes = none := by rw [sent, ha, hb]; rfl
      simp only [ha, rpcRegister, exchange, hb] at h
      exact .inr ⟨(Prod.mk.inj (Option.some.inj h)).2.symm,
        fun _ _ => not_acknowledges_of_unsent hunsent⟩
    | some s =>
      have hsent : l.sent name argTypes =
          some (s, ⟨a.hostname, a.port, name, argTypes⟩) := by rw [sent, ha, hb]; rfl
      have hack (signature : Signature) (g : Skeleton) :=
        @acknowledges_iff_of_sent l name argTypes f g answer status signature _ _ hsent
      simp only [hack]
      simp only [ha, hb, rpcRegister, exchange, ArgTypes.ofArray_words] at h
      cases hx : answer (Register.serialize ⟨a.hostname, a.port, name, argTypes⟩) with
      | none =>
        rw [hx] at h
        exact .inr ⟨(Prod.mk.inj (Option.some.inj h)).2.symm, by simp⟩
      | some response =>
        rw [hx] at h
        by_cases htype : response.getMessageType = .registerSuccess
        · simp only [htype] at h
          obtain ⟨signature, hf, h⟩ := Option.bind_eq_some_iff.mp h
          refine .inl ⟨signature, (Prod.mk.inj (Option.some.inj h)).2.symm,
            fun signature' g => ⟨?_, ?_⟩⟩
          · rintro ⟨hg, hf', -⟩
            exact ⟨Option.some.inj (hf'.symm.trans hf), hg.symm⟩
          · rintro ⟨rfl, rfl⟩
            exact ⟨rfl, hf, response, rfl, htype⟩
        · have hdatabase : database = l.database := by
            dsimp only at h
            split at h
            · exact absurd ‹_› htype
            · obtain ⟨message, -, h⟩ := Option.bind_eq_some_iff.mp h
              exact (Prod.mk.inj (Option.some.inj h)).2.symm
            · exact (Prod.mk.inj (Option.some.inj h)).2.symm
          refine .inr ⟨hdatabase, ?_⟩
          rintro signature g ⟨-, -, response', hanswer, htype'⟩
          exact htype (Option.some.inj hanswer ▸ htype')

/-- The database holds the skeleton acknowledged last for each signature, whatever
became of the connection and the listener. -/
theorem Library.database_iff {past : List LibraryEvent} {l : Library}
    (hrun : Run Library.step .new past l) (f : Signature) (g : Skeleton) :
    l.database.get? f = some g ↔
      Since (Acknowledges f g) (fun e => ∃ other, Acknowledges f other e) past := by
  refine hrun.history (P := fun past l => l.database.get? f = some g ↔
    Since (Acknowledges f g) (fun e => ∃ other, Acknowledges f other e) past) ?_ ?_
  · simp [Library.new, not_since_nil]
  · intro past l call answer l' _ ih hs
    rw [since_append_singleton, ← ih]
    have hother (hcall : ∀ n t f x, call ≠ .register n t f x) (other : Skeleton) :
        ¬ Acknowledges f other (call, answer) := by
      rintro ⟨name, argTypes, x, status, s, message, response, he, -⟩
      exact hcall _ _ _ _ (Prod.mk.inj he).1
    cases Library.step_cases hs with
    | unconnected => simp [hother]
    | unheard => simp [hother]
    | initialised => simp [hother]
    | registered h =>
      rcases Library.register_cases h with ⟨signature, rfl, hack⟩ | ⟨rfl, hack⟩
      · simp only [hack, OrderedMap.get?_assign, id]
        split_ifs with hf
        · simp [hf, eq_comm]
        · simp [hf]
      · simp [hack]
    | connects hconnect _ hregister =>
      rcases Library.connected_cases hconnect with rfl | ⟨s', -, -, rfl⟩
      · simp [hother hregister]
      · simp [hother hregister]

/-- A process that serves runs for each signature the skeleton acknowledged last.
Clients come to the address of a registration unless `rpcInit` connected again since,
and the binder's request to terminate comes over its connection unless `rpcInit` was
called at all. There is a listener to serve at where the last `rpcInit` to connect
got one, and else a null pointer. -/
theorem execute_serves_registered {past : List LibraryEvent} {l : Library}
    (hrun : Run Library.step .new past l) :
    (∀ connect, (∀ s, connect = some s → s ∉ l.connections) →
      ((l.step (.execute connect)).isSome = true ↔ l.binder.or connect = none ∨
        Since (fun e => e.1.Listens) (fun e => e.1.Reconnects) past)) ∧
    ∀ connect database a b l', l.step (.execute connect) = some (.serves database a b, l') →
      (∀ f g, database.get? f = some g ↔
        Since (Acknowledges f g) (fun e => ∃ other, Acknowledges f other e) past) ∧
      ∀ before e after s message, past = before ++ e :: after → SentRegister s message e →
        (message.address = a ↔ ∀ x ∈ after, ¬ x.1.Reconnects) ∧
        (s = b ↔ ∀ x ∈ after, ¬ x.1.Inits) := by
  constructor
  · intro connect hnew
    rw [Library.isSome_execute hnew, Library.localServer_isSome_iff hrun]
  · intro connect database a b l' hs
    obtain ⟨rfl, ha, hb⟩ := Library.serves_cases hs
    refine ⟨Library.database_iff hrun, ?_⟩
    rintro before ⟨call, answer⟩ after s message rfl ⟨status, rfl⟩
    obtain ⟨l₀, hbefore, hrest⟩ := hrun.split
    cases hrest with
    | cons hsend hafter =>
      obtain ⟨hs₁, ha₁⟩ := Library.sent_cases hsend
      have hsound := (Library.sound hbefore).step hsend
      have h := hafter.history (P := fun since l => l.Standing s message.address since)
        ⟨hsound.binder s hs₁, hsound.localServer _ ha₁, by simp [hs₁], by simp [ha₁]⟩
        fun _ _ _ _ _ _ h hs => h.step hs
      constructor
      · rw [← h.localServer, ha, Option.some.injEq, eq_comm]
      · rw [← h.binder]
        rcases hb with hb | ⟨hnone, hnew⟩
        · rw [hb, Option.some.injEq, eq_comm]
        · have hne : s ≠ b := fun he => hnew (he ▸ h.connection)
          simp [hnone, hne]

/-- A server that calls `rpcInit` once more when the binder does not answer. -/
def sampleLibraryTrace : List LibraryEvent :=
  [(.init (some 1) (some (sampleAddress 80)), .returned 0),
    (.register [102] (.ofArray []) idleSkeleton fun _ => some (registered 0),
      .registered 0 (some (1, sampleRegister 102 80))),
    (.init none none, .returned StatusCodes.binderConnectionError.toInt)]

/-- Its clients find it, and the binder's request to terminate does not. -/
theorem execute_serves_registered_sample :
    ∃ l database l', Run Library.step .new sampleLibraryTrace l ∧
      l.step (.execute (some 2)) = some (.serves database (sampleAddress 80) 2, l') ∧
      database.get? (sampleSignature 102) = some idleSkeleton := by
  have hrun : Run Library.step .new sampleLibraryTrace _ :=
    .cons rfl (.cons rfl (.cons rfl (.nil _)))
  obtain ⟨hdatabase, -⟩ := (execute_serves_registered hrun).2 (some 2) _ _ _ _ rfl
  refine ⟨_, _, _, hrun, rfl, (hdatabase (sampleSignature 102) idleSkeleton).mpr ?_⟩
  refine ⟨[_], _, [_], rfl, ⟨_, _, _, _, _, _, _, rfl, rfl, rfl, rfl⟩, ?_⟩
  rw [List.forall_mem_singleton]
  rintro ⟨_, _, _, _, _, _, _, _, he, -⟩
  cases he

end RpcLibrary
