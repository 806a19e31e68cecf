import RpcLibrary.RemoteCall

/-! A remote call answered by a server, in terms of the skeleton alone: what the
caller would have of running it on its own arguments. -/

namespace RpcLibrary

/-- What `rpcCall` is given, where the blocks have the sizes the words declare. -/
structure Call where
  name : Bytes
  argTypes : ArgTypes
  args : List Bytes
  sizes : Sized argTypes.words args

def Call.signature (call : Call) : Option Signature := signatureOfArgTypes call.name call.argTypes

def Call.message (call : Call) : Execute := ⟨call.name, call.argTypes, call.args, call.sizes⟩

/-- The skeleton returns 0 only with the argument types and the sizes of the
blocks as they were. -/
def Skeleton.InPlace (f : Skeleton) : Prop :=
  ∀ words args run, Sized words args → f words args = some run → run.ret = 0 →
    run.argTypes = words ∧ Sized words run.args

/-- A status as it arrives in a status message. -/
def received (status : Word) : Word := (status.setWidth 8).signExtend 32

/-- The call where it finds this skeleton, or none. -/
def Call.perform (call : Call) : Option Skeleton → Option CallOutcome
  | none => some ⟨.failed (received StatusCodes.unexpectedMessage.toInt) call.args, none⟩
  | some f => do
    let run ← f call.argTypes.words call.args
    let result :=
      if run.ret = 0 then
        ⟨0, copiesFrom 0 call.argTypes.words run.args,
          mergeOutputs call.argTypes.words run.args call.args⟩
      else .failed (received run.ret) call.args
    some ⟨result, some run⟩

/-- The call where its connection breaks after the server has run what it found. -/
def Call.performUnheard (call : Call) (f : Option Skeleton) : Option CallOutcome :=
  (call.perform f).map fun outcome =>
    ⟨.failed StatusCodes.serverConnectionError.toInt call.args, outcome.executed⟩

theorem rpcCall_of_located {binder : RawMessage → BinderExchange}
    {servers : Address → ServerExchange} {name : Bytes} {argTypes : List Word} {args : List Bytes}
    {address : Address} (h : locateServerFor binder name argTypes = some (.ok address)) :
    rpcCall binder servers name argTypes args =
      callServer (servers address) name argTypes args := by
  simp only [rpcCall, h, Option.bind_eq_bind, Option.bind_some]

theorem callServer_refused {name : Bytes} {argTypes : List Word} {args : List Bytes}
    {outcome : CallOutcome} (h : callServer .refused name argTypes args = some outcome) :
    outcome = ⟨.failed StatusCodes.serverConnectionError.toInt args, none⟩ :=
  (Option.some.inj h).symm

theorem callServer_failed {executed : Option SkeletonResult} {name : Bytes} {argTypes : List Word}
    {args : List Bytes} {outcome : CallOutcome}
    (h : callServer (.failed executed) name argTypes args = some outcome) :
    outcome = ⟨.failed StatusCodes.serverConnectionError.toInt args, executed⟩ := by
  obtain ⟨message, -, h⟩ := Option.bind_eq_some_iff.mp h
  exact (Option.some.inj h).symm

theorem serveExecute_cases {call : Call} {request : RawMessage} {database : ServerDatabase}
    {outcome : ExecuteOutcome} (hsent : transmit call.message.serialize = some request)
    (h : serveExecute request database = some outcome) :
    ∃ f, call.signature = some f ∧
      ((database.get? f = none ∧ outcome = ⟨none, unexpectedMessage.serialize⟩) ∨
        ∃ g run, database.get? f = some g ∧ g call.argTypes.words call.args = some run ∧
          respond call.message run = some outcome) := by
  obtain ⟨rfl, hlen⟩ := transmit_eq_some hsent
  rw [serveExecute_serialize hlen] at h
  obtain ⟨found, hfind, -⟩ := Option.bind_eq_some_iff.mp h
  obtain ⟨f, hf, rfl⟩ := Option.map_eq_some_iff.mp hfind
  refine ⟨f, hf, ?_⟩
  cases hget : database.get? f with
  | none =>
    rw [handleExecute_of_missing (hget ▸ hfind)] at h
    exact .inl ⟨rfl, (Option.some.inj h).symm⟩
  | some g =>
    rw [handleExecute_of_found (hget ▸ hfind)] at h
    obtain ⟨run, hrun, hrespond⟩ := Option.bind_eq_some_iff.mp h
    exact .inr ⟨g, run, rfl, hrun, hrespond⟩

/-- A call that a server answers, where its skeleton works in place, is the call
performed with the skeleton in the server's database. -/
theorem callServer_answered {call : Call} {database : ServerDatabase} {outcome : CallOutcome}
    (hskeletons : ∀ f g, database.get? f = some g → g.InPlace)
    (h : callServer (.answered database) call.name call.argTypes.words call.args = some outcome) :
    ∃ f, call.signature = some f ∧ call.perform (database.get? f) = some outcome := by
  obtain ⟨message, hmessage, h⟩ := Option.bind_eq_some_iff.mp h
  obtain ⟨request, hrequest, h⟩ := Option.bind_eq_some_iff.mp h
  obtain ⟨executed, hserve, h⟩ := Option.bind_eq_some_iff.mp h
  obtain ⟨response, hresponse, h⟩ := Option.bind_eq_some_iff.mp h
  obtain ⟨result, hfinish, h⟩ := Option.bind_eq_some_iff.mp h
  obtain rfl := Option.some.inj h
  obtain rfl : call.message = message :=
    Option.some.inj ((Execute.new_of_sized call.sizes).symm.trans hmessage)
  obtain ⟨rfl, hshort⟩ := transmit_eq_some hresponse
  obtain ⟨f, hf, ⟨hget, rfl⟩ | ⟨g, run, hget, hrun, hrespond⟩⟩ := serveExecute_cases hrequest hserve
  · obtain rfl := Option.some.inj ((finishCall_executeFailure _ _).symm.trans hfinish)
    exact ⟨f, hf, by rw [hget]; rfl⟩
  · refine ⟨f, hf, ?_⟩
    simp only [hget, Call.perform, hrun, Option.bind_eq_bind, Option.bind_some]
    by_cases hret : run.ret = 0
    · obtain ⟨htypes, hsized⟩ := hskeletons f g hget _ _ run call.sizes hrun hret
      rw [respond, if_neg (not_not_intro hret), htypes, Execute.new_of_sized hsized] at hrespond
      obtain rfl := Option.some.inj hrespond
      have hwrite := @writeBlocks_copiesFrom call.argTypes.words _ [] call.args hsized call.sizes
      obtain rfl := Option.some.inj ((finishCall_serialize hshort hwrite).symm.trans hfinish)
      rw [if_pos hret]
      rfl
    · rw [respond, if_pos hret] at hrespond
      obtain rfl := Option.some.inj hrespond
      obtain rfl := Option.some.inj ((finishCall_executeFailure _ _).symm.trans hfinish)
      rw [if_neg hret]
      rfl

/-- Where the connection breaks after the server has handled the request, the
call is the one performed there, and the caller hears nothing of it. -/
theorem callServer_unheard {call : Call} {request : RawMessage} {database : ServerDatabase}
    {executed : ExecuteOutcome} {outcome : CallOutcome}
    (hsent : transmit call.message.serialize = some request)
    (hserve : serveExecute request database = some executed)
    (h : callServer (.failed executed.executed) call.name call.argTypes.words call.args =
      some outcome) :
    ∃ f, call.signature = some f ∧ call.performUnheard (database.get? f) = some outcome := by
  obtain rfl := callServer_failed h
  obtain ⟨f, hf, ⟨hget, rfl⟩ | ⟨g, run, hget, hrun, hrespond⟩⟩ := serveExecute_cases hsent hserve
  · exact ⟨f, hf, by rw [hget]; rfl⟩
  · have hexecuted : executed.executed = some run := by
      rw [respond] at hrespond
      split_ifs at hrespond
      · rw [← Option.some.inj hrespond]
      · obtain ⟨success, -, rfl⟩ := Option.map_eq_some_iff.mp hrespond
        rfl
    refine ⟨f, hf, ?_⟩
    simp only [Call.performUnheard, hget, Call.perform, hrun, Option.bind_eq_bind, Option.bind_some,
      Option.map_some, hexecuted]

end RpcLibrary
