import RpcLibrary.AllOrNothing

/-! Where a response may write. The copy back takes directions and sizes from the
response, whose argument types a skeleton can have changed. -/

namespace RpcLibrary

/-- The copies that a response asks for, whether or not the blocks of the caller
have room for them. -/
def responseCopies (response : RawMessage) : Option (List (Nat × Bytes)) :=
  match response.getMessageType with
  | .execute => (Execute.deserialize response).map copyOutputArgumentsBack
  | _ => some []

def serverCopies (server : ServerExchange) (name : Bytes) (argTypes : List Word)
    (args : List Bytes) : Option (List (Nat × Bytes)) :=
  match server with
  | .refused => some []
  | .failed _ => (Execute.new name argTypes args).map fun _ => []
  | .answered database => do
    let message ← Execute.new name argTypes args
    let request ← transmit message.serialize
    let outcome ← serveExecute request database
    let response ← transmit outcome.response
    responseCopies response
  | .other response _ _ => do
    let _ ← Execute.new name argTypes args
    responseCopies response

/-- The `memcpy` calls of `rpcCall`, also where one of them would leave a block. -/
def callCopies (binder : RawMessage → BinderExchange) (servers : Address → ServerExchange)
    (name : Bytes) (argTypes : List Word) (args : List Bytes) : Option (List (Nat × Bytes)) := do
  match ← locateServerFor binder name argTypes with
  | .error _ => some []
  | .ok address => serverCopies (servers address) name argTypes args

theorem responseCopies_of_finishCall {response : RawMessage} {args : List Bytes}
    {result : CallResult} (h : finishCall response args = some result) :
    responseCopies response = some result.copies := by
  rw [finishCall] at h
  rw [responseCopies]
  split at h
  · obtain ⟨executeResult, hd, h⟩ := Option.bind_eq_some_iff.mp h
    obtain ⟨_, -, h⟩ := Option.bind_eq_some_iff.mp h
    obtain rfl := Option.some.inj h
    simp only [‹response.getMessageType = .execute›, hd, Option.map_some]
  · obtain ⟨failure, -, h⟩ := Option.bind_eq_some_iff.mp h
    obtain rfl := Option.some.inj h
    simp only [‹response.getMessageType = .executeFailure›, CallResult.failed]
  · obtain rfl := Option.some.inj h
    split
    · exact absurd ‹_› ‹_›
    · rfl

theorem serverCopies_of_callServer {server : ServerExchange} {name : Bytes} {argTypes : List Word}
    {args : List Bytes} {outcome : CallOutcome}
    (h : callServer server name argTypes args = some outcome) :
    serverCopies server name argTypes args = some outcome.result.copies := by
  cases server with
  | refused =>
    obtain rfl := Option.some.inj h
    rfl
  | failed executed =>
    obtain ⟨message, hm, h⟩ := Option.bind_eq_some_iff.mp h
    obtain rfl := Option.some.inj h
    rw [serverCopies, hm]
    rfl
  | answered database =>
    obtain ⟨message, hm, h⟩ := Option.bind_eq_some_iff.mp h
    obtain ⟨request, hrequest, h⟩ := Option.bind_eq_some_iff.mp h
    obtain ⟨executed, hserve, h⟩ := Option.bind_eq_some_iff.mp h
    obtain ⟨response, hresponse, h⟩ := Option.bind_eq_some_iff.mp h
    obtain ⟨result, hfinish, h⟩ := Option.bind_eq_some_iff.mp h
    obtain rfl := Option.some.inj h
    simp only [serverCopies, Option.bind_eq_bind, hm, hrequest, hserve, hresponse, Option.bind_some,
      responseCopies_of_finishCall hfinish]
  | other response hexecute hfailure =>
    obtain ⟨message, hm, h⟩ := Option.bind_eq_some_iff.mp h
    obtain ⟨result, hfinish, h⟩ := Option.bind_eq_some_iff.mp h
    obtain rfl := Option.some.inj h
    simp only [serverCopies, Option.bind_eq_bind, hm, Option.bind_some,
      responseCopies_of_finishCall hfinish]

/-- Where a call is defined, these are the copies it made. -/
theorem callCopies_of_rpcCall {binder : RawMessage → BinderExchange}
    {servers : Address → ServerExchange} {name : Bytes} {argTypes : List Word} {args : List Bytes}
    {outcome : CallOutcome} (h : rpcCall binder servers name argTypes args = some outcome) :
    callCopies binder servers name argTypes args = some outcome.result.copies := by
  obtain ⟨located, hlocate, h⟩ := Option.bind_eq_some_iff.mp h
  rw [callCopies, hlocate]
  cases located with
  | error code =>
    obtain rfl := Option.some.inj h
    rfl
  | ok address => exact serverCopies_of_callServer h

/-- What the skeleton does whose answer a call receives. -/
def skeletonRun (server : ServerExchange) (message : Execute) : Option SkeletonResult :=
  match server with
  | .answered database =>
    match findSkeleton message database with
    | some (some f) => f message.argTypes.words message.args
    | _ => none
  | _ => none

/-- A request is answered for an unknown function, for a skeleton that returns an
error, or for one that succeeds. -/
theorem handleExecute_cases {database : ServerDatabase} {message : Execute}
    {outcome : ExecuteOutcome} (h : handleExecute message database = some outcome) :
    (skeletonRun (.answered database) message = none ∧
      outcome = ⟨none, unexpectedMessage.serialize⟩) ∨
    (∃ run, skeletonRun (.answered database) message = some run ∧ run.ret ≠ 0 ∧
      outcome = ⟨some run, StatusMessage.serialize (⟨run.ret⟩ : ExecuteFailure)⟩) ∨
    ∃ run success, skeletonRun (.answered database) message = some run ∧ run.ret = 0 ∧
      Execute.new message.functionName run.argTypes run.args = some success ∧
      outcome = ⟨some run, success.serialize⟩ := by
  cases hfind : findSkeleton message database with
  | none => simp [handleExecute, hfind] at h
  | some found =>
    simp only [skeletonRun, hfind]
    cases found with
    | none =>
      rw [handleExecute_of_missing hfind] at h
      exact .inl ⟨rfl, (Option.some.inj h).symm⟩
    | some f =>
      rw [handleExecute_of_found hfind] at h
      obtain ⟨run, hrun, h⟩ := Option.bind_eq_some_iff.mp h
      by_cases hret : run.ret = 0
      · rw [respond, if_neg (not_not_intro hret)] at h
        obtain ⟨success, hnew, houtcome⟩ := Option.map_eq_some_iff.mp h
        exact .inr (.inr ⟨run, success, hrun, hret, hnew, houtcome.symm⟩)
      · rw [respond, if_pos hret] at h
        exact .inr (.inl ⟨run, hrun, hret, (Option.some.inj h).symm⟩)

/-- The skeleton run of a call is that of the message made for it. -/
theorem forall_run_iff_of_new {server : ServerExchange} {name : Bytes} {argTypes : List Word}
    {args : List Bytes} {message : Execute} {P : SkeletonResult → Prop}
    (hmessage : Execute.new name argTypes args = some message) :
    (∀ run, skeletonRun server message = some run → P run) ↔
      ∀ message run, Execute.new name argTypes args = some message →
        skeletonRun server message = some run → P run := by
  constructor
  · intro h message' run hmessage' hrun
    obtain rfl := Option.some.inj (hmessage.symm.trans hmessage')
    exact h run hrun
  · intro h run hrun
    exact h message run hmessage hrun

theorem forall_run_iff_of_located {binder : RawMessage → BinderExchange}
    {servers : Address → ServerExchange} {name : Bytes} {argTypes : List Word} {args : List Bytes}
    {address : Address} {P : SkeletonResult → Prop}
    (hlocate : locateServerFor binder name argTypes = some (.ok address)) :
    (∀ message run, Execute.new name argTypes args = some message →
        skeletonRun (servers address) message = some run → P run) ↔
      ∀ address message run, locateServerFor binder name argTypes = some (.ok address) →
        Execute.new name argTypes args = some message →
        skeletonRun (servers address) message = some run → P run := by
  constructor
  · intro h address' message run hlocate' hmessage hrun
    obtain rfl := Except.ok.inj (Option.some.inj (hlocate.symm.trans hlocate'))
    exact h message run hmessage hrun
  · intro h message run hmessage hrun
    exact h address message run hlocate hmessage hrun

def WithinOutputs (argTypes : List Word) (copies : List (Nat × Bytes)) : Prop :=
  ∀ i bytes, (i, bytes) ∈ copies → ∃ argType, (ArgTypes.ofArray argTypes).words[i]? = some argType ∧
    isOutput argType = true ∧ bytes.length ≤ argBytes argType

def StaysWithin (argTypes : List Word) (run : SkeletonResult) : Prop :=
  ∀ (i : Nat) (left : Word), (ArgTypes.ofArray run.argTypes).words[i]? = some left →
    isOutput left = true → ∃ argType, (ArgTypes.ofArray argTypes).words[i]? = some argType ∧
      isOutput argType = true ∧ argBytes left ≤ argBytes argType

theorem withinOutputs_nil (argTypes : List Word) : WithinOutputs argTypes [] :=
  fun _ _ h => absurd h List.not_mem_nil

theorem withinOutputs_iff {name : Bytes} {argTypes : List Word} {run : SkeletonResult}
    {success : Execute} (h : Execute.new name run.argTypes run.args = some success) :
    WithinOutputs argTypes (copyOutputArgumentsBack success) ↔ StaysWithin argTypes run := by
  obtain ⟨copies, hcopies, rfl⟩ := Option.map_eq_some_iff.mp h
  constructor
  · intro hwithin i left hleft hout
    obtain ⟨arg, -, hlen, hsrc⟩ := copyBlocks_getElem? hcopies hleft
    have hmem : (i, (arg.take (argBytes left)).take (argBytes left)) ∈
        copiesFrom 0 (ArgTypes.ofArray run.argTypes).words copies.1 :=
      mem_copiesFrom.mpr ⟨i, left, _, by omega, hleft, hsrc, hout, rfl⟩
    obtain ⟨argType, hi, ho, hle⟩ := hwithin i _ hmem
    rw [List.length_take, List.length_take] at hle
    exact ⟨argType, hi, ho, by omega⟩
  · intro hstays i bytes hmem
    obtain ⟨i', left, src, hj, hleft, -, hout, rfl⟩ := mem_copiesFrom.mp hmem
    obtain rfl : i = i' := by omega
    obtain ⟨argType, hi, ho, hle⟩ := hstays i left hleft hout
    exact ⟨argType, hi, ho, (List.length_take_le ..).trans hle⟩

theorem answeredCopies_iff {argTypes : List Word} {database : ServerDatabase} {message : Execute}
    {outcome : ExecuteOutcome} {response : RawMessage} {copies : List (Nat × Bytes)}
    (hhandle : handleExecute message database = some outcome)
    (hsent : transmit outcome.response = some response)
    (hcopies : responseCopies response = some copies) :
    WithinOutputs argTypes copies ↔ ∀ run,
      skeletonRun (.answered database) message = some run → run.ret = 0 →
        StaysWithin argTypes run := by
  obtain ⟨rfl, hlen⟩ := transmit_eq_some hsent
  have hfailure (status : Word) :
      responseCopies (StatusMessage.serialize (⟨status⟩ : ExecuteFailure)) = some [] := rfl
  rcases handleExecute_cases hhandle with ⟨hrun, rfl⟩ | ⟨run, hrun, hret, rfl⟩ |
    ⟨run, success, hrun, hret, hnew, rfl⟩
  · obtain rfl := Option.some.inj ((hfailure _).symm.trans hcopies)
    simp only [hrun, reduceCtorEq, false_implies, implies_true, iff_true]
    exact withinOutputs_nil argTypes
  · obtain rfl := Option.some.inj ((hfailure _).symm.trans hcopies)
    simp only [hrun, Option.some.injEq, forall_eq']
    exact iff_of_true (withinOutputs_nil argTypes) fun h => absurd h hret
  · have ht : success.serialize.getMessageType = .execute := rfl
    simp only [responseCopies, ht, success.deserialize_serialize hlen, Option.map_some] at hcopies
    obtain rfl := Option.some.inj hcopies
    simp only [hrun, Option.some.injEq, forall_eq']
    rw [withinOutputs_iff hnew, forall_prop_of_true hret]

theorem serverCopies_iff {server : ServerExchange} {name : Bytes} {argTypes : List Word}
    {args : List Bytes} {copies : List (Nat × Bytes)}
    (h : serverCopies server name argTypes args = some copies) :
    WithinOutputs argTypes copies ↔ ∀ message run, Execute.new name argTypes args = some message →
      skeletonRun server message = some run → run.ret = 0 → StaysWithin argTypes run := by
  cases server with
  | refused =>
    obtain rfl := Option.some.inj h
    simp only [skeletonRun, reduceCtorEq, false_implies, implies_true, iff_true]
    exact withinOutputs_nil argTypes
  | failed executed =>
    obtain ⟨message, -, rfl⟩ := Option.map_eq_some_iff.mp h
    simp only [skeletonRun, reduceCtorEq, false_implies, implies_true, iff_true]
    exact withinOutputs_nil argTypes
  | other response hexecute hfailure =>
    obtain ⟨message, -, h⟩ := Option.bind_eq_some_iff.mp h
    simp only [skeletonRun, reduceCtorEq, false_implies, implies_true, iff_true]
    rw [responseCopies] at h
    split at h
    · exact absurd ‹_› hexecute
    · obtain rfl := Option.some.inj h
      exact withinOutputs_nil argTypes
  | answered database =>
    obtain ⟨message, hmessage, h⟩ := Option.bind_eq_some_iff.mp h
    obtain ⟨request, hrequest, h⟩ := Option.bind_eq_some_iff.mp h
    obtain ⟨executed, hserve, h⟩ := Option.bind_eq_some_iff.mp h
    obtain ⟨response, hresponse, hcopies⟩ := Option.bind_eq_some_iff.mp h
    obtain ⟨rfl, hlen⟩ := transmit_eq_some hrequest
    rw [serveExecute_serialize hlen] at hserve
    rw [answeredCopies_iff hserve hresponse hcopies, forall_run_iff_of_new hmessage]

/-- A call writes only to the caller's outputs and within their sizes exactly
when the skeleton whose answer it receives, if any, leaves no other and no larger outputs. -/
theorem copies_within_outputs_iff {binder : RawMessage → BinderExchange}
    {servers : Address → ServerExchange} {name : Bytes} {argTypes : List Word} {args : List Bytes}
    {copies : List (Nat × Bytes)}
    (hcall : callCopies binder servers name argTypes args = some copies) :
    WithinOutputs argTypes copies ↔
      ∀ address message run, locateServerFor binder name argTypes = some (.ok address) →
        Execute.new name argTypes args = some message →
        skeletonRun (servers address) message = some run → run.ret = 0 →
        StaysWithin argTypes run := by
  obtain ⟨located, hlocate, hcall⟩ := Option.bind_eq_some_iff.mp hcall
  cases located with
  | error code =>
    obtain rfl := Option.some.inj hcall
    simp only [hlocate, Option.some.injEq, reduceCtorEq, false_implies, implies_true, iff_true]
    exact withinOutputs_nil argTypes
  | ok address => rw [serverCopies_iff hcall, forall_run_iff_of_located hlocate]

theorem copies_within_outputs_sample : WithinOutputs sampleArgTypes.words [(0, [7])] := by
  have hcall : callCopies sampleBinder (sampleServers 0) [102] sampleArgTypes.words [[0], [9]] =
      some [(0, [7])] := by decide
  refine (copies_within_outputs_iff hcall).mpr fun address message run _ hmessage hrun _ => ?_
  rw [Execute.new_of_sized sized_sample] at hmessage
  obtain rfl := Option.some.inj hmessage
  have hskeleton : skeletonRun (sampleServers 0 address) ⟨[102], sampleArgTypes, [[0], [9]],
      sized_sample⟩ = some ⟨0, sampleArgTypes.words, [[7], [8]]⟩ := rfl
  obtain rfl := Option.some.inj (hskeleton.symm.trans hrun)
  exact fun i left hleft hout => ⟨left, hleft, hout, le_rfl⟩

/-- A server for a function of one scalar input, whose skeleton puts another
array in the place of the argument types. -/
def retypingServers (argTypes : List Word) (args : List Bytes) (_ : Address) : ServerExchange :=
  .answered (OrderedMap.assign ∅ ⟨[102], [⟨.scalar, .input, .char⟩]⟩ fun _ _ =>
    some ⟨0, argTypes, args⟩)

/-- The caller's only argument is an input, and the call writes to it: within its
block where the skeleton turns the input into an output, and past its end where
it makes the output longer as well. -/
theorem input_overwritten :
    (rpcCall sampleBinder (retypingServers [0x40010000] [[7]]) [102] [0x80010000] [[9]]).map
        CallOutcome.result = some ⟨0, [(0, [7])], [[7]]⟩ ∧
      callCopies sampleBinder (retypingServers [0x40010002] [[7, 8]]) [102] [0x80010000] [[9]] =
        some [(0, [7, 8])] ∧
      ¬ WithinOutputs [0x80010000] [(0, [7])] ∧ ¬ WithinOutputs [0x80010000] [(0, [7, 8])] := by
  have hnone : ∀ bytes, ¬ WithinOutputs [0x80010000] [(0, bytes)] := by
    intro bytes h
    obtain ⟨argType, hi, ho, -⟩ := h 0 bytes List.mem_cons_self
    obtain rfl : 0x80010000 = argType := Option.some.inj hi
    exact absurd ho (by decide)
  exact ⟨by decide, by decide, hnone _, hnone _⟩

end RpcLibrary
