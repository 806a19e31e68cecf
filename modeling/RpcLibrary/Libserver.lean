import RpcLibrary.ExecuteMessages
import RpcLibrary.OrderedMap

/-! The server's database of skeletons and the thread that serves one client
connection. -/

namespace RpcLibrary

structure SkeletonResult where
  ret : Word
  argTypes : List Word
  args : List Bytes
deriving DecidableEq

/-- A skeleton works on the message's own argument types and blocks. It can read or
write outside of them, and has no outcome then. -/
abbrev Skeleton := List Word → List Bytes → Option SkeletonResult

abbrev ServerDatabase := OrderedMap Signature Skeleton id

def findSkeleton (message : Execute) (database : ServerDatabase) : Option (Option Skeleton) :=
  (signatureOfArgTypes message.functionName message.argTypes).map database.get?

structure ExecuteOutcome where
  executed : Option SkeletonResult
  response : RawMessage

def unexpectedMessage : ExecuteFailure := ⟨StatusCodes.unexpectedMessage.toInt⟩

/-- `handleExecute` after the skeleton: a success is sent back as a message made
from the arrays the skeleton leaves. -/
def respond (message : Execute) (result : SkeletonResult) : Option ExecuteOutcome :=
  if result.ret ≠ 0 then
    some ⟨some result, StatusMessage.serialize (⟨result.ret⟩ : ExecuteFailure)⟩
  else
    (Execute.new message.functionName result.argTypes result.args).map fun success =>
      ⟨some result, success.serialize⟩

def handleExecute (message : Execute) (database : ServerDatabase) : Option ExecuteOutcome := do
  match ← findSkeleton message database with
  | none => some ⟨none, unexpectedMessage.serialize⟩
  | some f => do
    let result ← f message.argTypes.words message.args
    respond message result

theorem handleExecute_of_missing {message : Execute} {database : ServerDatabase}
    (h : findSkeleton message database = some none) :
    handleExecute message database = some ⟨none, unexpectedMessage.serialize⟩ := by
  simp only [handleExecute, h, Option.bind_eq_bind, Option.bind_some]

theorem handleExecute_of_found {message : Execute} {database : ServerDatabase} {f : Skeleton}
    (h : findSkeleton message database = some (some f)) :
    handleExecute message database =
      (f message.argTypes.words message.args).bind (respond message) := by
  simp only [handleExecute, h, Option.bind_eq_bind, Option.bind_some]

def serveExecute (request : RawMessage) (database : ServerDatabase) : Option ExecuteOutcome := do
  let message ← Execute.deserialize request
  handleExecute message database

inductive ServerAction
  /-- A skeleton is called while a received message is handled. -/
  | invoked (buffer : Bytes)
  | sent (buffer : Bytes)
deriving DecidableEq

/-- The loop over the messages received on one connection, up to a receive
error; `sendFails` says which of the sends fail, counted from `n` on. -/
def serveClientThread (database : ServerDatabase) (sendFails : Nat → Bool) :
    Nat → List Bytes → Option (List ServerAction)
  | _, [] => some []
  | n, buffer :: buffers =>
    let rawMessage : RawMessage := ⟨buffer⟩
    let unexpected := rawMessage.getMessageType ≠ .execute
    if unexpected ∧ sendFails n = true then some []
    else do
      -- the failure message is built as well, but what is sent is the request
      let echo := if unexpected then [.sent buffer] else []
      let outcome ← serveExecute rawMessage database
      let invocation := if outcome.executed.isSome then [.invoked buffer] else []
      let n := n + echo.length
      if sendFails n = true then some (echo ++ invocation)
      else do
        let rest ← serveClientThread database sendFails (n + 1) buffers
        some (echo ++ invocation ++ .sent outcome.response.getString :: rest)

def ServerAction.sent? : ServerAction → Option Bytes
  | sent buffer => some buffer
  | invoked _ => none

def intendedAnswer (database : ServerDatabase) (buffer : Bytes) : Option Bytes :=
  if (⟨buffer⟩ : RawMessage).getMessageType = .execute then
    (serveExecute ⟨buffer⟩ database).map fun outcome => outcome.response.getString
  else some unexpectedMessage.serialize.getString

/-- Without send errors, every message is answered once, in order, as intended,
and only messages of type `execute` run a skeleton. -/
def AnswersEach (database : ServerDatabase) (messages : List Bytes) : Prop :=
  ∃ actions, serveClientThread database (fun _ => false) 0 messages = some actions ∧
    (actions.filterMap ServerAction.sent?).map some = messages.map (intendedAnswer database) ∧
    ∀ buffer, .invoked buffer ∈ actions → (⟨buffer⟩ : RawMessage).getMessageType = .execute

/-- A message the thread can handle: it decodes, its signature is defined, the
skeleton has an outcome and what it leaves can be sent back. -/
def WellFormedExecute (database : ServerDatabase) (buffer : Bytes) : Prop :=
  (serveExecute ⟨buffer⟩ database).isSome = true

def roundActions (buffer : Bytes) (outcome : ExecuteOutcome) : List ServerAction :=
  (if (⟨buffer⟩ : RawMessage).getMessageType ≠ .execute then [.sent buffer] else []) ++
    (if outcome.executed.isSome then [.invoked buffer] else []) ++
      [.sent outcome.response.getString]

theorem serveClientThread_cons {database : ServerDatabase} {n : Nat} {buffer : Bytes}
    {buffers : List Bytes} {actions : List ServerAction}
    (h : serveClientThread database (fun _ => false) n (buffer :: buffers) = some actions) :
    ∃ outcome m rest, serveExecute ⟨buffer⟩ database = some outcome ∧
      serveClientThread database (fun _ => false) m buffers = some rest ∧
      actions = roundActions buffer outcome ++ rest := by
  simp only [serveClientThread, Bool.false_eq_true, and_false, if_false, Option.bind_eq_bind,
    Option.bind_eq_some_iff] at h
  obtain ⟨outcome, ho, rest, hr, ha⟩ := h
  refine ⟨outcome, _, rest, ho, hr, ?_⟩
  rw [← Option.some.inj ha, roundActions, List.append_assoc _ _ rest]
  rfl

theorem sent_roundActions (buffer : Bytes) (outcome : ExecuteOutcome) :
    (roundActions buffer outcome).filterMap ServerAction.sent? =
      (if (⟨buffer⟩ : RawMessage).getMessageType ≠ .execute then [buffer] else []) ++
        [outcome.response.getString] := by
  rw [roundActions, List.filterMap_append, List.filterMap_append]
  split_ifs <;> rfl

theorem eq_of_invoked {buffer trigger : Bytes} {outcome : ExecuteOutcome}
    (h : .invoked trigger ∈ roundActions buffer outcome) : trigger = buffer := by
  simp only [roundActions, List.mem_append, List.mem_singleton, reduceCtorEq, or_false] at h
  rcases h with h | h
  · split_ifs at h
    · cases List.mem_singleton.mp h
    · cases h
  · split_ifs at h
    · exact ServerAction.invoked.inj (List.mem_singleton.mp h)
    · cases List.not_mem_nil h

theorem serveClientThread_of_outcome {database : ServerDatabase} {buffer : Bytes}
    {buffers : List Bytes} {outcome : ExecuteOutcome}
    (ho : serveExecute ⟨buffer⟩ database = some outcome)
    (hr : ∀ n, ∃ rest, serveClientThread database (fun _ => false) n buffers = some rest)
    (n : Nat) : ∃ actions,
      serveClientThread database (fun _ => false) n (buffer :: buffers) = some actions := by
  simp only [serveClientThread, Bool.false_eq_true, and_false, if_false, Option.bind_eq_bind, ho,
    Option.bind_some]
  obtain ⟨rest, hrest⟩ := hr _
  rw [hrest]
  exact ⟨_, rfl⟩

theorem length_sent {database : ServerDatabase} {messages : List Bytes} {n : Nat}
    {actions : List ServerAction}
    (h : serveClientThread database (fun _ => false) n messages = some actions) :
    (actions.filterMap ServerAction.sent?).length = messages.length +
      messages.countP (fun buffer => (⟨buffer⟩ : RawMessage).getMessageType ≠ .execute) := by
  induction messages generalizing n actions with
  | nil =>
    obtain rfl := Option.some.inj h
    rfl
  | cons buffer messages ih =>
    obtain ⟨outcome, m, rest, -, hr, rfl⟩ := serveClientThread_cons h
    rw [List.filterMap_append, List.length_append, ih hr, sent_roundActions, List.countP_cons,
      List.length_cons]
    by_cases ht : (⟨buffer⟩ : RawMessage).getMessageType = .execute
    · simp only [ht, ne_eq, not_true_eq_false, decide_false, Bool.false_eq_true, if_false,
        List.nil_append, List.length_singleton]
      omega
    · simp only [ht, ne_eq, not_false_eq_true, decide_true, if_true, List.length_append,
        List.length_singleton]
      omega

theorem answersEach_of_execute {database : ServerDatabase} {messages : List Bytes}
    (hwell : ∀ buffer ∈ messages, WellFormedExecute database buffer)
    (htype : ∀ buffer ∈ messages, (⟨buffer⟩ : RawMessage).getMessageType = .execute) (n : Nat) :
    ∃ actions, serveClientThread database (fun _ => false) n messages = some actions ∧
      (actions.filterMap ServerAction.sent?).map some = messages.map (intendedAnswer database) ∧
      ∀ buffer, .invoked buffer ∈ actions →
        (⟨buffer⟩ : RawMessage).getMessageType = .execute := by
  induction messages generalizing n with
  | nil => exact ⟨[], rfl, rfl, by simp⟩
  | cons buffer messages ih =>
    obtain ⟨hw, hws⟩ := List.forall_mem_cons.mp hwell
    obtain ⟨ht, hts⟩ := List.forall_mem_cons.mp htype
    have hrest := ih hws hts
    obtain ⟨outcome, ho⟩ := Option.isSome_iff_exists.mp hw
    obtain ⟨actions, ha⟩ := serveClientThread_of_outcome ho
      (fun m => (hrest m).imp fun _ h => h.1) n
    obtain ⟨outcome', m, rest, ho', hr, rfl⟩ := serveClientThread_cons ha
    obtain rfl := Option.some.inj (ho.symm.trans ho')
    obtain ⟨rest', hr', hsent, hinvoked⟩ := hrest m
    obtain rfl := Option.some.inj (hr.symm.trans hr')
    have hanswer : intendedAnswer database buffer = some outcome.response.getString := by
      rw [intendedAnswer, if_pos ht, ho, Option.map_some]
    refine ⟨_, ha, ?_, ?_⟩
    · rw [List.filterMap_append, sent_roundActions, if_neg (not_not_intro ht), List.nil_append,
        List.map_append, hsent, List.map_cons (a := buffer), hanswer]
      rfl
    · intro trigger hin
      rcases List.mem_append.mp hin with hin | hin
      · rw [eq_of_invoked hin]
        exact ht
      · exact hinvoked trigger hin

/-- Every message is answered once and as intended exactly when all of them are
of type `execute`. -/
theorem answers_each_iff {database : ServerDatabase} {messages : List Bytes}
    (hwell : ∀ buffer ∈ messages, (⟨buffer⟩ : RawMessage).getMessageType = .execute →
      WellFormedExecute database buffer) :
    AnswersEach database messages ↔
      ∀ buffer ∈ messages, (⟨buffer⟩ : RawMessage).getMessageType = .execute := by
  constructor
  · rintro ⟨actions, ha, hsent, -⟩ buffer hb
    have hlen := congrArg List.length hsent
    rw [List.length_map, List.length_map, length_sent ha] at hlen
    have hzero : messages.countP
        (fun buffer => (⟨buffer⟩ : RawMessage).getMessageType ≠ .execute) = 0 := by omega
    simpa using List.countP_eq_zero.mp hzero buffer hb
  · intro htype
    exact answersEach_of_execute (fun buffer hb => hwell buffer hb (htype buffer hb)) htype 0

def idleSkeleton : Skeleton := fun argTypes args => some ⟨0, argTypes, args⟩

def idleDatabase : ServerDatabase := OrderedMap.assign ∅ ⟨[102], []⟩ idleSkeleton

def idleRequest : Execute := ⟨[102], .ofArray [], [], Sized.nil⟩

theorem answers_each_sample :
    AnswersEach idleDatabase [idleRequest.serialize.buffer, idleRequest.serialize.buffer] := by
  refine (answers_each_iff ?_).mpr ?_
  · intro buffer hb _
    have he : buffer = idleRequest.serialize.buffer := by simpa using hb
    subst he
    unfold WellFormedExecute
    decide
  · intro buffer hb
    have he : buffer = idleRequest.serialize.buffer := by simpa using hb
    subst he
    rfl

/-- A request meant for the binder is sent back to its sender, runs the skeleton
and is answered a second time. -/
theorem locate_request_answered_twice :
    serveClientThread idleDatabase (fun _ => false) 0
        [(LocateRequest.mk [102] (.ofArray [])).serialize.buffer] =
      some [.sent (LocateRequest.mk [102] (.ofArray [])).serialize.buffer,
        .invoked (LocateRequest.mk [102] (.ofArray [])).serialize.buffer,
        .sent idleRequest.serialize.buffer] ∧
      ¬ AnswersEach idleDatabase [(LocateRequest.mk [102] (.ofArray [])).serialize.buffer] := by
  have hactions : serveClientThread idleDatabase (fun _ => false) 0
        [(LocateRequest.mk [102] (.ofArray [])).serialize.buffer] =
      some [.sent (LocateRequest.mk [102] (.ofArray [])).serialize.buffer,
        .invoked (LocateRequest.mk [102] (.ofArray [])).serialize.buffer,
        .sent idleRequest.serialize.buffer] := by decide
  refine ⟨hactions, ?_⟩
  rintro ⟨actions, ha, hsent, -⟩
  obtain rfl := Option.some.inj (hactions.symm.trans ha)
  cases congrArg List.length hsent

end RpcLibrary
