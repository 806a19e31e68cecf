import RpcLibrary.HandleTerminate

/-! One connection between the binder and a server or a client that terminates.
It keeps the order of its messages and carries the requests of both of its ends,
and nothing tells an answer from a request but its type. -/

namespace RpcLibrary

open Runs

/-- What a server will register, all of it under its own address and in messages
that a connection can carry. -/
structure ServerPlan where
  address : Address
  calls : List (Bytes × ArgTypes)
  fits : ∀ c ∈ calls,
    (Register.mk address.hostname address.port c.1 c.2).serialize.buffer.length < 2 ^ 31

def ServerPlan.registers (plan : ServerPlan) : List Register :=
  plan.calls.map fun c => ⟨plan.address.hostname, plan.address.port, c.1, c.2⟩

inductive Program
  | server (plan : ServerPlan)
  | client

def Program.registers : Program → List Register
  | server plan => plan.registers
  | client => []

/-- A server registers, one call after the other, then listens to the binder and,
when it has heard it, finishes its threads; a client terminates and waits. -/
inductive PeerPhase
  | registering (calls : List Register)
  | awaiting (calls : List Register)
  | listening
  | finishing
  | ended
  | terminating
  | waiting
  | returned
deriving DecidableEq

/-- One end of a connection, and the messages in flight in both directions. -/
structure Link where
  peer : PeerPhase
  toBinder : List RawMessage
  toPeer : List RawMessage
  failed : Bool
deriving DecidableEq

def Program.start : Program → Link
  | server plan => ⟨.registering plan.registers, [], [], false⟩
  | client => ⟨.terminating, [], [], false⟩

inductive PeerEvent
  | registers
  | executes
  | finishes
  | terminates
  | hears
  | fails
deriving DecidableEq

abbrev terminateRequest : RawMessage := StatusMessage.serialize (⟨0⟩ : Terminate)

abbrev terminateAnswer : RawMessage := StatusMessage.serialize (⟨0⟩ : TerminateSuccess)

/-- A step of the peer, with the message it hears. `rpcRegister` takes whatever
comes for its answer, and the thread that listens ignores all but one type. -/
def Link.step (l : Link) (e : PeerEvent) : Option (Option RawMessage × Link) :=
  if l.failed then none
  else match e, l.peer, l.toPeer with
  | .registers, .registering (message :: calls), _ =>
    some (none, { l with peer := .awaiting calls, toBinder := l.toBinder ++ [message.serialize] })
  | .hears, .awaiting calls, raw :: rest =>
    some (some raw, { l with peer := .registering calls, toPeer := rest })
  | .executes, .registering [], _ => some (none, { l with peer := .listening })
  | .hears, .listening, raw :: rest =>
    let peer := if raw.getMessageType = .terminate then .finishing else .listening
    some (some raw, { l with peer, toPeer := rest })
  | .finishes, .finishing, _ =>
    some (none, { l with peer := .ended, toBinder := l.toBinder ++ [terminateAnswer] })
  | .terminates, .terminating, _ =>
    some (none, { l with peer := .waiting, toBinder := l.toBinder ++ [terminateRequest] })
  | .hears, .waiting, raw :: rest => some (some raw, { l with peer := .returned, toPeer := rest })
  | .fails, _, _ => some (none, { l with failed := true })
  | _, _, _ => none

theorem Link.step_cases {l l' : Link} {e : PeerEvent} {o : Option RawMessage}
    (hs : l.step e = some (o, l')) : l.failed = false ∧ (l'.failed = true → e = .fails) ∧
      (l'.peer = .ended → l.peer = .ended ∨ e = .finishes) := by
  obtain ⟨hf, hs⟩ := Option.ite_none_left_eq_some.mp hs
  refine ⟨Bool.not_eq_true _ ▸ hf, ?_⟩
  split at hs
  all_goals cases hs
  all_goals simp [hf]
  split <;> exact PeerPhase.noConfusion

theorem Program.address_eq {program : Program} {message message' : Register}
    (h : message ∈ program.registers) (h' : message' ∈ program.registers) :
    message.address = message'.address := by
  cases program with
  | client => cases h
  | server plan =>
    obtain ⟨c, -, rfl⟩ := List.mem_map.mp h
    obtain ⟨c', -, rfl⟩ := List.mem_map.mp h'
    rfl

theorem Program.fits {program : Program} {message : Register} (h : message ∈ program.registers) :
    message.serialize.buffer.length < 2 ^ 31 := by
  cases program with
  | client => cases h
  | server plan =>
    obtain ⟨c, hc, rfl⟩ := List.mem_map.mp h
    exact plan.fits c hc

/-- Whether `handleTerminate` has sent its message over a connection, and whether
it has had the answer. -/
inductive LinkStatus
  | untold
  | told
  | heard
deriving DecidableEq

/-- What a connection can look like, where the second argument says whether the
binder is about to reply over it. -/
inductive LinkCase (registers : List Register) : LinkStatus → Bool → Link → Prop
  | registering {calls} (h : calls ⊆ registers) :
      LinkCase registers .untold false ⟨.registering calls, [], [], false⟩
  | requested {message calls} (hm : message ∈ registers) (h : calls ⊆ registers) :
      LinkCase registers .untold false ⟨.awaiting calls, [message.serialize], [], false⟩
  | handled {calls} (h : calls ⊆ registers) :
      LinkCase registers .untold true ⟨.awaiting calls, [], [], false⟩
  | answered {calls raw} (h : calls ⊆ registers) :
      LinkCase registers .untold false ⟨.awaiting calls, [], [raw], false⟩
  | listening : LinkCase registers .untold false ⟨.listening, [], [], false⟩
  | terminating (h : registers = []) :
      LinkCase registers .untold false ⟨.terminating, [], [], false⟩
  | waiting {toBinder} (h : registers = []) (ht : toBinder = [] ∨ toBinder = [terminateRequest]) :
      LinkCase registers .untold false ⟨.waiting, toBinder, [], false⟩
  | failedUntold {replying peer toBinder toPeer}
      (h : toBinder = [] ∨ (∃ message ∈ registers, toBinder = [message.serialize]) ∨
        (registers = [] ∧ toBinder = [terminateRequest])) :
      LinkCase registers .untold replying ⟨peer, toBinder, toPeer, true⟩
  | toldRegistering :
      LinkCase registers .told false ⟨.registering [], [], [terminateRequest], false⟩
  | toldAwaiting {raw} :
      LinkCase registers .told false ⟨.awaiting [], [], [raw, terminateRequest], false⟩
  | toldListening : LinkCase registers .told false ⟨.listening, [], [terminateRequest], false⟩
  | toldFinishing : LinkCase registers .told false ⟨.finishing, [], [], false⟩
  | toldEnded : LinkCase registers .told false ⟨.ended, [terminateAnswer], [], false⟩
  | failedTold {peer toBinder toPeer}
      (h : toBinder = [] ∨ (toBinder = [terminateAnswer] ∧ peer = .ended)) :
      LinkCase registers .told false ⟨peer, toBinder, toPeer, true⟩
  | heard : LinkCase registers .heard false ⟨.ended, [], [], false⟩
  | failedHeard {peer toBinder toPeer} :
      LinkCase registers .heard false ⟨peer, toBinder, toPeer, true⟩

theorem Program.start_case (program : Program) :
    LinkCase program.registers .untold false program.start := by
  cases program with
  | server plan => exact .registering (List.Subset.refl _)
  | client => exact .terminating rfl

theorem LinkCase.step {registers : List Register} {status : LinkStatus} {replying : Bool}
    {l l' : Link} {e : PeerEvent} {o : Option RawMessage} (h : LinkCase registers status replying l)
    (hs : l.step e = some (o, l')) : LinkCase registers status replying l' := by
  cases h with
  | @registering calls hc =>
    cases calls with
    | nil =>
      cases e <;> cases hs
      · exact .listening
      · exact .failedUntold (.inl rfl)
    | cons message calls =>
      obtain ⟨hm, hc⟩ := List.cons_subset.mp hc
      cases e <;> cases hs
      · exact .requested hm hc
      · exact .failedUntold (.inl rfl)
  | requested hm hc =>
    cases e <;> cases hs
    exact .failedUntold (.inr (.inl ⟨_, hm, rfl⟩))
  | handled hc =>
    cases e <;> cases hs
    exact .failedUntold (.inl rfl)
  | answered hc =>
    cases e <;> cases hs
    · exact .registering hc
    · exact .failedUntold (.inl rfl)
  | listening =>
    cases e <;> cases hs
    exact .failedUntold (.inl rfl)
  | terminating hr =>
    cases e <;> cases hs
    · exact .waiting hr (.inr rfl)
    · exact .failedUntold (.inl rfl)
  | waiting hr ht =>
    cases e <;> cases hs
    exact .failedUntold (ht.imp_right fun ht => .inr ⟨hr, ht⟩)
  | toldRegistering =>
    cases e <;> cases hs
    · exact .toldListening
    · exact .failedTold (.inl rfl)
  | toldAwaiting =>
    cases e <;> cases hs
    · exact .toldRegistering
    · exact .failedTold (.inl rfl)
  | toldListening =>
    cases e <;> cases hs
    · exact .toldFinishing
    · exact .failedTold (.inl rfl)
  | toldFinishing =>
    cases e <;> cases hs
    · exact .toldEnded
    · exact .failedTold (.inl rfl)
  | toldEnded =>
    cases e <;> cases hs
    exact .failedTold (.inr ⟨rfl, rfl⟩)
  | heard =>
    cases e <;> cases hs
    exact .failedHeard
  | failedUntold => cases hs
  | failedTold => cases hs
  | failedHeard => cases hs

def PeerPhase.remaining : PeerPhase → List Register
  | registering calls => calls
  | awaiting calls => calls
  | _ => []

/-- Nothing but the answer to a `TERMINATE` can still come to the binder. -/
def Link.Settled (l : Link) : Prop :=
  l.toBinder = [] ∧ (l.failed = true ∨ l.peer.remaining = [])

instance (l : Link) : Decidable l.Settled := inferInstanceAs (Decidable (_ ∧ _))

theorem LinkCase.told {registers : List Register} {l : Link}
    (h : LinkCase registers .untold false l) (hr : registers ≠ []) (hl : l.Settled) :
    LinkCase registers .told false { l with toPeer := l.toPeer ++ [terminateRequest] } := by
  obtain ⟨hempty, hrest⟩ := hl
  cases h with
  | registering =>
    obtain rfl := hrest.resolve_left Bool.noConfusion
    exact .toldRegistering
  | requested => cases hempty
  | answered =>
    obtain rfl := hrest.resolve_left Bool.noConfusion
    exact .toldAwaiting
  | listening => exact .toldListening
  | terminating h => exact absurd h hr
  | waiting h => exact absurd h hr
  | failedUntold => exact .failedTold (.inl hempty)

theorem LinkCase.crosses {registers : List Register} {l : Link}
    (h : LinkCase registers .untold false l) (hr : registers ≠ []) (hl : ¬ l.Settled) :
    ∃ events l' message rest,
      Run Link.step { l with toPeer := l.toPeer ++ [terminateRequest] } events l' ∧
        .fails ∉ events.map Prod.fst ∧ l'.toBinder = Register.serialize message :: rest := by
  cases h with
  | @registering calls =>
    cases calls with
    | nil => exact absurd ⟨rfl, .inr rfl⟩ hl
    | cons message calls => exact ⟨[(.registers, none)], _, message, [], .single rfl, by simp, rfl⟩
  | @requested message => exact ⟨[], _, message, [], .nil _, List.not_mem_nil, rfl⟩
  | @answered calls raw =>
    cases calls with
    | nil => exact absurd ⟨rfl, .inr rfl⟩ hl
    | cons message calls =>
      have registers : Run Link.step
          ⟨.registering (message :: calls), [], [terminateRequest], false⟩ [(.registers, none)]
          ⟨.awaiting calls, [message.serialize], [terminateRequest], false⟩ := .single rfl
      exact ⟨(.hears, some raw) :: _, _, message, [], .cons rfl registers, by simp, rfl⟩
  | listening => exact absurd ⟨rfl, .inr rfl⟩ hl
  | terminating h => exact absurd h hr
  | waiting h => exact absurd h hr
  | failedUntold hq =>
    rcases hq with rfl | ⟨message, -, rfl⟩ | ⟨h, -⟩
    · exact absurd ⟨rfl, .inl rfl⟩ hl
    · exact ⟨[], _, message, [], .nil _, List.not_mem_nil, rfl⟩
    · exact absurd h hr

theorem LinkCase.replied {registers : List Register} {l : Link}
    (h : LinkCase registers .untold true l) (response : RawMessage) :
    LinkCase registers .untold false { l with toPeer := l.toPeer ++ [response] } := by
  cases h with
  | handled hc => exact .answered hc
  | failedUntold hq => exact .failedUntold hq

theorem LinkCase.of_failed {registers : List Register} {l : Link} (hf : l.failed = true) :
    LinkCase registers .heard false l := by
  obtain ⟨peer, toBinder, toPeer, failed⟩ := l
  obtain rfl : failed = true := hf
  exact .failedHeard

theorem LinkCase.answer {registers : List Register} {l : Link} {raw : RawMessage}
    {rest : List RawMessage} (h : LinkCase registers .told false l)
    (hraw : l.toBinder = raw :: rest) :
    raw = terminateAnswer ∧ l.peer = .ended ∧
      LinkCase registers .heard false { l with toBinder := rest } := by
  cases h with
  | toldEnded =>
    obtain ⟨rfl, rfl⟩ := List.cons.inj hraw
    exact ⟨rfl, rfl, .heard⟩
  | failedTold hq =>
    rcases hq with rfl | ⟨rfl, rfl⟩
    · cases hraw
    · obtain ⟨rfl, rfl⟩ := List.cons.inj hraw
      exact ⟨rfl, rfl, .failedHeard⟩
  | _ => cases hraw

theorem LinkCase.answers {registers : List Register} {replying : Bool} {l : Link}
    (h : LinkCase registers .told replying l) (hf : l.failed = false) :
    ∃ events, Run Link.step l events ⟨.ended, [terminateAnswer], [], false⟩ ∧
      .fails ∉ events.map Prod.fst := by
  have finishing : Run Link.step ⟨.finishing, [], [], false⟩ [(.finishes, none)]
      ⟨.ended, [terminateAnswer], [], false⟩ := .single rfl
  have listening : Run Link.step ⟨.listening, [], [terminateRequest], false⟩
      [(.hears, some terminateRequest), (.finishes, none)]
      ⟨.ended, [terminateAnswer], [], false⟩ := .cons rfl finishing
  have registering : Run Link.step ⟨.registering [], [], [terminateRequest], false⟩
      [(.executes, none), (.hears, some terminateRequest), (.finishes, none)]
      ⟨.ended, [terminateAnswer], [], false⟩ := .cons rfl listening
  cases h with
  | toldEnded => exact ⟨[], .nil _, List.not_mem_nil⟩
  | toldFinishing => exact ⟨_, finishing, by simp⟩
  | toldListening => exact ⟨_, listening, by simp⟩
  | toldRegistering => exact ⟨_, registering, by simp⟩
  | @toldAwaiting raw => exact ⟨(.hears, some raw) :: _, .cons rfl registering, by simp⟩
  | failedTold => cases hf

end RpcLibrary
