import RpcLibrary.ControlMessages

/-! The threads of a serving server and how it stops: the main thread waits for
a counter of running threads, and the threads run between its reads. A thread that
cannot be created stays counted, since nothing looks at what `pthread_create` returns. -/

namespace RpcLibrary

inductive MainPhase
  | counting
  | creatingBinderListener
  | creatingClientListener
  | readingTerminating
  | readingTotal
  | cancelling
  | joining
  | sending
  | returned
deriving DecidableEq

inductive BinderListenerPhase
  | notStarted
  | receiving
  | countingOut
  | exiting
  | exited
deriving DecidableEq

/-- The listener selects, accepts and polls at cancellation points. Then it
counts and creates a thread for each connection of the poll, with so many of
them left after this one. -/
inductive ClientListenerPhase
  | notStarted
  | selecting
  | accepting
  | polling
  | counting (left : Nat)
  | creating (left : Nat)
  | exited
deriving DecidableEq

inductive ClientThreadPhase
  | running
  | exiting
  | exited
deriving DecidableEq

structure Serve where
  totalThreads : Int
  terminating : Bool
  cancelRequested : Bool
  /-- The connections that the listener has accepted and not released. -/
  managed : Nat
  main : MainPhase
  listenToBinder : BinderListenerPhase
  listenToClients : ClientListenerPhase
  /-- The threads created for client connections, in order of creation. -/
  clients : List ClientThreadPhase
  /-- The threads for client connections that could not be created. -/
  lost : Nat
deriving DecidableEq

inductive ServeEvent
  | mainCounts
  | mainCreatesBinderListener (created : Bool)
  | mainCreatesClientListener (created : Bool)
  | mainReadsTerminating
  | mainReadsTotal
  | mainCancels
  | mainJoins
  | mainSends
  /-- A message from the binder, or the error of receiving one, ends the thread or not. -/
  | binderHeard (terminates : Bool)
  | binderListenerCountsOut
  | binderListenerExits
  | listenerSelects (ready : Bool)
  | listenerAccepts (accepted : Bool)
  | listenerPolls (ready : Nat)
  | listenerCounts
  | listenerCreates (created : Bool)
  | listenerCancelled
  | threadCountsOut (i : Nat)
  | threadExits (i : Nat)
deriving DecidableEq

def ClientListenerPhase.next : Nat → ClientListenerPhase
  | 0 => selecting
  | left + 1 => counting left

def ClientListenerPhase.cancellable : ClientListenerPhase → Bool
  | selecting => true
  | accepting => true
  | polling => true
  | _ => false

namespace Serve

def new : Serve := ⟨0, false, false, 0, .counting, .notStarted, .notStarted, [], 0⟩

def incThreads (s : Serve) (val : Int) : Serve := { s with totalThreads := s.totalThreads + val }

def step (s : Serve) : ServeEvent → Option (Option RawMessage × Serve)
  | .mainCounts =>
    if s.main = .counting then some (none, { s.incThreads 2 with main := .creatingBinderListener })
    else none
  | .mainCreatesBinderListener created =>
    if s.main = .creatingBinderListener then
      some (none, { s with
        listenToBinder := if created then .receiving else s.listenToBinder
        main := .creatingClientListener })
    else none
  | .mainCreatesClientListener created =>
    if s.main = .creatingClientListener then
      some (none, { s with
        listenToClients := if created then .selecting else s.listenToClients
        main := .readingTerminating })
    else none
  | .mainReadsTerminating =>
    if s.main = .readingTerminating then
      some (none, { s with main := if s.terminating then .readingTotal else .readingTerminating })
    else none
  | .mainReadsTotal =>
    if s.main = .readingTotal then
      some (none,
        { s with main := if s.totalThreads > 1 then .readingTerminating else .cancelling })
    else none
  | .mainCancels =>
    -- without the thread its identifier was never set
    if s.main = .cancelling ∧ s.listenToClients ≠ .notStarted then
      some (none, { s with cancelRequested := true, main := .joining })
    else none
  | .mainJoins =>
    if s.main = .joining ∧ s.listenToClients = .exited then some (none, { s with main := .sending })
    else none
  | .mainSends =>
    if s.main = .sending then
      some (some (StatusMessage.serialize (⟨0⟩ : TerminateSuccess)), { s with main := .returned })
    else none
  | .binderHeard terminates =>
    if s.listenToBinder = .receiving then
      if terminates then some (none, { s with terminating := true, listenToBinder := .countingOut })
      else some (none, s)
    else none
  | .binderListenerCountsOut =>
    if s.listenToBinder = .countingOut then
      some (none, { s.incThreads (-1) with listenToBinder := .exiting })
    else none
  | .binderListenerExits =>
    if s.listenToBinder = .exiting then some (none, { s with listenToBinder := .exited }) else none
  | .listenerSelects ready =>
    if s.listenToClients = .selecting then
      some (none, { s with listenToClients := if ready then .accepting else .polling })
    else none
  | .listenerAccepts accepted =>
    if s.listenToClients = .accepting then
      some (none, { s with
        managed := if accepted then s.managed + 1 else s.managed
        listenToClients := .polling })
    else none
  | .listenerPolls ready =>
    if s.listenToClients = .polling ∧ ready ≤ s.managed then
      some (none, { s with listenToClients := .next ready })
    else none
  | .listenerCounts =>
    match s.listenToClients with
    | .counting left =>
      some (none, { s.incThreads 1 with
        managed := s.managed - 1
        listenToClients := .creating left })
    | _ => none
  | .listenerCreates created =>
    match s.listenToClients with
    | .creating left =>
      if created then
        some (none, { s with clients := s.clients ++ [.running], listenToClients := .next left })
      else some (none, { s with lost := s.lost + 1, listenToClients := .next left })
    | _ => none
  | .listenerCancelled =>
    if s.listenToClients.cancellable ∧ s.cancelRequested then
      some (none, { s with listenToClients := .exited })
    else none
  | .threadCountsOut i =>
    if s.clients[i]? = some .running then
      some (none, { s.incThreads (-1) with clients := s.clients.set i .exiting })
    else none
  | .threadExits i =>
    if s.clients[i]? = some .exiting then
      some (none, { s with clients := s.clients.set i .exited })
    else none

inductive StepCase (s : Serve) : ServeEvent → Serve → Prop
  | mainCounts (h : s.main = .counting) :
      StepCase s .mainCounts { s.incThreads 2 with main := .creatingBinderListener }
  | mainCreatesBinderListener (h : s.main = .creatingBinderListener) :
      StepCase s (.mainCreatesBinderListener true)
        { s with listenToBinder := .receiving, main := .creatingClientListener }
  | mainLosesBinderListener (h : s.main = .creatingBinderListener) :
      StepCase s (.mainCreatesBinderListener false) { s with main := .creatingClientListener }
  | mainCreatesClientListener (h : s.main = .creatingClientListener) :
      StepCase s (.mainCreatesClientListener true)
        { s with listenToClients := .selecting, main := .readingTerminating }
  | mainLosesClientListener (h : s.main = .creatingClientListener) :
      StepCase s (.mainCreatesClientListener false) { s with main := .readingTerminating }
  | mainReadsTerminating (h : s.main = .readingTerminating) :
      StepCase s .mainReadsTerminating
        { s with main := if s.terminating then .readingTotal else .readingTerminating }
  | mainReadsTotal (h : s.main = .readingTotal) :
      StepCase s .mainReadsTotal
        { s with main := if s.totalThreads > 1 then .readingTerminating else .cancelling }
  | mainCancels (h : s.main = .cancelling) (hlistener : s.listenToClients ≠ .notStarted) :
      StepCase s .mainCancels { s with cancelRequested := true, main := .joining }
  | mainJoins (h : s.main = .joining) (hlistener : s.listenToClients = .exited) :
      StepCase s .mainJoins { s with main := .sending }
  | mainSends (h : s.main = .sending) : StepCase s .mainSends { s with main := .returned }
  | binderHeardTerminate (h : s.listenToBinder = .receiving) :
      StepCase s (.binderHeard true) { s with terminating := true, listenToBinder := .countingOut }
  | binderHeardOther (h : s.listenToBinder = .receiving) : StepCase s (.binderHeard false) s
  | binderListenerCountsOut (h : s.listenToBinder = .countingOut) :
      StepCase s .binderListenerCountsOut { s.incThreads (-1) with listenToBinder := .exiting }
  | binderListenerExits (h : s.listenToBinder = .exiting) :
      StepCase s .binderListenerExits { s with listenToBinder := .exited }
  | listenerSelects {ready} (h : s.listenToClients = .selecting) :
      StepCase s (.listenerSelects ready)
        { s with listenToClients := if ready then .accepting else .polling }
  | listenerAccepts {accepted} (h : s.listenToClients = .accepting) :
      StepCase s (.listenerAccepts accepted)
        { s with
          managed := if accepted then s.managed + 1 else s.managed
          listenToClients := .polling }
  | listenerPolls {ready} (h : s.listenToClients = .polling) (hready : ready ≤ s.managed) :
      StepCase s (.listenerPolls ready) { s with listenToClients := .next ready }
  | listenerCounts {left} (h : s.listenToClients = .counting left) :
      StepCase s .listenerCounts
        { s.incThreads 1 with managed := s.managed - 1, listenToClients := .creating left }
  | listenerCreates {left} (h : s.listenToClients = .creating left) :
      StepCase s (.listenerCreates true)
        { s with clients := s.clients ++ [.running], listenToClients := .next left }
  | listenerLoses {left} (h : s.listenToClients = .creating left) :
      StepCase s (.listenerCreates false)
        { s with lost := s.lost + 1, listenToClients := .next left }
  | listenerCancelled (h : s.listenToClients.cancellable = true) (hc : s.cancelRequested = true) :
      StepCase s .listenerCancelled { s with listenToClients := .exited }
  | threadCountsOut {i} (h : s.clients[i]? = some .running) :
      StepCase s (.threadCountsOut i)
        { s.incThreads (-1) with clients := s.clients.set i .exiting }
  | threadExits {i} (h : s.clients[i]? = some .exiting) :
      StepCase s (.threadExits i) { s with clients := s.clients.set i .exited }

theorem of_guarded {p : Prop} [Decidable p] {r s' : Serve} {o message : Option RawMessage}
    (h : (if p then some (message, r) else none) = some (o, s')) : p ∧ r = s' := by
  obtain ⟨hp, he⟩ := Option.ite_none_right_eq_some.mp h
  exact ⟨hp, (Prod.mk.inj (Option.some.inj he)).2⟩

theorem step_cases {s s' : Serve} {e : ServeEvent} {o : Option RawMessage}
    (h : s.step e = some (o, s')) : StepCase s e s' := by
  cases e with
  | mainCounts =>
    obtain ⟨hm, rfl⟩ := of_guarded h
    exact .mainCounts hm
  | mainCreatesBinderListener created =>
    obtain ⟨hm, rfl⟩ := of_guarded h
    cases created with
    | true => exact .mainCreatesBinderListener hm
    | false => exact .mainLosesBinderListener hm
  | mainCreatesClientListener created =>
    obtain ⟨hm, rfl⟩ := of_guarded h
    cases created with
    | true => exact .mainCreatesClientListener hm
    | false => exact .mainLosesClientListener hm
  | mainReadsTerminating =>
    obtain ⟨hm, rfl⟩ := of_guarded h
    exact .mainReadsTerminating hm
  | mainReadsTotal =>
    obtain ⟨hm, rfl⟩ := of_guarded h
    exact .mainReadsTotal hm
  | mainCancels =>
    obtain ⟨⟨hm, hl⟩, rfl⟩ := of_guarded h
    exact .mainCancels hm hl
  | mainJoins =>
    obtain ⟨⟨hm, hl⟩, rfl⟩ := of_guarded h
    exact .mainJoins hm hl
  | mainSends =>
    obtain ⟨hm, rfl⟩ := of_guarded h
    exact .mainSends hm
  | binderHeard terminates =>
    obtain ⟨hb, he⟩ := Option.ite_none_right_eq_some.mp h
    cases terminates with
    | true =>
      obtain ⟨-, rfl⟩ := Prod.mk.inj (Option.some.inj he)
      exact .binderHeardTerminate hb
    | false =>
      obtain ⟨-, rfl⟩ := Prod.mk.inj (Option.some.inj he)
      exact .binderHeardOther hb
  | binderListenerCountsOut =>
    obtain ⟨hb, rfl⟩ := of_guarded h
    exact .binderListenerCountsOut hb
  | binderListenerExits =>
    obtain ⟨hb, rfl⟩ := of_guarded h
    exact .binderListenerExits hb
  | listenerSelects ready =>
    obtain ⟨hl, rfl⟩ := of_guarded h
    exact .listenerSelects hl
  | listenerAccepts accepted =>
    obtain ⟨hl, rfl⟩ := of_guarded h
    exact .listenerAccepts hl
  | listenerPolls ready =>
    obtain ⟨⟨hl, hr⟩, rfl⟩ := of_guarded h
    exact .listenerPolls hl hr
  | listenerCounts =>
    rw [step] at h
    split at h
    · obtain ⟨-, rfl⟩ := Prod.mk.inj (Option.some.inj h)
      exact .listenerCounts ‹_›
    · cases h
  | listenerCreates created =>
    rw [step] at h
    split at h
    · cases created with
      | true =>
        obtain ⟨-, rfl⟩ := Prod.mk.inj (Option.some.inj h)
        exact .listenerCreates ‹_›
      | false =>
        obtain ⟨-, rfl⟩ := Prod.mk.inj (Option.some.inj h)
        exact .listenerLoses ‹_›
    · cases h
  | listenerCancelled =>
    obtain ⟨⟨hl, hc⟩, rfl⟩ := of_guarded h
    exact .listenerCancelled hl hc
  | threadCountsOut i =>
    obtain ⟨ht, rfl⟩ := of_guarded h
    exact .threadCountsOut ht
  | threadExits i =>
    obtain ⟨ht, rfl⟩ := of_guarded h
    exact .threadExits ht

end Serve

end RpcLibrary
