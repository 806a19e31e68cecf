import RpcLibrary.ConcurrentCallers
import RpcLibrary.LocateAssertion
import RpcLibrary.RegistrationHistory

/-! What servers and clients that use the binder at the same time can rely on. -/

namespace RpcLibrary

open Runs BinderDatabase Linearizability

/-- However the calls of servers and clients overlap, the answers are those of
the database, and of the reference binder while its assumptions last, asked one
request at a time between each call and its return. -/
theorem binder_linearizable {trace : List (CallersEvent × List CallersMark)} {sys : Callers}
    {listener : Fd} {foreign : Finset Fd} (hrun : CallersRun listener foreign trace sys) :
    Linearizable closed BinderDatabase.step .new (visibles (marksOf trace)) ∧
      (OneOwner ((effects (marksOf trace)).map Prod.fst) →
        ticks (effects (marksOf trace)) ≤ 2 ^ 32 - 1 →
          Linearizable closed Reference.step .new (visibles (marksOf trace))) := by
  obtain ⟨p, hmarked, -, hdb⟩ := hrun.marked
  refine ⟨⟨_, p, _, hmarked, rfl, hdb⟩, fun hone hticks => ?_⟩
  obtain ⟨ref, href, -⟩ := BinderRun.coupled hdb hone hticks
  exact ⟨_, p, ref, hmarked, rfl, href⟩

/-- A server registers over connection 100; once it has its answer, a client
locates its function over connection 101. -/
def sampleCallersTrace : List (CallersEvent × List CallersMark) :=
  [(.loop (.accept (some {3}) (some (4, 100))), [.visible (.joins 100)]),
    (.calls 100 (.register (sampleRegister 102 80)),
      [.visible (.calls 100 (.register (sampleRegister 102 80) 100))]),
    (.loop (.poll (some {4})), []),
    (.loop (.recv (.returned (sampleRegister 102 80).serialize.buffer)), []),
    (.loop (.handle fun _ => .received (.threw .connectionClosed)),
      [.commits 100 (.register (sampleRegister 102 80) 100) (some (registered 0))]),
    (.loop (.send (.ok ())), []),
    (.returns 100, [.visible (.returns 100 (some (registered 0)))]),
    (.loop .roundOver, []),
    (.loop (.accept (some {3}) (some (5, 101))), [.visible (.joins 101)]),
    (.calls 101 (.locate (sampleLocate 102)),
      [.visible (.calls 101 (.locate (sampleLocate 102)))]),
    (.loop (.poll (some {5})), []),
    (.loop (.recv (.returned (sampleLocate 102).serialize.buffer)), []),
    (.loop (.handle fun _ => .received (.threw .connectionClosed)),
      [.commits 101 (.locate (sampleLocate 102)) (some (located (sampleAddress 80)))]),
    (.loop (.send (.ok ())), []),
    (.returns 101, [.visible (.returns 101 (some (located (sampleAddress 80))))])]

theorem sampleCallersTrace_run : ∃ sys, CallersRun 3 {0} sampleCallersTrace sys :=
  ⟨_, .cons rfl (.cons rfl (.cons rfl (.cons rfl (.cons rfl (.cons rfl (.cons rfl (.cons rfl
    (.cons rfl (.cons rfl (.cons rfl (.cons rfl (.cons rfl (.cons rfl (.cons rfl
      (.nil _)))))))))))))))⟩

theorem sampleCallersTrace_oneOwner :
    OneOwner ((effects (marksOf sampleCallersTrace)).map Prod.fst) :=
  .of_fixed_owner (fun _ => 100) fun message s h => by
    have he : BinderRequest.register message s = .register (sampleRegister 102 80) 100 := by
      simpa [sampleCallersTrace, marksOf] using h
    exact (BinderRequest.register.inj he).2

theorem binder_linearizable_sample :
    Linearizable closed Reference.step .new (visibles (marksOf sampleCallersTrace)) := by
  obtain ⟨sys, hrun⟩ := sampleCallersTrace_run
  exact (binder_linearizable hrun).2 sampleCallersTrace_oneOwner (by decide)

theorem pick_of_located {db db' : BinderDatabase} {request : BinderRequest} {a : Address}
    (hs : db.step request = some (some (located a), db')) : ∃ message f p,
      request = .locate message ∧ message.signature = some f ∧ db.pick f = some p ∧
        p.2.address = a := by
  generalize hr : some (located a) = reply at hs
  cases step_cases hs with
  | known => cases congrArg RawMessage.getMessageType (Option.some.inj hr)
  | added => cases congrArg RawMessage.getMessageType (Option.some.inj hr)
  | notFound => exact absurd (Option.some.inj hr) (located_ne_notLocated a)
  | found hf hp => exact ⟨_, _, _, rfl, hf, hp, (located_injective (Option.some.inj hr)).symm⟩
  | removed => cases hr

/-- No history in which a client is told an address that nobody asked to register
can be explained so. -/
theorem registration_of_linearizable {a : Address} {s : SocketPtr}
    {history : List (Visible SocketPtr BinderRequest (Option RawMessage))}
    (h : Linearizable closed BinderDatabase.step .new history)
    (hr : .returns s (some (located a)) ∈ history) :
    ∃ k message t, .calls k (.register message t) ∈ history ∧ message.address = a := by
  obtain ⟨marks, p, db, hmarked, rfl, hrun⟩ := h
  obtain ⟨request, heffect⟩ := (hmarked.answered hr).resolve_left (by simp)
  obtain ⟨past, future, hcut⟩ := List.append_of_mem heffect
  rw [hcut] at hrun
  obtain ⟨before, hpast, -⟩ := hrun.split
  obtain ⟨after, hlocate, -⟩ := hrun.step_at hpast
  obtain ⟨-, f, q, -, -, hpick, rfl⟩ := pick_of_located hlocate
  have hclaimed := BinderRun.claimed hpast (.of_queue (pick_mem hpick).1)
  obtain ⟨⟨_, reply⟩, hmem, message, rfl, ha⟩ := hclaimed.exists_mem
  have hasked := hmarked.asked (hcut ▸ List.mem_append_left _ hmem)
  rcases hasked with ⟨k, hk⟩ | ⟨k, hk⟩ | ⟨k, -, hk⟩
  · cases hk
  · exact ⟨k, message, _, hk, ha⟩
  · cases hk

theorem OneOwner.eachOwnCopy {trace : List BinderEvent} (h : OneOwner (trace.map Prod.fst)) :
    EachStep BinderDatabase.step OwnCopy .new trace := by
  rintro past i o future a rfl hrun message s f x rfl hf hx hxa
  have hregistered : OneOwner (past.map Prod.fst ++ [.register message s]) := by
    rw [List.append_cons, List.map_append, List.map_append] at h
    exact h.of_append
  rw [BinderRun.holds_eq_registered hrun hregistered (.of_servers hx) hxa]

theorem BinderRun.located_of_contains {past : List BinderEvent} {db db' : BinderDatabase}
    {message : LocateRequest} {f : Signature} {a : Address} {reply : Option RawMessage}
    (hrun : BinderRun past db) (hone : OneOwner (past.map Prod.fst))
    (hticks : ticks past ≤ 2 ^ 32 - 1) (hf : message.signature = some f)
    (hc : (db.servers f).contains a = true) (hs : db.step (.locate message) = some (reply, db')) :
    ∃ b, reply = some (located b) := by
  obtain ⟨ref, -, hcoupled⟩ := BinderRun.coupled hrun hone hticks
  obtain ⟨x, hx, rfl⟩ := OrderedSet.contains_iff.mp hc
  obtain ⟨p, hp, hpa, -⟩ := hcoupled.consistent.queued x.address ⟨f, hc⟩
  obtain ⟨q, hq⟩ := exists_pick_iff.mpr ⟨x, hx, p, hp, hpa⟩
  cases step_cases hs with
  | notFound hf' hnone =>
    obtain rfl := Option.some.inj (hf.symm.trans hf')
    cases hq.symm.trans hnone
  | found _ _ => exact ⟨_, rfl⟩

theorem acknowledged_of_step {db db' : BinderDatabase} {message : Register} {s : SocketPtr}
    {reply : Option RawMessage} {f : Signature} (hf : message.signature = some f)
    (hs : db.step (.register message s) = some (reply, db')) :
    Acknowledged f message.address s (.register message s, reply) := by
  cases step_cases hs with
  | known => exact ⟨message, rfl, hf, rfl, .inr rfl⟩
  | added => exact ⟨message, rfl, hf, rfl, .inl rfl⟩

/-- A registration that has returned is seen by every locate of its function that
is called later, whoever calls it, as long as the connection it came over is not
found closed. -/
theorem registered_before_located {trace : List (CallersEvent × List CallersMark)}
    {sys : Callers} {listener : Fd} {foreign : Finset Fd}
    {before during between during' after : List CallersMark} {message : Register}
    {request : LocateRequest} {s t : SocketPtr} {answer reply : Option RawMessage} {f : Signature}
    (hrun : CallersRun listener foreign trace sys)
    (hone : OneOwner ((effects (marksOf trace)).map Prod.fst))
    (hticks : ticks (effects (marksOf trace)) ≤ 2 ^ 32 - 1)
    (hmarks : marksOf trace = before ++ .visible (.calls s (.register message s)) ::
      (during ++ .visible (.returns s answer) :: (between ++
        .visible (.calls t (.locate request)) ::
          (during' ++ .visible (.returns t reply) :: after))))
    (hs : ∀ v, .visible v ∈ during → v.caller ≠ s) (ht : ∀ v, .visible v ∈ during' → v.caller ≠ t)
    (hf : message.signature = some f) (hf' : request.signature = some f)
    (hkept : ∀ e ∈ effects (during ++ between ++ during'), ¬ Removed s e) :
    ∃ a, reply = some (located a) := by
  obtain ⟨p, hmarked, -, hdb⟩ := hrun.marked
  rw [hmarks] at hmarked hdb hone hticks
  obtain ⟨d₁, d₂, e₁, e₂, rfl, rfl⟩ := hmarked.real_time hs ht
  -- the history of the database, cut at the two moments of effect
  have hcut : effects (before ++ .visible (.calls s (.register message s)) ::
      ((d₁ ++ .commits s (.register message s) answer :: d₂) ++ .visible (.returns s answer) ::
        (between ++ .visible (.calls t (.locate request)) ::
          ((e₁ ++ .commits t (.locate request) reply :: e₂) ++
            .visible (.returns t reply) :: after)))) =
      (effects (before ++ d₁) ++ (.register message s, answer) :: effects (d₂ ++ between ++ e₁)) ++
        (.locate request, reply) :: effects (e₂ ++ after) := by
    simp
  rw [hcut] at hdb hone hticks
  obtain ⟨db, hpast, hrest⟩ := hdb.split
  obtain ⟨db', hlocate, -⟩ := hdb.step_at hpast
  have hone' : OneOwner ((effects (before ++ d₁) ++ (.register message s, answer) ::
      effects (d₂ ++ between ++ e₁)).map Prod.fst) := by
    rw [List.map_append] at hone
    exact hone.of_append
  have hticks' : ticks (effects (before ++ d₁) ++ (.register message s, answer) ::
      effects (d₂ ++ between ++ e₁)) ≤ 2 ^ 32 - 1 := by
    rw [ticks, List.countP_append] at hticks
    exact Nat.le_trans (Nat.le_add_right ..) hticks
  obtain ⟨db₀, hbefore, -⟩ := hpast.split
  obtain ⟨db₁, hregister, -⟩ := hpast.step_at hbefore
  have hsince : Since (Acknowledged f message.address s) (Removed s)
      (effects (before ++ d₁) ++ (.register message s, answer) ::
        effects (d₂ ++ between ++ e₁)) := by
    refine ⟨_, _, _, rfl, acknowledged_of_step hf hregister, fun e he => hkept e ?_⟩
    simp only [effects_append, effects_commits, List.mem_append, List.mem_cons] at he ⊢
    tauto
  obtain ⟨x, hx, -⟩ := BinderRun.acknowledgedStored hpast hone'.eachOwnCopy f _ s hsince
  exact BinderRun.located_of_contains hpast hone' hticks' hf' (OrderedSet.contains_of_mem hx)
    hlocate

theorem registered_before_located_sample :
    ∃ sys reply, CallersRun 3 {0} sampleCallersTrace sys ∧
      .visible (.returns 101 reply) ∈ marksOf sampleCallersTrace ∧
      ∃ a, reply = some (located a) := by
  obtain ⟨sys, hrun⟩ := sampleCallersTrace_run
  have hmarks : marksOf sampleCallersTrace =
      [.visible (.joins 100)] ++ .visible (.calls 100 (.register (sampleRegister 102 80) 100)) ::
        ([.commits 100 (.register (sampleRegister 102 80) 100) (some (registered 0))] ++
          .visible (.returns 100 (some (registered 0))) :: ([.visible (.joins 101)] ++
            .visible (.calls 101 (.locate (sampleLocate 102))) ::
              ([.commits 101 (.locate (sampleLocate 102)) (some (located (sampleAddress 80)))] ++
                .visible (.returns 101 (some (located (sampleAddress 80)))) :: []))) := rfl
  have hf : (sampleRegister 102 80).signature = some (sampleSignature 102) := by decide
  have hf' : (sampleLocate 102).signature = some (sampleSignature 102) := by decide
  refine ⟨sys, some (located (sampleAddress 80)), hrun, by simp [hmarks], ?_⟩
  exact registered_before_located hrun sampleCallersTrace_oneOwner (by decide) hmarks (by simp)
    (by simp) hf hf' (by simp [Removed])

/-- The loop names a server only while it manages the connection over which that
server has registered the function. -/
theorem located_over_managed_connection {trace : List (BinderInput × List BinderEvent)}
    {b b' : Binder} {listener : Fd} {foreign : Finset Fd} {input : BinderInput}
    {events : List BinderEvent} {message : LocateRequest} {f : Signature} {a : Address}
    (hrun : BinderLoopRun listener foreign trace b) (hs : b.step input = some (events, b'))
    (hl : (.locate message, some (located a)) ∈ events) (hf : message.signature = some f) :
    ∃ client, b.process.server.Manages client ∧
      Since (RegisteredNew f a client.address) (Removed client.address)
        (trace.flatMap Prod.snd) := by
  obtain ⟨db', hstep⟩ : ∃ db', b.database.step (.locate message) =
      some (some (located a), db') := by
    cases Binder.step_cases hs with
    | calls hcall =>
      obtain ⟨rfl, rfl⟩ := Prod.mk.inj (List.mem_singleton.mp hl)
      exact ⟨_, hcall⟩
    | closes => cases List.mem_singleton.mp hl
    | accepts => cases hl
    | polls => cases hl
    | goesOn => cases hl
  obtain ⟨_, f', p, he, hf', hp, rfl⟩ := pick_of_located hstep
  obtain rfl := BinderRequest.locate.inj he
  obtain rfl := Option.some.inj (hf.symm.trans hf')
  obtain ⟨x, hx, hxa⟩ := OrderedSet.contains_iff.mp (pick_mem hp).2
  obtain ⟨client, hm, hsocket⟩ := hrun.sound.held x (.of_servers hx)
  have hgenuine := BinderRun.genuine hrun.binderRun f x hx
  rw [← hsocket, hxa] at hgenuine
  exact ⟨client, hm, hgenuine⟩

theorem located_over_managed_connection_sample :
    ∃ b : Binder, ∃ client, b.process.server.Manages client ∧
      Since (RegisteredNew (sampleSignature 102) (sampleAddress 80) client.address)
        (Removed client.address)
        [(.register (sampleRegister 102 80) 100, some (registered 0))] := by
  obtain ⟨b, hrun, b', hs⟩ : ∃ b, BinderLoopRun 3 {0}
      [(.accept (some {3}) (some (4, 100)), []), (.poll (some {4}), []),
        (.recv (.returned (sampleRegister 102 80).serialize.buffer), []),
        (.handle (fun _ => .received (.threw .connectionClosed)),
          [(.register (sampleRegister 102 80) 100, some (registered 0))]),
        (.send (.ok ()), []), (.roundOver, []), (.accept (some ∅) none, []),
        (.poll (some {4}), []), (.recv (.returned (sampleLocate 102).serialize.buffer), [])] b ∧
      ∃ b', b.step (.handle fun _ => .received (.threw .connectionClosed)) =
        some ([(.locate (sampleLocate 102), some (located (sampleAddress 80)))], b') :=
    ⟨_, .cons rfl (.cons rfl (.cons rfl (.cons rfl (.cons rfl (.cons rfl (.cons rfl (.cons rfl
      (.cons rfl (.nil _))))))))), _, rfl⟩
  have hf : (sampleLocate 102).signature = some (sampleSignature 102) := by decide
  exact ⟨b, located_over_managed_connection hrun hs List.mem_cons_self hf⟩

end RpcLibrary
