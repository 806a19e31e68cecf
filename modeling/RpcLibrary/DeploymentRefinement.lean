import RpcLibrary.BinderRefinement
import RpcLibrary.Services

/-! The library in use behaves as the services it stands for, as long as a server
starts at an address only after the binder has noticed the end of the one before. -/

namespace RpcLibrary

open Runs BinderDatabase

namespace Parties

theorem hosts_setHost (parties : Parties) (a b : Address) (host : Option Host) :
    (parties.setHost a host).hosts b = if b = a then host else parties.hosts b :=
  Function.update_apply ..

theorem hosts_start (parties : Parties) (a b : Address) (s : SocketPtr) :
    (parties.start a s).hosts b = if b = a then some ⟨s, .ready⟩ else parties.hosts b :=
  Function.update_apply ..

end Parties

theorem receiveRegister_cases {db db' : BinderDatabase} {message : Register} {s : SocketPtr}
    {request response : RawMessage} (hsent : transmit message.serialize = some request)
    (h : db.receiveRegister request s = some (response, db')) :
    StepCase db (.register message s) (some response) db' := by
  obtain ⟨rfl, hlen⟩ := transmit_eq_some hsent
  rw [receiveRegister, Register.deserialize_serialize _ hlen, Option.bind_eq_bind,
    Option.bind_some] at h
  exact step_cases (by rw [BinderDatabase.step, h, Option.map_some])

theorem receiveLocate_cases {db db' : BinderDatabase} {message : LocateRequest}
    {request response : RawMessage} (hsent : transmit message.serialize = some request)
    (h : db.receiveLocate request = some (response, db')) :
    StepCase db (.locate message) (some response) db' := by
  obtain ⟨rfl, hlen⟩ := transmit_eq_some hsent
  rw [receiveLocate, LocateRequest.deserialize_serialize _ hlen, Option.bind_eq_bind,
    Option.bind_some] at h
  exact step_cases (by rw [BinderDatabase.step, h, Option.map_some])

theorem Reference.eq_of_encode {ref : Reference} {f : Signature} {answer : ReferenceAnswer}
    (h : (ref.locate f).1.encode = answer.encode)
    (hlocates : ∀ status, answer ≠ .registerSuccess status) :
    ref.locate f = (answer, (ref.locate f).2) := by
  refine Prod.ext ?_ rfl
  have hanswer : (ref.locate f).1 = .locateFailure ∨ ∃ a, (ref.locate f).1 = .locateSuccess a := by
    cases hfind : ref.order.find? (ref.offers f) with
    | none => exact .inl (by rw [Reference.locate_of_none hfind])
    | some a => exact .inr ⟨a, by rw [Reference.locate_of_some hfind]⟩
  rcases hanswer with hanswer | ⟨a, hanswer⟩ <;> rw [hanswer] at h ⊢
  · cases answer with
    | locateFailure => rfl
    | locateSuccess b => exact absurd h.symm (located_ne_notLocated b)
    | registerSuccess status => exact absurd rfl (hlocates status)
  · cases answer with
    | locateFailure => exact absurd h (located_ne_notLocated a)
    | locateSuccess b => exact congrArg _ (located_injective h)
    | registerSuccess status => exact absurd rfl (hlocates status)

namespace Deployment

/-- What a step can do. -/
inductive StepCase (sys : Deployment) : DeploymentEvent → DeploymentOutput → Deployment → Prop
  | starts {a s} (hfree : sys.parties.Free a s) :
      StepCase sys (.starts a s) .internal { sys with
        databases := Function.update sys.databases a ∅
        parties := sys.parties.start a s }
  | registers {a s name argTypes f response binder}
      (hhost : sys.parties.hosts a = some ⟨s, .ready⟩)
      (hs : BinderDatabase.StepCase sys.binder
        (.register ⟨a.hostname, a.port, name, argTypes⟩ s) (some response) binder) :
      StepCase sys (.registers a name argTypes f) .internal { sys with
        binder, parties := sys.parties.setHost a (some ⟨s, .awaiting name argTypes f response⟩) }
  | registered {a s name argTypes f response status database}
      (hhost : sys.parties.hosts a = some ⟨s, .awaiting name argTypes f response⟩)
      (hr : rpcRegister (some a) (fun _ => .answered response) name argTypes.words f
        (sys.databases a) = some (status, database)) :
      StepCase sys (.registered a) (.returned status) { sys with
        databases := Function.update sys.databases a database
        parties := sys.parties.setHost a (some ⟨s, .ready⟩) }
  | executes {a s} (hhost : sys.parties.hosts a = some ⟨s, .ready⟩) :
      StepCase sys (.executes a) .internal
        { sys with parties := sys.parties.setHost a (some ⟨s, .serving⟩) }
  | dies {a} (hhost : (sys.parties.hosts a).isSome = true) :
      StepCase sys (.dies a) .internal { sys with parties := sys.parties.setHost a none }
  | removes {s} (hclosed : sys.parties.Closed s) :
      StepCase sys (.removes s) .internal { sys with
        binder := sys.binder.removeIfServer s
        parties := sys.parties.disconnect s }
  | unlocated {c call binder} (hclient : sys.parties.clients c = none)
      (hs : BinderDatabase.StepCase sys.binder (.locate ⟨call.name, call.argTypes⟩)
        (some notLocated) binder) :
      StepCase sys (.locates c call)
        (.finished ⟨.failed StatusCodes.locateFailure.toInt call.args, none⟩) { sys with binder }
  | located {c call a binder} (hclient : sys.parties.clients c = none)
      (hs : BinderDatabase.StepCase sys.binder (.locate ⟨call.name, call.argTypes⟩)
        (some (located a)) binder) :
      StepCase sys (.locates c call) .internal
        { sys with binder, parties := sys.parties.setClient c (some (call, a)) }
  | calls {c call a breakage exchange outcome}
      (hclient : sys.parties.clients c = some (call, a))
      (hexchange : sys.exchange call a breakage = some exchange)
      (hcall : callServer exchange call.name call.argTypes.words call.args = some outcome) :
      StepCase sys (.calls c breakage) (.finished outcome)
        { sys with parties := sys.parties.setClient c none }

theorem locates_cases {sys sys' : Deployment} {c : Nat} {call : Call} {o : DeploymentOutput}
    (hclient : sys.parties.clients c = none)
    (h : sys.step (.locates c call) = some (o, sys')) : StepCase sys (.locates c call) o sys' := by
  simp only [Deployment.step, hclient] at h
  obtain ⟨request, hrequest, h⟩ := Option.bind_eq_some_iff.mp h
  obtain ⟨⟨response, binder⟩, hreceive, h⟩ := Option.bind_eq_some_iff.mp h
  obtain ⟨sent, hsent, h⟩ := Option.bind_eq_some_iff.mp h
  obtain ⟨rfl, hlen⟩ := transmit_eq_some hsent
  obtain ⟨located, hlocate, h⟩ := Option.bind_eq_some_iff.mp h
  have hs := receiveLocate_cases hrequest hreceive
  generalize hreply : some sent = reply at hs
  cases hs with
  | notFound hf hp =>
    obtain rfl := Option.some.inj hreply
    obtain rfl := Option.some.inj hlocate
    obtain ⟨rfl, rfl⟩ := Prod.mk.inj (Option.some.inj h)
    exact .unlocated hclient (.notFound hf hp)
  | @found _ f p hf hp =>
    obtain rfl := Option.some.inj hreply
    have hsuccess : LocateSuccess.deserialize (RpcLibrary.located p.2.address) =
        some ⟨p.2.address.hostname, p.2.address.port⟩ :=
      LocateSuccess.deserialize_serialize _ hlen
    have haddress : locateServerFor (fun _ => .answered (RpcLibrary.located p.2.address)) call.name
        call.argTypes.words = some (.ok p.2.address) := by
      have ht : (RpcLibrary.located p.2.address).getMessageType = .locateSuccess := rfl
      simp only [locateServerFor, ht, hsuccess, Option.bind_eq_bind, Option.bind_some]
    obtain rfl := Option.some.inj (haddress.symm.trans hlocate)
    obtain ⟨rfl, rfl⟩ := Prod.mk.inj (Option.some.inj h)
    exact .located hclient (.found hf hp)

theorem step_cases {sys sys' : Deployment} {e : DeploymentEvent} {o : DeploymentOutput}
    (h : sys.step e = some (o, sys')) : StepCase sys e o sys' := by
  cases e with
  | starts a s =>
    obtain ⟨hfree, h⟩ := Option.ite_none_right_eq_some.mp h
    obtain ⟨rfl, rfl⟩ := Prod.mk.inj (Option.some.inj h)
    exact .starts hfree
  | registers a name argTypes f =>
    rw [Deployment.step] at h
    split at h
    · obtain ⟨request, hrequest, h⟩ := Option.bind_eq_some_iff.mp h
      obtain ⟨⟨response, binder⟩, hreceive, h⟩ := Option.bind_eq_some_iff.mp h
      obtain ⟨rfl, rfl⟩ := Prod.mk.inj (Option.some.inj h)
      exact .registers ‹_› (receiveRegister_cases hrequest hreceive)
    · cases h
  | registered a =>
    rw [Deployment.step] at h
    split at h
    · obtain ⟨⟨status, database⟩, hr, h⟩ := Option.bind_eq_some_iff.mp h
      obtain ⟨rfl, rfl⟩ := Prod.mk.inj (Option.some.inj h)
      exact .registered ‹_› hr
    · cases h
  | executes a =>
    rw [Deployment.step] at h
    split at h
    · obtain ⟨rfl, rfl⟩ := Prod.mk.inj (Option.some.inj h)
      exact .executes ‹_›
    · cases h
  | dies a =>
    obtain ⟨hhost, h⟩ := Option.ite_none_right_eq_some.mp h
    obtain ⟨rfl, rfl⟩ := Prod.mk.inj (Option.some.inj h)
    exact .dies hhost
  | removes s =>
    obtain ⟨hclosed, h⟩ := Option.ite_none_right_eq_some.mp h
    obtain ⟨rfl, rfl⟩ := Prod.mk.inj (Option.some.inj h)
    exact .removes hclosed
  | locates c call =>
    cases hclient : sys.parties.clients c with
    | none => exact locates_cases hclient h
    | some pending => simp [Deployment.step, hclient] at h
  | calls c breakage =>
    rw [Deployment.step] at h
    split at h
    · cases h
    · obtain ⟨exchange, hexchange, h⟩ := Option.bind_eq_some_iff.mp h
      obtain ⟨outcome, hcall, h⟩ := Option.bind_eq_some_iff.mp h
      obtain ⟨rfl, rfl⟩ := Prod.mk.inj (Option.some.inj h)
      exact .calls ‹_› hexchange hcall

/-- The binder's clock has not wrapped, and a server starts at an address only
when the binder has no connection left from there. -/
def Fresh (sys : Deployment) (e : DeploymentEvent) : Prop :=
  sys.binder.time ≠ 0 ∧ match e with
    | .starts a _ => a ∉ sys.parties.connections.map Prod.snd
    | _ => True

instance (sys : Deployment) (e : DeploymentEvent) : Decidable (sys.Fresh e) :=
  match e with
  | .starts _ _ => inferInstanceAs (Decidable (_ ≠ _ ∧ _ ∉ _))
  | .registers .. | .registered _ | .executes _ | .dies _ | .removes _ | .locates .. | .calls .. =>
    inferInstanceAs (Decidable (_ ≠ _ ∧ True))

end Deployment

/-- Servers register skeletons that work in place. -/
def DeploymentEvent.InPlace : DeploymentEvent → Prop
  | .registers _ _ _ f => f.InPlace
  | _ => True

namespace Deployment

def Orderly (sys : Deployment) (e : DeploymentEvent) : Prop := sys.Fresh e ∧ e.InPlace

/-- What the steps keep: a process has a connection that the binder knows, each
address has one at most, and the binder's copies of servers belong to them. -/
structure Sound (sys : Deployment) : Prop where
  inPlace : ∀ a f g, (sys.databases a).get? f = some g → g.InPlace
  awaited : ∀ a s name argTypes f response,
    sys.parties.hosts a = some ⟨s, .awaiting name argTypes f response⟩ →
      f.InPlace ∧ response.getMessageType = .registerSuccess
  distinct : (sys.parties.connections.map Prod.snd).Nodup
  connected : ∀ a host, sys.parties.hosts a = some host →
    (host.socket, a) ∈ sys.parties.connections
  held : ∀ x, Holds sys.binder x → (x.serverSocket, x.address) ∈ sys.parties.connections

theorem Sound.new : Sound new where
  inPlace a f g h := by cases h
  awaited a s name argTypes f response h := by cases h
  distinct := .nil
  connected a host h := by cases h
  held x hx := by rcases hx with ⟨f, hx⟩ | ⟨t, hx⟩ | ⟨t, hx⟩ <;> cases hx

theorem registered_eq {a : Address} {response : RawMessage} {name : Bytes} {argTypes : ArgTypes}
    {f : Skeleton} {database database' : ServerDatabase} {status : Word}
    (htype : response.getMessageType = .registerSuccess)
    (h : rpcRegister (some a) (fun _ => .answered response) name argTypes.words f database =
      some (status, database')) :
    ∃ signature, signatureOfArgTypes name argTypes = some signature ∧ status = 0 ∧
      database' = database.assign signature f := by
  simp only [rpcRegister, htype, ArgTypes.ofArray_words] at h
  obtain ⟨signature, hsignature, h⟩ := Option.bind_eq_some_iff.mp h
  obtain ⟨rfl, rfl⟩ := Prod.mk.inj (Option.some.inj h)
  exact ⟨signature, hsignature, rfl, rfl⟩

/-- A change at one address that leaves the connection of its process alone. -/
theorem Sound.setHost {sys : Deployment} {a : Address} {host : Option Host}
    {database : ServerDatabase} (h : Sound sys)
    (hconnected : ∀ own, host = some own → (own.socket, a) ∈ sys.parties.connections)
    (hawaited : ∀ s name argTypes f response, host = some ⟨s, .awaiting name argTypes f response⟩ →
      f.InPlace ∧ response.getMessageType = .registerSuccess)
    (hplace : ∀ f g, database.get? f = some g → g.InPlace) :
    Sound { sys with
      databases := Function.update sys.databases a database
      parties := sys.parties.setHost a host } where
  inPlace b f g hg := by
    simp only [Function.update_apply] at hg
    split_ifs at hg
    · exact hplace f g hg
    · exact h.inPlace b f g hg
  awaited b s name argTypes f response hb := by
    simp only [Parties.hosts_setHost] at hb
    split_ifs at hb
    · exact hawaited s name argTypes f response hb
    · exact h.awaited b s name argTypes f response hb
  distinct := h.distinct
  connected b own hb := by
    simp only [Parties.hosts_setHost] at hb
    split_ifs at hb with hba
    · exact hba ▸ hconnected own hb
    · exact h.connected b own hb
  held := h.held

theorem Sound.setHost_only {sys : Deployment} {a : Address} {host : Option Host} (h : Sound sys)
    (hconnected : ∀ own, host = some own → (own.socket, a) ∈ sys.parties.connections)
    (hawaited : ∀ s name argTypes f response, host = some ⟨s, .awaiting name argTypes f response⟩ →
      f.InPlace ∧ response.getMessageType = .registerSuccess) :
    Sound { sys with parties := sys.parties.setHost a host } := by
  have hsound := @setHost sys a host (sys.databases a) h hconnected hawaited (h.inPlace a)
  rwa [Function.update_eq_self] at hsound

theorem Sound.setBinder {sys : Deployment} {binder : BinderDatabase} {request : BinderRequest}
    {reply : Option RawMessage} (h : Sound sys)
    (hs : BinderDatabase.StepCase sys.binder request reply binder)
    (hown : ∀ message s, request = .register message s →
      (s, message.address) ∈ sys.parties.connections) : Sound { sys with binder } where
  inPlace := h.inPlace
  awaited := h.awaited
  distinct := h.distinct
  connected := h.connected
  held x hx := by
    rcases Holds.of_step hs hx with ⟨hx, -⟩ | ⟨message, rfl, ha⟩
    · exact h.held x hx
    · exact ha ▸ hown message _ rfl

theorem Sound.step {sys sys' : Deployment} {e : DeploymentEvent} {o : DeploymentOutput}
    (h : Sound sys) (horderly : Orderly sys e) (hs : StepCase sys e o sys') : Sound sys' := by
  obtain ⟨⟨-, hfresh⟩, hplace⟩ := horderly
  cases hs with
  | @starts a s hfree =>
    refine ⟨fun b f g hg => ?_, fun b t name argTypes f response hb => ?_,
      List.nodup_cons.mpr ⟨hfresh, h.distinct⟩, fun b own hb => ?_,
      fun x hx => List.mem_cons_of_mem _ (h.held x hx)⟩
    · simp only [Function.update_apply] at hg
      split_ifs at hg
      · cases hg
      · exact h.inPlace b f g hg
    · simp only [Parties.hosts_start] at hb
      split_ifs at hb
      · cases hb
      · exact h.awaited b t name argTypes f response hb
    · simp only [Parties.hosts_start] at hb
      split_ifs at hb with hba
      · obtain rfl := Option.some.inj hb
        exact hba ▸ List.mem_cons_self
      · exact List.mem_cons_of_mem _ (h.connected b own hb)
  | @registers a s name argTypes f response binder hhost hs =>
    have hconnected := h.connected a _ hhost
    have hbinder := h.setBinder hs fun message t ht => by
      obtain ⟨rfl, rfl⟩ := BinderRequest.register.inj ht
      exact hconnected
    refine hbinder.setHost_only (fun own hown => Option.some.inj hown ▸ hconnected) ?_
    intro t name' argTypes' f' response' hhost'
    obtain ⟨-, he⟩ := Host.mk.inj (Option.some.inj hhost')
    obtain ⟨-, -, rfl, rfl⟩ := HostPhase.awaiting.inj he
    refine ⟨hplace, ?_⟩
    generalize hreply : some response = reply at hs
    cases hs <;> (obtain rfl := Option.some.inj hreply; rfl)
  | @registered a s name argTypes f response status database hhost hr =>
    obtain ⟨hf, htype⟩ := h.awaited a s name argTypes f response hhost
    obtain ⟨signature, -, -, rfl⟩ := registered_eq htype hr
    have hconnected := h.connected a _ hhost
    refine h.setHost (fun own hown => Option.some.inj hown ▸ hconnected)
      (fun t name' argTypes' f' response' hhost' => by cases hhost') fun g g' hg => ?_
    rw [OrderedMap.get?_assign] at hg
    split_ifs at hg
    · exact Option.some.inj hg ▸ hf
    · exact h.inPlace a g g' hg
  | @executes a s hhost =>
    have hconnected := h.connected a _ hhost
    exact h.setHost_only (fun own hown => Option.some.inj hown ▸ hconnected)
      fun t name argTypes f response hhost' => by cases hhost'
  | @dies a hhost =>
    refine h.setHost_only (fun own hown => ?_) fun t name argTypes f response hhost' => ?_
    · cases hown
    · cases hhost'
  | @removes s hclosed =>
    refine ⟨h.inPlace, h.awaited, h.distinct.sublist (List.filter_sublist.map _),
      fun a own ha => ?_, fun x hx => ?_⟩
    · have hmem := h.connected a own ha
      refine List.mem_filter.mpr ⟨hmem, decide_eq_true fun hsocket => ?_⟩
      have hsame := (congrArg (Option.map Host.socket) ha).trans (congrArg some hsocket)
      exact hclosed _ hmem hsocket hsame
    · rcases Holds.of_step .removed hx with ⟨hx, hne⟩ | ⟨message, hm, -⟩
      · exact List.mem_filter.mpr ⟨h.held x hx, decide_eq_true fun hsocket => hne (hsocket ▸ rfl)⟩
      · cases hm
  | unlocated hclient hs => exact h.setBinder hs fun message t ht => by cases ht
  | located hclient hs =>
    have hbinder := h.setBinder hs fun message t ht => by cases ht
    exact ⟨hbinder.inPlace, hbinder.awaited, hbinder.distinct, hbinder.connected, hbinder.held⟩
  | calls => exact ⟨h.inPlace, h.awaited, h.distinct, h.connected, h.held⟩

/-- The binder with the directory it implements, and the databases of the
servers with the skeletons they hold. -/
structure Related (sys : Deployment) (services : Services) : Prop where
  sound : Sound sys
  parties : services.parties = sys.parties
  directory : ∃ n, n ≤ 2 ^ 32 - 1 ∧ Coupled n sys.binder services.directory
  skeletons : ∀ a f, services.skeletons a f = (sys.databases a).get? f

theorem Related.new : Related new .new := ⟨.new, rfl, ⟨0, by decide, .new⟩, fun _ _ => rfl⟩

/-- A request that the binder answers is answered alike by the directory. -/
theorem Related.answers {sys : Deployment} {services : Services} {binder : BinderDatabase}
    {request : BinderRequest} {reply : Option RawMessage} (h : Related sys services)
    (htime : sys.binder.time ≠ 0) (hs : BinderDatabase.StepCase sys.binder request reply binder)
    (hown : ∀ message s, request = .register message s →
      (s, message.address) ∈ sys.parties.connections) :
    ∃ directory, services.directory.step request = some (reply, directory) ∧
      ∃ n, n ≤ 2 ^ 32 - 1 ∧ Coupled n binder directory := by
  obtain ⟨n, hn, hcoupled⟩ := h.directory
  have hclock : n + 1 ≤ 2 ^ 32 - 1 := by
    by_contra hlt
    obtain rfl : n = 2 ^ 32 - 1 := by omega
    exact htime (hcoupled.time.trans (by decide))
  have htick : tickCount (request, reply) ≤ 1 := by
    rw [tickCount]
    split_ifs <;> omega
  have hsame (message : Register) (s : SocketPtr) (hr : request = .register message s)
      (y : ServerData) (hy : Holds sys.binder y) (ha : y.address = message.address) :
      y = ⟨message.serverHostname, message.serverPort, s⟩ := by
    have hheld := h.sound.held y hy
    rw [ha] at hheld
    have hpair := List.inj_on_of_nodup_map h.sound.distinct hheld (hown message s hr) rfl
    exact ServerData.eq_of_address ha (congrArg Prod.fst hpair)
  obtain ⟨directory, hstep, hnext⟩ := hcoupled.answers hsame hs
  exact ⟨directory, hstep, _, by omega, hnext (by omega)⟩

theorem Related.setParties {sys : Deployment} {services : Services} {parties : Parties}
    (h : Related sys services) (hsound : Sound { sys with parties }) :
    Related { sys with parties } { services with parties } :=
  ⟨hsound, rfl, h.directory, h.skeletons⟩

/-- What a call can meet, and what it comes to with the skeleton that it finds there. -/
inductive CallCase (sys : Deployment) (call : Call) (a : Address) :
    Option Breakage → CallOutcome → Prop
  | refused {breakage} (hhost : sys.parties.hosts a = none) :
      CallCase sys call a breakage
        ⟨.failed StatusCodes.serverConnectionError.toInt call.args, none⟩
  | unhandled {host} (hhost : sys.parties.hosts a = some host) :
      CallCase sys call a (some .unhandled)
        ⟨.failed StatusCodes.serverConnectionError.toInt call.args, none⟩
  | unheard {s f outcome} (hhost : sys.parties.hosts a = some ⟨s, .serving⟩)
      (hf : call.signature = some f)
      (hperform : call.performUnheard ((sys.databases a).get? f) = some outcome) :
      CallCase sys call a (some .unheard) outcome
  | answered {s f outcome} (hhost : sys.parties.hosts a = some ⟨s, .serving⟩)
      (hf : call.signature = some f)
      (hperform : call.perform ((sys.databases a).get? f) = some outcome) :
      CallCase sys call a none outcome

theorem call_cases {sys : Deployment} {call : Call} {a : Address} {breakage : Option Breakage}
    {exchange : ServerExchange} {outcome : CallOutcome} (h : Sound sys)
    (hexchange : sys.exchange call a breakage = some exchange)
    (hcall : callServer exchange call.name call.argTypes.words call.args = some outcome) :
    CallCase sys call a breakage outcome := by
  unfold Deployment.exchange at hexchange
  split at hexchange
  · obtain rfl := Option.some.inj hexchange
    exact callServer_refused hcall ▸ .refused ‹_›
  · obtain rfl := Option.some.inj hexchange
    exact callServer_failed hcall ▸ .unhandled ‹_›
  · obtain ⟨request, hsent, hexchange⟩ := Option.bind_eq_some_iff.mp hexchange
    obtain ⟨executed, hserve, hexchange⟩ := Option.bind_eq_some_iff.mp hexchange
    obtain rfl := Option.some.inj hexchange
    obtain ⟨f, hf, hperform⟩ := callServer_unheard hsent hserve hcall
    exact .unheard ‹_› hf hperform
  · obtain rfl := Option.some.inj hexchange
    obtain ⟨f, hf, hperform⟩ := callServer_answered (h.inPlace a) hcall
    exact .answered ‹_› hf hperform
  · cases hexchange

theorem Related.answer {sys : Deployment} {services : Services} {call : Call} {a : Address}
    {breakage : Option Breakage} {outcome : CallOutcome} (h : Related sys services)
    (hcall : CallCase sys call a breakage outcome) :
    services.answer call a breakage = some outcome := by
  cases hcall with
  | refused hhost => simp only [Services.answer, h.parties, hhost]
  | unhandled hhost => simp only [Services.answer, h.parties, hhost]
  | unheard hhost hf hperform =>
    simp only [Services.answer, h.parties, hhost, hf, Option.bind_some, h.skeletons, hperform]
  | answered hhost hf hperform =>
    simp only [Services.answer, h.parties, hhost, hf, Option.bind_some, h.skeletons, hperform]

theorem Related.step {sys sys' : Deployment} {services : Services} {e : DeploymentEvent}
    {o : DeploymentOutput} (h : Related sys services) (horderly : Orderly sys e)
    (hs : StepCase sys e o sys') :
    ∃ services', services.step e = some (o, services') ∧ Related sys' services' := by
  have hsound := h.sound.step horderly hs
  have hparties := h.parties
  cases hs with
  | @starts a s hfree =>
    refine ⟨_, if_pos (hparties ▸ hfree), hsound, by rw [hparties], h.directory, fun b f => ?_⟩
    simp only [Function.update_apply]
    split_ifs
    · rfl
    · exact h.skeletons b f
  | @registers a s name argTypes f response binder hhost hs =>
    obtain ⟨directory, hstep, hcoupled⟩ := h.answers horderly.1.1 hs fun message t ht => by
      obtain ⟨rfl, rfl⟩ := BinderRequest.register.inj ht
      exact h.sound.connected a _ hhost
    obtain ⟨signature, hsignature, hregister⟩ := Option.map_eq_some_iff.mp hstep
    obtain ⟨hresponse, rfl⟩ := Prod.mk.inj hregister
    obtain rfl := Option.some.inj hresponse
    have hf : signatureOfArgTypes name argTypes = some signature := hsignature
    refine ⟨⟨_, services.skeletons, _⟩, ?_, hsound, rfl, hcoupled, h.skeletons⟩
    simp only [Services.step, hparties, hhost, hf, Option.map_some]
    rfl
  | @registered a s name argTypes f response status database hhost hr =>
    obtain ⟨-, htype⟩ := h.sound.awaited a s name argTypes f response hhost
    obtain ⟨signature, hsignature, rfl, rfl⟩ := registered_eq htype hr
    refine ⟨⟨services.directory, services.assign a signature f, _⟩, ?_, hsound, rfl, h.directory,
      fun b g => ?_⟩
    · simp only [Services.step, hparties, hhost, hsignature, Option.map_some]
    · simp only [Services.assign, Function.update_apply]
      by_cases hba : b = a
      · rw [if_pos hba, if_pos hba, OrderedMap.get?_assign, Function.update_apply, h.skeletons]
        rfl
      · rw [if_neg hba, if_neg hba, h.skeletons]
  | @executes a s hhost =>
    refine ⟨_, ?_, h.setParties hsound⟩
    simp only [Services.step, hparties, hhost]
  | @dies a hhost =>
    refine ⟨_, ?_, h.setParties hsound⟩
    simp only [Services.step, hparties, if_pos hhost]
  | @removes s hclosed =>
    obtain ⟨n, hn, hcoupled⟩ := h.directory
    exact ⟨_, if_pos (hparties ▸ hclosed), hsound, by rw [hparties], ⟨n, hn, hcoupled.removed s⟩,
      h.skeletons⟩
  | @unlocated c call binder hclient hs =>
    obtain ⟨directory, hstep, hcoupled⟩ := h.answers horderly.1.1 hs fun message t ht => by cases ht
    obtain ⟨signature, hsignature, hlocate⟩ := Option.map_eq_some_iff.mp hstep
    have hf : call.signature = some signature := hsignature
    obtain ⟨hresponse, rfl⟩ := Prod.mk.inj hlocate
    have hanswer : services.directory.locate signature = (.locateFailure, _) :=
      Reference.eq_of_encode (Option.some.inj hresponse) fun _ h => by cases h
    refine ⟨{ services with directory := (services.directory.locate signature).2 }, ?_, hsound,
      hparties, hcoupled, h.skeletons⟩
    simp only [Services.step, hparties, hclient, hf, Option.map_some]
    rw [hanswer]
  | @located c call a binder hclient hs =>
    obtain ⟨directory, hstep, hcoupled⟩ := h.answers horderly.1.1 hs fun message t ht => by cases ht
    obtain ⟨signature, hsignature, hlocate⟩ := Option.map_eq_some_iff.mp hstep
    have hf : call.signature = some signature := hsignature
    obtain ⟨hresponse, rfl⟩ := Prod.mk.inj hlocate
    have hanswer : services.directory.locate signature = (.locateSuccess a, _) :=
      Reference.eq_of_encode (Option.some.inj hresponse) fun _ h => by cases h
    refine ⟨⟨_, services.skeletons, _⟩, ?_, hsound, rfl, hcoupled, h.skeletons⟩
    simp only [Services.step, hparties, hclient, hf, Option.map_some]
    rw [hanswer]
  | @calls c call a breakage exchange outcome hclient hexchange hcall =>
    have hanswer := h.answer (call_cases h.sound hexchange hcall)
    refine ⟨_, ?_, h.setParties hsound⟩
    simp only [Services.step, hparties, hclient, hanswer, Option.map_some]

end Deployment

abbrev DeploymentRun (trace : DeploymentTrace) (sys : Deployment) : Prop :=
  Run Deployment.step .new trace sys

theorem DeploymentRun.sound {trace : DeploymentTrace} {sys : Deployment}
    (hrun : DeploymentRun trace sys)
    (horderly : EachStep Deployment.step Deployment.Orderly .new trace) : sys.Sound := by
  refine hrun.history_of_each (P := fun _ sys => sys.Sound) horderly .new ?_
  intro past a e o b _ hsound he hs
  exact hsound.step he (Deployment.step_cases hs)

/-- Registrations, lookups and calls of any number of servers and clients, over
messages and against the binder's and the servers' databases, come to what the
directory and the skeletons alone make of them. -/
theorem deployment_refines_services {trace : DeploymentTrace}
    {sys : Deployment} (hrun : DeploymentRun trace sys)
    (horderly : EachStep Deployment.step Deployment.Orderly .new trace) :
    ∃ services, Run Services.step .new trace services ∧ services.parties = sys.parties ∧
      ∀ a f, services.skeletons a f = (sys.databases a).get? f := by
  obtain ⟨services, hservices, hrelated⟩ := hrun.refine (f := fun e => [e]) horderly
    Deployment.Related.new fun h he hs => by
      obtain ⟨services', hstep, h'⟩ := h.step he (Deployment.step_cases hs)
      exact ⟨services', .single hstep, h'⟩
  rw [List.flatMap_singleton'] at hservices
  exact ⟨services, hservices, hrelated.parties, hrelated.skeletons⟩

/-- Adds one to every byte it is given. -/
def incrementSkeleton : Skeleton := fun argTypes args =>
  some ⟨0, argTypes, args.map fun block => block.map (· + 1)⟩

theorem incrementSkeleton_inPlace : incrementSkeleton.InPlace := by
  rintro words args _ hargs ⟨⟩ _
  refine ⟨rfl, List.forall₂_map_right_iff.mpr (hargs.imp ?_)⟩
  intro w block hblock
  exact (List.length_map _).trans hblock

def sampleCall : Call := ⟨[102], sampleArgTypes, [[0], [9]], sized_sample⟩

def sampleOutcome : CallOutcome :=
  ⟨⟨0, [(0, [1])], [[1], [9]]⟩, some ⟨0, sampleArgTypes.words, [[1], [10]]⟩⟩

theorem inPlace_of_mem {trace : DeploymentTrace} (h : ∀ e ∈ trace, e.1.InPlace)
    {past future : DeploymentTrace} {e : DeploymentEvent} {o : DeploymentOutput}
    (he : trace = past ++ (e, o) :: future) : e.InPlace := h (e, o) (by simp [he])

/-- One server and one client, from the server's start to the client's result. -/
def sampleDeployment : DeploymentTrace :=
  [(.starts (sampleAddress 80) 1, .internal),
    (.registers (sampleAddress 80) [102] sampleArgTypes incrementSkeleton, .internal),
    (.registered (sampleAddress 80), .returned 0), (.executes (sampleAddress 80), .internal),
    (.locates 0 sampleCall, .internal), (.calls 0 none, .finished sampleOutcome)]

theorem deployment_refines_services_sample :
    ∃ sys services, DeploymentRun sampleDeployment sys ∧
      Run Services.step .new sampleDeployment services ∧ services.parties = sys.parties := by
  have hrun : DeploymentRun sampleDeployment _ :=
    .cons rfl (.cons rfl (.cons rfl (.cons rfl (.cons rfl (.cons rfl (.nil _))))))
  have hfresh : EachStep Deployment.step Deployment.Fresh .new sampleDeployment :=
    .of_check rfl
  have hplace : ∀ e ∈ sampleDeployment, e.1.InPlace := by
    simp [sampleDeployment, DeploymentEvent.InPlace, incrementSkeleton_inPlace]
  obtain ⟨services, hservices, hparties, -⟩ := deployment_refines_services hrun
    fun past e o future a he hr => ⟨hfresh past e o future a he hr, inPlace_of_mem hplace he⟩
  exact ⟨_, services, hrun, hservices, hparties⟩

end RpcLibrary
