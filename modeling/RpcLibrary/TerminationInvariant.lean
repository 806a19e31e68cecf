import RpcLibrary.TerminationProtocol

/-! What holds in every state of the protocol, as long as servers are told to
terminate when nothing but their answer can come from them. -/

namespace RpcLibrary

open BinderDatabase

def SettledWhenTold (net : Network) (e : ProtocolEvent) : Prop :=
  e = .binder (.tells none) → ∀ s ∈ net.current?, (net.links s).Settled

instance (net : Network) (e : ProtocolEvent) : Decidable (SettledWhenTold net e) :=
  inferInstanceAs (Decidable (_ → _))

def LoopPhase.repliesTo : LoopPhase → SocketPtr → Bool
  | replying s _ _, t => s = t
  | _, _ => false

def LoopPhase.status (targets : List SocketPtr) : LoopPhase → SocketPtr → LinkStatus
  | telling _ exchanges, s => if s ∈ targets.take exchanges.length then .heard else .untold
  | hearing _ exchanges, s =>
    if s ∈ targets.take exchanges.length then .heard
    else if targets[exchanges.length]? = some s then .told
    else .untold
  | _, _ => .untold

namespace Network

def status (net : Network) (s : SocketPtr) : LinkStatus := net.loop.status net.targets s

/-- What holds while the binder runs: every connection looks as it should, who is
stored was registered by its own peer, and an exchange goes wrong only where a
connection fails. -/
structure Sound (programs : SocketPtr → Program) (net : Network) : Prop where
  links : ∀ s, LinkCase (programs s).registers (net.status s) (net.loop.repliesTo s) (net.links s)
  own : ∀ x, Holds net.database x →
    ∃ message ∈ (programs x.serverSocket).registers, message.address = x.address
  exchanges : ∀ exchange ∈ net.loop.exchanges,
    exchange.failure = none ∨ ∃ s, (net.links s).failed = true

theorem Sound.new (programs : SocketPtr → Program) : (Network.new programs).Sound programs where
  links s := (programs s).start_case
  own x hx := by
    rcases hx with ⟨f, hx⟩ | ⟨t, hx⟩ | ⟨t, hx⟩ <;> cases hx
  exchanges _ h := absurd h List.not_mem_nil

variable {programs : SocketPtr → Program}

theorem Sound.registers_ne_nil {net : Network} (h : net.Sound programs) {s : SocketPtr}
    (hs : s ∈ net.targets) : (programs s).registers ≠ [] := by
  obtain ⟨e, he, rfl⟩ := List.mem_map.mp hs
  obtain ⟨message, hm, -⟩ := h.own e.1 (.of_timestamp he)
  exact List.ne_nil_of_mem hm

/-- A server is stored under one address, so it is asked to terminate once. -/
theorem Sound.targets_nodup {net : Network} (h : net.Sound programs) : net.targets.Nodup := by
  refine List.pairwise_map.mpr (net.database.serverToTimestamp.sorted.imp_of_mem ?_)
  intro e e' he he' hlt hs
  obtain ⟨message, hm, ha⟩ := h.own e.1 (.of_timestamp he)
  obtain ⟨message', hm', ha'⟩ := h.own e'.1 (.of_timestamp he')
  rw [← hs] at hm'
  have hregistered : message.address = message'.address := Program.address_eq hm hm'
  have haddress : e.1.address = e'.1.address := by rw [← ha, ← ha', hregistered]
  exact hlt.ne haddress

/-- The frame of every step: it changes one connection, and what the loop does
next concerns no other one. -/
theorem Sound.update {net net' : Network} {s : SocketPtr} {l : Link} (h : net.Sound programs)
    (hlinks : net'.links = Function.update net.links s l)
    (hothers : ∀ t, t ≠ s → net'.status t = net.status t ∧
      net'.loop.repliesTo t = net.loop.repliesTo t)
    (hl : LinkCase (programs s).registers (net'.status s) (net'.loop.repliesTo s) l)
    (hfailed : (net.links s).failed = true → l.failed = true)
    (hown : ∀ x, Holds net'.database x →
      ∃ message ∈ (programs x.serverSocket).registers, message.address = x.address)
    (hexchanges : ∀ exchange ∈ net'.loop.exchanges, exchange ∈ net.loop.exchanges ∨
      exchange.failure = none ∨ l.failed = true) : net'.Sound programs := by
  have hstill (t : SocketPtr) (ht : (net.links t).failed = true) :
      (net'.links t).failed = true := by
    rw [hlinks]
    by_cases hts : t = s
    · subst hts
      rw [Function.update_self]
      exact hfailed ht
    · rw [Function.update_of_ne hts]
      exact ht
  refine ⟨fun t => ?_, hown, fun exchange he => ?_⟩
  · rw [hlinks]
    by_cases hts : t = s
    · subst hts
      rw [Function.update_self]
      exact hl
    · obtain ⟨hst, hre⟩ := hothers t hts
      rw [Function.update_of_ne hts, hst, hre]
      exact h.links t
  · rcases hexchanges exchange he with he | he | he
    · exact (h.exchanges exchange he).imp_right fun ⟨t, ht⟩ => ⟨t, hstill t ht⟩
    · exact .inl he
    · exact .inr ⟨s, by rw [hlinks, Function.update_self, he]⟩

theorem Sound.peer {net : Network} {s : SocketPtr} {l : Link} {e : PeerEvent}
    {o : Option RawMessage} (h : net.Sound programs) (hs : (net.links s).step e = some (o, l)) :
    (net.setLink s l).Sound programs := by
  have hstands : (net.links s).failed = false := (Link.step_cases hs).1
  refine h.update rfl (fun _ _ => ⟨rfl, rfl⟩) ((h.links s).step hs) (fun hf => ?_) h.own
    (fun _ he => .inl he)
  rw [hstands] at hf
  cases hf

theorem handle_register {net : Network} {s : SocketPtr} {message : Register}
    {clients : List SocketPtr} (hfits : message.serialize.buffer.length < 2 ^ 31) :
    net.handle s message.serialize clients = (net.database.handleRegister message s).map fun r =>
      { net with database := r.2, loop := .replying s r.1 clients } := by
  have ht : message.serialize.getMessageType = .register := rfl
  simp only [handle, ht, message.deserialize_serialize hfits, Option.bind_eq_bind, Option.bind_some]
  cases net.database.handleRegister message s <;> rfl

theorem Sound.own_register {net : Network} {database : BinderDatabase} {s : SocketPtr}
    {message : Register} {response : RawMessage} (h : net.Sound programs)
    (hm : message ∈ (programs s).registers)
    (hr : net.database.handleRegister message s = some (response, database)) (x : ServerData)
    (hx : Holds database x) :
    ∃ message ∈ (programs x.serverSocket).registers, message.address = x.address := by
  have hstep : net.database.step (.register message s) = some (some response, database) := by
    rw [BinderDatabase.step, hr, Option.map_some]
  rcases Holds.of_step (BinderDatabase.step_cases hstep) hx with ⟨hx, -⟩ | ⟨message', hm', ha⟩
  · exact h.own x hx
  · obtain ⟨rfl, rfl⟩ := BinderRequest.register.inj hm'
    exact ⟨message, hm, ha⟩

theorem Sound.own_removed {net : Network} {s : SocketPtr} {database : BinderDatabase}
    (h : net.Sound programs)
    (hd : database = net.database ∨ database = net.database.removeIfServer s) (x : ServerData)
    (hx : Holds database x) :
    ∃ message ∈ (programs x.serverSocket).registers, message.address = x.address := by
  rcases hd with rfl | rfl
  · exact h.own x hx
  · rcases Holds.of_step StepCase.removed hx with ⟨hx, -⟩ | ⟨_, hm, -⟩
    · exact h.own x hx
    · cases hm

theorem Sound.registered {net net' : Network} {s : SocketPtr} {clients : List SocketPtr} {l : Link}
    {message : Register} (h : net.Sound programs) (hloop : net.loop = .serving (s :: clients))
    (hm : message ∈ (programs s).registers)
    (hs : net.handle s message.serialize clients = some net')
    (hl : LinkCase (programs s).registers .untold true l)
    (hfailed : (net.links s).failed = true → l.failed = true) :
    (net'.setLink s l).Sound programs := by
  rw [handle_register (Program.fits hm)] at hs
  obtain ⟨⟨response, database⟩, hr, rfl⟩ := Option.map_eq_some_iff.mp hs
  refine h.update (s := s) (l := l) rfl (fun t hts => ?_) ?_ hfailed (h.own_register hm hr)
    (fun _ he => absurd he List.not_mem_nil)
  · refine ⟨by simp only [status, hloop, setLink, LoopPhase.status], ?_⟩
    simp only [setLink, LoopPhase.repliesTo, hloop]
    exact decide_eq_false hts.symm
  · have hself : (LoopPhase.replying s response clients).repliesTo s = true := decide_eq_true rfl
    simpa only [setLink, status, LoopPhase.status, hself] using hl

theorem Sound.terminated {net : Network} {s : SocketPtr} {clients : List SocketPtr} {l : Link}
    (h : net.Sound programs) (hloop : net.loop = .serving (s :: clients))
    (hl : LinkCase (programs s).registers .untold false l)
    (hfailed : (net.links s).failed = true → l.failed = true) :
    (setLink { net with loop := .telling s [] } s l).Sound programs := by
  have hstatus (t : SocketPtr) :
      (setLink { net with loop := .telling s [] } s l).status t = .untold := by
    simp [status, setLink, LoopPhase.status]
  refine h.update (s := s) (l := l) rfl (fun t _ => ?_) ?_ hfailed h.own
    (fun _ he => absurd he List.not_mem_nil)
  · exact ⟨by rw [hstatus]; simp only [status, hloop, LoopPhase.status], by simp only [hloop]; rfl⟩
  · rw [hstatus]
    exact hl

theorem Sound.serving {net : Network} {clients : List SocketPtr} {database : BinderDatabase}
    (h : net.Sound programs) (hstatus : ∀ t, net.status t = .untold)
    (hreplies : ∀ t, net.loop.repliesTo t = false ∨ (net.links t).failed = true)
    (hown : ∀ x, Holds database x →
      ∃ message ∈ (programs x.serverSocket).registers, message.address = x.address) :
    Sound programs { net with database, loop := .serving clients } := by
  refine ⟨fun t => ?_, hown, fun _ he => absurd he List.not_mem_nil⟩
  have hl := h.links t
  rw [hstatus] at hl
  rcases hreplies t with hr | hf
  · rw [hr] at hl
    exact hl
  · generalize net.links t = l at hl hf
    generalize net.loop.repliesTo t = replying at hl
    cases hl with
    | failedUntold hq => exact .failedUntold hq
    | _ => cases hf

theorem Sound.receive {net net' : Network} {s : SocketPtr} {clients : List SocketPtr}
    {raw : RawMessage} {rest : List RawMessage} (h : net.Sound programs)
    (hloop : net.loop = .serving (s :: clients)) (hraw : (net.links s).toBinder = raw :: rest)
    (hs : net.handle s raw clients = some net') :
    (net'.setLink s { net.links s with toBinder := rest }).Sound programs := by
  have hstatus : net.status s = .untold := by simp only [status, hloop, LoopPhase.status]
  have hreplies : net.loop.repliesTo s = false := by rw [hloop]; rfl
  have hl := h.links s
  rw [hstatus, hreplies] at hl
  generalize hlink : net.links s = l at hl hraw ⊢
  cases hl with
  | requested hm hc =>
    obtain ⟨rfl, rfl⟩ := List.cons.inj hraw
    exact h.registered hloop hm hs (.handled hc) (by rw [hlink]; exact id)
  | waiting hr ht =>
    rcases ht with rfl | rfl
    · cases hraw
    · obtain ⟨rfl, rfl⟩ := List.cons.inj hraw
      obtain rfl := Option.some.inj hs
      exact h.terminated hloop (.waiting hr (.inl rfl)) (by rw [hlink]; exact id)
  | failedUntold hq =>
    rcases hq with rfl | ⟨message, hm, rfl⟩ | ⟨hr, rfl⟩
    · cases hraw
    · obtain ⟨rfl, rfl⟩ := List.cons.inj hraw
      exact h.registered hloop hm hs (.failedUntold (.inl rfl)) (by rw [hlink]; exact id)
    · obtain ⟨rfl, rfl⟩ := List.cons.inj hraw
      obtain rfl := Option.some.inj hs
      exact h.terminated hloop (.failedUntold (.inl rfl)) (by rw [hlink]; exact id)
  | _ => cases hraw

theorem Sound.reply {net : Network} {s : SocketPtr} {response : RawMessage}
    {clients : List SocketPtr} (h : net.Sound programs)
    (hloop : net.loop = .replying s response clients) :
    Sound programs { net.setLink s { net.links s with toPeer := (net.links s).toPeer ++ [response] }
      with loop := .serving clients } := by
  have hstatus (t : SocketPtr) : net.status t = .untold := by
    simp only [status, hloop, LoopPhase.status]
  have hreplies (t : SocketPtr) : net.loop.repliesTo t = decide (s = t) := by rw [hloop]; rfl
  have hl := h.links s
  rw [hstatus, hreplies, decide_eq_true rfl] at hl
  refine h.update (s := s) rfl (fun t hts => ?_) (hl.replied response) id h.own
    (fun _ he => absurd he List.not_mem_nil)
  rw [hstatus, hreplies, decide_eq_false hts.symm]
  exact ⟨rfl, rfl⟩

theorem Sound.replyFails {net : Network} {s : SocketPtr} {response : RawMessage}
    {clients : List SocketPtr} {database : BinderDatabase} (h : net.Sound programs)
    (hloop : net.loop = .replying s response clients) (hf : (net.links s).failed = true)
    (hd : database = net.database ∨ database = net.database.removeIfServer s) :
    Sound programs { net with database, loop := .serving clients } := by
  refine h.serving (fun t => ?_) (fun t => ?_) (h.own_removed hd)
  · simp only [status, hloop, LoopPhase.status]
  · by_cases hts : t = s
    · exact .inr (hts ▸ hf)
    · rw [hloop]
      exact .inl (decide_eq_false (Ne.symm hts))

theorem mem_take_exchanges {net : Network} {exchanges : List TerminateExchange}
    {exchange : TerminateExchange} {s : SocketPtr} (hs : net.targets[exchanges.length]? = some s)
    (t : SocketPtr) : t ∈ net.targets.take (exchanges ++ [exchange]).length ↔
      t ∈ net.targets.take exchanges.length ∨ t = s := by
  rw [List.length_append, List.length_singleton, List.take_add_one, hs, Option.toList_some,
    List.mem_append, List.mem_singleton]

theorem Sound.not_mem_take {net : Network} (h : net.Sound programs) {n : Nat} {s : SocketPtr}
    (hs : net.targets[n]? = some s) : s ∉ net.targets.take n := by
  obtain ⟨hn, rfl⟩ := List.getElem?_eq_some_iff.mp hs
  intro hmem
  obtain ⟨i, hi, he⟩ := List.getElem_of_mem hmem
  rw [List.getElem_take] at he
  have hin : i = n := h.targets_nodup.getElem_inj_iff.mp he
  rw [List.length_take] at hi
  omega

theorem Sound.exchanged {net : Network} {client s : SocketPtr} {exchanges : List TerminateExchange}
    {exchange : TerminateExchange} {l : Link} (h : net.Sound programs)
    (hloop : net.loop = .telling client exchanges ∨ net.loop = .hearing client exchanges)
    (hcur : net.targets[exchanges.length]? = some s)
    (hl : LinkCase (programs s).registers .heard false l)
    (hfailed : (net.links s).failed = true → l.failed = true)
    (hexchange : exchange.failure = none ∨ l.failed = true) :
    Sound programs
      (setLink { net with loop := .telling client (exchanges ++ [exchange]) } s l) := by
  refine h.update (s := s) (l := l) rfl (fun t hts => ?_) ?_ hfailed h.own fun x hx => ?_
  · have hother : ¬ net.targets[exchanges.length]? = some t :=
      fun ht => hts (Option.some.inj (ht.symm.trans hcur))
    have hstatus :
        net.status t = if t ∈ net.targets.take exchanges.length then .heard else .untold := by
      rcases hloop with hloop | hloop
      · simp only [status, hloop, LoopPhase.status]
      · simp only [status, hloop, LoopPhase.status, if_neg hother]
    refine ⟨?_, by rcases hloop with hloop | hloop <;> rw [hloop] <;> rfl⟩
    change (LoopPhase.telling client (exchanges ++ [exchange])).status net.targets t = _
    rw [hstatus, LoopPhase.status]
    exact if_congr ((mem_take_exchanges hcur t).trans (or_iff_left hts)) rfl rfl
  · change LinkCase _ ((LoopPhase.telling client (exchanges ++ [exchange])).status net.targets s)
      false _
    rw [LoopPhase.status, if_pos ((mem_take_exchanges hcur s).mpr (.inr rfl))]
    exact hl
  · rcases List.mem_append.mp hx with hx | hx
    · left
      rcases hloop with hloop | hloop <;> rw [hloop] <;> exact hx
    · rw [List.mem_singleton.mp hx]
      exact .inr hexchange

theorem setLink_self (net : Network) (s : SocketPtr) : net.setLink s (net.links s) = net := by
  rw [setLink, Function.update_eq_self]

theorem Sound.untold {net : Network} {client s : SocketPtr} {exchanges : List TerminateExchange}
    (h : net.Sound programs) (hloop : net.loop = .telling client exchanges)
    (hcur : net.targets[exchanges.length]? = some s) :
    LinkCase (programs s).registers .untold false (net.links s) := by
  have hl := h.links s
  rwa [status, hloop, LoopPhase.status, if_neg (h.not_mem_take hcur)] at hl

theorem Sound.told {net : Network} {client s : SocketPtr} {exchanges : List TerminateExchange}
    (h : net.Sound programs) (hloop : net.loop = .hearing client exchanges)
    (hcur : net.targets[exchanges.length]? = some s) :
    LinkCase (programs s).registers .told false (net.links s) := by
  have hl := h.links s
  rwa [status, hloop, LoopPhase.status, if_neg (h.not_mem_take hcur), if_pos hcur] at hl

theorem Sound.tell {net : Network} {client s : SocketPtr} {exchanges : List TerminateExchange}
    (h : net.Sound programs) (hloop : net.loop = .telling client exchanges)
    (hcur : net.targets[exchanges.length]? = some s) (hsettled : (net.links s).Settled) :
    Sound programs { net.setLink s
        { net.links s with toPeer := (net.links s).toPeer ++ [terminateRequest] } with
      loop := .hearing client exchanges } := by
  have hl := h.untold hloop hcur
  refine h.update (s := s) rfl (fun t hts => ⟨?_, by rw [hloop]; rfl⟩) ?_ id h.own ?_
  · have hother : ¬ net.targets[exchanges.length]? = some t :=
      fun ht => hts (Option.some.inj (ht.symm.trans hcur))
    change (LoopPhase.hearing client exchanges).status net.targets t = _
    simp only [status, hloop, LoopPhase.status, if_neg hother]
  · change LinkCase _ ((LoopPhase.hearing client exchanges).status net.targets s) false _
    rw [LoopPhase.status, if_neg (h.not_mem_take hcur), if_pos hcur]
    exact hl.told (h.registers_ne_nil (List.mem_of_getElem? hcur)) hsettled
  · intro exchange he
    rw [hloop]
    exact .inl he

theorem Sound.step {net net' : Network} {e : ProtocolEvent} {o : Option RawMessage}
    (h : net.Sound programs) (hsettled : SettledWhenTold net e) (hs : ProtocolCase net e o net') :
    net'.loop = .ended ∨ net'.Sound programs := by
  cases hs with
  | peer hs => exact .inr (h.peer hs)
  | polls hloop =>
    refine .inr (h.serving (fun t => ?_) (fun t => .inl ?_) h.own)
    · simp only [status, hloop, LoopPhase.status]
    · rw [hloop]
      rfl
  | receives hloop hraw hs => exact .inr (h.receive hloop hraw hs)
  | receiveFails hloop _ _ hd =>
    refine .inr (h.serving (fun t => ?_) (fun t => .inl ?_) (h.own_removed hd))
    · simp only [status, hloop, LoopPhase.status]
    · rw [hloop]
      rfl
  | replies hloop => exact .inr (h.reply hloop)
  | replyFails hloop hf hd => exact .inr (h.replyFails hloop hf hd)
  | @tells client exchanges s hloop hcur =>
    refine .inr (h.tell hloop hcur (hsettled rfl s ?_))
    rw [current?, hloop]
    exact hcur
  | @tellFails client exchanges s error hloop hcur hf =>
    right
    rw [← setLink_self { net with loop := .telling client (exchanges ++ [.sendFails error]) } s]
    exact h.exchanged (.inl hloop) hcur (.of_failed hf) id (.inr hf)
  | hears hloop hcur hraw =>
    obtain ⟨rfl, -, hl⟩ := (h.told hloop hcur).answer hraw
    exact .inr (h.exchanged (.inr hloop) hcur hl id (.inl rfl))
  | @hearFails client exchanges s error hloop hcur _ hf =>
    right
    rw [← setLink_self
      { net with loop := .telling client (exchanges ++ [.received (.threw error)]) } s]
    exact h.exchanged (.inr hloop) hcur (.of_failed hf) id (.inr hf)
  | reports => exact .inl rfl

theorem Sound.response {net : Network} (h : net.Sound programs) {client : SocketPtr}
    {exchanges : List TerminateExchange} {response : RawMessage}
    (hloop : net.loop = .telling client exchanges)
    (hlength : exchanges.length = net.targets.length)
    (hresponse : net.response exchanges = .ok response)
    (hfailed : ∀ s, (net.links s).failed = false) :
    response.getMessageType = .terminateSuccess := by
  obtain ⟨error, hended, -⟩ := handleTerminate_ended hresponse
  refine (handleTerminate_success_iff hresponse).mpr fun sent hsent => ?_
  rw [← TerminateExchange.failure_eq_none_iff (hended.goesOn sent hsent)]
  obtain ⟨i, hi⟩ := List.mem_iff_getElem?.mp hsent
  have hlt : i < exchanges.length := by
    have hsockets := congrArg List.length hended.sockets
    simp only [List.length_map] at hsockets
    rw [hlength, targets, List.length_map, ← hsockets]
    exact (List.getElem?_eq_some_iff.mp hi).1
  obtain ⟨-, he⟩ := terminateLoop_getElem? hi
  rw [Nat.zero_add, List.getD_eq_getElem?_getD, List.getElem?_eq_getElem hlt] at he
  rw [he]
  refine (h.exchanges _ ?_).resolve_right fun ⟨s, hs⟩ => ?_
  · rw [hloop]
    exact List.getElem_mem hlt
  · exact Bool.noConfusion (hs.symm.trans (hfailed s))

end Network

end RpcLibrary
