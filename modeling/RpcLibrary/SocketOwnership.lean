import RpcLibrary.BinderRuns

/-! Which sockets the copies of an address carry. One copy of a server may be
kept in the queue, one as a key of the timestamps and one in each server set. -/

namespace RpcLibrary

open Runs BinderDatabase

def Holds (db : BinderDatabase) (x : ServerData) : Prop :=
  (∃ f, x ∈ db.servers f) ∨ (∃ t, (t, x) ∈ db.serverQueue) ∨ (∃ t, (x, t) ∈ db.serverToTimestamp)

theorem Holds.of_queue {db : BinderDatabase} {p : BitVec 32 × ServerData}
    (h : p ∈ db.serverQueue) : Holds db p.2 := .inr (.inl ⟨p.1, h⟩)

theorem Holds.of_servers {db : BinderDatabase} {f : Signature} {x : ServerData}
    (h : x ∈ db.servers f) : Holds db x := .inl ⟨f, h⟩

theorem Holds.of_timestamp {db : BinderDatabase} {e : ServerData × BitVec 32}
    (h : e ∈ db.serverToTimestamp) : Holds db e.1 := .inr (.inr ⟨e.2, h⟩)

theorem mem_assign_timestamp {m : ServerToTimestamp} {x y : ServerData} {t u : BitVec 32}
    (h : (y, u) ∈ m.assign x t) : y = x ∨ ∃ v, (y, v) ∈ m := by
  rcases OrderedMap.mem_assign.mp h with ⟨hm, -⟩ | he
  · exact .inr ⟨u, hm⟩
  · obtain ⟨rfl, rfl⟩ := Prod.mk.inj he
    cases hf : m.find? x.address with
    | none => exact .inl (by simp [OrderedMap.storedKey, hf])
    | some e =>
      refine .inr ⟨e.2, ?_⟩
      simpa [OrderedMap.storedKey, hf] using (OrderedSet.find?_eq_some_iff.mp hf).1

/-- A step stores no server but the one a registration brings, and a removal
leaves none of its socket. -/
theorem Holds.of_step {db db' : BinderDatabase} {request : BinderRequest}
    {reply : Option RawMessage} {y : ServerData} (hs : StepCase db request reply db')
    (hy : Holds db' y) :
    (Holds db y ∧ request ≠ .remove y.serverSocket) ∨
      ∃ message, request = .register message y.serverSocket ∧ message.address = y.address := by
  cases hs with
  | known => exact .inl ⟨hy, by simp⟩
  | @added message socket f hf hc =>
    have hnew (x : ServerData) (hx : x = ⟨message.serverHostname, message.serverPort, socket⟩) :
        ∃ m, BinderRequest.register message socket = .register m x.serverSocket ∧
          m.address = x.address := by
      subst hx
      exact ⟨message, rfl, rfl⟩
    rcases hy with ⟨g, hy⟩ | ⟨t, hy⟩ | ⟨t, hy⟩
    · rcases mem_servers_added.mp hy with hy | ⟨rfl, -⟩
      · exact .inl ⟨.of_servers hy, by simp⟩
      · exact .inr (hnew _ rfl)
    · rcases OrderedSet.mem_insert.mp hy with hy | ⟨he, -⟩
      · refine .inl ⟨.inr (.inl ⟨t, ?_⟩), by simp⟩
        split_ifs at hy
        · exact (OrderedSet.mem_erase.mp hy).1
        · exact hy
      · exact .inr (hnew _ (Prod.mk.inj he).2)
    · rcases mem_assign_timestamp hy with rfl | ⟨u, hu⟩
      · exact .inr (hnew _ rfl)
      · exact .inl ⟨.of_timestamp hu, by simp⟩
  | notFound hf hp =>
    rcases hy with ⟨g, hy⟩ | hy
    · rw [servers_pruned] at hy
      exact .inl ⟨.of_servers hy, by simp⟩
    · exact .inl ⟨.inr hy, by simp⟩
  | found hf hp =>
    have hq := Holds.of_queue (pick_mem hp).1
    refine .inl ⟨?_, by simp⟩
    rcases hy with ⟨g, hy⟩ | ⟨t, hy⟩ | ⟨t, hy⟩
    · rw [servers_touched] at hy
      exact .of_servers hy
    · rcases OrderedSet.mem_insert.mp hy with hy | ⟨he, -⟩
      · exact .of_queue (OrderedSet.mem_erase.mp hy).1
      · exact (Prod.mk.inj he).2 ▸ hq
    · rcases mem_assign_timestamp hy with rfl | ⟨u, hu⟩
      · exact hq
      · exact .of_timestamp hu
  | @removed socket =>
    refine .inl ?_
    have hsocket (hy : y.serverSocket ≠ socket) :
        BinderRequest.remove socket ≠ .remove y.serverSocket :=
      fun h => hy (BinderRequest.remove.inj h).symm
    rcases hy with ⟨g, hy⟩ | ⟨t, hy⟩ | ⟨t, hy⟩
    · obtain ⟨hy, hys⟩ := mem_servers_removeIfServer.mp hy
      exact ⟨.of_servers hy, hsocket hys⟩
    · obtain ⟨hy, hys⟩ := OrderedSet.mem_filter.mp hy
      exact ⟨.of_queue hy, hsocket (of_decide_eq_true hys)⟩
    · obtain ⟨hy, hys⟩ := OrderedSet.mem_filter.mp hy
      exact ⟨.of_timestamp hy, hsocket (of_decide_eq_true hys)⟩

/-- In every run, a stored server was registered from its socket, and the socket
was not removed since. -/
theorem BinderRun.claimed {past : List BinderEvent} {db : BinderDatabase}
    (hrun : BinderRun past db) {y : ServerData} (hy : Holds db y) :
    Since (Claimed y.address y.serverSocket) (Removed y.serverSocket) past := by
  revert y
  refine hrun.history (P := fun past db => ∀ {y}, Holds db y →
    Since (Claimed y.address y.serverSocket) (Removed y.serverSocket) past) ?_ ?_
  · rintro y (⟨f, h⟩ | ⟨t, h⟩ | ⟨t, h⟩)
    · exact absurd h (by simp)
    · exact absurd h (OrderedSet.not_mem_empty _)
    · exact absurd h (OrderedSet.not_mem_empty _)
  · intro past a request reply b _ ih hs y hy
    rcases Holds.of_step (step_cases hs) hy with ⟨hold, hne⟩ | ⟨message, rfl, hm⟩
    · exact (ih hold).keep hne
    · exact .happened ⟨message, rfl, hm⟩

theorem OneOwner.of_append {requests more : List BinderRequest} (h : OneOwner (requests ++ more)) :
    OneOwner requests := by
  intro before message s between message' s' after he hm
  exact h before message s between message' s' (after ++ more) (by simp [he]) hm

theorem OneOwner.of_fixed_owner {requests : List BinderRequest} (owner : Address → SocketPtr)
    (h : ∀ message s, .register message s ∈ requests → s = owner message.address) :
    OneOwner requests := by
  rintro before message s between message' s' after rfl ha
  left
  rw [h message s (by simp), h message' s' (by simp), ha]

theorem OneOwner.of_two_servers {requests : List BinderRequest}
    (h : ∀ message s, .register message s ∈ requests →
      (message = sampleRegister 102 80 ∧ s = 1) ∨ (message = sampleRegister 102 81 ∧ s = 2)) :
    OneOwner requests := by
  refine .of_fixed_owner (fun a => if a = sampleAddress 80 then 1 else 2) fun message s hm => ?_
  rcases h message s hm with ⟨rfl, rfl⟩ | ⟨rfl, rfl⟩ <;> rfl

theorem OneOwner.between {past before after : List BinderEvent} {e e' : BinderEvent}
    {between : List BinderEvent} {a : Address} {s s' : SocketPtr}
    (h : OneOwner (past.map Prod.fst)) (hp : past = before ++ e :: (between ++ e' :: after))
    (he : Claimed a s e) (he' : Claimed a s' e') : s = s' ∨ ∃ x ∈ between, Removed s x := by
  obtain ⟨message, hm, rfl⟩ := he
  obtain ⟨message', hm', ha⟩ := he'
  have hmap : past.map Prod.fst = before.map Prod.fst ++ .register message s ::
      (between.map Prod.fst ++ .register message' s' :: after.map Prod.fst) := by
    simp [hp, hm, hm']
  exact (h _ _ _ _ _ _ _ hmap ha.symm).imp_right List.mem_map.mp

theorem Claimed.socket_unique {a a' : Address} {s s' : SocketPtr} {e : BinderEvent}
    (h : Claimed a s e) (h' : Claimed a' s' e) : s = s' := by
  obtain ⟨message, hm, -⟩ := h
  obtain ⟨message', hm', -⟩ := h'
  exact (BinderRequest.register.inj (hm.symm.trans hm')).2

theorem OneOwner.unique_of_earlier {past before after later c : List BinderEvent}
    {e e' : BinderEvent} {a : Address} {s s' : SocketPtr} (h : OneOwner (past.map Prod.fst))
    (hp : past = before ++ e :: after) (hc : e :: after = c ++ e' :: later)
    (he : Claimed a s e) (he' : Claimed a s' e') (hafter : ∀ x ∈ after, ¬ Removed s x) :
    s = s' := by
  cases c with
  | nil =>
    obtain ⟨rfl, -⟩ := List.cons.inj hc
    exact he.socket_unique he'
  | cons x between =>
    obtain ⟨rfl, rfl⟩ := List.cons.inj hc
    rcases h.between hp he he' with hss | ⟨y, hy, hr⟩
    · exact hss
    · exact absurd hr (hafter y (by simp [hy]))

theorem OneOwner.claimed_unique {past : List BinderEvent} {a : Address} {s s' : SocketPtr}
    (h : OneOwner (past.map Prod.fst)) (hs : Since (Claimed a s) (Removed s) past)
    (hs' : Since (Claimed a s') (Removed s') past) : s = s' := by
  obtain ⟨before, e, after, hp, he, hafter⟩ := hs
  obtain ⟨before', e', after', hp', he', hafter'⟩ := hs'
  rcases List.append_eq_append_iff.mp (hp.symm.trans hp') with ⟨c, -, hc⟩ | ⟨c, -, hc⟩
  · exact h.unique_of_earlier hp hc he he' hafter
  · exact (h.unique_of_earlier hp' hc he' he hafter').symm

/-- Copies of one address agree on the socket, so they are the same server. -/
def SocketsAgree (db : BinderDatabase) : Prop :=
  ∀ x y, Holds db x → Holds db y → x.address = y.address → x = y

theorem ServerData.eq_of_address {x y : ServerData} (ha : x.address = y.address)
    (hs : x.serverSocket = y.serverSocket) : x = y := by
  obtain ⟨host, port, socket⟩ := x
  obtain ⟨host', port', socket'⟩ := y
  simp only [address, Address.mk.injEq] at ha
  simp only [ServerData.mk.injEq]
  exact ⟨ha.1, ha.2, hs⟩

theorem BinderRun.socketsAgree {past : List BinderEvent} {db : BinderDatabase}
    (hrun : BinderRun past db) (hone : OneOwner (past.map Prod.fst)) : SocketsAgree db := by
  intro x y hx hy ha
  have hsy := hrun.claimed hy
  rw [← ha] at hsy
  exact ServerData.eq_of_address ha (hone.claimed_unique (hrun.claimed hx) hsy)

theorem BinderRun.holds_eq_registered {past : List BinderEvent} {db : BinderDatabase}
    {message : Register} {s : SocketPtr} (hrun : BinderRun past db)
    (hone : OneOwner (past.map Prod.fst ++ [.register message s])) {y : ServerData}
    (hy : Holds db y) (ha : y.address = message.address) :
    y = ⟨message.serverHostname, message.serverPort, s⟩ := by
  have hclaim := (hrun.claimed hy).keep
    (show ¬ Removed y.serverSocket (BinderRequest.register message s, none) by simp [Removed])
  have hown : Since (Claimed y.address s) (Removed s) (past ++ [(.register message s, none)]) :=
    .happened ⟨message, rfl, ha.symm⟩
  have hone' : OneOwner ((past ++ [(BinderRequest.register message s, none)]).map Prod.fst) := by
    simpa using hone
  exact ServerData.eq_of_address ha (hone'.claimed_unique hclaim hown)

end RpcLibrary
