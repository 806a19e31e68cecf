import RpcLibrary.BinderRuns

/-! What the server sets say about the history of a run, with no discipline on
who registers which address. -/

namespace RpcLibrary

open Runs BinderDatabase

/-- Every stored server was newly registered on its socket, which has not been
removed since. -/
def Genuine (past : List BinderEvent) (db : BinderDatabase) : Prop :=
  ∀ f, ∀ x ∈ db.servers f,
    Since (RegisteredNew f x.address x.serverSocket) (Removed x.serverSocket) past

theorem Genuine.step {past : List BinderEvent} {db db' : BinderDatabase} {request : BinderRequest}
    {reply : Option RawMessage} (h : Genuine past db) (hs : StepCase db request reply db') :
    Genuine (past ++ [(request, reply)]) db' := by
  intro g x hx
  cases hs with
  | known hf hc => exact (h g x hx).keep (by simp [Removed])
  | @added message socket f hf hc =>
    rcases mem_servers_added.mp hx with hx | ⟨rfl, rfl, -⟩
    · exact (h g x hx).keep (by simp [Removed])
    · exact .happened ⟨message, rfl, hf, rfl, rfl⟩
  | notFound hf hp =>
    rw [servers_pruned] at hx
    exact (h g x hx).keep (by simp [Removed])
  | found hf hp =>
    rw [servers_touched] at hx
    exact (h g x hx).keep (by simp [Removed])
  | @removed socket =>
    obtain ⟨hx, hne⟩ := mem_servers_removeIfServer.mp hx
    exact (h g x hx).keep (by simpa [Removed] using hne.symm)

theorem BinderRun.genuine {past : List BinderEvent} {db : BinderDatabase}
    (hrun : BinderRun past db) : Genuine past db :=
  hrun.history (P := Genuine) (fun f x hx => absurd hx (by simp))
    (fun _ _ _ _ _ _ hp hs => hp.step (step_cases hs))

/-- A located server is registered for the function on a socket that was not
removed since, in every run and under any interleaving of sockets. -/
theorem located_server_is_registered {past : List BinderEvent} {db db' : BinderDatabase}
    {message : LocateRequest} {f : Signature} {a : Address} (hrun : BinderRun past db)
    (hf : message.signature = some f) (hlocate : db.handleLocate message = some (located a, db')) :
    ∃ s, Since (RegisteredNew f a s) (Removed s) past := by
  have hs : db.step (.locate message) = some (some (located a), db') := by
    simp [BinderDatabase.step, hlocate]
  generalize hr : some (located a) = reply at hs
  cases step_cases hs with
  | notFound => exact absurd (Option.some.inj hr) (located_ne_notLocated a)
  | @found _ g p hg hp =>
    obtain rfl : f = g := Option.some.inj (hf.symm.trans hg)
    have ha : a = p.2.address := located_injective (Option.some.inj hr)
    obtain ⟨x, hx, hxa⟩ := OrderedSet.contains_iff.mp (pick_mem hp).2
    exact ⟨x.serverSocket, ha ▸ hxa ▸ hrun.genuine f x hx⟩

theorem located_server_is_registered_sample :
    ∃ s, Since (RegisteredNew (sampleSignature 102) (sampleAddress 80) s) (Removed s)
      [(.register (sampleRegister 102 80) 1, some (registered 0))] := by
  obtain ⟨db, hrun, hl⟩ : ∃ db,
      BinderRun [(.register (sampleRegister 102 80) 1, some (registered 0))] db ∧
        (db.handleLocate (sampleLocate 102)).map Prod.fst = some (located (sampleAddress 80)) :=
    Run.of_exec_map (by decide)
  obtain ⟨⟨_, db'⟩, hd, rfl⟩ := Option.map_eq_some_iff.mp hl
  have hf : (sampleLocate 102).signature = some (sampleSignature 102) := by decide
  exact located_server_is_registered hrun hf hd

/-- A registration whose address the server set already holds comes from the
socket of the stored copy. -/
def OwnCopy (db : BinderDatabase) (request : BinderRequest) : Prop :=
  ∀ message s f x, request = .register message s → message.signature = some f →
    x ∈ db.servers f → x.address = message.address → x.serverSocket = s

/-- Every acknowledged registration whose socket was not removed since is held
by a copy of that socket. -/
def AcknowledgedStored (past : List BinderEvent) (db : BinderDatabase) : Prop :=
  ∀ f a s, Since (Acknowledged f a s) (Removed s) past →
    ∃ x ∈ db.servers f, x.address = a ∧ x.serverSocket = s

theorem AcknowledgedStored.step {past : List BinderEvent} {db db' : BinderDatabase}
    {request : BinderRequest} {reply : Option RawMessage} (h : AcknowledgedStored past db)
    (hown : OwnCopy db request) (hs : StepCase db request reply db') :
    AcknowledgedStored (past ++ [(request, reply)]) db' := by
  intro f a s hsince
  rw [since_append_singleton] at hsince
  cases hs with
  | @known message socket g hg hc =>
    rcases hsince with ⟨message, hm, hf, rfl, -⟩ | ⟨hsince, -⟩
    · obtain ⟨rfl, rfl⟩ := BinderRequest.register.inj hm
      obtain rfl : g = f := Option.some.inj (hg.symm.trans hf)
      obtain ⟨x, hx, hxa⟩ := OrderedSet.contains_iff.mp hc
      exact ⟨x, hx, hxa, hown _ _ _ _ rfl hg hx hxa⟩
    · exact h f a s hsince
  | @added message socket g hg hc =>
    rcases hsince with ⟨message, hm, hf, rfl, -⟩ | ⟨hsince, -⟩
    · obtain ⟨rfl, rfl⟩ := BinderRequest.register.inj hm
      obtain rfl : g = f := Option.some.inj (hg.symm.trans hf)
      exact ⟨⟨message.serverHostname, message.serverPort, socket⟩,
        mem_servers_added.mpr (.inr ⟨rfl, rfl, hc⟩), rfl, rfl⟩
    · obtain ⟨x, hx, hxas⟩ := h f a s hsince
      exact ⟨x, mem_servers_added.mpr (.inl hx), hxas⟩
  | @notFound message g hg hp =>
    rcases hsince with ⟨_, hm, -⟩ | ⟨hsince, -⟩
    · cases hm
    · simpa only [servers_pruned] using h f a s hsince
  | @found message g p hg hp =>
    rcases hsince with ⟨_, hm, -⟩ | ⟨hsince, -⟩
    · cases hm
    · simpa only [servers_touched] using h f a s hsince
  | @removed socket =>
    rcases hsince with ⟨_, hm, -⟩ | ⟨hsince, hne⟩
    · cases hm
    · obtain ⟨x, hx, hxa, rfl⟩ := h f a s hsince
      have hkept : x.serverSocket ≠ socket :=
        fun he => hne (congrArg BinderRequest.remove he.symm)
      exact ⟨x, mem_servers_removeIfServer.mpr ⟨hx, hkept⟩, hxa, rfl⟩

theorem BinderRun.acknowledgedStored {past : List BinderEvent} {db : BinderDatabase}
    (hrun : BinderRun past db)
    (hown : EachStep BinderDatabase.step OwnCopy BinderDatabase.new past) :
    AcknowledgedStored past db :=
  hrun.history_of_each hown (fun _ _ _ h => absurd h not_since_nil)
    (fun _ _ _ _ _ _ hp ho hs => hp.step ho (step_cases hs))

/-- When no registration meets a stored copy of its address from another
socket, acknowledged registrations are durable. -/
theorem acknowledged_registration_durable {past : List BinderEvent} {db : BinderDatabase}
    (hrun : BinderRun past db) (hown : EachStep BinderDatabase.step OwnCopy BinderDatabase.new past)
    {f : Signature} {a : Address} {s : SocketPtr}
    (hack : Since (Acknowledged f a s) (Removed s) past) :
    (db.servers f).contains a = true := by
  obtain ⟨x, hx, rfl, -⟩ := hrun.acknowledgedStored hown f a s hack
  exact OrderedSet.contains_of_mem hx

theorem acknowledged_registration_durable_sample :
    ∃ db, BinderRun [(.register (sampleRegister 102 80) 1, some (registered 0)), (.remove 2, none)]
        db ∧ (db.servers (sampleSignature 102)).contains (sampleAddress 80) = true := by
  refine (Run.of_exec_map (f := BinderDatabase.time) (a := 2) (by decide)).imp fun db hdb =>
    ⟨hdb.1, acknowledged_registration_durable hdb.1 ?_ (s := 1) ?_⟩
  · refine .cons (fun _ _ _ x _ _ hx => absurd hx (by simp)) fun t _ =>
      .cons ?_ fun u _ => .nil _ _ _
    intro _ _ _ _ h
    cases h
  · exact ⟨[], _, [(.remove 2, none)], rfl,
      ⟨sampleRegister 102 80, rfl, by decide, rfl, .inl rfl⟩, by simp [Removed]⟩

/-- The condition is exact: where a registration breaks it, the registration is
acknowledged, and the removal of the other socket loses it. -/
theorem acknowledged_registration_lost_of_other_copy {past : List BinderEvent}
    {db : BinderDatabase} {request : BinderRequest} (hrun : BinderRun past db)
    (hown : ¬ OwnCopy db request) :
    ∃ f a s t db', s ≠ t ∧
      BinderRun (past ++ [(request, some (registered 1)), (.remove t, none)]) db' ∧
      Since (Acknowledged f a s) (Removed s)
        (past ++ [(request, some (registered 1)), (.remove t, none)]) ∧
      (db'.servers f).contains a = false := by
  simp only [OwnCopy, not_forall] at hown
  obtain ⟨message, s, f, x, rfl, hf, hx, hxa, hne⟩ := hown
  have hc : (db.servers f).contains message.address = true := hxa ▸ OrderedSet.contains_of_mem hx
  refine ⟨f, message.address, s, x.serverSocket, db.removeIfServer x.serverSocket, Ne.symm hne,
    hrun.append (.cons (StepCase.known hf hc).step (.single StepCase.removed.step)), ?_, ?_⟩
  · refine ⟨past, _, [(.remove x.serverSocket, none)], rfl,
      ⟨message, rfl, hf, rfl, .inr rfl⟩, fun e he => ?_⟩
    obtain rfl := List.mem_singleton.mp he
    exact fun h => hne (BinderRequest.remove.inj h)
  · rw [OrderedSet.not_contains_iff]
    intro y hy hya
    obtain ⟨hy, hys⟩ := mem_servers_removeIfServer.mp hy
    obtain rfl := OrderedSet.eq_of_key hy hx (hya.trans hxa.symm)
    exact hys rfl

/-- A server that comes back on its old address before its old connection is
noticed closed: the binder acknowledges it and then drops it. -/
theorem acknowledged_registration_lost :
    ∃ db, BinderRun [(.register (sampleRegister 102 80) 1, some (registered 0)),
        (.register (sampleRegister 102 80) 2, some (registered 1)), (.remove 1, none)] db ∧
      Since (Acknowledged (sampleSignature 102) (sampleAddress 80) 2) (Removed 2)
        [(.register (sampleRegister 102 80) 1, some (registered 0)),
          (.register (sampleRegister 102 80) 2, some (registered 1)), (.remove 1, none)] ∧
      (db.servers (sampleSignature 102)).contains (sampleAddress 80) = false := by
  refine (Run.of_exec_map (f := fun db : BinderDatabase =>
    (db.servers (sampleSignature 102)).contains (sampleAddress 80)) (a := false)
    (by decide)).imp fun db hdb => ⟨hdb.1, ?_, hdb.2⟩
  exact ⟨[(.register (sampleRegister 102 80) 1, some (registered 0))],
    (.register (sampleRegister 102 80) 2, some (registered 1)), [(.remove 1, none)], rfl,
    ⟨sampleRegister 102 80, rfl, by decide, rfl, .inr rfl⟩, by simp [Removed]⟩

end RpcLibrary
