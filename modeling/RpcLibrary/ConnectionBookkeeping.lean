import RpcLibrary.TcpServer
import RpcLibrary.Runs

/-! The set of descriptors, the largest of them and the map of connections go
together along every sequence of calls of a server. -/

namespace RpcLibrary

open Runs

structure Bookkeeping (server : TcpServer) : Prop where
  master : ∀ fd, fd ∈ server.fdMaster ↔
    fd = server.listener ∨ server.connections.contains fd = true
  listener : server.connections.contains server.listener = false
  fd : ∀ e ∈ server.connections, e.2.fd = e.1
  max : ∀ fd ∈ server.fdMaster, fd ≤ server.fdMax

structure Process.Kept (p : Process) : Prop extends Bookkeeping p.server where
  opened : ∀ fd ∈ p.server.fdMaster, fd ∈ p.openFds
  foreign : ∀ fd ∈ p.foreign, fd ∈ p.openFds ∧ fd ∉ p.server.fdMaster

theorem Process.Kept.new (listener : Fd) (foreign : Finset Fd) :
    (Process.new listener foreign).Kept where
  master fd := by simp [Process.new, OrderedSet.contains]
  listener := rfl
  fd e he := absurd he (OrderedSet.not_mem_empty e)
  max fd h := by simpa [Process.new] using (Finset.mem_singleton.mp h).le
  opened fd h := by simp [Process.new, Finset.mem_singleton.mp h]
  foreign fd h := by
    obtain ⟨hne, hf⟩ := Finset.mem_erase.mp h
    exact ⟨Finset.mem_insert_of_mem hf, fun hm => hne (Finset.mem_singleton.mp hm)⟩

theorem Bookkeeping.manages_iff {server : TcpServer} {client : TcpSocket} (h : Bookkeeping server) :
    server.Manages client ↔ (client.fd, client) ∈ server.connections := by
  constructor
  · rintro ⟨⟨fd, client'⟩, he, rfl⟩
    rw [h.fd _ he]
    exact he
  · exact fun hm => ⟨_, hm, rfl⟩

theorem Bookkeeping.get?_of_manages {server : TcpServer} {client : TcpSocket}
    (h : Bookkeeping server) (hm : server.Manages client) :
    server.connections.get? client.fd = some client :=
  OrderedMap.get?_eq_some_iff.mpr ⟨_, h.manages_iff.mp hm, rfl⟩

theorem Bookkeeping.mem_master_of_manages {server : TcpServer} {client : TcpSocket}
    (h : Bookkeeping server) (hm : server.Manages client) :
    client.fd ∈ server.fdMaster ∧ client.fd ≠ server.listener := by
  have hc := OrderedSet.contains_of_mem (h.manages_iff.mp hm)
  refine ⟨(h.master _).mpr (.inr hc), fun he => ?_⟩
  rw [id_eq, he, h.listener] at hc
  cases hc

theorem mem_select {ready fds readFds : Finset Fd} {nfds fd : Nat}
    (h : select (some ready) nfds fds = some readFds) :
    fd ∈ readFds ↔ fd ∈ fds ∧ fd < nfds ∧ fd ∈ ready := by
  obtain rfl := Option.some.inj h
  exact Finset.mem_filter

def TcpServer.clientAt (server : TcpServer) (readFds : Finset Fd) (fd : Fd) : Option TcpSocket :=
  if fd = server.listener ∨ fd ∉ readFds then none else server.connections.get? fd

theorem TcpServer.collect_eq {server : TcpServer} {readFds : Finset Fd} {fds : List Fd}
    (h : ∀ fd ∈ readFds, fd ≠ server.listener → server.connections.contains fd = true) :
    server.collect readFds fds = .ok (fds.filterMap (server.clientAt readFds)) := by
  induction fds with
  | nil => rfl
  | cons fd fds ih =>
    rw [collect, ih]
    split_ifs with hl hr
    · have hat : server.clientAt readFds fd = none := if_pos (.inl hl)
      rw [List.filterMap_cons_none hat]
    · cases hg : server.connections.get? fd with
      | none =>
        have hc := OrderedMap.get?_eq_none_iff.mp hg
        rw [id_eq, h fd hr hl] at hc
        cases hc
      | some client =>
        have hat : server.clientAt readFds fd = some client := by
          rw [clientAt, if_neg (by simp [hl, hr]), hg]
        rw [List.filterMap_cons_some hat]
        rfl
    · have hat : server.clientAt readFds fd = none := if_pos (.inr hr)
      rw [List.filterMap_cons_none hat]

theorem TcpServer.mem_of_clientAt {server : TcpServer} {readFds : Finset Fd} {fd : Fd}
    {client : TcpSocket} (h : server.clientAt readFds fd = some client) :
    (fd, client) ∈ server.connections ∧ fd ≠ server.listener ∧ fd ∈ readFds := by
  rw [clientAt] at h
  split_ifs at h with hn
  rw [not_or, not_not] at hn
  obtain ⟨fd', hm, hk⟩ := OrderedMap.get?_eq_some_iff.mp h
  obtain rfl : fd' = fd := hk
  exact ⟨hm, hn⟩

/-- The loop finds every descriptor it asks for in the map, and returns the
ready connections, each of them once. -/
theorem Bookkeeping.connectionsWithData {server : TcpServer} (h : Bookkeeping server)
    (ready : Finset Fd) :
    ∃ clients, server.connectionsWithData (some ready) = .ok clients ∧ clients.Nodup ∧
      ∀ client, client ∈ clients ↔ client.fd ∈ ready ∧ server.Manages client := by
  obtain ⟨readFds, hselect⟩ : ∃ readFds,
      select (some ready) (server.fdMax + 1) server.fdMaster = some readFds := ⟨_, rfl⟩
  have hfound : ∀ fd ∈ readFds, fd ≠ server.listener → server.connections.contains fd = true :=
    fun fd hfd hne => ((h.master fd).mp ((mem_select hselect).mp hfd).1).resolve_left hne
  refine ⟨(List.range (server.fdMax + 1)).filterMap (server.clientAt readFds), ?_, ?_, ?_⟩
  · simp only [TcpServer.connectionsWithData, hselect]
    exact TcpServer.collect_eq hfound
  · refine List.nodup_range.filterMap fun fd fd' client hc hc' => ?_
    have hm := (TcpServer.mem_of_clientAt hc).1
    have hm' := (TcpServer.mem_of_clientAt hc').1
    exact (h.fd _ hm).symm.trans (h.fd _ hm')
  · intro client
    rw [List.mem_filterMap]
    constructor
    · rintro ⟨fd, -, hat⟩
      obtain ⟨hm, -, hr⟩ := TcpServer.mem_of_clientAt hat
      obtain rfl : client.fd = fd := h.fd _ hm
      exact ⟨((mem_select hselect).mp hr).2.2, _, hm, rfl⟩
    · rintro ⟨hready, hm⟩
      obtain ⟨hmaster, hne⟩ := h.mem_master_of_manages hm
      have hlt := Nat.lt_succ_of_le (h.max _ hmaster)
      have hread := (mem_select hselect).mpr ⟨hmaster, hlt, hready⟩
      refine ⟨client.fd, List.mem_range.mpr hlt, ?_⟩
      rw [TcpServer.clientAt, if_neg (by simp [hne, hread])]
      exact h.get?_of_manages hm

namespace Process

def accepted (p : Process) (client : TcpSocket) : Process where
  server :=
    { p.server with
      connections := p.server.connections.insert (client.fd, client)
      fdMaster := insert client.fd p.server.fdMaster
      fdMax := max p.server.fdMax client.fd }
  openFds := insert client.fd p.openFds
  foreign := p.foreign

def forgotten (p : Process) (client : TcpSocket) : TcpServer :=
  { p.server with
    connections := p.server.connections.remove client.fd
    fdMaster := p.server.fdMaster.erase client.fd }

inductive StepCase (p : Process) : ServerRequest → ServerAnswer → Process → Prop
  | acceptFails {accept} : StepCase p (.acceptIfAny none accept) (.threw .selectError) p
  | acceptsNobody {ready accept} (h : p.server.listener ∈ ready → accept = none) :
      StepCase p (.acceptIfAny (some ready) accept) .done p
  | accepts {ready client} (h : p.server.listener ∈ ready) (hfresh : client.fd ∉ p.openFds) :
      StepCase p (.acceptIfAny (some ready) (some (client.fd, client.address))) .done
        (p.accepted client)
  | readFails : StepCase p (.connectionsWithData none) (.threw .selectError) p
  | reads {ready clients} (h : p.server.connectionsWithData (some ready) = .ok clients) :
      StepCase p (.connectionsWithData (some ready)) (.clients clients) p
  | closes {client} (h : p.server.Manages client) :
      StepCase p (.connectionClosed client) .done
        { p.close client.fd with server := p.forgotten client }
  | releases {client} (h : p.server.Manages client) :
      StepCase p (.releaseConnection client) (.released (some client))
        { p with server := p.forgotten client, foreign := insert client.fd p.foreign }
  | opensElsewhere {fd} (h : fd ∉ p.openFds) :
      StepCase p (.openElsewhere fd) .done
        { p with openFds := insert fd p.openFds, foreign := insert fd p.foreign }
  | closesElsewhere {fd} (h : fd ∈ p.foreign) :
      StepCase p (.closeElsewhere fd) .done { p.close fd with foreign := p.foreign.erase fd }

theorem Kept.not_contains {p : Process} (h : p.Kept) {fd : Fd} (hfd : fd ∉ p.openFds) :
    p.server.connections.contains fd = false := by
  rw [← Bool.not_eq_true]
  exact fun hc => hfd (h.opened fd ((h.master fd).mpr (.inr hc)))

theorem acceptIfAny_nobody {p : Process} {ready : Finset Fd} {accept : Option (Fd × SocketPtr)}
    (h : p.server.listener ∈ ready → accept = none) :
    p.acceptIfAny (some ready) accept = .ok p := by
  simp only [acceptIfAny, select, Option.map_some]
  split_ifs with hl
  · rw [h (Finset.mem_filter.mp hl).2.2]
  · rfl

theorem Kept.acceptIfAny_accepts {p : Process} (h : p.Kept) {newfd : Fd} {address : SocketPtr}
    (hfresh : newfd ∉ p.openFds) {ready : Finset Fd} (hl : p.server.listener ∈ ready) :
    p.acceptIfAny (some ready) (some (newfd, address)) = .ok (p.accepted ⟨address, newfd⟩) := by
  have hread : p.server.listener ∈ p.server.fdMaster.filter
      fun fd => fd < p.server.fdMax + 1 ∧ fd ∈ ready := by
    have hm := (h.master p.server.listener).mpr (.inl rfl)
    exact Finset.mem_filter.mpr ⟨hm, Nat.lt_succ_of_le (h.max _ hm), hl⟩
  simp only [acceptIfAny, select, Option.map_some, hread, if_true, Process.emplace,
    h.not_contains hfresh, Bool.false_eq_true, if_false]
  rfl

/-- The second `close` of a connection finds its descriptor closed already. -/
theorem Kept.connectionClosed_eq {p : Process} {client : TcpSocket} (h : p.Kept)
    (hm : p.server.Manages client) :
    p.connectionClosed client = { p.close client.fd with server := p.forgotten client } := by
  have hget : (p.close client.fd).server.connections.get? client.fd = some client :=
    h.get?_of_manages hm
  have hclose : (p.openFds.erase client.fd).erase client.socket = p.openFds.erase client.fd :=
    Finset.erase_idem
  simp only [connectionClosed, hget]
  simp only [close, hclose]
  rfl

theorem Kept.step_cases {p p' : Process} {request : ServerRequest} {answer : ServerAnswer}
    (h : p.Kept) (hs : p.step request = some (answer, p')) : StepCase p request answer p' := by
  cases request with
  | acceptIfAny ready accept =>
    rw [step] at hs
    split_ifs at hs with hfresh
    cases ready with
    | none =>
      obtain ⟨rfl, rfl⟩ := Prod.mk.inj (Option.some.inj hs)
      exact .acceptFails
    | some ready =>
      by_cases hnobody : p.server.listener ∈ ready → accept = none
      · rw [acceptIfAny_nobody hnobody] at hs
        obtain ⟨rfl, rfl⟩ := Prod.mk.inj (Option.some.inj hs)
        exact .acceptsNobody hnobody
      · obtain ⟨hl, haccept⟩ := Classical.not_imp.mp hnobody
        obtain ⟨⟨newfd, address⟩, rfl⟩ := Option.ne_none_iff_exists'.mp haccept
        have hnew : newfd ∉ p.openFds := (hfresh _ rfl).1
        have hfd : (⟨address, newfd⟩ : TcpSocket).fd = newfd := rfl
        rw [h.acceptIfAny_accepts hnew hl] at hs
        obtain ⟨rfl, rfl⟩ := Prod.mk.inj (Option.some.inj hs)
        exact .accepts hl (hfd.symm ▸ hnew)
  | connectionsWithData ready =>
    cases ready with
    | none =>
      obtain ⟨rfl, rfl⟩ := Prod.mk.inj (Option.some.inj hs)
      exact .readFails
    | some ready =>
      obtain ⟨clients, hc, -⟩ := h.connectionsWithData ready
      simp only [step, hc] at hs
      obtain ⟨rfl, rfl⟩ := Prod.mk.inj (Option.some.inj hs)
      exact .reads hc
  | connectionClosed client =>
    rw [step] at hs
    split_ifs at hs with hm
    obtain ⟨rfl, rfl⟩ := Prod.mk.inj (Option.some.inj hs)
    rw [h.connectionClosed_eq hm]
    exact .closes hm
  | releaseConnection client =>
    rw [step] at hs
    split_ifs at hs with hm
    have hr : p.releaseConnection client = (some client, _) :=
      congrArg (Prod.mk · _) (h.get?_of_manages hm)
    simp only [hr] at hs
    obtain ⟨rfl, rfl⟩ := Prod.mk.inj (Option.some.inj hs)
    exact .releases hm
  | openElsewhere fd =>
    rw [step] at hs
    split_ifs at hs with hfd
    obtain ⟨rfl, rfl⟩ := Prod.mk.inj (Option.some.inj hs)
    exact .opensElsewhere hfd
  | closeElsewhere fd =>
    rw [step] at hs
    split_ifs at hs with hfd
    obtain ⟨rfl, rfl⟩ := Prod.mk.inj (Option.some.inj hs)
    exact .closesElsewhere hfd

theorem Kept.accepted {p : Process} {client : TcpSocket} (h : p.Kept)
    (hfresh : client.fd ∉ p.openFds) : (p.accepted client).Kept := by
  have hne (fd : Fd) (hfd : fd ∈ p.openFds) : fd ≠ client.fd := fun he => hfresh (he ▸ hfd)
  have hlistener := hne _ (h.opened _ ((h.master p.server.listener).mpr (.inl rfl)))
  constructor
  · constructor
    · intro fd
      have hc : (p.accepted client).server.connections.contains fd = true ↔
          p.server.connections.contains fd = true ∨ client.fd = fd := OrderedSet.contains_insert
      change fd ∈ insert client.fd p.server.fdMaster ↔ fd = p.server.listener ∨ _
      rw [hc, Finset.mem_insert, h.master fd, eq_comm (a := client.fd), or_left_comm,
        or_comm (a := fd = client.fd)]
    · rw [← Bool.not_eq_true]
      intro hc
      rcases OrderedSet.contains_insert.mp hc with hc | he
      · have hcontains : p.server.connections.contains p.server.listener = true := hc
        rw [h.listener] at hcontains
        cases hcontains
      · exact hlistener he.symm
    · intro e he
      rcases OrderedSet.mem_insert.mp he with he | ⟨rfl, -⟩
      · exact h.fd e he
      · rfl
    · intro fd hfd
      rcases Finset.mem_insert.mp hfd with rfl | hfd
      · exact Nat.le_max_right ..
      · exact (h.max fd hfd).trans (Nat.le_max_left ..)
  · intro fd hfd
    rcases Finset.mem_insert.mp hfd with rfl | hfd
    · exact Finset.mem_insert_self ..
    · exact Finset.mem_insert_of_mem (h.opened fd hfd)
  · intro fd hfd
    obtain ⟨hopen, hmaster⟩ := h.foreign fd hfd
    refine ⟨Finset.mem_insert_of_mem hopen, fun hm => ?_⟩
    rcases Finset.mem_insert.mp hm with rfl | hm
    · exact hfresh hopen
    · exact hmaster hm

theorem forgotten_bookkeeping {p : Process} {client : TcpSocket} (h : Bookkeeping p.server)
    (hm : p.server.Manages client) : Bookkeeping (p.forgotten client) := by
  obtain ⟨-, hne⟩ := h.mem_master_of_manages hm
  have hc (fd : Fd) : (p.forgotten client).connections.contains fd = true ↔
      p.server.connections.contains fd = true ∧ fd ≠ client.fd := OrderedSet.contains_erase
  constructor
  · intro fd
    refine Finset.mem_erase.trans ?_
    rw [hc, h.master fd]
    constructor
    · rintro ⟨hfd, hl | hk⟩
      · exact .inl hl
      · exact .inr ⟨hk, hfd⟩
    · rintro (rfl | ⟨hk, hfd⟩)
      · exact ⟨hne.symm, .inl rfl⟩
      · exact ⟨hfd, .inr hk⟩
  · rw [← Bool.not_eq_true]
    intro hk
    have hcontains : p.server.connections.contains p.server.listener = true := ((hc _).mp hk).1
    rw [h.listener] at hcontains
    cases hcontains
  · exact fun e he => h.fd e (OrderedSet.mem_erase.mp he).1
  · exact fun fd hfd => h.max fd (Finset.mem_of_mem_erase hfd)

theorem Kept.step {p p' : Process} {request : ServerRequest} {answer : ServerAnswer}
    (h : p.Kept) (hs : StepCase p request answer p') : p'.Kept := by
  cases hs with
  | acceptFails => exact h
  | acceptsNobody => exact h
  | accepts hl hfresh => exact h.accepted hfresh
  | readFails => exact h
  | reads => exact h
  | @closes client hm =>
    refine ⟨forgotten_bookkeeping h.toBookkeeping hm, fun fd hfd => ?_, fun fd hfd => ?_⟩
    · obtain ⟨hne, hfd⟩ := Finset.mem_erase.mp hfd
      exact Finset.mem_erase.mpr ⟨hne, h.opened fd hfd⟩
    · obtain ⟨hopen, hmaster⟩ := h.foreign fd hfd
      have hne : fd ≠ client.fd :=
        fun he => hmaster (he ▸ (h.mem_master_of_manages hm).1)
      exact ⟨Finset.mem_erase.mpr ⟨hne, hopen⟩, fun hk => hmaster (Finset.mem_of_mem_erase hk)⟩
  | @releases client hm =>
    refine ⟨forgotten_bookkeeping h.toBookkeeping hm, fun fd hfd => ?_, fun fd hfd => ?_⟩
    · exact h.opened fd (Finset.mem_of_mem_erase hfd)
    · rcases Finset.mem_insert.mp hfd with rfl | hfd
      · exact ⟨h.opened _ (h.mem_master_of_manages hm).1, Finset.notMem_erase _ _⟩
      · obtain ⟨hopen, hmaster⟩ := h.foreign fd hfd
        exact ⟨hopen, fun hk => hmaster (Finset.mem_of_mem_erase hk)⟩
  | @opensElsewhere fd hfd =>
    refine ⟨h.toBookkeeping, fun fd' hfd' => Finset.mem_insert_of_mem (h.opened fd' hfd'),
      fun fd' hfd' => ?_⟩
    rcases Finset.mem_insert.mp hfd' with rfl | hfd'
    · exact ⟨Finset.mem_insert_self .., fun hm => hfd (h.opened _ hm)⟩
    · obtain ⟨hopen, hmaster⟩ := h.foreign fd' hfd'
      exact ⟨Finset.mem_insert_of_mem hopen, hmaster⟩
  | @closesElsewhere fd hfd =>
    refine ⟨h.toBookkeeping, fun fd' hfd' => ?_, fun fd' hfd' => ?_⟩
    · have hne : fd' ≠ fd := fun he => (h.foreign fd hfd).2 (he ▸ hfd')
      exact Finset.mem_erase.mpr ⟨hne, h.opened fd' hfd'⟩
    · obtain ⟨hne, hfd'⟩ := Finset.mem_erase.mp hfd'
      obtain ⟨hopen, hmaster⟩ := h.foreign fd' hfd'
      exact ⟨Finset.mem_erase.mpr ⟨hne, hopen⟩, hmaster⟩

end Process

/-- The listener was ready and `accept` returned the descriptor, for which the
object was made. -/
def Accepted (listener : Fd) (client : TcpSocket) (e : ServerEvent) : Prop :=
  ∃ ready, e.1 = .acceptIfAny (some ready) (some (client.fd, client.address)) ∧ listener ∈ ready

def ClosedOrReleased (client : TcpSocket) (e : ServerEvent) : Prop :=
  e.1 = .connectionClosed client ∨ e.1 = .releaseConnection client

theorem accepted_iff {p : Process} {client client' : TcpSocket} {ready : Finset Fd}
    {answer : ServerAnswer} (hl : p.server.listener ∈ ready) :
    Accepted p.server.listener client'
      (.acceptIfAny (some ready) (some (client.fd, client.address)), answer) ↔
        client' = client := by
  constructor
  · rintro ⟨ready', he, -⟩
    obtain ⟨-, he⟩ := ServerRequest.acceptIfAny.inj he
    obtain ⟨hfd, haddress⟩ := Prod.mk.inj (Option.some.inj he)
    cases client
    cases client'
    exact TcpSocket.mk.injEq .. ▸ ⟨haddress.symm, hfd.symm⟩
  · rintro rfl
    exact ⟨ready, rfl, hl⟩

theorem Process.manages_accepted {p : Process} {client client' : TcpSocket} (h : p.Kept)
    (hfresh : client.fd ∉ p.openFds) :
    (p.accepted client).server.Manages client' ↔ p.server.Manages client' ∨ client' = client := by
  rw [(h.accepted hfresh).manages_iff, h.manages_iff]
  refine OrderedSet.mem_insert.trans (or_congr_right ?_)
  refine (and_iff_left (h.not_contains hfresh)).trans ?_
  exact ⟨fun he => (Prod.mk.inj he).2, fun he => he ▸ rfl⟩

theorem Process.manages_forgotten {p : Process} {client client' : TcpSocket}
    (h : Bookkeeping p.server) (hm : p.server.Manages client) :
    (p.forgotten client).Manages client' ↔ p.server.Manages client' ∧ client' ≠ client := by
  rw [(forgotten_bookkeeping h hm).manages_iff, h.manages_iff]
  refine OrderedSet.mem_erase.trans (and_congr_right fun hm' => not_congr ?_)
  constructor
  · intro he
    exact (Prod.mk.inj (OrderedSet.eq_of_key hm' (h.manages_iff.mp hm) he)).2
  · exact fun he => he ▸ rfl

theorem Process.manages_step {p p' : Process} {request : ServerRequest} {answer : ServerAnswer}
    {client : TcpSocket} (h : p.Kept) (hs : p.StepCase request answer p') :
    p'.server.Manages client ↔ Accepted p.server.listener client (request, answer) ∨
      (p.server.Manages client ∧ ¬ ClosedOrReleased client (request, answer)) := by
  cases hs with
  | acceptFails => simp [Accepted, ClosedOrReleased]
  | @acceptsNobody ready accept hnobody =>
    have hna : ¬ Accepted p.server.listener client (.acceptIfAny (some ready) accept, .done) := by
      rintro ⟨ready', he, hl⟩
      obtain ⟨hready, haccept⟩ := ServerRequest.acceptIfAny.inj he
      obtain rfl := Option.some.inj hready
      cases haccept.symm.trans (hnobody hl)
    simp [hna, ClosedOrReleased]
  | accepts hl hfresh =>
    rw [manages_accepted h hfresh, accepted_iff hl, or_comm]
    simp [ClosedOrReleased]
  | readFails => simp [Accepted, ClosedOrReleased]
  | reads => simp [Accepted, ClosedOrReleased]
  | closes hm =>
    refine (manages_forgotten h.toBookkeeping hm).trans ?_
    simp [Accepted, ClosedOrReleased, eq_comm]
  | releases hm =>
    refine (manages_forgotten h.toBookkeeping hm).trans ?_
    simp [Accepted, ClosedOrReleased, eq_comm]
  | opensElsewhere =>
    change p.server.Manages client ↔ _
    simp [Accepted, ClosedOrReleased]
  | closesElsewhere =>
    change p.server.Manages client ↔ _
    simp [Accepted, ClosedOrReleased]

theorem Process.run_kept {trace : List ServerEvent} {p : Process} {listener : Fd}
    {foreign : Finset Fd} (hrun : Run Process.step (.new listener foreign) trace p) :
    p.Kept ∧ p.server.listener = listener ∧
      ∀ client, p.server.Manages client ↔
        Since (Accepted listener client) (ClosedOrReleased client) trace := by
  refine hrun.history (P := fun past p => p.Kept ∧ p.server.listener = listener ∧
    ∀ client, p.server.Manages client ↔
      Since (Accepted listener client) (ClosedOrReleased client) past) ?_ ?_
  · refine ⟨.new listener foreign, rfl, fun client => ?_⟩
    exact iff_of_false (fun ⟨_, he, _⟩ => absurd he List.not_mem_nil) not_since_nil
  · rintro past p request answer p' - ⟨hkept, rfl, hmanages⟩ hs
    have hcase := hkept.step_cases hs
    have hl : p'.server.listener = p.server.listener := by cases hcase <;> rfl
    refine ⟨hkept.step hcase, hl, fun client => ?_⟩
    rw [Process.manages_step hkept hcase, since_append_singleton, hmanages]

theorem Process.Kept.connectionClosed {p : Process} {client : TcpSocket} (h : p.Kept)
    (hm : p.server.Manages client) :
    (p.connectionClosed client).Kept ∧
      ∀ client', (p.connectionClosed client).server.Manages client' ↔
      p.server.Manages client' ∧ client' ≠ client := by
  rw [h.connectionClosed_eq hm]
  exact ⟨h.step (.closes hm), fun _ => manages_forgotten h.toBookkeeping hm⟩

/-- The bookkeeping holds after every sequence of calls. So a descriptor that
`accept` returns has no connection yet, and a poll returns the ready ones of the
connections that were accepted and not yet closed or released. -/
theorem bookkeeping {trace : List ServerEvent} {p : Process} {listener : Fd} {foreign : Finset Fd}
    (hrun : Run Process.step (.new listener foreign) trace p) :
    Bookkeeping p.server ∧ p.server.listener = listener ∧
    (∀ newfd, newfd ∉ p.openFds → p.server.connections.contains newfd = false) ∧
    (∀ ready, p.server.connectionsWithData ready ≠ .error .outOfRange) ∧
    ∀ ready, ∃ clients, p.server.connectionsWithData (some ready) = .ok clients ∧ clients.Nodup ∧
      ∀ client, client ∈ clients ↔ client.fd ∈ ready ∧
        Since (Accepted listener client) (ClosedOrReleased client) trace := by
  obtain ⟨hkept, hlistener, hmanages⟩ := Process.run_kept hrun
  refine ⟨hkept.toBookkeeping, hlistener, fun newfd => hkept.not_contains, fun ready => ?_,
    fun ready => ?_⟩
  · cases ready with
    | none => exact fun he => by cases he
    | some ready =>
      obtain ⟨clients, hc, -⟩ := hkept.connectionsWithData ready
      exact fun he => by cases hc.symm.trans he
  · obtain ⟨clients, hc, hnodup, hmem⟩ := hkept.connectionsWithData ready
    exact ⟨clients, hc, hnodup, fun client => by rw [hmem, hmanages]⟩

/-- A descriptor comes back for a new connection once the thread that owned the
released one has closed it. -/
theorem bookkeeping_sample :
    ∃ p, Run Process.step (.new 3 {0})
        [(.acceptIfAny (some {3}) (some (4, 100)), .done),
          (.releaseConnection ⟨100, 4⟩, .released (some ⟨100, 4⟩)),
          (.acceptIfAny (some {3}) (some (5, 200)), .done), (.closeElsewhere 4, .done),
          (.acceptIfAny (some {3}) (some (4, 300)), .done)] p ∧
      p.server.fdMaster = {3, 4, 5} ∧ Bookkeeping p.server := by
  refine (Run.of_exec_map (f := fun p => p.server.fdMaster) (a := {3, 4, 5})
    (by decide)).imp fun p hp => ⟨hp.1, hp.2, ?_⟩
  exact (bookkeeping hp.1).1

end RpcLibrary
