import AllServer.CNetManager

/-!
# The connections of the server

The network manager as a machine: connections are accepted and made, reads and
writes complete, with an error or without, and the steps of `Server` come in
between. The handlers run one at a time on the I/O thread; `ConnectTo_Async` is
called on the main thread. A read on a socket that has been closed completes
with an error.

The machine emits what there is to observe of a connection: the packets that are
pushed to the queue of the service, the responses to handshakes, and the errors.

The sessions of the server and the table of the session manager are the same
sessions (`CNetManager.Linked`), and the runs of the manager are runs of the
server (`CNetManager.exists_run_server`).
-/

/-- A step of the network manager. -/
inductive ManagerEvent where
  /-- `HandleAccept`, with or without an error. -/
  | HandleAccept (e : Bool)
  | ConnectTo_Async
  /-- `HandleConnect` for this session, with or without an error. -/
  | HandleConnect (pNetSession : ℕ) (e : Bool)
  /-- `HandReaddata` with an error, for the session with this id. -/
  | HandReaddata (nConnID : ℕ)
  | server (e : ServerEvent)

/-- **What there is to observe of a connection.** -/
inductive Occurrence where
  /-- A packet is pushed to the queue of the service. -/
  | enqueued (p : NetPacket)
  /-- The response to a handshake is pushed to the queue of the session, and
  whether this succeeds. -/
  | response (nConnID : ℕ) (ok : Bool)
  /-- A read or a write of a connection completes with an error. -/
  | error (nConnID : ℕ)

/-- The steps of the server but those that the manager takes in it. -/
def ServerEvent.IsInternal : ServerEvent → Prop
  | .CreateNetSession _ | .gateway (.accept _) => False
  | _ => True

namespace Server

/-- Whether the handshake of a session is done. -/
def IsHandler (s : Server) (nConnID : ℕ) : Bool :=
  (s.gateway.sessions nConnID).any CNetSession.m_IsHandler

/-- What there is to observe of a step of the server. -/
def occurrences (s s' : Server) : ServerEvent → List Occurrence
  | .gateway (.read nConnID _) =>
    if s.IsHandler nConnID = false ∧ s'.IsHandler nConnID = true then
      [.response nConnID (decide ((s.senders nConnID).lockfree_queue.length < QUEUE_CAPACITY))]
    else []
  | .gateway .call => ((s.gateway.calls.take 1).flatMap CServiceBase.packets).map .enqueued
  | .send nConnID (.HandWritedata _ true) =>
    if (s.gateway.sessions nConnID).isSome then [.error nConnID] else []
  | _ => []

/-- The sessions that have a read outstanding after a step of the server. One
that has handled a read has the next one outstanding if it has asked for it. -/
def rearmed (reading : Finset ℕ) (s' : Server) : ServerEvent → Finset ℕ
  | .gateway (.read nConnID _) =>
    if windows s'.gateway.calls = [] then reading.erase nConnID else reading
  | _ => reading

end Server

namespace CNetManager

/-- What there is to observe of a connection that is there, or is not. -/
def opened (nConnID : ℕ) (e : Bool) : List Occurrence :=
  if e then [] else [.enqueued ⟨NEW_CONNECTION, nConnID, none⟩]

section Step

variable (CheckHttpPackkage : List UInt8 → Bool)

/-- **The network manager as a machine.** A call of `ConnectTo_Async` that does
not get a session takes the process down, and is left out. -/
inductive Step : Machine CNetManager ManagerEvent Occurrence
  | HandleAccept {s s' : CNetManager} {p : ℕ} {e : Bool} :
      s.server.Idle → s.accepting = some p →
      HandleAccept p e { s with accepting := none } = some s' →
      Step s (.HandleAccept e) (opened (s.connID p) e) s'
  | ConnectTo_Async {s s' : CNetManager} {p : ℕ} :
      s.ConnectTo_Async = some (s', .ok p) →
      Step s .ConnectTo_Async [] s'
  | HandleConnect {s : CNetManager} {p : ℕ} {e : Bool} :
      s.server.Idle → p ∈ s.connecting →
      Step s (.HandleConnect p e) (opened (s.connID p) e)
        (HandleConnect p e { s with connecting := s.connecting.erase p })
  | HandReaddata {s : CNetManager} {nConnID : ℕ} :
      s.server.Idle → nConnID ∈ s.reading →
      Step s (.HandReaddata nConnID) [.error nConnID]
        { s with reading := s.reading.erase nConnID }
  | server {s : CNetManager} {e : ServerEvent} {sizes : List ℤ} {t : Server} :
      e.IsInternal → (∀ nConnID r, e = .gateway (.read nConnID r) → nConnID ∈ s.reading) →
      Server.Step CheckHttpPackkage s.server e sizes t →
      Step s (.server e) (s.server.occurrences t e)
        { s with server := t, reading := Server.rearmed s.reading t e }

end Step

end CNetManager

/-! ## The steps of the server -/

/-- **What becomes of a session in a step**: it keeps its id and is ready, and if
its socket is closed it stays so. -/
structure CNetSession.Continues (c c' : CNetSession) : Prop where
  id_eq : c'.m_dwSessionID = c.m_dwSessionID
  ready : c'.Ready
  closed : c.m_hSocket = false → c'.m_hSocket = false

namespace Server

variable {CheckHttpPackkage : List UInt8 → Bool} {s s' : Server} {e : ServerEvent}
variable {sizes : List ℤ}

/-- **What a step of the server does to its sessions**: one of them handles a
read, the next call is made of those that it has asked for, or neither. -/
theorem Step.cases (h : Step CheckHttpPackkage s e sizes s') (he : e.IsInternal) :
    s'.m_OnlineNetSessionVector = s.m_OnlineNetSessionVector
      ∧ ((∃ n r c c' calls, e = .gateway (.read n r) ∧ s.Idle ∧ s.gateway.sessions n = some c
            ∧ CNetSession.Receives CheckHttpPackkage c r calls c'
            ∧ s'.gateway.sessions = Function.update s.gateway.sessions n (some c')
            ∧ s'.gateway.calls = calls)
        ∨ (∃ c calls, e = .gateway .call ∧ s.gateway.calls = c :: calls
            ∧ s'.gateway.sessions = s.gateway.sessions ∧ s'.gateway.calls = calls)
        ∨ ((∀ n r, e ≠ .gateway (.read n r)) ∧ e ≠ .gateway .call
            ∧ s'.gateway.sessions = s.gateway.sessions ∧ s'.gateway.calls = s.gateway.calls)) := by
  cases h with
  | CreateNetSession | accept => exact he.elim
  | read hidle hn hc hr => exact ⟨rfl, .inl ⟨_, _, _, _, _, rfl, hidle, hc, hr, rfl, rfl⟩⟩
  | handshake hidle hn hc hr => exact ⟨rfl, .inl ⟨_, _, _, _, _, rfl, hidle, hc, hr, rfl, rfl⟩⟩
  | call hnot hg =>
    cases hg with
    | call hcalls => exact ⟨rfl, .inr (.inl ⟨_, _, rfl, hcalls, rfl, rfl⟩)⟩
  | update hevent hg =>
    refine ⟨rfl, .inr (.inr ?_)⟩
    rcases hevent with rfl | rfl | rfl <;> cases hg <;> exact ⟨by simp, by simp, rfl, rfl⟩
  | send => exact ⟨rfl, .inr (.inr ⟨by simp, by simp, rfl, rfl⟩)⟩

/-- **A step continues every session.** -/
theorem Step.continues (h : Step CheckHttpPackkage s e sizes s') (he : e.IsInternal)
    (hs : s.Ready) (n : ℕ) :
    Option.Rel CNetSession.Continues (s.gateway.sessions n) (s'.gateway.sessions n) := by
  have hsame : Option.Rel CNetSession.Continues (s.gateway.sessions n) (s.gateway.sessions n) := by
    cases hc : s.gateway.sessions n with
    | none => exact .none
    | some c => exact .some ⟨rfl, hs n c hc, id⟩
  obtain ⟨-, ⟨m, r, c, c', calls, -, -, hc, hr, hsessions, -⟩ | ⟨-, -, -, -, hsessions, -⟩
    | ⟨-, -, hsessions, -⟩⟩ := h.cases he
  · rw [hsessions]
    rcases eq_or_ne n m with rfl | hne
    · obtain ⟨hready, hid, -⟩ := (hs n c hc).step hr
      rw [hc, Function.update_self]
      -- a socket that is closed receives nothing
      exact .some ⟨hid, hready,
        fun hclosed => absurd (hclosed.symm.trans hr.1.1) Bool.false_ne_true⟩
    · rwa [Function.update_of_ne hne]
  · rwa [hsessions]
  · rwa [hsessions]

/-- A step takes no session that has a read outstanding to that set. -/
theorem rearmed_subset (reading : Finset ℕ) (s' : Server) (e : ServerEvent) :
    rearmed reading s' e ⊆ reading := by
  unfold rearmed
  split
  · split_ifs
    · exact Finset.erase_subset _ _
    · exact Finset.Subset.refl _
  · exact Finset.Subset.refl _

end Server

namespace CNetManager

/-! ## The table and the sessions -/

/-- The sessions that wait for a connection. -/
def waiting (s : CNetManager) : List ℕ := s.accepting.toList ++ s.connecting

/-- A session is online if it is in the map of the session manager. -/
def Online (s : CNetManager) (p : ℕ) : Prop := ∃ key, s.mrg.m_OnlineNetSessionVector key = some p

/-- **The table and the sessions of the server belong together.** -/
structure Linked (nMaxConn : UInt32) (s : CNetManager) : Prop where
  table : s.mrg.Table nMaxConn
  /-- The ids in use are those of the sessions that are online. -/
  online_iff : ∀ n, n ∈ s.server.m_OnlineNetSessionVector ↔ ∃ p, s.Online p ∧ s.connID p = n
  /-- The sessions that wait for a connection are online. -/
  waiting_online : ∀ p ∈ s.waiting, s.Online p
  /-- They have not got one yet. -/
  waiting_none : ∀ p ∈ s.waiting, s.server.gateway.sessions (s.connID p) = none
  nodup : s.waiting.Nodup
  /-- A session that has a connection is in use, and goes by its id. -/
  accepted : ∀ n c, s.server.gateway.sessions n = some c →
    n ∈ s.server.m_OnlineNetSessionVector ∧ c.m_dwSessionID = n ∧ c.Ready
  /-- A session that has a read outstanding has a connection. -/
  reading : ∀ n ∈ s.reading, ∃ c, s.server.gateway.sessions n = some c

variable {CheckHttpPackkage : List UInt8 → Bool} {nMaxConn : UInt32} {s s' : CNetManager}

/-- Sessions that are online are told apart by their ids. -/
theorem Linked.connID_inj (hs : s.Linked nMaxConn) {p q : ℕ} (hp : s.Online p) (hq : s.Online q)
    (h : s.connID p = s.connID q) : p = q :=
  hs.table.injective p q ((hs.table.lt_iff p).mpr (.inr hp)) ((hs.table.lt_iff q).mpr (.inr hq))
    (UInt32.toNat_inj.mp h)

/-- Fewer sessions may wait. -/
theorem Linked.of_sublist (hs : s.Linked nMaxConn) {accepting : Option ℕ} {connecting : List ℕ}
    (h : (accepting.toList ++ connecting).Sublist s.waiting) :
    Linked nMaxConn { s with accepting, connecting } :=
  ⟨hs.table, hs.online_iff, fun p hp => hs.waiting_online p (h.subset hp),
    fun p hp => hs.waiting_none p (h.subset hp), hs.nodup.sublist h, hs.accepted, hs.reading⟩

/-- The id of a session that is free is not in use. -/
theorem Linked.unused (hs : s.Linked nMaxConn) {p : ℕ} (hp : p ∈ s.mrg.m_NetSessionVector) :
    s.connID p ∉ s.server.m_OnlineNetSessionVector := by
  intro hmem
  obtain ⟨q, ⟨key, hkey⟩, hqp⟩ := (hs.online_iff _).mp hmem
  have hid : key = s.mrg.GetSessionID p :=
    (hs.table.key_eq key q hkey).symm.trans (UInt32.toNat_inj.mp hqp)
  rw [hid, hs.table.unused hp] at hkey
  cases hkey

/-- It has no connection. -/
theorem Linked.sessions_eq_none (hs : s.Linked nMaxConn) {n : ℕ}
    (hn : n ∉ s.server.m_OnlineNetSessionVector) : s.server.gateway.sessions n = none :=
  Option.eq_none_iff_forall_ne_some.mpr fun c hc => hn (hs.accepted n c hc).1

/-- **A session is put to use**: it is online then, waits for nothing, and has no
connection. -/
theorem Linked.create (hs : s.Linked nMaxConn) {CNetSession_ : Option ℕ}
    (h : s.CreateNetSession = some (s', CNetSession_)) :
    s'.Linked nMaxConn ∧ s'.waiting = s.waiting
      ∧ ∀ p, CNetSession_ = some p → s'.Online p ∧ p ∉ s'.waiting
        ∧ s'.server.gateway.sessions (s'.connID p) = none := by
  obtain ⟨mrg, hmrg, rfl⟩ := CreateNetSession_eq_some.mp h
  have htable := hs.table.step hmrg
  have honline := hs.table.online_create hmrg
  obtain ⟨-, ⟨-, rfl, rfl⟩ | ⟨rest, p, hvector, rfl, rfl⟩⟩ :=
    CNetSessionMrg.CreateNetSession_eq_some hmrg
  · refine ⟨⟨htable, hs.online_iff, hs.waiting_online, hs.waiting_none, hs.nodup, hs.accepted,
      hs.reading⟩, rfl, fun p hp => absurd hp.symm (Option.some_ne_none p)⟩
  · have hfree : ¬ s.Online p := fun ⟨key, hkey⟩ => hs.table.notMem_of_create hmrg key hkey
    have hnone := hs.sessions_eq_none (hs.unused (p := p) (by simp [hvector]))
    refine ⟨⟨htable, fun n => ?_, fun q hq => ?_, hs.waiting_none, hs.nodup, fun n c hc => ?_,
      hs.reading⟩, rfl, fun q hq => ?_⟩
    · show n ∈ insert (s.connID p) s.server.m_OnlineNetSessionVector ↔ _
      rw [Finset.mem_insert, hs.online_iff]
      constructor
      · rintro (rfl | ⟨q, hq, rfl⟩)
        · exact ⟨p, (honline p).mpr (.inr rfl), rfl⟩
        · exact ⟨q, (honline q).mpr (.inl hq), rfl⟩
      · rintro ⟨q, hq, rfl⟩
        rcases (honline q).mp hq with hq' | hq'
        · exact .inr ⟨q, hq', rfl⟩
        · exact .inl (Option.some.inj hq' ▸ rfl)
    · exact (honline q).mpr (.inl (hs.waiting_online q hq))
    · obtain ⟨hn, hid, hready⟩ := hs.accepted n c hc
      exact ⟨Finset.mem_insert_of_mem hn, hid, hready⟩
    · obtain rfl := Option.some.inj hq
      exact ⟨(honline p).mpr (.inr rfl), fun hp => hfree (hs.waiting_online p hp), hnone⟩

/-- **A session has got its connection.** -/
theorem Linked.connected (hs : s.Linked nMaxConn) {p : ℕ} (hp : s.Online p)
    (hwait : p ∉ s.waiting) : (s.connected (s.connID p)).Linked nMaxConn := by
  refine ⟨hs.table, hs.online_iff, hs.waiting_online, fun q hq => ?_, hs.nodup,
    fun n c hc => ?_, fun n hn => ?_⟩
  · have hne : s.connID q ≠ s.connID p := by
      intro heq
      exact hwait (hs.connID_inj (hs.waiting_online q hq) hp heq ▸ hq)
    exact (Function.update_of_ne hne _ _).trans (hs.waiting_none q hq)
  · dsimp only [CNetManager.connected] at hc
    by_cases hnp : n = s.connID p
    · rw [hnp, Function.update_self] at hc
      obtain rfl := Option.some.inj hc
      exact ⟨(hs.online_iff n).mpr ⟨p, hp, hnp.symm⟩, hnp.symm,
        (CNetSession.blank_accepted _).ready⟩
    · rw [Function.update_of_ne hnp] at hc
      exact hs.accepted n c hc
  · dsimp only [CNetManager.connected] at hn ⊢
    by_cases hnp : n = s.connID p
    · rw [hnp, Function.update_self]
      exact ⟨_, rfl⟩
    · rw [Function.update_of_ne hnp]
      exact hs.reading n ((Finset.mem_insert.mp hn).resolve_left hnp)

/-- The session that waits to be accepted waits no longer, and may have got its
connection. -/
theorem Linked.accept (hs : s.Linked nMaxConn) {p : ℕ} (hp : s.accepting = some p) :
    Linked nMaxConn { s with accepting := none }
      ∧ Linked nMaxConn (({ s with accepting := none } : CNetManager).connected (s.connID p)) := by
  have hnodup := hs.nodup
  have honline := hs.waiting_online p (by simp [waiting, hp])
  have hrest : Linked nMaxConn { s with accepting := none } := by
    refine hs.of_sublist ?_
    exact List.sublist_append_right s.accepting.toList s.connecting
  rw [waiting, hp] at hnodup
  exact ⟨hrest, hrest.connected (p := p) honline (List.nodup_cons.mp hnodup).1⟩

/-- A session that is put to use may be left waiting for a connection. -/
theorem Linked.wait (hs : s.Linked nMaxConn) {p : ℕ} (hp : s.Online p) (hwait : p ∉ s.waiting)
    (hnone : s.server.gateway.sessions (s.connID p) = none) {accepting : Option ℕ}
    {connecting : List ℕ} (h : (accepting.toList ++ connecting).Perm (p :: s.waiting)) :
    Linked nMaxConn { s with accepting, connecting } := by
  refine ⟨hs.table, hs.online_iff, fun q hq => ?_, fun q hq => ?_,
    h.nodup_iff.mpr (List.nodup_cons.mpr ⟨hwait, hs.nodup⟩), hs.accepted, hs.reading⟩
  · rcases List.mem_cons.mp (h.mem_iff.mp hq) with rfl | hq
    · exact hp
    · exact hs.waiting_online q hq
  · rcases List.mem_cons.mp (h.mem_iff.mp hq) with rfl | hq
    · exact hnone
    · exact hs.waiting_none q hq

/-- **`WaitForConnet`**, where no session waits to be accepted. -/
theorem Linked.WaitForConnet (hs : s.Linked nMaxConn) (hnone : s.accepting = none) {ok : Bool}
    (h : s.WaitForConnet = some (s', ok)) : s'.Linked nMaxConn := by
  obtain ⟨t, r, ht, ⟨-, rfl, -⟩ | ⟨p, rfl, rfl, -⟩⟩ := WaitForConnet_eq_some h
  · exact (hs.create ht).1
  · obtain ⟨ht', hwaiting, hp⟩ := hs.create ht
    obtain ⟨honline, hwait, hnew⟩ := hp p rfl
    refine ht'.wait honline hwait hnew ?_
    have hconnecting : t.waiting = t.connecting := by
      obtain ⟨mrg, -, rfl⟩ := CreateNetSession_eq_some.mp ht
      show s.accepting.toList ++ s.connecting = s.connecting
      rw [hnone]
      rfl
    rw [hconnecting]
    exact List.Perm.refl _

/-- No session is online before `Start`. -/
theorem linked_initialized (nMaxConn : UInt32) : (initialized nMaxConn).Linked nMaxConn := by
  obtain ⟨-, -, honline⟩ := CNetSessionMrg.init_spec nMaxConn
  refine ⟨CNetSessionMrg.table_init nMaxConn, fun n => ?_, fun p hp => ?_, fun p hp => ?_,
    List.nodup_nil, fun n c hc => ?_, fun n hn => ?_⟩
  · refine iff_of_false (Finset.notMem_empty n) ?_
    rintro ⟨p, ⟨key, hkey⟩, -⟩
    exact absurd ((congrFun honline key).symm.trans hkey) (Option.some_ne_none p).symm
  · exact absurd hp List.not_mem_nil
  · exact absurd hp List.not_mem_nil
  · cases hc
  · exact absurd hn (Finset.notMem_empty n)

/-- **`Start`.** -/
theorem Linked.start (h : new.Start nMaxConn = some s) : s.Linked nMaxConn := by
  obtain ⟨⟨t, ok⟩, ht, h⟩ := Option.bind_eq_some_iff.mp h
  obtain rfl := Option.some.inj h
  exact (linked_initialized nMaxConn).WaitForConnet rfl ht

/-- The sessions that have a connection are ready. -/
theorem Linked.ready (hs : s.Linked nMaxConn) : s.server.Ready :=
  fun n c hc => (hs.accepted n c hc).2.2

/-- **A step of the server.** -/
theorem Linked.server (hs : s.Linked nMaxConn) {e : ServerEvent} {sizes : List ℤ} {t : Server}
    (he : e.IsInternal) (h : Server.Step CheckHttpPackkage s.server e sizes t) :
    Linked nMaxConn { s with server := t, reading := Server.rearmed s.reading t e } := by
  obtain ⟨honline, -⟩ := h.cases he
  have hcontinues := h.continues he hs.ready
  refine ⟨hs.table, fun m => ?_, hs.waiting_online, fun p hp => ?_, hs.nodup,
    fun m d hd => ?_, fun m hm => ?_⟩
  · dsimp only
    rw [honline]
    exact hs.online_iff m
  · have hp' := hcontinues (s.connID p)
    rw [hs.waiting_none p hp] at hp'
    change t.gateway.sessions (s.connID p) = none
    generalize t.gateway.sessions (s.connID p) = d at hp' ⊢
    cases hp'
    rfl
  · have hm := hcontinues m
    dsimp only at hd ⊢
    rw [hd] at hm
    cases hc : s.server.gateway.sessions m with
    | none =>
      rw [hc] at hm
      cases hm
    | some c =>
      rw [hc] at hm
      obtain ⟨honline', hid, -⟩ := hs.accepted m c hc
      cases hm with
      | some hrel =>
        rw [honline]
        exact ⟨honline', hrel.id_eq.trans hid, hrel.ready⟩
  · obtain ⟨d, hd⟩ := hs.reading m (Server.rearmed_subset _ _ _ hm)
    have hrel := hcontinues m
    rw [hd] at hrel
    dsimp only
    generalize t.gateway.sessions m = d' at hrel ⊢
    cases hrel with
    | some => exact ⟨_, rfl⟩

/-- **A step keeps the table and the sessions together.** -/
theorem Linked.step (hs : s.Linked nMaxConn) {e : ManagerEvent} {outs : List Occurrence}
    (h : Step CheckHttpPackkage s e outs s') : s'.Linked nMaxConn := by
  cases h with
  | @HandleAccept _ _ p e hidle hp h =>
    obtain ⟨hrest, hconnected⟩ := hs.accept hp
    cases e with
    | true =>
      obtain rfl := Option.some.inj h
      exact hrest
    | false =>
      obtain ⟨⟨t, ok⟩, ht, h⟩ := Option.bind_eq_some_iff.mp h
      obtain rfl := Option.some.inj h
      exact hconnected.WaitForConnet rfl ht
  | ConnectTo_Async h =>
    obtain ⟨t, r, ht, ⟨-, -, hnull⟩ | ⟨p, rfl, rfl, -⟩⟩ := ConnectTo_Async_eq_some h
    · cases hnull
    · obtain ⟨ht', -, hp⟩ := hs.create ht
      obtain ⟨honline, hwait, hnew⟩ := hp p rfl
      exact ht'.wait honline hwait hnew List.perm_middle
  | @HandleConnect _ p e hidle hp =>
    have hrest : Linked nMaxConn { s with connecting := s.connecting.erase p } :=
      hs.of_sublist (List.Sublist.append (List.Sublist.refl _) List.erase_sublist)
    cases e with
    | true => exact hrest
    | false =>
      have hnodup := List.nodup_append.mp hs.nodup
      refine hrest.connected (p := p)
        (hs.waiting_online p (List.mem_append_right _ hp)) fun hmem => ?_
      rcases List.mem_append.mp hmem with haccepting | herase
      · exact hnodup.2.2 p haccepting p hp rfl
      · exact hnodup.2.1.not_mem_erase herase
  | HandReaddata hidle hn =>
    exact ⟨hs.table, hs.online_iff, hs.waiting_online, hs.waiting_none, hs.nodup, hs.accepted,
      fun m hm => hs.reading m (Finset.mem_of_mem_erase hm)⟩
  | server he hread h => exact hs.server he h

/-! ## What a step does to the sessions -/

/-- Putting a session to use leaves those alone that have a connection. -/
theorem CreateNetSession_frame {CNetSession_ : Option ℕ}
    (h : s.CreateNetSession = some (s', CNetSession_)) :
    s'.server.gateway = s.server.gateway ∧ s'.reading = s.reading
      ∧ s'.accepting = s.accepting ∧ s'.connecting = s.connecting := by
  obtain ⟨mrg, -, rfl⟩ := CreateNetSession_eq_some.mp h
  cases CNetSession_ <;> exact ⟨rfl, rfl, rfl, rfl⟩

/-- So does waiting for a connection. -/
theorem WaitForConnet_frame {ok : Bool} (h : s.WaitForConnet = some (s', ok)) :
    s'.server.gateway = s.server.gateway ∧ s'.reading = s.reading
      ∧ s'.connecting = s.connecting := by
  obtain ⟨t, r, ht, ⟨-, rfl, -⟩ | ⟨p, -, rfl, -⟩⟩ := WaitForConnet_eq_some h
  · obtain ⟨hgateway, hreading, -, hconnecting⟩ := CreateNetSession_frame ht
    exact ⟨hgateway, hreading, hconnecting⟩
  · obtain ⟨hgateway, hreading, -, hconnecting⟩ := CreateNetSession_frame ht
    exact ⟨hgateway, hreading, hconnecting⟩

/-- After `Start` no connection is there yet. -/
theorem start_frame (h : new.Start nMaxConn = some s) :
    s.server.gateway = .new ∧ s.reading = ∅ ∧ s.connecting = [] := by
  obtain ⟨⟨t, ok⟩, ht, h⟩ := Option.bind_eq_some_iff.mp h
  obtain rfl := Option.some.inj h
  exact WaitForConnet_frame ht

/-- **What a step of the manager does to the gateway**: a connection is there,
nothing happens, or it is a step of the server. -/
theorem Linked.cases (hs : s.Linked nMaxConn) {e : ManagerEvent} {outs : List Occurrence}
    (h : Step CheckHttpPackkage s e outs s') :
    (∃ n q, s.server.gateway.calls = [] ∧ s.server.gateway.sessions n = none
        ∧ outs = [.enqueued ⟨NEW_CONNECTION, n, none⟩]
        ∧ s'.server.gateway = { s.server.gateway with
          sessions := Function.update s.server.gateway.sessions n (some (.accepted n))
          service := q })
      ∨ (s'.server.gateway = s.server.gateway ∧ (outs = []
        ∨ ∃ n, e = .HandReaddata n ∧ n ∈ s.reading ∧ outs = [.error n]))
      ∨ ∃ e' sizes, e = .server e' ∧ e'.IsInternal
        ∧ Server.Step CheckHttpPackkage s.server e' sizes s'.server
        ∧ outs = s.server.occurrences s'.server e' := by
  cases h with
  | @HandleAccept _ _ p e hidle hp h =>
    cases e with
    | true =>
      obtain rfl := Option.some.inj h
      exact .inr (.inl ⟨rfl, .inl rfl⟩)
    | false =>
      obtain ⟨⟨t, ok⟩, ht, h⟩ := Option.bind_eq_some_iff.mp h
      obtain rfl := Option.some.inj h
      exact .inl ⟨s.connID p, _, hidle.1, hs.waiting_none p (by simp [waiting, hp]), rfl,
        (WaitForConnet_frame ht).1⟩
  | ConnectTo_Async h =>
    obtain ⟨t, r, ht, ⟨-, -, hnull⟩ | ⟨p, -, rfl, -⟩⟩ := ConnectTo_Async_eq_some h
    · cases hnull
    · exact .inr (.inl ⟨(CreateNetSession_frame ht).1, .inl rfl⟩)
  | @HandleConnect _ p e hidle hp =>
    cases e with
    | true => exact .inr (.inl ⟨rfl, .inl rfl⟩)
    | false =>
      exact .inl ⟨s.connID p, _, hidle.1, hs.waiting_none p (List.mem_append_right _ hp), rfl, rfl⟩
  | HandReaddata hidle hn => exact .inr (.inl ⟨rfl, .inr ⟨_, rfl, hn, rfl⟩⟩)
  | server he hread h => exact .inr (.inr ⟨_, _, rfl, he, h, rfl⟩)

/-! ## The runs of the manager are runs of the server -/

/-- Putting a session to use is a run of the server. -/
theorem Linked.run_create (hs : s.Linked nMaxConn) {CNetSession_ : Option ℕ}
    (h : s.CreateNetSession = some (s', CNetSession_)) :
    ∃ es, Run (Server.Step CheckHttpPackkage) s.server es [] s'.server := by
  obtain ⟨mrg, hmrg, rfl⟩ := CreateNetSession_eq_some.mp h
  obtain ⟨-, ⟨-, rfl, -⟩ | ⟨rest, p, hvector, rfl, -⟩⟩ :=
    CNetSessionMrg.CreateNetSession_eq_some hmrg
  · exact ⟨[], .nil _⟩
  · have hunused := hs.unused (p := p) (by simp [hvector])
    exact ⟨_, .single (.CreateNetSession hunused (hs.sessions_eq_none hunused))⟩

/-- So is waiting for a connection. -/
theorem Linked.run_wait (hs : s.Linked nMaxConn) {ok : Bool}
    (h : s.WaitForConnet = some (s', ok)) :
    ∃ es, Run (Server.Step CheckHttpPackkage) s.server es [] s'.server := by
  obtain ⟨t, r, ht, ⟨-, rfl, -⟩ | ⟨p, -, rfl, -⟩⟩ := WaitForConnet_eq_some h
  · exact hs.run_create ht
  · obtain ⟨es, hr⟩ := hs.run_create ht
    exact ⟨es, hr⟩

/-- A connection that is there is a step of the server. -/
theorem Linked.step_connected (hs : s.Linked nMaxConn) {p : ℕ} (hidle : s.server.Idle)
    (hp : p ∈ s.waiting) :
    Server.Step CheckHttpPackkage s.server (.gateway (.accept (s.connID p))) []
      (s.connected (s.connID p)).server :=
  .accept hidle ((hs.online_iff _).mpr ⟨p, hs.waiting_online p hp, rfl⟩)
    (.accept hidle.1 (hs.waiting_none p hp))

/-- **A step of the manager is a run of the server.** -/
theorem Linked.run_step (hs : s.Linked nMaxConn) {e : ManagerEvent} {outs : List Occurrence}
    (h : Step CheckHttpPackkage s e outs s') :
    ∃ es sizes, Run (Server.Step CheckHttpPackkage) s.server es sizes s'.server := by
  cases h with
  | @HandleAccept _ _ p e hidle hp h =>
    have hmem : p ∈ s.waiting := by simp [waiting, hp]
    cases e with
    | true =>
      obtain rfl := Option.some.inj h
      exact ⟨[], [], .nil _⟩
    | false =>
      obtain ⟨⟨t, ok⟩, ht, h⟩ := Option.bind_eq_some_iff.mp h
      obtain rfl := Option.some.inj h
      obtain ⟨es, hrest⟩ := (hs.accept hp).2.run_wait ht
      exact ⟨_, _, .cons (hs.step_connected hidle hmem) hrest⟩
  | ConnectTo_Async h =>
    obtain ⟨t, r, ht, ⟨-, -, hnull⟩ | ⟨p, -, rfl, -⟩⟩ := ConnectTo_Async_eq_some h
    · cases hnull
    · obtain ⟨es, hr⟩ := hs.run_create ht
      exact ⟨es, [], hr⟩
  | @HandleConnect _ p e hidle hp =>
    cases e with
    | true => exact ⟨[], [], .nil _⟩
    | false => exact ⟨_, _, .single (hs.step_connected hidle (List.mem_append_right _ hp))⟩
  | HandReaddata => exact ⟨[], [], .nil _⟩
  | server he hread h => exact ⟨_, _, .single h⟩

/-- **The runs of the manager are runs of the server.** -/
theorem exists_run_server (hstart : new.Start nMaxConn = some s) {es : List ManagerEvent}
    {outs : List Occurrence} (hr : Run (Step CheckHttpPackkage) s es outs s') :
    ∃ es sizes, Run (Server.Step CheckHttpPackkage) .new es sizes s'.server := by
  obtain ⟨es', sizes, hrest⟩ := hr.exists_run CNetManager.server
    (fun _ _ _ _ hs h => hs.step h) (fun _ _ _ _ hs h => hs.run_step h) (Linked.start hstart)
  obtain ⟨⟨t, ok⟩, ht, hstart⟩ := Option.bind_eq_some_iff.mp hstart
  obtain rfl := Option.some.inj hstart
  obtain ⟨es₀, hr₀⟩ := (linked_initialized nMaxConn).run_wait ht
  exact ⟨_, _, hr₀.append hrest⟩

/-! ## The only connection -/

section

variable (CheckHttpPackkage : List UInt8 → Bool)

/-- The only session is given the first connection. -/
theorem exists_run_accepted : ∃ s₀ s : CNetManager, new.Start 1 = some s₀
    ∧ Run (Step CheckHttpPackkage) s₀ [.HandleAccept false]
        [.enqueued ⟨NEW_CONNECTION, 1, none⟩] s
    ∧ s.server.Idle ∧ s.server.gateway.sessions 1 = some (.accepted 1)
    ∧ s.server.m_OnlineNetSessionVector = {1} ∧ s.server.senders 1 = .new
    ∧ s.reading = {1} ∧ s.accepting = none := by
  obtain ⟨s₀, hstart⟩ : ∃ s₀, new.Start 1 = some s₀ := ⟨_, rfl⟩
  have hstart' : (new.Start 1).map (fun s => (s.accepting, s.connID 0, s.server.senders 1,
      s.server.m_OnlineNetSessionVector)) = some (some 0, 1, .new, {1}) := rfl
  obtain ⟨s, haccept⟩ : ∃ s, (new.Start 1).bind (fun s₀ =>
      HandleAccept 0 false { s₀ with accepting := none }) = some s := ⟨_, rfl⟩
  have haccept' : ((new.Start 1).bind (fun s₀ =>
      HandleAccept 0 false { s₀ with accepting := none })).map (fun s =>
        (s.server.gateway.sessions 1, s.server.gateway.calls, s.server.m_OnlineNetSessionVector,
          s.server.senders 1, s.reading, s.accepting))
      = some (some (.accepted 1), [], {1}, .new, {1}, none) := rfl
  obtain ⟨hgateway, -, -⟩ := start_frame hstart
  rw [hstart] at hstart' haccept
  rw [hstart, Option.bind_some] at haccept'
  rw [Option.bind_some] at haccept
  rw [haccept] at haccept'
  simp only [Option.map_some, Option.some.injEq, Prod.mk.injEq] at hstart' haccept'
  obtain ⟨haccepting, hid, hnew, honline⟩ := hstart'
  obtain ⟨hsession, hcalls, honline', hnew', hrest⟩ := haccept'
  -- the server has no other session that could be sending
  have hidle : ∀ s : CNetManager, s.server.gateway.calls = [] →
      s.server.m_OnlineNetSessionVector = {1} → s.server.senders 1 = .new → s.server.Idle := by
    intro s hcalls honline hnew
    refine ⟨hcalls, fun n hn => ?_⟩
    rw [honline, Finset.mem_singleton] at hn
    rw [hn, hnew]
    rfl
  have hstep : Step CheckHttpPackkage s₀ (.HandleAccept false) (opened (s₀.connID 0) false) s :=
    .HandleAccept (hidle s₀ (by rw [hgateway]; rfl) honline hnew) haccepting haccept
  rw [hid] at hstep
  exact ⟨s₀, s, hstart, .single hstep, hidle s hcalls honline' hnew', hsession, honline', hnew',
    hrest⟩

/-- **A send path that runs by itself**: what is queued for a session, and what a
call of `DoSend` does that is under way. -/
theorem exists_run_sent {n : ℕ} {t t' : Sender} {ses : List SendEvent} {outs : List SendCall}
    (hr : Run Sender.Step t ses outs t')
    (h : ∀ e ∈ ses, e = .iterate ∨ e = .finish ∨ ∃ m, e = .SendMessageData m)
    (hn : n ∈ s.server.m_OnlineNetSessionVector) (ht : s.server.senders n = t) :
    ∃ m_dwBufferCount, Run (Step CheckHttpPackkage) s (ses.map fun e => .server (.send n e)) []
      { s with server := { s.server with
          senders := Function.update s.server.senders n t', m_dwBufferCount } } := by
  induction hr generalizing s with
  | nil t =>
    refine ⟨s.server.m_dwBufferCount, ?_⟩
    rw [← ht, Function.update_eq_self]
    exact .nil s
  | @cons t u t' e ses outs outs' hs hrest ih =>
    obtain ⟨he, hrest⟩ := List.forall_mem_cons.mp h
    set s₁ : CNetManager := { s with
      server := Server.alloc (outs.filterMap SendCall.nSize?) (s.server.sent n u) } with hs₁
    have hstep : Step CheckHttpPackkage s (.server (.send n e)) [] s₁ := by
      have hsend : Server.Step CheckHttpPackkage s.server (.send n e) _ s₁.server :=
        .send hn (by rintro _ _ rfl; simp at he) (by rintro (rfl | ⟨_, _, rfl⟩) <;> simp at he)
          (ht ▸ hs)
      obtain rfl | rfl | ⟨m, rfl⟩ := he <;> exact .server trivial (by simp) hsend
    obtain ⟨m_dwBufferCount, hr'⟩ := ih hrest (s := s₁) hn (Function.update_self _ _ _)
    have hupdate : Function.update s₁.server.senders n t'
        = Function.update s.server.senders n t' := Function.update_idem _ _ _
    rw [hupdate] at hr'
    have hcons : Run (Step CheckHttpPackkage) s _ ([] ++ []) _ := .cons hstep hr'
    exact ⟨m_dwBufferCount, hcons⟩

/-- **The handler makes all its calls.** -/
theorem exists_run_calls {calls : List SessionCall} (hcalls : s.server.gateway.calls = calls)
    (hnot : s.server.NotSending) :
    ∃ s', Run (Step CheckHttpPackkage) s (List.replicate calls.length (.server (.gateway .call)))
        ((calls.flatMap CServiceBase.packets).map .enqueued) s'
      ∧ s'.server.gateway.sessions = s.server.gateway.sessions ∧ s'.server.gateway.calls = []
      ∧ s'.server.m_OnlineNetSessionVector = s.server.m_OnlineNetSessionVector
      ∧ s'.server.senders = s.server.senders ∧ s'.reading = s.reading := by
  induction calls generalizing s with
  | nil => exact ⟨s, .nil s, rfl, hcalls, rfl, rfl, rfl⟩
  | cons c calls ih =>
    have hstep : Step CheckHttpPackkage s (.server (.gateway .call)) _ _ :=
      .server trivial (by rintro _ _ ⟨⟩) (.call hnot (.call hcalls))
    obtain ⟨s', hr, hsessions, hcalls', honline, hsenders, hreading⟩ := ih (s := { s with
      server := { s.server with gateway := { s.server.gateway with
        calls, service := s.server.gateway.service.handle c } } }) rfl hnot
    have hout : ∀ t, s.server.occurrences t (.gateway .call)
        = (CServiceBase.packets c).map .enqueued := by
      intro t
      show ((s.server.gateway.calls.take 1).flatMap CServiceBase.packets).map _ = _
      rw [hcalls]
      exact congrArg _ (List.append_nil _)
    rw [hout] at hstep
    rw [List.flatMap_cons, List.map_append]
    exact ⟨s', .cons hstep hr, hsessions, hcalls', honline, hsenders, hreading⟩

/-- **A session handles a read** that does not complete a handshake, and makes all
its calls. -/
theorem exists_run_read {n : ℕ} {c c' : CNetSession} {r : Read} {calls : List SessionCall}
    (hidle : s.server.Idle) (hn : n ∈ s.server.m_OnlineNetSessionVector) (hreading : n ∈ s.reading)
    (hc : s.server.gateway.sessions n = some c)
    (hr : CNetSession.Receives CheckHttpPackkage c r calls c')
    (hflip : ¬ (c.m_IsHandler = false ∧ c'.m_IsHandler = true)) :
    ∃ s', Run (Step CheckHttpPackkage) s (.server (.gateway (.read n r))
          :: List.replicate calls.length (.server (.gateway .call)))
        ((calls.flatMap CServiceBase.packets).map .enqueued) s'
      ∧ s'.server.gateway.sessions = Function.update s.server.gateway.sessions n (some c')
      ∧ s'.server.Idle
      ∧ s'.server.m_OnlineNetSessionVector = s.server.m_OnlineNetSessionVector
      ∧ (windows calls ≠ [] → s'.reading = s.reading) := by
  obtain ⟨sizes, hsizes, -⟩ := CNetSession.HandReaddata_allocs hr.2
  have hserver : Server.Step CheckHttpPackkage s.server (.gateway (.read n r)) _ _ :=
    .read hidle hn hc hr hflip hsizes
  have hstep : Step CheckHttpPackkage s (.server (.gateway (.read n r))) _ _ :=
    .server trivial (by rintro _ _ ⟨⟩; exact hreading) hserver
  have hsessions : Function.update s.server.gateway.sessions n (some c') n = some c' :=
    Function.update_self _ _ _
  have hout : ∀ t : Server, t.gateway.sessions n = some c' →
      s.server.occurrences t (.gateway (.read n r)) = [] := by
    intro t ht
    refine if_neg ?_
    rw [Server.IsHandler, Server.IsHandler, hc, ht]
    exact hflip
  rw [hout _ hsessions] at hstep
  obtain ⟨s', hr', hsessions', hcalls', honline', hsenders', hreading'⟩ :=
    exists_run_calls CheckHttpPackkage (s := { s with
      server := Server.alloc sizes (s.server.received n c' calls)
      reading := Server.rearmed s.reading _ (.gateway (.read n r)) }) rfl hidle.2
  refine ⟨s', .cons hstep hr', hsessions', ⟨hcalls', fun m hm => ?_⟩, honline', fun hwindows => ?_⟩
  · rw [hsenders']
    exact hidle.2 m (honline' ▸ hm)
  · exact hreading'.trans (if_neg hwindows)

end

end CNetManager
