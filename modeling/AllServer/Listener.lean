import AllServer.Disconnects
import Mathlib.Data.Set.Card

/-!
# The listener

`WaitForConnet` asks for the next connection, for a session that it takes from
the session manager. It is called when a connection has been accepted, and not
when an accept has failed; and no session is ever given back. So the listener
accepts `nMaxConn` connections in all, however many of them are still open, and
none after the first accept that fails (`listening_iff`).
-/

/-- Whether an accept has completed with an error, if the step is one. -/
def ManagerEvent.HandleAccept? : ManagerEvent → Option Bool
  | .HandleAccept e => some e
  | _ => none

/-- The accepts that have completed, with an error or without. -/
def accepts (es : List ManagerEvent) : List Bool := es.filterMap ManagerEvent.HandleAccept?

theorem accepts_append (es es' : List ManagerEvent) :
    accepts (es ++ es') = accepts es ++ accepts es' :=
  List.filterMap_append

namespace CNetManager

/-- The sessions that have been given a connection. -/
def connections (s : CNetManager) : Set ℕ := {n | (s.server.gateway.sessions n).isSome}

/-- The connections that are still open. -/
def openConnections (outs : List Occurrence) (s : CNetManager) : Set ℕ :=
  {n ∈ s.connections | ¬ Ended outs s n}

/-- **The server keeps accepting**: an accept is outstanding as long as there are
fewer open connections than there may be. -/
def Listening (nMaxConn : UInt32) (outs : List Occurrence) (s : CNetManager) : Prop :=
  (openConnections outs s).ncard < nMaxConn.toNat → s.accepting.isSome

variable {CheckHttpPackkage : List UInt8 → Bool} {nMaxConn : UInt32} {s s' s₀ : CNetManager}
variable {e : ManagerEvent} {es : List ManagerEvent} {outs os : List Occurrence}

theorem mem_connections {n : ℕ} :
    n ∈ s.connections ↔ (s.server.gateway.sessions n).isSome = true := Iff.rfl

/-- **What the listener has done**, if no connection is made by the server: it
waits for a connection as long as no accept has failed and there is a session
for one. -/
structure Accepts (nMaxConn : UInt32) (es : List ManagerEvent) (s : CNetManager) : Prop where
  linked : s.Linked nMaxConn
  connecting_eq : s.connecting = []
  /-- Every connection has been accepted. -/
  ncard_eq : s.connections.ncard = (accepts es).count false
  waits : ∀ p, s.accepting = some p → true ∉ accepts es
    ∧ s.mrg.m_NetSessionVector.length + (accepts es).count false + 1 = nMaxConn.toNat
  failed : s.accepting = none → true ∈ accepts es → (accepts es).count false < nMaxConn.toNat
  exhausted : s.accepting = none → true ∉ accepts es →
    (accepts es).count false = nMaxConn.toNat

/-- Only sessions in use have a connection. -/
theorem Linked.mem_of_connections (hs : s.Linked nMaxConn) {n : ℕ} (hn : n ∈ s.connections) :
    n ∈ s.server.m_OnlineNetSessionVector := by
  obtain ⟨c, hc⟩ := Option.isSome_iff_exists.mp hn
  exact (hs.accepted n c hc).1

/-- There are finitely many connections. -/
theorem Linked.finite_connections (hs : s.Linked nMaxConn) : s.connections.Finite :=
  s.server.m_OnlineNetSessionVector.finite_toSet.subset fun _ hn => hs.mem_of_connections hn

/-- **`WaitForConnet`** takes a session for the next connection, if there is one. -/
theorem WaitForConnet_cases {ok : Bool} (h : s.WaitForConnet = some (s', ok))
    (hnone : s.accepting = none) :
    (∃ p, s'.accepting = some p
        ∧ s.mrg.m_NetSessionVector.length = s'.mrg.m_NetSessionVector.length + 1)
      ∨ s'.accepting = none ∧ s.mrg.m_NetSessionVector = [] := by
  obtain ⟨t, r, ht, hr⟩ := WaitForConnet_eq_some h
  obtain ⟨mrg, hmrg, rfl⟩ := CreateNetSession_eq_some.mp ht
  obtain ⟨-, ⟨hnil, rfl, rfl⟩ | ⟨rest, p, hvector, rfl, rfl⟩⟩ :=
    CNetSessionMrg.CreateNetSession_eq_some hmrg
  · obtain ⟨-, rfl, -⟩ | ⟨p, hp, -⟩ := hr
    · exact .inr ⟨hnone, hnil⟩
    · cases hp
  · obtain ⟨hp, -⟩ | ⟨q, hq, rfl, -⟩ := hr
    · cases hp
    · refine .inl ⟨q, rfl, ?_⟩
      rw [hvector, List.length_append]
      rfl

/-- **The listener waits for the next connection**, where none has failed and the
sessions that are left are as many as have not been accepted yet. -/
theorem Accepts.of_wait {t : CNetManager} {ok : Bool} (h : t.WaitForConnet = some (s, ok))
    (hnone : t.accepting = none) (hlinked : s.Linked nMaxConn) (hconnecting : s.connecting = [])
    (hncard : s.connections.ncard = (accepts es).count false) (hnot : true ∉ accepts es)
    (hlen : t.mrg.m_NetSessionVector.length + (accepts es).count false = nMaxConn.toNat) :
    s.Accepts nMaxConn es := by
  rcases WaitForConnet_cases h hnone with ⟨p, hp, hrest⟩ | ⟨hnone', hnil⟩
  · refine ⟨hlinked, hconnecting, hncard, fun q hq => ⟨hnot, by omega⟩, fun hnone' => ?_,
      fun hnone' => ?_⟩
    · exact absurd (hnone'.symm.trans hp) (Option.some_ne_none p).symm
    · exact absurd (hnone'.symm.trans hp) (Option.some_ne_none p).symm
  · refine ⟨hlinked, hconnecting, hncard, fun q hq => ?_, fun _ h => absurd h hnot, fun _ _ => ?_⟩
    · exact absurd (hnone'.symm.trans hq) (Option.some_ne_none q).symm
    · rwa [hnil, List.length_nil, Nat.zero_add] at hlen

/-- The listener after `Start`. -/
theorem Accepts.start (h : new.Start nMaxConn = some s) : s.Accepts nMaxConn [] := by
  obtain ⟨hgateway, -, hconnecting⟩ := start_frame h
  have hlinked := Linked.start h
  obtain ⟨⟨t, ok⟩, ht, h⟩ := Option.bind_eq_some_iff.mp h
  obtain rfl := Option.some.inj h
  obtain ⟨-, hvector, -⟩ := CNetSessionMrg.init_spec nMaxConn
  have hlen : (initialized nMaxConn).mrg.m_NetSessionVector.length = nMaxConn.toNat :=
    (congrArg List.length hvector).trans List.length_range
  have hncard : t.connections.ncard = 0 := by
    have hempty : t.connections = ∅ := by
      refine Set.eq_empty_of_forall_notMem fun n hn => ?_
      rw [mem_connections, hgateway] at hn
      exact absurd hn Bool.false_ne_true
    rw [hempty, Set.ncard_empty]
  exact .of_wait (t := initialized nMaxConn) ht rfl hlinked hconnecting hncard List.not_mem_nil hlen

/-- A step that accepts nothing. -/
theorem Accepts.of_eq (hs : s.Accepts nMaxConn es) (hlinked : s'.Linked nMaxConn)
    (haccepting : s'.accepting = s.accepting) (hconnecting : s'.connecting = s.connecting)
    (hmrg : s'.mrg = s.mrg) (hconnections : s'.connections = s.connections)
    (he : e.HandleAccept? = none) : s'.Accepts nMaxConn (es ++ [e]) := by
  have hes : accepts (es ++ [e]) = accepts es := by
    rw [accepts_append, accepts, accepts, List.filterMap_cons_none he]
    exact List.append_nil _
  refine ⟨hlinked, hconnecting.trans hs.connecting_eq, ?_, fun p hp => ?_, fun hnone => ?_,
    fun hnone => ?_⟩ <;> rw [hes]
  · rw [hconnections]
    exact hs.ncard_eq
  · rw [hmrg]
    exact hs.waits p (haccepting ▸ hp)
  · exact hs.failed (haccepting ▸ hnone)
  · exact hs.exhausted (haccepting ▸ hnone)

/-- **An accept that fails.** Nothing is waited for afterwards. -/
theorem Accepts.fail (hs : s.Accepts nMaxConn es) {p : ℕ} (hp : s.accepting = some p) :
    Accepts nMaxConn (es ++ [.HandleAccept true]) { s with accepting := none } := by
  obtain ⟨hnot, hlen⟩ := hs.waits p hp
  have hcount : (accepts (es ++ [.HandleAccept true])).count false = (accepts es).count false := by
    rw [accepts_append, List.count_append]
    rfl
  have hmem : true ∈ accepts (es ++ [.HandleAccept true]) := by
    rw [accepts_append]
    exact List.mem_append_right _ (List.mem_singleton_self _)
  refine ⟨(hs.linked.accept hp).1, hs.connecting_eq, hcount ▸ hs.ncard_eq, ?_, fun _ _ => ?_,
    fun _ hnot => absurd hmem hnot⟩
  · rintro q ⟨⟩
  · rw [hcount]
    omega

/-- A connection is one more. -/
theorem connections_connected (n : ℕ) (s : CNetManager) :
    (s.connected n).connections = insert n s.connections := by
  ext m
  rw [Set.mem_insert_iff, mem_connections, mem_connections]
  dsimp only [connected]
  by_cases hm : m = n
  · rw [hm, Function.update_self]
    exact iff_of_true rfl (.inl rfl)
  · rw [Function.update_of_ne hm, or_iff_right hm]

/-- **An accept that succeeds.** The next connection is waited for if there is a
session for it. -/
theorem Accepts.accept (hs : s.Accepts nMaxConn es) {p : ℕ} (hp : s.accepting = some p) {ok : Bool}
    (h : (({ s with accepting := none } : CNetManager).connected (s.connID p)).WaitForConnet
      = some (s', ok)) : s'.Accepts nMaxConn (es ++ [.HandleAccept false]) := by
  obtain ⟨hnot, hlen⟩ := hs.waits p hp
  have hlinked := (hs.linked.accept hp).2.WaitForConnet rfl h
  obtain ⟨hgateway, -, hconnecting⟩ := WaitForConnet_frame h
  have hcount : (accepts (es ++ [.HandleAccept false])).count false
      = (accepts es).count false + 1 := by
    rw [accepts_append, List.count_append]
    rfl
  have hnot' : true ∉ accepts (es ++ [.HandleAccept false]) := by
    rw [accepts_append, List.mem_append]
    rintro (hmem | hmem)
    · exact hnot hmem
    · exact absurd (List.mem_singleton.mp hmem) (by decide)
  -- the session had no connection before
  have hncard : s'.connections.ncard = (accepts es).count false + 1 := by
    have hnew : s.connID p ∉ s.connections := by
      show ¬ (s.server.gateway.sessions (s.connID p)).isSome
      rw [hs.linked.waiting_none p (by simp [waiting, hp])]
      exact Bool.false_ne_true
    have hinsert : s'.connections = insert (s.connID p) s.connections := by
      refine Eq.trans ?_ (connections_connected (s.connID p) { s with accepting := none })
      rw [connections, connections, hgateway]
    rw [hinsert, Set.ncard_insert_of_notMem hnew hs.linked.finite_connections, hs.ncard_eq]
  exact .of_wait h rfl hlinked (hconnecting.trans hs.connecting_eq) (hncard.trans hcount.symm) hnot'
    (hcount ▸ hlen)

/-- A step of the server neither gives a session a connection nor takes it. -/
theorem connections_of_continues (h : ∀ n, Option.Rel CNetSession.Continues
    (s.server.gateway.sessions n) (s'.server.gateway.sessions n)) :
    s'.connections = s.connections := by
  ext n
  rw [mem_connections, mem_connections]
  have hn := h n
  generalize s.server.gateway.sessions n = c at hn ⊢
  generalize s'.server.gateway.sessions n = c' at hn ⊢
  cases hn <;> rfl

/-- **A step of the listener.** -/
theorem Accepts.step (hs : s.Accepts nMaxConn es) (h : Step CheckHttpPackkage s e os s')
    (he : e ≠ .ConnectTo_Async) : s'.Accepts nMaxConn (es ++ [e]) := by
  have hlinked := hs.linked.step h
  cases h with
  | @HandleAccept _ _ p e hidle hp h =>
    cases e with
    | true =>
      obtain rfl := Option.some.inj h
      exact hs.fail hp
    | false =>
      obtain ⟨⟨t, ok⟩, ht, h⟩ := Option.bind_eq_some_iff.mp h
      obtain rfl := Option.some.inj h
      exact hs.accept hp ht
  | ConnectTo_Async => exact absurd rfl he
  | HandleConnect hidle hp =>
    rw [hs.connecting_eq] at hp
    exact absurd hp List.not_mem_nil
  | HandReaddata => exact hs.of_eq hlinked rfl rfl rfl rfl rfl
  | server hinternal hread h =>
    exact hs.of_eq hlinked rfl rfl rfl
      (connections_of_continues (h.continues hinternal hs.linked.ready)) rfl

/-- **What the accepts of a run have come to**, as long as the server connects to nobody. -/
theorem accepts_of_run (hstart : new.Start nMaxConn = some s₀)
    (hr : Run (Step CheckHttpPackkage) s₀ es outs s) (hconnect : .ConnectTo_Async ∉ es) :
    s.Accepts nMaxConn es := by
  refine Run.invariant_history (fun es _ s => .ConnectTo_Async ∉ es → s.Accepts nMaxConn es)
    (fun es outs s e os s' hs h hconnect => ?_) (fun _ => Accepts.start hstart) hr hconnect
  rw [List.mem_append, List.mem_singleton, not_or] at hconnect
  exact (hs hconnect.1).step h (Ne.symm hconnect.2)

/-- **The server keeps accepting** exactly if no accept has failed, and there are
sessions left or all of those in use have an open connection. Sessions are not
given back when a connection ends, and an accept that fails is not followed by
another one. So the sessions that have been used are counted by the accepts, and
not by the connections that are open. -/
theorem listening_iff (hstart : new.Start nMaxConn = some s₀)
    (hr : Run (Step CheckHttpPackkage) s₀ es outs s) (hconnect : .ConnectTo_Async ∉ es) :
    Listening nMaxConn outs s
      ↔ true ∉ accepts es ∧ ((accepts es).count false < nMaxConn.toNat
          ∨ ∀ n ∈ s.connections, ¬ Ended outs s n) := by
  have hs := accepts_of_run hstart hr hconnect
  have hfinite := hs.linked.finite_connections
  have hsubset : openConnections outs s ⊆ s.connections := Set.sep_subset _ _
  have hle := Set.ncard_le_ncard hsubset hfinite
  rw [hs.ncard_eq] at hle
  -- all connections are open unless one has ended
  have hopen : (openConnections outs s).ncard < (accepts es).count false
      ↔ ¬ ∀ n ∈ s.connections, ¬ Ended outs s n := by
    rw [← hs.ncard_eq]
    constructor
    · intro hlt hall
      rw [openConnections, Set.sep_eq_self_iff_mem_true.mpr hall] at hlt
      exact absurd hlt (Nat.lt_irrefl _)
    · intro hnot
      refine Set.ncard_lt_ncard (hsubset.ssubset_of_ne fun heq => hnot fun n hn => ?_) hfinite
      exact (heq.symm ▸ hn : n ∈ openConnections outs s).2
  unfold Listening
  cases haccepting : s.accepting with
  | some p =>
    obtain ⟨hnot, hlen⟩ := hs.waits p haccepting
    exact iff_of_true (fun _ => rfl) ⟨hnot, .inl (by omega)⟩
  | none =>
    by_cases hmem : true ∈ accepts es
    · have hlt := hs.failed haccepting hmem
      exact iff_of_false (fun h => absurd (h (by omega)) Bool.false_ne_true) fun h => h.1 hmem
    · have heq := hs.exhausted haccepting hmem
      rw [heq] at hopen ⊢
      rw [and_iff_right hmem, or_iff_right (Nat.lt_irrefl _), hopen]
      simp

/-- One of two sessions has a connection, so that an accept has to be outstanding, and is. -/
theorem listening_iff_accepted : ∃ s₀ s, new.Start 2 = some s₀
    ∧ Run (Step fun _ => true) s₀ [.HandleAccept false]
        [.enqueued ⟨NEW_CONNECTION, 2, none⟩] s
    ∧ (openConnections [.enqueued ⟨NEW_CONNECTION, 2, none⟩] s).ncard < 2
    ∧ Listening 2 [.enqueued ⟨NEW_CONNECTION, 2, none⟩] s := by
  obtain ⟨s₀, hstart⟩ : ∃ s₀, new.Start 2 = some s₀ := ⟨_, rfl⟩
  have hstart' : (new.Start 2).map (fun s => (s.accepting, s.connID 1, s.server.senders 2,
      s.server.m_OnlineNetSessionVector)) = some (some 1, 2, .new, {2}) := rfl
  obtain ⟨s, haccept⟩ : ∃ s, (new.Start 2).bind (fun s₀ =>
      HandleAccept 1 false { s₀ with accepting := none }) = some s := ⟨_, rfl⟩
  obtain ⟨hgateway, -, -⟩ := start_frame hstart
  rw [hstart] at hstart' haccept
  rw [Option.bind_some] at haccept
  simp only [Option.map_some, Option.some.injEq, Prod.mk.injEq] at hstart'
  obtain ⟨haccepting, hid, hnew, honline⟩ := hstart'
  have hidle : s₀.server.Idle := by
    refine ⟨by rw [hgateway]; rfl, fun n hn => ?_⟩
    rw [honline, Finset.mem_singleton] at hn
    rw [hn, hnew]
    rfl
  have hstep : Step (fun _ => true) s₀ (.HandleAccept false) (opened (s₀.connID 1) false) s :=
    .HandleAccept hidle haccepting haccept
  rw [hid] at hstep
  have hone : (accepts [.HandleAccept false]).count false = 1 := by
    simp [accepts, ManagerEvent.HandleAccept?]
  -- the second session is left
  have hlistening := (listening_iff hstart (.single hstep) (by simp)).mpr
    ⟨by simp [accepts, ManagerEvent.HandleAccept?], .inl (by rw [hone]; decide)⟩
  have hs := accepts_of_run hstart (.single hstep) (by simp)
  have hle := Set.ncard_le_ncard (Set.sep_subset s.connections fun n =>
    ¬Ended [.enqueued ⟨NEW_CONNECTION, 2, none⟩] s n) hs.linked.finite_connections
  rw [hs.ncard_eq, hone] at hle
  exact ⟨s₀, s, hstart, .single hstep, Nat.lt_succ_of_le hle, hlistening⟩

/-- It is not true that the server keeps accepting: when the only connection has
ended, no accept is outstanding. -/
theorem not_listening : ¬ ∀ (CheckHttpPackkage : List UInt8 → Bool) (nMaxConn : UInt32)
    (s₀ : CNetManager), new.Start nMaxConn = some s₀ → ∀ es outs s,
      Run (Step CheckHttpPackkage) s₀ es outs s → .ConnectTo_Async ∉ es →
        Listening nMaxConn outs s := by
  intro h
  obtain ⟨s₀, s, hstart, hr, hidle, -, honline, -, hreading, haccepting⟩ :=
    exists_run_accepted fun _ => true
  have hstep : Step (fun _ => true) s (.HandReaddata 1) [.error 1] _ :=
    .HandReaddata hidle (by rw [hreading]; exact Finset.mem_singleton_self 1)
  have hr' := hr.append (.single hstep)
  have hlistening := h _ 1 s₀ hstart _ _ _ hr' (by simp)
  have hempty : openConnections ([.enqueued ⟨NEW_CONNECTION, 1, none⟩] ++ [.error 1])
      { s with reading := s.reading.erase 1 } = ∅ := by
    refine Set.eq_empty_of_forall_notMem fun n hn => hn.2 ?_
    have hmem := (traced_of_run hstart hr').1.mem_of_connections hn.1
    rw [honline, Finset.mem_singleton] at hmem
    subst hmem
    exact .inl (List.mem_append_right _ (List.mem_singleton_self _))
  unfold Listening at hlistening
  rw [hempty, Set.ncard_empty] at hlistening
  have hsome := hlistening (by decide)
  rw [haccepting] at hsome
  exact absurd hsome Bool.false_ne_true

end CNetManager
