import AllServer.Connections

/-!
# The events of a connection

What the service gets to know of a connection are the packets that are pushed to
its queue under the id of the session: that there is a new connection, its data,
and that it has been closed.
-/

/-- The ids of the messages of a sequence of calls. -/
def SessionCall.msgIDs (calls : List SessionCall) : List ℕ :=
  (calls.flatMap CServiceBase.packets).map NetPacket.m_dwMsgID

theorem SessionCall.msgIDs_append (calls calls' : List SessionCall) :
    msgIDs (calls ++ calls') = msgIDs calls ++ msgIDs calls' := by
  unfold msgIDs
  rw [List.flatMap_append, List.map_append]

/-- The message of a socket that has been closed. -/
def closing (m_hSocket : Bool) : List ℕ := if m_hSocket then [] else [CLOSE_CONNECTION]

namespace CNetSession

open SessionCall

/-! ## What a session reports of a read -/

/-- **What a session whose socket was open has reported**: data, and in the end
that the socket is closed, if it is. -/
structure Reports (calls : List SessionCall) (s' : CNetSession) : Prop where
  ids : ∃ k, msgIDs calls = List.replicate k 0 ++ closing s'.m_hSocket
  handler : s'.m_pDataHandler = true

section Reports

variable {s s' : CNetSession} {call : SessionCall} {calls calls' : List SessionCall}
variable {fresh : ℕ → UInt8} {x : ForInStep CNetSession} {dwPacketSize header_size : ℕ}

/-- Nothing is reported of a socket that stays open. -/
theorem Reports.nil (hopen : s.m_hSocket = true) (hhandler : s.m_pDataHandler = true) :
    Reports [] s :=
  ⟨⟨0, by rw [closing, if_pos hopen]; rfl⟩, hhandler⟩

/-- Data that is reported goes in front. -/
theorem Reports.cons (h : Reports calls s') (b : CDataBuffer) (header_size nConnID : ℕ) :
    Reports (.OnDataHandle b header_size nConnID :: calls) s' := by
  obtain ⟨k, hk⟩ := h.ids
  exact ⟨⟨k + 1, congrArg (0 :: ·) hk⟩, h.handler⟩

/-- What a session reports while its socket is open is followed by what it
reports afterwards. -/
theorem Reports.append (h : Reports calls s) (hopen : s.m_hSocket = true)
    (h' : Reports calls' s') : Reports (calls ++ calls') s' := by
  obtain ⟨k, hk⟩ := h.ids
  obtain ⟨k', hk'⟩ := h'.ids
  rw [closing, if_pos hopen, List.append_nil] at hk
  refine ⟨⟨k + k', ?_⟩, h'.handler⟩
  rw [msgIDs_append, hk, hk', ← List.append_assoc, List.replicate_append_replicate]

/-- `Close` reports that the socket is closed. -/
theorem Close_reports (hhandler : s.m_pDataHandler = true) (h : s.Close = .ok (s', calls)) :
    Reports calls s' := by
  obtain ⟨rfl, rfl⟩ := Close_eq_ok h
  rw [if_pos hhandler]
  exact ⟨⟨0, rfl⟩, hhandler⟩

namespace ExtractBuffer

/-- What is reported of the packet at the cursor. -/
theorem packet_reports (hopen : s.m_hSocket = true) (hhandler : s.m_pDataHandler = true)
    (h : packet fresh dwPacketSize header_size s = .ok (x, calls)) :
    Reports calls x.value ∧ ∀ t, x = .yield t → t.m_hSocket = true := by
  obtain ⟨-, s₁, hclose, rfl⟩ | ⟨-, ⟨-, rfl, rfl⟩ | ⟨-, ⟨b, m_dwDataLen, m_pBufPos, rfl, rfl⟩
    | ⟨b, rfl, rfl⟩⟩⟩ := packet_eq_ok h
  · exact ⟨Close_reports hhandler hclose, by simp⟩
  · exact ⟨.nil hopen hhandler, by simp⟩
  · refine ⟨Reports.cons ?_ _ _ _, by simp⟩
    exact .nil hopen hhandler
  · exact ⟨.nil hopen hhandler, fun t ht => ForInStep.yield.inj ht ▸ hopen⟩

/-- What is reported of a packet that is completed. -/
theorem complete_reports {cur : CDataBuffer} (hopen : s.m_hSocket = true)
    (hhandler : s.m_pDataHandler = true) (h : complete s cur header_size = .ok (s', calls)) :
    Reports calls s' ∧ s'.m_hSocket = true := by
  obtain ⟨b, m_dwDataLen, m_pBufPos, rfl, rfl⟩ := complete_eq_ok h
  refine ⟨Reports.cons ?_ _ _ _, hopen⟩
  exact .nil hopen hhandler

/-- **What a turn of the loop reports.** If it does not break, the socket is
open. -/
theorem turn_reports (hopen : s.m_hSocket = true) (hhandler : s.m_pDataHandler = true)
    (h : turn fresh s = .ok (x, calls)) :
    Reports calls x.value ∧ ∀ t, x = .yield t → t.m_hSocket = true := by
  obtain ⟨_, _, _, _, -, -, ⟨-, hpacket⟩ | ⟨cur, -, ⟨-, rfl, s₁, happend, rfl⟩
    | ⟨-, s₁, calls₁, calls₂, hcomplete, hpacket, rfl⟩⟩⟩ := turn_eq_ok h
  · exact packet_reports hopen hhandler hpacket
  · obtain ⟨b, rfl⟩ := append_eq_ok happend
    exact ⟨.nil hopen hhandler, by simp⟩
  · obtain ⟨hfirst, hopen₁⟩ := complete_reports hopen hhandler hcomplete
    obtain ⟨hsecond, hyield⟩ := packet_reports hopen₁ hfirst.handler hpacket
    exact ⟨hfirst.append hopen₁ hsecond, hyield⟩

end ExtractBuffer

/-- **What `ExtractBuffer` reports.** -/
theorem ExtractBuffer_reports (h : s.ExtractBuffer fresh = .ok (s', calls))
    (hopen : s.m_hSocket = true) (hhandler : s.m_pDataHandler = true) : Reports calls s' := by
  obtain ⟨-, rfl, rfl⟩ | ⟨-, s₁, m_pRecvBuf, hloop, rfl⟩ := ExtractBuffer_eq_ok h
  · exact .nil hopen hhandler
  · have hreports : Reports calls s₁ := by
      refine whileTrue_rule (R := fun s calls s' => s.m_hSocket = true →
        s.m_pDataHandler = true → Reports calls s') ?_ ?_ hloop hopen hhandler
      · intro s t calls hturn hopen hhandler
        exact (ExtractBuffer.turn_reports hopen hhandler hturn).1
      · intro s t u calls calls' hturn hrest hopen hhandler
        obtain ⟨hfirst, hyield⟩ := ExtractBuffer.turn_reports hopen hhandler hturn
        have hopen' := hyield t rfl
        exact hfirst.append hopen' (hrest hopen' hfirst.handler)
    exact ⟨hreports.ids, hreports.handler⟩

end Reports

variable {CheckHttpPackkage : List UInt8 → Bool} {s s' : CNetSession} {r : Read}
variable {calls : List SessionCall}

/-- **What a session reports of a read**: data, and in the end that the socket
is closed, if it is. It reports no data before its handshake is done. -/
theorem Ready.reports (hs : s.Ready) (h : Receives CheckHttpPackkage s r calls s') :
    ∃ k, msgIDs calls = List.replicate k 0 ++ closing s'.m_hSocket
      ∧ (s.m_IsHandler = false → k = 0) := by
  obtain ⟨ho, hok⟩ := h
  cases hhandler : s.m_IsHandler with
  | true =>
    obtain ⟨m_pRecvBuf, -, hok⟩ := bind_eq_ok.mp hok
    unfold HandleRecvEvent at hok
    dsimp only at hok
    rw [if_neg (not_not.mpr hhandler)] at hok
    split_ifs at hok
    · obtain ⟨rfl, rfl⟩ := Prod.mk.inj (Except.ok.inj hok)
      exact ⟨0, by rw [closing, if_pos ho.1]; rfl, fun _ => rfl⟩
    · obtain ⟨⟨s₁, calls₁⟩, hextract, hok⟩ := bind_eq_ok.mp hok
      obtain ⟨calls₂, hreceive, hok⟩ := bind_eq_ok.mp hok
      obtain ⟨rfl, rfl⟩ := Prod.mk.inj (Except.ok.inj hok)
      obtain ⟨k, hk⟩ := (ExtractBuffer_reports hextract ho.1 hs.held.handler).ids
      obtain ⟨size, rfl⟩ := DoReceive_eq_ok hreceive
      refine ⟨k, ?_, fun hfalse => absurd hfalse Bool.noConfusion⟩
      rw [msgIDs_append]
      exact (List.append_nil _).trans hk
  | false =>
    obtain ⟨b, hb⟩ := HandReaddata_of_not_handler CheckHttpPackkage hs ho.1 hhandler ho.2.1
      (hs.offers_iff.mp ho).front_ne_nil
    refine ⟨0, ?_, fun _ => rfl⟩
    have heq := Except.ok.inj (hok.symm.trans hb)
    split_ifs at heq
    · obtain ⟨rfl, rfl⟩ := Prod.mk.inj heq
      show _ = closing s.m_hSocket
      rw [closing, if_pos ho.1]
      rfl
    · obtain ⟨rfl, rfl⟩ := Prod.mk.inj heq
      rfl

/-- **Data is reported** only by a session whose handshake is done. -/
theorem Ready.handler_of_data (hs : s.Ready) (h : Receives CheckHttpPackkage s r calls s')
    {p : NetPacket} (hp : p ∈ calls.flatMap CServiceBase.packets) (hdata : p.m_dwMsgID = 0) :
    s.m_IsHandler = true := by
  by_contra hnot
  obtain ⟨k, hk, hzero⟩ := hs.reports h
  have hmem : p.m_dwMsgID ∈ msgIDs calls := List.mem_map_of_mem hp
  rw [hk, hzero (Bool.eq_false_of_not_eq_true hnot), closing] at hmem
  split_ifs at hmem
  · exact absurd hmem List.not_mem_nil
  · have hclose : p.m_dwMsgID = CLOSE_CONNECTION := List.mem_singleton.mp hmem
    exact absurd (hdata.symm.trans hclose) (by decide)

end CNetSession

/-! ## The events of a session -/

/-- The packet that is pushed. -/
def Occurrence.packet? : Occurrence → Option NetPacket
  | .enqueued p => some p
  | _ => none

/-- The packets that have been pushed. -/
def pushed (outs : List Occurrence) : List NetPacket := outs.filterMap Occurrence.packet?

/-- **The events of a session**: the ids of the messages that are under its
id. -/
def eventIDs (nConnID : ℕ) (ps : List NetPacket) : List ℕ :=
  (ps.filter fun p => p.m_dwConnID = nConnID).map NetPacket.m_dwMsgID

theorem pushed_append (outs os : List Occurrence) :
    pushed (outs ++ os) = pushed outs ++ pushed os :=
  List.filterMap_append

theorem eventIDs_append (n : ℕ) (ps qs : List NetPacket) :
    eventIDs n (ps ++ qs) = eventIDs n ps ++ eventIDs n qs := by
  unfold eventIDs
  rw [List.filter_append, List.map_append]

/-- What is enqueued is pushed. -/
theorem pushed_enqueued (ps : List NetPacket) : pushed (ps.map .enqueued) = ps := by
  unfold pushed
  rw [List.filterMap_map]
  exact List.filterMap_some

/-- The packets of a session go by its id. -/
theorem SessionCall.Whole.connID_eq {call : SessionCall} {id : ℕ} (h : call.Whole id) :
    ∀ p ∈ CServiceBase.packets call, p.m_dwConnID = id := by
  cases call with
  | OnDataHandle => exact List.forall_mem_singleton.mpr h.1
  | OnCloseConnect => exact List.forall_mem_singleton.mpr h
  | async_read_some => exact fun _ hp => absurd hp List.not_mem_nil

/-- **What a session reports are events of its own.** -/
theorem eventIDs_packets {calls : List SessionCall} {id : ℕ} (h : ∀ call ∈ calls, call.Whole id)
    (n : ℕ) : eventIDs n (calls.flatMap CServiceBase.packets)
      = if n = id then SessionCall.msgIDs calls else [] := by
  have hid : ∀ p ∈ calls.flatMap CServiceBase.packets, p.m_dwConnID = id := by
    intro p hp
    obtain ⟨call, hcall, hp⟩ := List.mem_flatMap.mp hp
    exact (h call hcall).connID_eq p hp
  unfold eventIDs
  split_ifs with hn
  · rw [List.filter_eq_self.mpr fun p hp => decide_eq_true ((hid p hp).trans hn.symm)]
    rfl
  · rw [List.filter_eq_nil_iff.mpr fun p hp => by simpa [hid p hp] using Ne.symm hn]
    rfl

namespace Gateway

/-- The events of a session: those that have been enqueued, and those that the
handler which runs is still to report. -/
def events (outs : List Occurrence) (g : Gateway) (n : ℕ) : List ℕ :=
  eventIDs n (pushed outs) ++ eventIDs n (g.calls.flatMap CServiceBase.packets)

/-- **The events of a session that is, or is not, there**: it is new, there is
data, and it is closed if its socket is. There is no data before its handshake
is done. -/
def Traces : Option CNetSession → List ℕ → Prop
  | none, ids => ids = []
  | some c, ids => ∃ k, ids = NEW_CONNECTION :: (List.replicate k 0 ++ closing c.m_hSocket)
    ∧ (c.m_hSocket = true → c.m_IsHandler = false → k = 0)

/-- The events of all sessions are in order. -/
def Traced (outs : List Occurrence) (g : Gateway) : Prop :=
  ∀ n, Traces (g.sessions n) (events outs g n)

variable {outs os : List Occurrence} {g : Gateway}

/-- Nothing is pushed, and nothing happens to the sessions. -/
theorem Traced.silent (h : Traced outs g) (hos : pushed os = []) : Traced (outs ++ os) g := by
  intro n
  unfold events
  rw [pushed_append, hos, List.append_nil]
  exact h n

/-- **A connection is there.** -/
theorem Traced.opened (h : Traced outs g) {n : ℕ} (hcalls : g.calls = [])
    (hnone : g.sessions n = none) (q : CServiceBase) :
    Traced (outs ++ [.enqueued ⟨NEW_CONNECTION, n, none⟩])
      { g with sessions := Function.update g.sessions n (some (.accepted n)), service := q } := by
  intro m
  have hm := h m
  unfold events at hm ⊢
  rw [hcalls, List.flatMap_nil] at hm ⊢
  rw [pushed_append, eventIDs_append]
  dsimp only
  rcases eq_or_ne m n with rfl | hne
  · rw [hnone] at hm
    rw [Function.update_self]
    refine ⟨0, ?_, fun _ _ => rfl⟩
    have hnew : eventIDs m (pushed [.enqueued ⟨NEW_CONNECTION, m, none⟩]) = [NEW_CONNECTION] := by
      simp [eventIDs, pushed, Occurrence.packet?]
    rw [(List.append_eq_nil_iff.mp hm).1, hnew]
    rfl
  · have hother : eventIDs m (pushed [.enqueued ⟨NEW_CONNECTION, n, none⟩]) = [] := by
      simp [eventIDs, pushed, Occurrence.packet?, hne.symm]
    rw [Function.update_of_ne hne, hother, List.append_nil]
    exact hm

end Gateway

namespace Server

variable {CheckHttpPackkage : List UInt8 → Bool} {s s' : Server} {e : ServerEvent}
variable {sizes : List ℤ} {outs : List Occurrence}

/-- The response to a handshake that is completed. -/
theorem occurrences_handshake {n : ℕ} {c c' : CNetSession} (r : Read)
    (hc : s.gateway.sessions n = some c) (hc' : s'.gateway.sessions n = some c')
    (hbefore : c.m_IsHandler = false) (hafter : c'.m_IsHandler = true) :
    s.occurrences s' (.gateway (.read n r))
      = [.response n (decide ((s.senders n).lockfree_queue.length < QUEUE_CAPACITY))] := by
  refine if_pos ⟨?_, ?_⟩
  · rw [IsHandler, hc]
    exact hbefore
  · rw [IsHandler, hc']
    exact hafter

/-- Only a call pushes something. -/
theorem pushed_occurrences_of_ne (s s' : Server) (h : e ≠ .gateway .call) :
    pushed (s.occurrences s' e) = [] := by
  unfold occurrences
  split
  · split_ifs <;> rfl
  · exact absurd rfl h
  · split_ifs <;> rfl
  · rfl

/-- A call pushes its packets. -/
theorem pushed_occurrences_call {c : SessionCall} {calls : List SessionCall} (s' : Server)
    (h : s.gateway.calls = c :: calls) :
    pushed (s.occurrences s' (.gateway .call)) = CServiceBase.packets c := by
  show pushed (((s.gateway.calls.take 1).flatMap CServiceBase.packets).map .enqueued) = _
  rw [pushed_enqueued, h]
  exact List.append_nil _

/-- **A step of the server keeps the events in order.** -/
theorem Step.traced (h : Step CheckHttpPackkage s e sizes s') (he : e.IsInternal) (hs : s.Ready)
    (hid : ∀ n c, s.gateway.sessions n = some c → c.m_dwSessionID = n)
    (htraced : s.gateway.Traced outs) : s'.gateway.Traced (outs ++ s.occurrences s' e) := by
  intro n
  have hn := htraced n
  unfold Gateway.events at hn ⊢
  obtain ⟨-, ⟨m, r, c, c', calls, rfl, hidle, hc, hr, hsessions, hcalls⟩
    | ⟨c, calls, rfl, hcalls, hsessions, hcalls'⟩ | ⟨-, hne, hsessions, hcalls⟩⟩ := h.cases he
  · -- a session has handled a read
    obtain ⟨-, -, hwhole⟩ := (hs m c hc).step hr
    rw [pushed_append, pushed_occurrences_of_ne s s' (by simp), List.append_nil, hcalls,
      eventIDs_packets hwhole, hid m c hc, hsessions]
    rw [hidle.1] at hn
    change Gateway.Traces _ (eventIDs n (pushed outs) ++ []) at hn
    rw [List.append_nil] at hn
    rcases eq_or_ne n m with rfl | hne
    · obtain ⟨k, hk, hzero⟩ := hc ▸ hn
      obtain ⟨k', hk', hzero'⟩ := (hs n c hc).reports hr
      rw [Function.update_self, if_pos rfl, hk, hk', closing, if_pos hr.1.1, List.append_nil]
      refine ⟨k + k', ?_, fun hopen hfalse => ?_⟩
      · rw [List.cons_append, ← List.append_assoc, List.replicate_append_replicate]
      · -- a session whose handshake was done is closed, or it still is
        cases hhandler : c.m_IsHandler with
        | true =>
          have hfed := CNetSession.Established.fed ⟨hs n c hc, hhandler.trans hr.1.1.symm⟩ hr
          rw [hfed.isHandler_eq, hopen] at hfalse
          cases hfalse
        | false => rw [hzero hr.1.1 hhandler, hzero' hhandler]
    · rw [Function.update_of_ne hne, if_neg hne, List.append_nil]
      exact hn
  · -- a call is made
    rw [pushed_append, pushed_occurrences_call s' hcalls, eventIDs_append, hcalls', hsessions,
      List.append_assoc, ← eventIDs_append]
    rw [hcalls, List.flatMap_cons] at hn
    exact hn
  · rw [pushed_append, pushed_occurrences_of_ne s s' hne, List.append_nil, hsessions, hcalls]
    exact hn

end Server

/-! ## Data after the response -/

/-- **The session has been answered**: the response to its handshake has been
queued. -/
def Answered (outs : List Occurrence) (nConnID : ℕ) : Prop := .response nConnID true ∈ outs

/-- **No data before the response**: a session whose data is pushed has been
answered before. -/
def Heralded (outs : List Occurrence) : Prop :=
  ∀ i p, outs[i]? = some (.enqueued p) → p.m_dwMsgID = 0 → Answered (outs.take i) p.m_dwConnID

/-- A session whose data is pushed has been answered. -/
theorem Heralded.answered {outs : List Occurrence} (h : Heralded outs) {p : NetPacket}
    (hp : p ∈ pushed outs) (hdata : p.m_dwMsgID = 0) : Answered outs p.m_dwConnID := by
  obtain ⟨o, ho, hpacket⟩ := List.mem_filterMap.mp hp
  cases o with
  | enqueued q =>
    obtain rfl := Option.some.inj hpacket
    obtain ⟨i, hi⟩ := List.mem_iff_getElem?.mp ho
    exact List.mem_of_mem_take (h i q hi hdata)
  | response | error => cases hpacket

/-- What is pushed next must be of sessions that have been answered. -/
theorem Heralded.append {outs os : List Occurrence} (h : Heralded outs)
    (hos : ∀ p ∈ pushed os, p.m_dwMsgID = 0 → Answered outs p.m_dwConnID) :
    Heralded (outs ++ os) := by
  intro i p hi hdata
  rcases Nat.lt_or_ge i outs.length with hlt | hge
  · rw [List.getElem?_append_left hlt] at hi
    rw [List.take_append_of_le_length hlt.le]
    exact h i p hi hdata
  · rw [List.getElem?_append_right hge] at hi
    have hmem : p ∈ pushed os :=
      List.mem_filterMap.mpr ⟨.enqueued p, List.mem_of_getElem? hi, rfl⟩
    rw [List.take_append, List.take_of_length_le hge]
    exact List.mem_append_left _ (hos p hmem hdata)

namespace Gateway

/-- **The sessions whose data there may be have been answered.** -/
structure Announced (outs : List Occurrence) (g : Gateway) : Prop where
  heralded : Heralded outs
  handler : ∀ n c, g.sessions n = some c → c.m_IsHandler = true → Answered outs n
  calls : ∀ p ∈ g.calls.flatMap CServiceBase.packets, p.m_dwMsgID = 0 → Answered outs p.m_dwConnID

variable {outs os : List Occurrence} {g : Gateway}

/-- Nothing is pushed, and nothing happens to the sessions. -/
theorem Announced.silent (h : Announced outs g) (hos : pushed os = []) :
    Announced (outs ++ os) g := by
  refine ⟨h.heralded.append (by simp [hos]), fun n c hc hhandler => ?_, fun p hp hdata => ?_⟩
  · exact List.mem_append_left _ (h.handler n c hc hhandler)
  · exact List.mem_append_left _ (h.calls p hp hdata)

/-- A connection is there. Its handshake is not done. -/
theorem Announced.opened (h : Announced outs g) (n : ℕ) (q : CServiceBase) :
    Announced (outs ++ [.enqueued ⟨NEW_CONNECTION, n, none⟩])
      { g with sessions := Function.update g.sessions n (some (.accepted n)), service := q } := by
  refine ⟨h.heralded.append ?_, fun m c hc hhandler => ?_, fun p hp hdata => ?_⟩
  · refine List.forall_mem_singleton.mpr fun hdata => ?_
    exact absurd (show NEW_CONNECTION = 0 from hdata) (by decide)
  · dsimp only at hc
    rcases eq_or_ne m n with rfl | hne
    · rw [Function.update_self] at hc
      obtain rfl := Option.some.inj hc
      cases hhandler
    · rw [Function.update_of_ne hne] at hc
      exact List.mem_append_left _ (h.handler m c hc hhandler)
  · exact List.mem_append_left _ (h.calls p hp hdata)

end Gateway

namespace Server

variable {CheckHttpPackkage : List UInt8 → Bool} {s s' : Server} {e : ServerEvent}
variable {sizes : List ℤ} {outs : List Occurrence}

/-- **A step of the server that queues the response** to the handshake it
completes, if it completes one, announces data that there may be. -/
theorem Step.announced (h : Step CheckHttpPackkage s e sizes s') (he : e.IsInternal) (hs : s.Ready)
    (hid : ∀ n c, s.gateway.sessions n = some c → c.m_dwSessionID = n)
    (hkeeps : ∀ n r, e = .gateway (.read n r) → s.Keeps CheckHttpPackkage e)
    (hannounced : s.gateway.Announced outs) :
    s'.gateway.Announced (outs ++ s.occurrences s' e) := by
  obtain ⟨-, ⟨m, r, c, c', calls, rfl, hidle, hc, hr, hsessions, hcalls⟩
    | ⟨c, calls, rfl, hcalls, hsessions, hcalls'⟩ | ⟨-, hne, hsessions, hcalls⟩⟩ := h.cases he
  · -- a session has handled a read
    have hsilent := pushed_occurrences_of_ne (e := .gateway (.read m r)) s s' (by simp)
    obtain ⟨-, -, hwhole⟩ := (hs m c hc).step hr
    refine ⟨hannounced.heralded.append (by simp [hsilent]), fun n d hd hhandler => ?_,
      fun p hp hdata => ?_⟩
    · rcases eq_or_ne n m with rfl | hne
      · have hd' : some c' = some d := by
          rwa [hsessions, Function.update_self] at hd
        obtain rfl := Option.some.inj hd'
        cases hbefore : c.m_IsHandler with
        | true => exact List.mem_append_left _ (hannounced.handler n c hc hbefore)
        | false =>
          -- the handshake is completed, and there is room for the response
          have hverdict := (handshake_iff (hs n c hc) hr hbefore).1.mp hhandler
          have hroom := hkeeps n r rfl c hc hbefore hverdict
          refine List.mem_append_right _ ?_
          rw [occurrences_handshake r hc hd hbefore hhandler, decide_eq_true hroom]
          exact List.mem_singleton_self _
      · rw [hsessions, Function.update_of_ne hne] at hd
        exact List.mem_append_left _ (hannounced.handler n d hd hhandler)
    · rw [hcalls] at hp
      obtain ⟨call, hcall, hp'⟩ := List.mem_flatMap.mp hp
      rw [(hwhole call hcall).connID_eq p hp', hid m c hc]
      have hhandler := (hs m c hc).handler_of_data hr hp hdata
      exact List.mem_append_left _ (hannounced.handler m c hc hhandler)
  · -- a call is made
    have hpushed := pushed_occurrences_call s' hcalls
    have hold := hannounced.calls
    rw [hcalls, List.flatMap_cons] at hold
    refine ⟨hannounced.heralded.append fun p hp => ?_, fun n d hd hhandler => ?_,
      fun p hp hdata => ?_⟩
    · rw [hpushed] at hp
      exact hold p (List.mem_append_left _ hp)
    · rw [hsessions] at hd
      exact List.mem_append_left _ (hannounced.handler n d hd hhandler)
    · rw [hcalls'] at hp
      exact List.mem_append_left _ (hold p (List.mem_append_right _ hp) hdata)
  · have hsilent := hannounced.silent (pushed_occurrences_of_ne s s' hne)
    refine ⟨hsilent.heralded, fun n d hd => ?_, fun p hp => ?_⟩
    · rw [hsessions] at hd
      exact hsilent.handler n d hd
    · rw [hcalls] at hp
      exact hsilent.calls p hp

end Server

namespace CNetManager

variable {CheckHttpPackkage : List UInt8 → Bool} {nMaxConn : UInt32} {s s' : CNetManager}
variable {e : ManagerEvent} {es : List ManagerEvent} {outs os : List Occurrence}

/-- What a run keeps: the events of all sessions are in order. -/
theorem traced_of_run {s₀ : CNetManager} (hstart : new.Start nMaxConn = some s₀)
    (hr : Run (Step CheckHttpPackkage) s₀ es outs s) :
    s.Linked nMaxConn ∧ s.server.gateway.Traced outs := by
  refine Run.invariant_history (fun _ outs s => s.Linked nMaxConn ∧ s.server.gateway.Traced outs)
    ?_ ?_ hr
  · rintro _ outs s e os s' ⟨hs, htraced⟩ h
    refine ⟨hs.step h, ?_⟩
    obtain ⟨n, q, hcalls, hnone, rfl, hgateway⟩ | ⟨hgateway, hos⟩
      | ⟨e, sizes, -, he, hserver, rfl⟩ := hs.cases h
    · rw [hgateway]
      exact htraced.opened hcalls hnone q
    · rw [hgateway]
      obtain rfl | ⟨n, -, -, rfl⟩ := hos
      · exact htraced.silent rfl
      · exact htraced.silent rfl
    · exact hserver.traced he hs.ready (fun n c hc => (hs.accepted n c hc).2.1) htraced
  · refine ⟨Linked.start hstart, fun n => ?_⟩
    rw [(start_frame hstart).1]
    rfl

/-- **There is room for the response** to the handshake that the step completes,
if it completes one. -/
def HasRoom (CheckHttpPackkage : List UInt8 → Bool) (s : CNetManager) : ManagerEvent → Prop
  | .server (.gateway (.read nConnID r)) =>
    s.server.Keeps CheckHttpPackkage (.gateway (.read nConnID r))
  | _ => True

/-- What a run with room for all responses keeps: whose data there may be has been
answered. -/
theorem announced_of_run {s₀ : CNetManager} (hstart : new.Start nMaxConn = some s₀)
    (hr : Run ((Step CheckHttpPackkage).where fun s e _ _ => s.HasRoom CheckHttpPackkage e)
      s₀ es outs s) : s.Linked nMaxConn ∧ s.server.gateway.Announced outs := by
  refine Run.invariant_history
    (fun _ outs s => s.Linked nMaxConn ∧ s.server.gateway.Announced outs) ?_ ?_ hr
  · rintro _ outs s e os s' ⟨hs, hannounced⟩ ⟨h, hroom⟩
    refine ⟨hs.step h, ?_⟩
    obtain ⟨n, q, hcalls, hnone, rfl, hgateway⟩ | ⟨hgateway, hos⟩
      | ⟨e, sizes, rfl, he, hserver, rfl⟩ := hs.cases h
    · rw [hgateway]
      exact hannounced.opened n q
    · rw [hgateway]
      obtain rfl | ⟨n, -, -, rfl⟩ := hos
      · exact hannounced.silent rfl
      · exact hannounced.silent rfl
    · refine hserver.announced he hs.ready (fun n c hc => (hs.accepted n c hc).2.1) ?_ hannounced
      rintro n r rfl
      exact hroom
  · refine ⟨Linked.start hstart, ?_⟩
    rw [(start_frame hstart).1]
    refine ⟨by simp [Heralded], fun n c hc => ?_, fun p hp => ?_⟩
    · cases hc
    · exact absurd hp List.not_mem_nil

/-- What has been delivered is handed over. -/
theorem exists_packet {calls : List SessionCall} {d : Delivery} {id : ℕ}
    (hd : d ∈ deliveries calls) (hwhole : ∀ call ∈ calls, call.Whole id) :
    ∃ b, (⟨0, id, some b⟩ : NetPacket) ∈ calls.flatMap CServiceBase.packets := by
  obtain ⟨call, hcall, hdelivery⟩ := List.mem_filterMap.mp hd
  cases call with
  | OnDataHandle b header_size n =>
    obtain rfl : n = id := (hwhole _ hcall).1
    exact ⟨b, List.mem_flatMap.mpr ⟨_, hcall, List.mem_singleton_self _⟩⟩
  | OnCloseConnect n => cases hdelivery
  | async_read_some off n => cases hdelivery

/-! ### A session that is answered -/

section Answered

variable (CheckHttpPackkage : List UInt8 → Bool)

/-- **A handshake that is completed**, with the response if there is room for
it. -/
theorem exists_step_handshake {n : ℕ} {r : Read} (hidle : s.server.Idle)
    (hn : n ∈ s.server.m_OnlineNetSessionVector) (hreading : n ∈ s.reading)
    (hc : s.server.gateway.sessions n = some (.accepted n)) (hne : r.data ≠ [])
    (hroom : r.data.length ≤ RECV_BUF_SIZE) (hcheck : CheckHttpPackkage r.data = true) :
    ∃ c b s', Step CheckHttpPackkage s (.server (.gateway (.read n r)))
        [.response n (decide ((s.server.senders n).lockfree_queue.length < QUEUE_CAPACITY))] s'
      ∧ s'.server.gateway.sessions n = some c ∧ c.Blank ∧ c.m_IsHandler = true
      ∧ s'.server.gateway.calls = [.async_read_some 0 RECV_BUF_SIZE]
      ∧ s'.server.senders n = ((s.server.senders n).push b).1.begin
      ∧ s'.server.m_OnlineNetSessionVector = s.server.m_OnlineNetSessionVector
      ∧ s'.reading = s.reading ∧ b.Fits ∧ b.content = [] := by
  have hblank := CNetSession.blank_accepted n
  have hbuffered : (CNetSession.accepted n).buffered = [] :=
    List.length_eq_zero_iff.mp hblank.ready.held.length_buffered
  obtain ⟨m_pRecvBuf, hok⟩ := CNetSession.HandReaddata_of_not_handler CheckHttpPackkage
    hblank.ready (r := r) rfl rfl hroom (by rwa [hbuffered])
  rw [hbuffered, List.nil_append, if_pos hcheck] at hok
  obtain ⟨b, hb, hfits, hcontent⟩ := CNetSession.responseBuffer_eq_ok r.fresh [] (by decide)
  set c : CNetSession := { CNetSession.accepted n with
    m_pRecvBuf, m_dwDataLen := 0, m_IsHandler := true }
  have hsend : Sender.Step (s.server.senders n) (.response r.fresh []) _ _ :=
    .response (hidle.2 n hn) (by decide) hb
  have hserver : Server.Step CheckHttpPackkage s.server (.gateway (.read n r)) _ _ :=
    .handshake hidle hn hc ⟨⟨rfl, hroom, fun h => absurd h hne⟩, hok⟩ rfl rfl hsend
  have hstep : Step CheckHttpPackkage s (.server (.gateway (.read n r))) _ _ :=
    .server trivial (by rintro _ _ ⟨⟩; exact hreading) hserver
  have hsessions : Function.update s.server.gateway.sessions n (some c) n = some c :=
    Function.update_self _ _ _
  rw [Server.occurrences_handshake r hc hsessions rfl rfl] at hstep
  exact ⟨c, b, _, hstep, hsessions, ⟨rfl, rfl, rfl, rfl, rfl⟩, rfl, rfl,
    Function.update_self _ _ _, rfl, rfl, hfits, hcontent⟩

/-- Nothing is being sent if the only session is not sending. -/
theorem notSending_of_single (honline : s.server.m_OnlineNetSessionVector = {1})
    (hrun : (s.server.senders 1).running = none) : s.server.NotSending := by
  intro n hn
  rw [honline, Finset.mem_singleton] at hn
  rwa [hn]

/-- **A handshake, and the sending of what is queued then**, up to where the server is
idle again. -/
theorem exists_run_handshake {r : Read} (hidle : s.server.Idle)
    (hc : s.server.gateway.sessions 1 = some (.accepted 1))
    (honline : s.server.m_OnlineNetSessionVector = {1}) (hreading : s.reading = {1})
    (hqueue : ∀ b ∈ (s.server.senders 1).lockfree_queue, b.Fits ∧ b.GetTotalLenth ≤ 1024)
    (hne : r.data ≠ []) (hroom : r.data.length ≤ RECV_BUF_SIZE)
    (hcheck : CheckHttpPackkage r.data = true) :
    ∃ es s' c, Run (Step CheckHttpPackkage) s es
        [.response 1 (decide ((s.server.senders 1).lockfree_queue.length < QUEUE_CAPACITY))] s'
      ∧ s'.server.Idle ∧ 1 ∈ s'.server.m_OnlineNetSessionVector ∧ 1 ∈ s'.reading
      ∧ s'.server.gateway.sessions 1 = some c ∧ c.Blank ∧ c.m_IsHandler = true := by
  have hmem : 1 ∈ s.server.m_OnlineNetSessionVector := by
    rw [honline]
    exact Finset.mem_singleton_self 1
  obtain ⟨c, b, s₂, hr₂, hc₂, hblank, hhandler, hcalls₂, hsender₂, honline₂, hreading₂, hfits,
      hcontent⟩ := exists_step_handshake CheckHttpPackkage hidle hmem
    (by rw [hreading]; exact Finset.mem_singleton_self 1) hc hne hroom hcheck
  have htotal : b.GetTotalLenth ≤ 1024 := by
    rw [← CDataBuffer.length_content hfits.le_size, hcontent]
    exact Nat.zero_le _
  -- `DoSend` is called, and goes through all of the queue
  have hqueue₂ : ∀ b' ∈ ((s.server.senders 1).push b).1.begin.lockfree_queue,
      b'.Fits ∧ b'.GetTotalLenth ≤ 1024 := by
    intro b' hb'
    have hb'' : b' ∈ ((s.server.senders 1).push b).1.lockfree_queue := hb'
    unfold Sender.push at hb''
    split_ifs at hb''
    · rcases List.mem_append.mp hb'' with hb'' | hb''
      · exact hqueue b' hb''
      · exact List.mem_singleton.mp hb'' ▸ ⟨hfits, htotal⟩
    · exact hqueue b' hb''
  obtain ⟨_, t, hdrain, hrun⟩ := Sender.exists_run_drain
    (s := ((s.server.senders 1).push b).1.begin) rfl hqueue₂
  have hmem₂ : 1 ∈ s₂.server.m_OnlineNetSessionVector := by rwa [honline₂]
  obtain ⟨counts, hr₃⟩ :=
    exists_run_sent CheckHttpPackkage hdrain (by simp +contextual [or_imp]) hmem₂ hsender₂
  set s₃ : CNetManager := { s₂ with server := { s₂.server with
    senders := Function.update s₂.server.senders 1 t, m_dwBufferCount := counts } }
  have hsender₃ : s₃.server.senders 1 = t := Function.update_self 1 t s₂.server.senders
  have hnot : s₃.server.NotSending := notSending_of_single (s := s₃) (honline₂.trans honline)
    ((congrArg Sender.running hsender₃).trans hrun)
  obtain ⟨s₄, hr₄, hsessions₄, hcalls₄, honline₄, hsenders₄, hreading₄⟩ :=
    exists_run_calls CheckHttpPackkage (s := s₃) hcalls₂ hnot
  refine ⟨_, s₄, c, .cons hr₂ (hr₃.append hr₄), ⟨hcalls₄, fun n hn => ?_⟩, ?_, ?_, ?_, hblank,
    hhandler⟩
  · rw [hsenders₄]
    exact hnot n (honline₄ ▸ hn)
  · rw [honline₄]
    exact hmem₂
  · rw [hreading₄]
    show 1 ∈ s₂.reading
    rw [hreading₂, hreading]
    exact Finset.mem_singleton_self 1
  · rw [hsessions₄]
    exact hc₂

/-- **The first session is accepted and answered.** -/
theorem exists_run_answered {r : Read} (hne : r.data ≠ [])
    (hroom : r.data.length ≤ RECV_BUF_SIZE) (hcheck : CheckHttpPackkage r.data = true) :
    ∃ s₀ es s c, new.Start 1 = some s₀
      ∧ Run (Step CheckHttpPackkage) s₀ es
          [.enqueued ⟨NEW_CONNECTION, 1, none⟩, .response 1 true] s
      ∧ s.server.Idle ∧ 1 ∈ s.server.m_OnlineNetSessionVector ∧ 1 ∈ s.reading
      ∧ s.server.gateway.sessions 1 = some c ∧ c.Blank ∧ c.m_IsHandler = true := by
  obtain ⟨s₀, s, hstart, hr, hidle, hc, honline, hsender, hreading, -⟩ :=
    exists_run_accepted CheckHttpPackkage
  have hempty : (s.server.senders 1).lockfree_queue = [] := by rw [hsender]; rfl
  obtain ⟨es, s', c, hr', h⟩ := exists_run_handshake CheckHttpPackkage hidle hc honline hreading
    (by simp [hempty]) hne hroom hcheck
  rw [hempty] at hr'
  exact ⟨s₀, _, s', c, hstart, hr.append hr', h⟩

end Answered

/-- **The events of every connection are in order**, in every run: first that it
is new, then its data, and in the end, once, that it is closed. If there has
been room for the response to every handshake, there is no data of a session
that has not been answered. -/
theorem events_in_order {s₀ : CNetManager} (hstart : new.Start nMaxConn = some s₀)
    (es : List ManagerEvent) (outs : List Occurrence) (s : CNetManager) :
    (Run (Step CheckHttpPackkage) s₀ es outs s → ∀ nConnID, ∃ k,
        eventIDs nConnID (pushed outs)
          <+: NEW_CONNECTION :: (List.replicate k 0 ++ [CLOSE_CONNECTION]))
      ∧ (Run ((Step CheckHttpPackkage).where fun s e _ _ => s.HasRoom CheckHttpPackkage e)
          s₀ es outs s → Heralded outs) := by
  refine ⟨fun hr n => ?_, fun hr => (announced_of_run hstart hr).2.heralded⟩
  have hn := (traced_of_run hstart hr).2 n
  have hprefix : eventIDs n (pushed outs) <+: s.server.gateway.events outs n :=
    List.prefix_append _ _
  cases hc : s.server.gateway.sessions n with
  | none =>
    rw [hc] at hn
    rw [show s.server.gateway.events outs n = [] from hn] at hprefix
    exact ⟨0, hprefix.trans (List.nil_prefix)⟩
  | some c =>
    rw [hc] at hn
    obtain ⟨k, hk, -⟩ := hn
    refine ⟨k, hprefix.trans ?_⟩
    rw [hk, List.prefix_cons_inj, List.prefix_append_right_inj, closing]
    split_ifs
    · exact List.nil_prefix
    · exact List.prefix_refl _

/-- The first session is accepted and answered, a read has a frame, and the next one the header
of a frame that is too long: the events are that the session is new, data, and that it is closed. -/
theorem events_in_order_closed : ∃ s₀ es outs s, new.Start 1 = some s₀
    ∧ Run (Step fun _ => true) s₀ es outs s ∧ .response 1 true ∈ outs
    ∧ (∃ k, eventIDs 1 (pushed outs)
        = NEW_CONNECTION :: (List.replicate (k + 1) 0 ++ [CLOSE_CONNECTION]))
    ∧ ∀ nConnID, ∃ k, eventIDs nConnID (pushed outs)
        <+: NEW_CONNECTION :: (List.replicate k 0 ++ [CLOSE_CONNECTION]) := by
  obtain ⟨s₀, es, s, c, hstart, hr, hidle, hmem, hreading, hc, hblank, hhandler⟩ :=
    exists_run_answered (fun _ => true) (r := ⟨[0], fun _ => 0⟩) (by decide) (by decide) rfl
  set r : Read := ⟨[0x82, 0x82, 1, 2, 3, 4, 5, 6], fun _ => 0⟩
  have ho : c.Offers r := by
    rw [hblank.ready.offers_iff, hblank.view_eq]
    decide
  obtain ⟨c₁, calls, hok, hfed⟩ := CNetSession.HandReaddata_of_handler (fun _ => true)
    hblank.ready ho.1 hhandler ho.2.1
  obtain ⟨s₁, hr₁, hsessions₁, hidle₁, honline₁, hreading₁⟩ :=
    exists_run_read (fun _ => true) hidle hmem hreading hc ⟨ho, hok⟩ (by simp [hhandler])
  have hview : c₁.view = (Framer.idle.feed r.data).1 := by rw [hfed.view_eq, hblank.view_eq]
  have hopen : c₁.m_hSocket = true := (congrArg Framer.isOpen hview).trans (by decide)
  have hwindows : windows calls ≠ [] := by
    rw [hfed.windows_eq (List.append_ne_nil_of_right_ne_nil _ (by decide))]
    exact List.cons_ne_nil _ _
  set r₁ : Read := ⟨[0x82, 0xff, 0, 0, 0, 16, 0, 0, 0, 0, 1, 2, 3, 4], fun _ => 0⟩
  have ho₁ : c₁.Offers r₁ := by
    rw [hfed.ready.offers_iff, hview]
    decide
  obtain ⟨c₂, calls₁, hok₁, hfed₁⟩ := CNetSession.HandReaddata_of_handler (fun _ => true)
    hfed.ready ho₁.1 (hfed.isHandler_eq.trans hopen) ho₁.2.1
  obtain ⟨s₂, hr₂, hsessions₂, hidle₂, -⟩ := exists_run_read (fun _ => true) hidle₁
    (honline₁ ▸ hmem) (hreading₁ hwindows ▸ hreading)
    (by rw [hsessions₁, Function.update_self]) ⟨ho₁, hok₁⟩ (by simp [hfed.isHandler_eq, hopen])
  have hclosed : c₂.m_hSocket = false := by
    have hview₁ : c₂.view = ((Framer.idle.feed r.data).1.feed r₁.data).1 := by
      rw [hfed₁.view_eq, hview]
    exact (congrArg Framer.isOpen hview₁).trans (by decide)
  have hrun := hr.append (hr₁.append hr₂)
  -- the events are told by the session that is left
  have htraced := (traced_of_run hstart hrun).2 1
  rw [hsessions₂, Function.update_self] at htraced
  obtain ⟨k, hk, -⟩ := htraced
  rw [Gateway.events, hidle₂.1, hclosed] at hk
  have hk' : eventIDs 1 (pushed _) = NEW_CONNECTION :: (List.replicate k 0 ++ [CLOSE_CONNECTION]) :=
    (List.append_nil _).symm.trans hk
  have hid : c.m_dwSessionID = 1 := ((traced_of_run hstart hr).1.accepted 1 c hc).2.1
  have hdelivered : (r.data, 6) ∈ deliveries calls := by
    rw [hfed.deliveries_eq, hblank.view_eq]
    exact List.mem_singleton_self _
  obtain ⟨b, hb⟩ := exists_packet hdelivered (hid ▸ hfed.whole)
  have hzero : 0 ∈ eventIDs 1 (pushed ([.enqueued ⟨NEW_CONNECTION, 1, none⟩, .response 1 true]
      ++ ((calls.flatMap CServiceBase.packets).map .enqueued
        ++ (calls₁.flatMap CServiceBase.packets).map .enqueued))) := by
    rw [pushed_append, pushed_append, pushed_enqueued (calls.flatMap CServiceBase.packets)]
    have hmem := List.mem_append_right (pushed [.enqueued ⟨NEW_CONNECTION, 1, none⟩,
      .response 1 true]) (List.mem_append_left (calls₁.flatMap CServiceBase.packets) hb)
    rw [← pushed_enqueued (calls₁.flatMap CServiceBase.packets)] at hmem
    exact List.mem_map.mpr ⟨_, List.mem_filter.mpr ⟨hmem, decide_eq_true rfl⟩, rfl⟩
  cases k with
  | zero =>
    rw [hk'] at hzero
    exact absurd hzero (by decide)
  | succ k =>
    exact ⟨s₀, _, _, s₂, hstart, hrun, by simp, ⟨k, hk'⟩, (events_in_order hstart _ _ s₂).1 hrun⟩

/-! ### A full queue -/

section FullQueue

variable (CheckHttpPackkage : List UInt8 → Bool)

/-- **A queue that is full**: 40000 messages wait to be sent to a session that has
just been accepted. -/
theorem exists_run_full : ∃ s₀ es s b, new.Start 1 = some s₀
    ∧ Run (Step CheckHttpPackkage) s₀ es [.enqueued ⟨NEW_CONNECTION, 1, none⟩] s
    ∧ s.server.Idle ∧ s.server.gateway.sessions 1 = some (.accepted 1)
    ∧ s.server.m_OnlineNetSessionVector = {1} ∧ s.reading = {1}
    ∧ (s.server.senders 1).lockfree_queue = List.replicate QUEUE_CAPACITY b
    ∧ b.Fits ∧ b.GetTotalLenth ≤ 1024 := by
  obtain ⟨s₀, s, hstart, hr, hidle, hc, honline, hsender, hreading, -⟩ :=
    exists_run_accepted CheckHttpPackkage
  obtain ⟨b, hb⟩ := CNetManager.exists_messageBuffer (m := .empty) (by decide)
  obtain ⟨hfits, htotal, -⟩ := CNetManager.fits_of_messageBuffer hb
  obtain ⟨_, hfill⟩ := Sender.exists_run_fill (s := .new) hb QUEUE_CAPACITY (by simp [Sender.new])
  obtain ⟨counts, hr'⟩ := exists_run_sent CheckHttpPackkage hfill (by simp +contextual)
    (by rw [honline]; exact Finset.mem_singleton_self 1) hsender
  set t : Sender := { Sender.new with
    lockfree_queue := List.replicate QUEUE_CAPACITY b, posted := 0 + QUEUE_CAPACITY }
  set s' : CNetManager := { s with server := { s.server with
    senders := Function.update s.server.senders 1 t, m_dwBufferCount := counts } }
  have hsender' : s'.server.senders 1 = t := Function.update_self 1 t s.server.senders
  refine ⟨s₀, _, s', b, hstart, hr.append hr',
    ⟨hidle.1, notSending_of_single honline (congrArg Sender.running hsender')⟩, hc, honline,
    hreading, congrArg Sender.lockfree_queue hsender', hfits, ?_⟩
  rw [htotal]
  decide

/-- **A response that is lost**: the queue is full when the handshake of the session
is completed. -/
theorem exists_run_lost {r : Read} (hne : r.data ≠ []) (hroom : r.data.length ≤ RECV_BUF_SIZE)
    (hcheck : CheckHttpPackkage r.data = true) :
    ∃ s₀ es s c, new.Start 1 = some s₀
      ∧ Run (Step CheckHttpPackkage) s₀ es
          [.enqueued ⟨NEW_CONNECTION, 1, none⟩, .response 1 false] s
      ∧ s.server.Idle ∧ 1 ∈ s.server.m_OnlineNetSessionVector ∧ 1 ∈ s.reading
      ∧ s.server.gateway.sessions 1 = some c ∧ c.Blank ∧ c.m_IsHandler = true := by
  obtain ⟨s₀, es, s₁, b, hstart, hr₁, hidle₁, hc₁, honline₁, hreading₁, hqueue₁, hb⟩ :=
    exists_run_full CheckHttpPackkage
  have hfull : ¬ (s₁.server.senders 1).lockfree_queue.length < QUEUE_CAPACITY := by
    rw [hqueue₁, List.length_replicate]
    exact Nat.lt_irrefl _
  obtain ⟨es', s, c, hr', h⟩ := exists_run_handshake CheckHttpPackkage hidle₁ hc₁ honline₁
    hreading₁ (fun b₁ hb₁ =>
      (List.eq_of_mem_replicate (hqueue₁ ▸ hb₁ : b₁ ∈ List.replicate _ b)) ▸ hb) hne hroom hcheck
  rw [decide_eq_false hfull] at hr'
  exact ⟨s₀, _, s, c, hstart, hr₁.append hr', h⟩

end FullQueue

/-- It is not true that there is no data of a session before its response has been
queued: the frame behind a handshake whose response has been lost is handed
over. -/
theorem not_events_in_order : ¬ ∀ (CheckHttpPackkage : List UInt8 → Bool) (nMaxConn : UInt32)
    (s₀ : CNetManager), new.Start nMaxConn = some s₀ → ∀ es outs s,
      Run (Step CheckHttpPackkage) s₀ es outs s →
        (∀ nConnID, ∃ k, eventIDs nConnID (pushed outs)
          <+: NEW_CONNECTION :: (List.replicate k 0 ++ [CLOSE_CONNECTION])) ∧ Heralded outs := by
  intro h
  obtain ⟨s₀, es, s, c, hstart, hr, hidle, hmem, hreading, hc, hblank, hhandler⟩ :=
    exists_run_lost (fun _ => true) (r := ⟨[0], fun _ => 0⟩) (by decide) (by decide) rfl
  set r : Read := ⟨[0x82, 0x82, 1, 2, 3, 4, 5, 6], fun _ => 0⟩
  have ho : c.Offers r := by
    rw [hblank.ready.offers_iff, hblank.view_eq]
    decide
  obtain ⟨c', calls, hok, hfed⟩ := CNetSession.HandReaddata_of_handler (fun _ => true)
    hblank.ready ho.1 hhandler ho.2.1
  obtain ⟨s', hr', -⟩ := exists_run_read (fun _ => true) hidle hmem hreading hc ⟨ho, hok⟩
    (by simp [hhandler])
  have hheralded := (h _ 1 s₀ hstart _ _ s' (hr.append hr')).2
  -- the frame is handed over
  have hdeliveries : deliveries calls = [(r.data, 6)] := by
    rw [hfed.deliveries_eq, hblank.view_eq]
    rfl
  obtain ⟨b, hb⟩ := exists_packet (hdeliveries ▸ List.mem_singleton_self _ :
    (r.data, 6) ∈ deliveries calls) hfed.whole
  have hpushed : (⟨0, c.m_dwSessionID, some b⟩ : NetPacket) ∈ pushed
      ([.enqueued ⟨NEW_CONNECTION, 1, none⟩, .response 1 false]
        ++ (calls.flatMap CServiceBase.packets).map .enqueued) := by
    rw [pushed_append, pushed_enqueued]
    exact List.mem_append_right _ hb
  have hanswered := hheralded.answered hpushed rfl
  simp [Answered] at hanswered

end CNetManager
