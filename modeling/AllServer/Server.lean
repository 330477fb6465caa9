import AllServer.Allocation
import AllServer.Gateway
import AllServer.PoolInvariant
import AllServer.SendPath
import Mathlib.Algebra.BigOperators.Group.Finset.Basic
import Mathlib.Algebra.Order.BigOperators.Group.Finset

/-!
# The buffers of the server

The gateway and the send paths of its sessions as one machine, which emits the
sizes that `AllocDataBuff` is asked for and counts them as its managers do.
Nothing in the server calls `Release`, so a manager counts the buffers that it
has handed out, as far as a `UINT32` can.

A buffer is owned while it waits to be dispatched or sent, or while a packet is
collected in it. What is counted beyond that has leaked, and a step leaks
exactly if it is not `Server.Keeps`: a packet is dispatched, a buffer is popped,
or a queue to which a buffer is pushed is full (`Server.no_leak_iff`).
-/

/-- A step of the server: a session is put to use, or it is a step of the
gateway or of the send path of a session. -/
inductive ServerEvent where
  | CreateNetSession (nConnID : ℕ)
  | gateway (e : GatewayEvent)
  | send (nConnID : ℕ) (e : SendEvent)

/-- **The server.** -/
structure Server where
  gateway : Gateway
  /-- The send paths of the sessions. -/
  senders : ℕ → Sender
  /-- The ids of the sessions that `GetNetSessionByID` finds. -/
  m_OnlineNetSessionVector : Finset ℕ
  /-- The counts of the managers, by the sizes of their buffers. -/
  m_dwBufferCount : ℕ → ℕ

/-- The step of the gateway. -/
def ServerEvent.gateway? : ServerEvent → Option GatewayEvent
  | .gateway e => some e
  | _ => none

/-- The size that is asked for. -/
def SendCall.nSize? : SendCall → Option ℤ
  | .AllocDataBuff nSize => some nSize
  | _ => none

namespace Server

/-- The sizes of the buffers of the managers. -/
def managers : Finset ℕ := (managerSizes ++ [10 * 1024 * 1014]).toFinset

/-- What a call of `AllocDataBuff` does to the counts. -/
def count (m_dwBufferCount : ℕ → ℕ) (nSize : ℤ) : ℕ → ℕ :=
  Function.update m_dwBufferCount (managerSize nSize)
    ((m_dwBufferCount (managerSize nSize) + 1) % 2 ^ 32)

/-- The server after buffers of these sizes have been allocated. -/
def alloc (sizes : List ℤ) (s : Server) : Server :=
  { s with m_dwBufferCount := sizes.foldl count s.m_dwBufferCount }

/-- The server when a session has been put to use. -/
def CreateNetSession (nConnID : ℕ) (s : Server) : Server :=
  { s with
    senders := Function.update s.senders nConnID .new
    m_OnlineNetSessionVector := insert nConnID s.m_OnlineNetSessionVector }

/-- The server when a session has handled a read. -/
def received (nConnID : ℕ) (c : CNetSession) (calls : List SessionCall) (s : Server) : Server :=
  { s with
    gateway := { s.gateway with
      sessions := Function.update s.gateway.sessions nConnID (some c)
      calls := calls } }

/-- The server when the send path of a session has taken a step. -/
def sent (nConnID : ℕ) (t : Sender) (s : Server) : Server :=
  { s with senders := Function.update s.senders nConnID t }

/-- The server after `Start`. -/
def new : Server := ⟨.new, fun _ => .new, ∅, fun _ => 0⟩

/-- No call of `DoSend` is under way. -/
def NotSending (s : Server) : Prop :=
  ∀ nConnID ∈ s.m_OnlineNetSessionVector, (s.senders nConnID).running = none

/-- No handler runs on the I/O thread. -/
def Idle (s : Server) : Prop := s.gateway.calls = [] ∧ s.NotSending

section Step

variable (CheckHttpPackkage : List UInt8 → Bool)

/-- **The server as a machine.** The session that waits for a connection can be
sent messages already. A read that completes a handshake also queues the
response, and `DoSend` is called before the read is over. -/
inductive Step : Machine Server ServerEvent ℤ
  | CreateNetSession {s : Server} {nConnID : ℕ} :
      nConnID ∉ s.m_OnlineNetSessionVector → s.gateway.sessions nConnID = none →
      Step s (.CreateNetSession nConnID) [] (s.CreateNetSession nConnID)
  | accept {s : Server} {nConnID : ℕ} {g : Gateway} :
      s.Idle → nConnID ∈ s.m_OnlineNetSessionVector →
      Gateway.Step CheckHttpPackkage s.gateway (.accept nConnID) [] g →
      Step s (.gateway (.accept nConnID)) [] { s with gateway := g }
  | read {s : Server} {nConnID : ℕ} {r : Read} {c c' : CNetSession} {calls : List SessionCall}
      {sizes : List ℤ} :
      s.Idle → nConnID ∈ s.m_OnlineNetSessionVector → s.gateway.sessions nConnID = some c →
      CNetSession.Receives CheckHttpPackkage c r calls c' →
      ¬ (c.m_IsHandler = false ∧ c'.m_IsHandler = true) → c.allocs r = .ok sizes →
      Step s (.gateway (.read nConnID r)) sizes (alloc sizes (s.received nConnID c' calls))
  | handshake {s : Server} {nConnID : ℕ} {r : Read} {c c' : CNetSession}
      {calls : List SessionCall} {buffer : List UInt8} {outs : List SendCall} {t : Sender} :
      s.Idle → nConnID ∈ s.m_OnlineNetSessionVector → s.gateway.sessions nConnID = some c →
      CNetSession.Receives CheckHttpPackkage c r calls c' →
      c.m_IsHandler = false → c'.m_IsHandler = true →
      Sender.Step (s.senders nConnID) (.response r.fresh buffer) outs t →
      Step s (.gateway (.read nConnID r)) (outs.filterMap SendCall.nSize?)
        (alloc (outs.filterMap SendCall.nSize?) ((s.received nConnID c' calls).sent nConnID t))
  | call {s : Server} {g : Gateway} :
      s.NotSending → Gateway.Step CheckHttpPackkage s.gateway .call [] g →
      Step s (.gateway .call) [] { s with gateway := g }
  | update {s : Server} {e : GatewayEvent} {outs : List DispatcherCall} {g : Gateway} :
      e = .swap ∨ e = .visit ∨ e = .clear →
      Gateway.Step CheckHttpPackkage s.gateway e outs g →
      Step s (.gateway e) [] { s with gateway := g }
  | send {s : Server} {nConnID : ℕ} {e : SendEvent} {outs : List SendCall} {t : Sender} :
      nConnID ∈ s.m_OnlineNetSessionVector → (∀ fresh buffer, e ≠ .response fresh buffer) →
      (e = .run ∨ (∃ i error, e = .HandWritedata i error) → s.Idle) →
      Sender.Step (s.senders nConnID) e outs t →
      Step s (.send nConnID e) (outs.filterMap SendCall.nSize?)
        (alloc (outs.filterMap SendCall.nSize?) (s.sent nConnID t))

end Step

/-! ## Counting and owning -/

/-- **What the managers count.** -/
def allocated (s : Server) : ℕ := ∑ SIZE ∈ managers, s.m_dwBufferCount SIZE

end Server

/-- How many buffers an item of the queue has. -/
def NetPacket.buffers (p : NetPacket) : ℕ := p.m_pDataBuffer.toList.length

/-- The buffers of items that have not been dispatched. -/
def CServiceBase.buffers (q : CServiceBase) : ℕ :=
  (q.m_pRecvDataQueue.map NetPacket.buffers).sum
    + ((q.Iter.getD q.m_pDispathQueue).map NetPacket.buffers).sum

namespace Server

/-- The buffers of a session. -/
def sessionBuffers (s : Server) (nConnID : ℕ) : ℕ :=
  ((s.gateway.sessions nConnID).map CNetSession.collecting).getD 0
    + (s.senders nConnID).lockfree_queue.length

/-- **The buffers that are owned**: they wait to be dispatched or sent, or a
packet is collected in them. -/
def owned (s : Server) : ℕ :=
  s.gateway.service.buffers + ∑ nConnID ∈ s.m_OnlineNetSessionVector, s.sessionBuffers nConnID

/-- The buffers that are owned or in the hands of a handler. -/
def held (s : Server) : ℕ := CNetSession.buffers s.gateway.calls + s.owned

/-- **No write is in flight and no handler runs.** -/
def Quiescent (s : Server) : Prop :=
  s.Idle ∧ ∀ nConnID ∈ s.m_OnlineNetSessionVector, (s.senders nConnID).writes = []

end Server

/-- **The step leaks no buffer** of a send path: nothing is popped, and there is
room for what is pushed. -/
def Sender.Keeps (s : Sender) : SendEvent → Prop
  | .SendMessageData _ => s.lockfree_queue.length < QUEUE_CAPACITY
  | .response _ _ => s.lockfree_queue.length < QUEUE_CAPACITY
  | .iterate => False
  | _ => True

/-- **The step leaks no buffer** of the server: the item that is visited has
none, there is room for the response of a handshake, and no send path leaks. -/
def Server.Keeps (CheckHttpPackkage : List UInt8 → Bool) (s : Server) : ServerEvent → Prop
  | .CreateNetSession _ => True
  | .gateway .visit => ∀ Item rest, s.gateway.service.Iter = some (Item :: rest) →
    Item.m_pDataBuffer = none
  | .gateway (.read nConnID r) => ∀ c, s.gateway.sessions nConnID = some c →
    c.m_IsHandler = false → CheckHttpPackkage (c.buffered ++ r.data) = true →
    (s.senders nConnID).lockfree_queue.length < QUEUE_CAPACITY
  | .gateway _ => True
  | .send nConnID e => (s.senders nConnID).Keeps e

/-! ## The send path -/

namespace Sender

variable {s s' : Sender} {e : SendEvent} {outs : List SendCall}

theorem length_push (b : CDataBuffer) (s : Sender) :
    ∃ k, 1 + s.lockfree_queue.length = (s.push b).1.lockfree_queue.length + k
      ∧ (k = 0 ↔ s.lockfree_queue.length < QUEUE_CAPACITY) := by
  unfold push
  by_cases hroom : s.lockfree_queue.length < QUEUE_CAPACITY
  · rw [if_pos hroom]
    exact ⟨0, by simp [Nat.add_comm], iff_of_true rfl hroom⟩
  · rw [if_neg hroom]
    exact ⟨1, by simp [Nat.add_comm], iff_of_false one_ne_zero hroom⟩

/-- **What a step of the send path leaks.** -/
theorem step_allocs (h : Step s e outs s') :
    ∃ k, (outs.filterMap SendCall.nSize?).length + s.lockfree_queue.length
        = s'.lockfree_queue.length + k ∧ (k = 0 ↔ s.Keeps e) := by
  cases h with
  | @SendMessageData _ m b hb =>
    obtain ⟨k, hk, hiff⟩ := length_push b s
    refine ⟨k, ?_, hiff⟩
    rw [(s.SendMessageData_frame b).1]
    exact hk
  | @response _ fresh buffer b hrun hlen hb => exact length_push b s
  | iterate hrun hqueue hok =>
    refine ⟨2, ?_, iff_of_false two_ne_zero id⟩
    rw [hqueue]
    exact (Nat.add_comm _ _).trans (Nat.add_assoc _ _ _)
  | overrun hrun hqueue herror =>
    refine ⟨2, ?_, iff_of_false two_ne_zero id⟩
    rw [hqueue]
    exact (Nat.add_comm _ _).trans (Nat.add_assoc _ _ _)
  | @HandWritedata _ i error w hrun hw hdone =>
    refine ⟨0, ?_, iff_of_true rfl trivial⟩
    cases error <;> exact Nat.zero_add _
  | run | finish | write_some => exact ⟨0, Nat.zero_add _, iff_of_true rfl trivial⟩

/-- A message without a body is sent, and all of it is written. -/
theorem exists_run_written : ∃ n outs t,
    Run Step new [.SendMessageData .empty, .run, .iterate, .finish, .write_some 0 n,
        .HandWritedata 0 false, .finish] outs t
      ∧ outs.filterMap SendCall.nSize? = [toInt HEADER_LEN, RECV_BUF_SIZE]
      ∧ t.lockfree_queue = [] ∧ t.running = none ∧ t.writes = [] := by
  obtain ⟨b, call', size, hfits, htotal, hok, hsend, hrun, hiterate⟩ := exists_steps_empty
  obtain ⟨-, -, hsize, -⟩ := iterate_eq_ok hfits hok
  have hle := hfits.le_size
  have hpos : 0 < HEADER_LEN := by decide
  have hwrite := Step.write_some (s := ⟨[], 0, 1, none, [⟨b, 1, size, 0⟩]⟩) (i := 0) (n := size)
    rfl (by omega) (Nat.zero_add size).le
  have hdone : Step ⟨[], 0, 1, none, [⟨b, 1, size, 0 + size⟩]⟩ (.HandWritedata 0 false) [] _ :=
    .HandWritedata rfl rfl (fun _ => Nat.zero_add _)
  exact ⟨size, _, _, .cons hsend (.cons hrun (.cons hiterate (.cons (.finish rfl rfl)
    (.cons hwrite (.cons hdone (.single (.finish rfl rfl))))))), rfl, rfl, rfl, rfl⟩

end Sender

namespace Server

variable {CheckHttpPackkage : List UInt8 → Bool} {s s' : Server} {e : ServerEvent}
variable {es : List ServerEvent} {sizes : List ℤ}

/-! ## Counting -/

/-- **A manager counts the buffers it has been asked for**, as far as a `UINT32`
can. -/
theorem foldl_count {SIZE k : ℕ} {c : ℕ → ℕ} (h : c SIZE = k % 2 ^ 32) (sizes : List ℤ) :
    sizes.foldl count c SIZE = (k + (sizes.map managerSize).count SIZE) % 2 ^ 32 := by
  induction sizes generalizing c k with
  | nil => exact h
  | cons nSize sizes ih =>
    rw [List.foldl_cons, List.map_cons, List.count_cons]
    by_cases hsize : managerSize nSize = SIZE
    · have hcount : count c nSize SIZE = (k + 1) % 2 ^ 32 := by
        rw [count, hsize, Function.update_self, h, Nat.mod_add_mod]
      rw [ih hcount, if_pos (beq_iff_eq.mpr hsize), Nat.add_assoc, Nat.add_comm 1]
    · have hcount : count c nSize SIZE = k % 2 ^ 32 := by
        rw [count, Function.update_of_ne (Ne.symm hsize), h]
      rw [ih hcount, if_neg (fun heq => hsize (beq_iff_eq.mp heq)), Nat.add_zero]

/-- There is a manager for every size. -/
theorem managerSize_mem (nSize : ℤ) : managerSize nSize ∈ managers :=
  List.mem_toFinset.mpr (managerSize_mem_append nSize)

theorem sum_count (sizes : List ℤ) :
    ∑ SIZE ∈ managers, (sizes.map managerSize).count SIZE = sizes.length := by
  have hmem : ∀ SIZE ∈ (sizes.map managerSize : Multiset ℕ), SIZE ∈ managers := by
    intro SIZE h
    obtain ⟨nSize, -, rfl⟩ := List.mem_map.mp h
    exact managerSize_mem nSize
  have hsum := Multiset.sum_count_eq_card hmem
  simp only [Multiset.coe_card, Multiset.coe_count, List.length_map] at hsum
  exact hsum

theorem Step.m_dwBufferCount_eq (h : Step CheckHttpPackkage s e sizes s') :
    s'.m_dwBufferCount = sizes.foldl count s.m_dwBufferCount := by
  cases h <;> rfl

/-- **The counts after a run**, whatever its order was. -/
theorem m_dwBufferCount_of_run (hr : Run (Step CheckHttpPackkage) s es sizes s') :
    s'.m_dwBufferCount = sizes.foldl count s.m_dwBufferCount := by
  induction hr with
  | nil s => rfl
  | cons hs _ ih => rw [List.foldl_append, ← hs.m_dwBufferCount_eq, ih]

/-- **The count of a manager is that of its pool**: the one that a pool has that
is asked for as many buffers. -/
theorem exists_pool_of_run (hr : Run (Step CheckHttpPackkage) new es sizes s) (SIZE : ℕ)
    (pool : Bool) (fresh : ℕ → UInt8) :
    ∃ os m, Run BufferPool.Step (.new SIZE pool)
        ((List.range ((sizes.map managerSize).count SIZE)).map (.AllocDataBuff · fresh)) os m
      ∧ s.m_dwBufferCount SIZE = m.m_dwBufferCount := by
  obtain ⟨os, m, hpool, -, -, hcount⟩ :=
    BufferPool.exists_run_AllocDataBuff SIZE pool fresh ((sizes.map managerSize).count SIZE)
  refine ⟨os, m, hpool, ?_⟩
  rw [m_dwBufferCount_of_run hr, hcount, foldl_count (Nat.zero_mod _).symm, Nat.zero_add]

/-- **All that a run allocates is counted**, unless it is too much for a
`UINT32`. -/
theorem allocated_of_run (hr : Run (Step CheckHttpPackkage) new es sizes s)
    (hcount : ∀ SIZE, (sizes.map managerSize).count SIZE < 2 ^ 32) :
    s.allocated = sizes.length := by
  rw [← sum_count]
  refine Finset.sum_congr rfl fun SIZE _ => ?_
  rw [m_dwBufferCount_of_run hr, foldl_count (Nat.zero_mod _).symm, Nat.zero_add,
    Nat.mod_eq_of_lt (hcount SIZE)]

/-! ## Owning -/

/-- A sum of which one term has changed. -/
theorem sum_add_of_ne {f f' : ℕ → ℕ} {t : Finset ℕ} {n : ℕ} (hn : n ∈ t)
    (h : ∀ m, m ≠ n → f' m = f m) : ∑ m ∈ t, f' m + f n = ∑ m ∈ t, f m + f' n := by
  have hrest : ∑ m ∈ t.erase n, f' m = ∑ m ∈ t.erase n, f m :=
    Finset.sum_congr rfl fun m hm => h m (Finset.ne_of_mem_erase hm)
  rw [← Finset.add_sum_erase t f' hn, ← Finset.add_sum_erase t f hn, hrest]
  omega

/-- What is pushed is owned by the service. -/
theorem buffers_handle (q : CServiceBase) (c : SessionCall) :
    (q.handle c).buffers = q.buffers + c.buffers := by
  have hpackets : ((CServiceBase.packets c).map NetPacket.buffers).sum = c.buffers := by
    cases c <;> rfl
  rw [CServiceBase.handle_eq]
  unfold CServiceBase.buffers
  rw [List.map_append, List.sum_append, hpackets]
  exact Nat.add_right_comm _ _ _

theorem buffers_swap {q : CServiceBase} (h : q.Iter = none) : q.swap.buffers = q.buffers := by
  unfold CServiceBase.buffers
  rw [h]
  exact Nat.add_comm _ _

/-- The service has visited an item. -/
theorem buffers_visit {q : CServiceBase} {Item : NetPacket} {rest : List NetPacket}
    (h : q.Iter = some (Item :: rest)) :
    q.buffers = ({ q with Iter := some rest } : CServiceBase).buffers + Item.buffers := by
  unfold CServiceBase.buffers
  rw [h, Option.getD_some, List.map_cons, List.sum_cons]
  exact (congrArg _ (Nat.add_comm _ _)).trans (Nat.add_assoc _ _ _).symm

theorem buffers_clear {q : CServiceBase} (h : q.Iter = some []) : q.clear.buffers = q.buffers := by
  unfold CServiceBase.buffers
  rw [h]
  rfl

theorem buffers_OnNewConnect (q : CServiceBase) (n : ℕ) :
    (q.OnNewConnect n).buffers = q.buffers := by
  unfold CServiceBase.buffers CServiceBase.OnNewConnect CServiceBase.push
  rw [List.map_append, List.sum_append]
  rfl

/-- A session that is put to use has no buffers. -/
theorem held_CreateNetSession {n : ℕ} (hn : n ∉ s.m_OnlineNetSessionVector)
    (hnone : s.gateway.sessions n = none) : (s.CreateNetSession n).held = s.held := by
  have hnew : (s.CreateNetSession n).sessionBuffers n = 0 := by
    unfold sessionBuffers CreateNetSession
    dsimp only
    rw [hnone, Function.update_self]
    rfl
  have hold : ∀ m ∈ s.m_OnlineNetSessionVector,
      (s.CreateNetSession n).sessionBuffers m = s.sessionBuffers m := by
    intro m hm
    unfold sessionBuffers CreateNetSession
    dsimp only
    rw [Function.update_of_ne (ne_of_mem_of_not_mem hm hn)]
  have honline : (s.CreateNetSession n).m_OnlineNetSessionVector
      = insert n s.m_OnlineNetSessionVector := rfl
  have howned : (s.CreateNetSession n).owned = s.owned := by
    unfold owned
    rw [honline, Finset.sum_insert hn, hnew, Nat.zero_add, Finset.sum_congr rfl hold]
    rfl
  unfold held
  rw [howned]
  rfl

/-- What a session has handed over, or is collecting, is held. -/
theorem held_received {n : ℕ} (c : CNetSession) (calls : List SessionCall)
    (hn : n ∈ s.m_OnlineNetSessionVector) (hcalls : s.gateway.calls = []) :
    (s.received n c calls).held + ((s.gateway.sessions n).map CNetSession.collecting).getD 0
      = s.held + CNetSession.buffers calls + c.collecting := by
  have hne : ∀ m, m ≠ n → (s.received n c calls).sessionBuffers m = s.sessionBuffers m := by
    intro m hm
    unfold sessionBuffers received
    dsimp only
    rw [Function.update_of_ne hm]
  have hself : (s.received n c calls).sessionBuffers n
      = c.collecting + (s.senders n).lockfree_queue.length := by
    unfold sessionBuffers received
    dsimp only
    rw [Function.update_self]
    rfl
  have hsum := sum_add_of_ne hn hne
  have hzero : CNetSession.buffers s.gateway.calls = 0 := by
    rw [hcalls]
    rfl
  rw [hself] at hsum
  unfold held owned
  rw [hzero]
  unfold received sessionBuffers at hsum ⊢
  dsimp only at hsum ⊢
  omega

/-- What is held when only the service has changed. -/
theorem held_service (q : CServiceBase) (s : Server) :
    ({ s with gateway := { s.gateway with service := q } } : Server).held
      + s.gateway.service.buffers = s.held + q.buffers := by
  unfold held owned sessionBuffers
  dsimp only
  omega

/-- A buffer that is handed over stays held. -/
theorem held_handle {c : SessionCall} {calls : List SessionCall}
    (hcalls : s.gateway.calls = c :: calls) :
    ({ s with gateway := { s.gateway with
        calls, service := s.gateway.service.handle c } } : Server).held = s.held := by
  have hbuffers : CNetSession.buffers s.gateway.calls
      = c.buffers + CNetSession.buffers calls := by
    rw [hcalls]
    rfl
  unfold held owned sessionBuffers
  dsimp only
  rw [buffers_handle, hbuffers]
  omega

/-- What is queued is held. -/
theorem held_sent {n : ℕ} {t : Sender} (hn : n ∈ s.m_OnlineNetSessionVector) :
    (s.sent n t).held + (s.senders n).lockfree_queue.length
      = s.held + t.lockfree_queue.length := by
  have hne : ∀ m, m ≠ n → (s.sent n t).sessionBuffers m = s.sessionBuffers m := by
    intro m hm
    unfold sessionBuffers sent
    dsimp only
    rw [Function.update_of_ne hm]
  have hself : (s.sent n t).sessionBuffers n
      = ((s.gateway.sessions n).map CNetSession.collecting).getD 0
        + t.lockfree_queue.length := by
    unfold sessionBuffers sent
    dsimp only
    rw [Function.update_self]
  have hsum := sum_add_of_ne hn hne
  rw [hself] at hsum
  unfold held owned
  unfold sent sessionBuffers at hsum ⊢
  dsimp only at hsum ⊢
  omega

/-- The sessions are ready. -/
def Ready (s : Server) : Prop := ∀ nConnID c, s.gateway.sessions nConnID = some c → c.Ready

/-- A read before the handshake hands nothing over and collects nothing, and
completes the handshake if the request is accepted. -/
theorem handshake_iff {c c' : CNetSession} {r : Read} {calls : List SessionCall} (hc : c.Ready)
    (h : CNetSession.Receives CheckHttpPackkage c r calls c') (hfalse : c.m_IsHandler = false) :
    (c'.m_IsHandler = true ↔ CheckHttpPackkage (c.buffered ++ r.data) = true)
      ∧ CNetSession.buffers calls = 0 ∧ c'.collecting = c.collecting := by
  obtain ⟨ho, hok⟩ := h
  obtain ⟨b, hb⟩ := CNetSession.HandReaddata_of_not_handler CheckHttpPackkage hc ho.1 hfalse ho.2.1
    (hc.offers_iff.mp ho).front_ne_nil
  have heq := Except.ok.inj (hok.symm.trans hb)
  by_cases hverdict : CheckHttpPackkage (c.buffered ++ r.data) = true
  · rw [if_pos hverdict] at heq
    obtain ⟨rfl, rfl⟩ := Prod.mk.inj heq
    exact ⟨iff_of_true rfl hverdict, rfl, rfl⟩
  · rw [if_neg hverdict] at heq
    obtain ⟨rfl, rfl⟩ := Prod.mk.inj heq
    exact ⟨iff_of_false Bool.false_ne_true hverdict, rfl, rfl⟩

/-- **What a step of the service leaks**: the buffer of the packet that it
dispatches. -/
theorem leaks_update {e : GatewayEvent} {outs : List DispatcherCall} {g : Gateway}
    (he : e = .swap ∨ e = .visit ∨ e = .clear)
    (hg : Gateway.Step CheckHttpPackkage s.gateway e outs g) :
    ∃ k, s.held = ({ s with gateway := g } : Server).held + k
      ∧ (k = 0 ↔ s.Keeps CheckHttpPackkage (.gateway e)) := by
  cases hg with
  | swap hiter =>
    have hheld := held_service s.gateway.service.swap s
    rw [buffers_swap hiter] at hheld
    exact ⟨0, (Nat.add_right_cancel hheld).symm, iff_of_true rfl trivial⟩
  | @visit _ Item rest hiter =>
    have hheld := held_service { s.gateway.service with Iter := some rest } s
    have hvisit := buffers_visit hiter
    refine ⟨Item.buffers, ?_, fun h Item' rest' hiter' => ?_, fun hkeeps => ?_⟩
    · dsimp only at hheld ⊢
      omega
    · rw [hiter, Option.some.injEq, List.cons.injEq] at hiter'
      obtain ⟨rfl, -⟩ := hiter'
      exact Option.toList_eq_nil_iff.mp (List.length_eq_zero_iff.mp h)
    · rw [NetPacket.buffers, hkeeps Item rest hiter]
      rfl
  | clear hiter =>
    have hheld := held_service s.gateway.service.clear s
    rw [buffers_clear hiter] at hheld
    exact ⟨0, (Nat.add_right_cancel hheld).symm, iff_of_true rfl trivial⟩
  | accept | read | call => exact absurd he (by simp)

/-- **What a step leaks**: the buffers that are allocated or held before it, and
not held after it. It leaks none exactly if it keeps them. -/
theorem Step.leaks (h : Step CheckHttpPackkage s e sizes s') (hs : s.Ready) :
    ∃ k, sizes.length + s.held = s'.held + k ∧ (k = 0 ↔ s.Keeps CheckHttpPackkage e) := by
  cases h with
  | @CreateNetSession _ n hn hnone =>
    refine ⟨0, ?_, iff_of_true rfl trivial⟩
    rw [held_CreateNetSession hn hnone]
    exact Nat.zero_add _
  | @accept _ n g hidle hn hg =>
    refine ⟨0, ?_, iff_of_true rfl trivial⟩
    cases hg with
    | accept hcalls hnone =>
      have hheld := held_received (.accepted n) [] hn hcalls
      have hnew := held_service (s.gateway.service.OnNewConnect n) (s.received n (.accepted n) [])
      rw [hnone] at hheld
      rw [buffers_OnNewConnect] at hnew
      rw [hcalls]
      exact (Nat.zero_add _).trans (hheld.symm.trans (Nat.add_right_cancel hnew).symm)
  | @read _ n r c c' calls sizes hidle hn hc hr hflip hsizes =>
    obtain ⟨sizes', hsizes', hkept⟩ := CNetSession.HandReaddata_allocs hr.2
    obtain rfl := Except.ok.inj (hsizes.symm.trans hsizes')
    -- a read that keeps the handshake as it is pushes nothing, so there need be no room
    refine ⟨0, ?_, iff_of_true rfl fun c₁ hc₁ hfalse hverdict => ?_⟩
    · have hheld := held_received c' calls hn hidle.1
      rw [hc, Option.map_some, Option.getD_some] at hheld
      show sizes.length + s.held = (s.received n c' calls).held + 0
      omega
    · obtain rfl := Option.some.inj (hc.symm.trans hc₁)
      exact absurd ⟨hfalse, (handshake_iff (hs n c hc) hr hfalse).1.mpr hverdict⟩ hflip
  | @handshake _ n r c c' calls buffer outs t hidle hn hc hr hfalse htrue hstep =>
    obtain ⟨k, hk, hiff⟩ := Sender.step_allocs hstep
    obtain ⟨hverdict, hcalls, hcollecting⟩ := handshake_iff (hs n c hc) hr hfalse
    refine ⟨k, ?_, hiff.trans ⟨fun hroom _ _ _ _ => hroom, fun hkeeps => ?_⟩⟩
    · have hheld := held_received c' calls hn hidle.1
      have hheld' := held_sent (s := s.received n c' calls) (t := t) hn
      rw [hc, Option.map_some, Option.getD_some] at hheld
      show _ = ((s.received n c' calls).sent n t).held + k
      have hsenders : (s.received n c' calls).senders n = s.senders n := rfl
      rw [hsenders] at hheld'
      omega
    · exact hkeeps c hc hfalse (hverdict.mp htrue)
  | @call _ g hnot hg =>
    refine ⟨0, ?_, iff_of_true rfl trivial⟩
    cases hg with
    | @call _ c calls hcalls =>
      rw [held_handle hcalls]
      exact Nat.zero_add _
  | @update _ e outs g he hg =>
    obtain ⟨k, hk, hiff⟩ := leaks_update he hg
    exact ⟨k, (Nat.zero_add _).trans hk, hiff⟩
  | @send _ n e outs t hn hresponse hbegin hstep =>
    obtain ⟨k, hk, hiff⟩ := Sender.step_allocs hstep
    refine ⟨k, ?_, hiff⟩
    have hheld := held_sent (t := t) hn
    show _ = (s.sent n t).held + k
    omega

/-- **A step allocates no fewer buffers than it adds to what is held**, and no
more exactly if it keeps them. -/
theorem Step.held_le (h : Step CheckHttpPackkage s e sizes s') (hs : s.Ready) :
    s'.held ≤ s.held + sizes.length
      ∧ (s.Keeps CheckHttpPackkage e ↔ s'.held = s.held + sizes.length) := by
  obtain ⟨k, hk, hiff⟩ := h.leaks hs
  refine ⟨by omega, hiff.symm.trans ?_⟩
  constructor <;> intro <;> omega

/-! ## Runs -/

/-- The server starts ready. -/
theorem ready_new : new.Ready := fun _ _ h => absurd h.symm (Option.some_ne_none _)

/-- A step keeps the sessions ready. -/
theorem Ready.step (hs : s.Ready) (h : Step CheckHttpPackkage s e sizes s') : s'.Ready := by
  cases h with
  | CreateNetSession => exact hs
  | @accept _ n g hidle hn hg =>
    cases hg with
    | accept hcalls hnone =>
      exact Gateway.ready_update (CNetSession.blank_accepted n).ready hs
  | @read _ n r c c' calls sizes hidle hn hc hr hflip hsizes =>
    exact Gateway.ready_update ((hs n c hc).step hr).1 hs
  | @handshake _ n r c c' calls buffer outs t hidle hn hc hr hfalse htrue hstep =>
    exact Gateway.ready_update ((hs n c hc).step hr).1 hs
  | call hnot hg =>
    cases hg
    exact hs
  | update he hg =>
    rcases he with rfl | rfl | rfl <;> cases hg <;> exact hs
  | send => exact hs

/-- A step of the server is one of the gateway, or leaves the gateway alone. -/
theorem Step.gateway (h : Step CheckHttpPackkage s e sizes s') :
    match e.gateway? with
    | some e => ∃ outs, Gateway.Step CheckHttpPackkage s.gateway e outs s'.gateway
    | none => s'.gateway = s.gateway := by
  cases h with
  | CreateNetSession | send => rfl
  | accept hidle hn hg => exact ⟨_, hg⟩
  | read hidle hn hc hr => exact ⟨_, .read hidle.1 hc hr⟩
  | handshake hidle hn hc hr => exact ⟨_, .read hidle.1 hc hr⟩
  | call hnot hg => exact ⟨_, hg⟩
  | update he hg => exact ⟨_, hg⟩

/-- **A run of the server is one of the gateway.** -/
theorem gateway_of_run (hr : Run (Step CheckHttpPackkage) s es sizes s') :
    ∃ outs, Run (Gateway.Step CheckHttpPackkage) s.gateway
      (es.filterMap ServerEvent.gateway?) outs s'.gateway := by
  induction hr with
  | nil s => exact ⟨[], .nil _⟩
  | @cons s t u e es sizes sizes' hs _ ih =>
    obtain ⟨outs, hrest⟩ := ih
    have hstep := hs.gateway
    cases he : e.gateway? with
    | none =>
      rw [he] at hstep
      rw [List.filterMap_cons_none he, ← hstep]
      exact ⟨outs, hrest⟩
    | some e' =>
      rw [he] at hstep
      obtain ⟨outs', hstep⟩ := hstep
      rw [List.filterMap_cons_some he]
      exact ⟨_, .cons hstep hrest⟩

/-- Without a handler that runs, what is held is owned. -/
theorem Quiescent.held_eq (h : s.Quiescent) : s.held = s.owned := by
  unfold held
  rw [h.1.1]
  exact Nat.zero_add _

/-- **No buffer is leaked** exactly as long as none is dispatched, popped or
pushed to a full queue: the managers then count what is owned, and they count more
from the first such step on. No step ever gives a buffer back, so that what is
counted and not owned can only grow: this is why the condition is not only enough
but has to hold in every step of the run. -/
theorem no_leak_iff (hr : Run (Step CheckHttpPackkage) new es sizes s)
    (hcount : ∀ SIZE, (sizes.map managerSize).count SIZE < 2 ^ 32) (hquiet : s.Quiescent) :
    s.allocated = s.owned
      ↔ Run ((Step CheckHttpPackkage).where fun s e _ _ => s.Keeps CheckHttpPackkage e)
          new es sizes s := by
  have hruns : Run ((Step CheckHttpPackkage).where fun s e _ _ => s.Keeps CheckHttpPackkage e)
      new es sizes s ↔ Run (Step CheckHttpPackkage) new es sizes s
        ∧ s.held = new.held + sizes.length :=
    Run.where_iff_length (fun _ _ _ _ hs h => hs.step h) (fun _ _ _ _ hs h => h.held_le hs)
      ready_new
  have hzero : new.held = 0 := rfl
  rw [hruns, and_iff_right hr, hquiet.held_eq, allocated_of_run hr hcount, hzero, Nat.zero_add]
  exact eq_comm

/-- **A send path that runs alone**: the runs of the send path of the only
session are runs of the server. -/
theorem exists_run_sent {n : ℕ} {t t' : Sender} {ses : List SendEvent} {outs : List SendCall}
    (hr : Run Sender.Step t ses outs t')
    (hresponse : ∀ e ∈ ses, ∀ fresh buffer, e ≠ .response fresh buffer)
    (honline : s.m_OnlineNetSessionVector = {n}) (hcalls : s.gateway.calls = [])
    (ht : s.senders n = t) :
    ∃ s', Run (Step CheckHttpPackkage) s (ses.map (.send n)) (outs.filterMap SendCall.nSize?) s'
      ∧ s'.gateway = s.gateway ∧ s'.m_OnlineNetSessionVector = {n} ∧ s'.senders n = t' := by
  -- what the server has besides the send path stays as it is
  induction hr generalizing s with
  | nil t => exact ⟨s, .nil s, rfl, honline, ht⟩
  | @cons t u t' e ses outs outs' hs hrest ih =>
    obtain ⟨he, hrest⟩ := List.forall_mem_cons.mp hresponse
    have hidle : e = .run ∨ (∃ i error, e = .HandWritedata i error) → s.Idle := by
      intro hbegin
      refine ⟨hcalls, fun m hm => ?_⟩
      rw [honline, Finset.mem_singleton] at hm
      subst hm
      rw [ht]
      obtain rfl | ⟨i, error, rfl⟩ := hbegin <;> cases hs <;> assumption
    have hstep : Step CheckHttpPackkage s (.send n e) (outs.filterMap SendCall.nSize?)
        (alloc (outs.filterMap SendCall.nSize?) (s.sent n u)) :=
      .send (honline ▸ Finset.mem_singleton_self n) he hidle (ht ▸ hs)
    obtain ⟨s', hr', hgateway, honline', ht'⟩ := ih hrest (s := alloc _ (s.sent n u)) honline
      hcalls (Function.update_self _ _ _)
    rw [List.map_cons, List.filterMap_append]
    exact ⟨s', .cons hstep hr', hgateway, honline', ht'⟩

/-- So there is a run of the server in which one session is accepted and sends, and
nothing is received. -/
theorem exists_run_alone {t : Sender} {ses : List SendEvent} {outs : List SendCall}
    (hr : Run Sender.Step .new ses outs t)
    (hresponse : ∀ e ∈ ses, ∀ fresh buffer, e ≠ .response fresh buffer) (n : ℕ) :
    ∃ s, Run (Step CheckHttpPackkage) new
        (.CreateNetSession n :: .gateway (.accept n) :: ses.map (.send n))
        (outs.filterMap SendCall.nSize?) s
      ∧ (t.running = none → t.writes = [] → s.Quiescent)
      ∧ s.owned = t.lockfree_queue.length := by
  have hcreate : Step CheckHttpPackkage new (.CreateNetSession n) [] (new.CreateNetSession n) :=
    .CreateNetSession (Finset.notMem_empty n) rfl
  have hone : (new.CreateNetSession n).m_OnlineNetSessionVector = {n} := rfl
  have hsender : (new.CreateNetSession n).senders n = .new := Function.update_self _ _ _
  have hidle : (new.CreateNetSession n).Idle := by
    refine ⟨rfl, fun m hm => ?_⟩
    rw [hone, Finset.mem_singleton] at hm
    rw [hm, hsender]
    rfl
  set g : Gateway := { new.gateway with
    sessions := Function.update new.gateway.sessions n (some (.accepted n))
    service := new.gateway.service.OnNewConnect n }
  have haccept : Step CheckHttpPackkage (new.CreateNetSession n) (.gateway (.accept n)) []
      { new.CreateNetSession n with gateway := g } :=
    .accept hidle (hone ▸ Finset.mem_singleton_self n) (.accept rfl rfl)
  obtain ⟨s, hr', hgateway, honline, ht⟩ := exists_run_sent hr hresponse
    (s := { new.CreateNetSession n with gateway := g }) rfl rfl hsender
  refine ⟨s, .cons hcreate (.cons haccept hr'), fun hrunning hwrites => ?_, ?_⟩
  · refine ⟨⟨by rw [hgateway]; rfl, fun m hm => ?_⟩, fun m hm => ?_⟩ <;>
    · rw [honline, Finset.mem_singleton] at hm
      rw [hm, ht]
      assumption
  · unfold owned sessionBuffers
    rw [honline, Finset.sum_singleton, hgateway, ht]
    show 0 + (((g.sessions n).map CNetSession.collecting).getD 0 + t.lockfree_queue.length) = _
    have hsession : g.sessions n = some (.accepted n) := Function.update_self n _ _
    have hcollecting : (g.sessions n).map CNetSession.collecting = some 0 := by
      rw [hsession]
      rfl
    rw [hcollecting, Option.getD_some, Nat.zero_add, Nat.zero_add]

/-- A message that waits to be sent is owned, and nothing has leaked. -/
theorem no_leak_iff_queued : ∃ s,
    Run ((Step fun _ => true).where fun s e _ _ => s.Keeps (fun _ => true) e)
        new [.CreateNetSession 1, .gateway (.accept 1), .send 1 (.SendMessageData .empty)]
        [toInt HEADER_LEN] s
      ∧ s.Quiescent ∧ s.allocated = 1 ∧ s.owned = 1 := by
  obtain ⟨b, hb⟩ := CNetManager.exists_messageBuffer (m := .empty) (by decide)
  have hsend : Sender.Step .new (.SendMessageData .empty)
      [.AllocDataBuff (toInt HEADER_LEN), .push b true] (Sender.new.SendMessageData b) :=
    .SendMessageData hb
  obtain ⟨s, hr, hquiet, howned⟩ := exists_run_alone (.single hsend) (by simp) 1
  have hcount : ∀ SIZE, ([toInt HEADER_LEN].map managerSize).count SIZE < 2 ^ 32 :=
    fun _ => List.count_le_length.trans_lt (by decide)
  have hallocated : s.allocated = 1 := allocated_of_run hr hcount
  exact ⟨s, (no_leak_iff hr hcount (hquiet rfl rfl)).mp (hallocated.trans howned.symm),
    hquiet rfl rfl, hallocated, howned⟩

/-- It is not true that no buffer is leaked: when a message has been written,
two are counted and none is owned. -/
theorem not_no_leak : ¬ ∃ CheckHttpPackkage, ∀ es sizes s,
    Run (Step CheckHttpPackkage) new es sizes s → s.Quiescent → s.allocated = s.owned := by
  rintro ⟨CheckHttpPackkage, h⟩
  obtain ⟨n, outs, t, hr, hsizes, hqueue, hrunning, hwrites⟩ := Sender.exists_run_written
  obtain ⟨s, hr', hquiet, howned⟩ :=
    exists_run_alone hr (by simp) 1
  rw [hsizes] at hr'
  have hallocated : s.allocated = 2 :=
    allocated_of_run hr' fun _ => List.count_le_length.trans_lt (by decide)
  have heq := h _ _ s hr' (hquiet hrunning hwrites)
  rw [hallocated, howned, hqueue] at heq
  exact absurd heq (by decide)

end Server
