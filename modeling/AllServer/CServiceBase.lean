import AllServer.CNetSession

/-!
# The event queue of the service

`CServiceBase` is the data handler of all sessions. What they report on the
I/O thread is pushed to one queue as `NetPacket`s, under a lock; `Update`, on
the main thread, swaps that queue with a second one under the same lock, and
then visits the second one item by item and clears it. `Update` is taken apart
into these steps here, so that the pushes of the I/O thread may come between
any two of them.
-/

/-- `NetPacket`: an event of a session. -/
structure NetPacket where
  m_dwMsgID : ℕ
  m_dwConnID : ℕ
  /-- The buffer, or nothing where the pointer is null. -/
  m_pDataBuffer : Option CDataBuffer

/-- `NEW_CONNECTION`. -/
def NEW_CONNECTION : ℕ := 1

/-- `CLOSE_CONNECTION`. -/
def CLOSE_CONNECTION : ℕ := 2

/-- A call of the service on its `IPacketDispatcher`. -/
inductive DispatcherCall where
  | OnNewConnect (nConnID : ℕ)
  | OnCloseConnect (nConnID : ℕ)
  | DispatchPacket (pNetPacket : NetPacket)

/-- **The service**, with the state of an `Update` that may be in progress. -/
structure CServiceBase where
  m_pRecvDataQueue : List NetPacket
  m_pDispathQueue : List NetPacket
  /-- Within `Update`, the items that are still to be visited. -/
  Iter : Option (List NetPacket)

namespace CServiceBase

/-- The service as its constructor leaves it. -/
def new : CServiceBase := ⟨[], [], none⟩

/-! ## What the I/O thread calls -/

/-- `push_back` on the receive queue, under the lock. -/
def push (p : NetPacket) (q : CServiceBase) : CServiceBase :=
  { q with m_pRecvDataQueue := q.m_pRecvDataQueue ++ [p] }

/-- `CServiceBase::OnCloseConnect`. -/
def OnCloseConnect (nConnID : ℕ) : CServiceBase → CServiceBase :=
  push ⟨CLOSE_CONNECTION, nConnID, none⟩

/-- `CServiceBase::OnNewConnect`. -/
def OnNewConnect (nConnID : ℕ) : CServiceBase → CServiceBase :=
  push ⟨NEW_CONNECTION, nConnID, none⟩

/-- `CServiceBase::OnDataHandle`. The header length is not kept. -/
def OnDataHandle (pDataBuffer : CDataBuffer) (_header_size nConnID : ℕ) :
    CServiceBase → CServiceBase :=
  push ⟨0, nConnID, some pDataBuffer⟩

/-- What a call of a session does to the service that is its handler. -/
def handle : SessionCall → CServiceBase → CServiceBase
  | .OnDataHandle pDataBuffer header_size nConnID =>
    OnDataHandle pDataBuffer header_size nConnID
  | .OnCloseConnect nConnID => OnCloseConnect nConnID
  | .async_read_some _ _ => id

/-- The packets that a call of a session pushes. -/
def packets : SessionCall → List NetPacket
  | .OnDataHandle pDataBuffer _ nConnID => [⟨0, nConnID, some pDataBuffer⟩]
  | .OnCloseConnect nConnID => [⟨CLOSE_CONNECTION, nConnID, none⟩]
  | .async_read_some _ _ => []

/-- **A call pushes its packets** and does nothing else. -/
theorem handle_eq (c : SessionCall) (q : CServiceBase) :
    q.handle c = { q with m_pRecvDataQueue := q.m_pRecvDataQueue ++ packets c } := by
  cases c with
  | async_read_some off n => exact congrArg (CServiceBase.mk · _ _) (List.append_nil _).symm
  | OnDataHandle | OnCloseConnect => rfl

/-- **Calls push their packets in order.** -/
theorem foldl_handle (calls : List SessionCall) (q : CServiceBase) :
    calls.foldl (fun q c => q.handle c) q
      = { q with m_pRecvDataQueue := q.m_pRecvDataQueue ++ calls.flatMap packets } := by
  induction calls generalizing q with
  | nil => exact congrArg (CServiceBase.mk · _ _) (List.append_nil _).symm
  | cons c calls ih => rw [List.foldl_cons, ih, handle_eq, List.flatMap_cons, List.append_assoc]

/-! ## The steps of `Update` -/

/-- The swap of the two queues, under the lock. What is visited afterwards is
the queue that was swapped in. -/
def swap (q : CServiceBase) : CServiceBase where
  m_pRecvDataQueue := q.m_pDispathQueue
  m_pDispathQueue := q.m_pRecvDataQueue
  Iter := some q.m_pRecvDataQueue

/-- The `switch` on one item. -/
def visit (Item : NetPacket) : List DispatcherCall :=
  if Item.m_dwMsgID = NEW_CONNECTION then
    [.OnNewConnect Item.m_dwConnID]
  else if Item.m_dwMsgID = CLOSE_CONNECTION then
    []
  else
    [.DispatchPacket Item]

/-- The end of `Update`: the queue that was visited is cleared. An empty one
is left alone, which comes to the same. -/
def clear (q : CServiceBase) : CServiceBase :=
  { q with m_pDispathQueue := [], Iter := none }

end CServiceBase

/-- `CGameService::DispatchPacket`: the range of the buffer that is handed to
`ParsePartialFromArray`, as an offset and a length. -/
def CGameService.DispatchPacket (pNetPacket : NetPacket) : Except Fault (ℕ × ℕ) :=
  match pNetPacket.m_pDataBuffer with
  | some m_pDataBuffer => .ok (m_pDataBuffer.GetData, m_pDataBuffer.GetBodyLenth)
  | none => .error .null
