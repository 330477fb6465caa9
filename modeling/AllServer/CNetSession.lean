import AllServer.DataBuffer
import AllServer.Util.Run
import AllServer.WsFrame

/-!
# The receive path of a session

A `CNetSession` receives into one buffer of `RECV_BUF_SIZE` bytes. A read
appends to the `m_dwDataLen` bytes that are there (`HandReaddata`), and
`ExtractBuffer` then takes packets off their front with a cursor `m_pBufPos`
that it moves back to the start before the next read. A packet that does not
fit the receive buffer is collected in `m_pCurRecvBuffer` over several reads.

The functions are those of the source, with the session passed along and with
what they call outside the session – the data handler, the socket – returned
in order as `SessionCall`s. The unsigned subtractions and the copies are the
checked ones of `AllServer.Util.Memory`.
-/

/-- A call a session makes on its data handler or its socket. -/
inductive SessionCall where
  /-- `m_pDataHandler->OnDataHandle`. -/
  | OnDataHandle (pDataBuffer : CDataBuffer) (header_size nConnID : ℕ)
  /-- `m_pDataHandler->OnCloseConnect`. -/
  | OnCloseConnect (nConnID : ℕ)
  /-- `m_hSocket.async_read_some` into `size` bytes of `m_pRecvBuf` from
  `offset` on. -/
  | async_read_some (offset size : ℕ)

/-- **A session**, as far as receiving goes. -/
structure CNetSession where
  /-- Whether `m_hSocket` is open. -/
  m_hSocket : Bool
  m_dwSessionID : ℕ
  /-- The packet that is being collected, if there is one. -/
  m_pCurRecvBuffer : Option CDataBuffer
  /-- The size that packet is to have. -/
  m_pCurBufferSize : ℕ
  m_pRecvBuf : MemBlock UInt8 RECV_BUF_SIZE
  /-- The cursor, as an offset into `m_pRecvBuf`. -/
  m_pBufPos : ℕ
  /-- How many received bytes there are from the cursor on. -/
  m_dwDataLen : ℕ
  /-- Whether `SetDataHandler` has been called: the pointer is not null. -/
  m_pDataHandler : Bool
  /-- Whether the handshake is done. -/
  m_IsHandler : Bool

/-- What a completed read brings: the bytes received, and the bytes that are
in a data buffer allocated while they are handled. -/
structure Read where
  data : List UInt8
  fresh : ℕ → UInt8

namespace CNetSession

/-- The session that `CNetSessionMrg` has created and `CNetManager` has
accepted: its socket is open and its data handler set. -/
def accepted (dwSessionID : ℕ) : CNetSession where
  m_hSocket := true
  m_dwSessionID := dwSessionID
  m_pCurRecvBuffer := none
  m_pCurBufferSize := 0
  m_pRecvBuf := MemBlock.ofFn (fun _ => 0) RECV_BUF_SIZE
  m_pBufPos := 0
  m_dwDataLen := 0
  m_pDataHandler := true
  m_IsHandler := false

/-- That session once its handshake is done. -/
def handshaken (dwSessionID : ℕ) : CNetSession :=
  { accepted dwSessionID with m_IsHandler := true }

/-- A call on the data handler, through a pointer that may be null. -/
def callHandler (s : CNetSession) (call : SessionCall) :
    Except Fault (List SessionCall) :=
  if s.m_pDataHandler then .ok [call] else .error .null

/-- `CNetSession::Close`. On a socket that is closed already `shutdown`
throws. -/
def Close (s : CNetSession) : Except Fault (CNetSession × List SessionCall) :=
  if s.m_hSocket then
    .ok ({ s with m_hSocket := false, m_IsHandler := false },
      if s.m_pDataHandler then [.OnCloseConnect s.m_dwSessionID] else [])
  else .error .thrown

/-- `CNetSession::DoReceive`. -/
def DoReceive (s : CNetSession) : Except Fault (List SessionCall) := do
  let size ← checkedSub RECV_BUF_SIZE s.m_dwDataLen
  return [.async_read_some s.m_dwDataLen size]

namespace ExtractBuffer

/-- `ExtractBuffer`, where the bytes there are do not complete the packet
that is being collected: they are appended to it. -/
def append (s : CNetSession) (cur : CDataBuffer) : Except Fault CNetSession := do
  let src ← s.m_pRecvBuf.load s.m_pBufPos s.m_dwDataLen
  let cur ← cur.memcpy cur.GetTotalLenth src
  return { s with
    m_pBufPos := 0
    m_pCurRecvBuffer := some (cur.SetTotalLenth (cur.GetTotalLenth + s.m_dwDataLen))
    m_dwDataLen := 0 }

/-- `ExtractBuffer`, where they do: the packet is completed and handed over. -/
def complete (s : CNetSession) (cur : CDataBuffer) (header_size : ℕ) :
    Except Fault (CNetSession × List SessionCall) := do
  let missing ← checkedSub s.m_pCurBufferSize cur.GetTotalLenth
  let src ← s.m_pRecvBuf.load s.m_pBufPos missing
  let cur ← cur.memcpy cur.GetTotalLenth src
  let m_dwDataLen ← checkedSub s.m_dwDataLen missing
  let cur := cur.SetTotalLenth s.m_pCurBufferSize
  let calls ← s.callHandler (.OnDataHandle cur header_size s.m_dwSessionID)
  return ({ s with
    m_dwDataLen
    m_pBufPos := s.m_pBufPos + missing
    m_pCurRecvBuffer := none }, calls)

/-- `ExtractBuffer`, from the comparison with `MAX_PKG_SIZE` on: what is done
about a packet of `dwPacketSize` bytes at the cursor. -/
def packet (fresh : ℕ → UInt8) (dwPacketSize header_size : ℕ) (s : CNetSession) :
    Except Fault (ForInStep CNetSession × List SessionCall) := do
  if dwPacketSize ≥ MAX_PKG_SIZE then
    let (s, calls) ← s.Close
    return (.done s, calls)
  if dwPacketSize > s.m_dwDataLen ∧ dwPacketSize < RECV_BUF_SIZE then
    return (.done s, [])
  if dwPacketSize ≤ s.m_dwDataLen then
    let pDataBuffer := AllocDataBuff fresh (toInt dwPacketSize)
    let src ← s.m_pRecvBuf.load s.m_pBufPos dwPacketSize
    let pDataBuffer ← pDataBuffer.memcpy 0 src
    let m_dwDataLen ← checkedSub s.m_dwDataLen dwPacketSize
    let pDataBuffer := pDataBuffer.SetTotalLenth dwPacketSize
    let calls ← s.callHandler (.OnDataHandle pDataBuffer header_size s.m_dwSessionID)
    return (.done { s with m_dwDataLen, m_pBufPos := s.m_pBufPos + dwPacketSize }, calls)
  else
    let pDataBuffer := AllocDataBuff fresh (toInt dwPacketSize)
    let src ← s.m_pRecvBuf.load s.m_pBufPos s.m_dwDataLen
    let pDataBuffer ← pDataBuffer.memcpy 0 src
    return (.yield { s with
      m_dwDataLen := 0
      m_pBufPos := 0
      m_pCurRecvBuffer := some (pDataBuffer.SetTotalLenth s.m_dwDataLen)
      m_pCurBufferSize := dwPacketSize }, [])

/-- One turn of the loop of `ExtractBuffer`. The size is parsed at the cursor
before anything is taken off, and is the one that `packet` is given also
where `complete` has moved the cursor in between. -/
def turn (fresh : ℕ → UInt8) (s : CNetSession) :
    Except Fault (ForInStep CNetSession × List SessionCall) := do
  let pkg_data ← s.m_pRecvBuf.load s.m_pBufPos s.m_dwDataLen
  let (_, pkg_size, header_size) ← CHttpParser.recv_ws_header pkg_data 0 0
  let dwPacketSize := pkg_size.toUInt32.toNat
  match s.m_pCurRecvBuffer with
  | some cur =>
    if (cur.GetTotalLenth + s.m_dwDataLen) % 2 ^ 32 < s.m_pCurBufferSize then
      return (.done (← append s cur), [])
    let (s, calls) ← complete s cur header_size.toUInt32.toNat
    let (s, calls') ← packet fresh dwPacketSize header_size.toUInt32.toNat s
    return (s, calls ++ calls')
  | none => packet fresh dwPacketSize header_size.toUInt32.toNat s

end ExtractBuffer

/-- `CNetSession::ExtractBuffer`. A turn that does not break has used up the
bytes there were, so the loop is allowed one turn more than there are bytes:
it never asks for more (`ExtractBuffer_spec`). -/
def ExtractBuffer (fresh : ℕ → UInt8) (s : CNetSession) :
    Except Fault (CNetSession × List SessionCall) := do
  if s.m_dwDataLen = 0 then
    return (s, [])
  let (s, calls) ← whileTrue (ExtractBuffer.turn fresh) (s.m_dwDataLen + 1) s
  if s.m_dwDataLen > 0 then
    let src ← s.m_pRecvBuf.load s.m_pBufPos s.m_dwDataLen
    let m_pRecvBuf ← s.m_pRecvBuf.store 0 src
    return ({ s with m_pRecvBuf, m_pBufPos := 0 }, calls)
  return ({ s with m_pBufPos := 0 }, calls)

/-! ## What a call that succeeds has done -/

section Inversion

variable {fresh : ℕ → UInt8} {s s' : CNetSession} {x : ForInStep CNetSession}
variable {calls : List SessionCall} {cur : CDataBuffer} {dwPacketSize header_size : ℕ}

theorem callHandler_eq_ok {call : SessionCall} (h : s.callHandler call = .ok calls) :
    calls = [call] := by
  unfold callHandler at h
  split_ifs at h
  exact (Except.ok.inj h).symm

theorem Close_eq_ok (h : s.Close = .ok (s', calls)) :
    s' = { s with m_hSocket := false, m_IsHandler := false }
      ∧ calls = if s.m_pDataHandler then [.OnCloseConnect s.m_dwSessionID] else [] := by
  unfold Close at h
  split_ifs at h with hopen hhandler <;> obtain ⟨rfl, rfl⟩ := Prod.mk.inj (Except.ok.inj h) <;>
    exact ⟨rfl, by simp [hhandler]⟩

theorem DoReceive_eq_ok (h : s.DoReceive = .ok calls) :
    ∃ size, calls = [.async_read_some s.m_dwDataLen size] := by
  obtain ⟨size, -, h⟩ := bind_eq_ok.mp h
  exact ⟨size, (Except.ok.inj h).symm⟩

namespace ExtractBuffer

theorem append_eq_ok (h : append s cur = .ok s') :
    ∃ b, s' = { s with m_pBufPos := 0, m_pCurRecvBuffer := some b, m_dwDataLen := 0 } := by
  unfold append at h
  obtain ⟨src, -, h⟩ := bind_eq_ok.mp h
  obtain ⟨b, -, h⟩ := bind_eq_ok.mp h
  exact ⟨_, (Except.ok.inj h).symm⟩

theorem complete_eq_ok (h : complete s cur header_size = .ok (s', calls)) :
    ∃ b m_dwDataLen m_pBufPos, calls = [.OnDataHandle b header_size s.m_dwSessionID]
      ∧ s' = { s with m_dwDataLen, m_pBufPos, m_pCurRecvBuffer := none } := by
  unfold complete at h
  obtain ⟨missing, -, h⟩ := bind_eq_ok.mp h
  obtain ⟨src, -, h⟩ := bind_eq_ok.mp h
  obtain ⟨b, -, h⟩ := bind_eq_ok.mp h
  obtain ⟨m_dwDataLen, -, h⟩ := bind_eq_ok.mp h
  obtain ⟨calls₁, hcall, h⟩ := bind_eq_ok.mp h
  obtain ⟨rfl, rfl⟩ := Prod.mk.inj (Except.ok.inj h)
  exact ⟨_, _, _, callHandler_eq_ok hcall, rfl⟩

/-- **What is done about the packet at the cursor**: the session is closed, the
packet is left for the next read, it is handed over, or it is collected. -/
theorem packet_eq_ok (h : packet fresh dwPacketSize header_size s = .ok (x, calls)) :
    (dwPacketSize ≥ MAX_PKG_SIZE ∧ ∃ s', s.Close = .ok (s', calls) ∧ x = .done s')
      ∨ ¬ dwPacketSize ≥ MAX_PKG_SIZE
        ∧ ((dwPacketSize > s.m_dwDataLen ∧ dwPacketSize < RECV_BUF_SIZE)
            ∧ calls = [] ∧ x = .done s
          ∨ ¬ (dwPacketSize > s.m_dwDataLen ∧ dwPacketSize < RECV_BUF_SIZE)
            ∧ ((∃ b m_dwDataLen m_pBufPos, calls = [.OnDataHandle b header_size s.m_dwSessionID]
                ∧ x = .done { s with m_dwDataLen, m_pBufPos })
              ∨ ∃ b, calls = [] ∧ x = .yield { s with
                  m_dwDataLen := 0
                  m_pBufPos := 0
                  m_pCurRecvBuffer := some b
                  m_pCurBufferSize := dwPacketSize })) := by
  unfold packet at h
  split_ifs at h with hmax hwait hle
  · obtain ⟨⟨s₁, calls₁⟩, hclose, h⟩ := bind_eq_ok.mp h
    obtain ⟨rfl, rfl⟩ := Prod.mk.inj (Except.ok.inj h)
    exact .inl ⟨hmax, s₁, hclose, rfl⟩
  · obtain ⟨rfl, rfl⟩ := Prod.mk.inj (Except.ok.inj h)
    exact .inr ⟨hmax, .inl ⟨hwait, rfl, rfl⟩⟩
  · obtain ⟨src, -, h⟩ := bind_eq_ok.mp h
    obtain ⟨b, -, h⟩ := bind_eq_ok.mp h
    obtain ⟨m_dwDataLen, -, h⟩ := bind_eq_ok.mp h
    obtain ⟨calls₁, hcall, h⟩ := bind_eq_ok.mp h
    obtain ⟨rfl, rfl⟩ := Prod.mk.inj (Except.ok.inj h)
    exact .inr ⟨hmax, .inr ⟨hwait, .inl ⟨_, _, _, callHandler_eq_ok hcall, rfl⟩⟩⟩
  · obtain ⟨src, -, h⟩ := bind_eq_ok.mp h
    obtain ⟨b, -, h⟩ := bind_eq_ok.mp h
    obtain ⟨rfl, rfl⟩ := Prod.mk.inj (Except.ok.inj h)
    exact .inr ⟨hmax, .inr ⟨hwait, .inr ⟨_, rfl, rfl⟩⟩⟩

/-- **What a turn of the loop does**: a packet that is being collected is not
completed yet, or is completed first; then the packet at the cursor is dealt
with. -/
theorem turn_eq_ok (h : turn fresh s = .ok (x, calls)) :
    ∃ pkg_data found pkg_size header_size,
      s.m_pRecvBuf.load s.m_pBufPos s.m_dwDataLen = .ok pkg_data
      ∧ CHttpParser.recv_ws_header pkg_data 0 0 = .ok (found, pkg_size, header_size)
      ∧ ((s.m_pCurRecvBuffer = none ∧ packet fresh pkg_size.toUInt32.toNat
            header_size.toUInt32.toNat s = .ok (x, calls))
        ∨ ∃ cur, s.m_pCurRecvBuffer = some cur
          ∧ ((cur.GetTotalLenth + s.m_dwDataLen) % 2 ^ 32 < s.m_pCurBufferSize
              ∧ calls = [] ∧ (∃ s', append s cur = .ok s' ∧ x = .done s')
            ∨ ¬ (cur.GetTotalLenth + s.m_dwDataLen) % 2 ^ 32 < s.m_pCurBufferSize
              ∧ ∃ s₁ calls₁ calls₂, complete s cur header_size.toUInt32.toNat = .ok (s₁, calls₁)
                ∧ packet fresh pkg_size.toUInt32.toNat header_size.toUInt32.toNat s₁
                  = .ok (x, calls₂)
                ∧ calls = calls₁ ++ calls₂)) := by
  unfold turn at h
  obtain ⟨pkg_data, hload, h⟩ := bind_eq_ok.mp h
  obtain ⟨⟨found, pkg_size, header_size⟩, hheader, h⟩ := bind_eq_ok.mp h
  refine ⟨pkg_data, found, pkg_size, header_size, hload, hheader, ?_⟩
  dsimp only at h
  cases hcur : s.m_pCurRecvBuffer with
  | none =>
    rw [hcur] at h
    exact .inl ⟨rfl, h⟩
  | some cur =>
    rw [hcur] at h
    dsimp only at h
    refine .inr ⟨cur, rfl, ?_⟩
    split_ifs at h with hlt
    · obtain ⟨s₁, happend, h⟩ := bind_eq_ok.mp h
      obtain ⟨rfl, rfl⟩ := Prod.mk.inj (Except.ok.inj h)
      exact .inl ⟨hlt, rfl, s₁, happend, rfl⟩
    · obtain ⟨⟨s₁, calls₁⟩, hcomplete, h⟩ := bind_eq_ok.mp h
      obtain ⟨⟨x₂, calls₂⟩, hpacket, h⟩ := bind_eq_ok.mp h
      obtain ⟨rfl, rfl⟩ := Prod.mk.inj (Except.ok.inj h)
      exact .inr ⟨hlt, s₁, calls₁, calls₂, hcomplete, hpacket, rfl⟩

end ExtractBuffer

/-- **What `ExtractBuffer` does**: it goes through its loop if there are bytes, and
moves those that are left to the front of the buffer. -/
theorem ExtractBuffer_eq_ok (h : s.ExtractBuffer fresh = .ok (s', calls)) :
    (s.m_dwDataLen = 0 ∧ s' = s ∧ calls = [])
      ∨ s.m_dwDataLen ≠ 0 ∧ ∃ s₁ m_pRecvBuf,
        whileTrue (ExtractBuffer.turn fresh) (s.m_dwDataLen + 1) s = .ok (s₁, calls)
          ∧ s' = { s₁ with m_pRecvBuf, m_pBufPos := 0 } := by
  unfold ExtractBuffer at h
  split_ifs at h with hzero
  · obtain ⟨rfl, rfl⟩ := Prod.mk.inj (Except.ok.inj h)
    exact .inl ⟨hzero, rfl, rfl⟩
  · obtain ⟨⟨s₁, calls₁⟩, hloop, h⟩ := bind_eq_ok.mp h
    dsimp only at h
    split_ifs at h
    · obtain ⟨src, -, h⟩ := bind_eq_ok.mp h
      obtain ⟨b, -, h⟩ := bind_eq_ok.mp h
      obtain ⟨rfl, rfl⟩ := Prod.mk.inj (Except.ok.inj h)
      exact .inr ⟨hzero, s₁, b, hloop, rfl⟩
    · obtain ⟨rfl, rfl⟩ := Prod.mk.inj (Except.ok.inj h)
      exact .inr ⟨hzero, s₁, s₁.m_pRecvBuf, hloop, rfl⟩

end Inversion

section Events

-- the verdict of the handshake parser on the bytes of a request
variable (CheckHttpPackkage : List UInt8 → Bool)

/-- `CNetSession::RetHttpHandlerPackkage`, as far as receiving goes: asking a
socket that is closed for its remote endpoint throws, and otherwise the
response is queued and the call succeeds. -/
def RetHttpHandlerPackkage (s : CNetSession) : Except Fault Bool :=
  if s.m_hSocket then .ok true else .error .thrown

/-- `CNetSession::HandleRecvEvent`, after `dwBytes` bytes have been
received. -/
def HandleRecvEvent (fresh : ℕ → UInt8) (dwBytes : ℕ) (s : CNetSession) :
    Except Fault (CNetSession × List SessionCall) := do
  let s := { s with m_dwDataLen := (s.m_dwDataLen + dwBytes) % 2 ^ 32 }
  if 0 = s.m_dwDataLen then
    return (s, [])
  if ¬ s.m_IsHandler then
    let request ← s.m_pRecvBuf.load s.m_pBufPos s.m_dwDataLen
    if ¬ CheckHttpPackkage request then
      return ← s.Close
    if ¬ (← s.RetHttpHandlerPackkage) then
      return (s, [])
    let s := { s with m_dwDataLen := 0, m_IsHandler := true }
    return (s, ← s.DoReceive)
  else
    let (s, calls) ← ExtractBuffer fresh s
    return (s, calls ++ (← s.DoReceive))

/-- `CNetSession::HandReaddata` without an error: the socket has written the
bytes of the read behind those that were there. -/
def HandReaddata (r : Read) (s : CNetSession) :
    Except Fault (CNetSession × List SessionCall) := do
  let m_pRecvBuf ← s.m_pRecvBuf.store s.m_dwDataLen r.data
  HandleRecvEvent CheckHttpPackkage r.fresh r.data.length { s with m_pRecvBuf }

/-- **The reads a session can be given**: some bytes that fit the window
`async_read_some` was offered, or none where that window is empty, as long as
the socket is open. After `Close` nothing is received any more. -/
def Offers (s : CNetSession) (r : Read) : Prop :=
  s.m_hSocket = true ∧ r.data.length ≤ RECV_BUF_SIZE - s.m_dwDataLen
    ∧ (r.data = [] → s.m_dwDataLen = RECV_BUF_SIZE)

/-- **The session as a machine**: it reads what the socket receives and makes
its calls. -/
def Receives : Machine CNetSession Read SessionCall :=
  fun s r calls s' =>
    s.Offers r ∧ HandReaddata CheckHttpPackkage r s = .ok (s', calls)

end Events

end CNetSession
