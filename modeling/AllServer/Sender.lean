import AllServer.DataBuffer
import AllServer.Util.Endian
import AllServer.Util.Run

/-!
# The send path of a session

What is to be sent is built in a data buffer and pushed to the session's
`lockfree_queue`: on the main thread by `SendMessageData`, which then posts
`DoSend` to the I/O thread, and on the I/O thread by the handshake, which then
calls it. `DoSend` pops buffer after buffer, copies each one to an array on
its stack, and asks for a write of that array. The write is carried out by the
socket later, in pieces as large as the socket likes; when all of it has been
written, `HandWritedata` calls `DoSend` again.

`async_write` keeps a pointer to the array and no copy of it. So what a piece
of a write consists of is what the array holds when the socket takes it, and
nothing that can be relied upon once the call of `DoSend` that owns the array
has returned.

The sum `nSendSize`, the buffer `pSendedBuf` and the output to the console do
not have an effect on what is sent; of the three only the allocation is kept.
-/

/-- `PacketHeader`. -/
structure PacketHeader where
  CheckCode : UInt32
  dwMsgID : UInt32
  dwSize : UInt32
  dwPacketNo : UInt32
  u64TargetID : UInt64
  dwUserData : UInt32

namespace PacketHeader

/-- The header as it lies in memory: packed, and little-endian. -/
def bytes (h : PacketHeader) : List UInt8 :=
  Endian.le 4 h.CheckCode.toNat ++ Endian.le 4 h.dwMsgID.toNat
    ++ Endian.le 4 h.dwSize.toNat ++ Endian.le 4 h.dwPacketNo.toNat
    ++ Endian.le 8 h.u64TargetID.toNat ++ Endian.le 4 h.dwUserData.toNat

/-- `sizeof(PacketHeader)` is `HEADER_LEN`. -/
@[simp] theorem length_bytes (h : PacketHeader) : h.bytes.length = HEADER_LEN := by
  unfold bytes HEADER_LEN
  simp only [List.length_append, Endian.length_le]

end PacketHeader

/-- **A message to send**: the arguments of `SendMessageData`, and the bytes
that are in the data buffer allocated for it. -/
structure Message where
  dwMsgID : UInt32
  u64TargetID : UInt64
  dwUserData : UInt32
  /-- The `dwLen` bytes at `pData`. -/
  pData : List UInt8
  fresh : ℕ → UInt8

/-- A message without a body. -/
def Message.empty : Message := ⟨1, 0, 0, [], fun _ => 0⟩

namespace CDataBuffer

variable {n : ℕ}

/-- `CopyTo`. Where the destination is said to be too small it does
nothing. -/
def CopyTo (b : CDataBuffer) (pDestBuf : MemBlock UInt8 n) (dwDestLen : ℕ) :
    Except Fault (MemBlock UInt8 n × ℕ) := do
  if dwDestLen < b.GetTotalLenth then
    return (pDestBuf, 0)
  let src ← b.m_Buffer.load 0 b.GetTotalLenth
  let pDestBuf ← pDestBuf.store 0 src
  return (pDestBuf, dwDestLen)

/-- **A buffer of the pool with what was put in it.** There is room for all of
it, and for more unless it is very long. -/
structure Fits (b : CDataBuffer) : Prop where
  le_size : b.GetTotalLenth ≤ b.m_nBufSize
  lt_size : b.GetTotalLenth < MAX_PKG_SIZE → b.GetTotalLenth < b.m_nBufSize

/-- **A copy that succeeds** stays in its buffer, and leaves the source behind
what is in front of it. -/
theorem memcpy_eq_ok {b b' : CDataBuffer} {off : ℕ} {src : List UInt8}
    (h : b.memcpy off src = .ok b') :
    off + src.length ≤ b.m_nBufSize ∧ b'.m_nBufSize = b.m_nBufSize
      ∧ b'.GetTotalLenth = b.GetTotalLenth
      ∧ b'.m_Buffer.slice 0 (off + src.length) = b.m_Buffer.slice 0 off ++ src := by
  unfold memcpy at h
  obtain ⟨m_Buffer, hstore, h⟩ := bind_eq_ok.mp h
  obtain rfl := Except.ok.inj h
  by_cases hle : off + src.length ≤ b.m_nBufSize
  · rw [MemBlock.store_eq_ok _ hle] at hstore
    obtain rfl := Except.ok.inj hstore
    exact ⟨hle, rfl, rfl, b.m_Buffer.slice_zero_patch off src hle⟩
  · unfold MemBlock.store at hstore
    rw [dif_neg hle] at hstore
    exact nomatch hstore

/-- A copy that stays in its buffer succeeds. -/
theorem exists_memcpy {b : CDataBuffer} {off : ℕ} {src : List UInt8}
    (h : off + src.length ≤ b.m_nBufSize) : ∃ b', b.memcpy off src = .ok b' := by
  unfold memcpy
  rw [MemBlock.store_eq_ok _ h]
  exact ⟨_, rfl⟩

/-- **Copying all that is in use succeeds** exactly where there is room for
it, and puts it at the front. -/
theorem CopyTo_eq {b : CDataBuffer} (hb : b.Fits) (pDestBuf : MemBlock UInt8 n) :
    b.CopyTo pDestBuf b.GetTotalLenth
      = if h : 0 + b.content.length ≤ n then
          .ok (pDestBuf.patch 0 b.content h, b.GetTotalLenth)
        else .error .store := by
  have hload : b.m_Buffer.load 0 b.GetTotalLenth = .ok b.content :=
    b.m_Buffer.load_eq_ok (by rw [Nat.zero_add]; exact hb.le_size)
  unfold CopyTo
  rw [if_neg (Nat.lt_irrefl _), hload, ok_bind]
  unfold MemBlock.store
  split_ifs <;> rfl

end CDataBuffer

/-! ## Building what is sent -/

/-- The header that `SendMessageData` writes. -/
def Message.pHeader (m : Message) : PacketHeader where
  CheckCode := 0x99
  dwUserData := m.dwUserData
  u64TargetID := m.u64TargetID
  dwSize := UInt32.ofNat (m.pData.length + HEADER_LEN)
  dwMsgID := m.dwMsgID
  dwPacketNo := 1

/-- `CNetManager::SendMessageData`, up to the point where the buffer is
sent. -/
def CNetManager.messageBuffer (m : Message) : Except Fault CDataBuffer := do
  let pDataBuffer := AllocDataBuff m.fresh (toInt (m.pData.length + HEADER_LEN))
  let pDataBuffer ← pDataBuffer.memcpy 0 m.pHeader.bytes
  let pDataBuffer ← pDataBuffer.memcpy HEADER_LEN m.pData
  return pDataBuffer.SetTotalLenth m.pHeader.dwSize.toNat

/-- `CNetSession::RetHttpHandlerPackkage`, from the response in
`accept_buffer` to the buffer it is queued in. -/
def CNetSession.responseBuffer (fresh : ℕ → UInt8) (buffer : List UInt8) :
    Except Fault CDataBuffer := do
  let nLen := buffer.length
  let pwebDataBuffer := (AllocDataBuff fresh (toInt nLen)).SetTotalLenth nLen
  pwebDataBuffer.memcpy 0 buffer

/-- No buffer of the pool is larger than those of `m_BufferManagerAny`. -/
theorem managerSize_le (nSize : ℤ) : managerSize nSize ≤ 10 * 1024 * 1014 := by
  have hall : ∀ SIZE ∈ managerSizes ++ [10 * 1024 * 1014], SIZE ≤ 10 * 1024 * 1014 := by decide
  exact hall _ (managerSize_mem_append nSize)

/-- **A packet that is built fits its buffer**, and what is in use is the
header and the message. -/
theorem CNetManager.fits_of_messageBuffer {m : Message} {b : CDataBuffer}
    (h : messageBuffer m = .ok b) :
    b.Fits ∧ b.GetTotalLenth = HEADER_LEN + m.pData.length
      ∧ b.content = m.pHeader.bytes ++ m.pData := by
  unfold messageBuffer at h
  obtain ⟨b₁, hb₁, h⟩ := bind_eq_ok.mp h
  obtain ⟨b₂, hb₂, h⟩ := bind_eq_ok.mp h
  obtain ⟨-, hsize₁, -, hslice₁⟩ := CDataBuffer.memcpy_eq_ok hb₁
  obtain ⟨hle, hsize₂, -, hslice₂⟩ := CDataBuffer.memcpy_eq_ok hb₂
  rw [m_nBufSize_AllocDataBuff] at hsize₁
  rw [PacketHeader.length_bytes, Nat.zero_add, MemBlock.slice_zero, List.nil_append] at hslice₁
  rw [hslice₁] at hslice₂
  have hmax := managerSize_le (toInt (m.pData.length + HEADER_LEN))
  have hbuf : b.m_nBufSize = managerSize (toInt (m.pData.length + HEADER_LEN)) := by
    rw [← Except.ok.inj h, ← hsize₁, ← hsize₂]
    rfl
  have htotal : b.GetTotalLenth = HEADER_LEN + m.pData.length := by
    rw [← Except.ok.inj h]
    show (UInt32.ofNat (m.pData.length + HEADER_LEN)).toNat = _
    have hlt : m.pData.length + HEADER_LEN < 2 ^ 32 := by omega
    rw [UInt32.toNat_ofNat', Nat.mod_eq_of_lt hlt, Nat.add_comm]
  refine ⟨⟨by omega, fun hlt => ?_⟩, htotal, ?_⟩
  · have hlt' := lt_m_nBufSize_AllocDataBuff m.fresh hlt
    rwa [m_nBufSize_AllocDataBuff, htotal, Nat.add_comm, ← hbuf, Nat.add_comm, ← htotal] at hlt'
  · rw [← hslice₂, ← htotal, ← Except.ok.inj h]
    rfl

/-- **A message is built exactly where it fits** the buffer that is allocated
for it. -/
theorem CNetManager.messageBuffer_eq_ok_iff {m : Message} :
    (∃ b, messageBuffer m = .ok b)
      ↔ m.pData.length + HEADER_LEN ≤ managerSize (toInt (m.pData.length + HEADER_LEN)) := by
  unfold messageBuffer
  rw [← m_nBufSize_AllocDataBuff m.fresh]
  generalize AllocDataBuff m.fresh (toInt (m.pData.length + HEADER_LEN)) = a
  have hlen := m.pHeader.length_bytes
  constructor
  · rintro ⟨b, h⟩
    obtain ⟨b₁, hb₁, h⟩ := bind_eq_ok.mp h
    obtain ⟨b₂, hb₂, -⟩ := bind_eq_ok.mp h
    obtain ⟨-, hsize, -⟩ := CDataBuffer.memcpy_eq_ok hb₁
    obtain ⟨hle, -⟩ := CDataBuffer.memcpy_eq_ok hb₂
    omega
  · intro h
    obtain ⟨b₁, hb₁⟩ := CDataBuffer.exists_memcpy
      (show 0 + m.pHeader.bytes.length ≤ a.m_nBufSize by omega)
    obtain ⟨-, hsize, -⟩ := CDataBuffer.memcpy_eq_ok hb₁
    obtain ⟨b₂, hb₂⟩ := b₁.exists_memcpy
      (show HEADER_LEN + m.pData.length ≤ b₁.m_nBufSize by omega)
    exact ⟨_, bind_eq_ok.mpr ⟨b₁, hb₁, bind_eq_ok.mpr ⟨b₂, hb₂, rfl⟩⟩⟩

/-- **A message that is not too long is built.** -/
theorem CNetManager.exists_messageBuffer {m : Message}
    (h : m.pData.length + HEADER_LEN < MAX_PKG_SIZE) : ∃ b, messageBuffer m = .ok b := by
  have hlt := lt_m_nBufSize_AllocDataBuff m.fresh h
  rw [m_nBufSize_AllocDataBuff] at hlt
  exact messageBuffer_eq_ok_iff.mpr hlt.le

/-- **A response is queued** in a buffer that holds it and nothing else. -/
theorem CNetSession.responseBuffer_eq_ok (fresh : ℕ → UInt8) (buffer : List UInt8)
    (h : buffer.length < MAX_PKG_SIZE) :
    ∃ b : CDataBuffer, responseBuffer fresh buffer = .ok b
      ∧ b.Fits ∧ b.content = buffer := by
  have hlt := lt_m_nBufSize_AllocDataBuff fresh h
  rw [m_nBufSize_AllocDataBuff] at hlt
  have hdef : responseBuffer fresh buffer = ((AllocDataBuff fresh
      (toInt buffer.length)).SetTotalLenth buffer.length).memcpy 0 buffer := rfl
  rw [hdef]
  have hsize : ((AllocDataBuff fresh (toInt buffer.length)).SetTotalLenth
      buffer.length).m_nBufSize = managerSize (toInt buffer.length) := by
    rw [CDataBuffer.m_nBufSize_SetTotalLenth, m_nBufSize_AllocDataBuff]
  have hlen := (AllocDataBuff fresh (toInt buffer.length)).GetTotalLenth_SetTotalLenth
    buffer.length
  generalize (AllocDataBuff fresh (toInt buffer.length)).SetTotalLenth buffer.length = a
    at hsize hlen
  cases hb : a.memcpy 0 buffer with
  | error f =>
    unfold CDataBuffer.memcpy at hb
    rw [MemBlock.store_eq_ok _ (by omega)] at hb
    exact nomatch hb
  | ok b =>
    obtain ⟨-, hsize', hlen', hslice⟩ := CDataBuffer.memcpy_eq_ok hb
    rw [hlen] at hlen'
    rw [hsize] at hsize'
    rw [MemBlock.slice_zero, List.nil_append, Nat.zero_add, ← hlen'] at hslice
    exact ⟨b, rfl, ⟨by omega, fun _ => by omega⟩, hslice⟩

/-! ## The machine -/

/-- The capacity of `lockfree_queue`. -/
def QUEUE_CAPACITY : ℕ := 40000

/-- A call of `DoSend` that is under way: its local variables. -/
structure DoSendCall where
  /-- The buffer popped last. -/
  pBuffer : Option CDataBuffer
  buf : MemBlock UInt8 1024

/-- **A write that has been asked for** and whose handler has not been called
yet. -/
structure AsyncWrite where
  /-- The buffer it is for. -/
  pBuffer : CDataBuffer
  /-- The call of `DoSend` whose array it was given. -/
  call : ℕ
  /-- How many bytes of that array. -/
  size : ℕ
  /-- How many of them the socket has taken. -/
  written : ℕ

/-- **A session**, as far as sending goes. -/
structure Sender where
  /-- The queue, its front first. -/
  lockfree_queue : List CDataBuffer
  /-- How many posted executions of `DoSend` have not begun. -/
  posted : ℕ
  /-- How many calls of `DoSend` have begun. -/
  calls : ℕ
  /-- The last of them, while it is under way. -/
  running : Option DoSendCall
  /-- The writes that are outstanding, oldest first. -/
  writes : List AsyncWrite

/-- A step of the send path. -/
inductive SendEvent where
  /-- `SendMessageData`, on the main thread. -/
  | SendMessageData (m : Message)
  /-- `RetHttpHandlerPackkage` queues a response and calls `DoSend`. -/
  | response (fresh : ℕ → UInt8) (buffer : List UInt8)
  /-- A posted `DoSend` begins. -/
  | run
  /-- `DoSend` pops, and goes through its loop. -/
  | iterate
  /-- `DoSend` finds the queue empty and returns. -/
  | finish
  /-- The socket takes the next `n` bytes of the `i`-th outstanding write. -/
  | write_some (i n : ℕ)
  /-- `HandWritedata` is called for the `i`-th outstanding write. -/
  | HandWritedata (i : ℕ) (error : Bool)

/-- What the send path calls. -/
inductive SendCall where
  | AllocDataBuff (nSize : ℤ)
  /-- `lockfree_queue.push`, and whether it succeeds. -/
  | push (pBuff : CDataBuffer) (ok : Bool)
  /-- `async_write` for a buffer, and the bytes that it is handed. -/
  | async_write (pBuffer : CDataBuffer) (data : List UInt8)
  /-- A copy that runs over the array of `DoSend`. -/
  | overrun (pBuffer : CDataBuffer)
  /-- The bytes that the socket takes, where the array is still there. -/
  | write_some (w : AsyncWrite) (n : ℕ) (data : Option (List UInt8))

namespace Sender

/-- A session that has not sent anything. -/
def new : Sender := ⟨[], 0, 0, none, []⟩

/-- `lockfree_queue.push`. -/
def push (pBuff : CDataBuffer) (s : Sender) : Sender × Bool :=
  if s.lockfree_queue.length < QUEUE_CAPACITY then
    ({ s with lockfree_queue := s.lockfree_queue ++ [pBuff] }, true)
  else (s, false)

/-- A push touches the queue only. -/
theorem push_frame (b : CDataBuffer) (s : Sender) :
    (s.push b).1.calls = s.calls ∧ (s.push b).1.running = s.running
      ∧ (s.push b).1.writes = s.writes := by
  unfold push
  split_ifs <;> exact ⟨rfl, rfl, rfl⟩

/-- `CNetManager::SendMessageData`, from `SendBuffer` on: `DoSend` is posted if
the push has succeeded. -/
def SendMessageData (pBuff : CDataBuffer) (s : Sender) : Sender :=
  if (s.push pBuff).2 then { (s.push pBuff).1 with posted := s.posted + 1 }
  else (s.push pBuff).1

/-- So does a message, but for what it posts. -/
theorem SendMessageData_frame (b : CDataBuffer) (s : Sender) :
    (s.SendMessageData b).lockfree_queue = (s.push b).1.lockfree_queue
      ∧ (s.SendMessageData b).calls = s.calls ∧ (s.SendMessageData b).running = s.running
      ∧ (s.SendMessageData b).writes = s.writes := by
  obtain ⟨hcalls, hrunning, hwrites⟩ := s.push_frame b
  unfold SendMessageData
  split_ifs <;> exact ⟨rfl, hcalls, hrunning, hwrites⟩

/-- A message for which there is room is pushed, and `DoSend` is posted. -/
theorem SendMessageData_of_room {b : CDataBuffer} {s : Sender}
    (h : s.lockfree_queue.length < QUEUE_CAPACITY) :
    s.SendMessageData b
      = { s with lockfree_queue := s.lockfree_queue ++ [b], posted := s.posted + 1 } := by
  unfold SendMessageData push
  rw [if_pos h, if_pos rfl]

/-- A message for which there is none is lost. -/
theorem SendMessageData_of_full {b : CDataBuffer} {s : Sender}
    (h : QUEUE_CAPACITY ≤ s.lockfree_queue.length) : s.SendMessageData b = s := by
  unfold SendMessageData push
  rw [if_neg (Nat.not_lt.mpr h), if_neg Bool.false_ne_true]

/-- `CNetSession::DoSend` begins. -/
def begin (s : Sender) : Sender :=
  { s with
    calls := s.calls + 1
    running := some ⟨none, MemBlock.ofFn (fun _ => 0) 1024⟩ }

/-- `CNetSession::DoSend`, one turn of the loop on a buffer it has popped: its
content is copied to `buf`, and a write of `buf` is asked for, of as many
bytes as the buffer has room for and `buf` has. -/
def iterate (pBuffer : CDataBuffer) (call : DoSendCall) : Except Fault (DoSendCall × ℕ) := do
  let (buf, _) ← pBuffer.CopyTo call.buf pBuffer.GetTotalLenth
  return (⟨some pBuffer, buf⟩, min 1024 pBuffer.m_nBufSize)

/-- **What the array of a write holds**, if the call of `DoSend` that owns it
has not returned. -/
def taken (s : Sender) (w : AsyncWrite) (n : ℕ) : Option (List UInt8) :=
  match s.running with
  | some call => if w.call = s.calls then some (call.buf.slice w.written n) else none
  | none => none

/-- **The send path as a machine.** The I/O thread runs one handler at a time;
the main thread and the socket take their steps whenever they like. A message
that does not fit the buffer `SendMessageData` allocates for it is left out,
and what comes after an overrun is not the program's doing: here the call ends
with it. -/
inductive Step : Machine Sender SendEvent SendCall
  | SendMessageData {s : Sender} {m : Message} {b : CDataBuffer} :
      CNetManager.messageBuffer m = .ok b →
      Step s (.SendMessageData m)
        [.AllocDataBuff (toInt (m.pData.length + HEADER_LEN)), .push b (s.push b).2]
        (s.SendMessageData b)
  | response {s : Sender} {fresh : ℕ → UInt8} {buffer : List UInt8} {b : CDataBuffer} :
      s.running = none → buffer.length < 256 →
      CNetSession.responseBuffer fresh buffer = .ok b →
      Step s (.response fresh buffer)
        [.AllocDataBuff (toInt buffer.length), .push b (s.push b).2]
        (s.push b).1.begin
  | run {s : Sender} {n : ℕ} :
      s.running = none → s.posted = n + 1 →
      Step s .run [] { s with posted := n }.begin
  | iterate {s : Sender} {call call' : DoSendCall} {b : CDataBuffer} {rest : List CDataBuffer}
      {size : ℕ} :
      s.running = some call → s.lockfree_queue = b :: rest →
      iterate b call = .ok (call', size) →
      Step s .iterate
        [.AllocDataBuff RECV_BUF_SIZE, .async_write b (call'.buf.slice 0 size)]
        { s with
          lockfree_queue := rest
          running := some call'
          writes := s.writes ++ [⟨b, s.calls, size, 0⟩] }
  | overrun {s : Sender} {call : DoSendCall} {b : CDataBuffer} {rest : List CDataBuffer}
      {f : Fault} :
      s.running = some call → s.lockfree_queue = b :: rest → iterate b call = .error f →
      Step s .iterate [.AllocDataBuff RECV_BUF_SIZE, .overrun b]
        { s with lockfree_queue := rest, running := none }
  | finish {s : Sender} {call : DoSendCall} :
      s.running = some call → s.lockfree_queue = [] →
      Step s .finish [] { s with running := none }
  | write_some {s : Sender} {i n : ℕ} {w : AsyncWrite} :
      s.writes[i]? = some w → 0 < n → w.written + n ≤ w.size →
      Step s (.write_some i n) [.write_some w n (s.taken w n)]
        { s with writes := s.writes.set i { w with written := w.written + n } }
  | HandWritedata {s : Sender} {i : ℕ} {error : Bool} {w : AsyncWrite} :
      s.running = none → s.writes[i]? = some w → (error = false → w.written = w.size) →
      Step s (.HandWritedata i error) []
        (if error then { s with writes := s.writes.eraseIdx i }
          else { s with writes := s.writes.eraseIdx i }.begin)

end Sender
