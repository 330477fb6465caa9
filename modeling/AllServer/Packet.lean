import AllServer.Sender
import AllServer.Util.Packed

/-!
# Packets

`SendMessageData` writes a header into a buffer through a pointer to a packed
`PacketHeader`, one field after another and not in the order in which they are
declared, and copies the message behind it. A receiver has the same pointer for
the header, but finds the message at `GetData()`, which is the start of the
buffer plus the literal `HEADER_LEN`, and takes `GetBodyLenth()` for its length.

The fields are written one by one in `packetBuffer`, which is the same buffer as
the one that the send path sends (`CNetManager.packetBuffer_eq`). A receiver
that reads it gets what was sent (`CNetManager.packet_round_trip`).
-/

namespace PacketHeader

/-- The fields of a header. -/
inductive Field where
  | CheckCode | dwMsgID | dwSize | dwPacketNo | u64TargetID | dwUserData
  deriving DecidableEq

/-- `struct PacketHeader` under `#pragma pack(1)`. -/
def layout : Packed Field where
  fields := [.CheckCode, .dwMsgID, .dwSize, .dwPacketNo, .u64TargetID, .dwUserData]
  nodup := by decide
  size
    | .u64TargetID => 8
    | _ => 4

@[simp] theorem mem_fields (f : Field) : f ∈ layout.fields := by
  cases f <;> decide

/-- **`HEADER_LEN` is `sizeof(PacketHeader)`.** -/
theorem sizeof_layout : layout.sizeof = HEADER_LEN := rfl

/-- The value of a field. -/
def value (h : PacketHeader) : Field → ℕ
  | .CheckCode => h.CheckCode.toNat
  | .dwMsgID => h.dwMsgID.toNat
  | .dwSize => h.dwSize.toNat
  | .dwPacketNo => h.dwPacketNo.toNat
  | .u64TargetID => h.u64TargetID.toNat
  | .dwUserData => h.dwUserData.toNat

/-- The bytes of a field. -/
def segment (h : PacketHeader) (f : Field) : List UInt8 :=
  Endian.le (layout.size f) (h.value f)

theorem length_segment (h : PacketHeader) : ∀ f ∈ layout.fields,
    (h.segment f).length = layout.size f :=
  fun _ _ => Endian.length_le _ _

/-- A field has room for its values. -/
theorem val_segment (h : PacketHeader) (f : Field) : Endian.val (h.segment f) = h.value f := by
  rw [segment, Endian.val_le]
  apply Nat.mod_eq_of_lt
  cases f with
  | u64TargetID => exact h.u64TargetID.toNat_lt
  | CheckCode => exact h.CheckCode.toNat_lt
  | dwMsgID => exact h.dwMsgID.toNat_lt
  | dwSize => exact h.dwSize.toNat_lt
  | dwPacketNo => exact h.dwPacketNo.toNat_lt
  | dwUserData => exact h.dwUserData.toNat_lt

/-- **The header in memory** is its fields, one behind the other. -/
theorem bytes_eq (h : PacketHeader) : h.bytes = layout.fields.flatMap h.segment := by
  simp [bytes, layout, segment, value]

end PacketHeader

open PacketHeader

namespace CDataBuffer

variable {b b' : CDataBuffer} {seg : Field → List UInt8} {rest src : List UInt8} {f : Field}

/-- `pHeader->f = v`. -/
def setField (f : Field) (v : ℕ) (b : CDataBuffer) : Except Fault CDataBuffer :=
  b.memcpy (layout.offset f) (Endian.le (layout.size f) v)

/-- `pHeader->f`. -/
def getField (f : Field) (b : CDataBuffer) : Except Fault ℕ := do
  let bytes ← b.m_Buffer.load (layout.offset f) (layout.size f)
  return Endian.val bytes

/-- The header of a packet, as a receiver reads it at `GetBuffer()`. -/
def readHeader (b : CDataBuffer) : Except Fault PacketHeader := do
  let CheckCode ← b.getField .CheckCode
  let dwMsgID ← b.getField .dwMsgID
  let dwSize ← b.getField .dwSize
  let dwPacketNo ← b.getField .dwPacketNo
  let u64TargetID ← b.getField .u64TargetID
  let dwUserData ← b.getField .dwUserData
  return {
    CheckCode := UInt32.ofNat CheckCode
    dwMsgID := UInt32.ofNat dwMsgID
    dwSize := UInt32.ofNat dwSize
    dwPacketNo := UInt32.ofNat dwPacketNo
    u64TargetID := UInt64.ofNat u64TargetID
    dwUserData := UInt32.ofNat dwUserData }

/-- The body of a packet, as a receiver reads it: `GetBodyLenth()` bytes at
`GetData()`. -/
def readBody (b : CDataBuffer) : Except Fault (List UInt8) :=
  b.m_Buffer.load b.GetData b.GetBodyLenth

/-- Two buffers of one size are the same if their bytes are, and as many of them
are in use. -/
theorem ext_cells (hsize : b.m_nBufSize = b'.m_nBufSize)
    (hcells : b.m_Buffer.cells = b'.m_Buffer.cells) (hlen : b.m_nDataLen = b'.m_nDataLen) :
    b = b' := by
  obtain ⟨n, ⟨cells, hn⟩, len⟩ := b
  obtain ⟨n', ⟨cells', hn'⟩, len'⟩ := b'
  obtain rfl : n = n' := hsize
  obtain rfl : cells = cells' := hcells
  obtain rfl : len = len' := hlen
  rfl

/-- A buffer that begins with a header. -/
def Laid (b : CDataBuffer) (seg : Field → List UInt8) (rest : List UInt8) : Prop :=
  layout.Laid b.m_Buffer seg rest

/-- **Writing a field** of the header. -/
theorem exists_setField (hb : b.Laid seg rest) (f : Field) (v : ℕ) :
    ∃ b', b.setField f v = .ok b' ∧ b'.m_nBufSize = b.m_nBufSize
      ∧ b'.m_nDataLen = b.m_nDataLen
      ∧ b'.Laid (Function.update seg f (Endian.le (layout.size f) v)) rest := by
  obtain ⟨m_Buffer, hstore, hlaid⟩ := Packed.Laid.exists_store_field hb (mem_fields f)
    (Endian.length_le (layout.size f) v)
  exact ⟨{ b with m_Buffer }, bind_eq_ok.mpr ⟨_, hstore, rfl⟩, rfl, rfl, hlaid⟩

/-- **Reading a field** of the header. -/
theorem getField_eq (hb : b.Laid seg rest) (f : Field) :
    b.getField f = .ok (Endian.val (seg f)) := by
  have hfield := layout.offset_add_size_le (mem_fields f)
  have hsize := Packed.Laid.sizeof_add_length hb
  refine bind_eq_ok.mpr ⟨_, b.m_Buffer.load_eq_ok (by omega), ?_⟩
  rw [Packed.Laid.slice_field hb (mem_fields f)]
  rfl

/-- **Reading the header.** -/
theorem readHeader_eq {h : PacketHeader} (hb : b.Laid h.segment rest) :
    b.readHeader = .ok h := by
  unfold readHeader
  simp only [getField_eq hb, val_segment, value, ok_bind, UInt32.ofNat_toNat, UInt64.ofNat_toNat]
  rfl

end CDataBuffer

/-! ## The sender -/

namespace CNetManager

variable {m : Message} {b : CDataBuffer} {seg : Field → List UInt8} {rest : List UInt8}

/-- `CNetManager::SendMessageData`, the assignments to `*pHeader`. -/
def writeHeader (m : Message) (pDataBuffer : CDataBuffer) : Except Fault CDataBuffer := do
  let pDataBuffer ← pDataBuffer.setField .CheckCode 0x99
  let pDataBuffer ← pDataBuffer.setField .dwUserData m.dwUserData.toNat
  let pDataBuffer ← pDataBuffer.setField .u64TargetID m.u64TargetID.toNat
  let pDataBuffer ← pDataBuffer.setField .dwSize
    (UInt32.ofNat (m.pData.length + layout.sizeof)).toNat
  let pDataBuffer ← pDataBuffer.setField .dwMsgID m.dwMsgID.toNat
  pDataBuffer.setField .dwPacketNo 1

/-- `CNetManager::SendMessageData`, up to the point where the buffer is sent, with
the header written field by field. -/
def packetBuffer (m : Message) : Except Fault CDataBuffer := do
  let pDataBuffer := AllocDataBuff m.fresh (toInt (m.pData.length + layout.sizeof))
  let pDataBuffer ← writeHeader m pDataBuffer
  let pDataBuffer ← pDataBuffer.memcpy layout.sizeof m.pData
  let dwSize ← pDataBuffer.getField .dwSize
  return pDataBuffer.SetTotalLenth dwSize

/-- **The assignments give every field its value**, in whatever order they are
made. -/
theorem exists_writeHeader (m : Message) (hb : b.Laid seg rest) :
    ∃ b', writeHeader m b = .ok b' ∧ b'.m_nBufSize = b.m_nBufSize
      ∧ b'.m_nDataLen = b.m_nDataLen ∧ b'.Laid m.pHeader.segment rest := by
  obtain ⟨b₁, h₁, hs₁, hl₁, hb₁⟩ := CDataBuffer.exists_setField hb .CheckCode 0x99
  obtain ⟨b₂, h₂, hs₂, hl₂, hb₂⟩ :=
    CDataBuffer.exists_setField hb₁ .dwUserData m.dwUserData.toNat
  obtain ⟨b₃, h₃, hs₃, hl₃, hb₃⟩ :=
    CDataBuffer.exists_setField hb₂ .u64TargetID m.u64TargetID.toNat
  obtain ⟨b₄, h₄, hs₄, hl₄, hb₄⟩ := CDataBuffer.exists_setField hb₃ .dwSize
    (UInt32.ofNat (m.pData.length + layout.sizeof)).toNat
  obtain ⟨b₅, h₅, hs₅, hl₅, hb₅⟩ := CDataBuffer.exists_setField hb₄ .dwMsgID m.dwMsgID.toNat
  obtain ⟨b₆, h₆, hs₆, hl₆, hb₆⟩ := CDataBuffer.exists_setField hb₅ .dwPacketNo 1
  refine ⟨b₆, ?_, by omega, by omega, ?_⟩
  · unfold writeHeader
    rw [h₁, ok_bind, h₂, ok_bind, h₃, ok_bind, h₄, ok_bind, h₅, ok_bind, h₆]
  · convert hb₆ using 1
    funext f
    cases f <;> rfl

/-- **Field by field or at once**, the header is the same. -/
theorem writeHeader_eq_memcpy (m : Message) (hb : b.Laid seg rest) :
    writeHeader m b = b.memcpy 0 m.pHeader.bytes := by
  obtain ⟨b', hwrite, hsize, hlen, hb'⟩ := exists_writeHeader m hb
  obtain ⟨m_Buffer, hstore, hlaid⟩ :=
    Packed.Laid.exists_store_record hb (length_segment m.pHeader)
  have hmemcpy : b.memcpy 0 m.pHeader.bytes = .ok { b with m_Buffer } := by
    rw [bytes_eq]
    exact bind_eq_ok.mpr ⟨m_Buffer, hstore, rfl⟩
  rw [hwrite, hmemcpy]
  exact congrArg _ (CDataBuffer.ext_cells hsize (hb'.cells.trans hlaid.cells.symm) hlen)

/-- There is room for a header in every buffer of the pool. -/
theorem sizeof_le_managerSize (nSize : ℤ) : layout.sizeof ≤ managerSize nSize := by
  have hall : ∀ SIZE ∈ managerSizes ++ [10 * 1024 * 1014], layout.sizeof ≤ SIZE := by decide
  exact hall _ (managerSize_mem_append nSize)

/-- **The packet is the buffer that the send path sends.** -/
theorem packetBuffer_eq (m : Message) : packetBuffer m = messageBuffer m := by
  have hroom : layout.sizeof ≤ (AllocDataBuff m.fresh
      (toInt (m.pData.length + HEADER_LEN))).m_nBufSize := by
    rw [m_nBufSize_AllocDataBuff]
    exact sizeof_le_managerSize _
  unfold packetBuffer messageBuffer
  rw [sizeof_layout]
  generalize AllocDataBuff m.fresh (toInt (m.pData.length + HEADER_LEN)) = a at hroom ⊢
  obtain ⟨seg, rest, ha⟩ := layout.exists_laid hroom (b := a.m_Buffer)
  obtain ⟨b, hwrite, -, -, hb⟩ := exists_writeHeader m ha
  dsimp only
  rw [← writeHeader_eq_memcpy m ha, hwrite, ok_bind, ok_bind]
  cases hbody : b.memcpy HEADER_LEN m.pData with
  | error f => rfl
  | ok b' =>
    have hsize := Packed.Laid.sizeof_add_length hb
    obtain ⟨hle, -⟩ := CDataBuffer.memcpy_eq_ok hbody
    rw [sizeof_layout] at hsize
    -- the body is behind the header, so `dwSize` is still what was written
    obtain ⟨m_Buffer, hstore, hlaid⟩ :=
      Packed.Laid.exists_store_behind hb (show m.pData.length ≤ rest.length by omega)
    unfold CDataBuffer.memcpy at hbody
    rw [← sizeof_layout, hstore] at hbody
    obtain rfl := Except.ok.inj hbody
    have hlaid : CDataBuffer.Laid { b with m_Buffer } _ _ := hlaid
    rw [ok_bind, ok_bind, CDataBuffer.getField_eq hlaid, val_segment]
    rfl

end CNetManager

/-! ## The receiver -/

/-- **A buffer that holds a packet**: what a receiver reads is the header and the
body, the size in the header is that of the packet, and all of it can be copied
to wherever there is room for it. -/
structure CDataBuffer.Holds (b : CDataBuffer) (h : PacketHeader) (pData : List UInt8) : Prop where
  header : b.readHeader = .ok h
  body : b.readBody = .ok pData
  dwSize : h.dwSize.toNat = b.GetTotalLenth
  content : b.content = h.bytes ++ pData
  copy : ∀ {n : ℕ} (pDestBuf : MemBlock UInt8 n) (dwDestLen : ℕ),
    b.GetTotalLenth ≤ dwDestLen → b.GetTotalLenth ≤ n →
      ∃ pDestBuf', b.CopyTo pDestBuf dwDestLen = .ok (pDestBuf', dwDestLen)
        ∧ pDestBuf'.slice 0 b.GetTotalLenth = b.content

/-- **What is in use is copied** to a destination that has room for it. -/
theorem CDataBuffer.CopyTo_of_le {b : CDataBuffer} {n dwDestLen : ℕ}
    (hb : b.GetTotalLenth ≤ b.m_nBufSize) (pDestBuf : MemBlock UInt8 n)
    (hlen : b.GetTotalLenth ≤ dwDestLen) (hn : b.GetTotalLenth ≤ n) :
    ∃ pDestBuf', b.CopyTo pDestBuf dwDestLen = .ok (pDestBuf', dwDestLen)
      ∧ pDestBuf'.slice 0 b.GetTotalLenth = b.content := by
  have hcontent := length_content hb
  have hload : b.m_Buffer.load 0 b.GetTotalLenth = .ok b.content :=
    b.m_Buffer.load_eq_ok (by rwa [Nat.zero_add])
  obtain ⟨pDestBuf', hstore, hslice⟩ := pDestBuf.exists_store b.content (by rwa [hcontent])
  rw [hcontent] at hslice
  refine ⟨pDestBuf', ?_, hslice⟩
  unfold CopyTo
  rw [if_neg (Nat.not_lt.mpr hlen), hload, ok_bind, hstore, ok_bind]
  rfl

/-- A header in front of a body is read back field by field. -/
theorem CDataBuffer.laid_of_content {b : CDataBuffer} {h : PacketHeader} {pData : List UInt8}
    (hb : b.content = h.bytes ++ pData) :
    b.Laid h.segment (pData ++ b.m_Buffer.cells.drop b.m_nDataLen) := by
  refine ⟨length_segment h, ?_⟩
  have hcells : b.m_Buffer.cells = b.content ++ b.m_Buffer.cells.drop b.m_nDataLen :=
    (List.take_append_drop b.m_nDataLen b.m_Buffer.cells).symm
  rw [hb, bytes_eq, List.append_assoc] at hcells
  exact hcells

/-- **The packet that a message is sent in** holds it. -/
theorem CNetManager.holds_of_messageBuffer {m : Message} {b : CDataBuffer}
    (h : messageBuffer m = .ok b) : b.Holds m.pHeader m.pData := by
  obtain ⟨hfits, htotal, hcontent⟩ := fits_of_messageBuffer h
  have hle := hfits.le_size
  have hlen : m.pHeader.dwSize.toNat = b.GetTotalLenth := by
    obtain ⟨b₁, -, h⟩ := bind_eq_ok.mp h
    obtain ⟨b₂, -, h⟩ := bind_eq_ok.mp h
    rw [← Except.ok.inj h, CDataBuffer.GetTotalLenth_SetTotalLenth]
  have hlt := m.pHeader.dwSize.toNat_lt
  -- the body is where `GetData` says, and as long as `GetBodyLenth` says
  have hbody : b.GetBodyLenth = m.pData.length := by
    have hiff := CDataBuffer.GetBodyLenth_eq_iff (b := b) (by omega)
    have heq := hiff.mpr (by omega)
    rw [htotal] at heq
    exact Nat.add_left_cancel heq
  refine ⟨CDataBuffer.readHeader_eq (CDataBuffer.laid_of_content hcontent), ?_, hlen, hcontent,
    fun pDestBuf dwDestLen h₁ h₂ => CDataBuffer.CopyTo_of_le hle pDestBuf h₁ h₂⟩
  have hload : b.readBody = .ok (b.m_Buffer.slice HEADER_LEN m.pData.length) := by
    unfold CDataBuffer.readBody
    rw [hbody]
    exact b.m_Buffer.load_eq_ok (by rw [CDataBuffer.GetData]; omega)
  have hslice : b.m_Buffer.slice HEADER_LEN m.pData.length = b.content.drop HEADER_LEN := by
    have hdrop := b.m_Buffer.drop_slice 0 HEADER_LEN b.GetTotalLenth
    rw [htotal, Nat.add_sub_cancel_left, Nat.zero_add, ← htotal] at hdrop
    exact hdrop.symm
  rw [hload, hslice, hcontent, ← m.pHeader.length_bytes, List.drop_left]

/-- **The packet round trip.** A message whose packet fits the buffer that is
allocated for it is read back as it was sent; the two descriptions of the layout
agree, and neither two fields nor a field and the body overlap. -/
theorem CNetManager.packet_round_trip (m : Message)
    (h : m.pData.length + layout.sizeof ≤ managerSize (toInt (m.pData.length + layout.sizeof))) :
    (∃ b, packetBuffer m = .ok b ∧ b.Holds m.pHeader m.pData
        ∧ ∀ f, layout.offset f + layout.size f ≤ b.GetData)
      ∧ layout.sizeof = HEADER_LEN
      ∧ ∀ f g, f ≠ g → layout.offset f + layout.size f ≤ layout.offset g
          ∨ layout.offset g + layout.size g ≤ layout.offset f := by
  obtain ⟨b, hb⟩ := messageBuffer_eq_ok_iff.mpr h
  refine ⟨⟨b, (packetBuffer_eq m).trans hb, holds_of_messageBuffer hb, ?_⟩, sizeof_layout, ?_⟩
  · exact fun f => layout.offset_add_size_le (mem_fields f)
  · exact fun f g hne => layout.disjoint (mem_fields f) (mem_fields g) hne

/-- A message of three bytes, in a packet of 31. -/
theorem CNetManager.packet_round_trip_three :
    ∃ b, packetBuffer ⟨7, 1, 2, [1, 2, 3], fun _ => 0⟩ = .ok b
      ∧ b.readHeader = .ok ⟨0x99, 7, 31, 1, 1, 2⟩ ∧ b.readBody = .ok [1, 2, 3] := by
  obtain ⟨⟨b, hb, hholds, -⟩, -⟩ :=
    packet_round_trip ⟨7, 1, 2, [1, 2, 3], fun _ => 0⟩ (by decide)
  exact ⟨b, hb, hholds.header, hholds.body⟩
