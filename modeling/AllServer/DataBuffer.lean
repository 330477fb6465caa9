import AllServer.Util.Memory
import Mathlib.Algebra.Order.Ring.Int
import Mathlib.Data.Int.ModEq

/-!
# Data buffers

`CDataBuffer<SIZE>` is a block of `SIZE` bytes with the length of what is in
use. `CBufferAllocator::AllocDataBuff` hands out a buffer of the smallest size
class above the requested size. What the pool behind it keeps to itself – the
two lists, the reference counts – is not part of the buffer; what a caller can
see is the size of the block and that nothing is in use yet. The bytes of a
new buffer are whatever was in memory, and the parameter `fresh` says what.
-/

/-- `RECV_BUF_SIZE`: the size of a session's receive buffer. -/
def RECV_BUF_SIZE : ℕ := 8192

/-- `MAX_PKG_SIZE`: a packet of this size or more is refused. -/
def MAX_PKG_SIZE : ℕ := (1 <<< 16) - 1

/-- `HEADER_LEN`: where `GetData` looks for the body. -/
def HEADER_LEN : ℕ := 28

theorem RECV_BUF_SIZE_eq : RECV_BUF_SIZE = 8192 := rfl

theorem MAX_PKG_SIZE_eq : MAX_PKG_SIZE = 65535 := rfl

theorem RECV_BUF_SIZE_pos : 0 < RECV_BUF_SIZE := by decide

theorem RECV_BUF_SIZE_lt : RECV_BUF_SIZE < MAX_PKG_SIZE := by decide

theorem MAX_PKG_SIZE_lt : MAX_PKG_SIZE < 2 ^ 32 := by decide

/-- The conversion of a `UINT32` to `int`. -/
def toInt (n : ℕ) : ℤ := (n : ℤ).bmod (2 ^ 32)

theorem toInt_of_lt {n : ℕ} (h : n < 2 ^ 31) : toInt n = n :=
  Int.bmod_eq_of_le (by omega) (by omega)

/-- `CDataBuffer<SIZE>`, for any `SIZE`. -/
structure CDataBuffer where
  /-- `m_nBufSize`, which is `SIZE`. -/
  m_nBufSize : ℕ
  /-- The bytes of the buffer. -/
  m_Buffer : MemBlock UInt8 m_nBufSize
  /-- How many of them are in use. -/
  m_nDataLen : ℕ

namespace CDataBuffer

def GetTotalLenth (b : CDataBuffer) : ℕ := b.m_nDataLen

def SetTotalLenth (b : CDataBuffer) (nPos : ℕ) : CDataBuffer :=
  { b with m_nDataLen := nPos }

@[simp] theorem GetTotalLenth_SetTotalLenth (b : CDataBuffer) (nPos : ℕ) :
    (b.SetTotalLenth nPos).GetTotalLenth = nPos := rfl

@[simp] theorem m_nBufSize_SetTotalLenth (b : CDataBuffer) (nPos : ℕ) :
    (b.SetTotalLenth nPos).m_nBufSize = b.m_nBufSize := rfl

/-- `GetData`, as an offset into the buffer. -/
def GetData (_ : CDataBuffer) : ℕ := HEADER_LEN

/-- `GetBodyLenth`: an unsigned subtraction, which wraps around where less
than a header is in use. -/
def GetBodyLenth (b : CDataBuffer) : ℕ := (b.m_nDataLen + 2 ^ 32 - HEADER_LEN) % 2 ^ 32

/-- `memcpy(GetBuffer() + off, src, …)`. -/
def memcpy (b : CDataBuffer) (off : ℕ) (src : List UInt8) : Except Fault CDataBuffer := do
  let m_Buffer ← b.m_Buffer.store off src
  return { b with m_Buffer }

/-- **The bytes in use**: the first `GetTotalLenth()` bytes of the buffer. -/
def content (b : CDataBuffer) : List UInt8 := b.m_Buffer.slice 0 b.m_nDataLen

theorem length_content {b : CDataBuffer} (h : b.GetTotalLenth ≤ b.m_nBufSize) :
    b.content.length = b.GetTotalLenth :=
  b.m_Buffer.length_slice (by rwa [Nat.zero_add])

/-- **Where a header's worth of bytes is in use, the body is what is behind
it**, and elsewhere its length wraps around. -/
theorem GetBodyLenth_eq_iff {b : CDataBuffer} (h : b.GetTotalLenth < 2 ^ 32) :
    b.GetData + b.GetBodyLenth = b.GetTotalLenth ↔ HEADER_LEN ≤ b.GetTotalLenth := by
  unfold GetTotalLenth at h ⊢
  unfold GetData GetBodyLenth HEADER_LEN
  omega

/-- **Appending to what is in use**: copying behind it, and then counting what
was copied. -/
theorem memcpy_append (b : CDataBuffer) {src : List UInt8}
    (h : b.GetTotalLenth + src.length ≤ b.m_nBufSize) :
    ∃ b' : CDataBuffer, b.memcpy b.GetTotalLenth src = .ok b'
      ∧ b'.m_nBufSize = b.m_nBufSize ∧ b'.GetTotalLenth = b.GetTotalLenth
      ∧ (b'.SetTotalLenth (b.GetTotalLenth + src.length)).content = b.content ++ src := by
  refine ⟨{ b with m_Buffer := b.m_Buffer.patch b.GetTotalLenth src h }, ?_, rfl, rfl, ?_⟩
  · unfold memcpy
    rw [MemBlock.store_eq_ok _ h]
    rfl
  · exact b.m_Buffer.slice_zero_patch b.GetTotalLenth src h

end CDataBuffer

/-- The buffer a `CBufferManager<SIZE>` hands out. -/
def CBufferManager.AllocDataBuff (SIZE : ℕ) (fresh : ℕ → UInt8) : CDataBuffer :=
  { m_nBufSize := SIZE, m_Buffer := MemBlock.ofFn fresh SIZE, m_nDataLen := 0 }

/-- The size classes of `CBufferAllocator`, in the order in which
`AllocDataBuff` compares against them. -/
def managerSizes : List ℕ :=
  [64, 128, 256, 512, 1024, 2048, 4096, 8192, 16384, 32768, 65536]

/-- The `SIZE` of the manager `AllocDataBuff` asks: the first class above the
requested size, or that of `m_BufferManagerAny`. -/
def managerSize (nSize : ℤ) : ℕ :=
  (managerSizes.find? (fun SIZE : ℕ => decide (nSize < (SIZE : ℤ)))).getD
    (10 * 1024 * 1014)

/-- The class of a size is one of them, or that of `m_BufferManagerAny`. -/
theorem managerSize_mem_append (nSize : ℤ) :
    managerSize nSize ∈ managerSizes ++ [10 * 1024 * 1014] := by
  unfold managerSize
  rw [List.mem_append]
  cases h : managerSizes.find? (fun SIZE : ℕ => decide (nSize < (SIZE : ℤ))) with
  | none => exact Or.inr (List.mem_singleton_self _)
  | some SIZE => exact Or.inl (List.mem_of_find?_eq_some h)

/-- `CBufferAllocator::AllocDataBuff`. -/
def AllocDataBuff (fresh : ℕ → UInt8) (nSize : ℤ) : CDataBuffer :=
  CBufferManager.AllocDataBuff (managerSize nSize) fresh

@[simp] theorem GetTotalLenth_AllocDataBuff (fresh : ℕ → UInt8) (nSize : ℤ) :
    (AllocDataBuff fresh nSize).GetTotalLenth = 0 := rfl

@[simp] theorem m_nBufSize_AllocDataBuff (fresh : ℕ → UInt8) (nSize : ℤ) :
    (AllocDataBuff fresh nSize).m_nBufSize = managerSize nSize := rfl

/-- **A packet below the limit gets a buffer with room for it.** -/
theorem lt_m_nBufSize_AllocDataBuff (fresh : ℕ → UInt8) {n : ℕ}
    (h : n < MAX_PKG_SIZE) : n < (AllocDataBuff fresh (toInt n)).m_nBufSize := by
  have hmax : n < 65535 := h
  rw [m_nBufSize_AllocDataBuff, toInt_of_lt (by omega)]
  unfold managerSize
  cases hf : managerSizes.find? (fun SIZE : ℕ => decide ((n : ℤ) < (SIZE : ℤ))) with
  | none =>
    have hlast := List.find?_eq_none.mp hf 65536 (by decide)
    rw [decide_eq_true_eq] at hlast
    omega
  | some SIZE =>
    have hlt := List.find?_some hf
    rw [decide_eq_true_eq] at hlt
    exact Int.ofNat_lt.mp hlt

/-- **Filling a new buffer** with at most as much as was asked for. -/
theorem memcpy_AllocDataBuff (fresh : ℕ → UInt8) {n : ℕ} (hn : n < MAX_PKG_SIZE)
    {src : List UInt8} (hsrc : src.length ≤ n) :
    ∃ b : CDataBuffer, (AllocDataBuff fresh (toInt n)).memcpy 0 src = .ok b
      ∧ n < b.m_nBufSize ∧ (b.SetTotalLenth src.length).content = src := by
  have hlen := GetTotalLenth_AllocDataBuff fresh (toInt n)
  have hsize := lt_m_nBufSize_AllocDataBuff fresh hn
  generalize AllocDataBuff fresh (toInt n) = a at hlen hsize
  obtain ⟨b, hb, hbs, -, hbc⟩ :=
    a.memcpy_append (show a.GetTotalLenth + src.length ≤ a.m_nBufSize by omega)
  rw [hlen] at hb hbc
  rw [Nat.zero_add] at hbc
  have hnone : a.content = [] := by
    show a.m_Buffer.slice 0 a.GetTotalLenth = []
    rw [hlen, MemBlock.slice_zero]
  rw [hnone, List.nil_append] at hbc
  exact ⟨b, hb, hbs ▸ hsize, hbc⟩
