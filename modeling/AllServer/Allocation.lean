import AllServer.CNetSession

/-!
# What a read allocates

`ExtractBuffer` asks `AllocDataBuff` for a buffer in front of each packet that
it hands over or begins to collect. `CNetSession.allocs` is the sizes that it
asks for in a read, taken from the same code. No buffer gets lost on the way: as
many are handed over, or are being collected afterwards, as were allocated or
have been collected before (`HandReaddata_allocs`).
-/

/-- How many buffers a call hands over. -/
def SessionCall.buffers : SessionCall → ℕ
  | .OnDataHandle _ _ _ => 1
  | .OnCloseConnect _ => 0
  | .async_read_some _ _ => 0

namespace CNetSession

/-- How many buffers a session is collecting a packet in. -/
def collecting (s : CNetSession) : ℕ := s.m_pCurRecvBuffer.toList.length

/-! ## The sizes that are asked for -/

namespace ExtractBuffer

/-- `ExtractBuffer`, from the comparison with `MAX_PKG_SIZE` on. -/
def packetAllocs (dwPacketSize : ℕ) (s : CNetSession) : List ℤ :=
  if dwPacketSize ≥ MAX_PKG_SIZE then []
  else if dwPacketSize > s.m_dwDataLen ∧ dwPacketSize < RECV_BUF_SIZE then []
  else [toInt dwPacketSize]

/-- One turn of the loop of `ExtractBuffer`. -/
def turnAllocs (s : CNetSession) : Except Fault (List ℤ) := do
  let pkg_data ← s.m_pRecvBuf.load s.m_pBufPos s.m_dwDataLen
  let (_, pkg_size, header_size) ← CHttpParser.recv_ws_header pkg_data 0 0
  let dwPacketSize := pkg_size.toUInt32.toNat
  match s.m_pCurRecvBuffer with
  | some cur =>
    if (cur.GetTotalLenth + s.m_dwDataLen) % 2 ^ 32 < s.m_pCurBufferSize then
      return []
    let (s, _) ← complete s cur header_size.toUInt32.toNat
    return packetAllocs dwPacketSize s
  | none => return packetAllocs dwPacketSize s

end ExtractBuffer

/-- The sizes that `ExtractBuffer` asks `AllocDataBuff` for, in order. -/
def ExtractBuffer.allocs (fresh : ℕ → UInt8) (s : CNetSession) : Except Fault (List ℤ) := do
  if s.m_dwDataLen = 0 then
    return []
  let (_, sizes) ← whileTrue (fun s => do
    let (s', _) ← ExtractBuffer.turn fresh s
    return (s', ← ExtractBuffer.turnAllocs s)) (s.m_dwDataLen + 1) s
  return sizes

/-- **The sizes that a read asks `AllocDataBuff` for**, but for the response of
a handshake. -/
def allocs (r : Read) (s : CNetSession) : Except Fault (List ℤ) := do
  let m_pRecvBuf ← s.m_pRecvBuf.store s.m_dwDataLen r.data
  let s := { s with m_pRecvBuf, m_dwDataLen := (s.m_dwDataLen + r.data.length) % 2 ^ 32 }
  if 0 = s.m_dwDataLen then
    return []
  if ¬ s.m_IsHandler then
    return []
  ExtractBuffer.allocs r.fresh s

/-! ## No buffer is lost -/

/-- How many buffers calls hand over. -/
def buffers (calls : List SessionCall) : ℕ := (calls.map SessionCall.buffers).sum

theorem buffers_append (calls calls' : List SessionCall) :
    buffers (calls ++ calls') = buffers calls + buffers calls' := by
  unfold buffers
  rw [List.map_append, List.sum_append]

section NoLoss

variable {s s' : CNetSession} {calls : List SessionCall}
variable {fresh : ℕ → UInt8} {x : ForInStep CNetSession} {dwPacketSize header_size : ℕ}

/-- `Close` hands nothing over, and leaves a packet that is being collected. -/
theorem Close_allocs (h : s.Close = .ok (s', calls)) :
    buffers calls = 0 ∧ s'.m_pCurRecvBuffer = s.m_pCurRecvBuffer := by
  obtain ⟨rfl, rfl⟩ := Close_eq_ok h
  refine ⟨?_, rfl⟩
  split_ifs <;> rfl

namespace ExtractBuffer

/-- A packet that is found when none is being collected: if a buffer is
allocated for it, it is handed over or is collected in. -/
theorem packet_allocs (hcur : s.m_pCurRecvBuffer = none)
    (h : packet fresh dwPacketSize header_size s = .ok (x, calls)) :
    (packetAllocs dwPacketSize s).length = buffers calls + x.value.collecting := by
  have hzero : s.collecting = 0 := by
    rw [collecting, hcur]
    rfl
  unfold packetAllocs
  obtain ⟨hmax, s₁, hclose, rfl⟩ | ⟨hmax, ⟨hwait, rfl, rfl⟩ | ⟨hwait, hpacket⟩⟩ := packet_eq_ok h
  · obtain ⟨hcalls, hkeep⟩ := Close_allocs hclose
    rw [if_pos hmax, hcalls, ForInStep.value_done, collecting, hkeep, hcur]
    rfl
  · rw [if_neg hmax, if_pos hwait, ForInStep.value_done, hzero]
    rfl
  · rw [if_neg hmax, if_neg hwait]
    obtain ⟨b, m_dwDataLen, m_pBufPos, rfl, rfl⟩ | ⟨b, rfl, rfl⟩ := hpacket
    · rw [ForInStep.value_done, collecting, hcur]
      rfl
    · rfl

/-- A packet that is completed is handed over. -/
theorem complete_allocs {cur : CDataBuffer} (h : complete s cur header_size = .ok (s', calls)) :
    buffers calls = 1 ∧ s'.m_pCurRecvBuffer = none := by
  obtain ⟨b, m_dwDataLen, m_pBufPos, rfl, rfl⟩ := complete_eq_ok h
  exact ⟨rfl, rfl⟩

/-- **One turn of the loop** loses no buffer. -/
theorem turn_allocs (h : turn fresh s = .ok (x, calls)) :
    ∃ sizes, turnAllocs s = .ok sizes
      ∧ sizes.length + s.collecting = buffers calls + x.value.collecting := by
  obtain ⟨pkg_data, found, pkg_size, header_size, hload, hheader, hturn⟩ := turn_eq_ok h
  unfold turnAllocs
  rw [hload, ok_bind, hheader, ok_bind]
  dsimp only
  obtain ⟨hcur, hpacket⟩ | ⟨cur, hcur, hturn⟩ := hturn
  · have hzero : s.collecting = 0 := by
      rw [collecting, hcur]
      rfl
    rw [hcur]
    exact ⟨_, rfl, by rw [packet_allocs hcur hpacket, hzero, Nat.add_zero]⟩
  · have hone : s.collecting = 1 := by
      rw [collecting, hcur]
      rfl
    rw [hcur]
    dsimp only
    obtain ⟨hlt, rfl, s₁, happend, rfl⟩
      | ⟨hlt, s₁, calls₁, calls₂, hcomplete, hpacket, rfl⟩ := hturn
    · obtain ⟨b, rfl⟩ := append_eq_ok happend
      rw [if_pos hlt]
      exact ⟨[], rfl, (Nat.zero_add _).trans hone⟩
    · obtain ⟨hcalls, hnone⟩ := complete_allocs hcomplete
      rw [if_neg hlt, hcomplete, ok_bind]
      refine ⟨_, rfl, ?_⟩
      rw [packet_allocs hnone hpacket, buffers_append, hcalls, hone]
      omega

/-- **`ExtractBuffer`** loses no buffer. -/
theorem allocs_eq_ok (h : s.ExtractBuffer fresh = .ok (s', calls)) :
    ∃ sizes, allocs fresh s = .ok sizes
      ∧ sizes.length + s.collecting = buffers calls + s'.collecting := by
  unfold allocs
  obtain ⟨hzero, rfl, rfl⟩ | ⟨hzero, s₁, m_pRecvBuf, hloop, rfl⟩ := ExtractBuffer_eq_ok h
  · rw [if_pos hzero]
    exact ⟨[], rfl, rfl⟩
  · rw [if_neg hzero]
    have hbody : ∀ s x os, turn fresh s = .ok (x, os) → ∃ sizes,
        (do
          let (s', _) ← turn fresh s
          return (s', ← turnAllocs s) : Except Fault (ForInStep CNetSession × List ℤ))
            = .ok (x, sizes)
        ∧ sizes.length + s.collecting = buffers os + x.value.collecting := by
      intro s x os hturn
      obtain ⟨sizes, hsizes, hkept⟩ := turn_allocs hturn
      exact ⟨sizes, bind_eq_ok.mpr ⟨_, hturn, bind_eq_ok.mpr ⟨_, hsizes, rfl⟩⟩, hkept⟩
    obtain ⟨sizes, hloop', hkept⟩ := whileTrue_log buffers_append hbody hloop
    exact ⟨sizes, bind_eq_ok.mpr ⟨_, hloop', rfl⟩, hkept⟩

end ExtractBuffer

/-- `DoReceive` hands nothing over. -/
theorem DoReceive_allocs (h : s.DoReceive = .ok calls) : buffers calls = 0 := by
  obtain ⟨size, rfl⟩ := DoReceive_eq_ok h
  rfl

/-- **A read loses no buffer.** -/
theorem HandReaddata_allocs {CheckHttpPackkage : List UInt8 → Bool} {r : Read}
    (h : HandReaddata CheckHttpPackkage r s = .ok (s', calls)) :
    ∃ sizes, allocs r s = .ok sizes
      ∧ sizes.length + s.collecting = buffers calls + s'.collecting := by
  obtain ⟨m_pRecvBuf, hstore, h⟩ := bind_eq_ok.mp h
  unfold HandleRecvEvent at h
  unfold allocs
  rw [hstore, ok_bind]
  dsimp only at h ⊢
  by_cases hzero : 0 = (s.m_dwDataLen + r.data.length) % 2 ^ 32
  · rw [if_pos hzero] at h ⊢
    obtain ⟨rfl, rfl⟩ := Prod.mk.inj (Except.ok.inj h)
    exact ⟨[], rfl, rfl⟩
  · rw [if_neg hzero] at h ⊢
    by_cases hhandler : ¬ s.m_IsHandler = true
    · -- the handshake
      rw [if_pos hhandler] at h ⊢
      refine ⟨[], rfl, ?_⟩
      obtain ⟨request, -, h⟩ := bind_eq_ok.mp h
      by_cases hcheck : ¬ CheckHttpPackkage request = true
      · rw [if_pos hcheck] at h
        obtain ⟨hcalls, hkeep⟩ := Close_allocs h
        rw [hcalls, collecting, collecting, hkeep]
        rfl
      · rw [if_neg hcheck] at h
        obtain ⟨ok, -, h⟩ := bind_eq_ok.mp h
        by_cases hok : ¬ ok = true
        · rw [if_pos hok] at h
          obtain ⟨rfl, rfl⟩ := Prod.mk.inj (Except.ok.inj h)
          rfl
        · rw [if_neg hok] at h
          obtain ⟨calls₁, hreceive, h⟩ := bind_eq_ok.mp h
          obtain ⟨rfl, rfl⟩ := Prod.mk.inj (Except.ok.inj h)
          rw [DoReceive_allocs hreceive]
          rfl
    · rw [if_neg hhandler] at h ⊢
      obtain ⟨⟨s₁, calls₁⟩, hextract, h⟩ := bind_eq_ok.mp h
      obtain ⟨calls₂, hreceive, h⟩ := bind_eq_ok.mp h
      obtain ⟨rfl, rfl⟩ := Prod.mk.inj (Except.ok.inj h)
      obtain ⟨sizes, hsizes, hkept⟩ := ExtractBuffer.allocs_eq_ok hextract
      refine ⟨sizes, hsizes, ?_⟩
      rw [buffers_append, DoReceive_allocs hreceive, Nat.add_zero]
      exact hkept

end NoLoss

end CNetSession
