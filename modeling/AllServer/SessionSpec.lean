import AllServer.CNetSession
import AllServer.Framer

/-!
# The receive path does what the framer does

`CNetSession.view` reads a session as a framer: the packet that is being
collected, with the bytes in use of its buffer, and the received bytes from
the cursor on. On a session whose fields fit together (`CNetSession.Held`)
every part of `ExtractBuffer` has one lemma that says that it does not fault
and what it leaves (`append_spec`, `complete_spec`, `packet_spec`). From these
a turn of the loop does to the view what `Framer.extract` does
(`turn_after`), and so does the loop, which ends within two turns
(`loop_after`). What else a caller may want to know about a step is collected
in `CNetSession.After`.
-/

open CHttpParser

/-- The delivery a call makes, if it makes one. -/
def SessionCall.delivery? : SessionCall → Option Delivery
  | .OnDataHandle pDataBuffer header_size _ => some (pDataBuffer.content, header_size)
  | _ => none

/-- **What is delivered** by a sequence of calls. -/
def deliveries (calls : List SessionCall) : List Delivery :=
  calls.filterMap SessionCall.delivery?

/-- The sizes of the windows that the socket is offered by a sequence of
calls. -/
def windows (calls : List SessionCall) : List ℕ :=
  calls.filterMap (fun call => match call with
    | .async_read_some _ size => some size
    | _ => none)

/-- A call of the session with this id, which hands over a buffer only with
all of its bytes in use inside it. -/
def SessionCall.Whole (id : ℕ) : SessionCall → Prop
  | .OnDataHandle pDataBuffer _ nConnID =>
    nConnID = id ∧ pDataBuffer.GetTotalLenth ≤ pDataBuffer.m_nBufSize
  | .OnCloseConnect nConnID => nConnID = id
  | .async_read_some offset size => offset + size = RECV_BUF_SIZE

/-- **What holds of every buffer that is handed over** holds of everything that
is delivered. -/
theorem forall_mem_deliveries {calls : List SessionCall} {id : ℕ}
    (hwhole : ∀ call ∈ calls, call.Whole id) {P : Delivery → Prop} {Q : SessionCall → Prop}
    (hdata : ∀ b h n, b.content.length = b.GetTotalLenth →
      (Q (.OnDataHandle b h n) ↔ P (b.content, h)))
    (hclose : ∀ n, Q (.OnCloseConnect n)) (hread : ∀ off n, Q (.async_read_some off n)) :
    (∀ call ∈ calls, Q call) ↔ ∀ d ∈ deliveries calls, P d := by
  induction calls with
  | nil => simp [deliveries]
  | cons call calls ih =>
    obtain ⟨hcall, hcalls⟩ := List.forall_mem_cons.mp hwhole
    rw [List.forall_mem_cons, ih hcalls, deliveries]
    cases call with
    | OnDataHandle b h n =>
      rw [hdata b h n (CDataBuffer.length_content hcall.2)]
      exact List.forall_mem_cons.symm
    | OnCloseConnect n => exact and_iff_right (hclose n)
    | async_read_some off n => exact and_iff_right (hread off n)

namespace CNetSession

/-- The received bytes from the cursor on: `m_pBufPos[0 .. m_dwDataLen)`. -/
def buffered (s : CNetSession) : List UInt8 :=
  s.m_pRecvBuf.slice s.m_pBufPos s.m_dwDataLen

/-- **The session as the byte stream sees it.** -/
def view (s : CNetSession) : Framer where
  isOpen := s.m_hSocket
  part := s.m_pCurRecvBuffer.map (fun b => (b.content, s.m_pCurBufferSize))
  buf := s.buffered

/-- **What the fields of a session have to do with each other** while its
buffer is extracted. -/
structure Held (s : CNetSession) : Prop where
  /-- The received bytes are inside the receive buffer. -/
  pos_add_le : s.m_pBufPos + s.m_dwDataLen ≤ RECV_BUF_SIZE
  handler : s.m_pDataHandler = true
  /-- The packet being collected is not complete. -/
  cur_lt : ∀ b, s.m_pCurRecvBuffer = some b → b.GetTotalLenth < s.m_pCurBufferSize
  /-- It does not fit the receive buffer. -/
  le_cur : s.m_pCurRecvBuffer ≠ none → RECV_BUF_SIZE ≤ s.m_pCurBufferSize
  cur_lt_max : s.m_pCurRecvBuffer ≠ none → s.m_pCurBufferSize < MAX_PKG_SIZE
  /-- There is room for all of it. -/
  cur_lt_size : ∀ b, s.m_pCurRecvBuffer = some b → s.m_pCurBufferSize < b.m_nBufSize

theorem Held.load_buffered {s : CNetSession} (hs : s.Held) :
    s.m_pRecvBuf.load s.m_pBufPos s.m_dwDataLen = .ok s.buffered :=
  s.m_pRecvBuf.load_eq_ok hs.pos_add_le

theorem Held.length_buffered {s : CNetSession} (hs : s.Held) :
    s.buffered.length = s.m_dwDataLen :=
  s.m_pRecvBuf.length_slice hs.pos_add_le

/-- With no packet being collected, only the cursor matters. -/
theorem Held.of_cur_eq_none {s : CNetSession} (hcur : s.m_pCurRecvBuffer = none)
    (hpos : s.m_pBufPos + s.m_dwDataLen ≤ RECV_BUF_SIZE)
    (hhandler : s.m_pDataHandler = true) : s.Held := by
  have hnone : ∀ {P : CDataBuffer → Prop}, ∀ b, s.m_pCurRecvBuffer = some b → P b := by
    intro P b hb
    rw [hcur] at hb
    exact absurd hb.symm (Option.some_ne_none b)
  exact ⟨hpos, hhandler, hnone, absurd hcur, absurd hcur, hnone⟩

/-- A part of the received bytes. -/
theorem Held.load_take {s : CNetSession} (hs : s.Held) {n : ℕ} (h : n ≤ s.m_dwDataLen) :
    s.m_pRecvBuf.load s.m_pBufPos n = .ok (s.buffered.take n) := by
  have hpos := hs.pos_add_le
  rw [s.m_pRecvBuf.load_eq_ok (by omega), buffered, s.m_pRecvBuf.take_slice h]

theorem callHandler_eq {s : CNetSession} (h : s.m_pDataHandler = true)
    (call : SessionCall) : s.callHandler call = .ok [call] :=
  if_pos h

theorem Close_eq {s : CNetSession} (hopen : s.m_hSocket = true)
    (hhandler : s.m_pDataHandler = true) :
    s.Close = .ok ({ s with m_hSocket := false, m_IsHandler := false },
      [.OnCloseConnect s.m_dwSessionID]) := by
  unfold Close
  rw [if_pos hopen, if_pos hhandler]

/-- **What is left of a session** by a step of `ExtractBuffer` that does to
the byte stream what `out` says. -/
structure After (s : CNetSession) (out : Framer × List Delivery)
    (s' : CNetSession) (calls : List SessionCall) : Prop where
  held : s'.Held
  view_eq : s'.view = out.1
  deliveries_eq : deliveries calls = out.2
  windows_eq : windows calls = []
  whole : ∀ call ∈ calls, call.Whole s.m_dwSessionID
  id_eq : s'.m_dwSessionID = s.m_dwSessionID
  isHandler_eq : s'.m_IsHandler = (s.m_IsHandler && s'.m_hSocket)
  /-- Behind a packet that is being collected nothing waits. -/
  dataLen_eq : s'.m_pCurRecvBuffer ≠ none → s'.m_dwDataLen = 0

namespace ExtractBuffer

variable {s : CNetSession} {cur : CDataBuffer} (fresh : ℕ → UInt8)

/-- Appending to the packet that is being collected. -/
theorem append_spec (hs : s.Held) (hcur : s.m_pCurRecvBuffer = some cur)
    (hlt : cur.GetTotalLenth + s.m_dwDataLen < s.m_pCurBufferSize) :
    ∃ b : CDataBuffer, append s cur
        = .ok { s with m_pBufPos := 0, m_pCurRecvBuffer := some b, m_dwDataLen := 0 }
      ∧ b.m_nBufSize = cur.m_nBufSize
      ∧ b.GetTotalLenth = cur.GetTotalLenth + s.m_dwDataLen
      ∧ b.content = cur.content ++ s.buffered := by
  have hlen := hs.length_buffered
  have hsize := hs.cur_lt_size cur hcur
  obtain ⟨b, hb, hbs, hbl, hbc⟩ := cur.memcpy_append (show
    cur.GetTotalLenth + s.buffered.length ≤ cur.m_nBufSize by omega)
  refine ⟨b.SetTotalLenth (cur.GetTotalLenth + s.m_dwDataLen), ?_, hbs, rfl, ?_⟩
  · unfold append
    rw [hs.load_buffered, ok_bind, hb, ok_bind, hbl]
    rfl
  · rw [← hbc, hlen]

/-- Completing the packet that is being collected. -/
theorem complete_spec (hs : s.Held) (hcur : s.m_pCurRecvBuffer = some cur)
    (hle : s.m_pCurBufferSize ≤ cur.GetTotalLenth + s.m_dwDataLen) (header_size : ℕ) :
    ∃ b : CDataBuffer, complete s cur header_size
        = .ok ({ s with
            m_dwDataLen := s.m_dwDataLen - (s.m_pCurBufferSize - cur.GetTotalLenth)
            m_pBufPos := s.m_pBufPos + (s.m_pCurBufferSize - cur.GetTotalLenth)
            m_pCurRecvBuffer := none },
          [.OnDataHandle b header_size s.m_dwSessionID])
      ∧ b.GetTotalLenth ≤ b.m_nBufSize
      ∧ b.content
        = cur.content ++ s.buffered.take (s.m_pCurBufferSize - cur.GetTotalLenth) := by
  have hlen := hs.length_buffered
  have hsize := hs.cur_lt_size cur hcur
  have hlt := hs.cur_lt cur hcur
  have hmissing : s.m_pCurBufferSize - cur.GetTotalLenth ≤ s.m_dwDataLen := by omega
  have htake : (s.buffered.take (s.m_pCurBufferSize - cur.GetTotalLenth)).length
      = s.m_pCurBufferSize - cur.GetTotalLenth := by
    rw [List.length_take]
    omega
  obtain ⟨b, hb, hbs, hbl, hbc⟩ := cur.memcpy_append (show cur.GetTotalLenth
    + (s.buffered.take (s.m_pCurBufferSize - cur.GetTotalLenth)).length
      ≤ cur.m_nBufSize by omega)
  rw [htake, Nat.add_sub_cancel' hlt.le] at hbc
  refine ⟨b.SetTotalLenth s.m_pCurBufferSize, ?_, hsize.le.trans hbs.ge, hbc⟩
  unfold complete
  rw [checkedSub_eq_ok hlt.le, ok_bind, hs.load_take hmissing, ok_bind, hb, ok_bind,
    checkedSub_eq_ok hmissing, ok_bind]
  dsimp only
  rw [callHandler_eq hs.handler, ok_bind]
  rfl

/-- **What is done about the packet at the cursor**, by the verdict on its
size. -/
theorem packet_spec (hs : s.Held) (hopen : s.m_hSocket = true)
    (dwPacketSize header_size : ℕ) :
    match Framer.verdict dwPacketSize header_size s.m_dwDataLen with
    | .close => packet fresh dwPacketSize header_size s
        = .ok (.done { s with m_hSocket := false, m_IsHandler := false },
          [.OnCloseConnect s.m_dwSessionID])
    | .wait => packet fresh dwPacketSize header_size s = .ok (.done s, [])
    | .deliver n h => ∃ b : CDataBuffer, packet fresh dwPacketSize header_size s
        = .ok (.done { s with
            m_dwDataLen := s.m_dwDataLen - n, m_pBufPos := s.m_pBufPos + n },
          [.OnDataHandle b h s.m_dwSessionID])
        ∧ n ≤ s.m_dwDataLen ∧ b.GetTotalLenth ≤ b.m_nBufSize
        ∧ b.content = s.buffered.take n
    | .collect n => ∃ b : CDataBuffer, packet fresh dwPacketSize header_size s
        = .ok (.yield { s with
            m_dwDataLen := 0, m_pBufPos := 0, m_pCurRecvBuffer := some b,
            m_pCurBufferSize := n }, [])
        ∧ s.m_dwDataLen < n ∧ RECV_BUF_SIZE ≤ n ∧ n < MAX_PKG_SIZE
        ∧ n < b.m_nBufSize ∧ b.GetTotalLenth = s.m_dwDataLen
        ∧ b.content = s.buffered := by
  have hlen := hs.length_buffered
  unfold Framer.verdict packet
  split_ifs with hmax hwait hle
  · dsimp only
    rw [Close_eq hopen hs.handler]
    rfl
  · rfl
  · dsimp only
    have htake : (s.buffered.take dwPacketSize).length = dwPacketSize := by
      rw [List.length_take]
      omega
    obtain ⟨b, hb, hbs, hbc⟩ :=
      memcpy_AllocDataBuff fresh (Nat.lt_of_not_le hmax) htake.le
    rw [htake] at hbc
    refine ⟨b.SetTotalLenth dwPacketSize, ?_, hle, hbs.le, hbc⟩
    rw [hs.load_take hle, ok_bind, hb, ok_bind,
      checkedSub_eq_ok hle, ok_bind, callHandler_eq hs.handler, ok_bind]
    rfl
  · dsimp only
    obtain ⟨b, hb, hbs, hbc⟩ := memcpy_AllocDataBuff fresh (Nat.lt_of_not_le hmax)
      (show s.buffered.length ≤ dwPacketSize by omega)
    rw [hlen] at hbc
    refine ⟨b.SetTotalLenth s.m_dwDataLen, ?_, by omega, by omega, by omega, hbs, rfl, hbc⟩
    rw [hs.load_buffered, ok_bind, hb, ok_bind]
    rfl

/-- The packet at the cursor, on the byte stream. -/
theorem packet_after (hs : s.Held) (hopen : s.m_hSocket = true)
    (hcur : s.m_pCurRecvBuffer = none) (dwPacketSize header_size : ℕ) :
    ∃ r calls, packet fresh dwPacketSize header_size s = .ok (r, calls)
      ∧ s.After (Framer.act true s.buffered
          (Framer.verdict dwPacketSize header_size s.m_dwDataLen)) r.value calls
      ∧ (∀ s', r = .yield s' → s'.m_pCurRecvBuffer ≠ none ∧ s'.m_hSocket = true) := by
  have hspec := packet_spec fresh hs hopen dwPacketSize header_size
  have hpos := hs.pos_add_le
  cases hv : Framer.verdict dwPacketSize header_size s.m_dwDataLen with
  | close =>
    rw [hv] at hspec
    refine ⟨_, _, hspec, ⟨Held.of_cur_eq_none hcur hpos hs.handler,
      ?_, rfl, rfl, ?_, rfl, ?_, absurd hcur⟩, ?_⟩
    · simp [view, hcur, Framer.act, buffered]
    · simp [SessionCall.Whole]
    · simp
    · simp
  | wait =>
    rw [hv] at hspec
    refine ⟨_, _, hspec, ⟨hs, ?_, rfl, rfl, by simp, rfl, ?_, absurd hcur⟩, ?_⟩
    · simp [view, hcur, hopen, Framer.act]
    · simp [hopen]
    · simp
  | deliver n h =>
    rw [hv] at hspec
    obtain ⟨b, hspec, hn, hbl, hb⟩ := hspec
    refine ⟨_, _, hspec, ⟨Held.of_cur_eq_none hcur ?_ hs.handler,
      ?_, ?_, rfl, ?_, rfl, ?_, absurd hcur⟩, ?_⟩
    · simp only [ForInStep.value_done]
      omega
    · simp [view, hcur, hopen, Framer.act, buffered, MemBlock.drop_slice]
    · simp [deliveries, SessionCall.delivery?, Framer.act, hb]
    · simpa [SessionCall.Whole] using hbl
    · simp [hopen]
    · simp
  | collect n =>
    rw [hv] at hspec
    obtain ⟨b, hspec, hlt, hn, hmax, hroom, hbl, hbc⟩ := hspec
    refine ⟨_, _, hspec, ⟨⟨Nat.zero_le _, hs.handler, ?_, fun _ => hn, fun _ => hmax, ?_⟩,
      ?_, rfl, rfl, by simp, rfl, ?_, fun _ => rfl⟩, ?_⟩
    · simp only [ForInStep.value_yield, Option.some.injEq]
      rintro b' rfl
      rwa [hbl]
    · simp only [ForInStep.value_yield, Option.some.injEq]
      rintro b' rfl
      exact hroom
    · simp [view, hopen, Framer.act, hbc, buffered]
    · simp [hopen]
    · rintro s' hs'
      rw [← ForInStep.yield.inj hs']
      exact ⟨Option.some_ne_none b, hopen⟩

/-- A turn parses the size at the cursor first. -/
theorem turn_eq (hs : s.Held) :
    turn fresh s = (match s.m_pCurRecvBuffer with
      | some cur =>
        if cur.GetTotalLenth + s.m_dwDataLen < s.m_pCurBufferSize then
          append s cur >>= fun s' => .ok (.done s', [])
        else
          complete s cur (headerSize s.buffered) >>= fun out =>
            packet fresh (pkgSize s.buffered) (headerSize s.buffered) out.1 >>= fun out' =>
              .ok (out'.1, out.2 ++ out'.2)
      | none => packet fresh (pkgSize s.buffered) (headerSize s.buffered) s) := by
  obtain ⟨code, pkg_size, header_size, hparse, hp, hh⟩ := recv_ws_header_ok s.buffered
  unfold turn
  rw [hs.load_buffered, ok_bind, hparse, ok_bind]
  dsimp only
  rw [hp, hh]
  cases hcur : s.m_pCurRecvBuffer with
  | none => rfl
  | some cur =>
    have hlt := hs.cur_lt cur hcur
    have hmax := hs.cur_lt_max (hcur ▸ Option.some_ne_none cur)
    have hpos := hs.pos_add_le
    rw [MAX_PKG_SIZE_eq] at hmax
    rw [RECV_BUF_SIZE_eq] at hpos
    -- the sum of the two lengths is far from wrapping
    have hmod : (cur.GetTotalLenth + s.m_dwDataLen) % 2 ^ 32
        = cur.GetTotalLenth + s.m_dwDataLen := Nat.mod_eq_of_lt (by omega)
    dsimp only
    rw [hmod]
    split_ifs <;> rfl

/-- A turn whose bytes do not complete the packet that is being collected
breaks. -/
theorem turn_append (hs : s.Held) (hopen : s.m_hSocket = true)
    (hcur : s.m_pCurRecvBuffer = some cur)
    (hfits : cur.GetTotalLenth + s.m_dwDataLen < s.m_pCurBufferSize) :
    ∃ s', turn fresh s = .ok (.done s', []) ∧ s.After
      (⟨true, some (cur.content ++ s.buffered, s.m_pCurBufferSize), []⟩, []) s' [] := by
  have hne : s.m_pCurRecvBuffer ≠ none := hcur ▸ Option.some_ne_none cur
  have hsize := hs.cur_lt_size cur hcur
  obtain ⟨b, hb, hbs, hbl, hbc⟩ := append_spec hs hcur hfits
  rw [turn_eq fresh hs, hcur]
  dsimp only
  rw [if_pos hfits, hb, ok_bind]
  refine ⟨_, rfl, ⟨⟨Nat.zero_le _, hs.handler, ?_, fun _ => hs.le_cur hne,
    fun _ => hs.cur_lt_max hne, ?_⟩, ?_, rfl, rfl, by simp, rfl, ?_, fun _ => rfl⟩⟩
  · simp only [Option.some.injEq]
    rintro b' rfl
    rwa [hbl]
  · simp only [Option.some.injEq]
    rintro b' rfl
    rwa [hbs]
  · simp [view, hbc, buffered, hopen]
  · simp [hopen]

/-- A turn whose bytes complete it delivers it, and deals with the packet at the
cursor by the size that was parsed before. -/
theorem turn_complete (hs : s.Held) (hopen : s.m_hSocket = true)
    (hcur : s.m_pCurRecvBuffer = some cur) {k : ℕ}
    (hfits : ¬ cur.GetTotalLenth + s.m_dwDataLen < s.m_pCurBufferSize)
    (hk : k = s.m_pCurBufferSize - cur.GetTotalLenth) {out : Framer × List Delivery}
    (hout : out = Framer.act true (s.buffered.drop k) (Framer.verdict
      (pkgSize s.buffered) (headerSize s.buffered) (s.buffered.drop k).length)) :
    ∃ r calls, turn fresh s = .ok (r, calls)
      ∧ s.After (out.1, (cur.content ++ s.buffered.take k, headerSize s.buffered) :: out.2)
        r.value calls
      ∧ (∀ s', r = .yield s' → s'.m_pCurRecvBuffer ≠ none ∧ s'.m_hSocket = true) := by
  have hpos := hs.pos_add_le
  have hlt := hs.cur_lt cur hcur
  obtain ⟨b, hb, hbl, hbc⟩ := complete_spec hs hcur (Nat.le_of_not_lt hfits)
    (headerSize s.buffered)
  rw [← hk] at hb hbc
  set s₁ : CNetSession := { s with
    m_dwDataLen := s.m_dwDataLen - k
    m_pBufPos := s.m_pBufPos + k
    m_pCurRecvBuffer := none }
  have hheld : s₁.Held := Held.of_cur_eq_none rfl
    (show s.m_pBufPos + k + (s.m_dwDataLen - k) ≤ RECV_BUF_SIZE by omega) hs.handler
  have hrest : s₁.buffered = s.buffered.drop k :=
    (s.m_pRecvBuf.drop_slice s.m_pBufPos k s.m_dwDataLen).symm
  obtain ⟨r, calls, hr, hafter, hyield⟩ := packet_after fresh hheld hopen rfl
    (pkgSize s.buffered) (headerSize s.buffered)
  rw [← hheld.length_buffered, hrest, ← hout] at hafter
  rw [turn_eq fresh hs, hcur]
  dsimp only
  rw [if_neg hfits, hb, ok_bind]
  dsimp only
  rw [hr, ok_bind]
  refine ⟨_, _, rfl, ⟨hafter.held, hafter.view_eq, ?_, hafter.windows_eq, ?_,
    hafter.id_eq, hafter.isHandler_eq, hafter.dataLen_eq⟩, hyield⟩
  · rw [← hafter.deliveries_eq, ← hbc]
    rfl
  · exact List.forall_mem_cons.mpr ⟨⟨rfl, hbl⟩, hafter.whole⟩

/-- **A turn of the loop**, on the byte stream. If it does not break, it has
begun to collect a packet. -/
theorem turn_after (hs : s.Held) (hopen : s.m_hSocket = true) :
    ∃ r calls, turn fresh s = .ok (r, calls) ∧ s.After s.view.extract r.value calls
      ∧ (∀ s', r = .yield s' → s'.m_pCurRecvBuffer ≠ none ∧ s'.m_hSocket = true) := by
  have hlen := hs.length_buffered
  cases hcur : s.m_pCurRecvBuffer with
  | none =>
    have hextract : s.view.extract = Framer.act true s.buffered
        (Framer.verdict (pkgSize s.buffered) (headerSize s.buffered) s.m_dwDataLen) := by
      rw [← hlen]
      simp [Framer.extract, view, hcur, hopen, Framer.ownVerdict]
    rw [turn_eq fresh hs, hcur, hextract]
    exact packet_after fresh hs hopen hcur _ _
  | some cur =>
    have hlt := hs.cur_lt cur hcur
    have hsize := hs.cur_lt_size cur hcur
    have hcontent : cur.content.length = cur.GetTotalLenth :=
      CDataBuffer.length_content (by omega)
    by_cases hfits : cur.GetTotalLenth + s.m_dwDataLen < s.m_pCurBufferSize
    · obtain ⟨s', hturn, hafter⟩ := turn_append fresh hs hopen hcur hfits
      refine ⟨_, _, hturn, ?_, by simp⟩
      simpa [Framer.extract, view, hcur, hcontent, hlen, hfits, hopen] using hafter
    · obtain ⟨r, calls, hturn, hafter, hyield⟩ := turn_complete fresh hs hopen hcur hfits
        rfl rfl
      refine ⟨r, calls, hturn, ?_, hyield⟩
      simpa [Framer.extract, view, hcur, hcontent, hlen, hfits, hopen] using hafter

/-- **The loop ends within two turns**: a turn that does not break has used
up the bytes, and the next one breaks. -/
theorem loop_after (hs : s.Held) (hopen : s.m_hSocket = true) :
    ∃ s' calls, (∀ n, 2 ≤ n → whileTrue (turn fresh) n s = .ok (s', calls))
      ∧ s.After s.view.extract s' calls := by
  obtain ⟨r, calls, hturn, hafter, hyield⟩ := turn_after fresh hs hopen
  cases r with
  | done s' =>
    refine ⟨s', calls, fun n hn => ?_, hafter⟩
    obtain ⟨m, rfl⟩ := Nat.exists_eq_add_of_le' (Nat.le_of_succ_le hn)
    exact whileTrue_done hturn m
  | yield s₁ =>
    obtain ⟨hne, hopen₁⟩ := hyield s₁ rfl
    have hlen : s₁.m_dwDataLen = 0 := hafter.dataLen_eq hne
    obtain ⟨cur, hcur⟩ := Option.ne_none_iff_exists'.mp hne
    have hlt := hafter.held.cur_lt cur hcur
    obtain ⟨s', hturn', hafter'⟩ := turn_append fresh hafter.held hopen₁ hcur
      (by simpa [hlen] using hlt)
    have hview : s'.view = s₁.view := by
      rw [hafter'.view_eq]
      simp [view, hcur, buffered, hlen, hopen₁]
    refine ⟨s', calls, fun n hn => ?_, ⟨hafter'.held, hview.trans hafter.view_eq,
      hafter.deliveries_eq, hafter.windows_eq, hafter.whole,
      hafter'.id_eq.trans hafter.id_eq, ?_,
      hafter'.dataLen_eq⟩⟩
    · obtain ⟨m, rfl⟩ := Nat.exists_eq_add_of_le' hn
      have hloop := whileTrue_yield hturn (whileTrue_done hturn' m)
      rwa [List.append_nil] at hloop
    · have hsocket : s'.m_hSocket = s₁.m_hSocket := congrArg Framer.isOpen hview
      rw [hafter'.isHandler_eq, hafter.isHandler_eq, hsocket, Bool.and_assoc]
      simp

end ExtractBuffer

end CNetSession
