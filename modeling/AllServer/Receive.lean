import AllServer.SessionSpec

/-!
# A session over its reads

`AllServer.SessionSpec` says what the loop of `ExtractBuffer` does. Here this
is carried to `HandReaddata`, and from one read to all runs.

Between two reads a session is `Ready`: the cursor is at the start of the
receive buffer, and behind a packet that is being collected nothing waits. A
read that the window has room for is handled without a fault, keeps the
session ready (`HandReaddata_of_handler`, `HandReaddata_of_not_handler`), and
once the handshake is done it does to the byte stream what the framer does.
So the runs of a session are the runs of the framer machine `Framer.Feeds`,
read through `view` – in both directions (`Established.feeds`,
`Established.exists_of_feeds`).
-/

open CHttpParser

namespace CNetSession

/-! ## `ExtractBuffer` -/

/-- What is held may be moved to the start of the receive buffer. -/
theorem After.moved {s s₁ : CNetSession} {out : Framer × List Delivery}
    {calls : List SessionCall} (h : s.After out s₁ calls)
    {b : MemBlock UInt8 RECV_BUF_SIZE} (hb : b.slice 0 s₁.m_dwDataLen = s₁.buffered) :
    s.After out { s₁ with m_pRecvBuf := b, m_pBufPos := 0 } calls := by
  have hle := h.held.pos_add_le
  refine ⟨⟨?_, h.held.handler, h.held.cur_lt, h.held.le_cur, h.held.cur_lt_max,
    h.held.cur_lt_size⟩, ?_, h.deliveries_eq, h.windows_eq, h.whole, h.id_eq,
    h.isHandler_eq, h.dataLen_eq⟩
  · show 0 + s₁.m_dwDataLen ≤ RECV_BUF_SIZE
    omega
  · rw [← h.view_eq]
    exact congrArg (Framer.mk s₁.m_hSocket _) hb

/-- **`ExtractBuffer` on the byte stream.** The loop ends, and what it leaves
is moved to the start of the receive buffer. -/
theorem ExtractBuffer_spec {s : CNetSession} (fresh : ℕ → UInt8) (hs : s.Held)
    (hopen : s.m_hSocket = true) (hpos : 0 < s.m_dwDataLen) :
    ∃ s' calls, ExtractBuffer fresh s = .ok (s', calls) ∧ s'.m_pBufPos = 0
      ∧ s.After s.view.extract s' calls := by
  obtain ⟨s₁, calls, hloop, hafter⟩ := ExtractBuffer.loop_after fresh hs hopen
  have hheld := hafter.held
  have hle := hheld.pos_add_le
  unfold ExtractBuffer
  rw [if_neg hpos.ne', hloop _ (by omega), ok_bind]
  dsimp only
  by_cases hlen : 0 < s₁.m_dwDataLen
  · have hsrc := hheld.length_buffered
    have hstore : 0 + s₁.buffered.length ≤ RECV_BUF_SIZE := by omega
    have hslice := s₁.m_pRecvBuf.slice_zero_patch 0 s₁.buffered hstore
    rw [MemBlock.slice_zero, List.nil_append, Nat.zero_add, hsrc] at hslice
    rw [if_pos hlen, hheld.load_buffered, ok_bind,
      MemBlock.store_eq_ok s₁.m_pRecvBuf hstore, ok_bind]
    exact ⟨_, _, rfl, rfl, hafter.moved hslice⟩
  · have hzero : s₁.m_dwDataLen = 0 := Nat.eq_zero_of_not_pos hlen
    rw [if_neg hlen]
    refine ⟨_, _, rfl, rfl, hafter.moved ?_⟩
    simp only [buffered, hzero, MemBlock.slice_zero]

/-! ## Sessions between two reads -/

/-- **A session between two reads.** -/
structure Ready (s : CNetSession) : Prop where
  held : s.Held
  /-- The cursor is at the start of the receive buffer. -/
  pos_eq : s.m_pBufPos = 0
  /-- Behind a packet that is being collected nothing waits. -/
  dataLen_eq : s.m_pCurRecvBuffer ≠ none → s.m_dwDataLen = 0
  /-- Before the handshake no packet is collected. -/
  cur_eq : s.m_hSocket = true → s.m_IsHandler = false → s.m_pCurRecvBuffer = none

/-- **A session that has received nothing**: one that has been accepted, or
one whose handshake has just been done. -/
structure Blank (s : CNetSession) : Prop where
  isOpen : s.m_hSocket = true
  handler : s.m_pDataHandler = true
  pos_eq : s.m_pBufPos = 0
  dataLen_eq : s.m_dwDataLen = 0
  cur_eq : s.m_pCurRecvBuffer = none

theorem Blank.ready {s : CNetSession} (hs : s.Blank) : s.Ready where
  held := Held.of_cur_eq_none hs.cur_eq
    (by rw [hs.pos_eq, hs.dataLen_eq]; exact Nat.zero_le _) hs.handler
  pos_eq := hs.pos_eq
  dataLen_eq := absurd hs.cur_eq
  cur_eq := fun _ _ => hs.cur_eq

theorem blank_accepted (dwSessionID : ℕ) : (accepted dwSessionID).Blank :=
  ⟨rfl, rfl, rfl, rfl, rfl⟩

theorem blank_handshaken (dwSessionID : ℕ) : (handshaken dwSessionID).Blank :=
  ⟨rfl, rfl, rfl, rfl, rfl⟩

/-- It holds nothing. -/
theorem Blank.view_eq {s : CNetSession} (hs : s.Blank) : s.view = Framer.idle := by
  unfold view buffered
  rw [hs.isOpen, hs.cur_eq, hs.dataLen_eq, MemBlock.slice_zero]
  rfl

section Ready

variable {s : CNetSession} {r : Read} (hs : s.Ready)
include hs

/-- The received bytes are at the start of the receive buffer. -/
theorem Ready.buffered_eq : s.buffered = s.m_pRecvBuf.slice 0 s.m_dwDataLen := by
  unfold buffered
  rw [hs.pos_eq]

theorem Ready.dataLen_le : s.m_dwDataLen ≤ RECV_BUF_SIZE :=
  (Nat.le_add_left _ _).trans hs.held.pos_add_le

/-- A ready session is a framer of the kind a session can be. -/
theorem Ready.ok : s.view.Ok := by
  have hbuf := hs.held.length_buffered
  have hcur : ∀ c n, s.view.part = some (c, n) → ∃ b, s.m_pCurRecvBuffer = some b
      ∧ c.length = b.GetTotalLenth ∧ n = s.m_pCurBufferSize := by
    intro c n hpart
    obtain ⟨b, hb, hbc⟩ := Option.map_eq_some_iff.mp hpart
    obtain ⟨rfl, rfl⟩ := Prod.mk.inj hbc
    have hlt := hs.held.cur_lt b hb
    have hsize := hs.held.cur_lt_size b hb
    exact ⟨b, hb, CDataBuffer.length_content (by omega), rfl⟩
  refine ⟨hbuf.le.trans hs.dataLen_le, fun c n hp => ?_, fun c n hp => ?_,
    fun c n hp => ?_, fun c n hp => ?_⟩
  all_goals
    obtain ⟨b, hb, hc, rfl⟩ := hcur c n hp
    have hne : s.m_pCurRecvBuffer ≠ none := hb ▸ Option.some_ne_none b
  · exact hc ▸ hs.held.cur_lt b hb
  · exact hs.held.le_cur hne
  · exact hs.held.cur_lt_max hne
  · exact List.length_eq_zero_iff.mp (hbuf.trans (hs.dataLen_eq hne))

/-- **The socket writes behind the bytes that were there**, and no sum of
lengths wraps around. -/
theorem Ready.exists_store (hroom : r.data.length ≤ RECV_BUF_SIZE - s.m_dwDataLen) :
    ∃ b, s.m_pRecvBuf.store s.m_dwDataLen r.data = .ok b
      ∧ b.slice 0 (s.m_dwDataLen + r.data.length) = s.buffered ++ r.data
      ∧ s.m_dwDataLen + r.data.length ≤ RECV_BUF_SIZE
      ∧ (s.m_dwDataLen + r.data.length) % 2 ^ 32 = s.m_dwDataLen + r.data.length := by
  have hle := hs.dataLen_le
  have hfits : s.m_dwDataLen + r.data.length ≤ RECV_BUF_SIZE := by omega
  refine ⟨_, s.m_pRecvBuf.store_eq_ok hfits, ?_, hfits, ?_⟩
  · rw [hs.buffered_eq]
    exact s.m_pRecvBuf.slice_zero_patch s.m_dwDataLen r.data hfits
  · rw [RECV_BUF_SIZE_eq] at hfits
    exact Nat.mod_eq_of_lt (by omega)

/-- **The session in which `ExtractBuffer` is called.** -/
theorem Ready.received {b : MemBlock UInt8 RECV_BUF_SIZE} {n : ℕ} {data : List UInt8}
    (hb : b.slice 0 n = s.buffered ++ data) (hn : n ≤ RECV_BUF_SIZE) :
    { s with m_pRecvBuf := b, m_dwDataLen := n : CNetSession }.Held
      ∧ { s with m_pRecvBuf := b, m_dwDataLen := n : CNetSession }.view
        = s.view.push data := by
  refine ⟨⟨?_, hs.held.handler, hs.held.cur_lt, hs.held.le_cur, hs.held.cur_lt_max,
    hs.held.cur_lt_size⟩, congrArg (Framer.mk s.m_hSocket _) ?_⟩
  · show s.m_pBufPos + n ≤ RECV_BUF_SIZE
    rwa [hs.pos_eq, Nat.zero_add]
  · show b.slice s.m_pBufPos n = s.buffered ++ data
    rwa [hs.pos_eq]

end Ready

/-! ## `HandReaddata` -/

/-- **What handling a read leaves of a session whose handshake is done**: the
byte stream is fed the read, and if there is anything in the receive buffer
the socket is offered the room behind what is left. -/
structure Fed (s : CNetSession) (r : Read) (s' : CNetSession)
    (calls : List SessionCall) : Prop where
  ready : s'.Ready
  view_eq : s'.view = (s.view.feed r.data).1
  deliveries_eq : deliveries calls = (s.view.feed r.data).2
  windows_eq : s.buffered ++ r.data ≠ [] →
    windows calls = [RECV_BUF_SIZE - s'.m_dwDataLen]
  whole : ∀ call ∈ calls, call.Whole s.m_dwSessionID
  id_eq : s'.m_dwSessionID = s.m_dwSessionID
  isHandler_eq : s'.m_IsHandler = s'.m_hSocket

/-- After `ExtractBuffer` has done to the byte stream what the read does, the
socket is offered the rest of the receive buffer. -/
theorem After.fed {s s₀ s' : CNetSession} {r : Read} {calls : List SessionCall}
    (h : s₀.After (s.view.feed r.data) s' calls)
    (hid : s₀.m_dwSessionID = s.m_dwSessionID) (hhandler : s₀.m_IsHandler = true)
    (hpos : s'.m_pBufPos = 0) :
    s.Fed r s' (calls
      ++ [.async_read_some s'.m_dwDataLen (RECV_BUF_SIZE - s'.m_dwDataLen)]) := by
  have hle : s'.m_dwDataLen ≤ RECV_BUF_SIZE :=
    (Nat.le_add_left _ _).trans h.held.pos_add_le
  have hhandler' : s'.m_IsHandler = s'.m_hSocket := by
    rw [h.isHandler_eq, hhandler, Bool.true_and]
  refine ⟨⟨h.held, hpos, h.dataLen_eq, fun ho hn => ?_⟩, h.view_eq, ?_, fun _ => ?_, ?_,
    h.id_eq.trans hid, hhandler'⟩
  · rw [hhandler', ho] at hn
    exact absurd hn Bool.noConfusion
  · rw [← h.deliveries_eq, deliveries, List.filterMap_append]
    exact List.append_nil _
  · unfold windows
    rw [List.filterMap_append]
    exact congrArg (· ++ [RECV_BUF_SIZE - s'.m_dwDataLen]) h.windows_eq
  · intro call hcall
    rw [← hid]
    rcases List.mem_append.mp hcall with hcall | hcall
    · exact h.whole call hcall
    · rw [List.mem_singleton.mp hcall]
      exact Nat.add_sub_cancel' hle

section HandReaddata

variable (CheckHttpPackkage : List UInt8 → Bool) {s : CNetSession} {r : Read}

/-- **A read after the handshake.** -/
theorem HandReaddata_of_handler (hs : s.Ready) (hopen : s.m_hSocket = true)
    (hhandler : s.m_IsHandler = true)
    (hroom : r.data.length ≤ RECV_BUF_SIZE - s.m_dwDataLen) :
    ∃ s' calls, HandReaddata CheckHttpPackkage r s = .ok (s', calls)
      ∧ s.Fed r s' calls := by
  have hlen := hs.held.length_buffered
  obtain ⟨b, hb, hslice, hfits, hmod⟩ := hs.exists_store hroom
  obtain ⟨hheld, hview⟩ := hs.received hslice hfits
  rw [HandReaddata, hb, ok_bind, HandleRecvEvent]
  dsimp only
  rw [hmod, if_neg (not_not.mpr hhandler)]
  by_cases hzero : s.m_dwDataLen + r.data.length = 0
  · have hnil : s.buffered ++ r.data = [] :=
      List.length_eq_zero_iff.mp (by rw [List.length_append, hlen, hzero])
    have hbuf : s.buffered ++ r.data = s.buffered :=
      hnil.trans (List.append_eq_nil_iff.mp hnil).1.symm
    have hfeed : s.view.feed r.data = (s.view, []) := if_pos hnil
    rw [if_pos hzero.symm]
    refine ⟨_, _, rfl, ⟨⟨hheld, hs.pos_eq, fun _ => hzero, hs.cur_eq⟩, ?_, ?_,
      absurd hnil, by simp, rfl, hhandler.trans hopen.symm⟩⟩
    · rw [hfeed]
      exact hview.trans (congrArg (Framer.mk s.m_hSocket _) hbuf)
    · rw [hfeed]
      rfl
  · have hfeed : s.view.feed r.data = (s.view.push r.data).extract := by
      refine if_neg (fun hnil => hzero ?_)
      rw [← hlen, ← List.length_append]
      exact List.length_eq_zero_iff.mpr hnil
    obtain ⟨s', calls, hextract, hpos', hafter⟩ :=
      ExtractBuffer_spec r.fresh hheld hopen (Nat.pos_of_ne_zero hzero)
    rw [hview, ← hfeed] at hafter
    have hle' : s'.m_dwDataLen ≤ RECV_BUF_SIZE :=
      (Nat.le_add_left _ _).trans hafter.held.pos_add_le
    rw [if_neg (Ne.symm hzero), hextract, ok_bind]
    dsimp only
    unfold DoReceive
    rw [checkedSub_eq_ok hle', ok_bind]
    exact ⟨_, _, rfl, hafter.fed rfl hhandler hpos'⟩

/-- **A read before the handshake**: the request is accepted and all the
bytes are dropped, or it is refused and the session closed. -/
theorem HandReaddata_of_not_handler (hs : s.Ready) (hopen : s.m_hSocket = true)
    (hhandler : s.m_IsHandler = false)
    (hroom : r.data.length ≤ RECV_BUF_SIZE - s.m_dwDataLen)
    (hne : s.buffered ++ r.data ≠ []) :
    ∃ b, HandReaddata CheckHttpPackkage r s = .ok
      (if CheckHttpPackkage (s.buffered ++ r.data) then
        ({ s with m_pRecvBuf := b, m_dwDataLen := 0, m_IsHandler := true },
          [.async_read_some 0 RECV_BUF_SIZE])
      else
        ({ s with
            m_pRecvBuf := b, m_dwDataLen := s.m_dwDataLen + r.data.length,
            m_hSocket := false, m_IsHandler := false },
          [.OnCloseConnect s.m_dwSessionID])) := by
  have hlen := hs.held.length_buffered
  obtain ⟨b, hb, hslice, hfits, hmod⟩ := hs.exists_store hroom
  have hzero : ¬ 0 = s.m_dwDataLen + r.data.length := by
    intro h
    refine hne (List.length_eq_zero_iff.mp ?_)
    rw [List.length_append, hlen, h]
  refine ⟨b, ?_⟩
  rw [HandReaddata, hb, ok_bind, HandleRecvEvent]
  dsimp only
  rw [hmod, if_neg hzero, if_pos (by simp [hhandler]), hs.pos_eq,
    b.load_eq_ok (by rwa [Nat.zero_add]), ok_bind, hslice]
  cases CheckHttpPackkage (s.buffered ++ r.data) with
  | true =>
    rw [if_neg (by simp), RetHttpHandlerPackkage, if_pos hopen]
    rfl
  | false =>
    rw [if_pos (by simp), if_neg (by simp)]
    exact Close_eq hopen hs.held.handler

/-- **Every read that the window has room for is handled**, and leaves a
session ready for the next one. -/
theorem HandReaddata_ready (hs : s.Ready) (hopen : s.m_hSocket = true)
    (hroom : r.data.length ≤ RECV_BUF_SIZE - s.m_dwDataLen)
    (hne : s.buffered ++ r.data ≠ []) :
    ∃ s' calls, HandReaddata CheckHttpPackkage r s = .ok (s', calls) ∧ s'.Ready
      ∧ s'.m_dwSessionID = s.m_dwSessionID
      ∧ ∀ call ∈ calls, call.Whole s.m_dwSessionID := by
  cases hhandler : s.m_IsHandler with
  | true =>
    obtain ⟨s', calls, hok, hfed⟩ :=
      HandReaddata_of_handler CheckHttpPackkage hs hopen hhandler hroom
    exact ⟨s', calls, hok, hfed.ready, hfed.id_eq, hfed.whole⟩
  | false =>
    have hcur := hs.cur_eq hopen hhandler
    have hle := hs.dataLen_le
    obtain ⟨b, hb⟩ :=
      HandReaddata_of_not_handler CheckHttpPackkage hs hopen hhandler hroom hne
    rw [hb]
    split_ifs
    · exact ⟨_, _, rfl, Blank.ready ⟨hopen, hs.held.handler, hs.pos_eq, rfl, hcur⟩, rfl,
        by simp [SessionCall.Whole]⟩
    · refine ⟨_, _, rfl, ⟨Held.of_cur_eq_none hcur ?_ hs.held.handler,
        hs.pos_eq, absurd hcur, fun _ _ => hcur⟩, rfl, by simp [SessionCall.Whole]⟩
      show s.m_pBufPos + (s.m_dwDataLen + r.data.length) ≤ RECV_BUF_SIZE
      rw [hs.pos_eq]
      omega

end HandReaddata

/-! ## Runs of a session are runs of the framer -/

/-- **A session whose handshake is done**, as long as its socket is open. -/
structure Established (s : CNetSession) : Prop extends s.Ready where
  isHandler_eq : s.m_IsHandler = s.m_hSocket

theorem Blank.established {s : CNetSession} (hs : s.Blank) (h : s.m_IsHandler = true) :
    s.Established :=
  ⟨hs.ready, h.trans hs.isOpen.symm⟩

theorem Fed.established {s s' : CNetSession} {r : Read} {calls : List SessionCall}
    (h : s.Fed r s' calls) : s'.Established :=
  ⟨h.ready, h.isHandler_eq⟩

section Runs

variable {CheckHttpPackkage : List UInt8 → Bool} {s s' : CNetSession} {r : Read}
variable {rs : List Read} {calls : List SessionCall}

/-- The reads a session can be given are those its framer can be given. -/
theorem Ready.offers_iff (hs : s.Ready) : s.Offers r ↔ s.view.Offers r.data := by
  have hlen : s.view.buf.length = s.m_dwDataLen := hs.held.length_buffered
  unfold Offers Framer.Offers
  rw [hlen]
  rfl

/-- **A step of an established session.** -/
theorem Established.fed (hs : s.Established)
    (h : Receives CheckHttpPackkage s r calls s') : s.Fed r s' calls := by
  obtain ⟨ho, hok⟩ := h
  obtain ⟨s₁, calls₁, hok₁, hfed⟩ := HandReaddata_of_handler CheckHttpPackkage hs.toReady
    ho.1 (hs.isHandler_eq.trans ho.1) ho.2.1
  obtain ⟨rfl, rfl⟩ := Prod.mk.inj (Except.ok.inj (hok.symm.trans hok₁))
  exact hfed

/-- A step of a ready session. -/
theorem Ready.step (hs : s.Ready) (h : Receives CheckHttpPackkage s r calls s') :
    s'.Ready ∧ s'.m_dwSessionID = s.m_dwSessionID
      ∧ ∀ call ∈ calls, call.Whole s.m_dwSessionID := by
  obtain ⟨ho, hok⟩ := h
  obtain ⟨s₁, calls₁, hok₁, hready⟩ := HandReaddata_ready CheckHttpPackkage hs
    ho.1 ho.2.1 (hs.offers_iff.mp ho).front_ne_nil
  obtain ⟨rfl, rfl⟩ := Prod.mk.inj (Except.ok.inj (hok.symm.trans hok₁))
  exact hready

/-- **A session stays ready along every run**, before and after its
handshake. -/
theorem Ready.run (hs : s.Ready) (hr : Run (Receives CheckHttpPackkage) s rs calls s') :
    s'.Ready :=
  hr.invariant (fun _ _ _ _ hs h => (hs.step h).1) hs

/-- A step keeps a session established. -/
theorem Established.step (s : CNetSession) (r : Read) (calls : List SessionCall)
    (s' : CNetSession) (hs : s.Established)
    (h : Receives CheckHttpPackkage s r calls s') : s'.Established :=
  (hs.fed h).established

/-- A session stays established along every run. -/
theorem Established.run (hs : s.Established)
    (hr : Run (Receives CheckHttpPackkage) s rs calls s') : s'.Established :=
  hr.invariant Established.step hs

/-- **The runs of a session are runs of the framer.** -/
theorem Established.feeds (hs : s.Established)
    (hr : Run (Receives CheckHttpPackkage) s rs calls s') :
    Run Framer.Feeds s.view (rs.map Read.data) (deliveries calls) s'.view := by
  refine hr.simulate view Read.data SessionCall.delivery? Established.step
    (fun s r calls s' hs h => ?_) hs
  have hfed := hs.fed h
  exact ⟨hs.offers_iff.mp h.1, Prod.ext hfed.view_eq.symm hfed.deliveries_eq.symm⟩

/-- **The runs of the framer are runs of a session.** -/
theorem Established.exists_of_feeds (hs : s.Established) {datas : List (List UInt8)}
    {ds : List Delivery} {f : Framer} (hr : Run Framer.Feeds s.view datas ds f)
    (fresh : ℕ → UInt8) :
    ∃ calls s',
      Run (Receives CheckHttpPackkage) s (datas.map (fun data => ⟨data, fresh⟩)) calls s'
        ∧ deliveries calls = ds ∧ s'.view = f := by
  refine Run.lift view (fun data => ⟨data, fresh⟩) SessionCall.delivery?
    (@Established.step CheckHttpPackkage) ?_ hs hr
  rintro s data ds f hs ⟨ho, hfeed⟩
  have ho' := (hs.offers_iff (r := ⟨data, fresh⟩)).mpr ho
  obtain ⟨s', calls, hok, hfed⟩ := HandReaddata_of_handler CheckHttpPackkage hs.toReady
    ho'.1 (hs.isHandler_eq.trans ho'.1) ho'.2.1
  refine ⟨calls, s', ⟨ho', hok⟩, ?_, ?_⟩
  · exact hfed.deliveries_eq.trans (congrArg Prod.snd hfeed)
  · exact hfed.view_eq.trans (congrArg Prod.fst hfeed)

/-- **A run of the framer from nothing** is a run of a session from its
handshake. -/
theorem exists_run_of_feeds {datas : List (List UInt8)} {ds : List Delivery} {f : Framer}
    (hr : Run Framer.Feeds Framer.idle datas ds f) (dwSessionID : ℕ) (fresh : ℕ → UInt8) :
    ∃ calls s', Run (Receives CheckHttpPackkage) (handshaken dwSessionID)
        (datas.map (fun data => ⟨data, fresh⟩)) calls s'
      ∧ deliveries calls = ds ∧ s'.view = f := by
  have hs := blank_handshaken dwSessionID
  rw [← hs.view_eq] at hr
  exact (hs.established rfl).exists_of_feeds hr fresh

/-- A step of the framer from nothing is a step of a session. -/
theorem exists_step_of_feeds {data : List UInt8} {ds : List Delivery} {f : Framer}
    (h : Framer.Feeds Framer.idle data ds f) (dwSessionID : ℕ) (fresh : ℕ → UInt8) :
    ∃ calls s', Receives CheckHttpPackkage (handshaken dwSessionID) ⟨data, fresh⟩ calls s'
      ∧ deliveries calls = ds ∧ s'.view = f := by
  obtain ⟨calls, s', hr, hds, hview⟩ := exists_run_of_feeds (.single h) dwSessionID fresh
  exact ⟨calls, s', hr.step_of_single, hds, hview⟩

end Runs

end CNetSession
