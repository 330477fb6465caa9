import AllServer.Receive

/-!
# What the loop leaves behind

The loop of `ExtractBuffer` breaks after one delivery, it drops the code
`recv_ws_header` returns, and a header that is rejected is a packet of no
bytes to it. Three properties that one would expect of a receive path fail
for these reasons, and for each of them this module says on which reads:

* no complete frame is left waiting (`no_frame_left_waiting`): where another
  frame is behind the one that is delivered, it waits;
* only whole frames are delivered (`only_frames_delivered`): a header that is
  incomplete or rejected is delivered as an empty buffer, and the header
  parsed in front of a completed packet is not the packet's own;
* the receive window never closes, since what is received is consumed, is the
  first part of a frame, or closes the session (`window_never_closes`): bytes
  with a rejected header at the front are never consumed.

Each is a property of steps, and the runs whose steps all have it are the
runs whose steps all meet a condition on the session before the step and on
the bytes that are read.
-/

open CHttpParser

/-! ## Frames left waiting -/

/-- **A complete frame** at the front of some bytes. -/
def CompleteFrame (bytes : List UInt8) : Prop :=
  ∃ n h, header bytes = some (n, h) ∧ n ≤ bytes.length

instance (bytes : List UInt8) : Decidable (CompleteFrame bytes) :=
  match hh : header bytes with
  | none => isFalse (by simp [CompleteFrame, hh])
  | some (n, h) => decidable_of_iff (n ≤ bytes.length) (by simp [CompleteFrame, hh])

namespace Framer

variable {f : Framer} {data : List UInt8}

/-- **No frame is behind the one that a read delivers**, unless all of the
bytes are taken into a packet that is collected. -/
def NoFrameBehind (f : Framer) (data : List UInt8) : Prop :=
  f.missing ≤ (f.front data).length →
    if pkgSize (f.front data) ≤ (f.behind data).length then
      ¬ CompleteFrame ((f.behind data).drop (pkgSize (f.front data)))
    else if RECV_BUF_SIZE ≤ pkgSize (f.front data)
        ∧ pkgSize (f.front data) < MAX_PKG_SIZE then
      True
    else
      ¬ CompleteFrame (f.behind data)

instance (f : Framer) (data : List UInt8) : Decidable (f.NoFrameBehind data) := by
  delta NoFrameBehind
  infer_instance

/-- **What a read leaves at the cursor** begins with a complete frame exactly
where one was behind. -/
theorem feed_noFrameBehind (ho : f.Offers data) :
    ((f.feed data).1.part = none → ¬ CompleteFrame (f.feed data).1.buf)
      ↔ f.NoFrameBehind data := by
  have hlen := length_behind_lt ho
  rcases Nat.lt_or_ge (f.front data).length f.missing with hlt | hle
  · obtain ⟨c, n, -, hfeed⟩ := feed_of_lt_missing hlt
    rw [hfeed]
    exact iff_of_true (fun h => absurd h (Option.some_ne_none _))
      (fun h => absurd hlt (Nat.not_lt.mpr h))
  · rw [feed_of_missing_le ho.front_ne_nil hle, NoFrameBehind, imp_iff_right hle]
    cases hv : f.decision data with
    | close =>
      have hsize := verdict_eq_close.mp hv
      rw [if_neg (by omega), if_neg (by omega)]
      exact imp_iff_right rfl
    | wait =>
      have hsize := verdict_eq_wait.mp hv
      rw [if_neg (by omega), if_neg (by omega)]
      exact imp_iff_right rfl
    | deliver n h =>
      obtain ⟨hsize, rfl, -⟩ := (verdict_eq_deliver hlen).mp hv
      rw [if_pos hsize]
      exact imp_iff_right rfl
    | collect n =>
      have hsize := verdict_eq_collect.mp hv
      rw [if_neg (by omega), if_pos ⟨hsize.2.1, hsize.2.2.1⟩]
      exact iff_of_true (fun h => absurd h (Option.some_ne_none _)) trivial

end Framer

namespace CNetSession

variable {CheckHttpPackkage : List UInt8 → Bool} {s s' : CNetSession}
variable {rs : List Read} {calls : List SessionCall}

/-- After the step nothing complete is left: if the socket is offered a window
and no packet is being collected, the bytes in the receive buffer do not begin
with a complete frame. -/
def NothingWaits (calls : List SessionCall) (s' : CNetSession) : Prop :=
  windows calls ≠ [] → s'.m_pCurRecvBuffer = none →
    ¬ CompleteFrame (s'.m_pRecvBuf.slice 0 s'.m_dwDataLen)

theorem Established.nothingWaits_iff (hs : s.Established) {r : Read}
    (h : Receives CheckHttpPackkage s r calls s') :
    NothingWaits calls s' ↔ s.view.NoFrameBehind r.data := by
  have hfed := hs.fed h
  have ho := hs.offers_iff.mp h.1
  have hwindows := hfed.windows_eq ho.front_ne_nil
  have hpart : s'.view.part = none ↔ s'.m_pCurRecvBuffer = none := Option.map_eq_none_iff
  rw [← Framer.feed_noFrameBehind ho, ← hfed.view_eq, NothingWaits, hwindows, hpart,
    ← hfed.ready.buffered_eq]
  exact imp_iff_right (List.cons_ne_nil _ _)

/-- **When no complete frame is left waiting**: the runs that never leave one are
those in which no read brings a frame behind another. The loop breaks behind a
delivery, and nothing wakes it up before the next read. -/
theorem no_frame_left_waiting (hs : s.Blank) (hhandler : s.m_IsHandler = true) :
    Run ((Receives CheckHttpPackkage).where (fun _ _ calls s' => NothingWaits calls s'))
        s rs calls s'
      ↔ Run ((Receives CheckHttpPackkage).where (fun s r _ _ => s.view.NoFrameBehind r.data))
        s rs calls s' :=
  Run.where_congr Established.step
    (fun _ _ _ _ hs h => hs.nothingWaits_iff h) (hs.established hhandler)

/-- One frame in one read. -/
theorem no_frame_left_waiting_one_frame :
    ∃ calls s', Run ((Receives (fun _ => true)).where
        (fun _ _ calls s' => NothingWaits calls s')) (handshaken 1)
      [⟨[0x82, 0x80, 1, 2, 3, 4], fun _ => 0⟩] calls s' := by
  have h₁ : Framer.Feeds Framer.idle [0x82, 0x80, 1, 2, 3, 4]
      [([0x82, 0x80, 1, 2, 3, 4], 6)] Framer.idle := ⟨by decide, rfl⟩
  obtain ⟨calls, s', hstep, -, -⟩ := exists_step_of_feeds h₁ 1 (fun _ => 0)
  have hcond : (handshaken 1).view.NoFrameBehind [0x82, 0x80, 1, 2, 3, 4] := by
    rw [(blank_handshaken 1).view_eq]
    decide
  exact ⟨calls, s', (no_frame_left_waiting (blank_handshaken 1) rfl).mpr
    (.single ⟨hstep, hcond⟩)⟩

/-- **Two frames in one read**: the second one is left waiting. -/
theorem second_frame_left_waiting :
    ∃ calls s', Receives (fun _ => true) (handshaken 1)
        ⟨[0x82, 0x80, 1, 2, 3, 4, 0x82, 0x80, 1, 2, 3, 4], fun _ => 0⟩ calls s'
      ∧ ¬ NothingWaits calls s' := by
  have h₁ : Framer.Feeds Framer.idle [0x82, 0x80, 1, 2, 3, 4, 0x82, 0x80, 1, 2, 3, 4]
      [([0x82, 0x80, 1, 2, 3, 4], 6)] ⟨true, none, [0x82, 0x80, 1, 2, 3, 4]⟩ :=
    ⟨by decide, rfl⟩
  obtain ⟨calls, s', hstep, -, -⟩ := exists_step_of_feeds h₁ 1 (fun _ => 0)
  have hs := (blank_handshaken 1).established rfl
  refine ⟨calls, s', hstep, fun hnothing => ?_⟩
  have hbehind := (hs.nothingWaits_iff hstep).mp hnothing
  rw [(blank_handshaken 1).view_eq] at hbehind
  revert hbehind
  decide

end CNetSession

/-! ## Deliveries that are not frames -/

/-- **A delivery of a whole frame**: the buffer begins with a header that the
parser accepts, and the header length that is passed is that of some header
and not longer than the buffer. -/
structure WholeFrame (d : Delivery) : Prop where
  six_le : 6 ≤ d.2
  le_length : d.2 ≤ d.1.length
  accepted : (header d.1).isSome = true

namespace Framer

variable {f : Framer} {data : List UInt8}

/-- **The header at the cursor is accepted**, and so are those of the packet
that the read completes and of the packet that it delivers behind. -/
def HeadersAccepted (f : Framer) (data : List UInt8) : Prop :=
  f.missing ≤ (f.front data).length →
    ∃ size hdr, header (f.front data) = some (size, hdr)
      ∧ (∀ c n, f.part = some (c, n) →
        (header (c ++ (f.front data).take f.missing)).isSome = true)
      ∧ (size ≤ (f.behind data).length →
        hdr ≤ size ∧ (header ((f.behind data).take size)).isSome = true)

/-- **What a read delivers** is all whole frames exactly where the headers are
accepted. -/
theorem feed_wholeFrames (hf : f.Ok) (ho : f.Offers data) :
    (∀ d ∈ (f.feed data).2, WholeFrame d) ↔ f.HeadersAccepted data := by
  rw [forall_mem_feed ho, HeadersAccepted]
  refine forall_congr' (fun hle => ?_)
  cases hh : header (f.front data) with
  | none =>
    -- an empty buffer is delivered
    rw [pkgSize_of_header_none hh, headerSize_of_header_none hh]
    exact iff_of_false
      (fun h => absurd (h.2 (Nat.zero_le _)).six_le (Nat.not_succ_le_zero 5)) (by simp)
  | some r =>
    obtain ⟨size, hdr⟩ := r
    obtain ⟨hsix, hmax⟩ := six_le_of_header hh
    rw [pkgSize_of_header hh, headerSize_of_header hh]
    have hcompleted : ∀ c n, f.part = some (c, n) →
        hdr ≤ (c ++ (f.front data).take f.missing).length := by
      intro c n hpart
      have hbig := hf.le_part c n hpart
      rw [RECV_BUF_SIZE_eq] at hbig
      rw [hf.length_completed hpart hle]
      omega
    have hdelivered : size ≤ (f.behind data).length →
        ((f.behind data).take size).length = size := by
      intro hsize
      rw [List.length_take]
      omega
    constructor
    · rintro ⟨h₁, h₂⟩
      refine ⟨size, hdr, rfl, fun c n hpart => (h₁ c n hpart).accepted, fun hsize => ?_⟩
      exact ⟨(h₂ hsize).le_length.trans (hdelivered hsize).le, (h₂ hsize).accepted⟩
    · rintro ⟨_, _, hsome, h₁, h₂⟩
      obtain ⟨rfl, rfl⟩ := Prod.mk.inj (Option.some.inj hsome)
      refine ⟨fun c n hpart => ⟨hsix, hcompleted c n hpart, h₁ c n hpart⟩, fun hsize => ?_⟩
      exact ⟨hsix, (h₂ hsize).1.trans (hdelivered hsize).ge, (h₂ hsize).2⟩

end Framer

/-- The call hands over a whole frame, if it hands over a buffer. -/
def SessionCall.HandsWholeFrame : SessionCall → Prop
  | .OnDataHandle pDataBuffer header_size _ =>
    6 ≤ header_size ∧ header_size ≤ pDataBuffer.GetTotalLenth
      ∧ (header pDataBuffer.content).isSome = true
  | _ => True

namespace CNetSession

variable {CheckHttpPackkage : List UInt8 → Bool} {s s' : CNetSession}
variable {rs : List Read} {calls : List SessionCall}

/-- What the calls hand over is what is delivered. -/
theorem handsWholeFrame_iff {id : ℕ} (hwhole : ∀ call ∈ calls, call.Whole id) :
    (∀ call ∈ calls, call.HandsWholeFrame) ↔ ∀ d ∈ deliveries calls, WholeFrame d := by
  refine forall_mem_deliveries hwhole (fun b h n hlen => ?_) (fun _ => trivial)
    (fun _ _ => trivial)
  show 6 ≤ h ∧ h ≤ b.GetTotalLenth ∧ (header b.content).isSome = true ↔ _
  rw [← hlen]
  exact ⟨fun ⟨h₁, h₂, h₃⟩ => ⟨h₁, h₂, h₃⟩, fun ⟨h₁, h₂, h₃⟩ => ⟨h₁, h₂, h₃⟩⟩

/-- **When only whole frames are delivered.** The result of the parser is dropped,
and where it has found no header the size is 0, which is not more than anything
that has been received. So an empty packet is handed over. -/
theorem only_frames_delivered (hs : s.Blank) (hhandler : s.m_IsHandler = true) :
    Run ((Receives CheckHttpPackkage).where (fun s r _ _ => s.view.HeadersAccepted r.data))
        s rs calls s'
      ↔ Run (Receives CheckHttpPackkage) s rs calls s'
        ∧ ∀ call ∈ calls, call.HandsWholeFrame := by
  refine Run.where_iff_outputs Established.step (fun s r calls s' hs h => ?_)
    (hs.established hhandler)
  have hfed := hs.fed h
  rw [handsWholeFrame_iff hfed.whole, hfed.deliveries_eq]
  exact (Framer.feed_wholeFrames hs.ok (hs.offers_iff.mp h.1)).symm

/-- One frame in one read. -/
theorem only_frames_delivered_one_frame :
    ∃ calls s', Run (Receives (fun _ => true)) (handshaken 1)
        [⟨[0x82, 0x80, 1, 2, 3, 4], fun _ => 0⟩] calls s'
      ∧ ∀ call ∈ calls, call.HandsWholeFrame := by
  have h₁ : Framer.Feeds Framer.idle [0x82, 0x80, 1, 2, 3, 4]
      [([0x82, 0x80, 1, 2, 3, 4], 6)] Framer.idle := ⟨by decide, rfl⟩
  obtain ⟨calls, s', hstep, -, -⟩ := exists_step_of_feeds h₁ 1 (fun _ => 0)
  have hcond : (handshaken 1).view.HeadersAccepted [0x82, 0x80, 1, 2, 3, 4] := by
    rw [(blank_handshaken 1).view_eq]
    exact fun _ => ⟨6, 6, rfl, by simp [Framer.idle], fun _ => by decide⟩
  exact ⟨calls, s', (only_frames_delivered (blank_handshaken 1) rfl).mp
    (.single ⟨hstep, hcond⟩)⟩

/-- **One byte in one read**: an empty buffer is delivered. -/
theorem one_byte_delivered :
    ∃ calls s', Run (Receives (fun _ => true)) (handshaken 1)
        [⟨[0x82], fun _ => 0⟩] calls s'
      ∧ ¬ ∀ call ∈ calls, call.HandsWholeFrame := by
  have h₁ : Framer.Feeds Framer.idle [0x82] [([], 0)] ⟨true, none, [0x82]⟩ :=
    ⟨by decide, rfl⟩
  obtain ⟨calls, s', hstep, hds, -⟩ := exists_step_of_feeds h₁ 1 (fun _ => 0)
  have hfed := ((blank_handshaken 1).established rfl).fed hstep
  refine ⟨calls, s', .single hstep, fun h => ?_⟩
  rw [handsWholeFrame_iff hfed.whole, hds] at h
  exact absurd (h _ List.mem_cons_self).six_le (by decide)

end CNetSession

/-! ## The first part of a frame

Of what is left in the receive buffer one would expect that it is the first part
of a frame that is accepted. Whether it can be is told by its header, of which
bytes may be missing: the length in it is smallest if these are zeros. -/

namespace WsHeader

/-- A length behind the length field has room in its bytes. -/
theorem len_mod {h : WsHeader} (hform : h.form ≠ .bit7) : h.len % 256 ^ h.form.width = h.len := by
  have hlen := h.len_lt
  refine Nat.mod_eq_of_lt ?_
  cases hf : h.form with
  | bit7 => exact absurd hf hform
  | bit16 | bit64 =>
    rw [hf] at hlen
    exact hlen

/-- **The first bytes of a header with zeros behind them** begin with a header that
declares no more. -/
theorem exists_padded (h : WsHeader) {bytes : List UInt8} (hpre : bytes <+: h.bytes) :
    ∃ (h' : WsHeader) (q : List UInt8), bytes ++ List.replicate 14 0 = h'.bytes ++ q
      ∧ h'.total ≤ h.total ∧ h'.len ≤ h.len
      ∧ (bytes.length < h.size → bytes.length < h'.size) := by
  have hshort : ∀ b : UInt8, ∃ h' : WsHeader, h'.bytes = [b, 0, 0, 0, 0, 0] ∧ h'.len = 0
      ∧ h'.size = 6 :=
    fun b => ⟨⟨b, false, .bit7, 0, by decide, fun _ => 0⟩, rfl, rfl, rfl⟩
  have hsix : 6 ≤ h.size := Nat.le_add_left _ _
  match bytes, hpre with
  | [], _ =>
    obtain ⟨h', hbytes, hlen, hsize⟩ := hshort 0
    refine ⟨h', List.replicate 8 0, by rw [hbytes]; rfl, ?_, by omega, fun _ => ?_⟩
    · unfold total
      omega
    · rw [hsize, List.length_nil]
      decide
  | [b₀], _ =>
    obtain ⟨h', hbytes, hlen, hsize⟩ := hshort b₀
    refine ⟨h', List.replicate 9 0, by rw [hbytes]; rfl, ?_, by omega, fun _ => ?_⟩
    · unfold total
      omega
    · rw [hsize, List.length_singleton]
      decide
  | b₀ :: b :: rest, hpre =>
    obtain ⟨-, hpre₁⟩ := List.cons_prefix_cons.mp hpre
    obtain ⟨rfl, hpre₂⟩ := List.cons_prefix_cons.mp hpre₁
    have hwidth : h.form.width ≤ 8 := by
      cases h.form <;> decide
    have hlong : (LenForm.ofSecond h.second).width + 4
        ≤ (rest ++ List.replicate 14 0).length := by
      rw [h.ofSecond_second, List.length_append, List.length_replicate]
      omega
    obtain ⟨h', q, heq⟩ := exists_header_of_width b₀ hlong
    obtain ⟨-, heq'⟩ := List.cons.inj heq
    obtain ⟨hsecond, hrest⟩ := List.cons.inj heq'
    have hform : h'.form = h.form := by rw [← h'.ofSecond_second, ← hsecond, h.ofSecond_second]
    have hsize : h'.size = h.size := congrArg (fun form => form.width + 6) hform
    have hle : h'.len ≤ h.len := by
      by_cases hseven : h.form = .bit7
      · -- the length is the length field
        have hfield := h.toNat_second_mod
        rw [hsecond, h'.toNat_second_mod, hform, hseven] at hfield
        exact hfield.le
      · -- its bytes are those that are there, and zeros
        have htake : (rest ++ List.replicate 14 0).take h.form.width
            = Endian.le h.form.width h'.len := by
          have happend := hrest.trans (List.append_assoc _ _ _)
          rw [happend, hform, List.take_left' (Endian.length_le _ _)]
        obtain ⟨t, ht⟩ : rest.take h.form.width <+: Endian.le h.form.width h.len := by
          have h₁ := hpre₂.take h.form.width
          rwa [List.take_left' (Endian.length_le _ _)] at h₁
        have hval := congrArg Endian.val htake
        rw [List.take_append, List.take_replicate, Endian.val_append, Endian.val_replicate,
          Nat.mul_zero, Nat.add_zero, Endian.val_le] at hval
        have hval' := congrArg Endian.val ht
        rw [Endian.val_append, Endian.val_le, len_mod hseven] at hval'
        have hmod : h'.len % 256 ^ h.form.width = h'.len := by
          rw [← hform]
          exact len_mod (hform ▸ hseven)
        omega
    refine ⟨h', q, heq, ?_, hle, fun hlt => by rwa [hsize]⟩
    unfold total
    omega

end WsHeader

/-- **The first part of a frame** that is accepted, but not all of it. -/
def FrameBegun (bytes : List UInt8) : Prop :=
  ∃ F : WsFrame, F.header.total < MAX_PKG_SIZE ∧ bytes <+: F.bytes
    ∧ bytes.length < F.header.total

/-- **The header of the bytes with zeros behind them** is found, and its frame is
longer than what is there and not too large. -/
def Completable (bytes : List UInt8) : Prop :=
  ∃ n k, header (bytes ++ List.replicate 14 0) = some (n, k) ∧ k ≤ n ∧ bytes.length < n
    ∧ n < MAX_PKG_SIZE

instance (bytes : List UInt8) : Decidable (Completable bytes) :=
  match hh : header (bytes ++ List.replicate 14 0) with
  | none => isFalse (by simp [Completable, hh, -List.reduceReplicate])
  | some (n, k) => decidable_of_iff (k ≤ n ∧ bytes.length < n ∧ n < MAX_PKG_SIZE)
    (by simp [Completable, hh, -List.reduceReplicate])

/-- A header that is there says that the frame goes on. -/
theorem completable_of_lt_pkgSize {bytes : List UInt8} (hlt : bytes.length < pkgSize bytes)
    (hmax : pkgSize bytes < MAX_PKG_SIZE) : Completable bytes := by
  cases hh : header bytes with
  | none =>
    rw [pkgSize_of_header_none hh] at hlt
    exact absurd hlt (Nat.not_lt_zero _)
  | some r =>
    obtain ⟨n, k⟩ := r
    have hle := wsCode.le_length hh
    rw [pkgSize_of_header hh] at hlt hmax
    exact ⟨n, k, wsCode.decode_append _ hh, hle.trans hlt.le, hlt, hmax⟩

/-- **Whether bytes can become a frame is seen with zeros behind them**: these make
the length as small as it can still be. -/
theorem frameBegun_iff {bytes : List UInt8} : FrameBegun bytes ↔ Completable bytes := by
  constructor
  · rintro ⟨F, hmax, hpre, hlt⟩
    have hword := hmax.trans MAX_PKG_SIZE_lt
    rcases Nat.lt_or_ge bytes.length F.header.size with hpart | hall
    · obtain ⟨h', q, heq, htotal, hlen, hlong⟩ := F.header.exists_padded
        (List.prefix_of_prefix_length_le hpre (List.prefix_append _ _)
          (by rw [WsHeader.length_bytes]; exact hpart.le))
      have hlen' : F.header.len ≤ F.header.total := Nat.le_add_left _ _
      have hsize' : h'.size ≤ h'.total := Nat.le_add_right _ _
      refine ⟨h'.total, h'.size, ?_, hsize', (hlong hpart).trans_le hsize',
        htotal.trans_lt hmax⟩
      rw [heq, header_bytes, if_pos (by omega), Nat.mod_eq_of_lt (by omega)]
    · exact ⟨_, _, wsCode.decode_append _ (WsFrame.header_of_prefix hword hpre hall),
        Nat.le_add_right _ _, hlt, hmax⟩
  · rintro ⟨n, k, hheader, hle, hlt, hmax⟩
    obtain ⟨h, q, heq, hlen, rfl, rfl⟩ := header_eq_some_iff.mp hheader
    have htotal : h.total = h.size + h.len := rfl
    have hsize : h.size ≤ 14 := by
      unfold WsHeader.size
      cases h.form <;> decide
    -- the size has not wrapped around, since it has room for its header
    have hmod : h.total % 2 ^ 32 = h.total := by omega
    rw [hmod] at hlt hmax
    have hpayload : (bytes.drop h.size).length ≤ h.len := by
      rw [List.length_drop]
      omega
    refine ⟨⟨h, bytes.drop h.size ++ List.replicate (h.len - (bytes.drop h.size).length) 0, ?_⟩,
      hmax, ?_, hlt⟩
    · rw [List.length_append, List.length_replicate]
      omega
    · have hfront : bytes.take h.size <+: h.bytes := by
        have htake := congrArg (List.take h.size) heq
        rw [List.take_left' h.length_bytes] at htake
        rw [← htake]
        exact (List.prefix_append _ _).take _
      show bytes <+: h.bytes ++ _
      rcases Nat.le_total bytes.length h.size with hshort | hlong
      · rw [List.take_of_length_le hshort] at hfront
        exact hfront.trans (List.prefix_append _ _)
      · have hwhole : bytes.take h.size = h.bytes :=
          hfront.eq_of_length (by rw [List.length_take, h.length_bytes]; omega)
        rw [← List.append_assoc, ← hwhole, List.take_append_drop]
        exact List.prefix_append _ _

/-! ## Windows of no bytes -/

namespace Framer

variable {f : Framer} {data : List UInt8}

/-- **The receive buffer is full of bytes that are not consumed**: no packet is
being collected, and the header at the front is rejected, incomplete or wraps
around to 0, or its packet is too large. -/
def Stuck (f : Framer) (data : List UInt8) : Prop :=
  f.part = none ∧ (f.front data).length = RECV_BUF_SIZE
    ∧ (pkgSize (f.front data) = 0 ∨ MAX_PKG_SIZE ≤ pkgSize (f.front data))

/-- With a packet being collected, some bytes are always taken. -/
theorem Ok.missing_pos (hf : f.Ok) (h : f.part ≠ none) : 0 < f.missing := by
  obtain ⟨⟨c, n⟩, hpart⟩ := Option.ne_none_iff_exists'.mp h
  have hlt := hf.part_lt c n hpart
  rw [missing_of_part_eq_some hpart]
  exact Nat.sub_pos_of_lt hlt

/-- How many bytes a verdict leaves. -/
theorem length_act_le (isOpen : Bool) (rest : List UInt8) (v : Verdict) :
    (act isOpen rest v).1.buf.length ≤ rest.length := by
  cases v <;> simp [act]

/-- Bytes whose own verdict is carried out fill the receive buffer afterwards
where they did before and nothing of them is consumed. -/
theorem length_act_ownVerdict {bytes : List UInt8} (hle : bytes.length ≤ RECV_BUF_SIZE)
    (isOpen : Bool) :
    (act isOpen bytes (ownVerdict bytes)).1.buf.length = RECV_BUF_SIZE
      ↔ bytes.length = RECV_BUF_SIZE
        ∧ (pkgSize bytes = 0 ∨ MAX_PKG_SIZE ≤ pkgSize bytes) := by
  have hpos := RECV_BUF_SIZE_pos
  have hmax := RECV_BUF_SIZE_lt
  unfold ownVerdict
  cases hv : verdict (pkgSize bytes) (headerSize bytes) bytes.length with
  | close =>
    have hclose := verdict_eq_close.mp hv
    exact ⟨fun h => ⟨h, Or.inr hclose⟩, fun h => h.1⟩
  | wait =>
    have hwait := verdict_eq_wait.mp hv
    show bytes.length = RECV_BUF_SIZE ↔ _
    omega
  | deliver n h =>
    obtain ⟨hn, rfl, -⟩ := (verdict_eq_deliver (by omega)).mp hv
    show (bytes.drop _).length = RECV_BUF_SIZE ↔ _
    rw [List.length_drop]
    omega
  | collect n =>
    have hcollect := verdict_eq_collect.mp hv
    show ([] : List UInt8).length = RECV_BUF_SIZE ↔ _
    rw [List.length_nil]
    omega

/-- **What a read leaves fills the receive buffer** exactly where the bytes
are stuck. -/
theorem feed_full (hf : f.Ok) (ho : f.Offers data) :
    (f.feed data).1.buf.length = RECV_BUF_SIZE ↔ f.Stuck data := by
  have hfront := ho.length_front_le
  unfold Stuck
  cases hpart : f.part with
  | none =>
    rw [feed_of_part_eq_none hpart ho.front_ne_nil, length_act_ownVerdict hfront]
    exact (and_iff_right rfl).symm
  | some cn =>
    -- some of the bytes are taken into the packet that is being collected
    refine iff_of_false (fun h => ?_) (fun h => absurd h.1 (Option.some_ne_none cn))
    rcases Nat.lt_or_ge (f.front data).length f.missing with hlt | hle
    · obtain ⟨c, n, -, hfeed⟩ := feed_of_lt_missing hlt
      rw [hfeed] at h
      exact absurd h RECV_BUF_SIZE_pos.ne
    · have hmissing := hf.missing_pos (hpart ▸ Option.some_ne_none cn)
      have hact := length_act_le f.isOpen (f.behind data) (f.decision data)
      have hbehind : (f.behind data).length = (f.front data).length - f.missing :=
        List.length_drop
      rw [feed_of_missing_le ho.front_ne_nil hle] at h
      dsimp only at h
      omega

/-- Bytes that are stuck close the session, or their packet has no bytes. -/
theorem Stuck.feed_isOpen (hstuck : f.Stuck data) (ho : f.Offers data) :
    (f.feed data).1.isOpen = true ↔ pkgSize (f.front data) = 0 := by
  obtain ⟨hpart, hfull, hsize⟩ := hstuck
  have hmax := RECV_BUF_SIZE_lt
  rw [feed_of_part_eq_none hpart ho.front_ne_nil, ownVerdict, hfull]
  rcases hsize with hzero | hclose
  · rw [hzero, (verdict_eq_deliver hmax).mpr ⟨Nat.zero_le _, rfl, rfl⟩]
    exact iff_of_true ho.1 rfl
  · rw [verdict_eq_close.mpr hclose]
    exact iff_of_false Bool.false_ne_true (by omega)

/-- **What a read leaves is the first part of a frame**, or nothing, unless it
closes the session: behind what it completes and delivers, or behind what it
completes if the rest waits. -/
def LeavesBegun (f : Framer) (data : List UInt8) : Prop :=
  f.missing ≤ (f.front data).length →
    (pkgSize (f.front data) ≤ (f.behind data).length →
      Completable ((f.behind data).drop (pkgSize (f.front data))))
    ∧ ((f.behind data).length < pkgSize (f.front data) →
      pkgSize (f.front data) < RECV_BUF_SIZE → Completable (f.behind data))

/-- **What is left can be completed** exactly where it is the first part of a
frame. -/
theorem feed_leavesBegun (ho : f.Offers data) :
    ((f.feed data).1.isOpen = true → Completable (f.feed data).1.buf) ↔ f.LeavesBegun data := by
  have hlen := length_behind_lt ho
  have hnil : Completable [] := by decide
  rcases Nat.lt_or_ge (f.front data).length f.missing with hlt | hle
  · obtain ⟨c, n, -, hfeed⟩ := feed_of_lt_missing hlt
    rw [hfeed]
    exact iff_of_true (fun _ => hnil) (fun h => absurd hlt (Nat.not_lt.mpr h))
  · have hmax := RECV_BUF_SIZE_lt
    rw [feed_of_missing_le ho.front_ne_nil hle, LeavesBegun, imp_iff_right hle]
    cases hv : f.decision data with
    | close =>
      have hsize := verdict_eq_close.mp hv
      exact iff_of_true (fun h => absurd h.symm Bool.noConfusion)
        ⟨fun h => absurd h (by omega), fun _ h => absurd h (by omega)⟩
    | wait =>
      have hsize := verdict_eq_wait.mp hv
      constructor
      · exact fun h => ⟨fun hle' => absurd hle' (by omega), fun _ _ => h ho.1⟩
      · exact fun h _ => h.2 hsize.1 hsize.2
    | deliver n h =>
      obtain ⟨hsize, rfl, -⟩ := (verdict_eq_deliver hlen).mp hv
      constructor
      · exact fun h => ⟨fun _ => h ho.1, fun hlt => absurd hlt (by omega)⟩
      · exact fun h _ => h.1 hsize
    | collect n =>
      have hsize := verdict_eq_collect.mp hv
      exact iff_of_true (fun _ => hnil)
        ⟨fun h => absurd h (by omega), fun _ h => absurd h (by omega)⟩

/-- **Nothing is done about what has been received**: no packet is being
collected, the header at the front is rejected, incomplete or wraps around to 0,
and no frame can come of it. -/
def Unmoved (f : Framer) (data : List UInt8) : Prop :=
  f.part = none ∧ pkgSize (f.front data) = 0 ∧ ¬ Completable (f.front data)

/-- **Every read closes the session, consumes something or leaves the first part of a
frame**, unless nothing is done about it. -/
theorem feed_unmoved (hf : f.Ok) (ho : f.Offers data) :
    ((f.feed data).1.isOpen = false ∨ (f.feed data).1.buf.length < (f.front data).length
        ∨ Completable (f.feed data).1.buf)
      ↔ ¬ f.Unmoved data := by
  have hpos : 0 < (f.front data).length := List.length_pos_iff.mpr ho.front_ne_nil
  have hmax := ho.length_front_le.trans_lt RECV_BUF_SIZE_lt
  unfold Unmoved
  cases hpart : f.part with
  | none =>
    rw [feed_of_part_eq_none hpart ho.front_ne_nil, ownVerdict]
    cases hv : verdict (pkgSize (f.front data)) (headerSize (f.front data))
        (f.front data).length with
    | close =>
      have hsize := verdict_eq_close.mp hv
      exact iff_of_true (Or.inl rfl) (fun h => by omega)
    | wait =>
      -- the header is there, and the frame is longer than what is there
      have hsize := verdict_eq_wait.mp hv
      refine iff_of_true (Or.inr (Or.inr ?_)) (fun h => by omega)
      exact completable_of_lt_pkgSize hsize.1 (hsize.2.trans RECV_BUF_SIZE_lt)
    | deliver n h =>
      obtain ⟨hle, rfl, -⟩ := (verdict_eq_deliver hmax).mp hv
      show f.isOpen = false ∨ ((f.front data).drop _).length < _ ∨ Completable _ ↔ _
      rw [ho.1, List.length_drop]
      by_cases hzero : pkgSize (f.front data) = 0
      · rw [hzero]
        show true = false ∨ _ ∨ Completable ((f.front data).drop 0) ↔ _
        rw [List.drop_zero]
        simp
      · exact iff_of_true (Or.inr (Or.inl (by omega))) (fun h => hzero h.2.1)
    | collect n => exact iff_of_true (Or.inr (Or.inl hpos)) (fun h => by
        have hsize := verdict_eq_collect.mp hv
        omega)
  | some cn =>
    refine iff_of_true (Or.inr (Or.inl ?_)) (fun h => absurd h.1 (Option.some_ne_none cn))
    rcases Nat.lt_or_ge (f.front data).length f.missing with hlt | hle
    · obtain ⟨c, n, -, hfeed⟩ := feed_of_lt_missing hlt
      rw [hfeed]
      exact hpos
    · have hmissing := hf.missing_pos (hpart ▸ Option.some_ne_none cn)
      have hact := length_act_le f.isOpen (f.behind data) (f.decision data)
      have hbehind : (f.behind data).length = (f.front data).length - f.missing :=
        List.length_drop
      rw [feed_of_missing_le ho.front_ne_nil hle]
      dsimp only
      omega

end Framer

namespace CNetSession

variable {CheckHttpPackkage : List UInt8 → Bool} {s s' : CNetSession}
variable {rs : List Read} {calls : List SessionCall}

/-- Every window the socket is offered has room. -/
def WindowOpen (calls : List SessionCall) : Prop := ∀ size ∈ windows calls, 0 < size

theorem Established.windowOpen_iff (hs : s.Established) {r : Read}
    (h : Receives CheckHttpPackkage s r calls s') :
    WindowOpen calls ↔ ¬ s.view.Stuck r.data := by
  have hfed := hs.fed h
  have ho := hs.offers_iff.mp h.1
  have hle := hfed.ready.dataLen_le
  have hlen : (s.view.feed r.data).1.buf.length = s'.m_dwDataLen := by
    rw [← hfed.view_eq]
    exact hfed.ready.held.length_buffered
  rw [← Framer.feed_full hs.ok ho, WindowOpen, hfed.windows_eq ho.front_ne_nil, hlen]
  simp only [List.mem_singleton, forall_eq]
  omega

theorem Established.windowOpen_iff_of_open (hs : s.Established) {r : Read}
    (h : Receives CheckHttpPackkage s r calls s') :
    (s'.m_hSocket = true → WindowOpen calls)
      ↔ ¬ (s.view.Stuck r.data ∧ pkgSize (s.view.front r.data) = 0) := by
  have ho := hs.offers_iff.mp h.1
  have hopen : s'.m_hSocket = (s.view.feed r.data).1.isOpen :=
    congrArg Framer.isOpen (hs.fed h).view_eq
  rw [hs.windowOpen_iff h, hopen, not_and]
  constructor
  · exact fun himp hstuck hzero => himp ((hstuck.feed_isOpen ho).mpr hzero) hstuck
  · exact fun himp hsocket hstuck => himp hstuck ((hstuck.feed_isOpen ho).mp hsocket)

/-- **What is in the receive buffer has been consumed, is the first part of a frame
or has closed the session.** -/
def Settled (s' : CNetSession) : Prop :=
  s'.m_hSocket = false ∨ s'.m_dwDataLen = 0
    ∨ FrameBegun (s'.m_pRecvBuf.slice 0 s'.m_dwDataLen)

/-- **Of what has been received something is consumed**, or all of it is the first
part of a frame, or it closes the session. -/
def Progresses (s : CNetSession) (r : Read) (s' : CNetSession) : Prop :=
  s'.m_hSocket = false ∨ s'.m_dwDataLen < s.m_dwDataLen + r.data.length
    ∨ FrameBegun (s'.m_pRecvBuf.slice 0 s'.m_dwDataLen)

theorem Established.settled_iff (hs : s.Established) {r : Read}
    (h : Receives CheckHttpPackkage s r calls s') :
    Settled s' ↔ s.view.LeavesBegun r.data := by
  have hfed := hs.fed h
  have hopen : s'.m_hSocket = (s.view.feed r.data).1.isOpen :=
    congrArg Framer.isOpen hfed.view_eq
  have hbuf : s'.m_pRecvBuf.slice 0 s'.m_dwDataLen = (s.view.feed r.data).1.buf := by
    rw [← hfed.view_eq]
    exact hfed.ready.buffered_eq.symm
  have hnil : s'.m_dwDataLen = 0 → Completable (s.view.feed r.data).1.buf := by
    intro hzero
    rw [← hbuf, hzero, MemBlock.slice_zero]
    decide
  rw [← Framer.feed_leavesBegun (hs.offers_iff.mp h.1), Settled, hopen, hbuf, frameBegun_iff,
    or_iff_right_of_imp hnil, ← Bool.not_eq_true, imp_iff_not_or]

theorem Established.progresses_iff (hs : s.Established) {r : Read}
    (h : Receives CheckHttpPackkage s r calls s') :
    Progresses s r s' ↔ ¬ s.view.Unmoved r.data := by
  have hfed := hs.fed h
  have hopen : s'.m_hSocket = (s.view.feed r.data).1.isOpen :=
    congrArg Framer.isOpen hfed.view_eq
  have hbuf : s'.m_pRecvBuf.slice 0 s'.m_dwDataLen = (s.view.feed r.data).1.buf := by
    rw [← hfed.view_eq]
    exact hfed.ready.buffered_eq.symm
  have hlen : s'.m_dwDataLen = (s.view.feed r.data).1.buf.length := by
    rw [← hfed.view_eq]
    exact hfed.ready.held.length_buffered.symm
  have hfront : s.m_dwDataLen + r.data.length = (s.view.front r.data).length := by
    rw [Framer.front, List.length_append]
    exact congrArg (· + r.data.length) hs.held.length_buffered.symm
  rw [← Framer.feed_unmoved hs.ok (hs.offers_iff.mp h.1), Progresses, hopen, hbuf,
    frameBegun_iff, hlen, hfront]

/-- **When the receive window never closes.** Every window that is offered has room,
and what is in the receive buffer then has been consumed, is the first part of a
frame or has closed the session, exactly along the runs in which no read gets
stuck and what each leaves behind what it delivers is the first part of a frame.
If it is enough that every read consumes something, the latter is only asked of a
read that consumes nothing. The window alone, on any socket or on an open one,
closes exactly where a read gets stuck. -/
theorem window_never_closes (hs : s.Blank) (hhandler : s.m_IsHandler = true) :
    (Run ((Receives CheckHttpPackkage).where (fun _ _ calls s' =>
          WindowOpen calls ∧ Settled s')) s rs calls s'
      ↔ Run ((Receives CheckHttpPackkage).where (fun s r _ _ =>
          ¬ s.view.Stuck r.data ∧ s.view.LeavesBegun r.data)) s rs calls s')
    ∧ (Run ((Receives CheckHttpPackkage).where (fun s r calls s' =>
          WindowOpen calls ∧ Progresses s r s')) s rs calls s'
      ↔ Run ((Receives CheckHttpPackkage).where (fun s r _ _ =>
          ¬ s.view.Stuck r.data ∧ ¬ s.view.Unmoved r.data)) s rs calls s')
    ∧ (Run ((Receives CheckHttpPackkage).where (fun _ _ calls _ => WindowOpen calls))
        s rs calls s'
      ↔ Run ((Receives CheckHttpPackkage).where (fun s r _ _ => ¬ s.view.Stuck r.data))
        s rs calls s')
    ∧ (Run ((Receives CheckHttpPackkage).where
          (fun _ _ calls s' => s'.m_hSocket = true → WindowOpen calls)) s rs calls s'
      ↔ Run ((Receives CheckHttpPackkage).where (fun s r _ _ =>
          ¬ (s.view.Stuck r.data ∧ pkgSize (s.view.front r.data) = 0))) s rs calls s') := by
  have hest := hs.established hhandler
  refine ⟨?_, ?_, ?_, ?_⟩
  · exact Run.where_congr Established.step
      (fun _ _ _ _ hs h => and_congr (hs.windowOpen_iff h) (hs.settled_iff h)) hest
  · exact Run.where_congr Established.step
      (fun _ _ _ _ hs h => and_congr (hs.windowOpen_iff h) (hs.progresses_iff h)) hest
  · exact Run.where_congr Established.step (fun _ _ _ _ hs h => hs.windowOpen_iff h) hest
  · exact Run.where_congr Established.step (fun _ _ _ _ hs h => hs.windowOpen_iff_of_open h) hest

/-- One frame and the first byte of another one, in one read. -/
theorem window_never_closes_one_frame :
    ∃ calls s', Run ((Receives (fun _ => true)).where
        (fun _ _ calls s' => WindowOpen calls ∧ Settled s')) (handshaken 1)
      [⟨[0x82, 0x80, 1, 2, 3, 4, 0x82], fun _ => 0⟩] calls s' := by
  have h₁ : Framer.Feeds Framer.idle [0x82, 0x80, 1, 2, 3, 4, 0x82]
      [([0x82, 0x80, 1, 2, 3, 4], 6)] ⟨true, none, [0x82]⟩ := ⟨by decide, rfl⟩
  obtain ⟨calls, s', hstep, -, -⟩ := exists_step_of_feeds h₁ 1 (fun _ => 0)
  have hstuck : ¬ (handshaken 1).view.Stuck [0x82, 0x80, 1, 2, 3, 4, 0x82] := by
    rw [(blank_handshaken 1).view_eq]
    rintro ⟨-, hfull, -⟩
    exact absurd hfull (by decide)
  have hbegun : (handshaken 1).view.LeavesBegun [0x82, 0x80, 1, 2, 3, 4, 0x82] := by
    rw [(blank_handshaken 1).view_eq]
    exact fun _ => ⟨fun _ => by decide, fun hlt => absurd hlt (by decide)⟩
  exact ⟨calls, s', (window_never_closes (blank_handshaken 1) rfl).1.mpr
    (.single ⟨hstep, hstuck, hbegun⟩)⟩

/-- **A full read behind a header whose length has a high word**: the next
window has no room, and the session is still open. Nothing has been consumed of
what no frame begins with. -/
theorem window_closes :
    ∃ calls s', Receives (fun _ => true) (handshaken 1)
        ⟨[0x82, 0x7f, 0, 0, 0, 0, 1, 0, 0, 0, 0, 0, 0, 0] ++ List.replicate 8178 0,
          fun _ => 0⟩ calls s'
      ∧ s'.m_hSocket = true ∧ ¬ WindowOpen calls ∧ ¬ Settled s'
      ∧ ¬ Progresses (handshaken 1) ⟨[0x82, 0x7f, 0, 0, 0, 0, 1, 0, 0, 0, 0, 0, 0, 0]
        ++ List.replicate 8178 0, fun _ => 0⟩ s' := by
  set data : List UInt8 :=
    [0x82, 0x7f, 0, 0, 0, 0, 1, 0, 0, 0, 0, 0, 0, 0] ++ List.replicate 8178 0 with hdata
  have hlen : data.length = RECV_BUF_SIZE := by
    rw [hdata, List.length_append, List.length_replicate]
    rfl
  have ho : Framer.idle.Offers data :=
    ⟨rfl, hlen.le, fun hnil => absurd hlen (by rw [hnil]; decide)⟩
  have hnone : ∀ q, header (data ++ q) = none := by
    intro q
    let h : WsHeader := ⟨0x82, false, .bit64, 2 ^ 32, by decide, fun _ => 0⟩
    have hbytes : [0x82, 0x7f, 0, 0, 0, 0, 1, 0, 0, 0, 0, 0, 0, 0] = h.bytes := by decide
    rw [hdata, hbytes, List.append_assoc, header_bytes, if_neg (by decide)]
  have hzero : pkgSize data = 0 := pkgSize_of_header_none (List.append_nil data ▸ hnone [])
  have hcompletable : ¬ Completable data := by
    rintro ⟨n, k, hheader, -⟩
    exact Option.some_ne_none _ (hheader.symm.trans (hnone _))
  have hstuck : Framer.idle.Stuck data := ⟨rfl, hlen, Or.inl hzero⟩
  obtain ⟨calls, s', hstep, -, hview⟩ := exists_step_of_feeds ho.feeds 1 (fun _ => 0)
  have hs := (blank_handshaken 1).established rfl
  have hidle := (blank_handshaken 1).view_eq
  have hopen : s'.m_hSocket = true := by
    have h := (hstuck.feed_isOpen ho).mpr hzero
    rwa [← hview] at h
  refine ⟨calls, s', hstep, hopen, fun hwindow => ?_, fun hsettled => ?_, fun hprogress => ?_⟩
  · refine (hs.windowOpen_iff hstep).mp hwindow ?_
    rwa [hidle]
  · have hleaves := (hs.settled_iff hstep).mp hsettled
    rw [hidle] at hleaves
    have hrest := (hleaves (Nat.zero_le _)).1 (hzero.le.trans (Nat.zero_le _))
    rw [show pkgSize (Framer.idle.front data) = 0 from hzero] at hrest
    exact hcompletable hrest
  · refine (hs.progresses_iff hstep).mp hprogress ?_
    rw [hidle]
    exact ⟨rfl, hzero, hcompletable⟩

end CNetSession
