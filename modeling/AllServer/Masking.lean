import AllServer.Alignment
import AllServer.CServiceBase
import AllServer.ClientFrame
import AllServer.Reassembly

/-!
# The masking key reaches the application

A masked frame is unmasked by nobody: the loop that would do it is written
(`parser_ws_pack`) and its call is commented out. So what the game service
parses is the masked payload, from byte `HEADER_LEN` of the frame on wherever
the payload begins. Two frames that differ in the masking key only are then
parsed alike exactly where they have a header's worth of bytes and the keys
agree on all that is behind them (`masking_invisible_iff`).

That is so of frames that are handed over as frames. A larger one closes the
session, or is refused for good and waits in a full receive buffer, and then
nothing of it is parsed. But a declared length just below `2 ^ 32` makes the
size of the frame wrap around, and the first bytes of its header are dispatched
as a packet of their own, too short to have a body.

The first half of the module is about one frame in an idle session, however
it is cut into reads, and about all of these cases.
-/

open CHttpParser

/-! ## One frame in an idle session -/

namespace Framer

variable {F : WsFrame} {f f' : Framer} {data c : List UInt8} {datas : List (List UInt8)}
variable {ds : List Delivery}

/-- **What is read at the start of a frame** of which only a part is there. -/
theorem ownVerdict_of_part (hmax : F.header.total < MAX_PKG_SIZE) {bytes : List UInt8}
    (hpre : bytes <+: F.bytes) :
    ownVerdict bytes = if bytes.length < F.header.size then .deliver 0 0
      else verdict F.header.total F.header.size bytes.length := by
  have hword := hmax.trans MAX_PKG_SIZE_lt
  unfold ownVerdict
  split_ifs with hlt
  · have hnone : header bytes = none := by
      cases hh : header bytes with
      | none => rfl
      | some r =>
        have hr : r = (F.bytes.length, F.header.size) :=
          (WsFrame.isFrame hword).eq_of_decode (q := []) (by rwa [List.append_nil]) hh
        rw [hr] at hh
        exact absurd (wsCode.le_length hh) (Nat.not_le.mpr hlt)
    have hsmall : F.header.size ≤ F.header.total := Nat.le_add_right _ _
    rw [pkgSize_of_header_none hnone, headerSize_of_header_none hnone]
    exact (verdict_eq_deliver (by omega)).mpr ⟨Nat.zero_le _, rfl, rfl⟩
  · have hheader := WsFrame.header_of_prefix hword hpre (Nat.not_lt.mp hlt)
    rw [pkgSize_of_header hheader, headerSize_of_header hheader]

/-- **The first bytes `c` of a frame have been received** and nothing else: they
wait for more, or the frame is being collected. -/
def Amid (F : WsFrame) (c : List UInt8) (f : Framer) : Prop :=
  f = ⟨true, none, c⟩ ∧ (RECV_BUF_SIZE ≤ F.header.total → c.length < F.header.size)
    ∨ f = ⟨true, some (c, F.header.total), []⟩

/-- No verdict finds anything in no bytes. -/
theorem act_nil (isOpen : Bool) (v : Verdict) :
    (act isOpen [] v).1.buf = [] ∧ nonempty (act isOpen [] v).2 = [] := by
  cases v with
  | close | wait | collect => exact ⟨rfl, rfl⟩
  | deliver n h =>
    show [].drop n = [] ∧ nonempty [([].take n, h)] = []
    rw [List.drop_nil, List.take_nil]
    exact ⟨rfl, rfl⟩

/-- The delivery of a frame is not empty. -/
theorem nonempty_frame (F : WsFrame) (hdr : ℕ) (ds : List Delivery) :
    nonempty ((F.bytes, hdr) :: ds) = (F.bytes, hdr) :: nonempty ds :=
  List.filter_cons_of_pos (decide_eq_true F.bytes_ne_nil)

/-- **A read in the middle of a frame** brings more of it, or the rest of it
and then the frame is delivered. -/
theorem Amid.feed (hmax : F.header.total < MAX_PKG_SIZE) (hf : Amid F c f)
    (hlt : c.length < F.header.total) (hpre : c ++ data <+: F.bytes) (h : Feeds f data ds f') :
    (c ++ data).length < F.header.total ∧ nonempty ds = [] ∧ Amid F (c ++ data) f'
      ∨ c ++ data = F.bytes ∧ (∃ hdr, nonempty ds = [(F.bytes, hdr)]) ∧ f'.buf = [] := by
  have hle : (c ++ data).length ≤ F.header.total := F.length_bytes ▸ hpre.length_le
  have hwhole : (c ++ data).length = F.header.total → c ++ data = F.bytes :=
    fun heq => hpre.eq_of_length (heq.trans F.length_bytes.symm)
  obtain ⟨ho, hfeed⟩ := h
  rcases hf with ⟨rfl, hsize⟩ | rfl
  · -- the first bytes wait in the receive buffer
    have hne := ho.front_ne_nil
    have hroom : (c ++ data).length ≤ RECV_BUF_SIZE := ho.length_front_le
    rw [feed_of_part_eq_none rfl hne, show front ⟨true, none, c⟩ data = c ++ data from rfl,
      ownVerdict_of_part hmax hpre] at hfeed
    split_ifs at hfeed with hheader
    · -- the header is not all there: an empty buffer is delivered
      obtain ⟨rfl, rfl⟩ := Prod.mk.inj hfeed
      have hsmall : F.header.size ≤ F.header.total := Nat.le_add_right _ _
      exact Or.inl ⟨by omega, rfl, Or.inl ⟨rfl, fun _ => hheader⟩⟩
    · rcases hle.lt_or_eq with hpart | heq
      · by_cases hbig : RECV_BUF_SIZE ≤ F.header.total
        · rw [verdict_eq_collect.mpr ⟨hpart, hbig, hmax, rfl⟩] at hfeed
          obtain ⟨rfl, rfl⟩ := Prod.mk.inj hfeed
          exact Or.inl ⟨hpart, rfl, Or.inr rfl⟩
        · rw [verdict_eq_wait.mpr ⟨hpart, Nat.not_le.mp hbig⟩] at hfeed
          obtain ⟨rfl, rfl⟩ := Prod.mk.inj hfeed
          exact Or.inl ⟨hpart, rfl, Or.inl ⟨rfl, fun h => absurd h hbig⟩⟩
      · rw [(verdict_eq_deliver (by omega)).mpr ⟨heq.ge, rfl, rfl⟩, hwhole heq] at hfeed
        obtain ⟨rfl, rfl⟩ := Prod.mk.inj hfeed
        refine Or.inr ⟨hwhole heq, ⟨F.header.size, ?_⟩, ?_⟩
        · rw [← F.length_bytes, List.take_length]
          exact nonempty_frame F _ []
        · rw [← F.length_bytes]
          exact List.drop_length
  · -- they are collected
    rcases hle.lt_or_eq with hpart | heq
    · have hmissing : (front ⟨true, some (c, F.header.total), []⟩ data).length
          < missing ⟨true, some (c, F.header.total), []⟩ := by
        show data.length < F.header.total - c.length
        rw [List.length_append] at hpart
        omega
      obtain ⟨c', n', hc, hcollect⟩ := feed_of_lt_missing hmissing
      obtain ⟨rfl, rfl⟩ := Prod.mk.inj (Option.some.inj hc)
      obtain ⟨rfl, rfl⟩ := Prod.mk.inj (hfeed.symm.trans hcollect)
      exact Or.inl ⟨hpart, rfl, Or.inr rfl⟩
    · have hcomplete : Framer.feed ⟨true, some (c, F.header.total), []⟩ (data ++ []) = _ :=
        feed_of_completes hlt ((List.length_append).symm.trans heq)
      rw [List.append_nil, hwhole heq, hfeed] at hcomplete
      obtain ⟨rfl, rfl⟩ := Prod.mk.inj hcomplete
      obtain ⟨hbuf, hnone⟩ := act_nil true (verdict (pkgSize data) (headerSize data) 0)
      refine Or.inr ⟨hwhole heq, ⟨headerSize data, ?_⟩, hbuf⟩
      exact (nonempty_frame F _ _).trans (congrArg _ hnone)

/-- A framer that holds nothing is not given reads of nothing. -/
theorem outputs_of_flatten_nil (hr : Run Feeds f datas ds f') (hbuf : f.buf = [])
    (hdatas : datas.flatten = []) : ds = [] := by
  cases hr with
  | nil f => rfl
  | cons hstep _ =>
    rw [List.flatten_cons, List.append_eq_nil_iff] at hdatas
    have hfull := hstep.1.2.2 hdatas.1
    rw [hbuf] at hfull
    exact absurd hfull RECV_BUF_SIZE_pos.ne

/-- **What is received of a frame** on the way from one framer to another: all of
it, unless the session is closed in between or its receive buffer is full. -/
def TakesAll (F : WsFrame) (c : List UInt8) (datas : List (List UInt8)) (f' : Framer) : Prop :=
  c ++ datas.flatten <+: F.bytes
    ∧ (c ++ datas.flatten = F.bytes ∨ f'.isOpen = false ∨ f'.buf.length = RECV_BUF_SIZE)

/-- After one read more. -/
theorem TakesAll.cons (h : TakesAll F c (data :: datas) f') : TakesAll F (c ++ data) datas f' := by
  unfold TakesAll at h ⊢
  rwa [List.flatten_cons, ← List.append_assoc] at h

theorem TakesAll.piece (h : TakesAll F c (data :: datas) f') : c ++ data <+: F.bytes :=
  (List.prefix_append _ _).trans h.cons.1

/-- A session that is in the middle of a frame takes more of it. -/
theorem Amid.not_takesAll (hf : Amid F c f) (hlt : c.length < F.header.total) :
    ¬ TakesAll F c [] f := by
  rintro ⟨-, hall | hclosed | hfull⟩
  · rw [List.flatten_nil, List.append_nil] at hall
    rw [hall, F.length_bytes] at hlt
    exact absurd hlt (Nat.lt_irrefl _)
  · rcases hf with ⟨rfl, -⟩ | rfl <;> exact absurd hclosed.symm Bool.false_ne_true
  · have hpos := RECV_BUF_SIZE_pos
    rcases hf with ⟨rfl, hsize⟩ | rfl
    · -- a frame as large as the receive buffer is collected as soon as its header is there
      have hlen : c.length = RECV_BUF_SIZE := hfull
      have hbig := hsize (by omega)
      have hheader : F.header.size ≤ 14 := by
        unfold WsHeader.size
        cases F.header.form <;> decide
      rw [RECV_BUF_SIZE_eq] at hlen
      omega
    · exact absurd hfull hpos.ne

/-- **A frame is delivered exactly once**, however it is cut into reads. -/
theorem Amid.run (hmax : F.header.total < MAX_PKG_SIZE) (hr : Run Feeds f datas ds f')
    (hf : Amid F c f) (hlt : c.length < F.header.total) (htakes : TakesAll F c datas f') :
    ∃ hdr, nonempty ds = [(F.bytes, hdr)] := by
  induction hr generalizing c with
  | nil f => exact absurd htakes (hf.not_takesAll hlt)
  | @cons f f₁ f' data datas ds ds' hstep hrest ih =>
    rcases hf.feed hmax hlt htakes.piece hstep
      with ⟨hlt', hnone, hf'⟩ | ⟨hwhole, ⟨hdr, hds⟩, hbuf⟩
    · obtain ⟨hdr, hds⟩ := ih hf' hlt' htakes.cons
      refine ⟨hdr, (List.filter_append _ _).trans ?_⟩
      rw [show List.filter _ ds = [] from hnone, List.nil_append]
      exact hds
    · have hle := htakes.cons.1.length_le
      rw [hwhole, List.length_append] at hle
      have hnil : datas.flatten = [] := List.length_eq_zero_iff.mp (by omega)
      rw [outputs_of_flatten_nil hrest hbuf hnil, List.append_nil]
      exact ⟨hdr, hds⟩

/-- **From nothing.** -/
theorem run_frame (hmax : F.header.total < MAX_PKG_SIZE) (hr : Run Feeds idle datas ds f')
    (htakes : TakesAll F [] datas f') : ∃ hdr, nonempty ds = [(F.bytes, hdr)] := by
  have hpos : 0 < F.header.size := Nat.succ_pos _
  have hidle : Amid F [] idle := Or.inl ⟨rfl, fun _ => hpos⟩
  exact hidle.run hmax hr (Nat.lt_of_lt_of_le hpos (Nat.le_add_right _ _)) htakes

/-! ## A frame that is too large -/

/-- **The header of a piece of a frame**: it is found as soon as all of it is
there, with the exact size modulo `2 ^ 32`, unless the declared length has a high
word. -/
theorem header_of_piece {bytes : List UInt8} (hpre : bytes <+: F.bytes) :
    header bytes = if F.header.size ≤ bytes.length ∧ F.header.len < 2 ^ 32
      then some (F.header.total % 2 ^ 32, F.header.size) else none := by
  have hall : header F.bytes = if F.header.len < 2 ^ 32
      then some (F.header.total % 2 ^ 32, F.header.size) else none :=
    header_bytes F.header F.payload
  by_cases hsize : F.header.size ≤ bytes.length
  · obtain ⟨q, hq⟩ : F.header.bytes <+: bytes :=
      List.prefix_of_prefix_length_le (List.prefix_append _ _) hpre
        (by rwa [WsHeader.length_bytes])
    rw [← hq, header_bytes]
    simp only [hq, hsize, true_and]
  · rw [if_neg fun h => hsize h.1]
    cases hh : header bytes with
    | none => rfl
    | some r =>
      obtain ⟨q, hq⟩ := hpre
      have hfound := wsCode.decode_append q hh
      rw [hq] at hfound
      obtain rfl : r = (F.header.total % 2 ^ 32, F.header.size) := by
        have heq := hall.symm.trans hfound
        split_ifs at heq
        exact (Option.some.inj heq).symm
      exact absurd (wsCode.le_length hh) hsize

/-- **Refused**: no piece of the frame is of a size that is delivered. -/
def Refused (F : WsFrame) : Prop :=
  ∀ bytes, bytes <+: F.bytes → pkgSize bytes = 0 ∨ MAX_PKG_SIZE ≤ pkgSize bytes

/-- A frame is refused if its size is too large and does not wrap around to a small
one that is not 0. -/
theorem refused_of_total (hmax : MAX_PKG_SIZE ≤ F.header.total)
    (hwrap : F.header.total ≤ 2 ^ 32 ∨ 2 ^ 32 ≤ F.header.len) : Refused F := by
  intro bytes hpre
  have hheader := header_of_piece hpre
  split_ifs at hheader with hfound
  · rw [pkgSize_of_header hheader]
    rcases hwrap with hle | hlarge
    · rcases hle.lt_or_eq with hlt | heq
      · rw [Nat.mod_eq_of_lt hlt]
        exact Or.inr hmax
      · rw [heq]
        exact Or.inl rfl
    · exact absurd hfound.2 (Nat.not_lt.mpr hlarge)
  · exact Or.inl (pkgSize_of_header_none hheader)

/-- **Nothing of a frame that is refused is delivered**: every read finds an empty
packet or closes the session. -/
theorem Refused.run (hF : Refused F) (hr : Run Feeds f datas ds f')
    (hpart : f.part = none) (hpre : f.buf ++ datas.flatten <+: F.bytes) : nonempty ds = [] := by
  induction hr with
  | nil f => rfl
  | @cons f f₁ f' data datas ds ds' hstep _ ih =>
    obtain ⟨ho, hfeed⟩ := hstep
    have hpre' : f.front data ++ datas.flatten <+: F.bytes := by
      rwa [List.flatten_cons, ← List.append_assoc] at hpre
    rw [feed_of_part_eq_none hpart ho.front_ne_nil] at hfeed
    have hlen := ho.length_front_le.trans_lt RECV_BUF_SIZE_lt
    have hown : ∃ h, ownVerdict (f.front data) = .deliver 0 h
        ∨ ownVerdict (f.front data) = .close := by
      unfold ownVerdict
      rcases hF _ ((List.prefix_append _ _).trans hpre') with hzero | hlarge
      · rw [hzero]
        exact ⟨_, Or.inl ((verdict_eq_deliver hlen).mpr ⟨Nat.zero_le _, rfl, rfl⟩)⟩
      · exact ⟨0, Or.inr (verdict_eq_close.mpr hlarge)⟩
    obtain ⟨h, hown | hown⟩ := hown <;> rw [hown] at hfeed <;>
      obtain ⟨rfl, rfl⟩ := Prod.mk.inj hfeed
    · exact (List.filter_append _ _).trans (ih rfl hpre')
    · exact ih rfl hpre'

/-- **A frame whose size wraps around**: the first bytes of its header are delivered
as a packet of their own. -/
theorem run_wrapped (hlen : F.header.len < 2 ^ 32) (htotal : 2 ^ 32 < F.header.total)
    (hr : Run Feeds f datas ds f') (hf : f = ⟨true, none, c⟩) (hc : c.length < F.header.size)
    (htakes : TakesAll F c datas f') : ∃ d ∈ ds, d.1 ≠ [] ∧ d.1.length < HEADER_LEN := by
  have hsize : F.header.size ≤ 14 := by
    unfold WsHeader.size
    cases F.header.form <;> decide
  have htotal' : F.header.total = F.header.size + F.header.len := rfl
  obtain ⟨n, hmod⟩ : ∃ n, F.header.total % 2 ^ 32 = n := ⟨_, rfl⟩
  have hn : 0 < n ∧ n < 14 := by omega
  induction hr generalizing c with
  | nil f =>
    subst hf
    have hshort : c.length < 14 := by omega
    rcases htakes.2 with hall | hclosed | hfull
    · have hlength := congrArg List.length hall
      rw [List.flatten_nil, List.append_nil, F.length_bytes] at hlength
      omega
    · exact absurd hclosed.symm Bool.false_ne_true
    · have hfull' : c.length = RECV_BUF_SIZE := hfull
      rw [RECV_BUF_SIZE_eq] at hfull'
      omega
  | @cons f f₁ f' data datas ds ds' hstep _ ih =>
    subst hf
    obtain ⟨ho, hfeed⟩ := hstep
    have hroom : (c ++ data).length < MAX_PKG_SIZE :=
      ho.length_front_le.trans_lt RECV_BUF_SIZE_lt
    have hheader := header_of_piece htakes.piece
    rw [feed_of_part_eq_none rfl ho.front_ne_nil,
      show front ⟨true, none, c⟩ data = c ++ data from rfl, ownVerdict] at hfeed
    by_cases hall : F.header.size ≤ (c ++ data).length
    · -- the header is there, and the size in it is less than its own length
      rw [if_pos ⟨hall, hlen⟩, hmod] at hheader
      rw [pkgSize_of_header hheader, headerSize_of_header hheader,
        (verdict_eq_deliver hroom).mpr ⟨by omega, rfl, rfl⟩] at hfeed
      obtain ⟨rfl, rfl⟩ := Prod.mk.inj hfeed
      have htake : ((c ++ data).take n).length = n := by
        rw [List.length_take]
        omega
      refine ⟨_, List.mem_append_left _ (List.mem_singleton_self _), fun hnil => ?_, ?_⟩
      · exact hn.1.ne' (htake.symm.trans (congrArg List.length hnil))
      · exact htake.trans_lt (hn.2.trans (by decide))
    · rw [if_neg fun h => hall h.1] at hheader
      rw [pkgSize_of_header_none hheader, headerSize_of_header_none hheader,
        (verdict_eq_deliver hroom).mpr ⟨Nat.zero_le _, rfl, rfl⟩] at hfeed
      obtain ⟨rfl, rfl⟩ := Prod.mk.inj hfeed
      obtain ⟨d, hd, hshort⟩ := ih rfl (Nat.not_le.mp hall) htakes.cons
      exact ⟨d, List.mem_append_right _ hd, hshort⟩

/-- **No delivery is larger than a packet may be.** -/
theorem Ok.length_lt_of_mem_feed (hf : f.Ok) (ho : f.Offers data) :
    ∀ d ∈ (f.feed data).2, d.1.length < MAX_PKG_SIZE := by
  have hlen := length_behind_lt ho
  refine (forall_mem_feed (P := fun d => d.1.length < MAX_PKG_SIZE) ho).mpr
    (fun hle => ⟨fun c n hpart => ?_, fun hsize => ?_⟩)
  · rw [hf.length_completed hpart hle]
    exact hf.part_lt_max c n hpart
  · rw [List.length_take]
    omega

end Framer

/-! ## What is dispatched -/

namespace CServiceBase

/-- `CServiceBase::Update`, with nothing pushed while it runs. -/
def Update (q : CServiceBase) : CServiceBase × List DispatcherCall :=
  (q.swap.clear, q.m_pRecvDataQueue.flatMap visit)

/-- **What `Update` dispatches** when a session has made some calls. -/
def dispatched (calls : List SessionCall) : List DispatcherCall :=
  (calls.foldl (fun q c => q.handle c) new).Update.2

/-- Every call is dispatched on its own. -/
theorem dispatched_eq (calls : List SessionCall) :
    dispatched calls = calls.flatMap (fun call => (packets call).flatMap visit) := by
  unfold dispatched
  rw [foldl_handle]
  show ([] ++ calls.flatMap packets).flatMap visit = _
  rw [List.nil_append, List.flatMap_assoc]

end CServiceBase

/-- **The bytes that the game service parses**: those of the range that
`DispatchPacket` hands over, as far as they are bytes in use. A range that
leaves the bytes in use is a fault. -/
def CGameService.parsed (pNetPacket : NetPacket) : Except Fault (List UInt8) := do
  let (off, len) ← CGameService.DispatchPacket pNetPacket
  match pNetPacket.m_pDataBuffer with
  | some b =>
    if off + len ≤ b.GetTotalLenth then return (b.content.drop off).take len
    else .error .load
  | none => .error .null

/-- What is parsed of some bytes. -/
def CGameService.parsedBody (bytes : List UInt8) : Except Fault (List UInt8) :=
  if HEADER_LEN ≤ bytes.length then .ok (bytes.drop HEADER_LEN) else .error .load

/-- **What is parsed of a packet** is what is behind its first `HEADER_LEN`
bytes, if it has as many. -/
theorem CGameService.parsed_eq {p : NetPacket} {b : CDataBuffer} (hb : p.m_pDataBuffer = some b)
    (hsize : b.GetTotalLenth ≤ b.m_nBufSize) (hmax : b.content.length < MAX_PKG_SIZE) :
    CGameService.parsed p = parsedBody b.content := by
  have hlen := CDataBuffer.length_content hsize
  rw [hlen, MAX_PKG_SIZE_eq] at hmax
  have hbody := CDataBuffer.GetBodyLenth_eq_iff (b := b) (by omega)
  have hdispatch : CGameService.DispatchPacket p = .ok (HEADER_LEN, b.GetBodyLenth) := by
    unfold CGameService.DispatchPacket
    rw [hb]
    rfl
  unfold CGameService.parsed parsedBody
  rw [hdispatch, ok_bind, hb, hlen]
  show (if HEADER_LEN + b.GetBodyLenth ≤ b.GetTotalLenth then _ else _) = _
  by_cases hle : HEADER_LEN ≤ b.GetTotalLenth
  · have hsum : HEADER_LEN + b.GetBodyLenth = b.GetTotalLenth := hbody.mpr hle
    have hdrop : (b.content.drop HEADER_LEN).length ≤ b.GetBodyLenth := by
      rw [List.length_drop, hlen]
      omega
    rw [if_pos hsum.le, if_pos hle, List.take_of_length_le hdrop]
    rfl
  · have hwrap : b.GetBodyLenth = (b.GetTotalLenth + 2 ^ 32 - HEADER_LEN) % 2 ^ 32 := rfl
    have hover : ¬ HEADER_LEN + b.GetBodyLenth ≤ b.GetTotalLenth := by
      unfold HEADER_LEN at hwrap hle ⊢
      omega
    rw [if_neg hover, if_neg hle]

/-- The range that a call hands over, if it hands one over. An empty buffer holds no
byte of a frame and is passed over. -/
def CGameService.range : DispatcherCall → Option (Except Fault (List UInt8))
  | .DispatchPacket p =>
    if (p.m_pDataBuffer.map CDataBuffer.GetTotalLenth) = some 0 then none
    else some (CGameService.parsed p)
  | _ => none

/-- **The ranges that are parsed**, of the packets that are dispatched one after the
other. -/
def CGameService.ranges (calls : List DispatcherCall) : List (Except Fault (List UInt8)) :=
  calls.filterMap CGameService.range

/-- **What is parsed is what is behind the first bytes of everything delivered.** -/
theorem ranges_dispatched {calls : List SessionCall}
    (hhanded : ∀ call ∈ calls, ∀ b h n, call = .OnDataHandle b h n →
      b.GetTotalLenth ≤ b.m_nBufSize ∧ b.content.length < MAX_PKG_SIZE) :
    CGameService.ranges (CServiceBase.dispatched calls)
      = (nonempty (deliveries calls)).map (fun d => CGameService.parsedBody d.1) := by
  rw [CServiceBase.dispatched_eq]
  induction calls with
  | nil => rfl
  | cons call calls ih =>
    obtain ⟨hcall, hcalls⟩ := List.forall_mem_cons.mp hhanded
    have hrest := ih hcalls
    cases call with
    | OnCloseConnect | async_read_some => exact hrest
    | OnDataHandle b h n =>
      obtain ⟨hsize, hmax⟩ := hcall b h n rfl
      have hlen := CDataBuffer.length_content hsize
      unfold CGameService.ranges at hrest ⊢
      show List.filterMap CGameService.range (.DispatchPacket ⟨0, n, some b⟩ :: _) = List.map _
        (nonempty ((b.content, h) :: deliveries calls))
      by_cases hnil : b.content = []
      · have hnone : CGameService.range (.DispatchPacket ⟨0, n, some b⟩) = none :=
          if_pos (congrArg some (hlen.symm.trans (congrArg List.length hnil)))
        rw [List.filterMap_cons_none hnone, nonempty, List.filter_cons_of_neg (by simpa using hnil)]
        exact hrest
      · have hsome : CGameService.range (.DispatchPacket ⟨0, n, some b⟩)
            = some (CGameService.parsedBody b.content) := by
          refine (if_neg fun hzero => hnil ?_).trans
            (congrArg some (CGameService.parsed_eq rfl hsize hmax))
          exact List.length_eq_zero_iff.mp (hlen.trans (Option.some.inj hzero))
        rw [List.filterMap_cons_some hsome, nonempty,
          List.filter_cons_of_pos (by simpa using hnil), List.map_cons]
        exact congrArg _ hrest

/-! ## Two frames that differ in the masking key -/

/-- A byte of the masked payload. -/
theorem getElem?_maskPayload (key : Fin 4 → UInt8) (payload : List UInt8) (i : ℕ) :
    (maskPayload key payload)[i]?
      = payload[i]?.map (fun b => b ^^^ key (Fin.ofNat 4 i)) :=
  List.getElem?_mapIdx

/-- **The frame of a payload** under a masking key, with a header of this
form. -/
def WsHeader.masked (h : WsHeader) (payload : List UInt8) (hlen : payload.length = h.len)
    (key : Fin 4 → UInt8) : WsFrame where
  header := { h with key }
  payload := maskPayload key payload
  length_payload := (length_maskPayload key payload).trans hlen

/-- **The keys agree on what is parsed**: on all bytes of the payload that are
behind the first `HEADER_LEN` bytes of the frame. -/
def WsHeader.KeysAgree (h : WsHeader) (key₁ key₂ : Fin 4 → UInt8) : Prop :=
  ∀ i < h.len, HEADER_LEN ≤ h.size + i → ∀ j : Fin 4, i % 4 = j → key₁ j = key₂ j

/-- **What is parsed is the same** exactly if the keys agree on it. -/
theorem WsHeader.drop_masked_eq_iff (h : WsHeader) {payload : List UInt8}
    (hlen : payload.length = h.len) (key₁ key₂ : Fin 4 → UInt8) :
    (h.masked payload hlen key₁).bytes.drop HEADER_LEN
        = (h.masked payload hlen key₂).bytes.drop HEADER_LEN
      ↔ h.KeysAgree key₁ key₂ := by
  have hsize : h.size ≤ HEADER_LEN := by
    unfold WsHeader.size HEADER_LEN
    cases h.form <;> decide
  have hdrop : ∀ key, (h.masked payload hlen key).bytes.drop HEADER_LEN
      = (maskPayload key payload).drop (HEADER_LEN - h.size) := by
    intro key
    have hbytes : (h.masked payload hlen key).header.bytes.length = h.size :=
      WsHeader.length_bytes _
    show ((h.masked payload hlen key).header.bytes ++ maskPayload key payload).drop HEADER_LEN = _
    rw [List.drop_append, hbytes, List.drop_eq_nil_of_le (by rwa [hbytes]), List.nil_append]
  rw [hdrop, hdrop]
  constructor
  · intro heq i hi hle j hj
    have hget := congrArg (fun bs => bs[i - (HEADER_LEN - h.size)]?) heq
    simp only [List.getElem?_drop] at hget
    rw [show HEADER_LEN - h.size + (i - (HEADER_LEN - h.size)) = i by omega] at hget
    rw [getElem?_maskPayload, getElem?_maskPayload,
      List.getElem?_eq_getElem (by rwa [hlen])] at hget
    obtain rfl : j = Fin.ofNat 4 i := Fin.ext hj.symm
    exact (UInt8.xor_right_inj _).mp (Option.some.inj hget)
  · intro hagree
    refine List.ext_getElem? (fun i => ?_)
    rw [List.getElem?_drop, List.getElem?_drop, getElem?_maskPayload, getElem?_maskPayload]
    by_cases hi : HEADER_LEN - h.size + i < h.len
    · rw [hagree _ hi (by omega) _ rfl]
    · rw [List.getElem?_eq_none (by omega)]
      rfl

namespace CNetSession

variable {CheckHttpPackkage : List UInt8 → Bool} {s s' : CNetSession}
variable {rs : List Read} {calls : List SessionCall}

/-- What a run of an established session hands over is in its buffers, and no
larger than a packet may be. -/
theorem Established.handed (hs : s.Established)
    (hr : Run (Receives CheckHttpPackkage) s rs calls s') :
    ∀ call ∈ calls, ∀ b h n, call = .OnDataHandle b h n →
      b.GetTotalLenth ≤ b.m_nBufSize ∧ b.content.length < MAX_PKG_SIZE := by
  have hstep : ∀ s r calls s', s.Established → Receives CheckHttpPackkage s r calls s' →
      s'.Established ∧ ∀ call ∈ calls, ∀ b h n, call = .OnDataHandle b h n →
        b.GetTotalLenth ≤ b.m_nBufSize ∧ b.content.length < MAX_PKG_SIZE := ?_
  · exact hr.forall_outputs hstep hs
  intro s r calls s' hs h
  have hfed := hs.fed h
  refine ⟨hfed.established, ?_⟩
  rintro _ hcall b hdr n rfl
  refine ⟨(hfed.whole _ hcall).2, ?_⟩
  have hmem : (b.content, hdr) ∈ deliveries calls :=
    List.mem_filterMap.mpr ⟨_, hcall, rfl⟩
  rw [hfed.deliveries_eq] at hmem
  exact hs.ok.length_lt_of_mem_feed (hs.offers_iff.mp h.1) _ hmem

/-- **No more of the frame can be received**: all of it has been read, or what has
been read is the first part of it and the session is closed or its receive
buffer full. -/
def TakesAll (F : WsFrame) (rs : List Read) (s' : CNetSession) : Prop :=
  rs.flatMap Read.data <+: F.bytes
    ∧ (rs.flatMap Read.data = F.bytes ∨ s'.m_hSocket = false ∨ s'.m_dwDataLen = RECV_BUF_SIZE)

theorem TakesAll.view (hs : s'.Established) {F : WsFrame} (h : TakesAll F rs s') :
    Framer.TakesAll F [] (rs.map Read.data) s'.view := by
  have hlen : s'.view.buf.length = s'.m_dwDataLen := hs.held.length_buffered
  unfold TakesAll at h
  unfold Framer.TakesAll
  rwa [List.nil_append, ← List.flatMap_def, hlen]

/-- **What is parsed of one frame** that an idle session receives. -/
theorem Blank.ranges_eq (hs : s.Blank) (hhandler : s.m_IsHandler = true)
    (hr : Run (Receives CheckHttpPackkage) s rs calls s') {F : WsFrame}
    (htakes : TakesAll F rs s') :
    (F.header.total < MAX_PKG_SIZE →
      CGameService.ranges (CServiceBase.dispatched calls) = [CGameService.parsedBody F.bytes])
    ∧ (MAX_PKG_SIZE ≤ F.header.total → F.header.total ≤ 2 ^ 32 ∨ 2 ^ 32 ≤ F.header.len →
      CGameService.ranges (CServiceBase.dispatched calls) = [])
    ∧ (2 ^ 32 < F.header.total → F.header.len < 2 ^ 32 →
      .error .load ∈ CGameService.ranges (CServiceBase.dispatched calls)) := by
  have hest := hs.established hhandler
  have hfeeds := hest.feeds hr
  have hall := htakes.view (hest.run hr)
  rw [hs.view_eq] at hfeeds
  rw [ranges_dispatched (hest.handed hr)]
  refine ⟨fun hmax => ?_, fun hmax hrefused => ?_, fun htotal hlen => ?_⟩
  · obtain ⟨hdr, hds⟩ := Framer.run_frame hmax hfeeds hall
    rw [hds]
    rfl
  · rw [(Framer.refused_of_total hmax hrefused).run hfeeds rfl hall.1]
    rfl
  · obtain ⟨d, hd, hne, hshort⟩ :=
      Framer.run_wrapped hlen htotal hfeeds rfl (Nat.succ_pos _) hall
    refine List.mem_map.mpr ⟨d, List.mem_filter.mpr ⟨hd, decide_eq_true hne⟩, ?_⟩
    exact if_neg (Nat.not_le.mpr hshort)

end CNetSession

/-- **The two frames are parsed alike**: the ranges that the game service parses,
packet by packet, are bytes of the packets and are the same for both. -/
def ParsedAlike (calls₁ calls₂ : List SessionCall) : Prop :=
  ∃ bytes : List (List UInt8),
    CGameService.ranges (CServiceBase.dispatched calls₁) = bytes.map .ok
      ∧ CGameService.ranges (CServiceBase.dispatched calls₂) = bytes.map .ok

/-- One packet each is parsed alike if both have a body and it is the same. -/
theorem parsedAlike_singleton {calls₁ calls₂ : List SessionCall} {bytes₁ bytes₂ : List UInt8}
    (h₁ : CGameService.ranges (CServiceBase.dispatched calls₁) = [CGameService.parsedBody bytes₁])
    (h₂ : CGameService.ranges (CServiceBase.dispatched calls₂) = [CGameService.parsedBody bytes₂])
    (hlen : bytes₁.length = bytes₂.length) :
    ParsedAlike calls₁ calls₂ ↔ HEADER_LEN ≤ bytes₁.length
      ∧ bytes₁.drop HEADER_LEN = bytes₂.drop HEADER_LEN := by
  unfold ParsedAlike
  rw [h₁, h₂]
  unfold CGameService.parsedBody
  rw [← hlen]
  by_cases hle : HEADER_LEN ≤ bytes₁.length
  · rw [if_pos hle, if_pos hle]
    constructor
    · rintro ⟨bytes, hb₁, hb₂⟩
      have heq := hb₁.trans hb₂.symm
      exact ⟨hle, Except.ok.inj (List.head_eq_of_cons_eq heq)⟩
    · rintro ⟨-, heq⟩
      exact ⟨[bytes₁.drop HEADER_LEN], rfl, by rw [heq]; rfl⟩
  · rw [if_neg hle]
    refine iff_of_false ?_ (fun h => hle h.1)
    rintro ⟨bytes, hb, -⟩
    obtain ⟨x, -, hx⟩ := List.mem_map.mp (hb ▸ List.mem_singleton_self _)
    cases hx

namespace CNetSession

variable {CheckHttpPackkage : List UInt8 → Bool} {s₁ s₂ s₁' s₂' : CNetSession}
variable {rs₁ rs₂ : List Read} {calls₁ calls₂ : List SessionCall}

/-- A frame that fits may arrive in one read. -/
theorem exists_run_frame {F : WsFrame} (hfits : F.header.total ≤ RECV_BUF_SIZE) :
    ∃ calls s', Run (Receives (fun _ => true)) (handshaken 1) [⟨F.bytes, fun _ => 0⟩]
        calls s'
      ∧ TakesAll F [⟨F.bytes, fun _ => 0⟩] s' := by
  obtain ⟨calls, s', hstep, -⟩ :=
    exists_step_of_feeds (Framer.feeds_frame hfits) 1 (fun _ => 0)
  have hread : [(⟨F.bytes, fun _ => 0⟩ : Read)].flatMap Read.data = F.bytes :=
    List.flatMap_singleton _ _
  exact ⟨calls, s', .single hstep, ⟨[], by rw [List.append_nil, hread]⟩, Or.inl hread⟩

/-- The header of a frame of `n` bytes of payload, with no key set. -/
def shortHeader (n : ℕ) (hn : n < 126) : WsHeader := ⟨0x82, true, .bit7, n, hn, fun _ => 0⟩

end CNetSession
