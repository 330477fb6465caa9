import AllServer.Receive

/-!
# Frames that fit the receive buffer

On a stream of frames each of which fits the receive buffer, the receive path
stays aligned: the cursor is at the start of a frame before every read. What
is at the cursor is then a piece of that frame and of those behind it, and
the header code law decides what can be read there: nothing, if the header is
not all there, or the frame's own size and header length
(`HeaderCode.IsFrame.eq_of_decode`). In the first case an empty buffer is
delivered, in the second the frame is waited for or delivered.
-/

open CHttpParser

/-- What is to be delivered for a frame. -/
def WsFrame.delivery (F : WsFrame) : Delivery := (F.bytes, F.header.size)

/-- The deliveries that are not empty. -/
def nonempty (ds : List Delivery) : List Delivery := ds.filter (fun d => d.1 ≠ [])

namespace Framer

/-- **What is read at the start of a frame that fits the receive buffer.** -/
theorem ownVerdict_of_frame {F : WsFrame} (hF : F.header.total < RECV_BUF_SIZE)
    {bytes q : List UInt8} (hpre : bytes <+: F.bytes ++ q)
    (hlen : bytes.length ≤ RECV_BUF_SIZE) :
    ownVerdict bytes = .deliver 0 0
      ∨ bytes.length < F.header.total ∧ ownVerdict bytes = .wait
      ∨ F.header.total ≤ bytes.length
        ∧ ownVerdict bytes = .deliver F.header.total F.header.size := by
  have hmax := RECV_BUF_SIZE_lt
  have hframe : wsCode.IsFrame F.bytes F.header.size :=
    WsFrame.isFrame (hF.trans (hmax.trans MAX_PKG_SIZE_lt))
  unfold ownVerdict
  cases hh : header bytes with
  | none =>
    rw [pkgSize_of_header_none hh, headerSize_of_header_none hh]
    exact Or.inl ((verdict_eq_deliver (by omega)).mpr ⟨Nat.zero_le _, rfl, rfl⟩)
  | some r =>
    have hr : r = (F.bytes.length, F.header.size) := hframe.eq_of_decode hpre hh
    rw [F.length_bytes] at hr
    subst hr
    rw [pkgSize_of_header hh, headerSize_of_header hh]
    rcases Nat.lt_or_ge bytes.length F.header.total with hlt | hle
    · exact Or.inr (Or.inl ⟨hlt, verdict_eq_wait.mpr ⟨hlt, hF⟩⟩)
    · exact Or.inr (Or.inr ⟨hle, (verdict_eq_deliver (by omega)).mpr ⟨hle, rfl, rfl⟩⟩)

/-- **A read of an aligned stream** delivers nothing, an empty buffer or the
frame at the cursor, and leaves the cursor at the start of a frame. -/
theorem feed_aligned {frames : List WsFrame}
    (hframes : ∀ F ∈ frames, F.header.total < RECV_BUF_SIZE) {buf data : List UInt8}
    (ho : Offers ⟨true, none, buf⟩ data)
    (hpre : buf ++ data <+: frames.flatMap WsFrame.bytes) :
    ∃ done rest buf' ds, frames = done ++ rest
      ∧ feed ⟨true, none, buf⟩ data = (⟨true, none, buf'⟩, ds)
      ∧ nonempty ds = done.map WsFrame.delivery
      ∧ buf ++ data = done.flatMap WsFrame.bytes ++ buf' := by
  have hne := ho.front_ne_nil
  have hlen := ho.length_front_le
  rw [feed_of_part_eq_none rfl hne]
  unfold front at hne hlen ⊢
  cases frames with
  | nil => exact absurd (List.prefix_nil.mp hpre) hne
  | cons F rest =>
    rw [List.flatMap_cons] at hpre
    rcases ownVerdict_of_frame (hframes F List.mem_cons_self) hpre hlen
      with hv | ⟨-, hv⟩ | ⟨hle, hv⟩
    · rw [hv]
      exact ⟨[], F :: rest, buf ++ data, _, rfl, rfl, rfl, rfl⟩
    · rw [hv]
      exact ⟨[], F :: rest, buf ++ data, _, rfl, rfl, rfl, rfl⟩
    · -- the frame is all there, and at the front
      obtain ⟨buf', hbuf'⟩ : F.bytes <+: buf ++ data :=
        List.prefix_of_prefix_length_le (List.prefix_append _ _) hpre
          (by rwa [F.length_bytes])
      have htake : (buf ++ data).take F.header.total = F.bytes := by
        rw [← hbuf', List.take_left' F.length_bytes]
      have hdrop : (buf ++ data).drop F.header.total = buf' := by
        rw [← hbuf', List.drop_left' F.length_bytes]
      rw [hv]
      unfold act
      dsimp only
      rw [htake, hdrop]
      refine ⟨[F], rest, buf', _, rfl, rfl, ?_, ?_⟩
      · simp [nonempty, WsFrame.delivery, WsFrame.bytes_ne_nil F]
      · rw [List.flatMap_singleton, hbuf']

/-- **An aligned stream stays aligned** however it is cut into reads. -/
theorem run_aligned {f f' : Framer} {datas : List (List UInt8)} {ds : List Delivery}
    (hr : Run Feeds f datas ds f') {frames : List WsFrame}
    (hframes : ∀ F ∈ frames, F.header.total < RECV_BUF_SIZE) (hopen : f.isOpen = true)
    (hpart : f.part = none)
    (hpre : f.buf ++ datas.flatten <+: frames.flatMap WsFrame.bytes) :
    ∃ done rest, frames = done ++ rest ∧ nonempty ds = done.map WsFrame.delivery
      ∧ f'.isOpen = true ∧ f'.part = none
      ∧ f.buf ++ datas.flatten = done.flatMap WsFrame.bytes ++ f'.buf := by
  induction hr generalizing frames with
  | nil f => exact ⟨[], frames, rfl, rfl, hopen, hpart, List.append_nil _⟩
  | @cons f f₁ f' data datas ds ds' hstep _ ih =>
    obtain ⟨isOpen, part, buf⟩ := f
    obtain rfl : isOpen = true := hopen
    obtain rfl : part = none := hpart
    rw [List.flatten_cons, ← List.append_assoc] at hpre ⊢
    obtain ⟨done, rest, buf', ds₁, rfl, hfeed, hds, hbuf⟩ :=
      feed_aligned hframes hstep.1 ((List.prefix_append _ _).trans hpre)
    obtain ⟨rfl, rfl⟩ := Prod.mk.inj (hstep.2.symm.trans hfeed)
    rw [show buf ++ data = done.flatMap WsFrame.bytes ++ buf' from hbuf] at hpre ⊢
    rw [List.append_assoc, List.flatMap_append, List.prefix_append_right_inj] at hpre
    obtain ⟨done', rest', rfl, hds', hopen', hpart', hbuf'⟩ :=
      ih (fun F hF => hframes F (List.mem_append_right _ hF)) rfl rfl hpre
    refine ⟨done ++ done', rest', (List.append_assoc _ _ _).symm, ?_, hopen', hpart', ?_⟩
    · unfold nonempty
      rw [List.filter_append, List.map_append]
      exact congrArg₂ (· ++ ·) hds hds'
    · rw [List.append_assoc, hbuf', List.flatMap_append, List.append_assoc]

end Framer

namespace CNetSession

variable {CheckHttpPackkage : List UInt8 → Bool} {s s' : CNetSession}
variable {rs : List Read} {calls : List SessionCall}

/-- **Frame alignment**, for frames that fit in the receive buffer and are cut
into reads in any way. The packets that have been delivered are the first of the
frames, each of them whole, and what is buffered is what has come in behind these.
No read need begin where a frame does, so that the induction over the reads is
about a stream of which some frames are done: what is left of it begins with a
frame again. -/
theorem frame_alignment {frames : List WsFrame}
    (hframes : ∀ F ∈ frames, F.header.total < RECV_BUF_SIZE)
    (hs : s.Blank) (hhandler : s.m_IsHandler = true)
    (hr : Run (Receives CheckHttpPackkage) s rs calls s')
    (hpre : rs.flatMap Read.data <+: frames.flatMap WsFrame.bytes) :
    nonempty (deliveries calls) <+: frames.map WsFrame.delivery
      ∧ (nonempty (deliveries calls)).flatMap Prod.fst
          ++ s'.m_pRecvBuf.slice 0 s'.m_dwDataLen = rs.flatMap Read.data
      ∧ s'.m_pCurRecvBuffer = none ∧ s'.m_hSocket = true := by
  have hest := hs.established hhandler
  have hfeeds := hest.feeds hr
  rw [hs.view_eq] at hfeeds
  rw [List.flatMap_def] at hpre ⊢
  obtain ⟨done, rest, rfl, hds, hopen, hpart, hbuf⟩ :=
    Framer.run_aligned hfeeds hframes rfl rfl hpre
  refine ⟨?_, ?_, Option.map_eq_none_iff.mp hpart, hopen⟩
  · rw [hds, List.map_append]
    exact List.prefix_append _ _
  · rw [← (hest.run hr).buffered_eq, hds, ← List.flatMap_def, List.flatMap_map]
    exact hbuf.symm

/-- The same frame twice, in two reads of which the first ends inside a header
and the second inside the next frame. -/
theorem frame_alignment_two_frames :
    let F := WsFrame.short 0x82 ![1, 2, 3, 4] [5, 6] (by decide)
    ∃ calls s', Run (Receives (fun _ => true)) (handshaken 1)
        [⟨[0x82, 0x82, 1, 2, 3], fun _ => 0⟩, ⟨[4, 5, 6, 0x82], fun _ => 0⟩] calls s'
      ∧ nonempty (deliveries calls) <+: [F, F].map WsFrame.delivery
      ∧ (nonempty (deliveries calls)).flatMap Prod.fst
          ++ s'.m_pRecvBuf.slice 0 s'.m_dwDataLen
        = [0x82, 0x82, 1, 2, 3, 4, 5, 6, 0x82] := by
  intro F
  have h₁ : Framer.Feeds Framer.idle [0x82, 0x82, 1, 2, 3] [([], 0)]
      ⟨true, none, [0x82, 0x82, 1, 2, 3]⟩ := ⟨by decide, rfl⟩
  have h₂ : Framer.Feeds ⟨true, none, [0x82, 0x82, 1, 2, 3]⟩ [4, 5, 6, 0x82]
      [F.delivery] ⟨true, none, [0x82]⟩ := ⟨by decide, rfl⟩
  have hframes : ∀ G ∈ [F, F], G.header.total < RECV_BUF_SIZE := by
    simp only [List.mem_cons, List.not_mem_nil, or_false, or_self, forall_eq]
    decide
  have hpre : [0x82, 0x82, 1, 2, 3, 4, 5, 6, 0x82] <+: [F, F].flatMap WsFrame.bytes :=
    ⟨[0x82, 1, 2, 3, 4, 5, 6], rfl⟩
  obtain ⟨calls, s', hr, -, -⟩ :=
    exists_run_of_feeds (.cons h₁ (.single h₂)) 1 (fun _ => 0)
  obtain ⟨hds, hbytes, -, -⟩ :=
    frame_alignment hframes (blank_handshaken 1) rfl hr hpre
  exact ⟨calls, s', hr, hds, hbytes⟩

end CNetSession
