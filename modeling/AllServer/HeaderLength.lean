import AllServer.Reassembly

/-!
# The header length that is passed with a frame

With every packet `ExtractBuffer` passes the length of a header on. That length
is parsed anew in each turn of the loop, from the bytes at the cursor. So a
packet that has been collected over several reads is passed on with the length
of whatever its last read begins with, and so is a packet right behind it. It
is that of their own header exactly if the last read begins with a header in
which the length is written in the same form (`header_length_iff`).
-/

open CHttpParser

namespace CHttpParser

/-- **The bytes begin with a header** that is accepted and in which the length is
written in this form. -/
def BeginsWith (form : LenForm) (bytes : List UInt8) : Prop :=
  ∃ (h : WsHeader) (q : List UInt8), bytes = h.bytes ++ q ∧ h.len < 2 ^ 32 ∧ h.form = form

/-- The forms are told apart by their widths. -/
theorem width_injective : Function.Injective LenForm.width := by
  intro form form' h
  cases form <;> cases form' <;> first | rfl | exact absurd h (by decide)

/-- **The header length** says in which form the length is written. -/
theorem headerSize_eq_iff {bytes : List UInt8} {h₀ : WsHeader} :
    headerSize bytes = h₀.size ↔ BeginsWith h₀.form bytes := by
  constructor
  · intro hsize
    cases hh : header bytes with
    | none =>
      rw [headerSize_of_header_none hh] at hsize
      exact absurd hsize (Nat.succ_ne_zero _).symm
    | some r =>
      obtain ⟨n, k⟩ := r
      rw [headerSize_of_header hh] at hsize
      obtain ⟨h, q, hbytes, hlen, -, hk⟩ := header_eq_some_iff.mp hh
      have hwidth : h.form.width = h₀.form.width :=
        Nat.add_right_cancel (hk.symm.trans hsize : h.form.width + 6 = h₀.form.width + 6)
      exact ⟨h, q, hbytes, hlen, width_injective hwidth⟩
  · rintro ⟨h, q, rfl, hlen, hform⟩
    rw [headerSize_of_header (header_eq_some_iff.mpr ⟨h, q, rfl, hlen, rfl, rfl⟩), WsHeader.size,
      hform]
    rfl

end CHttpParser

/-- **The header length is the frame's own**, if the delivery holds one of the
frames. -/
def OwnHeader (frames : List WsFrame) (d : Delivery) : Prop :=
  ∀ F ∈ frames, d.1 = F.bytes → d.2 = F.header.size

namespace Framer

variable {f : Framer} {data : List UInt8} {F : WsFrame}

/-- The read completes the frame, as the packet that is being collected. -/
def Completes (f : Framer) (data : List UInt8) (F : WsFrame) : Prop :=
  ∃ c n, f.part = some (c, n) ∧ c ++ (f.front data).take f.missing = F.bytes

/-- The frame is behind the packet that the read completes, and is taken off. -/
def TakesBehind (f : Framer) (data : List UInt8) (F : WsFrame) : Prop :=
  F.bytes <+: f.behind data ∧ pkgSize (f.front data) = F.header.total

/-- **The read begins as it should**, if it completes a packet: with a header in
which the length is written in the same form as in the frame that it completes,
and as in the frame that it takes off behind. -/
def BeginsAlike (frames : List WsFrame) (f : Framer) (data : List UInt8) : Prop :=
  f.part ≠ none → f.missing ≤ (f.front data).length →
    ∀ F ∈ frames, f.Completes data F ∨ f.TakesBehind data F →
      BeginsWith F.header.form (f.front data)

/-- What is taken off behind. -/
theorem takesBehind_iff : f.TakesBehind data F
    ↔ pkgSize (f.front data) ≤ (f.behind data).length
      ∧ (f.behind data).take (pkgSize (f.front data)) = F.bytes := by
  unfold TakesBehind
  constructor
  · rintro ⟨hpre, hsize⟩
    have hlen := hpre.length_le
    rw [F.length_bytes, ← hsize] at hlen
    refine ⟨hlen, ?_⟩
    rw [List.prefix_iff_eq_take.mp hpre, F.length_bytes, hsize]
  · rintro ⟨hle, htake⟩
    have hlen := congrArg List.length htake
    rw [List.length_take, Nat.min_eq_left hle, F.length_bytes] at hlen
    exact ⟨htake ▸ List.take_prefix _ _, hlen⟩

/-- **A frame at the cursor** is read with its own header length. -/
theorem headerSize_of_takesBehind (hmax : F.header.total < MAX_PKG_SIZE)
    (hpart : f.part = none) (h : f.TakesBehind data F) :
    headerSize (f.front data) = F.header.size := by
  obtain ⟨q, hq⟩ := h.1
  rw [behind_of_part_eq_none hpart] at hq
  have hframe := wsCode.decode_append q (WsFrame.isFrame (hmax.trans MAX_PKG_SIZE_lt))
  rw [hq] at hframe
  exact headerSize_of_header hframe

/-- **What a read delivers** has its own header length exactly if the read
begins as it should. -/
theorem feed_ownHeader {frames : List WsFrame}
    (hframes : ∀ F ∈ frames, F.header.total < MAX_PKG_SIZE) (ho : f.Offers data) :
    (∀ d ∈ (f.feed data).2, OwnHeader frames d) ↔ f.BeginsAlike frames data := by
  have hbehind : (pkgSize (f.front data) ≤ (f.behind data).length →
        OwnHeader frames ((f.behind data).take (pkgSize (f.front data)),
          headerSize (f.front data)))
      ↔ ∀ F ∈ frames, f.TakesBehind data F → headerSize (f.front data) = F.header.size := by
    simp only [takesBehind_iff]
    exact ⟨fun h F hF ⟨hle, htake⟩ => h hle F hF htake, fun h hle F hF htake => h F hF ⟨hle, htake⟩⟩
  rw [forall_mem_feed ho, BeginsAlike, hbehind]
  by_cases hpart : f.part = none
  · refine iff_of_true (fun _ => ⟨fun c n hsome => ?_, fun F hF htakes => ?_⟩)
      (fun hne => absurd hpart hne)
    · exact absurd (hpart.symm.trans hsome) (Option.some_ne_none _).symm
    · exact headerSize_of_takesBehind (hframes F hF) hpart htakes
  · rw [imp_iff_right hpart]
    refine forall_congr' fun hle => ?_
    simp only [← headerSize_eq_iff]
    constructor
    · rintro ⟨hcompleted, htaken⟩ F hF (⟨c, n, hsome, hbytes⟩ | htakes)
      · exact hcompleted c n hsome F hF hbytes
      · exact htaken F hF htakes
    · intro h
      exact ⟨fun c n hsome F hF hbytes => h F hF (.inl ⟨c, n, hsome, hbytes⟩),
        fun F hF htakes => h F hF (.inr htakes)⟩

end Framer

/-- The call passes a frame on with its own header length, if it passes one of
the frames on. -/
def SessionCall.PassesOwnHeader (frames : List WsFrame) : SessionCall → Prop
  | .OnDataHandle pDataBuffer header_size _ =>
    ∀ F ∈ frames, pDataBuffer.content = F.bytes → header_size = F.header.size
  | _ => True

namespace CNetSession

variable {CheckHttpPackkage : List UInt8 → Bool} {s s' : CNetSession}
variable {rs : List Read} {calls : List SessionCall}

/-- **When the header length travels with its frame**: in every run exactly as
long as every read that completes a packet begins as it should. -/
theorem header_length_iff (frames : List WsFrame)
    (hframes : ∀ F ∈ frames, F.header.total < MAX_PKG_SIZE) (hs : s.Blank)
    (hhandler : s.m_IsHandler = true) :
    Run ((Receives CheckHttpPackkage).where fun s r _ _ => s.view.BeginsAlike frames r.data)
        s rs calls s'
      ↔ Run (Receives CheckHttpPackkage) s rs calls s'
        ∧ ∀ call ∈ calls, call.PassesOwnHeader frames := by
  refine Run.where_iff_outputs Established.step (fun s r calls s' hs h => ?_)
    (hs.established hhandler)
  have hfed := hs.fed h
  have hcalls : (∀ call ∈ calls, call.PassesOwnHeader frames)
      ↔ ∀ d ∈ deliveries calls, OwnHeader frames d :=
    forall_mem_deliveries hfed.whole (fun _ _ _ _ => Iff.rfl) (fun _ => trivial)
      (fun _ _ => trivial)
  rw [hcalls, hfed.deliveries_eq]
  exact (Framer.feed_ownHeader hframes (hs.offers_iff.mp h.1)).symm

/-- A frame of 8192 bytes whose last read is eight bytes of its payload, which
look like the header of an empty frame with a length in two bytes. -/
theorem header_length_iff_alike :
    ∃ (F : WsFrame) (front tail : List UInt8) (calls : List SessionCall) (s' : CNetSession),
      F.header.total = RECV_BUF_SIZE ∧ F.bytes = front ++ tail
      ∧ Run (Receives (fun _ => true)) (handshaken 1)
        [⟨front, fun _ => 0⟩, ⟨tail, fun _ => 0⟩] calls s'
      ∧ ∀ call ∈ calls, call.PassesOwnHeader [F] := by
  let tail : List UInt8 := [0, 0x7e, 0, 0, 0, 0, 0, 0]
  obtain ⟨F, front, htotal, hsplit, hsize, hfront⟩ :=
    exists_frame_of_tail (show 8176 + tail.length = 8184 from rfl)
  have hmax : F.header.total < MAX_PKG_SIZE := htotal ▸ by decide
  obtain ⟨calls, s', hr, -⟩ := exists_run_of_split F htotal.ge hmax hsplit (by omega)
    (by rw [hfront]; decide) (by decide) (by decide)
  have hblank := blank_handshaken 1
  cases hr with
  | @cons _ s₁ _ _ _ calls₁ calls₂ h₁ hrest =>
    have h₂ := hrest.step_of_single
    have hest := hblank.established rfl
    have hview : s₁.view = ⟨true, some (front, F.header.total), []⟩ := by
      rw [(hest.fed h₁).view_eq, hblank.view_eq, Framer.feed_idle_of_prefix htotal.ge hmax
        ⟨tail, hsplit.symm⟩ (by omega) (by rw [hfront, htotal]; decide)]
    have hform : F.header.form = .bit16 := by
      have hwidth : F.header.form.width + 6 = 8 := hsize
      cases hf : F.header.form <;> rw [hf] at hwidth <;>
        first | rfl | exact absurd hwidth (by decide)
    have hcond₁ : (handshaken 1).view.BeginsAlike [F] front := by
      rw [hblank.view_eq]
      exact fun h => absurd rfl h
    have hcond₂ : s₁.view.BeginsAlike [F] tail := by
      intro _ _ F' hF' _
      obtain rfl := List.mem_singleton.mp hF'
      rw [hview, hform]
      show BeginsWith .bit16 [0, 0x7e, 0, 0, 0, 0, 0, 0]
      exact ⟨⟨0, false, .bit16, 0, by decide, fun _ => 0⟩, [], by decide, by decide, rfl⟩
    exact ⟨F, front, tail, _, s', htotal, hsplit, (header_length_iff [F] (by simpa using hmax)
      hblank rfl).mp (.cons ⟨h₁, hcond₁⟩ (.single ⟨h₂, hcond₂⟩))⟩

/-- A frame of 8192 bytes with a header of eight, whose last read is eight bytes of
its payload that are 0, is delivered with the length 6. -/
theorem exists_run_zeros : ∃ (F : WsFrame) (front tail : List UInt8) (f : Framer),
    F.header.total = RECV_BUF_SIZE ∧ F.header.size = 8 ∧ F.bytes = front ++ tail
      ∧ Run Framer.Feeds Framer.idle [front, tail] [(F.bytes, 6)] f := by
  let tail : List UInt8 := [0, 0, 0, 0, 0, 0, 0, 0]
  obtain ⟨F, front, htotal, hsplit, hsize, hfront⟩ :=
    exists_frame_of_tail (show 8176 + tail.length = 8184 from rfl)
  have hmax : F.header.total < MAX_PKG_SIZE := htotal ▸ by decide
  have hlen : front.length + tail.length = F.header.total := by rw [hfront, htotal]; rfl
  have htail : tail.length = 8 := rfl
  have hfeed := Framer.feed_idle_of_prefix htotal.ge hmax ⟨tail, hsplit.symm⟩ (by omega)
    (by omega)
  have h₁ : Framer.Feeds Framer.idle front [] ⟨true, some (front, F.header.total), []⟩ := by
    refine ⟨⟨rfl, ?_, fun hnil => ?_⟩, hfeed⟩
    · rw [hfront]
      decide
    · rw [hnil] at hfront
      exact absurd hfront (by decide)
  have hcompletes : Framer.feed ⟨true, some (front, F.header.total), []⟩ (tail ++ []) = _ :=
    Framer.feed_of_completes (by omega) hlen
  rw [← hsplit] at hcompletes
  have h₂ : Framer.Feeds ⟨true, some (front, F.header.total), []⟩ tail [(F.bytes, 6)] _ :=
    ⟨⟨rfl, show 8 ≤ RECV_BUF_SIZE by decide, fun h => absurd h (List.cons_ne_nil _ _)⟩, hcompletes⟩
  exact ⟨F, front, tail, _, htotal, hsize, hsplit, .cons h₁ (.single h₂)⟩

/-- It is not true that the header length always travels with its frame: a frame
of 8192 bytes with a header of eight has a last read that begins with zeros, and
is passed on with the length 6. -/
theorem not_header_length : ¬ ∀ (CheckHttpPackkage : List UInt8 → Bool) (frames : List WsFrame)
    (s s' : CNetSession) (rs : List Read) (calls : List SessionCall),
    (∀ F ∈ frames, 6 ≤ F.header.total ∧ F.header.total < MAX_PKG_SIZE) → s.Blank →
    s.m_IsHandler = true → rs.flatMap Read.data = frames.flatMap WsFrame.bytes →
    Run (Receives CheckHttpPackkage) s rs calls s' →
    ∀ call ∈ calls, call.PassesOwnHeader frames := by
  intro h
  obtain ⟨F, front, tail, f, htotal, hsize, hsplit, hfeeds⟩ := exists_run_zeros
  have hframe : 6 ≤ F.header.total ∧ F.header.total < MAX_PKG_SIZE := by
    rw [htotal]
    decide
  obtain ⟨calls, s', hr, hds, -⟩ :=
    @exists_run_of_feeds (fun _ => true) _ _ _ hfeeds 1 (fun _ => 0)
  have hmem : (F.bytes, 6) ∈ deliveries calls := by
    rw [hds]
    exact List.mem_singleton_self _
  obtain ⟨call, hcall, hdelivery⟩ := List.mem_filterMap.mp hmem
  have hown := h _ [F] _ _ _ _ (by simpa using hframe) (blank_handshaken 1) rfl
    (by simp [hsplit]) hr call hcall
  cases call with
  | OnDataHandle b header_size n =>
    obtain ⟨hcontent, rfl⟩ := Prod.mk.inj (Option.some.inj hdelivery)
    have hsix := hown F (List.mem_singleton_self F) hcontent
    omega
  | OnCloseConnect | async_read_some => cases hdelivery

end CNetSession
