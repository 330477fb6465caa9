import AllServer.Receive

/-!
# Frames that do not fit the receive buffer

A frame of at least `RECV_BUF_SIZE` bytes is collected over several reads.
The read that brings its last byte completes it, and may bring more bytes
behind. What is done about those is decided by a size that was parsed where
the read begins, which is inside the payload of the frame that is completed.
`big_frame_reassembled` says when this does no harm: when the verdict by that
size is what the bytes behind would have got by themselves, or, with nothing
behind, when it is to wait. What verdict it is depends on the payload.
-/

open CHttpParser

namespace Framer

/-! ## Collecting a frame -/

/-- **The first read of a frame that does not fit** begins to collect it. -/
theorem feed_idle_of_prefix {F : WsFrame} (hbig : RECV_BUF_SIZE ≤ F.header.total)
    (hmax : F.header.total < MAX_PKG_SIZE) {data : List UInt8} (hpre : data <+: F.bytes)
    (hsize : F.header.size ≤ data.length) (hlt : data.length < F.header.total) :
    idle.feed data = (⟨true, some (data, F.header.total), []⟩, []) := by
  have hheader : header data = some (F.header.total, F.header.size) :=
    WsFrame.header_of_prefix (hmax.trans MAX_PKG_SIZE_lt) hpre hsize
  have hne : data ≠ [] := by
    have hpos : 0 < data.length := lt_of_lt_of_le (Nat.succ_pos _) hsize
    exact List.ne_nil_of_length_pos hpos
  have hverdict : ownVerdict data = .collect F.header.total := by
    unfold ownVerdict
    rw [pkgSize_of_header hheader]
    exact verdict_eq_collect.mpr ⟨hlt, hbig, hmax, rfl⟩
  rw [feed_idle, if_neg hne, hverdict]
  rfl

/-- **Further reads are collected** as long as they do not complete it. -/
theorem run_collecting {f f' : Framer} {datas : List (List UInt8)} {ds : List Delivery}
    (hr : Run Feeds f datas ds f') {c : List UInt8} {n : ℕ}
    (hf : f = ⟨true, some (c, n), []⟩) (hlt : c.length + datas.flatten.length < n) :
    f' = ⟨true, some (c ++ datas.flatten, n), []⟩ ∧ ds = [] := by
  induction hr generalizing c with
  | nil f => exact ⟨by rw [hf, List.flatten_nil, List.append_nil], rfl⟩
  | @cons f f₁ f' data datas ds ds' hstep _ ih =>
    subst hf
    rw [List.flatten_cons, List.length_append] at hlt
    have hmissing : (front ⟨true, some (c, n), []⟩ data).length
        < missing ⟨true, some (c, n), []⟩ := by
      show data.length < n - c.length
      omega
    obtain ⟨c', n', hpart, hfeed⟩ := feed_of_lt_missing hmissing
    obtain ⟨rfl, rfl⟩ := Prod.mk.inj (Option.some.inj hpart)
    obtain ⟨rfl, rfl⟩ := Prod.mk.inj (hstep.2.symm.trans hfeed)
    obtain ⟨hf', rfl⟩ := ih rfl (by
      show (c ++ data).length + datas.flatten.length < n
      rw [List.length_append]
      omega)
    refine ⟨hf'.trans ?_, rfl⟩
    rw [List.flatten_cons, ← List.append_assoc]
    rfl

/-- **The read that completes the packet**: the bytes behind are dealt with by
the header parsed where the read begins. -/
theorem feed_of_completes {c tail rest : List UInt8} {n : ℕ} (hlt : c.length < n)
    (htail : c.length + tail.length = n) :
    feed ⟨true, some (c, n), []⟩ (tail ++ rest)
      = ((act true rest (verdict (pkgSize (tail ++ rest)) (headerSize (tail ++ rest))
          rest.length)).1,
        (c ++ tail, headerSize (tail ++ rest))
          :: (act true rest (verdict (pkgSize (tail ++ rest)) (headerSize (tail ++ rest))
            rest.length)).2) := by
  set f : Framer := ⟨true, some (c, n), []⟩ with hf
  have hmissing : f.missing = tail.length := show n - c.length = tail.length by omega
  have hfront : f.front (tail ++ rest) = tail ++ rest := rfl
  have hne : f.front (tail ++ rest) ≠ [] := by
    have hpos : 0 < tail.length := by omega
    exact List.append_ne_nil_of_left_ne_nil (List.ne_nil_of_length_pos hpos) rest
  have hle : f.missing ≤ (f.front (tail ++ rest)).length := by
    rw [hmissing, hfront, List.length_append]
    exact Nat.le_add_right _ _
  have hbehind : f.behind (tail ++ rest) = rest := by
    unfold behind
    rw [hmissing, hfront, List.drop_left]
  have hcompleted : f.completed (tail ++ rest)
      = [(c ++ tail, headerSize (tail ++ rest))] := by
    show [(c ++ (f.front (tail ++ rest)).take f.missing, _)] = _
    rw [hmissing, hfront, List.take_left]
  rw [feed_of_missing_le hne hle, decision, hbehind, hcompleted, hfront]
  rfl

/-! ## When the bytes behind are not disturbed -/

/-- **The bytes behind a completed packet are dealt with as they should be**,
though by the header at the front of the last read: with nothing behind, the
verdict is to wait; otherwise it is the bytes' own, which does not close the
session. -/
def Undisturbed (last rest : List UInt8) : Prop :=
  if rest = [] then
    verdict (pkgSize last) (headerSize last) 0 = .wait
  else
    verdict (pkgSize last) (headerSize last) rest.length = ownVerdict rest
      ∧ ownVerdict rest ≠ .close

instance (last rest : List UInt8) : Decidable (Undisturbed last rest) := by
  delta Undisturbed
  infer_instance

/-- **Different verdicts do different things** to bytes that are there. -/
theorem verdict_eq_of_act_eq {rest : List UInt8} (hne : rest ≠ [])
    (hlen : rest.length < MAX_PKG_SIZE) {p h p' h' : ℕ}
    (heq : act true rest (verdict p h rest.length) = act true rest (verdict p' h' rest.length)) :
    verdict p h rest.length = verdict p' h' rest.length := by
  cases hv : verdict p h rest.length with
  | close | wait | collect n =>
    cases hv' : verdict p' h' rest.length <;> simp_all [act]
  | deliver n k =>
    cases hv' : verdict p' h' rest.length with
    | close | wait | collect n' => simp_all [act]
    | deliver n' k' =>
      obtain ⟨hn, rfl, -⟩ := (verdict_eq_deliver hlen).mp hv
      obtain ⟨hn', rfl, -⟩ := (verdict_eq_deliver hlen).mp hv'
      rw [hv, hv'] at heq
      have hout : [(rest.take n, k)] = [(rest.take n', k')] := congrArg Prod.snd heq
      obtain ⟨htake, rfl⟩ := Prod.mk.inj (List.singleton_inj.mp hout)
      have hlength := congrArg List.length htake
      rw [List.length_take, List.length_take, Nat.min_eq_left hn, Nat.min_eq_left hn']
        at hlength
      rw [hlength]

/-- **When what is done about the bytes behind** is what would be done had
they arrived alone. -/
theorem act_eq_feed_idle_iff {last rest : List UInt8} (hlen : rest.length < MAX_PKG_SIZE) :
    ((act true rest (verdict (pkgSize last) (headerSize last) rest.length)).1.isOpen = true
        ∧ act true rest (verdict (pkgSize last) (headerSize last) rest.length)
          = idle.feed rest)
      ↔ Undisturbed last rest := by
  rw [feed_idle, Undisturbed]
  split_ifs with hnil
  · subst hnil
    show (act true [] (verdict _ _ 0)).1.isOpen = true ∧ act true [] (verdict _ _ 0) = _ ↔ _
    cases verdict (pkgSize last) (headerSize last) 0 <;> simp [act, idle]
  · constructor
    · rintro ⟨hopen, heq⟩
      have hv := verdict_eq_of_act_eq hnil hlen heq
      refine ⟨hv, fun hclose => ?_⟩
      rw [heq, hclose] at hopen
      exact absurd hopen Bool.false_ne_true
    · rintro ⟨hv, hclose⟩
      rw [hv]
      refine ⟨?_, rfl⟩
      cases hown : ownVerdict rest with
      | close => exact absurd hown hclose
      | wait | deliver | collect => rfl

/-! ## A whole frame and what is behind it -/

variable {F : WsFrame} {f : Framer} {datas : List (List UInt8)} {ds : List Delivery}
variable {last rest : List UInt8}

/-- A frame that arrives in one read fills the receive buffer. -/
theorem feeds_whole_frame (hbig : RECV_BUF_SIZE ≤ F.header.total)
    (hstep : Feeds idle (F.bytes ++ rest) ds f) :
    rest = [] ∧ f = idle ∧ ds = [(F.bytes, F.header.size)] := by
  obtain ⟨ho, hfeed⟩ := hstep
  have hfull : F.header.total + rest.length ≤ RECV_BUF_SIZE := by
    have hlen := ho.length_front_le
    rw [show idle.front (F.bytes ++ rest) = F.bytes ++ rest from rfl, List.length_append,
      F.length_bytes] at hlen
    exact hlen
  have hrest : rest = [] := List.length_eq_zero_iff.mp (by omega)
  subst hrest
  rw [List.append_nil, (feeds_frame (by omega)).2] at hfeed
  obtain ⟨rfl, rfl⟩ := Prod.mk.inj hfeed
  exact ⟨rfl, rfl, rfl⟩

/-- **A frame in more than one read**: it is collected, and the last read
completes it. -/
theorem run_collected (hbig : RECV_BUF_SIZE ≤ F.header.total)
    (hmax : F.header.total < MAX_PKG_SIZE) {data : List UInt8}
    (hr : Run Feeds idle (data :: datas) ds f) (hpre : (data :: datas).flatten <+: F.bytes)
    (hlt : (data :: datas).flatten.length < F.header.total)
    (hsize : F.header.size ≤ data.length) :
    f = ⟨true, some ((data :: datas).flatten, F.header.total), []⟩ ∧ ds = [] := by
  rw [List.flatten_cons] at hpre hlt ⊢
  rw [List.length_append] at hlt
  cases hr with
  | cons hstep hrest =>
    have hfeed := feed_idle_of_prefix hbig hmax ((List.prefix_append _ _).trans hpre) hsize
      (by omega)
    obtain ⟨rfl, rfl⟩ := Prod.mk.inj (hstep.2.symm.trans hfeed)
    exact run_collecting hrest rfl hlt

/-- **When a big frame is reassembled** and the bytes behind it are dealt with
as if they had arrived alone. -/
theorem run_reassembled_iff (hbig : RECV_BUF_SIZE ≤ F.header.total)
    (hmax : F.header.total < MAX_PKG_SIZE)
    (hr : Run Feeds idle (datas ++ [last]) ds f)
    (hbytes : datas.flatten ++ last = F.bytes ++ rest)
    (hlt : datas.flatten.length < F.header.total)
    (hsize : ∀ data ∈ datas.head?, F.header.size ≤ data.length) :
    (f.isOpen = true
        ∧ ∃ hdr, ds = (F.bytes, hdr) :: (idle.feed rest).2 ∧ f = (idle.feed rest).1)
      ↔ datas = [] ∨ Undisturbed last rest := by
  cases datas with
  | nil =>
    obtain rfl : last = F.bytes ++ rest := hbytes
    obtain ⟨rfl, rfl, rfl⟩ := feeds_whole_frame hbig hr.step_of_single
    exact iff_of_true ⟨rfl, F.header.size, rfl, rfl⟩ (Or.inl rfl)
  | cons data datas =>
    obtain ⟨f₁, ds₁, ds₂, hcollect, hlast, rfl⟩ := hr.exists_of_append
    obtain ⟨tail, hframe, hsplit⟩ : ∃ tail, F.bytes = (data :: datas).flatten ++ tail
        ∧ last = tail ++ rest := by
      rcases List.append_eq_append_iff.mp hbytes with ⟨tail, h₁, h₂⟩ | ⟨tail, h₁, -⟩
      · exact ⟨tail, h₁, h₂⟩
      · rw [h₁, List.length_append, F.length_bytes] at hlt
        omega
    obtain ⟨rfl, rfl⟩ := run_collected hbig hmax hcollect ⟨tail, hframe.symm⟩ hlt
      (hsize data rfl)
    obtain ⟨ho, hfeed⟩ := hlast.step_of_single
    have hlen : rest.length < MAX_PKG_SIZE := by
      have h := ho.length_front_le
      rw [show front _ last = last from rfl, hsplit, List.length_append] at h
      have hbuf := RECV_BUF_SIZE_lt
      omega
    have htail : (data :: datas).flatten.length + tail.length = F.header.total := by
      rw [← List.length_append, ← hframe, F.length_bytes]
    rw [hsplit, feed_of_completes hlt htail, ← hframe, ← hsplit] at hfeed
    obtain ⟨rfl, rfl⟩ := Prod.mk.inj hfeed
    rw [or_iff_right (List.cons_ne_nil _ _), ← act_eq_feed_idle_iff hlen, List.nil_append]
    refine and_congr_right' ⟨?_, fun h => ?_⟩
    · rintro ⟨hdr, hds, hf⟩
      exact Prod.ext hf (List.cons.inj hds).2
    · exact ⟨headerSize last, congrArg (_ :: ·) (congrArg Prod.snd h), congrArg Prod.fst h⟩

end Framer

namespace CNetSession

variable {CheckHttpPackkage : List UInt8 → Bool} {s s' : CNetSession}
variable {rs : List Read} {r : Read} {calls : List SessionCall}

/-- **When a big frame is reassembled**: with the read that brings its last byte
it is delivered, the session is open and what is behind it has been handled as in
an idle session. The header is parsed of whatever a read begins with, which for
the last read of the frame are bytes of its payload, and the size this gives is
used for what is behind the frame. So the condition is about that read alone. -/
theorem big_frame_reassembled {F : WsFrame} (hbig : RECV_BUF_SIZE ≤ F.header.total)
    (hmax : F.header.total < MAX_PKG_SIZE) {rest : List UInt8} (hs : s.Blank)
    (hhandler : s.m_IsHandler = true)
    (hr : Run (Receives CheckHttpPackkage) s (rs ++ [r]) calls s')
    (hbytes : rs.flatMap Read.data ++ r.data = F.bytes ++ rest)
    (hlt : (rs.flatMap Read.data).length < F.header.total)
    (hsize : ∀ r₀ ∈ rs.head?, F.header.size ≤ r₀.data.length) :
    (s'.m_hSocket = true ∧ ∃ hdr s₁ calls₁,
        HandReaddata CheckHttpPackkage ⟨rest, r.fresh⟩ s = .ok (s₁, calls₁)
          ∧ deliveries calls = (F.bytes, hdr) :: deliveries calls₁ ∧ s'.view = s₁.view)
      ↔ rs = [] ∨ Framer.Undisturbed r.data rest := by
  have hest := hs.established hhandler
  have hfeeds := hest.feeds hr
  rw [hs.view_eq, List.map_append] at hfeeds
  rw [List.flatMap_def] at hbytes hlt
  have hroom : rest.length ≤ RECV_BUF_SIZE - s.m_dwDataLen := by
    obtain ⟨t, _, _, -, hlast, -⟩ := hr.exists_of_append
    have hoffer := hlast.step_of_single.1.2.1
    have hlen := congrArg List.length hbytes
    rw [List.length_append, List.length_append, F.length_bytes] at hlen
    rw [hs.dataLen_eq]
    omega
  obtain ⟨s₁, calls₁, hok, hfed⟩ := HandReaddata_of_handler CheckHttpPackkage
    (r := ⟨rest, r.fresh⟩) hs.ready hs.isOpen hhandler hroom
  have hsize' : ∀ data ∈ (rs.map Read.data).head?, F.header.size ≤ data.length := by
    intro data hdata
    rw [List.head?_map] at hdata
    obtain ⟨r₀, hr₀, rfl⟩ := Option.mem_map.mp hdata
    exact hsize r₀ hr₀
  have hview := hfed.view_eq
  have hds := hfed.deliveries_eq
  rw [hs.view_eq] at hview hds
  have hiff := Framer.run_reassembled_iff hbig hmax hfeeds hbytes hlt hsize'
  rw [List.map_eq_nil_iff, ← hview, ← hds] at hiff
  rw [← hiff, hok]
  refine and_congr_right' ⟨?_, fun ⟨hdr, h⟩ => ⟨hdr, s₁, calls₁, rfl, h⟩⟩
  rintro ⟨hdr, s₂, calls₂, hok₂, h⟩
  obtain ⟨rfl, rfl⟩ := Prod.mk.inj (Except.ok.inj hok₂)
  exact ⟨hdr, h⟩

/-- A big frame may arrive in two reads. -/
theorem exists_run_of_split (F : WsFrame) (hbig : RECV_BUF_SIZE ≤ F.header.total)
    (hmax : F.header.total < MAX_PKG_SIZE) {front tail : List UInt8}
    (hsplit : F.bytes = front ++ tail) (hsize : F.header.size ≤ front.length)
    (hfront : front.length ≤ RECV_BUF_SIZE) (hpos : 0 < tail.length)
    (htail : tail.length ≤ RECV_BUF_SIZE) :
    ∃ calls s', Run (Receives CheckHttpPackkage) (handshaken 1)
        [⟨front, fun _ => 0⟩, ⟨tail, fun _ => 0⟩] calls s'
      ∧ s'.view.isOpen = (Framer.act true []
          (Framer.verdict (pkgSize tail) (headerSize tail) 0)).1.isOpen := by
  have hlen : front.length + tail.length = F.header.total := by
    rw [← List.length_append, ← hsplit, F.length_bytes]
  have hfeed := Framer.feed_idle_of_prefix hbig hmax ⟨tail, hsplit.symm⟩ hsize (by omega)
  have h₁ : Framer.Feeds Framer.idle front [] ⟨true, some (front, F.header.total), []⟩ := by
    refine ⟨⟨rfl, hfront, fun hnil => ?_⟩, hfeed⟩
    rw [hnil] at hsize
    exact absurd hsize (Nat.not_succ_le_zero _)
  have h₂ : Framer.Offers ⟨true, some (front, F.header.total), []⟩ tail :=
    ⟨rfl, htail, fun hnil => absurd hpos (by rw [hnil]; exact Nat.lt_irrefl 0)⟩
  obtain ⟨calls, s', hr, -, hview⟩ :=
    exists_run_of_feeds (.cons h₁ (.single h₂.feeds)) 1 (fun _ => 0)
  refine ⟨calls, s', hr, ?_⟩
  have hcomplete : Framer.feed ⟨true, some (front, F.header.total), []⟩ (tail ++ []) = _ :=
    Framer.feed_of_completes (by omega) hlen
  rw [List.append_nil] at hcomplete
  rw [hview, hcomplete]
  rfl

/-- A frame of 8192 bytes that ends with the given bytes and is filled with 0
in front of them. -/
theorem exists_frame_of_tail {k : ℕ} {tail : List UInt8} (h : k + tail.length = 8184) :
    ∃ (F : WsFrame) (front : List UInt8), F.header.total = RECV_BUF_SIZE
      ∧ F.bytes = front ++ tail ∧ F.header.size = 8 ∧ front.length = 8 + k := by
  have hlen : (List.replicate k 0 ++ tail).length = 8184 := by
    rw [List.length_append, List.length_replicate, h]
  let F := WsFrame.extended 0x82 ![1, 2, 3, 4] (List.replicate k 0 ++ tail)
    (by rw [hlen]; decide)
  refine ⟨F, F.header.bytes ++ List.replicate k 0, ?_, (List.append_assoc _ _ _).symm, rfl, ?_⟩
  · rw [WsFrame.total_extended, hlen]
    rfl
  · rw [List.length_append, WsHeader.length_bytes, List.length_replicate]
    rfl

/-- A frame of 8192 bytes that are 0 behind its header, in two halves. -/
theorem big_frame_reassembled_zeros :
    ∃ (F : WsFrame) (front tail : List UInt8) (calls : List SessionCall) (s' : CNetSession),
      F.header.total = RECV_BUF_SIZE ∧ F.bytes = front ++ tail
      ∧ tail = List.replicate 4096 0
      ∧ Run (Receives (fun _ => true)) (handshaken 1)
        [⟨front, fun _ => 0⟩, ⟨tail, fun _ => 0⟩] calls s'
      ∧ s'.m_hSocket = true ∧ ∃ hdr s₁ calls₁,
        HandReaddata (fun _ => true) ⟨[], fun _ => 0⟩ (handshaken 1) = .ok (s₁, calls₁)
          ∧ deliveries calls = (F.bytes, hdr) :: deliveries calls₁ ∧ s'.view = s₁.view := by
  obtain ⟨tail, htail⟩ : ∃ tail : List UInt8, tail = List.replicate 4096 0 := ⟨_, rfl⟩
  have hlen : tail.length = 4096 := by rw [htail, List.length_replicate]
  obtain ⟨F, front, htotal, hsplit, hsize, hfront⟩ :=
    exists_frame_of_tail (show 4088 + tail.length = 8184 by rw [hlen])
  have hmax : F.header.total < MAX_PKG_SIZE := htotal ▸ by decide
  obtain ⟨calls, s', hr, -⟩ := exists_run_of_split F htotal.ge hmax hsplit
    (by omega) (by rw [hfront]; decide) (by omega) (by rw [hlen]; decide)
  have hundisturbed : Framer.Undisturbed tail [] := by
    have hheader : header tail = some (6, 6) := by
      let h : WsHeader := ⟨0, false, .bit7, 0, by decide, fun _ => 0⟩
      have hbytes : tail = h.bytes ++ List.replicate 4090 0 := by
        rw [htail, show h.bytes = List.replicate 6 0 by decide, ← List.replicate_add]
      rw [hbytes, header_bytes]
      rfl
    unfold Framer.Undisturbed
    rw [if_pos rfl, pkgSize_of_header hheader, headerSize_of_header hheader]
    rfl
  have hr' : Run (Receives (fun _ => true)) (handshaken 1)
      ([⟨front, fun _ => 0⟩] ++ [⟨tail, fun _ => 0⟩]) calls s' := hr
  have hflat : [(⟨front, fun _ => 0⟩ : Read)].flatMap Read.data = front :=
    List.flatMap_singleton _ _
  have hiff := big_frame_reassembled htotal.ge hmax (blank_handshaken 1) rfl hr'
    (by rw [hflat, ← hsplit, List.append_nil]) (by rw [hflat, hfront, htotal]; decide)
    (by rintro r₀ ⟨⟩; show F.header.size ≤ front.length; omega)
  exact ⟨F, front, tail, calls, s', htotal, hsplit, htail, hr, hiff.mpr (Or.inr hundisturbed)⟩

/-- **A frame of 8192 bytes whose last read is eight bytes of its payload**
that look like the header of a frame of 65543 bytes: the session is closed. -/
theorem big_frame_closes :
    ∃ (F : WsFrame) (front tail : List UInt8) (calls : List SessionCall) (s' : CNetSession),
      F.header.total = RECV_BUF_SIZE ∧ F.bytes = front ++ tail
      ∧ F.header.size ≤ front.length
      ∧ tail = [0, 0x7e, 0xff, 0xff, 0, 0, 0, 0]
      ∧ Run (Receives (fun _ => true)) (handshaken 1)
        [⟨front, fun _ => 0⟩, ⟨tail, fun _ => 0⟩] calls s'
      ∧ s'.m_hSocket = false := by
  let tail : List UInt8 := [0, 0x7e, 0xff, 0xff, 0, 0, 0, 0]
  obtain ⟨F, front, htotal, hsplit, hsize, hfront⟩ :=
    exists_frame_of_tail (show 8176 + tail.length = 8184 from rfl)
  obtain ⟨calls, s', hr, hopen⟩ := exists_run_of_split F htotal.ge (htotal ▸ by decide) hsplit
    (by omega) (by rw [hfront]; decide) (by decide) (by decide)
  exact ⟨F, front, tail, calls, s', htotal, hsplit, by omega, rfl, hr, hopen⟩

end CNetSession
