import AllServer.Receive

/-!
# What holds along every run of a session

Two properties that no header can break, of arbitrary bytes in arbitrary
reads. The receive path **loses nothing**: what has been delivered, then what
is being collected, then what waits in the receive buffer, is what was
received since the handshake, byte for byte (`byte_conservation`). And it is
**safe**: every read is handled without reading or writing outside an array,
without wrapping around in a subtraction and within two turns of the loop,
before the handshake as after it (`receive_safe`).
-/

/-! ## Bytes are conserved -/

namespace Framer

/-- The bytes a framer holds, in the order in which they were received. -/
def held (f : Framer) : List UInt8 := (f.part.map Prod.fst).getD [] ++ f.buf

/-- **Carrying out a verdict**, on any bytes and whatever the verdict, keeps
them all. -/
theorem act_conserves (isOpen : Bool) (rest : List UInt8) (v : Verdict) :
    (act isOpen rest v).2.flatMap Prod.fst ++ (act isOpen rest v).1.held = rest := by
  cases v with
  | close => rfl
  | wait => rfl
  | deliver size headerSize => simp [act, held]
  | collect size => simp [act, held]

/-- **A read** adds its bytes to those held, and a delivery takes its bytes
off the front. -/
theorem feed_conserves (f : Framer) (data : List UInt8) :
    f.held ++ data = (f.feed data).2.flatMap Prod.fst ++ (f.feed data).1.held := by
  have hheld : f.held ++ data = (f.part.map Prod.fst).getD [] ++ f.front data :=
    List.append_assoc _ _ _
  by_cases hnil : f.front data = []
  · rw [feed, if_pos hnil, hheld, hnil, held, (List.append_eq_nil_iff.mp hnil).1]
    rfl
  rcases Nat.lt_or_ge (f.front data).length f.missing with hlt | hle
  · obtain ⟨c, n, hpart, hfeed⟩ := feed_of_lt_missing hlt
    rw [hheld, hfeed, hpart]
    simp [held]
  · have hact := act_conserves f.isOpen (f.behind data) (f.decision data)
    have htake := List.take_append_drop f.missing (f.front data)
    rw [hheld, feed_of_missing_le hnil hle, List.flatMap_append, List.append_assoc, hact]
    cases hpart : f.part with
    | none => simp [completed, hpart, behind_of_part_eq_none hpart]
    | some cn => simp [completed, hpart, behind, htake]

/-- The bytes fed to a framer along a run are delivered or held. -/
theorem run_conserves {f f' : Framer} {datas : List (List UInt8)} {ds : List Delivery}
    (hr : Run Feeds f datas ds f') :
    f.held ++ datas.flatten = ds.flatMap Prod.fst ++ f'.held := by
  have h : f.held ++ datas.flatMap id = ds.flatMap Prod.fst ++ f'.held := by
    refine hr.conserved (fun f data ds f' hstep => ?_)
    rw [id_eq, feed_conserves, hstep.2]
  rwa [List.flatMap_id] at h

end Framer

namespace CNetSession

variable {CheckHttpPackkage : List UInt8 → Bool} {s s' : CNetSession}
variable {rs : List Read} {calls : List SessionCall}

/-- The bytes in use of the packet that is being collected, if there is
one. -/
def collected (s : CNetSession) : List UInt8 :=
  (s.m_pCurRecvBuffer.map CDataBuffer.content).getD []

/-- What the framer holds is what the session collects and what waits in its
receive buffer. -/
theorem Ready.held_view (hs : s.Ready) :
    s.view.held = s.collected ++ s.m_pRecvBuf.slice 0 s.m_dwDataLen := by
  rw [← hs.buffered_eq, Framer.held, collected, view]
  cases s.m_pCurRecvBuffer <;> rfl

/-- **Byte conservation of the receive path.** What the session has delivered,
then what it has collected and what is in its buffer, is what it has received,
also where it closes itself. The buffer is moved to the front while packets are
copied out of it, so that no single read tells this. What is carried through a run
is the abstract framer, whose packets and rest are the stream at every moment. -/
theorem byte_conservation (hs : s.Blank) (hhandler : s.m_IsHandler = true)
    (hr : Run (Receives CheckHttpPackkage) s rs calls s') :
    (deliveries calls).flatMap Prod.fst
        ++ (s'.collected ++ s'.m_pRecvBuf.slice 0 s'.m_dwDataLen)
      = rs.flatMap Read.data := by
  have hest := hs.established hhandler
  have h := Framer.run_conserves (hest.feeds hr)
  rw [hs.view_eq, (hest.run hr).held_view] at h
  rw [← h, List.flatMap_def]
  rfl

/-- A frame of two payload bytes in two reads, the first of which ends inside
its header. -/
theorem byte_conservation_two_reads :
    ∃ calls s', Run (Receives (fun _ => true)) (handshaken 1)
        [⟨[0x82, 0x82, 1, 2], fun _ => 0⟩, ⟨[3, 4, 5, 6], fun _ => 0⟩] calls s'
      ∧ (deliveries calls).flatMap Prod.fst
          ++ (s'.collected ++ s'.m_pRecvBuf.slice 0 s'.m_dwDataLen)
        = [0x82, 0x82, 1, 2, 3, 4, 5, 6] := by
  have h₁ : Framer.Feeds Framer.idle [0x82, 0x82, 1, 2] [([], 0)]
      ⟨true, none, [0x82, 0x82, 1, 2]⟩ := ⟨by decide, rfl⟩
  have h₂ : Framer.Feeds ⟨true, none, [0x82, 0x82, 1, 2]⟩ [3, 4, 5, 6]
      [([0x82, 0x82, 1, 2, 3, 4, 5, 6], 6)] Framer.idle := ⟨by decide, rfl⟩
  obtain ⟨calls, s', hr, -, -⟩ :=
    exists_run_of_feeds (.cons h₁ (.single h₂)) 1 (fun _ => 0)
  exact ⟨calls, s', hr, byte_conservation (blank_handshaken 1) rfl hr⟩

/-! ## Every read is handled safely -/

/-- **The receive path is safe and ends**: in whatever state a run has led to,
a read that the window has room for is handled without a fault, the loop of
`ExtractBuffer` needs no more than two turns, and afterwards the cursor is
back and the fields of the session fit together. -/
theorem receive_safe (hs : s.Blank) (hr : Run (Receives CheckHttpPackkage) s rs calls s')
    {r : Read} (ho : s'.Offers r) :
    (∃ s'' calls', HandReaddata CheckHttpPackkage r s' = .ok (s'', calls')
        ∧ s''.m_pBufPos = 0 ∧ s''.m_dwDataLen ≤ RECV_BUF_SIZE
        ∧ ∀ b, s''.m_pCurRecvBuffer = some b →
          b.GetTotalLenth < s''.m_pCurBufferSize ∧ s''.m_pCurBufferSize < MAX_PKG_SIZE
            ∧ s''.m_dwDataLen = 0)
      ∧ (s'.m_IsHandler = true →
        ∃ b out, s'.m_pRecvBuf.store s'.m_dwDataLen r.data = .ok b
          ∧ ∀ n, 2 ≤ n → whileTrue (ExtractBuffer.turn r.fresh) n
              { s' with
                m_pRecvBuf := b, m_dwDataLen := s'.m_dwDataLen + r.data.length }
            = .ok out) := by
  have hs' := hs.ready.run hr
  refine ⟨?_, fun _ => ?_⟩
  · have hne := (hs'.offers_iff.mp ho).front_ne_nil
    obtain ⟨s'', calls', hok, hready, -⟩ :=
      HandReaddata_ready CheckHttpPackkage hs' ho.1 ho.2.1 hne
    refine ⟨s'', calls', hok, hready.pos_eq, hready.dataLen_le, fun b hb => ?_⟩
    have hne : s''.m_pCurRecvBuffer ≠ none := hb ▸ Option.some_ne_none b
    exact ⟨hready.held.cur_lt b hb, hready.held.cur_lt_max hne, hready.dataLen_eq hne⟩
  · obtain ⟨b, hb, hslice, hfits, -⟩ := hs'.exists_store ho.2.1
    obtain ⟨s'', calls', hloop, -⟩ :=
      ExtractBuffer.loop_after r.fresh (hs'.received hslice hfits).1 ho.1
    exact ⟨b, _, hb, hloop⟩

/-- Five bytes behind a frame that has been delivered. -/
theorem receive_safe_five_bytes :
    ∃ calls s', Run (Receives (fun _ => true)) (handshaken 1)
        [⟨[0x82, 0x80, 1, 2, 3, 4], fun _ => 0⟩] calls s'
      ∧ ∃ s'' calls',
        HandReaddata (fun _ => true) ⟨[0x82, 0x81, 1, 2, 3], fun _ => 0⟩ s'
          = .ok (s'', calls') ∧ s''.m_pBufPos = 0 ∧ s''.m_dwDataLen ≤ RECV_BUF_SIZE := by
  have h₁ : Framer.Feeds Framer.idle [0x82, 0x80, 1, 2, 3, 4]
      [([0x82, 0x80, 1, 2, 3, 4], 6)] Framer.idle := ⟨by decide, rfl⟩
  obtain ⟨calls, s', hr, -, hview⟩ := exists_run_of_feeds (.single h₁) 1 (fun _ => 0)
  have hready := (blank_handshaken 1).ready.run hr
  have ho : s'.Offers ⟨[0x82, 0x81, 1, 2, 3], fun _ => 0⟩ :=
    hready.offers_iff.mpr (hview ▸ by decide)
  obtain ⟨⟨s'', calls', hok, hpos, hlen, -⟩, -⟩ := receive_safe (blank_handshaken 1) hr ho
  exact ⟨calls, s', hr, s'', calls', hok, hpos, hlen⟩

end CNetSession
