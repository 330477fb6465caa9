import AllServer.Receive

/-!
# Frames that are too large

A frame whose size is at least `MAX_PKG_SIZE` is meant to be refused: the
session is closed. The size that is compared is an unsigned 32-bit sum, and
the high word of a 64-bit length has an error return that the caller does not
look at. So what decides is whether the exact total size fits 32 bits
(`oversized_refused`): below `2 ^ 32` every frame that is too large is
refused, and from there on every frame is let in, either with its size modulo
`2 ^ 32` or as an empty packet.
-/

open CHttpParser

namespace Framer

/-- **What is decided about a header at the front of an idle session's
buffer** whose total size fits 32 bits. -/
theorem ownVerdict_bytes (h : WsHeader) (q : List UInt8) (hlt : h.total < 2 ^ 32) :
    ownVerdict (h.bytes ++ q) = verdict h.total h.size (h.bytes ++ q).length := by
  have hlen : h.len < 2 ^ 32 := lt_of_le_of_lt (Nat.le_add_left _ _) hlt
  have hh : header (h.bytes ++ q) = some (h.total, h.size) := by
    rw [header_bytes, if_pos hlen, Nat.mod_eq_of_lt hlt]
  unfold ownVerdict
  rw [pkgSize_of_header hh, headerSize_of_header hh]

/-- A header whose length has a high word is an empty packet. -/
theorem ownVerdict_bytes_of_le (h : WsHeader) {q : List UInt8} (hle : 2 ^ 32 ≤ h.len)
    (hlen : (h.bytes ++ q).length ≤ RECV_BUF_SIZE) :
    ownVerdict (h.bytes ++ q) = .deliver 0 0 := by
  have hh : header (h.bytes ++ q) = none := by
    rw [header_bytes, if_neg (Nat.not_lt.mpr hle)]
  unfold ownVerdict
  rw [pkgSize_of_header_none hh, headerSize_of_header_none hh]
  exact (verdict_eq_deliver (lt_of_le_of_lt hlen RECV_BUF_SIZE_lt)).mpr
    ⟨Nat.zero_le _, rfl, rfl⟩

end Framer

namespace CHttpParser

/-- **What `recv_ws_header` returns on a header** is the exact sum modulo
`2 ^ 32`, where it returns 0. -/
theorem toNat_of_recv_ws_header {h : WsHeader} {q : List UInt8}
    {p k pkg_size out_header_size : Int32}
    (hok : recv_ws_header (h.bytes ++ q) p k = .ok (0, pkg_size, out_header_size)) :
    h.len < 2 ^ 32 ∧ pkg_size.toUInt32.toNat = h.total % 2 ^ 32 := by
  rw [recv_ws_header_bytes] at hok
  split_ifs at hok with hlen
  · obtain ⟨hsize, -⟩ := toNat_headerFound_header h hlen
    rw [Except.ok.inj hok] at hsize
    exact ⟨hlen, hsize⟩
  · have hcode : (-1 : ℤ) = 0 := congrArg Prod.fst (Except.ok.inj hok)
    exact absurd hcode (by decide)

end CHttpParser

namespace CNetSession

variable {CheckHttpPackkage : List UInt8 → Bool} {s s' : CNetSession}
variable {r : Read} {calls : List SessionCall}

/-- A step of a session that collects no packet, by the header at the
front. -/
theorem Established.fed_of_cur_eq_none (hs : s.Established)
    (hcur : s.m_pCurRecvBuffer = none) (h : Receives CheckHttpPackkage s r calls s') :
    (s'.view, deliveries calls)
      = Framer.act true (s.buffered ++ r.data)
        (Framer.ownVerdict (s.buffered ++ r.data)) := by
  have hfed := hs.fed h
  have ho := hs.offers_iff.mp h.1
  have hpart : s.view.part = none := Option.map_eq_none_iff.mpr hcur
  have hfeed := Framer.feed_of_part_eq_none hpart ho.front_ne_nil
  rw [ho.1] at hfeed
  rw [hfed.view_eq, hfed.deliveries_eq]
  exact hfeed

/-- **When oversized frames are refused** and sizes are exact: for any complete
header at the front of the buffer of an idle session, exactly where its total size
fits 32 bits. The parser adds the length of the header to that of the payload in
an `unsigned int`, and a sum that wraps around looks like that of a small frame. -/
theorem oversized_refused (h : WsHeader) (q : List UInt8) (hs : s.Established)
    (hcur : s.m_pCurRecvBuffer = none)
    (hfront : s.m_pRecvBuf.slice 0 s.m_dwDataLen ++ r.data = h.bytes ++ q)
    (hstep : Receives CheckHttpPackkage s r calls s') :
    ((MAX_PKG_SIZE ≤ h.total → s'.m_hSocket = false ∧ deliveries calls = [])
        ∧ ∀ q p k pkg_size out_header_size,
          recv_ws_header (h.bytes ++ q) p k = .ok (0, pkg_size, out_header_size) →
            pkg_size.toUInt32.toNat = h.total)
      ↔ h.total < 2 ^ 32 := by
  have hlen : (h.bytes ++ q).length ≤ RECV_BUF_SIZE := by
    rw [← hfront, ← hs.buffered_eq]
    exact (hs.offers_iff.mp hstep.1).length_front_le
  have hact := hs.fed_of_cur_eq_none hcur hstep
  rw [hs.buffered_eq, hfront] at hact
  constructor
  · rintro ⟨hrefused, hexact⟩
    by_contra hge
    rcases Nat.lt_or_ge h.len (2 ^ 32) with hlt | hle
    · -- the sum wraps around
      have hok := recv_ws_header_bytes h q 0 0
      rw [if_pos hlt] at hok
      have hmod := (toNat_of_recv_ws_header hok).2
      rw [hexact q 0 0 _ _ hok] at hmod
      exact hge (hmod ▸ Nat.mod_lt _ (by decide))
    · -- the header is rejected
      rw [Framer.ownVerdict_bytes_of_le h hle hlen] at hact
      have hmax := MAX_PKG_SIZE_lt
      have hnone := (hrefused (by omega)).2
      rw [show deliveries calls = _ from congrArg Prod.snd hact] at hnone
      exact absurd hnone (List.cons_ne_nil _ _)
  · intro hlt
    refine ⟨fun hmax => ?_, fun q p k pkg_size out_header_size hok => ?_⟩
    · rw [Framer.ownVerdict_bytes h q hlt, Framer.verdict_eq_close.mpr hmax] at hact
      exact ⟨congrArg (fun out => out.1.isOpen) hact, congrArg Prod.snd hact⟩
    · rw [(toNat_of_recv_ws_header hok).2, Nat.mod_eq_of_lt hlt]

/-- A header that declares 100000 bytes is refused. -/
theorem oversized_refused_100000 :
    ∃ calls s', Receives (fun _ => true) (handshaken 1)
        ⟨[0x82, 0xff, 0xa0, 0x86, 1, 0, 0, 0, 0, 0, 1, 2, 3, 4], fun _ => 0⟩ calls s'
      ∧ s'.m_hSocket = false ∧ deliveries calls = [] := by
  let h : WsHeader := ⟨0x82, true, .bit64, 100000, by decide, ![1, 2, 3, 4]⟩
  have hs := blank_handshaken 1
  have ho : Framer.idle.Offers [0x82, 0xff, 0xa0, 0x86, 1, 0, 0, 0, 0, 0, 1, 2, 3, 4] := by
    decide
  obtain ⟨calls, s', hstep, -, -⟩ := exists_step_of_feeds ho.feeds 1 (fun _ => 0)
  have hfront : (handshaken 1).m_pRecvBuf.slice 0 (handshaken 1).m_dwDataLen
      ++ [0x82, 0xff, 0xa0, 0x86, 1, 0, 0, 0, 0, 0, 1, 2, 3, 4] = h.bytes ++ [] := by
    rw [hs.dataLen_eq, MemBlock.slice_zero]
    decide
  exact ⟨calls, s', hstep, ((oversized_refused h [] (hs.established rfl) rfl hfront
    hstep).mpr (by decide)).1 (by decide)⟩

/-- **A header that declares `2 ^ 32 - 1` bytes** is let in: the sum wraps
around to 13, and the first 13 bytes of the header are delivered. -/
theorem oversized_accepted :
    ∃ (h : WsHeader) (calls : List SessionCall) (s' : CNetSession),
      h.bytes = [0x82, 0xff, 0xff, 0xff, 0xff, 0xff, 0, 0, 0, 0, 1, 2, 3, 4]
      ∧ MAX_PKG_SIZE ≤ h.total
      ∧ Receives (fun _ => true) (handshaken 1) ⟨h.bytes, fun _ => 0⟩ calls s'
      ∧ s'.m_hSocket = true
      ∧ deliveries calls
        = [([0x82, 0xff, 0xff, 0xff, 0xff, 0xff, 0, 0, 0, 0, 1, 2, 3], 14)] := by
  let h : WsHeader := ⟨0x82, true, .bit64, 2 ^ 32 - 1, by decide, ![1, 2, 3, 4]⟩
  have hbytes : h.bytes = [0x82, 0xff, 0xff, 0xff, 0xff, 0xff, 0, 0, 0, 0, 1, 2, 3, 4] := by
    decide
  have h₁ : Framer.Feeds Framer.idle h.bytes
      [([0x82, 0xff, 0xff, 0xff, 0xff, 0xff, 0, 0, 0, 0, 1, 2, 3], 14)]
      ⟨true, none, [4]⟩ := by
    rw [hbytes]
    exact ⟨by decide, rfl⟩
  obtain ⟨calls, s', hstep, hds, hview⟩ := exists_step_of_feeds h₁ 1 (fun _ => 0)
  exact ⟨h, calls, s', hbytes, by decide, hstep, congrArg Framer.isOpen hview, hds⟩

end CNetSession
