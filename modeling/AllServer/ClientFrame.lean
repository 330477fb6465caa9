import AllServer.DataBuffer
import AllServer.WsFrame

/-!
# The frames a client sends

A WebSocket client masks its payload with a key of four bytes and writes the
length of the payload in front of it, in network byte order where it takes
two bytes. `clientFrame` is that encoding, as the protocol has it. Masking is
undone by `parser_ws_pack`, but the parser puts the bytes of a length
together least significant byte first. So it reads a client's frame back
exactly where the two orders agree (`decodes_clientFrame`): where the length
is in the length field itself, or its two bytes are equal.
-/

open CHttpParser

/-- The payload, every byte xored with the byte of the key at its position
modulo four. -/
def maskPayload (key : Fin 4 → UInt8) (payload : List UInt8) : List UInt8 :=
  payload.mapIdx (fun i b => b ^^^ key ⟨i % 4, Nat.mod_lt i (Nat.succ_pos 3)⟩)

/-- The length field of a client's frame, with the mask bit set, and the
length behind it where it is longer than 125. -/
def clientLength (n : ℕ) : List UInt8 :=
  if n ≤ 125 then [UInt8.ofNat (n + 128)] else 254 :: Endian.be 2 n

/-- **A client's frame.** -/
def clientFrame (first : UInt8) (key : Fin 4 → UInt8) (payload : List UInt8) :
    List UInt8 :=
  first :: (clientLength payload.length ++ List.ofFn key ++ maskPayload key payload)

/-- How long its header is. -/
def clientHeaderSize (payload : List UInt8) : ℕ :=
  if payload.length ≤ 125 then 6 else 8

/-- **The server reads a client's frame back**: the parser finds its length
and that of its header, whatever its outputs held, and unmasking what is
behind the header, with the key that is in front of it, gives the payload. -/
def Decodes (first : UInt8) (key : Fin 4 → UInt8) (payload : List UInt8) : Prop :=
  let frame := clientFrame first key payload
  let h := clientHeaderSize payload
  (∀ p k, recv_ws_header frame p k
      = .ok (0, Int32.ofNat frame.length, Int32.ofNat h))
    ∧ parser_ws_pack (frame.drop h) (fun i => frame.getD (h - 4 + i) 0) = payload

/-! ## Unmasking -/

@[simp] theorem length_maskPayload (key : Fin 4 → UInt8) (payload : List UInt8) :
    (maskPayload key payload).length = payload.length :=
  List.length_mapIdx

/-- **Masking is undone by `parser_ws_pack`** with the same key. -/
theorem parser_ws_pack_maskPayload (key : Fin 4 → UInt8) (payload : List UInt8) :
    parser_ws_pack (maskPayload key payload) key = payload := by
  unfold parser_ws_pack maskPayload
  refine List.ext_getElem ?_ (fun i h₁ h₂ => ?_)
  · rw [List.length_mapIdx, List.length_mapIdx]
  · rw [List.getElem_mapIdx, List.getElem_mapIdx]
    show payload[i] ^^^ key (Fin.ofNat 4 i) ^^^ key (Fin.ofNat 4 i) = payload[i]
    rw [UInt8.xor_assoc, UInt8.xor_self, UInt8.xor_zero]

/-! ## The frame in the parser's layout -/

/-- The number that the two bytes of `n` stand for in the other order. -/
def swapBytes (n : ℕ) : ℕ := n / 256 + 256 * (n % 256)

/-- Whether the two orders agree. -/
theorem swapBytes_eq_self {n : ℕ} : swapBytes n = n ↔ n / 256 = n % 256 := by
  unfold swapBytes
  omega

/-- Network byte order is the other order, read the other way around. -/
theorem be_eq_le_swapBytes {n : ℕ} (h : n < 2 ^ 16) :
    Endian.be 2 n = Endian.le 2 (swapBytes n) := by
  have hhigh : UInt8.ofNat (swapBytes n) = UInt8.ofNat (n / 256) := by
    rw [← UInt8.toNat_inj, UInt8.toNat_ofNat', UInt8.toNat_ofNat', swapBytes]
    omega
  have hlow : UInt8.ofNat (swapBytes n / 256) = UInt8.ofNat n := by
    rw [← UInt8.toNat_inj, UInt8.toNat_ofNat', UInt8.toNat_ofNat', swapBytes,
      Nat.add_mul_div_left _ _ (by decide), Nat.div_eq_of_lt (show n / 256 < 256 by omega)]
    omega
  show [UInt8.ofNat (n / 256), UInt8.ofNat n]
    = [UInt8.ofNat (swapBytes n), UInt8.ofNat (swapBytes n / 256)]
  rw [hhigh, hlow]

/-- The length that the parser reads for a client's frame. -/
def parsedLength (n : ℕ) : ℕ := if n ≤ 125 then n else swapBytes n

/-- **A client's frame begins with a header of the parser's layout**, which
declares the length that the parser reads. -/
theorem exists_header_clientFrame (first : UInt8) (key : Fin 4 → UInt8)
    {payload : List UInt8} (hlen : payload.length < 2 ^ 16) :
    ∃ h : WsHeader, clientFrame first key payload = h.bytes ++ maskPayload key payload
      ∧ h.len = parsedLength payload.length ∧ h.size = clientHeaderSize payload
      ∧ h.key = key := by
  unfold clientFrame clientLength parsedLength clientHeaderSize
  split_ifs with hshort
  · exact ⟨⟨first, true, .bit7, payload.length, Nat.lt_succ_of_le hshort, key⟩, rfl, rfl,
      rfl, rfl⟩
  · have hswap : swapBytes payload.length < 2 ^ 16 := by
      unfold swapBytes
      omega
    rw [be_eq_le_swapBytes hlen]
    exact ⟨⟨first, true, .bit16, swapBytes payload.length, hswap, key⟩, rfl, rfl, rfl, rfl⟩

/-- The key is in front of the payload. -/
theorem key_of_header (h : WsHeader) (q : List UInt8) (i : Fin 4) :
    (h.bytes ++ q).getD (h.size - 4 + i) 0 = h.key i := by
  set front := h.first :: h.second :: Endian.le h.form.width h.len with hfront
  have hpos : h.size - 4 + i = front.length + i := by
    rw [WsHeader.size, hfront, List.length_cons, List.length_cons, Endian.length_le]
    omega
  have hsplit : h.bytes ++ q = front ++ (List.ofFn h.key ++ q) := by
    simp [WsHeader.bytes, hfront]
  rw [hsplit, hpos, List.getD_eq_getElem?_getD,
    List.getElem?_append_right (Nat.le_add_right _ _), Nat.add_sub_cancel_left,
    List.getElem?_append_left (by simp), List.getElem?_ofFn, dif_pos i.isLt]
  rfl

/-- **What the parser returns on a client's frame**: the size by the length
that it reads. -/
theorem recv_ws_header_clientFrame (first : UInt8) (key : Fin 4 → UInt8)
    {payload : List UInt8} (hlen : payload.length < 2 ^ 16) (p k : Int32) :
    recv_ws_header (clientFrame first key payload) p k
      = .ok (0, Int32.ofNat (parsedLength payload.length + clientHeaderSize payload),
        Int32.ofNat (clientHeaderSize payload)) := by
  obtain ⟨h, hframe, hlen', hsize, -⟩ := exists_header_clientFrame first key hlen
  have hword : parsedLength payload.length < 2 ^ 32 := by
    unfold parsedLength swapBytes
    split_ifs <;> omega
  have hsum : UInt32.ofNat h.len + UInt32.ofNat h.size = UInt32.ofNat (h.len + h.size) :=
    (UInt32.ofNat_add _ _).symm
  rw [hframe, recv_ws_header_bytes, if_pos (hlen' ▸ hword), ← hlen', ← hsize]
  show Except.ok (0, (UInt32.ofNat h.len + UInt32.ofNat h.size).toInt32, _) = _
  rw [hsum]
  rfl

/-- Different sizes are different `int`s. -/
theorem Int32.ofNat_inj_of_lt {a b : ℕ} (ha : a < 2 ^ 32) (hb : b < 2 ^ 32) :
    Int32.ofNat a = Int32.ofNat b ↔ a = b := by
  refine ⟨fun h => ?_, congrArg _⟩
  have hword : (UInt32.ofNat a).toNat = (UInt32.ofNat b).toNat :=
    congrArg (fun x : Int32 => x.toUInt32.toNat) h
  rwa [UInt32.toNat_ofNat', UInt32.toNat_ofNat', Nat.mod_eq_of_lt ha, Nat.mod_eq_of_lt hb]
    at hword

/-! ## The round trip -/

theorem length_clientFrame (first : UInt8) (key : Fin 4 → UInt8) (payload : List UInt8) :
    (clientFrame first key payload).length = clientHeaderSize payload + payload.length := by
  unfold clientFrame clientLength clientHeaderSize
  split_ifs <;> simp <;> omega

/-- Unmasking always gives the payload: only the length can go wrong. -/
theorem unmask_clientFrame (first : UInt8) (key : Fin 4 → UInt8) {payload : List UInt8}
    (hlen : payload.length < 2 ^ 16) :
    parser_ws_pack ((clientFrame first key payload).drop (clientHeaderSize payload))
        (fun i => (clientFrame first key payload).getD (clientHeaderSize payload - 4 + i) 0)
      = payload := by
  obtain ⟨h, hframe, -, hsize, hkey⟩ := exists_header_clientFrame first key hlen
  have hmask : (fun i : Fin 4 =>
      (clientFrame first key payload).getD (clientHeaderSize payload - 4 + i) 0) = key := by
    funext i
    rw [hframe, ← hsize, key_of_header, hkey]
  rw [hmask, hframe, ← hsize, List.drop_left' h.length_bytes, parser_ws_pack_maskPayload]

/-- **When the server reads a client's frame back**: for a frame that is not
refused for its size, where the payload has at most 125 bytes or the two bytes
of its length are equal. -/
theorem decodes_clientFrame (first : UInt8) (key : Fin 4 → UInt8) (payload : List UInt8)
    (hmax : (clientFrame first key payload).length < MAX_PKG_SIZE) :
    Decodes first key payload
      ↔ payload.length ≤ 125 ∨ payload.length / 256 = payload.length % 256 := by
  rw [length_clientFrame, MAX_PKG_SIZE_eq] at hmax
  have hlen : payload.length < 2 ^ 16 := by omega
  have hparsed : parsedLength payload.length = payload.length
      ↔ payload.length ≤ 125 ∨ payload.length / 256 = payload.length % 256 := by
    unfold parsedLength
    split_ifs with hshort
    · exact iff_of_true rfl (Or.inl hshort)
    · rw [swapBytes_eq_self, or_iff_right hshort]
  have hbound : parsedLength payload.length < 2 ^ 16 := by
    unfold parsedLength swapBytes
    split_ifs <;> omega
  rw [Decodes, length_clientFrame, ← hparsed,
    and_iff_left (unmask_clientFrame first key hlen)]
  simp only [recv_ws_header_clientFrame first key hlen, Except.ok.injEq, Prod.mk.injEq,
    true_and, and_true, forall_const]
  rw [Int32.ofNat_inj_of_lt (by omega) (by omega)]
  omega

/-- A payload of two bytes. -/
theorem decodes_clientFrame_two_bytes : Decodes 0x82 ![1, 2, 3, 4] [5, 6] :=
  (decodes_clientFrame 0x82 ![1, 2, 3, 4] [5, 6] (by decide)).mpr (Or.inl (by decide))

/-- **A payload of 126 bytes** is not read back: its length is read as
32256. -/
theorem not_decodes_clientFrame_126 :
    (clientFrame 0x82 ![1, 2, 3, 4] (List.replicate 126 0)).length < MAX_PKG_SIZE
      ∧ ¬ Decodes 0x82 ![1, 2, 3, 4] (List.replicate 126 0) := by
  have hlen : (List.replicate 126 (0 : UInt8)).length = 126 := List.length_replicate
  have hsize : clientHeaderSize (List.replicate 126 0) = 8 := by
    unfold clientHeaderSize
    rw [hlen]
    rfl
  refine ⟨?_, fun hdecodes => ?_⟩
  · rw [length_clientFrame, hsize, hlen]
    decide
  · have hword : (List.replicate 126 (0 : UInt8)).length < 2 ^ 16 := by
      rw [hlen]
      decide
    have hread := (recv_ws_header_clientFrame 0x82 ![1, 2, 3, 4] hword 0 0).symm.trans
      (hdecodes.1 0 0)
    rw [length_clientFrame, hsize, hlen] at hread
    exact absurd (congrArg (fun out : ℤ × Int32 × Int32 => out.2.1) (Except.ok.inj hread))
      (by decide)
