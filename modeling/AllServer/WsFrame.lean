import AllServer.CHttpParser
import AllServer.Util.HeaderCode
import Mathlib.Data.Fin.VecNotation

/-!
# The frame layout the parser reads

A frame is a header and a payload. The header is two bytes – a first byte
that nothing looks at, and the length field with a mask bit on top that
nothing looks at either – then the length itself in one of three forms, least
significant byte first, and the four bytes of the masking key.

`WsHeader` is such a header, with the length it declares, and
`WsHeader.bytes` is what it looks like on the wire. The parser reads exactly
these: what it returns on the bytes of a header is `header_bytes`, and it
returns nothing on bytes that do not begin with one (`exists_of_header`). So
it is a header code in the sense of `HeaderCode`, `wsCode`.
-/

/-- The three forms a length is written in. -/
inductive LenForm where
  /-- In the length field itself. -/
  | bit7
  /-- In two bytes behind a length field of 126. -/
  | bit16
  /-- In eight bytes behind a length field of 127. -/
  | bit64
  deriving DecidableEq, Repr

namespace LenForm

/-- How many bytes the length takes behind the length field. -/
def width : LenForm → ℕ
  | bit7 => 0
  | bit16 => 2
  | bit64 => 8

/-- The lengths a form can write are those below its bound. -/
def bound : LenForm → ℕ
  | bit7 => 126
  | bit16 => 2 ^ 16
  | bit64 => 2 ^ 64

/-- The length field of a length written in a form. -/
def field : LenForm → ℕ → ℕ
  | bit7, len => len
  | bit16, _ => 126
  | bit64, _ => 127

/-- The form that the second byte of a header announces. -/
def ofSecond (b : UInt8) : LenForm :=
  if b.toNat % 128 ≤ 125 then bit7 else if b.toNat % 128 = 126 then bit16 else bit64

/-- The three cases of the length field. -/
theorem ofSecond_cases (b : UInt8) : b.toNat % 128 ≤ 125 ∧ ofSecond b = bit7
    ∨ b.toNat % 128 = 126 ∧ ofSecond b = bit16 ∨ b.toNat % 128 = 127 ∧ ofSecond b = bit64 := by
  unfold ofSecond
  split_ifs with h₇ h₁₆
  · exact .inl ⟨h₇, rfl⟩
  · exact .inr (.inl ⟨h₁₆, rfl⟩)
  · exact .inr (.inr ⟨by omega, rfl⟩)

end LenForm

/-- **A frame header** in the layout `recv_ws_header` reads. -/
structure WsHeader where
  /-- The first byte. -/
  first : UInt8
  /-- The top bit of the second byte. -/
  maskBit : Bool
  /-- The form the length is written in. -/
  form : LenForm
  /-- The declared length of the payload. -/
  len : ℕ
  /-- The form can write the length. -/
  len_lt : len < form.bound
  /-- The masking key. -/
  key : Fin 4 → UInt8

namespace WsHeader

/-- The second byte: the mask bit and the length field. -/
def second (h : WsHeader) : UInt8 :=
  UInt8.ofNat (h.form.field h.len + if h.maskBit then 128 else 0)

/-- **The header on the wire.** -/
def bytes (h : WsHeader) : List UInt8 :=
  h.first :: h.second :: (Endian.le h.form.width h.len ++ List.ofFn h.key)

/-- The length of the header. -/
def size (h : WsHeader) : ℕ := h.form.width + 6

/-- **The exact total size** of the frame, header and payload. -/
def total (h : WsHeader) : ℕ := h.size + h.len

@[simp] theorem length_bytes (h : WsHeader) : h.bytes.length = h.size := by
  unfold bytes size
  rw [List.length_cons, List.length_cons, List.length_append,
    Endian.length_le, List.length_ofFn]

theorem field_lt (h : WsHeader) : h.form.field h.len < 128 := by
  have hlen := h.len_lt
  cases hf : h.form with
  | bit7 =>
    rw [hf] at hlen
    exact hlen.trans (by decide)
  | bit16 => exact show 126 < 128 by decide
  | bit64 => exact show 127 < 128 by decide

/-- The length field is read off the second byte whatever the mask bit. -/
theorem toNat_second_mod (h : WsHeader) :
    h.second.toNat % 128 = h.form.field h.len := by
  have hf := h.field_lt
  have hs : h.second.toNat
      = (h.form.field h.len + if h.maskBit then 128 else 0) % 2 ^ 8 :=
    UInt8.toNat_ofNat'
  rw [hs]
  split_ifs <;> omega

/-- The second byte announces the form. -/
theorem ofSecond_second (h : WsHeader) : LenForm.ofSecond h.second = h.form := by
  have hfield := h.toNat_second_mod
  have hlen := h.len_lt
  unfold LenForm.ofSecond
  rw [hfield]
  cases hf : h.form with
  | bit7 =>
    rw [hf] at hlen
    exact if_pos (Nat.lt_succ_iff.mp hlen)
  | bit16 | bit64 => rfl

end WsHeader

namespace CHttpParser

/-! ## What the parser returns on a header -/

/-- **The parser on the bytes of a header**: it finds the declared length,
unless that length has a high word. -/
theorem recv_ws_header_bytes (h : WsHeader) (q : List UInt8) (p k : Int32) :
    recv_ws_header (h.bytes ++ q) p k
      = .ok (if h.len < 2 ^ 32 then
          headerFound (UInt32.ofNat h.len) (h.form.width + 2)
        else (-1, p, k)) := by
  obtain ⟨first, maskBit, form, len, hlen, key⟩ := h
  have hfield := WsHeader.toNat_second_mod ⟨first, maskBit, form, len, hlen, key⟩
  simp only [WsHeader.bytes, List.cons_append, List.append_assoc]
  generalize WsHeader.second ⟨first, maskBit, form, len, hlen, key⟩ = b at hfield
  have hrest : 4 ≤ (List.ofFn key ++ q).length := by
    rw [List.length_append, List.length_ofFn]
    exact Nat.le_add_right 4 q.length
  cases form with
  | bit7 =>
    have hlt : len < 126 := hlen
    have hword : b.toUInt32 &&& 0x0000007f = UInt32.ofNat len := by
      rw [← UInt32.toNat_inj, toNat_and_7f, UInt32.toNat_ofNat', hfield]
      exact (Nat.mod_eq_of_lt (hlt.trans (by decide))).symm
    have hle : b.toNat % 128 ≤ 125 := hfield.le.trans (Nat.lt_succ_iff.mp hlt)
    rw [if_pos (hlt.trans (by decide)), ← hword]
    exact (recv_ws_header_bit7 p k hle).trans
      (congrArg Except.ok (if_neg (Nat.not_lt.mpr hrest)))
  | bit16 =>
    have hlt : len < 2 ^ 16 := hlen
    have hword : (UInt8.ofNat len).toUInt32 ||| (UInt8.ofNat (len / 256)).toUInt32 <<< 8
        = UInt32.ofNat len := by
      rw [← UInt32.toNat_inj, toNat_word16, UInt32.toNat_ofNat']
      exact (Endian.val_le 2 len).trans (by omega)
    rw [if_pos (hlt.trans (by decide)), ← hword]
    exact recv_ws_header_bit16 p k hfield _ _ hrest
  | bit64 =>
    have hlt : len < 2 ^ 64 := hlen
    have hlow := Endian.val_le 4 len
    have hhigh := Endian.val_le 4 (len / 256 / 256 / 256 / 256)
    have hword : (UInt8.ofNat len).toUInt32 ||| (UInt8.ofNat (len / 256)).toUInt32 <<< 8
        ||| (UInt8.ofNat (len / 256 / 256)).toUInt32 <<< 16
        ||| (UInt8.ofNat (len / 256 / 256 / 256)).toUInt32 <<< 24
        = UInt32.ofNat len := by
      rw [← UInt32.toNat_inj, toNat_word32, UInt32.toNat_ofNat']
      exact hlow
    have hzero : len / 256 / 256 / 256 / 256 % 256 ^ 4 = 0 ↔ len < 2 ^ 32 := by
      omega
    rw [← hword]
    refine (recv_ws_header_bit64 p k hfield _ _ _ _ _ _ _ _ hrest).trans
      (congrArg Except.ok (if_congr ?_ rfl rfl))
    exact (iff_of_eq (congrArg (· = 0) hhigh)).trans hzero

/-- **What is found for a header**: its exact total size modulo `2 ^ 32` and
its own length. -/
theorem toNat_headerFound_header (h : WsHeader) (hlen : h.len < 2 ^ 32) :
    (headerFound (UInt32.ofNat h.len) (h.form.width + 2)).2.1.toUInt32.toNat
        = h.total % 2 ^ 32
      ∧ (headerFound (UInt32.ofNat h.len) (h.form.width + 2)).2.2.toUInt32.toNat
        = h.size := by
  have hwidth : h.form.width + 2 + 4 < 2 ^ 31 := by
    cases h.form <;> decide
  obtain ⟨hsize, hheader⟩ := toNat_headerFound (UInt32.ofNat h.len) hwidth
  refine ⟨hsize.trans ?_, hheader⟩
  unfold WsHeader.total WsHeader.size
  rw [UInt32.toNat_ofNat', Nat.mod_eq_of_lt hlen, Nat.add_comm]

/-- **What the caller gets on the bytes of a header**: the exact total size
modulo `2 ^ 32` and the length of the header, unless the declared length has
a high word. -/
theorem header_bytes (h : WsHeader) (q : List UInt8) :
    header (h.bytes ++ q)
      = if h.len < 2 ^ 32 then some (h.total % 2 ^ 32, h.size) else none := by
  unfold header
  rw [recv_ws_header_bytes]
  by_cases hlen : h.len < 2 ^ 32
  · obtain ⟨hsize, hheader⟩ := toNat_headerFound_header h hlen
    rw [if_pos hlen, if_pos hlen]
    exact congrArg some (Prod.ext hsize hheader)
  · rw [if_neg hlen, if_neg hlen]
    rfl

/-! ## Whatever the parser accepts begins with a header -/

/-- Bytes that begin with the length field of a form, its length bytes and
four more are the bytes of a header and what follows it. -/
theorem exists_header_bytes (b₀ b : UInt8) (form : LenForm) (len : ℕ)
    (hlen : len < form.bound) (hfield : b.toNat % 128 = form.field len)
    {rest : List UInt8} (hext : rest.take form.width = Endian.le form.width len)
    (hrest : form.width + 4 ≤ rest.length) :
    ∃ (h : WsHeader) (q : List UInt8), b₀ :: b :: rest = h.bytes ++ q := by
  obtain ⟨k₀, k₁, k₂, k₃, q, hq⟩ : ∃ k₀ k₁ k₂ k₃ q,
      rest.drop form.width = k₀ :: k₁ :: k₂ :: k₃ :: q := by
    have hdrop : 4 ≤ (rest.drop form.width).length := by
      rw [List.length_drop]
      omega
    match rest.drop form.width, hdrop with
    | k₀ :: k₁ :: k₂ :: k₃ :: q, _ => exact ⟨k₀, k₁, k₂, k₃, q, rfl⟩
  have hb : b.toNat < 2 ^ 8 := b.toNat_lt
  have hsecond : UInt8.ofNat (form.field len + if 128 ≤ b.toNat then 128 else 0) = b := by
    rw [← UInt8.toNat_inj, UInt8.toNat_ofNat', ← hfield]
    split_ifs <;> omega
  refine ⟨⟨b₀, decide (128 ≤ b.toNat), form, len, hlen, ![k₀, k₁, k₂, k₃]⟩, q, ?_⟩
  have hsplit := List.take_append_drop form.width rest
  rw [hext, hq] at hsplit
  simp only [WsHeader.bytes, WsHeader.second, decide_eq_true_eq, hsecond,
    List.cons_append, List.append_assoc, ← hsplit]
  rfl

/-- **Bytes that are as many as the second one announces** begin with a header. -/
theorem exists_header_of_width (b₀ : UInt8) {b : UInt8} {rest : List UInt8}
    (h : (LenForm.ofSecond b).width + 4 ≤ rest.length) :
    ∃ (hdr : WsHeader) (q : List UInt8), b₀ :: b :: rest = hdr.bytes ++ q := by
  have hval : ∀ k, k + 4 ≤ rest.length → Endian.val (rest.take k) < 256 ^ k
      ∧ rest.take k = Endian.le k (Endian.val (rest.take k)) := by
    intro k hk
    have hlen : (rest.take k).length = k := by
      rw [List.length_take]
      omega
    have hlt := Endian.val_lt (rest.take k)
    have hle := Endian.le_val (rest.take k)
    rw [hlen] at hlt hle
    exact ⟨hlt, hle.symm⟩
  rcases LenForm.ofSecond_cases b with ⟨hb, hform⟩ | ⟨hb, hform⟩ | ⟨hb, hform⟩ <;> rw [hform] at h
  · exact exists_header_bytes b₀ b .bit7 _ (Nat.lt_succ_of_le hb) rfl rfl h
  · exact exists_header_bytes b₀ b .bit16 _ (hval 2 h).1 hb (hval 2 h).2 h
  · exact exists_header_bytes b₀ b .bit64 _ (hval 8 h).1 hb (hval 8 h).2 h

/-- **Bytes begin with a header, or the parser returns `-1`** and leaves the
outputs alone. -/
theorem exists_header_bytes_or (pkg_data : List UInt8) (p k : Int32) :
    (∃ (h : WsHeader) (q : List UInt8), pkg_data = h.bytes ++ q)
      ∨ recv_ws_header pkg_data p k = .ok (-1, p, k) := by
  refine or_iff_not_imp_right.mpr (fun hnone => ?_)
  match pkg_data with
  | [] =>
    have hlen : ([] : List UInt8).length < 2 := Nat.zero_lt_two
    exact absurd (recv_ws_header_of_length_lt p k hlen) hnone
  | [b₀] =>
    have hlen : [b₀].length < 2 := Nat.lt_succ_self 1
    exact absurd (recv_ws_header_of_length_lt p k hlen) hnone
  | b₀ :: b :: rest =>
    refine exists_header_of_width b₀ ?_
    by_contra hlt
    rcases LenForm.ofSecond_cases b with ⟨hb, hform⟩ | ⟨hb, hform⟩ | ⟨hb, hform⟩ <;>
      rw [hform, not_le] at hlt
    · refine hnone ((recv_ws_header_bit7 p k hb).trans (congrArg Except.ok (if_pos ?_)))
      exact hlt
    · exact hnone (recv_ws_header_bit16_of_length_lt p k hb hlt)
    · exact hnone (recv_ws_header_bit64_of_length_lt p k hb hlt)

/-- **What the parser accepts begins with a header.** -/
theorem exists_of_header {pkg_data : List UInt8} {r : ℕ × ℕ}
    (hr : header pkg_data = some r) :
    ∃ (h : WsHeader) (q : List UInt8), pkg_data = h.bytes ++ q := by
  refine (exists_header_bytes_or pkg_data 0 0).resolve_right (fun hnone => ?_)
  unfold header at hr
  rw [hnone] at hr
  exact Option.some_ne_none r hr.symm

/-- The size of the frame as the caller reads it: 0 where no header was
found, since the outputs start at 0 and are left alone. -/
def pkgSize (pkg_data : List UInt8) : ℕ := ((header pkg_data).map Prod.fst).getD 0

/-- The header length as the caller reads it. -/
def headerSize (pkg_data : List UInt8) : ℕ := ((header pkg_data).map Prod.snd).getD 0

/-- **The parser never reads past the bytes it is given**, and its outputs
are the size and the header length that the caller reads. -/
theorem recv_ws_header_ok (pkg_data : List UInt8) :
    ∃ code pkg_size out_header_size,
      recv_ws_header pkg_data 0 0 = .ok (code, pkg_size, out_header_size)
        ∧ pkg_size.toUInt32.toNat = pkgSize pkg_data
        ∧ out_header_size.toUInt32.toNat = headerSize pkg_data := by
  unfold pkgSize headerSize header
  rcases exists_header_bytes_or pkg_data 0 0 with ⟨h, q, rfl⟩ | hnone
  · rw [recv_ws_header_bytes]
    split_ifs <;> exact ⟨_, _, _, rfl, rfl, rfl⟩
  · rw [hnone]
    exact ⟨_, _, _, rfl, rfl, rfl⟩

/-! ## The parser is a header code -/

theorem header_eq_some_iff {pkg_data : List UInt8} {n k : ℕ} :
    header pkg_data = some (n, k)
      ↔ ∃ (h : WsHeader) (q : List UInt8), pkg_data = h.bytes ++ q
        ∧ h.len < 2 ^ 32 ∧ n = h.total % 2 ^ 32 ∧ k = h.size := by
  constructor
  · intro hr
    obtain ⟨h, q, rfl⟩ := exists_of_header hr
    rw [header_bytes] at hr
    split_ifs at hr with hlen
    obtain ⟨rfl, rfl⟩ := Prod.mk.inj (Option.some.inj hr)
    exact ⟨h, q, rfl, hlen, rfl, rfl⟩
  · rintro ⟨h, q, rfl, hlen, rfl, rfl⟩
    rw [header_bytes, if_pos hlen]

/-- The length of a header that is read is between 6 and 14. -/
theorem six_le_of_header {pkg_data : List UInt8} {n k : ℕ}
    (h : header pkg_data = some (n, k)) : 6 ≤ k ∧ k ≤ 14 := by
  obtain ⟨hdr, -, -, -, -, rfl⟩ := header_eq_some_iff.mp h
  unfold WsHeader.size
  cases hdr.form <;> simp [LenForm.width]

/-- **The parser reads a header from its own bytes alone.** -/
def wsCode : HeaderCode UInt8 where
  decode := header
  le_length := by
    intro p n k hr
    obtain ⟨h, q, rfl, -, -, rfl⟩ := header_eq_some_iff.mp hr
    rw [List.length_append, WsHeader.length_bytes]
    exact Nat.le_add_right _ _
  decode_append := by
    rintro p ⟨n, k⟩ q' hr
    obtain ⟨h, q, rfl, hlen, hn, hk⟩ := header_eq_some_iff.mp hr
    exact header_eq_some_iff.mpr ⟨h, q ++ q', List.append_assoc _ _ _, hlen, hn, hk⟩
  decode_take := by
    intro p n k hr
    obtain ⟨h, q, rfl, hlen, hn, rfl⟩ := header_eq_some_iff.mp hr
    refine header_eq_some_iff.mpr ⟨h, [], ?_, hlen, hn, rfl⟩
    rw [List.take_left' h.length_bytes, List.append_nil]

theorem pkgSize_of_header {pkg_data : List UInt8} {n k : ℕ}
    (h : header pkg_data = some (n, k)) : pkgSize pkg_data = n := by
  unfold pkgSize
  rw [h]
  rfl

theorem headerSize_of_header {pkg_data : List UInt8} {n k : ℕ}
    (h : header pkg_data = some (n, k)) : headerSize pkg_data = k := by
  unfold headerSize
  rw [h]
  rfl

theorem pkgSize_of_header_none {pkg_data : List UInt8}
    (h : header pkg_data = none) : pkgSize pkg_data = 0 := by
  unfold pkgSize
  rw [h]
  rfl

theorem headerSize_of_header_none {pkg_data : List UInt8}
    (h : header pkg_data = none) : headerSize pkg_data = 0 := by
  unfold headerSize
  rw [h]
  rfl

end CHttpParser

/-! ## Frames -/

/-- **A frame**: a header and a payload of the length it declares. -/
structure WsFrame where
  /-- The header. -/
  header : WsHeader
  /-- The payload, masked or not. -/
  payload : List UInt8
  /-- The payload has the declared length. -/
  length_payload : payload.length = header.len

namespace WsFrame

/-- The frame on the wire. -/
def bytes (f : WsFrame) : List UInt8 := f.header.bytes ++ f.payload

@[simp] theorem length_bytes (f : WsFrame) : f.bytes.length = f.header.total := by
  unfold bytes WsHeader.total
  rw [List.length_append, WsHeader.length_bytes, f.length_payload]

/-- A frame is not empty, as its header is not. -/
theorem bytes_ne_nil (f : WsFrame) : f.bytes ≠ [] := by
  intro hnil
  have hlen := f.length_bytes
  rw [hnil, List.length_nil, WsHeader.total, WsHeader.size] at hlen
  omega

/-- The frame of a payload of at most 125 bytes. -/
def short (first : UInt8) (key : Fin 4 → UInt8) (payload : List UInt8)
    (h : payload.length < 126) : WsFrame where
  header := ⟨first, true, .bit7, payload.length, h, key⟩
  payload := payload
  length_payload := rfl

/-- The frame of a payload whose length is in two bytes. -/
def extended (first : UInt8) (key : Fin 4 → UInt8) (payload : List UInt8)
    (h : payload.length < 2 ^ 16) : WsFrame where
  header := ⟨first, true, .bit16, payload.length, h, key⟩
  payload := payload
  length_payload := rfl

theorem total_extended (first : UInt8) (key : Fin 4 → UInt8) (payload : List UInt8)
    (h : payload.length < 2 ^ 16) :
    (extended first key payload h).header.total = 8 + payload.length := rfl

/-- **A frame whose size fits 32 bits is a frame of the parser.** -/
theorem isFrame {f : WsFrame} (h : f.header.total < 2 ^ 32) :
    CHttpParser.wsCode.IsFrame f.bytes f.header.size := by
  have hlen : f.header.len < 2 ^ 32 := lt_of_le_of_lt (Nat.le_add_left _ _) h
  show CHttpParser.header (f.header.bytes ++ f.payload) = _
  rw [CHttpParser.header_bytes, if_pos hlen, Nat.mod_eq_of_lt h, length_bytes]

/-- Its size and header length are read from any piece of it that contains the
header. -/
theorem header_of_prefix {f : WsFrame} (h : f.header.total < 2 ^ 32) {data : List UInt8}
    (hpre : data <+: f.bytes) (hsize : f.header.size ≤ data.length) :
    CHttpParser.header data = some (f.header.total, f.header.size) := by
  have htake := CHttpParser.wsCode.decode_take_of_le (isFrame h) hsize
  rwa [← List.prefix_iff_eq_take.mp hpre, f.length_bytes] at htake

end WsFrame
