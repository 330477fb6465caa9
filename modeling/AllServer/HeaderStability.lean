import AllServer.WsFrame

/-!
# A header that comes in piece by piece

The session parses what it has received again and again, until a header is
there. What the parser has found once it finds again, however much is received
behind it. Where it returns `-1`, either a header can still be completed, and
then it is longer than what is there, or the length field is one of eight bytes
and already too large, and then nothing that is received helps
(`CHttpParser.recv_ws_header_stable`).
-/

namespace WsHeader

/-- Only a length in eight bytes has a high word. -/
theorem len_lt_of_ne {h : WsHeader} (hform : h.form ≠ .bit64) : h.len < 2 ^ 32 := by
  have hlen := h.len_lt
  cases hf : h.form with
  | bit7 | bit16 =>
    rw [hf] at hlen
    exact hlen.trans (by decide)
  | bit64 => exact absurd hf hform

end WsHeader

namespace CHttpParser

/-- **The length field of eight bytes**, as far as it is there. -/
def lengthField (pkg_data : List UInt8) : ℕ := Endian.val ((pkg_data.drop 2).take 8)

/-- **Something is missing**: with it, the parser finds a header that is longer than
what is there. -/
def Incomplete (p : List UInt8) (pkg_size out_header_size : Int32) : Prop :=
  ∃ q s k, q ≠ [] ∧ recv_ws_header (p ++ q) pkg_size out_header_size = .ok (0, s, k)
    ∧ p.length < k.toInt

/-- **The length is too large**: it is one of eight bytes, those that are there make
it too large for 32 bits, and the parser returns `-1`, whatever is received. -/
structure TooLarge (p : List UInt8) (pkg_size out_header_size : Int32) : Prop where
  rejects : ∀ q, recv_ws_header (p ++ q) pkg_size out_header_size
    = .ok (-1, pkg_size, out_header_size)
  second : ∃ b, p[1]? = some b ∧ b.toNat % 128 = 127
  lengthField : ∀ q, 2 ^ 32 - 1 < lengthField (p ++ q)

variable {b₀ b : UInt8} {p q rest : List UInt8} {h : WsHeader}
variable (pkg_size out_header_size : Int32)

/-! ## The length field -/

/-- What is received does not make the length field smaller. -/
theorem lengthField_le_append (p q : List UInt8) : lengthField p ≤ lengthField (p ++ q) := by
  unfold lengthField
  rw [List.drop_append, List.take_append, Endian.val_append]
  exact Nat.le_add_right _ _

/-- Zeros do not change it, behind the first two bytes. -/
theorem lengthField_append_replicate (b₀ b : UInt8) (rest : List UInt8) (n : ℕ) :
    lengthField (b₀ :: b :: rest ++ List.replicate n 0) = lengthField (b₀ :: b :: rest) := by
  show Endian.val ((rest ++ List.replicate n 0).take 8) = Endian.val (rest.take 8)
  rw [List.take_append, List.take_replicate, Endian.val_append, Endian.val_replicate, Nat.mul_zero,
    Nat.add_zero]

/-- The length field of a header that has one is its length. -/
theorem lengthField_bytes (hform : h.form = .bit64) (q : List UInt8) :
    lengthField (h.bytes ++ q) = h.len := by
  have hlen : h.len < 256 ^ 8 := by
    have hlt := h.len_lt
    rw [hform] at hlt
    exact hlt
  have htake : ((h.bytes ++ q).drop 2).take 8 = Endian.le 8 h.len := by
    rw [WsHeader.bytes, hform]
    rfl
  rw [lengthField, htake, Endian.val_le, Nat.mod_eq_of_lt hlen]

/-! ## The answers of the parser -/

/-- **What is found stays found.** -/
theorem exists_found (hlen : h.len < 2 ^ 32) :
    ∃ s k : Int32, k.toInt = h.size
      ∧ ∀ q, recv_ws_header (h.bytes ++ q) pkg_size out_header_size = .ok (0, s, k) := by
  refine ⟨(headerFound (UInt32.ofNat h.len) (h.form.width + 2)).2.1,
    (headerFound (UInt32.ofNat h.len) (h.form.width + 2)).2.2, ?_, fun q => ?_⟩
  · rw [WsHeader.size]
    cases h.form <;> rfl
  · rw [recv_ws_header_bytes, if_pos hlen]
    rfl

/-- The bytes of a header, of which some may be missing. -/
theorem Incomplete.of_append (hq : q ≠ []) (heq : p ++ q = h.bytes) (hlen : h.len < 2 ^ 32) :
    Incomplete p pkg_size out_header_size := by
  obtain ⟨s, k, hk, hfound⟩ := exists_found pkg_size out_header_size hlen
  refine ⟨q, s, k, hq, ?_, ?_⟩
  · rw [heq, ← List.append_nil h.bytes]
    exact hfound []
  · have hlt := List.length_pos_iff.mpr hq
    rw [hk, ← WsHeader.length_bytes, ← heq, List.length_append]
    omega

/-- **A length field that is too large** is not made smaller by what is received. -/
theorem TooLarge.of_lengthField (hb : LenForm.ofSecond b = .bit64)
    (hlarge : 2 ^ 32 ≤ CHttpParser.lengthField (b₀ :: b :: rest)) :
    TooLarge (b₀ :: b :: rest) pkg_size out_header_size := by
  have hfield : ∀ q, 2 ^ 32 ≤ CHttpParser.lengthField (b₀ :: b :: rest ++ q) :=
    fun q => hlarge.trans (lengthField_le_append _ q)
  refine ⟨fun q => ?_, ⟨b, rfl, ?_⟩, fun q => ?_⟩
  · obtain ⟨h, q', heq⟩ | hnone := exists_header_bytes_or (b₀ :: b :: rest ++ q) pkg_size
      out_header_size
    · obtain ⟨-, heq'⟩ := List.cons.inj heq
      obtain ⟨hsecond, -⟩ := List.cons.inj heq'
      have hform : h.form = .bit64 := by rw [← h.ofSecond_second, ← hsecond, hb]
      have hlen := hfield q
      rw [heq, lengthField_bytes hform] at hlen
      rw [heq, recv_ws_header_bytes, if_neg (Nat.not_lt.mpr hlen)]
    · exact hnone
  · rcases LenForm.ofSecond_cases b with ⟨-, hform⟩ | ⟨-, hform⟩ | ⟨hsecond, -⟩
    · exact absurd (hform.symm.trans hb) (by decide)
    · exact absurd (hform.symm.trans hb) (by decide)
    · exact hsecond
  · exact Nat.lt_of_lt_of_le (by decide) (hfield q)

/-- **A header that can be completed**: with as many zeros as are missing. -/
theorem exists_completed (b₀ b : UInt8) (rest : List UInt8)
    (hshort : rest.length < (LenForm.ofSecond b).width + 4)
    (hsmall : LenForm.ofSecond b = .bit64 → lengthField (b₀ :: b :: rest) < 2 ^ 32) :
    ∃ (q : List UInt8) (h : WsHeader), q ≠ [] ∧ b₀ :: b :: rest ++ q = h.bytes
      ∧ h.len < 2 ^ 32 := by
  set n := (LenForm.ofSecond b).width + 4 - rest.length with hn
  have hlen : (rest ++ List.replicate n 0).length = (LenForm.ofSecond b).width + 4 := by
    rw [List.length_append, List.length_replicate]
    omega
  obtain ⟨h, q', heq⟩ := exists_header_of_width b₀ hlen.ge
  obtain ⟨-, heq'⟩ := List.cons.inj heq
  obtain ⟨hsecond, -⟩ := List.cons.inj heq'
  have hform : h.form = LenForm.ofSecond b := by rw [← h.ofSecond_second, ← hsecond]
  -- nothing is left behind the header
  have htotal := congrArg List.length heq
  rw [List.length_cons, List.length_cons, hlen, List.length_append, WsHeader.length_bytes,
    WsHeader.size, hform] at htotal
  obtain rfl : q' = [] := List.length_eq_zero_iff.mp (by omega)
  rw [List.append_nil] at heq
  refine ⟨List.replicate n 0, h, ?_, heq, ?_⟩
  · rw [Ne, List.replicate_eq_nil_iff]
    omega
  · by_contra hlarge
    have hf : h.form = .bit64 := by
      by_contra hne
      exact hlarge (WsHeader.len_lt_of_ne hne)
    have hfield := lengthField_append_replicate b₀ b rest n
    rw [show b₀ :: b :: rest ++ List.replicate n 0 = h.bytes from heq, ← List.append_nil h.bytes,
      lengthField_bytes hf] at hfield
    rw [hfield] at hlarge
    exact hlarge (hsmall (hform.symm.trans hf))

/-- **What the parser answers about a header that comes in piece by piece**: if it
finds one, the header is there, and it finds the same one whatever is received
behind it. If it returns `-1`, something is missing, or the length is too large
whatever is received. -/
theorem recv_ws_header_stable (p : List UInt8) (pkg_size out_header_size : Int32) :
    (∃ s k : Int32, k.toInt ≤ p.length
      ∧ ∀ q, recv_ws_header (p ++ q) pkg_size out_header_size = .ok (0, s, k))
    ∨ recv_ws_header p pkg_size out_header_size = .ok (-1, pkg_size, out_header_size)
      ∧ (Incomplete p pkg_size out_header_size ∨ TooLarge p pkg_size out_header_size) := by
  by_cases hheader : ∃ (h : WsHeader) (q : List UInt8), p = h.bytes ++ q
  · obtain ⟨h, q, rfl⟩ := hheader
    by_cases hlen : h.len < 2 ^ 32
    · obtain ⟨s, k, hk, hfound⟩ := exists_found pkg_size out_header_size hlen
      refine .inl ⟨s, k, ?_, fun q' => ?_⟩
      · rw [hk, List.length_append, WsHeader.length_bytes]
        omega
      · rw [List.append_assoc]
        exact hfound _
    · have hform : h.form = .bit64 := by
        by_contra hne
        exact hlen (WsHeader.len_lt_of_ne hne)
      have hfield : 2 ^ 32 ≤ lengthField (h.bytes ++ q) :=
        (Nat.not_lt.mp hlen).trans (lengthField_bytes hform q).ge
      refine .inr ⟨?_, .inr (.of_lengthField _ _ (h.ofSecond_second.trans hform) hfield)⟩
      rw [recv_ws_header_bytes, if_neg hlen]
  · refine .inr ⟨(exists_header_bytes_or p _ _).resolve_left hheader, ?_⟩
    match p with
    | [] =>
      obtain ⟨q, h, -, heq, hlen⟩ := exists_completed 0 0 []
        (by decide) (fun hb => absurd hb (by decide))
      exact .inl (.of_append _ _ (List.cons_ne_nil 0 (0 :: q)) heq hlen)
    | [b₀] =>
      obtain ⟨q, h, -, heq, hlen⟩ := exists_completed b₀ 0 []
        (by decide) (fun hb => absurd hb (by decide))
      exact .inl (.of_append _ _ (List.cons_ne_nil 0 q) heq hlen)
    | b₀ :: b :: rest =>
      by_cases hlarge : LenForm.ofSecond b = .bit64 ∧ 2 ^ 32 ≤ lengthField (b₀ :: b :: rest)
      · exact .inr (.of_lengthField _ _ hlarge.1 hlarge.2)
      · have hshort : rest.length < (LenForm.ofSecond b).width + 4 := by
          by_contra hle
          exact hheader (exists_header_of_width b₀ (Nat.not_lt.mp hle))
        obtain ⟨q, h, hne, heq, hlen⟩ := exists_completed b₀ b rest hshort
          (fun hb => Nat.not_le.mp fun hle => hlarge ⟨hb, hle⟩)
        exact .inl (.of_append _ _ hne heq hlen)

end CHttpParser
