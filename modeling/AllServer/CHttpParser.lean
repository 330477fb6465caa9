import AllServer.Util.Endian
import AllServer.Util.Memory

/-!
# The WebSocket header parser

`CHttpParser::recv_ws_header` reads the header of the frame at the front of
the received bytes: the size of the whole frame and the length of its header,
or `-1` if the header is not there yet or the high word of a 64-bit length is
set. The pointer and the length it is given are one list here, the bytes that
were received, and reading a byte outside of that list is a fault: the parser
is shown never to do so (`recv_ws_header_ok`).

The sizes are C integers. The length is an unsigned 32-bit word, the sum of
the length and of the header length wraps around at `2 ^ 32` and goes through
an `int` to the caller, who reads it as an unsigned word again. `header` is
what the caller gets.
-/

namespace CHttpParser

/-- `pkg_data[i]`, of which `pkg_len` bytes may be read. -/
def byteAt (pkg_data : List UInt8) (i : ℕ) : Except Fault UInt32 :=
  match pkg_data[i]? with
  | some b => .ok b.toUInt32
  | none => .error .load

/-- The end of `recv_ws_header`, once the length is known and the mask is at
`pkg_data + mask`: the payload is behind the four bytes of the mask. -/
def headerFound (len : UInt32) (mask : ℕ) : ℤ × Int32 × Int32 :=
  let raw_data := mask + 4
  let out_header_size := Int32.ofNat raw_data
  let pkg_size := (len + out_header_size.toUInt32).toInt32
  (0, pkg_size, out_header_size)

/-- `CHttpParser::recv_ws_header`: the returned code, then `*pkg_size` and
`*out_header_size`, which keep what they held where the code is `-1`. -/
def recv_ws_header (pkg_data : List UInt8) (pkg_size out_header_size : Int32) :
    Except Fault (ℤ × Int32 × Int32) := do
  let pkg_len := pkg_data.length
  if pkg_len < 2 then
    return (-1, pkg_size, out_header_size)
  let len := (← byteAt pkg_data 1) &&& 0x0000007f
  if len ≤ 125 then
    if pkg_len < 2 + 4 then
      return (-1, pkg_size, out_header_size)
    return headerFound len 2
  else if len = 126 then
    if pkg_len < 4 + 4 then
      return (-1, pkg_size, out_header_size)
    let len := (← byteAt pkg_data 2) ||| (← byteAt pkg_data 3) <<< 8
    return headerFound len (2 + 2)
  else if len = 127 then
    if pkg_len < 14 then
      return (-1, pkg_size, out_header_size)
    let low := (← byteAt pkg_data 2) ||| (← byteAt pkg_data 3) <<< 8
      ||| (← byteAt pkg_data 4) <<< 16 ||| (← byteAt pkg_data 5) <<< 24
    let hight := (← byteAt pkg_data 6) ||| (← byteAt pkg_data 7) <<< 8
      ||| (← byteAt pkg_data 8) <<< 16 ||| (← byteAt pkg_data 9) <<< 24
    if hight ≠ 0 then
      return (-1, pkg_size, out_header_size)
    return headerFound low (2 + 8)
  else
    -- no length is left over: the source would go on with a null mask here
    throw .null

/-- **What the caller of `recv_ws_header` gets**, reading the size as the
unsigned word it is: the size of the frame and the length of its header, or
nothing where `-1` was returned. -/
def header (pkg_data : List UInt8) : Option (ℕ × ℕ) :=
  match recv_ws_header pkg_data 0 0 with
  | .ok (0, pkg_size, out_header_size) =>
    some (pkg_size.toUInt32.toNat, out_header_size.toUInt32.toNat)
  | _ => none

/-- `CHttpParser::parser_ws_pack`: every byte of the body, xored with the
mask repeated. -/
def parser_ws_pack (body : List UInt8) (mask : Fin 4 → UInt8) : List UInt8 :=
  body.mapIdx (fun i b => b ^^^ mask (Fin.ofNat 4 i))

/-! ## The words the parser computes -/

/-- The length field is the low seven bits of the second byte. -/
theorem toNat_and_7f (b : UInt8) :
    (b.toUInt32 &&& 0x0000007f).toNat = b.toNat % 128 := by
  rw [UInt32.toNat_and, UInt8.toNat_toUInt32]
  exact Nat.and_two_pow_sub_one_eq_mod b.toNat 7

theorem and_7f_eq {b : UInt8} {len : UInt32} (h : b.toNat % 128 = len.toNat) :
    b.toUInt32 &&& 0x0000007f = len := by
  rw [← UInt32.toNat_inj, toNat_and_7f, h]

/-- Two bytes or-ed into place. -/
theorem toNat_word16 (a b : UInt8) :
    (a.toUInt32 ||| b.toUInt32 <<< 8).toNat = Endian.val [a, b] := by
  have ha : a.toUInt32.toNat < 2 ^ (8 : UInt32).toNat := a.toNat_lt
  rw [UInt32.toNat_or_shiftLeft _ _ (by decide) ha, UInt8.toNat_toUInt32,
    Endian.val_cons, Endian.val_cons, Endian.val_nil, Nat.mul_zero, Nat.add_zero]
  rfl

/-- Four bytes or-ed into place. -/
theorem toNat_word32 (a b c d : UInt8) :
    (a.toUInt32 ||| b.toUInt32 <<< 8 ||| c.toUInt32 <<< 16
      ||| d.toUInt32 <<< 24).toNat = Endian.val [a, b, c, d] := by
  have ha : a.toNat < 2 ^ 8 := a.toNat_lt
  have hb : b.toNat < 2 ^ 8 := b.toNat_lt
  have hc : c.toNat < 2 ^ 8 := c.toNat_lt
  have h8 : 2 ^ (8 : UInt32).toNat = 256 := rfl
  have h16 : 2 ^ (16 : UInt32).toNat = 65536 := rfl
  have h24 : 2 ^ (24 : UInt32).toNat = 16777216 := rfl
  have h₂ := toNat_word16 a b
  simp only [Endian.val_cons, Endian.val_nil] at h₂ ⊢
  have h₃ : (a.toUInt32 ||| b.toUInt32 <<< 8 ||| c.toUInt32 <<< 16).toNat
      = a.toNat + 256 * b.toNat + 65536 * c.toNat := by
    rw [UInt32.toNat_or_shiftLeft _ _ (by decide) (by omega), h₂, h16]
    omega
  rw [UInt32.toNat_or_shiftLeft _ _ (by decide) (by omega), h₃, h24]
  omega

/-- The size and the header length that are found, as unsigned words. -/
theorem toNat_headerFound (len : UInt32) {mask : ℕ} (h : mask + 4 < 2 ^ 31) :
    (headerFound len mask).2.1.toUInt32.toNat = (len.toNat + (mask + 4)) % 2 ^ 32
      ∧ (headerFound len mask).2.2.toUInt32.toNat = mask + 4 := by
  have hsize : (Int32.ofNat (mask + 4)).toUInt32.toNat = mask + 4 := by
    show (UInt32.ofNat (mask + 4)).toNat = mask + 4
    rw [UInt32.toNat_ofNat']
    omega
  refine ⟨?_, hsize⟩
  show (len + (Int32.ofNat (mask + 4)).toUInt32).toNat = _
  rw [UInt32.toNat_add, hsize]

/-! ## The branches of the parser -/

section Branches

variable {b₀ b₁ : UInt8} {rest : List UInt8} (p k : Int32)

theorem recv_ws_header_of_length_lt {pkg_data : List UInt8}
    (h : pkg_data.length < 2) : recv_ws_header pkg_data p k = .ok (-1, p, k) := by
  unfold recv_ws_header
  rw [if_pos h]
  rfl

/-- A length of at most 125 is the length field itself. -/
theorem recv_ws_header_bit7 (hlen : b₁.toNat % 128 ≤ 125) :
    recv_ws_header (b₀ :: b₁ :: rest) p k
      = .ok (if rest.length < 4 then (-1, p, k)
          else headerFound (b₁.toUInt32 &&& 0x0000007f) 2) := by
  have hle : b₁.toUInt32 &&& 0x0000007f ≤ 125 := by
    rw [UInt32.le_iff_toNat_le, toNat_and_7f]
    exact hlen
  unfold recv_ws_header
  simp only [List.length_cons, byteAt, List.getElem?_cons_succ,
    List.getElem?_cons_zero, bind, Except.bind, pure, Except.pure]
  rw [if_neg (by omega), if_pos hle]
  split_ifs <;> first | rfl | omega

/-- A length field of 126 is followed by the length in two bytes, or the
header is not complete. -/
theorem recv_ws_header_bit16_of_length_lt (hlen : b₁.toNat % 128 = 126)
    (hrest : rest.length < 6) :
    recv_ws_header (b₀ :: b₁ :: rest) p k = .ok (-1, p, k) := by
  have heq : b₁.toUInt32 &&& 0x0000007f = 126 := and_7f_eq hlen
  unfold recv_ws_header
  simp only [List.length_cons, byteAt, List.getElem?_cons_succ,
    List.getElem?_cons_zero, bind, Except.bind, pure, Except.pure, heq]
  rw [if_neg (by omega), if_neg (by decide), if_pos trivial, if_pos (by omega)]

theorem recv_ws_header_bit16 (hlen : b₁.toNat % 128 = 126) (b₂ b₃ : UInt8)
    (hrest : 4 ≤ rest.length) :
    recv_ws_header (b₀ :: b₁ :: b₂ :: b₃ :: rest) p k
      = .ok (headerFound (b₂.toUInt32 ||| b₃.toUInt32 <<< 8) 4) := by
  have heq : b₁.toUInt32 &&& 0x0000007f = 126 := and_7f_eq hlen
  unfold recv_ws_header
  simp only [List.length_cons, byteAt, List.getElem?_cons_succ,
    List.getElem?_cons_zero, bind, Except.bind, pure, Except.pure, heq]
  rw [if_neg (by omega), if_neg (by decide), if_pos trivial, if_neg (by omega)]

/-- A length field of 127 is followed by the length in eight bytes, or the
header is not complete. -/
theorem recv_ws_header_bit64_of_length_lt (hlen : b₁.toNat % 128 = 127)
    (hrest : rest.length < 12) :
    recv_ws_header (b₀ :: b₁ :: rest) p k = .ok (-1, p, k) := by
  have heq : b₁.toUInt32 &&& 0x0000007f = 127 := and_7f_eq hlen
  unfold recv_ws_header
  simp only [List.length_cons, byteAt, List.getElem?_cons_succ,
    List.getElem?_cons_zero, bind, Except.bind, pure, Except.pure, heq]
  rw [if_neg (by omega), if_neg (by decide), if_neg (by decide), if_pos trivial,
    if_pos (by omega)]

/-- The first four bytes are the length, unless the other four are not all
zero. -/
theorem recv_ws_header_bit64 (hlen : b₁.toNat % 128 = 127)
    (b₂ b₃ b₄ b₅ b₆ b₇ b₈ b₉ : UInt8) (hrest : 4 ≤ rest.length) :
    recv_ws_header
        (b₀ :: b₁ :: b₂ :: b₃ :: b₄ :: b₅ :: b₆ :: b₇ :: b₈ :: b₉ :: rest) p k
      = .ok (if Endian.val [b₆, b₇, b₈, b₉] = 0 then
          headerFound (b₂.toUInt32 ||| b₃.toUInt32 <<< 8
            ||| b₄.toUInt32 <<< 16 ||| b₅.toUInt32 <<< 24) 10
        else (-1, p, k)) := by
  have heq : b₁.toUInt32 &&& 0x0000007f = 127 := and_7f_eq hlen
  have hzero : (b₆.toUInt32 ||| b₇.toUInt32 <<< 8 ||| b₈.toUInt32 <<< 16
      ||| b₉.toUInt32 <<< 24 ≠ 0) ↔ ¬ Endian.val [b₆, b₇, b₈, b₉] = 0 := by
    rw [ne_eq, ← UInt32.toNat_inj, toNat_word32]
    rfl
  unfold recv_ws_header
  simp only [List.length_cons, byteAt, List.getElem?_cons_succ,
    List.getElem?_cons_zero, bind, Except.bind, pure, Except.pure, heq]
  rw [if_neg (by omega), if_neg (by decide), if_neg (by decide), if_pos trivial,
    if_neg (by omega)]
  simp only [hzero]
  split_ifs <;> rfl

end Branches

end CHttpParser
