import AllServer.Util.Base64
import AllServer.Util.Endian
import Mathlib.Algebra.Order.Floor.Div
import Mathlib.GroupTheory.GroupAction.Ring

/-!
# The base64 encoder of the server

`base64_encode` writes to a static chunk of `SMALL_CHUNK` bytes, or to memory
that it allocates where that is too small. What it writes is the encoding of
`AllServer.Util.Base64`, inside the buffer and with a NUL behind it, whatever
the buffer held before (`base64_encode_eq`).
-/

/-- `SMALL_CHUNK`: the size of the static buffer. -/
def SMALL_CHUNK : ℕ := 256

namespace base64_encode

/-- `encoding[i]`. -/
def encoding (i : UInt32) : Except Fault UInt8 := index Base64.alphabet i.toNat

/-- The variables of the loop. -/
structure State (n : ℕ) where
  i : ℕ
  j : ℕ
  buffer : MemBlock UInt8 n

variable {n : ℕ}

/-- One turn of `for (i = 0; i < sz - 2; i += 3)`. -/
def turn (text : List UInt8) (s : State n) :
    Except Fault (ForInStep (State n) × List Empty) := do
  if (s.i : ℤ) < text.length - 2 then
    let v := (← index text s.i).toUInt32 <<< 16 ||| (← index text (s.i + 1)).toUInt32 <<< 8
      ||| (← index text (s.i + 2)).toUInt32
    let buffer ← s.buffer.store s.j [← encoding (v >>> 18)]
    let buffer ← buffer.store (s.j + 1) [← encoding ((v >>> 12) &&& 0x3f)]
    let buffer ← buffer.store (s.j + 2) [← encoding ((v >>> 6) &&& 0x3f)]
    let buffer ← buffer.store (s.j + 3) [← encoding (v &&& 0x3f)]
    return (.yield ⟨s.i + 3, s.j + 4, buffer⟩, [])
  else
    return (.done s, [])

/-- The `switch` on what is left behind the loop. -/
def padding (text : List UInt8) (s : State n) : Except Fault (MemBlock UInt8 n) := do
  if text.length - s.i = 1 then
    let v := (← index text s.i).toUInt32
    let buffer ← s.buffer.store s.j [← encoding (v >>> 2)]
    let buffer ← buffer.store (s.j + 1) [← encoding ((v &&& 3) <<< 4)]
    let buffer ← buffer.store (s.j + 2) [Base64.pad]
    buffer.store (s.j + 3) [Base64.pad]
  else if text.length - s.i = 2 then
    let v := (← index text s.i).toUInt32 <<< 8 ||| (← index text (s.i + 1)).toUInt32
    let buffer ← s.buffer.store s.j [← encoding (v >>> 10)]
    let buffer ← buffer.store (s.j + 1) [← encoding ((v >>> 4) &&& 0x3f)]
    let buffer ← buffer.store (s.j + 2) [← encoding ((v &&& 0xf) <<< 2)]
    buffer.store (s.j + 3) [Base64.pad]
  else
    return s.buffer

/-- The loop, the padding and the NUL, on the buffer that has been chosen. -/
def fill (text : List UInt8) (buffer : MemBlock UInt8 n) : Except Fault (MemBlock UInt8 n) := do
  let (s, _) ← whileTrue (turn text) (text.length + 1) ⟨0, 0, buffer⟩
  let buffer ← padding text s
  buffer.store ((text.length + 2) / 3 * 4) [0]

end base64_encode

/-- `base64_encode`: the buffer that is returned, `*out_esz`, and what is left
in the static chunk. The parameter `fresh` says what is in memory that is
allocated. -/
def base64_encode (fresh : ℕ → UInt8) (text : List UInt8)
    (small_chunk_encode : MemBlock UInt8 SMALL_CHUNK) :
    Except Fault (List UInt8 × ℕ × MemBlock UInt8 SMALL_CHUNK) := do
  let encode_sz := (text.length + 2) / 3 * 4
  if encode_sz ≥ SMALL_CHUNK then
    let buffer ← base64_encode.fill text (MemBlock.ofFn fresh (encode_sz + 1))
    return (buffer.cells, encode_sz, small_chunk_encode)
  else
    let small_chunk_encode ← base64_encode.fill text small_chunk_encode
    return (small_chunk_encode.cells, encode_sz, small_chunk_encode)

namespace base64_encode

variable {n : ℕ}

/-! ## Six bits at a time -/

/-- The character of a sextet. -/
theorem encoding_eq_ok {i : UInt32} (h : i.toNat < 64) :
    encoding i = .ok (Base64.char i.toNat) := by
  have hlt : i.toNat < Base64.alphabet.length := Base64.length_alphabet ▸ h
  refine index_eq_ok ?_
  unfold Base64.char
  rw [List.getD_eq_getElem?_getD, List.getElem?_eq_getElem hlt]
  rfl

/-- The low six bits. -/
theorem toNat_and_3f (v : UInt32) : (v &&& 0x3f).toNat = v.toNat % 64 := by
  rw [UInt32.toNat_and]
  exact Nat.and_two_pow_sub_one_eq_mod v.toNat 6

/-- Three bytes or-ed into place. -/
theorem toNat_word24 (a b c : UInt8) :
    (a.toUInt32 <<< 16 ||| b.toUInt32 <<< 8 ||| c.toUInt32).toNat
      = a.toNat * 2 ^ 16 + b.toNat * 2 ^ 8 + c.toNat := by
  have hb := b.toNat_lt
  have hc : c.toUInt32.toNat < 2 ^ (8 : UInt32).toNat := c.toNat_lt
  have hlow : (c.toUInt32 ||| b.toUInt32 <<< 8).toNat = c.toNat + 2 ^ 8 * b.toNat :=
    UInt32.toNat_or_shiftLeft c.toUInt32 b (by decide) hc
  have hlow' : (c.toUInt32 ||| b.toUInt32 <<< 8).toNat < 2 ^ (16 : UInt32).toNat := by
    have hc' := c.toNat_lt
    rw [hlow]
    show c.toNat + 2 ^ 8 * b.toNat < 2 ^ 16
    omega
  have hword := UInt32.toNat_or_shiftLeft _ a (k := 16) (by decide) hlow'
  rw [UInt32.or_comm, UInt32.or_comm (a.toUInt32 <<< 16), ← UInt32.or_assoc, hword, hlow]
  show c.toNat + 2 ^ 8 * b.toNat + 2 ^ 16 * a.toNat = _
  ring

/-- Two bytes or-ed into place. -/
theorem toNat_word16 (a b : UInt8) :
    (a.toUInt32 <<< 8 ||| b.toUInt32).toNat = a.toNat * 2 ^ 8 + b.toNat := by
  have hb : b.toUInt32.toNat < 2 ^ (8 : UInt32).toNat := b.toNat_lt
  rw [UInt32.or_comm, UInt32.toNat_or_shiftLeft b.toUInt32 a (by decide) hb,
    UInt8.toNat_toUInt32]
  show b.toNat + 2 ^ 8 * a.toNat = _
  ring

theorem toNat_shiftRight (v : UInt32) {k : UInt32} (h : k.toNat < 32) :
    (v >>> k).toNat = v.toNat / 2 ^ k.toNat := by
  rw [UInt32.toNat_shiftRight, Nat.mod_eq_of_lt h, Nat.shiftRight_eq_div_pow]

/-- A sextet that is shifted up stays where it is. -/
theorem toNat_shiftLeft (v : UInt32) {k : UInt32} (h : k.toNat < 32)
    (hv : v.toNat * 2 ^ k.toNat < 2 ^ 32) : (v <<< k).toNat = v.toNat * 2 ^ k.toNat := by
  rw [UInt32.toNat_shiftLeft, Nat.mod_eq_of_lt h, Nat.shiftLeft_eq, Nat.mod_eq_of_lt hv]

/-- The characters of 24 bits. -/
theorem encoding_word24 {v : UInt32} (h : v.toNat < 2 ^ 24) :
    encoding (v >>> 18) = .ok (Base64.char (v.toNat / 2 ^ 18))
      ∧ encoding ((v >>> 12) &&& 0x3f) = .ok (Base64.char (v.toNat / 2 ^ 12 % 64))
      ∧ encoding ((v >>> 6) &&& 0x3f) = .ok (Base64.char (v.toNat / 2 ^ 6 % 64))
      ∧ encoding (v &&& 0x3f) = .ok (Base64.char (v.toNat % 64)) := by
  have h18 : (v >>> 18).toNat = v.toNat / 2 ^ 18 := toNat_shiftRight v (by decide)
  have h12 : ((v >>> 12) &&& 0x3f).toNat = v.toNat / 2 ^ 12 % 64 := by
    rw [toNat_and_3f, toNat_shiftRight v (by decide)]
    rfl
  have h6 : ((v >>> 6) &&& 0x3f).toNat = v.toNat / 2 ^ 6 % 64 := by
    rw [toNat_and_3f, toNat_shiftRight v (by decide)]
    rfl
  refine ⟨?_, ?_, ?_, ?_⟩
  · rw [encoding_eq_ok (by omega), h18]
  · rw [encoding_eq_ok (by omega), h12]
  · rw [encoding_eq_ok (by omega), h6]
  · rw [encoding_eq_ok (by rw [toNat_and_3f]; omega), toNat_and_3f]

/-! ## The loop -/

/-- **Where the loop stands**: the first `done` bytes of the text, which are
whole groups, have been encoded at the start of the buffer. -/
structure Encoded (done : List UInt8) (s : State n) : Prop where
  groups : done.length % 3 = 0
  i_eq : s.i = done.length
  j_eq : s.j = (Base64.encode done).length
  slice_eq : s.buffer.slice 0 s.j = Base64.encode done

/-- What the loop has not come to yet is read behind what it has done. -/
theorem index_append {done rest : List UInt8} {k : ℕ} {x : UInt8} (h : rest[k]? = some x) :
    index (done ++ rest) (done.length + k) = .ok x := by
  refine index_eq_ok ?_
  rw [List.getElem?_append_right (Nat.le_add_right _ _), Nat.add_sub_cancel_left]
  exact h

/-- Four characters are stored one by one. -/
theorem exists_store_four (b : MemBlock UInt8 n) {j : ℕ} {s : List UInt8}
    (hs : b.slice 0 j = s) (h : j + 4 ≤ n) (c₀ c₁ c₂ c₃ : UInt8) :
    ∃ b₀ b₁ b₂ b₃, b.store j [c₀] = .ok b₀ ∧ b₀.store (j + 1) [c₁] = .ok b₁
      ∧ b₁.store (j + 2) [c₂] = .ok b₂ ∧ b₂.store (j + 3) [c₃] = .ok b₃
      ∧ b₃.slice 0 (j + 4) = s ++ [c₀, c₁, c₂, c₃] := by
  obtain ⟨b₀, h₀, hs₀⟩ := b.exists_store_append [c₀] hs
    (show j + 1 ≤ n by omega)
  obtain ⟨b₁, h₁, hs₁⟩ := b₀.exists_store_append [c₁] hs₀
    (show j + 1 + 1 ≤ n by omega)
  obtain ⟨b₂, h₂, hs₂⟩ := b₁.exists_store_append [c₂] hs₁
    (show j + 2 + 1 ≤ n by omega)
  obtain ⟨b₃, h₃, hs₃⟩ := b₂.exists_store_append [c₃] hs₂
    (show j + 3 + 1 ≤ n by omega)
  refine ⟨b₀, b₁, b₂, b₃, h₀, h₁, h₂, h₃, hs₃.trans ?_⟩
  simp only [List.append_assoc, List.cons_append, List.nil_append]

/-- **A turn encodes a group.** -/
theorem turn_group {done : List UInt8} {a b c : UInt8} {s : State n}
    (hs : Encoded done s) (rest : List UInt8) (h : s.j + 4 ≤ n) :
    ∃ t, turn (done ++ a :: b :: c :: rest) s = .ok (.yield t, [])
      ∧ Encoded (done ++ [a, b, c]) t := by
  obtain ⟨i, j, buffer⟩ := s
  obtain rfl : i = done.length := hs.i_eq
  have ha := a.toNat_lt
  have hb := b.toNat_lt
  have hc := c.toNat_lt
  have hword := toNat_word24 a b c
  obtain ⟨h18, h12, h6, h0⟩ := encoding_word24
    (v := a.toUInt32 <<< 16 ||| b.toUInt32 <<< 8 ||| c.toUInt32) (by rw [hword]; omega)
  have hgroup : Base64.encode (done ++ [a, b, c])
      = Base64.encode done ++ Base64.group (a.toNat * 2 ^ 16 + b.toNat * 2 ^ 8 + c.toNat) := by
    rw [Base64.encode_append hs.groups, Base64.encode, Base64.encode, List.append_nil]
  rw [hword] at h18 h12 h6 h0
  -- from here on the group is the number that its three bytes make
  generalize a.toNat * 2 ^ 16 + b.toNat * 2 ^ 8 + c.toNat = v at h18 h12 h6 h0 hgroup
  obtain ⟨b₀, b₁, b₂, b₃, hb₀, hb₁, hb₂, hb₃, hslice⟩ := exists_store_four buffer
    hs.slice_eq h (Base64.char (v / 2 ^ 18)) (Base64.char (v / 2 ^ 12 % 64))
    (Base64.char (v / 2 ^ 6 % 64)) (Base64.char (v % 64))
  refine ⟨⟨done.length + 3, j + 4, b₃⟩, ?_, ?_⟩
  · have hlt : (done.length : ℤ) < (done ++ a :: b :: c :: rest).length - 2 := by
      rw [List.length_append, List.length_cons, List.length_cons, List.length_cons]
      push_cast
      omega
    have h₀ : index (done ++ a :: b :: c :: rest) done.length = .ok a := index_append (k := 0) rfl
    have h₁ : index (done ++ a :: b :: c :: rest) (done.length + 1) = .ok b := index_append rfl
    have h₂ : index (done ++ a :: b :: c :: rest) (done.length + 2) = .ok c := index_append rfl
    unfold turn
    rw [if_pos hlt]
    simp only [h₀, h₁, h₂, ok_bind, h18, h12, h6, h0, hb₀, hb₁, hb₂, hb₃]
    rfl
  · refine ⟨?_, ?_, ?_, ?_⟩
    · have hgroups := hs.groups
      rw [List.length_append]
      show (done.length + 3) % 3 = 0
      omega
    · rw [List.length_append]
      rfl
    · rw [hgroup, List.length_append, ← hs.j_eq]
      rfl
    · rw [hgroup]
      exact hslice

/-- **The loop ends** where no whole group is left. -/
theorem turn_done {done rest : List UInt8} {s : State n} (hs : Encoded done s)
    (h : rest.length < 3) : turn (done ++ rest) s = .ok (.done s, []) := by
  have hi := hs.i_eq
  unfold turn
  rw [if_neg (by rw [List.length_append]; push_cast; omega)]
  rfl

/-- **The loop encodes all whole groups.** -/
theorem loop_eq {done : List UInt8} {s : State n} (hs : Encoded done s) (rest : List UInt8)
    {fuel : ℕ} (hfuel : rest.length < fuel) (hsize : (Base64.encode (done ++ rest)).length ≤ n) :
    ∃ t done' rest', whileTrue (turn (done ++ rest)) fuel s = .ok (t, [])
      ∧ done ++ rest = done' ++ rest' ∧ rest'.length < 3 ∧ Encoded done' t := by
  induction rest using Base64.encode.induct generalizing done s fuel with
  | case1 a b c rest ih =>
    -- a whole group is left, and the buffer has room for it
    obtain ⟨fuel, rfl⟩ := Nat.exists_eq_succ_of_ne_zero (Nat.ne_zero_of_lt hfuel)
    have hassoc : done ++ a :: b :: c :: rest = done ++ [a, b, c] ++ rest :=
      (List.append_assoc done [a, b, c] rest).symm
    have hroom : s.j + 4 ≤ n := by
      rw [Base64.encode_append hs.groups, List.length_append, ← hs.j_eq,
        Base64.length_encode (a :: b :: c :: rest)] at hsize
      simp only [List.length_cons] at hsize
      omega
    obtain ⟨t, hturn, ht⟩ := turn_group hs rest hroom
    rw [hassoc] at hsize hturn ⊢
    simp only [List.length_cons] at hfuel
    obtain ⟨u, done', rest', hloop, hsplit, hlen, hu⟩ := ih ht (Nat.lt_of_add_right_lt
      (Nat.lt_of_succ_lt_succ hfuel : rest.length + 1 + 1 < fuel)) hsize
    exact ⟨u, done', rest', whileTrue_yield hturn hloop, hsplit, hlen, hu⟩
  | case2 | case3 | case4 =>
    obtain ⟨fuel, rfl⟩ := Nat.exists_eq_succ_of_ne_zero (Nat.ne_zero_of_lt hfuel)
    exact ⟨s, done, _, whileTrue_done (turn_done hs (by simp)) fuel, rfl, by simp, hs⟩

/-! ## The padding -/

/-- One byte that is left is written in two characters. -/
theorem encoding_one (a : UInt8) :
    encoding (a.toUInt32 >>> 2) = .ok (Base64.char (a.toNat / 4))
      ∧ encoding ((a.toUInt32 &&& 3) <<< 4) = .ok (Base64.char (a.toNat % 4 * 16)) := by
  have ha := a.toNat_lt
  have hhigh : (a.toUInt32 >>> 2).toNat = a.toNat / 4 := toNat_shiftRight _ (by decide)
  have hand : (a.toUInt32 &&& 3).toNat = a.toNat % 4 := by
    rw [UInt32.toNat_and, UInt8.toNat_toUInt32]
    exact Nat.and_two_pow_sub_one_eq_mod a.toNat 2
  have hlow : ((a.toUInt32 &&& 3) <<< 4).toNat = a.toNat % 4 * 16 := by
    have hlt : (a.toUInt32 &&& 3).toNat * 2 ^ (4 : UInt32).toNat < 2 ^ 32 := by
      rw [hand]
      show a.toNat % 4 * 16 < 2 ^ 32
      omega
    rw [toNat_shiftLeft _ (by decide) hlt, hand]
    rfl
  exact ⟨by rw [encoding_eq_ok (by omega), hhigh], by rw [encoding_eq_ok (by omega), hlow]⟩

/-- Two bytes that are left are written in three. -/
theorem encoding_two {v : UInt32} (h : v.toNat < 2 ^ 16) :
    encoding (v >>> 10) = .ok (Base64.char (v.toNat / 2 ^ 10))
      ∧ encoding ((v >>> 4) &&& 0x3f) = .ok (Base64.char (v.toNat / 2 ^ 4 % 64))
      ∧ encoding ((v &&& 0xf) <<< 2) = .ok (Base64.char (v.toNat % 16 * 4)) := by
  have hhigh : (v >>> 10).toNat = v.toNat / 2 ^ 10 := toNat_shiftRight v (by decide)
  have hmid : ((v >>> 4) &&& 0x3f).toNat = v.toNat / 2 ^ 4 % 64 := by
    rw [toNat_and_3f, toNat_shiftRight v (by decide)]
    rfl
  have hand : (v &&& 0xf).toNat = v.toNat % 16 := by
    rw [UInt32.toNat_and]
    exact Nat.and_two_pow_sub_one_eq_mod v.toNat 4
  have hlow : ((v &&& 0xf) <<< 2).toNat = v.toNat % 16 * 4 := by
    have hlt : (v &&& 0xf).toNat * 2 ^ (2 : UInt32).toNat < 2 ^ 32 := by
      rw [hand]
      show v.toNat % 16 * 4 < 2 ^ 32
      omega
    rw [toNat_shiftLeft _ (by decide) hlt, hand]
    rfl
  exact ⟨by rw [encoding_eq_ok (by omega), hhigh], by rw [encoding_eq_ok (by omega), hmid],
    by rw [encoding_eq_ok (by omega), hlow]⟩

/-- **What is left is encoded with padding.** -/
theorem padding_eq {done rest : List UInt8} {s : State n} (hs : Encoded done s)
    (h : rest.length < 3) (hsize : (Base64.encode (done ++ rest)).length ≤ n) :
    ∃ b, padding (done ++ rest) s = .ok b
      ∧ b.slice 0 (Base64.encode (done ++ rest)).length = Base64.encode (done ++ rest) := by
  obtain ⟨i, j, buffer⟩ := s
  obtain rfl : i = done.length := hs.i_eq
  have hleft : (done ++ rest).length - done.length = rest.length := by
    rw [List.length_append]
    omega
  have hj : j = (Base64.encode done).length := hs.j_eq
  rw [Base64.encode_append hs.groups, List.length_append, ← hj] at hsize ⊢
  unfold padding
  dsimp only
  rw [hleft]
  match rest, h with
  | [], _ =>
    -- nothing is left, and nothing is padded
    rw [if_neg (by decide), if_neg (by decide)]
    simp only [Base64.encode, List.append_nil, List.length_nil, Nat.add_zero]
    exact ⟨buffer, rfl, hs.slice_eq⟩
  | [a], _ =>
    have h₀ : index (done ++ [a]) done.length = .ok a := index_append (k := 0) rfl
    obtain ⟨hhigh, hlow⟩ := encoding_one a
    obtain ⟨b₀, b₁, b₂, b₃, hb₀, hb₁, hb₂, hb₃, hslice⟩ := exists_store_four buffer
      hs.slice_eq hsize (Base64.char (a.toNat / 4)) (Base64.char (a.toNat % 4 * 16))
      Base64.pad Base64.pad
    rw [if_pos (show [a].length = 1 from rfl)]
    simp only [h₀, ok_bind, hhigh, hlow, hb₀, hb₁, hb₂, hb₃]
    exact ⟨b₃, rfl, by rw [Base64.encode]; exact hslice⟩
  | [a, b], _ =>
    have ha := a.toNat_lt
    have hb := b.toNat_lt
    have h₀ : index (done ++ [a, b]) done.length = .ok a := index_append (k := 0) rfl
    have h₁ : index (done ++ [a, b]) (done.length + 1) = .ok b := index_append rfl
    have hword := toNat_word16 a b
    obtain ⟨hhigh, hmid, hlow⟩ := encoding_two (v := a.toUInt32 <<< 8 ||| b.toUInt32)
      (by rw [hword]; omega)
    rw [hword] at hhigh hmid hlow
    obtain ⟨b₀, b₁, b₂, b₃, hb₀, hb₁, hb₂, hb₃, hslice⟩ := exists_store_four buffer
      hs.slice_eq hsize (Base64.char ((a.toNat * 2 ^ 8 + b.toNat) / 2 ^ 10))
      (Base64.char ((a.toNat * 2 ^ 8 + b.toNat) / 2 ^ 4 % 64))
      (Base64.char ((a.toNat * 2 ^ 8 + b.toNat) % 16 * 4)) Base64.pad
    rw [if_neg (show ¬ [a, b].length = 1 from (by decide : ¬ 2 = 1)),
      if_pos (show [a, b].length = 2 from rfl)]
    simp only [h₀, h₁, ok_bind, hhigh, hmid, hlow, hb₀, hb₁, hb₂, hb₃]
    exact ⟨b₃, rfl, by rw [Base64.encode]; exact hslice⟩

/-- **The buffer holds the encoding**, with a NUL behind it. -/
theorem fill_eq (text : List UInt8) (buffer : MemBlock UInt8 n)
    (h : (text.length + 2) / 3 * 4 < n) :
    ∃ b, fill text buffer = .ok b
      ∧ b.slice 0 ((text.length + 2) / 3 * 4 + 1) = Base64.encode text ++ [0] := by
  have hlen := Base64.length_encode text
  have hnone : Encoded [] (⟨0, 0, buffer⟩ : State n) :=
    ⟨rfl, rfl, by rw [Base64.encode]; rfl, by rw [Base64.encode, MemBlock.slice_zero]⟩
  obtain ⟨s, done, rest, hloop, hsplit, hrest, hs⟩ := loop_eq hnone text
    (Nat.lt_succ_self _) (by rw [List.nil_append, hlen]; exact h.le)
  rw [List.nil_append] at hloop hsplit
  obtain ⟨b, hpadding, hslice⟩ := padding_eq hs hrest (by rw [← hsplit, hlen]; exact h.le)
  rw [← hsplit, hlen] at hslice
  rw [← hsplit] at hpadding
  obtain ⟨b', hstore, hslice'⟩ := b.exists_store_append [0] hslice h
  unfold fill
  rw [hloop, ok_bind]
  dsimp only
  rw [hpadding, ok_bind]
  exact ⟨b', hstore, hslice'⟩

end base64_encode

/-- **`base64_encode` writes the encoding** and a NUL behind it, whatever was in its
buffers. -/
theorem base64_encode_eq_append (fresh : ℕ → UInt8) (text : List UInt8)
    (small_chunk_encode : MemBlock UInt8 SMALL_CHUNK) :
    ∃ rest small_chunk_encode', base64_encode fresh text small_chunk_encode
      = .ok (Base64.encode text ++ 0 :: rest, (Base64.encode text).length,
        small_chunk_encode') := by
  have hcells : ∀ {n : ℕ} {b : MemBlock UInt8 n},
      b.slice 0 ((text.length + 2) / 3 * 4 + 1) = Base64.encode text ++ [0] →
      b.cells = Base64.encode text ++ 0 :: b.cells.drop ((text.length + 2) / 3 * 4 + 1) := by
    intro n b hslice
    rw [← List.singleton_append, ← List.append_assoc, ← hslice]
    exact (List.take_append_drop _ b.cells).symm
  rw [Base64.length_encode]
  unfold base64_encode
  by_cases hlarge : (text.length + 2) / 3 * 4 ≥ SMALL_CHUNK
  · obtain ⟨b, hfill, hslice⟩ := base64_encode.fill_eq text
      (MemBlock.ofFn fresh ((text.length + 2) / 3 * 4 + 1)) (Nat.lt_succ_self _)
    rw [if_pos hlarge, hfill, ok_bind, hcells hslice]
    exact ⟨_, _, rfl⟩
  · obtain ⟨b, hfill, hslice⟩ := base64_encode.fill_eq text small_chunk_encode
      (Nat.not_le.mp hlarge)
    rw [if_neg hlarge, hfill, ok_bind, hcells hslice]
    exact ⟨_, _, rfl⟩

/-- **`base64_encode` returns the encoding**, as a C string of `*out_esz` bytes,
whatever was in its buffers. -/
theorem base64_encode_eq (fresh : ℕ → UInt8) (text : List UInt8)
    (small_chunk_encode : MemBlock UInt8 SMALL_CHUNK) :
    ∃ buffer small_chunk_encode', base64_encode fresh text small_chunk_encode
        = .ok (buffer, (Base64.encode text).length, small_chunk_encode')
      ∧ cstr buffer = Base64.encode text := by
  obtain ⟨rest, small_chunk_encode', h⟩ := base64_encode_eq_append fresh text small_chunk_encode
  exact ⟨_, small_chunk_encode', h, cstr_append (Base64.nulFree_encode text) rest⟩

/-- **What `base64_encode` returns is RFC 4648**: a string of `*out_esz` bytes, four
for every three of the text, with a NUL behind it; characters of the alphabet,
with as much padding at the end as the last group lacks; and decoding it gives
the text back, so that no other text is encoded alike. -/
theorem base64_encode_rfc_4648 (fresh : ℕ → UInt8) (text : List UInt8)
    (small_chunk_encode : MemBlock UInt8 SMALL_CHUNK) :
    ∃ buffer small_chunk_encode', base64_encode fresh text small_chunk_encode
        = .ok (buffer, 4 * (text.length ⌈/⌉ 3), small_chunk_encode')
      ∧ buffer[4 * (text.length ⌈/⌉ 3)]? = some 0
      ∧ (cstr buffer).length = 4 * (text.length ⌈/⌉ 3)
      ∧ (∃ body k, cstr buffer = body ++ List.replicate k Base64.pad ∧ k ≤ 2
        ∧ body ⊆ Base64.alphabet)
      ∧ Base64.decode (cstr buffer) = some text
      ∧ ∀ fresh' text' small_chunk_encode₁,
        (base64_encode fresh' text' small_chunk_encode₁).map (fun r => cstr r.1)
          = .ok (cstr buffer) ↔ text' = text := by
  have hlen : (Base64.encode text).length = 4 * (text.length ⌈/⌉ 3) := by
    rw [Base64.length_encode, Nat.ceilDiv_eq_add_pred_div, Nat.mul_comm]
    rfl
  obtain ⟨rest, small_chunk_encode', h⟩ := base64_encode_eq_append fresh text small_chunk_encode
  have hcstr : cstr (Base64.encode text ++ 0 :: rest) = Base64.encode text :=
    cstr_append (Base64.nulFree_encode text) rest
  refine ⟨Base64.encode text ++ 0 :: rest, small_chunk_encode', hlen ▸ h, ?_, ?_, ?_, ?_, ?_⟩
  · rw [← hlen, List.getElem?_append_right (Nat.le_refl _), Nat.sub_self]
    rfl
  · rw [hcstr, hlen]
  · obtain ⟨body, hbody, hsub⟩ := Base64.exists_encode_eq_append text
    exact ⟨body, _, hcstr.trans hbody, by omega, hsub⟩
  · rw [hcstr, Base64.decode_encode]
  · intro fresh' text' small_chunk_encode₁
    obtain ⟨buffer', small_chunk_encode₁', h', hcstr'⟩ :=
      base64_encode_eq fresh' text' small_chunk_encode₁
    rw [h', hcstr]
    show Except.ok (cstr buffer') = _ ↔ _
    rw [hcstr', Except.ok.injEq]
    refine ⟨fun heq => ?_, fun heq => heq ▸ rfl⟩
    have hdecode := Base64.decode_encode text'
    rw [heq, Base64.decode_encode] at hdecode
    exact (Option.some.inj hdecode).symm
