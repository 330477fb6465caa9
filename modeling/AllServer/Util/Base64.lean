import AllServer.Util.CString
import Mathlib.Tactic.Ring

/-!
# Base64

The encoding of RFC 4648: three bytes are written as four characters of six
bits each, most significant first, and what is left at the end is padded. The
encoding of a text that begins with whole groups of three bytes is that of the
groups followed by that of the rest (`encode_append`), so a loop may encode
group by group.
-/

namespace Base64

/-- The standard alphabet. -/
def alphabet : List UInt8 :=
  ascii "ABCDEFGHIJKLMNOPQRSTUVWXYZabcdefghijklmnopqrstuvwxyz0123456789+/"

/-- The padding character. -/
def pad : UInt8 := 61

/-- The character that stands for six bits. -/
def char (n : ℕ) : UInt8 := alphabet.getD n 0

/-- The four characters of three bytes, from the 24 bits they are. -/
def group (v : ℕ) : List UInt8 :=
  [char (v / 2 ^ 18), char (v / 2 ^ 12 % 64), char (v / 2 ^ 6 % 64), char (v % 64)]

/-- **The encoding.** -/
def encode : List UInt8 → List UInt8
  | a :: b :: c :: text =>
    group (a.toNat * 2 ^ 16 + b.toNat * 2 ^ 8 + c.toNat) ++ encode text
  | [a, b] =>
    let v := a.toNat * 2 ^ 8 + b.toNat
    [char (v / 2 ^ 10), char (v / 2 ^ 4 % 64), char (v % 16 * 4), pad]
  | [a] => [char (a.toNat / 4), char (a.toNat % 4 * 16), pad, pad]
  | [] => []

/-- The letters, the digits, `+` and `/`. -/
theorem alphabet_eq :
    alphabet = (List.range' 65 26 ++ List.range' 97 26 ++ List.range' 48 10 ++ [43, 47]).map
      UInt8.ofNat := by
  decide

theorem length_alphabet : alphabet.length = 64 := by
  rw [alphabet_eq]
  decide

theorem char_mem_alphabet {n : ℕ} (h : n < 64) : char n ∈ alphabet := by
  unfold char
  rw [List.getD_eq_getElem?_getD, List.getElem?_eq_getElem (length_alphabet ▸ h)]
  exact List.getElem_mem _

theorem char_ne_zero {n : ℕ} (h : n < 64) : char n ≠ 0 := by
  have hall : NulFree alphabet := by
    rw [alphabet_eq]
    decide
  exact fun heq => hall (heq ▸ char_mem_alphabet h)

/-- **Four characters for every three bytes**, or what is left of them. -/
@[simp] theorem length_encode (text : List UInt8) :
    (encode text).length = (text.length + 2) / 3 * 4 := by
  induction text using encode.induct with
  | case1 a b c text ih =>
    rw [encode, List.length_append, ih]
    simp only [group, List.length_cons, List.length_nil]
    omega
  | case2 | case3 | case4 => simp [encode]

/-- The encoding is a C string. -/
theorem nulFree_encode (text : List UInt8) : NulFree (encode text) := by
  induction text using encode.induct with
  | case1 a b c text ih =>
    have ha := a.toNat_lt
    have hb := b.toNat_lt
    have hc := c.toNat_lt
    refine NulFree.append (fun h => ?_) ih
    simp only [group, List.mem_cons, List.not_mem_nil, or_false] at h
    rcases h with h | h | h | h <;> exact char_ne_zero (by omega) h.symm
  | case2 a b =>
    have ha := a.toNat_lt
    have hb := b.toNat_lt
    intro h
    simp only [encode, List.mem_cons, List.not_mem_nil, or_false] at h
    rcases h with h | h | h | h
    · exact char_ne_zero (by omega) h.symm
    · exact char_ne_zero (by omega) h.symm
    · exact char_ne_zero (by omega) h.symm
    · exact absurd h (by decide)
  | case3 a =>
    have ha := a.toNat_lt
    intro h
    simp only [encode, List.mem_cons, List.not_mem_nil, or_false] at h
    rcases h with h | h | h | h
    · exact char_ne_zero (by omega) h.symm
    · exact char_ne_zero (by omega) h.symm
    · exact absurd h (by decide)
    · exact absurd h (by decide)
  | case4 => simp [encode, NulFree]

/-- **Whole groups are encoded by themselves.** -/
theorem encode_append {text : List UInt8} (h : text.length % 3 = 0) (rest : List UInt8) :
    encode (text ++ rest) = encode text ++ encode rest := by
  induction text using encode.induct with
  | case1 a b c text ih =>
    have hlen : text.length % 3 = 0 := by
      simp only [List.length_cons] at h
      omega
    show group _ ++ encode (text ++ rest) = _
    rw [ih hlen, encode, List.append_assoc]
  | case2 | case3 => simp at h
  | case4 => simp [encode]

/-- **Characters of the alphabet, and padding at the end**: as many bytes as the
text lacks of a whole group. -/
theorem exists_encode_eq_append (text : List UInt8) : ∃ body,
    encode text = body ++ List.replicate ((3 - text.length % 3) % 3) pad ∧ body ⊆ alphabet := by
  induction text using encode.induct with
  | case1 a b c text ih =>
    have ha := a.toNat_lt
    have hb := b.toNat_lt
    have hc := c.toNat_lt
    obtain ⟨body, hbody, hsub⟩ := ih
    have hlen : (a :: b :: c :: text).length % 3 = text.length % 3 := by
      simp only [List.length_cons]
      omega
    refine ⟨group (a.toNat * 2 ^ 16 + b.toNat * 2 ^ 8 + c.toNat) ++ body, ?_,
      List.append_subset.mpr ⟨fun x hx => ?_, hsub⟩⟩
    · rw [encode, hbody, hlen, List.append_assoc]
    · simp only [group, List.mem_cons, List.not_mem_nil, or_false] at hx
      rcases hx with rfl | rfl | rfl | rfl <;> exact char_mem_alphabet (by omega)
  | case2 a b =>
    have ha := a.toNat_lt
    have hb := b.toNat_lt
    refine ⟨[char ((a.toNat * 2 ^ 8 + b.toNat) / 2 ^ 10),
      char ((a.toNat * 2 ^ 8 + b.toNat) / 2 ^ 4 % 64),
      char ((a.toNat * 2 ^ 8 + b.toNat) % 16 * 4)], by rw [encode]; rfl, fun x hx => ?_⟩
    simp only [List.mem_cons, List.not_mem_nil, or_false] at hx
    rcases hx with rfl | rfl | rfl <;> exact char_mem_alphabet (by omega)
  | case3 a =>
    have ha := a.toNat_lt
    refine ⟨[char (a.toNat / 4), char (a.toNat % 4 * 16)], by rw [encode]; rfl, fun x hx => ?_⟩
    simp only [List.mem_cons, List.not_mem_nil, or_false] at hx
    rcases hx with rfl | rfl <;> exact char_mem_alphabet (by omega)
  | case4 => exact ⟨[], by simp [encode], List.nil_subset _⟩

/-! ## Decoding -/

/-- The number that characters stand for, most significant first. -/
def value? (cs : List UInt8) : Option ℕ :=
  cs.foldlM (fun v c => do return v * 64 + (← alphabet.idxOf? c)) 0

/-- **The decoding.** Padding is at the end only, and the bits that are left over
in front of it are zero. -/
def decode : List UInt8 → Option (List UInt8)
  | w :: x :: y :: z :: text =>
    if text = [] ∧ z = pad then
      if y = pad then do
        let v ← value? [w, x]
        if v % 16 = 0 then some [UInt8.ofNat (v / 16)] else none
      else do
        let v ← value? [w, x, y]
        if v % 4 = 0 then some [UInt8.ofNat (v / 4 / 256), UInt8.ofNat (v / 4)] else none
    else do
      let v ← value? [w, x, y, z]
      return UInt8.ofNat (v / 256 / 256) :: UInt8.ofNat (v / 256) :: UInt8.ofNat v
        :: (← decode text)
  | [] => some []
  | _ => none

set_option maxRecDepth 2000 in
theorem idxOf?_char {n : ℕ} (h : n < 64) : alphabet.idxOf? (char n) = some n := by
  have hall : ∀ k : Fin 64, alphabet.idxOf? (char k) = some k.val := by
    unfold char
    rw [alphabet_eq]
    decide
  exact hall ⟨n, h⟩

/-- Padding is no character. -/
theorem char_ne_pad {n : ℕ} (h : n < 64) : char n ≠ pad := by
  intro heq
  have hpad : alphabet.idxOf? pad = none := by
    rw [alphabet_eq]
    decide
  rw [← heq, idxOf?_char h] at hpad
  cases hpad

/-- **What characters stand for** is the number that their sextets make. -/
theorem value?_map_char (ns : List ℕ) (h : ∀ n ∈ ns, n < 64) :
    value? (ns.map char) = some (ns.foldl (fun v n => v * 64 + n) 0) := by
  have hfold : ∀ v, (ns.map char).foldlM (fun v c => do return v * 64 + (← alphabet.idxOf? c)) v
      = some (ns.foldl (fun v n => v * 64 + n) v) := by
    induction ns with
    | nil => exact fun _ => rfl
    | cons n ns ih =>
      obtain ⟨hn, hns⟩ := List.forall_mem_cons.mp h
      intro v
      rw [List.map_cons, List.foldlM_cons, idxOf?_char hn]
      exact ih hns _
  exact hfold 0

/-- The characters of three bytes stand for the bits they are. -/
theorem value?_group {v : ℕ} (h : v < 2 ^ 24) : value? (group v) = some v := by
  have hchars := value?_map_char [v / 2 ^ 18, v / 2 ^ 12 % 64, v / 2 ^ 6 % 64, v % 64] (by
    simp only [List.forall_mem_cons, List.not_mem_nil, false_implies, implies_true, and_true]
    omega)
  refine hchars.trans (congrArg some ?_)
  simp only [List.foldl_cons, List.foldl_nil]
  omega

/-- The byte that a number ends in. -/
theorem ofNat_eq {n : ℕ} {c : UInt8} (h : n % 256 = c.toNat) : UInt8.ofNat n = c :=
  UInt8.toNat_inj.mp (UInt8.toNat_ofNat'.trans h)

/-- **Decoding undoes encoding.** -/
theorem decode_encode (text : List UInt8) : decode (encode text) = some text := by
  induction text using encode.induct with
  | case1 a b c text ih =>
    have ha := a.toNat_lt
    have hb := b.toNat_lt
    have hc := c.toNat_lt
    rw [encode]
    generalize hv : a.toNat * 2 ^ 16 + b.toNat * 2 ^ 8 + c.toNat = v
    have hlast : ¬ (encode text = [] ∧ char (v % 64) = pad) :=
      fun h => char_ne_pad (Nat.mod_lt v (by decide)) h.2
    have hvalue := value?_group (v := v) (by omega)
    rw [group] at hvalue
    rw [group, List.cons_append, List.cons_append, List.cons_append, List.cons_append,
      List.nil_append, decode, if_neg hlast, ih, hvalue]
    show some (UInt8.ofNat (v / 256 / 256) :: UInt8.ofNat (v / 256) :: UInt8.ofNat v :: text) = _
    rw [ofNat_eq (c := a) (by omega), ofNat_eq (c := b) (by omega), ofNat_eq (c := c) (by omega)]
  | case2 a b =>
    have ha := a.toNat_lt
    have hb := b.toNat_lt
    rw [encode]
    generalize hv : a.toNat * 2 ^ 8 + b.toNat = v
    have hvalue : value? [char (v / 2 ^ 10), char (v / 2 ^ 4 % 64), char (v % 16 * 4)]
        = some (v * 4) := by
      have hchars := value?_map_char [v / 2 ^ 10, v / 2 ^ 4 % 64, v % 16 * 4]
        (by
          simp only [List.forall_mem_cons, List.not_mem_nil, false_implies, implies_true, and_true]
          omega)
      refine hchars.trans (congrArg some ?_)
      simp only [List.foldl_cons, List.foldl_nil]
      omega
    rw [decode, if_pos ⟨rfl, rfl⟩, if_neg (char_ne_pad (by omega)), hvalue]
    show (if v * 4 % 4 = 0 then some [UInt8.ofNat (v * 4 / 4 / 256), UInt8.ofNat (v * 4 / 4)]
      else none) = _
    rw [if_pos (Nat.mul_mod_left v 4), ofNat_eq (c := a) (by omega), ofNat_eq (c := b) (by omega)]
  | case3 a =>
    have ha := a.toNat_lt
    have hvalue : value? [char (a.toNat / 4), char (a.toNat % 4 * 16)] = some (a.toNat * 16) := by
      have hchars := value?_map_char [a.toNat / 4, a.toNat % 4 * 16]
        (by
          simp only [List.forall_mem_cons, List.not_mem_nil, false_implies, implies_true, and_true]
          omega)
      refine hchars.trans (congrArg some ?_)
      simp only [List.foldl_cons, List.foldl_nil]
      omega
    rw [encode, decode, if_pos ⟨rfl, rfl⟩, if_pos rfl, hvalue]
    show (if a.toNat * 16 % 16 = 0 then some [UInt8.ofNat (a.toNat * 16 / 16)] else none) = _
    rw [if_pos (Nat.mul_mod_left a.toNat 16), ofNat_eq (c := a) (by omega)]
  | case4 => rfl

end Base64
