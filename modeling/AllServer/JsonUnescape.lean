import AllServer.JsonEscape
import Mathlib.Data.List.DropRight

/-!
# The strings that can be unescaped

The text of a JSON string is a row of characters, short escapes and codes
(`Mjson.IsBody.exists_pieces`). `json_unescape` takes a code that is a high surrogate together with
what is behind it. Where nothing is behind it, it takes the NUL, and goes on behind the end of
the text. So a text is safe exactly if the high surrogates at its end are an even number
(`Mjson.json_unescape_iff`).
-/

namespace Mjson

open LEX_VALUE

/-- **A piece of a string**: a character, a short escape or a code. -/
inductive Piece where
  | plain (c : UInt8)
  | short (e : UInt8)
  | code (digits : List UInt8)

namespace Piece

/-- The text of a piece. -/
def bytes : Piece → List UInt8
  | plain c => [c]
  | short e => [92, e]
  | code digits => 92 :: 117 :: digits

/-- The pieces that the lexer takes. -/
def Ok : Piece → Prop
  | plain c => 32 ≤ c ∧ c ≠ 34 ∧ c ≠ 92
  | short e => e ∈ shortEscapes.map Prod.snd
  | code digits => digits.length = 4 ∧ ∀ d ∈ digits, isHex d = true

/-- The codes that are high surrogates. -/
def high : Piece → Bool
  | code digits => 0xD800 ≤ strtol digits ∧ strtol digits ≤ 0xDBFF
  | _ => false

end Piece

open Piece

/-- The text of a row of pieces. -/
def spell (ps : List Piece) : List UInt8 := ps.flatMap Piece.bytes

theorem spell_cons (p : Piece) (ps : List Piece) : spell (p :: ps) = p.bytes ++ spell ps := rfl

/-- No high surrogate is left alone at the end, where each takes what is behind it. -/
def paired : List Piece → Bool
  | [] => true
  | [p] => !p.high
  | p :: p' :: ps => if p.high then paired ps else paired (p' :: ps)

/-! ## What the lexer takes -/

theorem le_of_not_control {c : UInt8} (hc : c ≠ 0) (h : ¬(1 ≤ c ∧ c ≤ 31)) : 32 ≤ c := by
  have hzero : c.toNat ≠ 0 := fun hzero => hc (UInt8.toNat_inj.mp hzero)
  rw [UInt8.le_iff_toNat_le, UInt8.le_iff_toNat_le] at h
  rw [UInt8.le_iff_toNat_le]
  have h1 : (1 : UInt8).toNat = 1 := rfl
  have h31 : (31 : UInt8).toNat = 31 := rfl
  have h32 : (32 : UInt8).toNat = 32 := rfl
  omega

theorem Piece.length_bytes_pos (p : Piece) : 0 < p.bytes.length := by
  cases p <;> exact Nat.succ_pos _

/-- **A text that the lexer takes is a row of pieces.** -/
theorem IsBody.exists_pieces {t : List UInt8} (h : IsBody t) :
    ∃ ps, (∀ p ∈ ps, Piece.Ok p) ∧ spell ps = t := by
  obtain ⟨hfree, hbody⟩ := isBody_iff.mp h
  clear h
  -- a piece is put in front of those of the rest
  have hcons : ∀ {p : Piece} {t : List UInt8}, p.Ok →
      (∃ ps, (∀ p ∈ ps, Piece.Ok p) ∧ spell ps = t) →
      ∃ ps, (∀ p ∈ ps, Piece.Ok p) ∧ spell ps = p.bytes ++ t := by
    rintro p _ hp ⟨ps, hps, rfl⟩
    exact ⟨p :: ps, List.forall_mem_cons.mpr ⟨hp, hps⟩, rfl⟩
  induction hbody with
  | nil => exact ⟨[], List.forall_mem_nil _, rfl⟩
  | @plain c t hcontrol hquote hslash _ ih =>
    obtain ⟨hc, hfree'⟩ := not_or.mp (mt List.mem_cons.mpr hfree)
    exact hcons (p := plain c) ⟨le_of_not_control (Ne.symm hc) hcontrol, hquote, hslash⟩ (ih hfree')
  | @short e t he _ ih =>
    have he' : e ∈ shortEscapes.map Prod.snd := by simpa [shortEscapes] using he
    exact hcons (p := short e) he' (ih fun hmem => hfree (by simp [hmem]))
  | @code d₁ d₂ d₃ d₄ t h₁ h₂ h₃ h₄ _ ih =>
    have hdigits : Piece.Ok (code [d₁, d₂, d₃, d₄]) := ⟨rfl, by simp [h₁, h₂, h₃, h₄]⟩
    exact hcons hdigits (ih fun hmem => hfree (by simp [hmem]))

/-! ## Turns -/

/-- What is written for a code that is no high surrogate. -/
def utf8 (unicode : ℤ) : List UInt8 :=
  if unicode < 0x80 then [UInt8.ofInt unicode]
  else if unicode < 0x800 then
    [UInt8.ofInt (0xC0 + unicode / 2 ^ 6 % 32), UInt8.ofInt (0x80 + unicode % 64)]
  else if unicode < 0x10000 then
    [UInt8.ofInt (0xE0 + unicode / 2 ^ 12 % 16), UInt8.ofInt (0x80 + unicode / 2 ^ 6 % 64),
      UInt8.ofInt (0x80 + unicode % 64)]
  else []

theorem length_utf8_le (unicode : ℤ) : (utf8 unicode).length ≤ 3 := by
  unfold utf8
  split_ifs <;> simp

/-- Four digits in front of something else. -/
theorem take_digits {digits : List UInt8} (h : digits.length = 4) (q : List UInt8) :
    (digits ++ q).take 4 = digits ∧ (digits ++ q).drop 4 = q ∧ ¬(digits ++ q).length < 4 := by
  refine ⟨List.take_left' h, List.drop_left' h, ?_⟩
  rw [List.length_append, h]
  exact Nat.not_lt_of_le (Nat.le_add_right 4 q.length)

/-- **A code**: a high surrogate goes on with what is behind it. -/
theorem unicode_eq {digits : List UInt8} (h : digits.length = 4) (q : List UInt8) :
    json_unescape.unicode (digits ++ q) = if (code digits).high
      then json_unescape.low (strtol digits) q else .ok (utf8 (strtol digits), q) := by
  obtain ⟨htake, hdrop, hlength⟩ := take_digits h q
  unfold json_unescape.unicode utf8 high
  rw [if_neg hlength]
  dsimp only
  rw [htake, hdrop]
  simp only [decide_eq_true_eq]
  split_ifs <;> first | rfl | omega

/-- What is written for two surrogates. -/
def utf8Pair (high low : ℤ) : List UInt8 :=
  let unicode := ((high - 0xD800) * 2 ^ 10 + (low - 0xDC00) + 0x10000) % 2 ^ 64
  [UInt8.ofInt (0xF0 + unicode / 2 ^ 18 % 8), UInt8.ofInt (0x80 + unicode / 2 ^ 12 % 64),
    UInt8.ofInt (0x80 + unicode / 2 ^ 6 % 64), UInt8.ofInt (0x80 + unicode % 64)]

/-- **A piece behind a high surrogate** is taken with it. -/
theorem low_piece {p : Piece} (hp : p.Ok) (unicode : ℤ) :
    ∃ w : List UInt8, w.length ≤ 4
      ∧ ∀ q, json_unescape.low unicode (p.bytes ++ q) = .ok (w, q) := by
  cases p with
  | plain c =>
    refine ⟨[], Nat.zero_le 4, fun q => ?_⟩
    cases q with
    | nil => exact if_pos hp.2.2
    | cons x q => exact if_pos hp.2.2
  | short e =>
    have hall : ∀ e ∈ shortEscapes.map Prod.snd, e ≠ 117 := by simp [shortEscapes]
    exact ⟨[], Nat.zero_le 4, fun q => if_pos (hall e hp)⟩
  | code digits =>
    refine ⟨utf8Pair unicode (strtol digits), le_rfl, fun q => ?_⟩
    obtain ⟨htake, hdrop, hlength⟩ := take_digits hp.1 q
    show (if (digits ++ q).length < 4 then Except.error Fault.load else
      .ok (utf8Pair unicode (strtol ((digits ++ q).take 4)), (digits ++ q).drop 4)) = Except.ok _
    rw [if_neg hlength, htake, hdrop]

/-- **A piece that is no high surrogate.** -/
theorem turn_piece {p : Piece} (hp : p.Ok) (hhigh : p.high = false) :
    ∃ c cs w, p.bytes = c :: cs ∧ c ≠ 0 ∧ w.length ≤ p.bytes.length
      ∧ ∀ q, json_unescape.turn c (cs ++ q) = .ok (w, q) := by
  cases p with
  | plain c =>
    obtain ⟨e, es, hbytes, hne, hturn⟩ := (Escape.plain hp.1 hp.2.1 hp.2.2).turn
    exact ⟨e, es, [c], hbytes, hne, le_rfl, hturn⟩
  | short e =>
    obtain ⟨⟨c, e'⟩, hmem, rfl⟩ := List.mem_map.mp hp
    obtain ⟨e, es, hbytes, hne, hturn⟩ := (Escape.short hmem).turn
    exact ⟨e, es, [c], hbytes, hne, Nat.le_succ 1, hturn⟩
  | code digits =>
    refine ⟨92, 117 :: digits, utf8 (strtol digits), rfl, by decide, ?_, fun q => ?_⟩
    · have hlength := length_utf8_le (strtol digits)
      rw [bytes, List.length_cons, List.length_cons, hp.1]
      omega
    · show json_unescape.unicode (digits ++ q) = _
      rw [unicode_eq hp.1, hhigh]
      rfl

/-- **A high surrogate.** -/
theorem turn_high {p : Piece} (hp : p.Ok) (hhigh : p.high = true) :
    ∃ c cs unicode, p.bytes = c :: cs ∧ c ≠ 0 ∧ 4 ≤ p.bytes.length
      ∧ ∀ q, json_unescape.turn c (cs ++ q) = json_unescape.low unicode q := by
  cases p with
  | plain c => cases hhigh
  | short e => cases hhigh
  | code digits =>
    refine ⟨92, 117 :: digits, strtol digits, rfl, by decide, ?_, fun q => ?_⟩
    · rw [bytes, List.length_cons, List.length_cons, hp.1]
      omega
    · show json_unescape.unicode (digits ++ q) = _
      rw [unicode_eq hp.1, hhigh]
      rfl

/-! ## Runs -/

section Loop

variable {n w fuel : ℕ} {result : MemBlock UInt8 n}

/-- A turn of the loop. -/
theorem loop_turn {c : UInt8} {cs q written : List UInt8} (hc : c ≠ 0)
    (hturn : json_unescape.turn c cs = .ok (written, q)) (hroom : w + written.length ≤ n) :
    ∃ result', json_unescape.loop (fuel + 1) (c :: cs) result w
      = json_unescape.loop fuel q result' (w + written.length) := by
  refine ⟨result.patch w written hroom, ?_⟩
  rw [json_unescape.loop, if_neg hc, hturn, ok_bind, result.store_eq_ok hroom, ok_bind]

/-- The end of the text. -/
theorem loop_nul (hroom : w < n) :
    ∃ result', json_unescape.loop (fuel + 1) [0] result w = .ok result' ∧ 0 ∈ result'.cells := by
  refine ⟨_, result.store_eq_ok hroom, ?_⟩
  exact List.mem_append_left _ (List.mem_append_right _ (List.mem_singleton_self 0))

theorem loop_piece (fuel : ℕ) (result : MemBlock UInt8 n) {p : Piece} (hp : p.Ok)
    (hhigh : p.high = false) (q : List UInt8)
    (hroom : w + p.bytes.length ≤ n) : ∃ result' w', w' ≤ w + p.bytes.length
      ∧ json_unescape.loop (fuel + 1) (p.bytes ++ q) result w
        = json_unescape.loop fuel q result' w' := by
  obtain ⟨c, cs, written, hbytes, hc, hlength, hturn⟩ := turn_piece hp hhigh
  obtain ⟨result', hloop⟩ := loop_turn hc (hturn q) ((Nat.add_le_add_left hlength w).trans hroom)
  rw [← List.cons_append, ← hbytes] at hloop
  exact ⟨result', _, Nat.add_le_add_left hlength w, hloop⟩

theorem loop_pair (fuel : ℕ) (result : MemBlock UInt8 n) {p p' : Piece} (hp : p.Ok)
    (hhigh : p.high = true) (hp' : p'.Ok) (q : List UInt8)
    (hroom : w + p.bytes.length ≤ n) : ∃ result' w', w' ≤ w + p.bytes.length
      ∧ json_unescape.loop (fuel + 1) (p.bytes ++ (p'.bytes ++ q)) result w
        = json_unescape.loop fuel q result' w' := by
  obtain ⟨c, cs, unicode, hbytes, hc, hfour, hturn⟩ := turn_high hp hhigh
  obtain ⟨written, hlength, hlow⟩ := low_piece hp' unicode
  have hle : w + written.length ≤ w + p.bytes.length :=
    Nat.add_le_add_left (hlength.trans hfour) w
  obtain ⟨result', hloop⟩ := loop_turn hc ((hturn (p'.bytes ++ q)).trans (hlow q)) (hle.trans hroom)
  rw [← List.cons_append, ← hbytes] at hloop
  exact ⟨result', _, hle, hloop⟩

/-- **A high surrogate at the end of the text** takes the NUL with it. -/
theorem loop_lone {p : Piece} (hp : p.Ok) (hhigh : p.high = true) (hroom : w ≤ n) :
    json_unescape.loop (fuel + 2) (p.bytes ++ [0]) result w = .error .load := by
  obtain ⟨c, cs, unicode, hbytes, hc, -, hturn⟩ := turn_high hp hhigh
  obtain ⟨result', hloop⟩ := loop_turn hc (hturn [0]) hroom
  rw [← List.cons_append, ← hbytes] at hloop
  exact hloop

/-- **The loop on a row of pieces.** -/
theorem loop_pieces (result : MemBlock UInt8 n) {ps : List Piece} (hps : ∀ p ∈ ps, p.Ok)
    (hroom : w + (spell ps).length < n) (hfuel : ps.length < fuel) :
    (paired ps = true → ∃ result', json_unescape.loop fuel (spell ps ++ [0]) result w = .ok result'
      ∧ 0 ∈ result'.cells)
    ∧ (paired ps = false → json_unescape.loop fuel (spell ps ++ [0]) result w = .error .load) := by
  obtain ⟨fuel, rfl⟩ := Nat.exists_eq_succ_of_ne_zero (Nat.ne_of_gt (Nat.zero_lt_of_lt hfuel))
  induction ps using paired.induct generalizing w fuel result with
  | case1 => exact ⟨fun _ => loop_nul hroom, fun h => by cases h⟩
  | case2 p =>
    have hp := hps p List.mem_cons_self
    rw [spell_cons, show spell [] = [] from rfl, List.append_nil] at hroom ⊢
    obtain ⟨fuel, rfl⟩ :=
      Nat.exists_eq_succ_of_ne_zero (Nat.ne_of_gt (Nat.lt_of_succ_lt_succ hfuel))
    rw [paired]
    cases hhigh : p.high with
    | true => exact ⟨fun h => (by cases h), fun _ => loop_lone hp hhigh (by omega)⟩
    | false =>
      obtain ⟨result', w', hle, hloop⟩ :=
        loop_piece (fuel + 1) result hp hhigh [0] hroom.le
      rw [hloop]
      exact ⟨fun _ => loop_nul (by omega), fun h => by cases h⟩
  | case3 p p' ps hhigh ih =>
    obtain ⟨hp, hps'⟩ := List.forall_mem_cons.mp hps
    obtain ⟨hp', hps''⟩ := List.forall_mem_cons.mp hps'
    rw [spell_cons, spell_cons, List.length_append, List.length_append] at hroom
    rw [List.length_cons, List.length_cons] at hfuel
    obtain ⟨result', w', hle, hloop⟩ := loop_pair fuel result hp hhigh hp'
      (spell ps ++ [0]) (show w + p.bytes.length ≤ n by omega)
    obtain ⟨fuel, rfl⟩ := Nat.exists_eq_succ_of_ne_zero (show fuel ≠ 0 by omega)
    rw [paired, if_pos hhigh, spell_cons, spell_cons, List.append_assoc, List.append_assoc, hloop]
    exact ih result' hps'' (show w' + (spell ps).length < n by omega) fuel (by omega)
  | case4 p p' ps hhigh ih =>
    obtain ⟨hp, hps'⟩ := List.forall_mem_cons.mp hps
    rw [spell_cons, List.length_append] at hroom
    rw [List.length_cons] at hfuel
    obtain ⟨result', w', hle, hloop⟩ := loop_piece fuel result hp
      (Bool.eq_false_iff.mpr hhigh) (spell (p' :: ps) ++ [0])
      (show w + p.bytes.length ≤ n by omega)
    obtain ⟨fuel, rfl⟩ := Nat.exists_eq_succ_of_ne_zero (show fuel ≠ 0 by omega)
    rw [paired, if_neg hhigh, spell_cons, List.append_assoc, hloop]
    exact ih result' hps' (show w' + (spell (p' :: ps)).length < n by omega) fuel (by omega)

end Loop

/-- What stands at the end of a longer row. -/
theorem length_rtakeWhile_cons {α : Type*} (f : α → Bool) (x : α) (xs : List α) :
    ((x :: xs).rtakeWhile f).length = if (xs.rtakeWhile f).length = xs.length ∧ f x = true
      then xs.length + 1 else (xs.rtakeWhile f).length := by
  unfold List.rtakeWhile
  rw [List.reverse_cons, List.takeWhile_append, List.length_reverse, List.length_reverse,
    List.length_reverse]
  by_cases hall : (xs.reverse.takeWhile f).length = xs.length
  · cases hx : f x <;> simp [hall, hx]
  · simp [hall]

/-- What is paired is told from the end. -/
theorem paired_iff (ps : List Piece) :
    paired ps = true ↔ Even (ps.rtakeWhile Piece.high).length := by
  induction ps using paired.induct with
  | case1 => exact iff_of_true rfl Even.zero
  | case2 p =>
    rw [paired, length_rtakeWhile_cons]
    cases hhigh : p.high <;> simp [Nat.even_iff]
  | case3 p p' ps hhigh ih =>
    have hle : (ps.rtakeWhile Piece.high).length ≤ ps.length :=
      (List.rtakeWhile_suffix Piece.high ps).length_le
    have h₁ := length_rtakeWhile_cons Piece.high p' ps
    have h₂ := length_rtakeWhile_cons Piece.high p (p' :: ps)
    rw [hhigh, List.length_cons] at h₂
    rw [paired, if_pos hhigh, ih, Nat.even_iff, Nat.even_iff]
    split_ifs at h₁ h₂ with h h' h' <;> simp at h h' <;> omega
  | case4 p p' ps hhigh ih =>
    rw [paired, if_neg hhigh, ih, length_rtakeWhile_cons Piece.high p,
      if_neg (fun h => hhigh h.2)]

theorem length_le_spell (ps : List Piece) : ps.length ≤ (spell ps).length := by
  induction ps with
  | nil => exact le_rfl
  | cons p ps ih =>
    have hpos := p.length_bytes_pos
    rw [spell_cons, List.length_append, List.length_cons]
    omega

/-- **The exact texts that `json_unescape` is safe on**, among those of JSON strings: those that
end in an even number of high surrogates. On the others it reads behind the end of the text. A
high surrogate takes whatever is behind it as the low one, be it a surrogate or not, so that of
those at the end of a text every second one is taken, and the last one has only the NUL left. -/
theorem json_unescape_iff (fresh : ℕ → UInt8) {t : List UInt8} (h : IsBody t) :
    (∃ ps, (∀ p ∈ ps, Piece.Ok p) ∧ spell ps = t)
    ∧ ∀ ps, (∀ p ∈ ps, Piece.Ok p) → spell ps = t → ∀ fuel > t.length,
      ((∃ s, json_unescape fresh t fuel = .ok s) ↔ Even (ps.rtakeWhile Piece.high).length)
      ∧ (¬Even (ps.rtakeWhile Piece.high).length →
        json_unescape fresh t fuel = .error .load) := by
  refine ⟨h.exists_pieces, ?_⟩
  rintro ps hps rfl fuel hfuel
  have hlength := length_le_spell ps
  obtain ⟨hpaired, hlone⟩ := loop_pieces (MemBlock.ofFn fresh ((spell ps).length + 1)) hps
    (show 0 + (spell ps).length < (spell ps).length + 1 by omega) (Nat.lt_of_le_of_lt hlength hfuel)
  rw [← paired_iff]
  unfold json_unescape
  rw [cstr_of_nulFree h.1]
  cases hps' : paired ps with
  | true =>
    obtain ⟨result', hloop, hmem⟩ := hpaired hps'
    rw [hloop, ok_bind]
    exact ⟨iff_of_true ⟨_, if_pos hmem⟩ rfl, fun h => absurd rfl h⟩
  | false =>
    rw [hlone hps']
    refine ⟨iff_of_false ?_ (by decide), fun _ => rfl⟩
    rintro ⟨s, hs⟩
    cases hs

theorem json_unescape_iff_lone :
    (∃ ps, (∀ p ∈ ps, Piece.Ok p) ∧ spell ps = [92, 117, 100, 56, 48, 48])
    ∧ ∀ ps, (∀ p ∈ ps, Piece.Ok p) → spell ps = [92, 117, 100, 56, 48, 48] →
      ∀ fuel > [92, 117, 100, 56, 48, 48].length,
      ((∃ s, json_unescape (fun _ => 205) [92, 117, 100, 56, 48, 48] fuel = .ok s)
        ↔ Even (ps.rtakeWhile Piece.high).length)
      ∧ (¬Even (ps.rtakeWhile Piece.high).length →
        json_unescape (fun _ => 205) [92, 117, 100, 56, 48, 48] fuel = .error .load) :=
  json_unescape_iff (fun _ => 205) ⟨by decide, rfl⟩

end Mjson
