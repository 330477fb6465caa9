import AllServer.JsonRoundTrip

/-!
# Escaping the texts of strings

`json_escape` makes of any text the text of a JSON string, and `json_unescape` goes back. What is
escaped is a text that the lexer takes up to its end (`Mjson.IsBody`), so that a string with it can
be printed and parsed, and the text that was escaped comes back out of it
(`Mjson.json_unescape_escape`).
-/

namespace Mjson

open LEX_VALUE

/-! ## The code -/

/-- A digit of `%x`. -/
def hexDigit (n : ℕ) : UInt8 := if n < 10 then UInt8.ofNat (48 + n) else UInt8.ofNat (87 + n)

/-- What a turn of `json_escape` appends for `text[i]`. A `char` is signed. -/
def json_escape.cat (c : UInt8) : Cat :=
  if c = 92 then .catcs [92, 92]
  else if c = 34 then .catcs [92, 34]
  else if c = 47 then .catcs [92, 47]
  else if c = 8 then .catcs [92, 98]
  else if c = 12 then .catcs [92, 102]
  else if c = 10 then .catcs [92, 110]
  else if c = 13 then .catcs [92, 114]
  else if c = 9 then .catcs [92, 116]
  else if 128 ≤ c then .catc c
  -- `\u%4.4x`, which leaves room for the NUL in `buffer`
  else if c < 32 then
    .catcs [92, 117, 48, 48, hexDigit (c.toNat / 16), hexDigit (c.toNat % 16)]
  else .catc c

/-- `json_escape`. -/
def json_escape (fresh : ℕ → UInt8) (text : List UInt8) : Except Fault (List UInt8) := do
  let output ← rcs_create fresh (cstr text).length
  let output ← ((cstr text).map json_escape.cat).foldlM (Cat.run fresh) output
  rcs_unwrap output

/-- The value of a hexadecimal digit. -/
def hexValue (c : UInt8) : ℕ :=
  if c ≤ 57 then c.toNat - 48 else if c ≤ 70 then c.toNat - 55 else c.toNat - 87

/-- `isspace`. -/
def isSpace (c : UInt8) : Bool := c = 32 ∨ (9 ≤ c ∧ c ≤ 13)

/-- The digits that `strtol` reads in base 16, behind `0x` where a digit follows. -/
def strtol.digits (s : List UInt8) : List UInt8 :=
  if s.head? = some 48 ∧ (s[1]? = some 120 ∨ s[1]? = some 88) ∧ s[2]?.any isHex = true then
    (s.drop 2).takeWhile isHex
  else s.takeWhile isHex

/-- The number that they are. -/
def strtol.number (s : List UInt8) : ℤ :=
  (strtol.digits s).foldl (fun n d => 16 * n + hexValue d) 0

/-- `strtol(s, NULL, 16)`. -/
def strtol (s : List UInt8) : ℤ :=
  let s := (cstr s).dropWhile isSpace
  if s.head? = some 45 then -strtol.number s.tail
  else if s.head? = some 43 then strtol.number s.tail
  else strtol.number s

/-- `json_unescape` behind the escape of a high surrogate: what it writes, and what is left of the
text. -/
def json_unescape.low (high : ℤ) : List UInt8 → Except Fault (List UInt8 × List UInt8)
  | [] => .error .load
  | [e] => if e ≠ 92 then .ok ([], []) else .error .load
  | e :: e' :: text =>
    if e ≠ 92 then .ok ([], e' :: text)
    else if e' ≠ 117 then .ok ([], text)
    else if text.length < 4 then .error .load
    else
      -- the sums are unsigned, and come to no negative number
      let unicode := ((high - 0xD800) * 2 ^ 10 + (strtol (text.take 4) - 0xDC00) + 0x10000) % 2 ^ 64
      .ok ([UInt8.ofInt (0xF0 + unicode / 2 ^ 18 % 8), UInt8.ofInt (0x80 + unicode / 2 ^ 12 % 64),
        UInt8.ofInt (0x80 + unicode / 2 ^ 6 % 64), UInt8.ofInt (0x80 + unicode % 64)], text.drop 4)

/-- `json_unescape` behind `\u`. -/
def json_unescape.unicode (text : List UInt8) : Except Fault (List UInt8 × List UInt8) :=
  if text.length < 4 then .error .load
  else
    let unicode := strtol (text.take 4)
    let text := text.drop 4
    if unicode < 0x80 then .ok ([UInt8.ofInt unicode], text)
    else if unicode < 0x800 then
      .ok ([UInt8.ofInt (0xC0 + unicode / 2 ^ 6 % 32), UInt8.ofInt (0x80 + unicode % 64)], text)
    else if unicode < 0x10000 then
      if unicode < 0xD800 ∨ 0xDBFF < unicode then
        .ok ([UInt8.ofInt (0xE0 + unicode / 2 ^ 12 % 16), UInt8.ofInt (0x80 + unicode / 2 ^ 6 % 64),
          UInt8.ofInt (0x80 + unicode % 64)], text)
      else json_unescape.low unicode text
    else .ok ([], text)

/-- A turn of `json_unescape` at `text[r]`, with what is behind that: what it writes, and what is
left. -/
def json_unescape.turn (c : UInt8) (text : List UInt8) : Except Fault (List UInt8 × List UInt8) :=
  if c ≠ 92 then .ok ([c], text)
  else match text with
  | [] => .error .load
  | e :: text =>
    if e = 34 ∨ e = 92 ∨ e = 47 then .ok ([e], text)
    else if e = 98 then .ok ([8], text)
    else if e = 102 then .ok ([12], text)
    else if e = 110 then .ok ([10], text)
    else if e = 114 then .ok ([13], text)
    else if e = 116 then .ok ([9], text)
    else if e = 117 then json_unescape.unicode text
    else .error .thrown

/-- The loop of `json_unescape`, over a text with the NUL behind it. -/
def json_unescape.loop {n : ℕ} : ℕ → List UInt8 → MemBlock UInt8 n → ℕ →
    Except Fault (MemBlock UInt8 n)
  | 0, _, _, _ => .error .fuel
  | _ + 1, [], _, _ => .error .load
  | fuel + 1, c :: text, result, w =>
    if c = 0 then result.store w [0]
    else do
      let written ← json_unescape.turn c text
      let result ← result.store w written.1
      json_unescape.loop fuel written.2 result (w + written.1.length)

/-- `json_unescape`. -/
def json_unescape (fresh : ℕ → UInt8) (text : List UInt8) (fuel : ℕ) :
    Except Fault (List UInt8) := do
  let result ← json_unescape.loop fuel (cstr text ++ [0])
    (MemBlock.ofFn fresh ((cstr text).length + 1)) 0
  result.str

/-! ## What a character is escaped as -/

/-- The characters that are escaped with one other character. -/
def shortEscapes : List (UInt8 × UInt8) :=
  [(92, 92), (34, 34), (47, 47), (8, 98), (12, 102), (10, 110), (13, 114), (9, 116)]

/-- **The escapes**: a character itself, a short one, or its number. -/
inductive Escape : UInt8 → List UInt8 → Prop
  | plain {c : UInt8} : 32 ≤ c → c ≠ 34 → c ≠ 92 → Escape c [c]
  | short {c e : UInt8} : (c, e) ∈ shortEscapes → Escape c [92, e]
  | number {c : UInt8} : c < 32 → c ≠ 0 →
    Escape c [92, 117, 48, 48, hexDigit (c.toNat / 16), hexDigit (c.toNat % 16)]

theorem short_cases {c e : UInt8} (he : (c, e) ∈ shortEscapes) :
    c = 92 ∧ e = 92 ∨ c = 34 ∧ e = 34 ∨ c = 47 ∧ e = 47 ∨ c = 8 ∧ e = 98 ∨ c = 12 ∧ e = 102
      ∨ c = 10 ∧ e = 110 ∨ c = 13 ∧ e = 114 ∨ c = 9 ∧ e = 116 := by
  simpa [shortEscapes] using he

theorem escape_cat {c : UInt8} (hc : c ≠ 0) : Escape c (json_escape.cat c).bytes := by
  by_cases hshort : ∃ e, (c, e) ∈ shortEscapes
  · obtain ⟨e, he⟩ := hshort
    obtain ⟨rfl, rfl⟩ | ⟨rfl, rfl⟩ | ⟨rfl, rfl⟩ | ⟨rfl, rfl⟩ | ⟨rfl, rfl⟩ | ⟨rfl, rfl⟩
      | ⟨rfl, rfl⟩ | ⟨rfl, rfl⟩ := short_cases he
    all_goals exact .short he
  · have hne : ∀ {d e : UInt8}, (d, e) ∈ shortEscapes → c ≠ d := fun he hd =>
      hshort ⟨_, hd ▸ he⟩
    have hslash : c ≠ 92 := hne (e := 92) (by decide)
    have hquote : c ≠ 34 := hne (e := 34) (by decide)
    rw [json_escape.cat, if_neg hslash, if_neg hquote, if_neg (hne (e := 47) (by decide)),
      if_neg (hne (e := 98) (by decide)), if_neg (hne (e := 102) (by decide)),
      if_neg (hne (e := 110) (by decide)), if_neg (hne (e := 114) (by decide)),
      if_neg (hne (e := 116) (by decide))]
    by_cases hascii : 128 ≤ c
    · rw [if_pos hascii]
      exact .plain (UInt8.le_trans (by decide) hascii) hquote hslash
    · rw [if_neg hascii]
      by_cases hcontrol : c < 32
      · rw [if_pos hcontrol]
        exact .number hcontrol hc
      · rw [if_neg hcontrol]
        exact .plain (UInt8.not_lt.mp hcontrol) hquote hslash

theorem isHex_hexDigit : ∀ n < 16, isHex (hexDigit n) = true := by decide

theorem hexDigit_ne_zero : ∀ n < 16, hexDigit n ≠ 0 := by decide

theorem strtol_hexDigit :
    ∀ n < 32, strtol [48, 48, hexDigit (n / 16), hexDigit (n % 16)] = (n : ℤ) := by decide

theorem toNat_lt_32 {c : UInt8} (h : c < 32) : c.toNat < 32 := UInt8.lt_iff_toNat_lt.mp h

/-- **An escape** is a piece of the text of a string. -/
theorem Escape.body {c : UInt8} {bytes t : List UInt8} (h : Escape c bytes) (ht : Body t) :
    Body (bytes ++ t) := by
  cases h with
  | plain hwhite hquote hslash =>
    have hcontrol : ¬(1 ≤ c ∧ c ≤ 31) := fun h =>
      absurd (UInt8.le_trans hwhite h.2) (by decide)
    exact .plain hcontrol hquote hslash ht
  | @short e he =>
    have hall : ∀ x ∈ shortEscapes, x.2 ∈ [92, 34, 47, 98, 102, 110, 114, 116] := by
      simp [shortEscapes]
    exact .short (hall _ he) ht
  | number hc _ =>
    have hlt := toNat_lt_32 hc
    exact .code (by decide) (by decide) (isHex_hexDigit _ (by omega))
      (isHex_hexDigit _ (by omega)) ht

/-- **A turn goes back over an escape.** -/
theorem Escape.turn {c : UInt8} {bytes : List UInt8} (h : Escape c bytes) :
    ∃ e es, bytes = e :: es ∧ e ≠ 0
      ∧ ∀ p, json_unescape.turn e (es ++ p) = .ok ([c], p) := by
  cases h with
  | plain hwhite _ hslash =>
    refine ⟨c, [], rfl, ?_, fun p => if_pos hslash⟩
    rintro rfl
    exact absurd hwhite (by decide)
  | @short e he =>
    refine ⟨92, [e], rfl, by decide, fun p => ?_⟩
    obtain ⟨rfl, rfl⟩ | ⟨rfl, rfl⟩ | ⟨rfl, rfl⟩ | ⟨rfl, rfl⟩ | ⟨rfl, rfl⟩ | ⟨rfl, rfl⟩
      | ⟨rfl, rfl⟩ | ⟨rfl, rfl⟩ := short_cases he
    all_goals rfl
  | number hc _ =>
    refine ⟨92, [117, 48, 48, hexDigit (c.toNat / 16), hexDigit (c.toNat % 16)], rfl, by decide,
      fun p => ?_⟩
    have hlt := toNat_lt_32 hc
    have hvalue : strtol [48, 48, hexDigit (c.toNat / 16), hexDigit (c.toNat % 16)] = c.toNat :=
      strtol_hexDigit c.toNat hlt
    have htake : (48 :: 48 :: hexDigit (c.toNat / 16) :: hexDigit (c.toNat % 16) :: p).take 4
        = [48, 48, hexDigit (c.toNat / 16), hexDigit (c.toNat % 16)] := rfl
    have hmod : ((c.toNat : ℤ) % 2 ^ 8).toNat = c.toNat := by omega
    have hbyte : UInt8.ofInt (c.toNat : ℤ) = c := by rw [UInt8.ofInt, hmod, UInt8.ofNat_toNat]
    show json_unescape.unicode (48 :: 48 :: hexDigit (c.toNat / 16) :: hexDigit (c.toNat % 16) :: p)
      = _
    unfold json_unescape.unicode
    rw [if_neg (by simp)]
    dsimp only
    rw [htake, hvalue, if_pos (by omega), hbyte]
    rfl

/-- The text of the escapes of all characters. -/
def escape (s : List UInt8) : List UInt8 := s.flatMap fun c => (json_escape.cat c).bytes

theorem escape_cons (c : UInt8) (s : List UInt8) :
    escape (c :: s) = (json_escape.cat c).bytes ++ escape s := rfl

theorem Escape.nulFree {c : UInt8} {bytes : List UInt8} (h : Escape c bytes) : NulFree bytes := by
  cases h with
  | plain hwhite _ _ =>
    refine nulFree_cons ?_ List.not_mem_nil
    rintro rfl
    exact absurd hwhite (by decide)
  | @short e he =>
    have hall : ∀ x ∈ shortEscapes, x.2 ≠ 0 := by simp [shortEscapes]
    exact nulFree_cons (by decide) (nulFree_cons (hall _ he) List.not_mem_nil)
  | number hc _ =>
    have hlt := toNat_lt_32 hc
    exact nulFree_cons (by decide) (nulFree_cons (by decide) (nulFree_cons (by decide)
      (nulFree_cons (by decide) (nulFree_cons (hexDigit_ne_zero _ (by omega))
        (nulFree_cons (hexDigit_ne_zero _ (by omega)) List.not_mem_nil)))))

section Escape

variable {s : List UInt8}

theorem nulFree_escape (hs : NulFree s) : NulFree (escape s) :=
  nulFree_flatMap fun _ hc => (escape_cat (ne_of_mem_of_not_mem hc hs)).nulFree

/-- **What is escaped is the text of a JSON string.** -/
theorem isBody_escape (hs : NulFree s) : IsBody (escape s) := by
  refine isBody_iff.mpr ⟨nulFree_escape hs, ?_⟩
  induction s with
  | nil => exact .nil
  | cons c s ih =>
    obtain ⟨hc, hs'⟩ := not_or.mp (mt List.mem_cons.mpr hs)
    exact (escape_cat (Ne.symm hc)).body (ih hs')

/-- **`json_escape`** of any text. -/
theorem json_escape_eq (fresh : ℕ → UInt8) (text : List UInt8) :
    json_escape fresh text = .ok (escape (cstr text)) := by
  obtain ⟨output, hcreate, h⟩ := rcs_create_eq fresh (cstr text).length
  have hcats : ∀ cat ∈ (cstr text).map json_escape.cat, NulFree cat.bytes := fun cat hcat => by
    obtain ⟨c, hc, rfl⟩ := List.mem_map.mp hcat
    exact (escape_cat (ne_of_mem_of_not_mem hc (nulFree_cstr text))).nulFree
  obtain ⟨output', hfold, h'⟩ := h.foldlM fresh hcats
  rw [List.nil_append, List.flatMap_map] at h'
  unfold json_escape
  rw [hcreate, ok_bind, hfold, ok_bind]
  exact h'.unwrap (nulFree_escape (nulFree_cstr text))

theorem length_le_escape (hs : NulFree s) : s.length ≤ (escape s).length := by
  induction s with
  | nil => exact le_rfl
  | cons c s ih =>
    obtain ⟨hc, hs'⟩ := not_or.mp (mt List.mem_cons.mpr hs)
    obtain ⟨e, es, hbytes, -⟩ := (escape_cat (Ne.symm hc)).turn
    have hlength := ih hs'
    rw [escape_cons, hbytes, List.length_append, List.length_cons, List.length_cons]
    omega

/-- **The loop goes back over what is escaped**, behind what it has written. -/
theorem loop_escape (hs : NulFree s) {n fuel w : ℕ} {t : List UInt8} {result : MemBlock UInt8 n}
    (hslice : result.slice 0 w = t) (hroom : w + s.length < n) (hfuel : s.length < fuel) :
    ∃ result', json_unescape.loop fuel (escape s ++ [0]) result w = .ok result'
      ∧ result'.slice 0 (w + s.length + 1) = t ++ s ++ [0] := by
  obtain ⟨fuel, rfl⟩ := Nat.exists_eq_succ_of_ne_zero (Nat.ne_of_gt (Nat.zero_lt_of_lt hfuel))
  induction s generalizing t result w fuel with
  | nil =>
    obtain ⟨result', hstore, hslice'⟩ := result.exists_store_append [0] hslice hroom
    rw [List.append_nil]
    exact ⟨result', hstore, hslice'⟩
  | cons c s ih =>
    obtain ⟨hc, hs'⟩ := not_or.mp (mt List.mem_cons.mpr hs)
    obtain ⟨e, es, hbytes, hne, hturn⟩ := (escape_cat (Ne.symm hc)).turn
    rw [List.length_cons] at hroom hfuel
    obtain ⟨result₁, hstore, hslice₁⟩ :=
      result.exists_store_append [c] hslice (show w + 1 ≤ n by omega)
    have hfuel' : s.length < fuel := Nat.succ_lt_succ_iff.mp hfuel
    obtain ⟨fuel, rfl⟩ := Nat.exists_eq_succ_of_ne_zero (Nat.ne_of_gt (Nat.zero_lt_of_lt hfuel'))
    obtain ⟨result', hloop, hslice'⟩ :=
      ih hs' hslice₁ (show w + 1 + s.length < n by omega) fuel hfuel'
    refine ⟨result', ?_, ?_⟩
    · rw [escape_cons, hbytes, List.append_assoc, List.cons_append, json_unescape.loop, if_neg hne,
        hturn, ok_bind, hstore, ok_bind]
      exact hloop
    · rw [List.append_assoc t] at hslice'
      rw [List.length_cons, Nat.add_comm s.length 1, ← Nat.add_assoc]
      exact hslice'

/-- **A text that is escaped comes back**, whatever memory held: it is the text of a JSON string in
between, and nothing is read behind its end or written outside of the memory for the result. -/
theorem json_unescape_escape (fresh fresh' : ℕ → UInt8) (text : List UInt8) :
    ∃ escaped, json_escape fresh text = .ok escaped ∧ IsBody escaped
      ∧ ∀ fuel > escaped.length, json_unescape fresh' escaped fuel = .ok (cstr text) := by
  have hs := nulFree_cstr text
  refine ⟨escape (cstr text), json_escape_eq fresh text, isBody_escape hs, fun fuel hfuel => ?_⟩
  have hlength := length_le_escape hs
  unfold json_unescape
  rw [cstr_of_nulFree (nulFree_escape hs)]
  obtain ⟨result, hloop, hslice⟩ := loop_escape hs (MemBlock.slice_zero _ 0)
    (show 0 + (cstr text).length < (escape (cstr text)).length + 1 by omega)
    (Nat.lt_of_le_of_lt hlength hfuel)
  rw [hloop, ok_bind]
  exact MemBlock.str_of_slice hs [] hslice

end Escape

end Mjson
