import AllServer.JsonLexer

/-!
# Stripping white space

`json_strip_white_spaces` works in place: what is read is never in front of what has been written,
so that writing does not disturb the reading. It takes white space away outside of strings, as far
as it can tell what is a string (`Mjson.stripWhite`), and nothing else; doing it again changes
nothing (`Mjson.json_strip_white_spaces_eq`).
-/

namespace Mjson

/-! ## The code -/

/-- A quote: the character in front of it is read where a string is open. -/
def json_strip_white_spaces.quote {n : ℕ} (text : MemBlock UInt8 n) (pos state : ℕ) :
    Except Fault ℕ :=
  if state = 0 then .ok 1
  else if state = 1 then do
    let previous ← index text.cells (← checkedSub pos 1)
    return if previous ≠ 92 then 0 else 1
  else .error .thrown

/-- The loop of `json_strip_white_spaces`, with `in` as `pos`. -/
def json_strip_white_spaces.loop {n : ℕ} (length : ℕ) :
    ℕ → MemBlock UInt8 n → ℕ → ℕ → ℕ → Except Fault (MemBlock UInt8 n)
  | 0, _, _, _, _ => .error .fuel
  | fuel + 1, text, pos, out, state =>
    if pos < length then do
      let c ← index text.cells pos
      if isWhite c then
        if state = 1 then
          let text ← text.store out [c]
          json_strip_white_spaces.loop length fuel text (pos + 1) (out + 1) state
        else json_strip_white_spaces.loop length fuel text (pos + 1) out state
      else if c = 34 then
        let state ← json_strip_white_spaces.quote text pos state
        let text ← text.store out [c]
        json_strip_white_spaces.loop length fuel text (pos + 1) (out + 1) state
      else
        let text ← text.store out [c]
        json_strip_white_spaces.loop length fuel text (pos + 1) (out + 1) state
    else text.store out [0]

/-- `json_strip_white_spaces`. -/
def json_strip_white_spaces {n : ℕ} (text : MemBlock UInt8 n) (fuel : ℕ) :
    Except Fault (MemBlock UInt8 n) := do
  let s ← text.str
  json_strip_white_spaces.loop s.length fuel text 0 0 0

/-! ## What it leaves -/

/-- **A text without white space outside of strings.** A quote behind a backslash does not end a
string. -/
def stripWhite : Bool → UInt8 → List UInt8 → List UInt8
  | _, _, [] => []
  | inside, previous, c :: t =>
    if isWhite c then
      if inside then c :: stripWhite inside c t else stripWhite inside c t
    else if c = 34 then c :: stripWhite (!inside || previous = 92) c t
    else c :: stripWhite inside c t

/-- What is stripped is not changed by stripping it again. -/
theorem stripWhite_stripWhite (s : List UInt8) : ∀ {inside : Bool} {previous previous' : UInt8},
    (inside = true → previous = previous') →
    stripWhite inside previous' (stripWhite inside previous s) = stripWhite inside previous s := by
  induction s with
  | nil => exact fun _ => rfl
  | cons c t ih =>
    intro inside previous previous' hsame
    rw [stripWhite]
    by_cases hwhite : isWhite c = true
    · rw [if_pos hwhite]
      cases inside with
      | true => rw [if_pos rfl, stripWhite, if_pos hwhite, if_pos rfl, ih fun _ => rfl]
      | false =>
        rw [if_neg Bool.false_ne_true]
        exact ih fun h => absurd h Bool.false_ne_true
    · rw [if_neg hwhite]
      by_cases hquote : c = 34
      · rw [if_pos hquote, stripWhite, if_neg hwhite, if_pos hquote]
        cases inside with
        | true => rw [← hsame rfl, ih fun _ => rfl]
        | false => exact congrArg (c :: ·) (ih fun _ => rfl)
      · rw [if_neg hquote, stripWhite, if_neg hwhite, if_neg hquote, ih fun _ => rfl]

/-- Only white space is taken away. -/
theorem filter_stripWhite (s : List UInt8) : ∀ (inside : Bool) (previous : UInt8),
    (stripWhite inside previous s).filter (fun c => !isWhite c) = s.filter fun c => !isWhite c := by
  induction s with
  | nil => exact fun _ _ => rfl
  | cons c t ih =>
    intro inside previous
    rw [stripWhite]
    by_cases hwhite : isWhite c = true
    · cases inside <;> simp [hwhite, ih]
    · rw [if_neg hwhite]
      by_cases hquote : c = 34
      · rw [if_pos hquote]
        simp [hwhite, ih]
      · rw [if_neg hquote]
        simp [hwhite, ih]

theorem stripWhite_sublist (s : List UInt8) : ∀ (inside : Bool) (previous : UInt8),
    (stripWhite inside previous s).Sublist s := by
  induction s with
  | nil => exact fun _ _ => List.Sublist.refl []
  | cons c t ih =>
    intro inside previous
    rw [stripWhite]
    split_ifs
    · exact (ih _ _).cons_cons c
    · exact (ih _ _).cons c
    · exact (ih _ _).cons_cons c
    · exact (ih _ _).cons_cons c

section Strip

variable {n : ℕ} {text : MemBlock UInt8 n}

/-- **Writing in place**: a character that is written at its place or in front of it leaves what is
read later. -/
theorem store_inPlace {pos out : ℕ} {c : UInt8} {q s₁ : List UInt8}
    (hread : text.cells.drop pos = c :: q) (hout : out ≤ pos) (hslice : text.slice 0 out = s₁) :
    ∃ text', text.store out [c] = .ok text' ∧ text'.cells.drop pos = c :: q
      ∧ text'.slice 0 (out + 1) = s₁ ++ [c] := by
  have hlt : pos < n := by
    have hlength := congrArg List.length hread
    rw [List.length_drop, text.length_cells, List.length_cons] at hlength
    omega
  have hroom : out + [c].length ≤ n := by
    rw [List.length_singleton]
    omega
  refine ⟨text.patch out [c] hroom, text.store_eq_ok hroom, ?_, ?_⟩
  · have hset : (text.patch out [c] hroom).cells = text.cells.set out c := by
      rw [List.set_eq_take_append_cons_drop, if_pos (by rw [text.length_cells]; omega)]
      exact List.append_assoc _ _ _
    rw [hset, List.drop_set, hread]
    split_ifs with hlt'
    · rfl
    · rw [show out - pos = 0 by omega]
      rfl
  · rw [← hslice]
    exact text.slice_zero_patch out [c] hroom

/-- **The loop from any place of the text on.** -/
theorem strip_loop (s : List UInt8) : ∀ (inside : Bool) (previous : UInt8) {fuel pos out : ℕ}
    {tail s₁ : List UInt8} {text : MemBlock UInt8 n}, text.cells.drop pos = s ++ 0 :: tail →
    out ≤ pos → text.slice 0 out = s₁ →
    (inside = true → ∃ k, pos = k + 1 ∧ text.cells[k]? = some previous) → s.length < fuel →
    ∃ text', json_strip_white_spaces.loop (pos + s.length) fuel text pos out inside.toNat
        = .ok text'
      ∧ text'.slice 0 (out + (stripWhite inside previous s).length + 1)
        = s₁ ++ stripWhite inside previous s ++ [0] := by
  induction s with
  | nil =>
    intro inside previous fuel pos out tail s₁ text hread hout hslice _ hfuel
    obtain ⟨fuel, rfl⟩ := Nat.exists_eq_succ_of_ne_zero (Nat.ne_of_gt hfuel)
    obtain ⟨text', hstore, -, hslice'⟩ := store_inPlace hread hout hslice
    refine ⟨text', ?_, ?_⟩
    · rw [json_strip_white_spaces.loop, if_neg (show ¬pos < pos + ([] : List UInt8).length from
        Nat.lt_irrefl pos)]
      exact hstore
    · rw [stripWhite, List.append_nil]
      exact hslice'
  | cons c t ih =>
    intro inside previous fuel pos out tail s₁ text hread hout hslice hprevious hfuel
    obtain ⟨fuel, rfl⟩ := Nat.exists_eq_succ_of_ne_zero (Nat.ne_of_gt (Nat.zero_lt_of_lt hfuel))
    have hfuel' : t.length < fuel := Nat.lt_of_succ_lt_succ hfuel
    have hbehind : ∀ {text : MemBlock UInt8 n}, text.cells.drop pos = c :: (t ++ 0 :: tail) →
        text.cells[pos]? = some c ∧ text.cells.drop (pos + 1) = t ++ 0 :: tail := fun h => by
      refine ⟨?_, ?_⟩
      · rw [← Nat.add_zero pos, ← List.getElem?_drop, h]
        rfl
      · rw [← List.drop_drop, h]
        rfl
    obtain ⟨hc, hdrop⟩ := hbehind hread
    have hlength : pos + (c :: t).length = pos + 1 + t.length := by
      rw [List.length_cons]
      omega
    -- the character is kept, and a string is open behind it or not
    have hkeep : ∀ inside' : Bool, ∃ text₁, text.store out [c] = .ok text₁ ∧ ∃ text',
        json_strip_white_spaces.loop (pos + 1 + t.length) fuel text₁ (pos + 1) (out + 1)
          inside'.toNat = .ok text'
        ∧ text'.slice 0 (out + (c :: stripWhite inside' c t).length + 1)
          = s₁ ++ c :: stripWhite inside' c t ++ [0] := fun inside' => by
      obtain ⟨text₁, hstore, hread₁, hslice₁⟩ := store_inPlace hread hout hslice
      obtain ⟨hc₁, hdrop₁⟩ := hbehind hread₁
      obtain ⟨text', hloop, hslice'⟩ := ih inside' c hdrop₁ (Nat.succ_le_succ hout)
        hslice₁ (fun _ => ⟨pos, rfl, hc₁⟩) hfuel'
      refine ⟨text₁, hstore, text', hloop, ?_⟩
      rw [List.append_assoc s₁, List.singleton_append, Nat.add_right_comm out 1] at hslice'
      exact hslice'
    rw [json_strip_white_spaces.loop, if_pos (by rw [List.length_cons]; omega), index_eq_ok hc,
      ok_bind, hlength, stripWhite]
    by_cases hwhite : isWhite c = true
    · rw [if_pos hwhite, if_pos hwhite]
      cases inside with
      | true =>
        obtain ⟨text₁, hstore, hrest⟩ := hkeep true
        rw [if_pos (show true.toNat = 1 from rfl), if_pos rfl, hstore, ok_bind]
        exact hrest
      | false =>
        rw [if_neg (by decide), if_neg Bool.false_ne_true]
        exact ih false c hdrop (Nat.le_succ_of_le hout) hslice
          (fun h => absurd h Bool.false_ne_true) hfuel'
    · rw [if_neg hwhite, if_neg hwhite]
      by_cases hquote : c = 34
      · rw [if_pos hquote, if_pos hquote]
        have hstate : json_strip_white_spaces.quote text pos inside.toNat
            = .ok (!inside || previous = 92 : Bool).toNat := by
          cases inside with
          | false => rfl
          | true =>
            obtain ⟨k, rfl, hk⟩ := hprevious rfl
            rw [json_strip_white_spaces.quote, if_neg (by decide),
              if_pos (show true.toNat = 1 from rfl), checkedSub_eq_ok (Nat.le_add_left 1 k),
              ok_bind, Nat.add_sub_cancel, index_eq_ok hk, ok_bind]
            by_cases hslash : previous = 92 <;> simp [hslash] <;> rfl
        obtain ⟨text₁, hstore, hrest⟩ := hkeep (!inside || previous = 92)
        rw [hstate, ok_bind, hstore, ok_bind]
        exact hrest
      · rw [if_neg hquote, if_neg hquote]
        obtain ⟨text₁, hstore, hrest⟩ := hkeep inside
        rw [hstore, ok_bind]
        exact hrest

/-- **`json_strip_white_spaces`** of any text in memory: nothing is read or written outside of the
text, only white space goes, and a second time changes nothing. -/
theorem json_strip_white_spaces_eq {s tail : List UInt8} (hs : NulFree s)
    (htext : text.cells = s ++ 0 :: tail) {fuel : ℕ} (hfuel : s.length < fuel) :
    ∃ text', json_strip_white_spaces text fuel = .ok text'
      ∧ text'.str = .ok (stripWhite false 0 s)
      ∧ (stripWhite false 0 s).filter (fun c => !isWhite c) = s.filter (fun c => !isWhite c)
      ∧ stripWhite false 0 (stripWhite false 0 s) = stripWhite false 0 s := by
  have hstr : text.str = .ok s := by
    rw [MemBlock.str, htext, if_pos (List.mem_append_right s List.mem_cons_self),
      cstr_append hs tail]
  have hread : text.cells.drop 0 = s ++ 0 :: tail := htext
  obtain ⟨text', hloop, hslice⟩ := strip_loop s false 0 hread (Nat.le_refl 0) (text.slice_zero 0)
    (fun h => absurd h Bool.false_ne_true) hfuel
  have hfree : NulFree (stripWhite false 0 s) :=
    fun hmem => hs ((stripWhite_sublist s false 0).subset hmem)
  rw [List.append_assoc, List.nil_append] at hslice
  refine ⟨text', ?_, MemBlock.str_of_slice hfree [] hslice, filter_stripWhite s false 0,
    stripWhite_stripWhite s fun _ => rfl⟩
  rw [Nat.zero_add] at hloop
  unfold json_strip_white_spaces
  rw [hstr, ok_bind]
  exact hloop

theorem json_strip_white_spaces_eq_spaces : ∃ text' : MemBlock UInt8 7,
    json_strip_white_spaces (MemBlock.ofList [32, 91, 34, 32, 34, 93, 0]) 7 = .ok text'
    ∧ text'.str = .ok (stripWhite false 0 [32, 91, 34, 32, 34, 93])
    ∧ (stripWhite false 0 [32, 91, 34, 32, 34, 93]).filter (fun c => !isWhite c)
      = [32, 91, 34, 32, 34, 93].filter (fun c => !isWhite c)
    ∧ stripWhite false 0 (stripWhite false 0 [32, 91, 34, 32, 34, 93])
      = stripWhite false 0 [32, 91, 34, 32, 34, 93] :=
  json_strip_white_spaces_eq (by decide) rfl (by decide)

end Strip

end Mjson
