import AllServer.RString
import AllServer.Util.Decimal

/-!
# The lexer of the JSON parser

`lexer` goes on where it stopped: in which state, and with which part of a text, is kept between
its calls, so that a document may come in pieces that end anywhere. A call reads up to the end
of a token. What ends a number is not part of it; a white space there is skipped, and a
comma or a bracket is left for the next call.

What a character does in a state is told by `lexer.action`, as the switches of the code have it.
`Mjson.lex` is the lexer with its text as a list, and the code keeps to it whatever it is given
(`Mjson.lexer_eq`).
-/

namespace Mjson

/-- `enum LEX_VALUE`. -/
inductive LEX_VALUE where
  | LEX_MORE | LEX_INVALID_CHARACTER | LEX_TRUE | LEX_FALSE | LEX_NULL | LEX_BEGIN_OBJECT
  | LEX_END_OBJECT | LEX_BEGIN_ARRAY | LEX_END_ARRAY | LEX_NAME_SEPARATOR | LEX_VALUE_SEPARATOR
  | LEX_STRING | LEX_NUMBER | LEX_ERROR | LEX_MEMORY
  deriving DecidableEq

open LEX_VALUE

/-! ## The code -/

/-- A space, a tab or the end of a line. -/
def isWhite (c : UInt8) : Bool := c = 32 ∨ c = 9 ∨ c = 10 ∨ c = 13

/-- A hexadecimal digit. -/
def isHex (c : UInt8) : Bool := (97 ≤ c ∧ c ≤ 102) ∨ (65 ≤ c ∧ c ≤ 70) ∨ (48 ≤ c ∧ c ≤ 57)

/-- What a turn of the lexer does with a character. -/
inductive lexer.Action where
  /-- The character is behind it, and `*state` is set. -/
  | skip (state : ℕ)
  /-- Besides, `*text` is a new string with what is given. -/
  | start (text : List UInt8) (state : ℕ)
  /-- The character is appended to `*text` first. -/
  | cat (state : ℕ)
  /-- `*state` is 0, and a token is returned; the character may be left for the next call. -/
  | token (value : LEX_VALUE) (skipped : Bool)
  /-- `LEX_INVALID_CHARACTER` is returned. -/
  | invalid (skipped : Bool)

/-- The characters of `true`, `false` and `null` behind the first one. -/
def lexer.letter (c letter : UInt8) (next : Action) : Action :=
  if c = letter then next else .invalid true

/-- The characters behind a number that may end there. -/
def lexer.numberEnd (c : UInt8) (other : Action) : Action :=
  if isWhite c then .token LEX_NUMBER true
  else if c = 93 ∨ c = 125 ∨ c = 44 then .token LEX_NUMBER false
  else other

/-- The switches of `lexer`, for `*state` and `**p`. -/
def lexer.action (state : ℕ) (c : UInt8) : lexer.Action :=
  match state with
  -- root document
  | 0 =>
    if isWhite c then .skip 0
    else if c = 123 then .token LEX_BEGIN_OBJECT true
    else if c = 125 then .token LEX_END_OBJECT true
    else if c = 91 then .token LEX_BEGIN_ARRAY true
    else if c = 93 then .token LEX_END_ARRAY true
    else if c = 58 then .token LEX_NAME_SEPARATOR true
    else if c = 44 then .token LEX_VALUE_SEPARATOR true
    else if c = 34 then .start [] 1
    else if c = 116 then .skip 7
    else if c = 102 then .skip 10
    else if c = 110 then .skip 14
    else if c = 45 then .start [45] 17
    else if c = 48 then .start [48] 18
    else if isDigit c then .start [c] 19
    else .invalid true
  -- inside a JSON string
  | 1 =>
    if 1 ≤ c ∧ c ≤ 31 then .invalid false
    else if c = 34 then .token LEX_STRING true
    else if c = 92 then .cat 2
    else .cat 1
  -- start escape sequence
  | 2 =>
    if c = 92 ∨ c = 34 ∨ c = 47 ∨ c = 98 ∨ c = 102 ∨ c = 110 ∨ c = 114 ∨ c = 116 then .cat 1
    else if c = 117 then .cat 3
    else .invalid false
  -- escape unicode
  | 3 => if isHex c then .cat 4 else .invalid false
  | 4 => if isHex c then .cat 5 else .invalid false
  | 5 => if isHex c then .cat 6 else .invalid false
  | 6 => if isHex c then .cat 1 else .invalid false
  -- true
  | 7 => lexer.letter c 114 (.skip 8)
  | 8 => lexer.letter c 117 (.skip 9)
  | 9 => lexer.letter c 101 (.token LEX_TRUE true)
  -- false
  | 10 => lexer.letter c 97 (.skip 11)
  | 11 => lexer.letter c 108 (.skip 12)
  | 12 => lexer.letter c 115 (.skip 13)
  | 13 => lexer.letter c 101 (.token LEX_FALSE true)
  -- null
  | 14 => lexer.letter c 117 (.skip 15)
  | 15 => lexer.letter c 108 (.skip 16)
  | 16 => lexer.letter c 108 (.token LEX_NULL true)
  -- minus sign
  | 17 => if c = 48 then .cat 18 else if isDigit c then .cat 19 else .invalid false
  -- '0'
  | 18 => lexer.numberEnd c
    (if c = 46 then .cat 20 else if c = 101 ∨ c = 69 then .cat 22 else .invalid false)
  -- int followup
  | 19 => lexer.numberEnd c
    (if c = 46 then .cat 20 else if c = 101 ∨ c = 69 then .cat 22
      else if isDigit c then .cat 19 else .invalid false)
  -- frac start
  | 20 => if isDigit c then .cat 21 else .invalid false
  -- frac continue
  | 21 => lexer.numberEnd c
    (if c = 101 ∨ c = 69 then .cat 22 else if isDigit c then .cat 21 else .invalid false)
  -- exp start
  | 22 => if c = 45 ∨ c = 43 then .cat 23 else if isDigit c then .cat 24 else .invalid false
  -- exp continue
  | 23 => if isDigit c then .cat 24 else .invalid false
  -- exp end
  | 24 => lexer.numberEnd c (if isDigit c then .cat 24 else .invalid false)
  | _ => .invalid false

/-- The states that assert that there is a text. -/
def lexer.hasText (state : ℕ) : Bool := (1 ≤ state ∧ state ≤ 6) ∨ (17 ≤ state ∧ state ≤ 24)

/-- The loop of `lexer`: what it returns, `*p`, `*state` and `*text`. -/
def lexer.loop (fresh : ℕ → UInt8) : List UInt8 → ℕ → Option rcstring →
    Except Fault (LEX_VALUE × Option (List UInt8) × ℕ × Option rcstring)
  | [], state, text => .ok (LEX_MORE, none, state, text)
  | c :: p, state, text =>
    if lexer.hasText state = true ∧ text.isNone = true then .error .thrown
    else match lexer.action state c with
    | .skip state => lexer.loop fresh p state text
    | .start first state => do
      let rcs ← rcs_create fresh RSTRING_DEFAULT
      let rcs ← first.foldlM (rcs_catc fresh) rcs
      lexer.loop fresh p state (some rcs)
    | .cat state => match text with
      | none => .error .null
      | some rcs => do
        let rcs ← rcs_catc fresh rcs c
        lexer.loop fresh p state (some rcs)
    | .token value skipped => .ok (value, some (if skipped then p else c :: p), 0, text)
    | .invalid skipped =>
      .ok (LEX_INVALID_CHARACTER, some (if skipped then p else c :: p), state, text)

/-- `lexer`. -/
def lexer (fresh : ℕ → UInt8) (buffer : List UInt8) (p : Option (List UInt8)) (state : ℕ)
    (text : Option rcstring) :
    Except Fault (LEX_VALUE × Option (List UInt8) × ℕ × Option rcstring) :=
  lexer.loop fresh (p.getD buffer) state text

/-! ## What it computes -/

/-- **The lexer with its text as a list.** -/
def lex : List UInt8 → ℕ → Option (List UInt8) →
    LEX_VALUE × Option (List UInt8) × ℕ × Option (List UInt8)
  | [], state, text => (LEX_MORE, none, state, text)
  | c :: p, state, text => match lexer.action state c with
    | .skip state => lex p state text
    | .start first state => lex p state (some first)
    | .cat state => lex p state (text.map (· ++ [c]))
    | .token value skipped => (value, some (if skipped then p else c :: p), 0, text)
    | .invalid skipped => (LEX_INVALID_CHARACTER, some (if skipped then p else c :: p), state, text)

/-- **A string of the lexer holds a text.** -/
def LexText (text : Option rcstring) (s : Option (List UInt8)) : Prop :=
  Option.Rel (fun rcs s => Rcs rcs s ∧ NulFree s) text s

/-- What a turn does to the text is told by the states: it is begun where there was none, and goes
on where there is one. -/
def lexer.Action.keeps (state : ℕ) (c : UInt8) : lexer.Action → Prop
  | .skip state' => lexer.hasText state = false ∧ lexer.hasText state' = false
  | .start first state' => lexer.hasText state = false ∧ lexer.hasText state' = true
    ∧ (c ≠ 0 → NulFree first)
  | .cat state' => lexer.hasText state = true ∧ lexer.hasText state' = true
  | .token value _ => lexer.hasText state = decide (value = LEX_STRING ∨ value = LEX_NUMBER)
  | .invalid _ => True

theorem keeps_letter {state : ℕ} {c letter : UInt8} {next : lexer.Action}
    (h : next.keeps state c) : (lexer.letter c letter next).keeps state c := by
  unfold lexer.letter
  split_ifs
  · exact h
  · trivial

theorem keeps_numberEnd {state : ℕ} {c : UInt8} {other : lexer.Action}
    (hstate : lexer.hasText state = true) (h : other.keeps state c) :
    (lexer.numberEnd c other).keeps state c := by
  unfold lexer.numberEnd
  split_ifs
  · exact hstate
  · exact hstate
  · exact h

theorem keeps_ite {state : ℕ} {c : UInt8} {b : Prop} [Decidable b] {x y : lexer.Action}
    (hx : x.keeps state c) (hy : y.keeps state c) : (if b then x else y).keeps state c := by
  split_ifs
  · exact hx
  · exact hy

theorem action_keeps (state : ℕ) (c : UInt8) : (lexer.action state c).keeps state c := by
  unfold lexer.action
  split
  · repeat' refine keeps_ite ?_ ?_
    all_goals first
      | exact ⟨rfl, rfl⟩
      | exact ⟨rfl, rfl, fun _ => by decide⟩
      | exact ⟨rfl, rfl, fun hc hmem => hc (List.mem_singleton.mp hmem).symm⟩
      | exact rfl
      | trivial
  · exact keeps_ite trivial (keeps_ite rfl (keeps_ite ⟨rfl, rfl⟩ ⟨rfl, rfl⟩))
  · exact keeps_ite ⟨rfl, rfl⟩ (keeps_ite ⟨rfl, rfl⟩ trivial)
  · exact keeps_ite ⟨rfl, rfl⟩ trivial
  · exact keeps_ite ⟨rfl, rfl⟩ trivial
  · exact keeps_ite ⟨rfl, rfl⟩ trivial
  · exact keeps_ite ⟨rfl, rfl⟩ trivial
  · exact keeps_letter ⟨rfl, rfl⟩
  · exact keeps_letter ⟨rfl, rfl⟩
  · exact keeps_letter rfl
  · exact keeps_letter ⟨rfl, rfl⟩
  · exact keeps_letter ⟨rfl, rfl⟩
  · exact keeps_letter ⟨rfl, rfl⟩
  · exact keeps_letter rfl
  · exact keeps_letter ⟨rfl, rfl⟩
  · exact keeps_letter ⟨rfl, rfl⟩
  · exact keeps_letter rfl
  · exact keeps_ite ⟨rfl, rfl⟩ (keeps_ite ⟨rfl, rfl⟩ trivial)
  · exact keeps_numberEnd rfl (keeps_ite ⟨rfl, rfl⟩ (keeps_ite ⟨rfl, rfl⟩ trivial))
  · exact keeps_numberEnd rfl
      (keeps_ite ⟨rfl, rfl⟩ (keeps_ite ⟨rfl, rfl⟩ (keeps_ite ⟨rfl, rfl⟩ trivial)))
  · exact keeps_ite ⟨rfl, rfl⟩ trivial
  · exact keeps_numberEnd rfl (keeps_ite ⟨rfl, rfl⟩ (keeps_ite ⟨rfl, rfl⟩ trivial))
  · exact keeps_ite ⟨rfl, rfl⟩ (keeps_ite ⟨rfl, rfl⟩ trivial)
  · exact keeps_ite ⟨rfl, rfl⟩ trivial
  · exact keeps_numberEnd rfl (keeps_ite ⟨rfl, rfl⟩ trivial)
  · trivial

section Lexer

variable {text : Option rcstring} {s : Option (List UInt8)} {state : ℕ} {p : List UInt8}

theorem LexText.isSome (h : LexText text s) : text.isSome = s.isSome := by
  cases h <;> rfl

/-- A string that has just been begun. -/
theorem lexText_start (fresh : ℕ → UInt8) {first : List UInt8} (hfirst : NulFree first) :
    ∃ rcs rcs', rcs_create fresh RSTRING_DEFAULT = .ok rcs
      ∧ first.foldlM (rcs_catc fresh) rcs = .ok rcs' ∧ LexText (some rcs') (some first) := by
  obtain ⟨rcs, hcreate, h⟩ := rcs_create_eq fresh RSTRING_DEFAULT
  have hcats : ∀ (first t : List UInt8) rcs, Rcs rcs t →
      ∃ rcs', first.foldlM (rcs_catc fresh) rcs = .ok rcs' ∧ Rcs rcs' (t ++ first) := by
    intro first
    induction first with
    | nil => exact fun t rcs h => ⟨rcs, rfl, by rwa [List.append_nil]⟩
    | cons c first ih =>
      intro t rcs h
      obtain ⟨rcs₁, hrun, h₁⟩ := h.catc fresh c
      obtain ⟨rcs', hfold, h'⟩ := ih _ rcs₁ h₁
      rw [List.append_assoc] at h'
      exact ⟨rcs', bind_eq_ok.mpr ⟨rcs₁, hrun, hfold⟩, h'⟩
  obtain ⟨rcs', hfold, h'⟩ := hcats first [] rcs h
  exact ⟨rcs, rcs', hcreate, hfold, Option.Rel.some ⟨h', hfirst⟩⟩

/-- **The code computes it**, whatever it reads: the assertions hold, and what is kept between
its calls is a text again wherever it has to be one, as it is where a string or a number is
returned. -/
theorem lexer_eq (fresh : ℕ → UInt8) (h : LexText text s)
    (hstate : lexer.hasText state = true → s.isSome = true) (hp : NulFree p) :
    ∃ text', lexer.loop fresh p state text
        = .ok ((lex p state s).1, (lex p state s).2.1, (lex p state s).2.2.1, text')
      ∧ LexText text' (lex p state s).2.2.2
      ∧ (lexer.hasText (lex p state s).2.2.1 = true → (lex p state s).2.2.2.isSome = true)
      ∧ ((lex p state s).1 = LEX_STRING ∨ (lex p state s).1 = LEX_NUMBER →
        (lex p state s).2.2.2.isSome = true) := by
  induction p generalizing state text s with
  | nil => exact ⟨text, rfl, h, hstate, fun hvalue => by simp [lex] at hvalue⟩
  | cons c p ih =>
    have hc : c ≠ 0 := fun hc => hp (hc ▸ List.mem_cons_self)
    have hp' : NulFree p := fun hmem => hp (List.mem_cons_of_mem c hmem)
    have hassert : ¬(lexer.hasText state = true ∧ text.isNone = true) := by
      rintro ⟨hhas, hnone⟩
      have hsome := h.isSome.trans (hstate hhas)
      rw [Option.isNone_iff_eq_none.mp hnone] at hsome
      cases hsome
    have hkeeps := action_keeps state c
    rw [lexer.loop, if_neg hassert, lex]
    cases haction : lexer.action state c with
    | skip state' =>
      rw [haction] at hkeeps
      exact ih h (fun hhas => absurd (hhas.symm.trans hkeeps.2) (by decide)) hp'
    | start first state' =>
      rw [haction] at hkeeps
      obtain ⟨rcs, rcs', hcreate, hfold, h'⟩ := lexText_start fresh (hkeeps.2.2 hc)
      dsimp only
      rw [hcreate, ok_bind, hfold]
      exact ih h' (fun _ => rfl) hp'
    | cat state' =>
      rw [haction] at hkeeps
      obtain ⟨t, rfl⟩ := Option.isSome_iff_exists.mp (hstate hkeeps.1)
      cases h with
      | some h =>
        obtain ⟨rcs', hcat, h'⟩ := h.1.catc fresh c
        have hfree : NulFree [c] := by simpa [NulFree] using hc.symm
        dsimp only
        rw [hcat]
        exact ih (Option.Rel.some ⟨h', h.2.append hfree⟩) (fun _ => rfl) hp'
    | token value skipped =>
      rw [haction] at hkeeps
      refine ⟨text, rfl, h, fun hhas => absurd hhas Bool.false_ne_true, fun hvalue => ?_⟩
      exact hstate (hkeeps.trans (decide_eq_true hvalue))
    | invalid skipped => exact ⟨text, rfl, h, hstate, fun hvalue => by simp at hvalue⟩

end Lexer

end Mjson
