import AllServer.JsonLexer

/-!
# The tokens of JSON

`Mjson.Word` is the grammar of the tokens: the marks, the words, the strings with their escapes and
the numbers. It speaks of characters only, and `Mjson.Tok` is the first token of a text, behind
white space. The lexer has no such grammar. It has a table of what a character does in a state.

For each state there is a language, of what may follow there up to the end of the token
(`Mjson.MayFollow`), and the table takes the language of a state to those of the states behind it
(`Mjson.follows_cons`). From this the lexer reads the tokens of the grammar and no others
(`Mjson.tok_iff`), and asks for more where the text ends inside of one (`Mjson.unfinished_iff`).
-/

namespace Mjson

open LEX_VALUE

/-! ## The grammar -/

/-- **The text of a string**, between its quotation marks. -/
inductive Body : List UInt8 → Prop
  | nil : Body []
  /-- A character that stands for itself. As a text has no NUL, it is none of the control
  characters. -/
  | plain {c : UInt8} {t : List UInt8} : ¬(1 ≤ c ∧ c ≤ 31) → c ≠ 34 → c ≠ 92 → Body t →
    Body (c :: t)
  /-- An escape of one letter. -/
  | short {e : UInt8} {t : List UInt8} : e ∈ [92, 34, 47, 98, 102, 110, 114, 116] → Body t →
    Body (92 :: e :: t)
  /-- A code of four digits. -/
  | code {a b c d : UInt8} {t : List UInt8} : isHex a = true → isHex b = true → isHex c = true →
    isHex d = true → Body t → Body (92 :: 117 :: a :: b :: c :: d :: t)

/-- Digits, or nothing. -/
def Digits (t : List UInt8) : Prop := ∀ c ∈ t, isDigit c = true

/-- The whole part of a number, which begins with a zero only where it is one. -/
inductive Whole : List UInt8 → Prop
  | zero : Whole [48]
  | digits {c : UInt8} {t : List UInt8} : isDigit c = true → c ≠ 48 → Digits t → Whole (c :: t)

/-- The part of a number behind its point. -/
inductive Fraction : List UInt8 → Prop
  | none : Fraction []
  | digits {t : List UInt8} : Digits t → t ≠ [] → Fraction (46 :: t)

/-- The exponent of a number. -/
inductive Exponent : List UInt8 → Prop
  | none : Exponent []
  | digits {e : UInt8} {sign t : List UInt8} : e = 101 ∨ e = 69 → sign ∈ [[], [43], [45]] →
    Digits t → t ≠ [] → Exponent (e :: (sign ++ t))

/-- **The text of a number.** -/
def Number (t : List UInt8) : Prop :=
  ∃ sign whole fraction exponent, sign ∈ [[], [45]] ∧ Whole whole ∧ Fraction fraction
    ∧ Exponent exponent ∧ t = sign ++ (whole ++ (fraction ++ exponent))

/-- **The tokens of JSON**, each with the text that is kept of it and the characters it is. -/
inductive Word : LEX_VALUE → Option (List UInt8) → List UInt8 → Prop
  | beginObject : Word LEX_BEGIN_OBJECT none [123]
  | endObject : Word LEX_END_OBJECT none [125]
  | beginArray : Word LEX_BEGIN_ARRAY none [91]
  | endArray : Word LEX_END_ARRAY none [93]
  | nameSeparator : Word LEX_NAME_SEPARATOR none [58]
  | valueSeparator : Word LEX_VALUE_SEPARATOR none [44]
  | true : Word LEX_TRUE none [116, 114, 117, 101]
  | false : Word LEX_FALSE none [102, 97, 108, 115, 101]
  | null : Word LEX_NULL none [110, 117, 108, 108]
  | string {t : List UInt8} : Body t → Word LEX_STRING (some t) (34 :: (t ++ [34]))
  | number {t : List UInt8} : Number t → Word LEX_NUMBER (some t) t

/-- White space, or nothing. -/
def White (w : List UInt8) : Prop := ∀ c ∈ w, isWhite c = true

/-- What is left behind a token. A number might go on, so that there has to be what ends it: a white
space, which is read with it, or a comma or the end of an array or an object. -/
def Left (v : LEX_VALUE) (q p' : List UInt8) : Prop :=
  if v = LEX_NUMBER then
    ∃ c r, q = c :: r ∧ (isWhite c = true ∧ p' = r ∨ c ∈ [93, 125, 44] ∧ p' = c :: r)
  else p' = q

/-- **The first token of a text**, behind white space, with the text that is kept of it, and with
what is left. -/
def Tok (p : List UInt8) (v : LEX_VALUE) (text : Option (List UInt8)) (p' : List UInt8) : Prop :=
  ∃ w word q, White w ∧ Word v text word ∧ Left v q p' ∧ p = w ++ (word ++ q)

/-- **A text that ends inside of a token**, or in front of one. A number that nothing ends is not
finished. -/
def Unfinished (p : List UInt8) : Prop :=
  ∃ w begun v text word, White w ∧ Word v text word ∧ p = w ++ begun ∧ begun <+: word
    ∧ (begun = word → v = LEX_NUMBER)

/-! ## What may follow in a state of the lexer -/

section Languages

variable {L : List UInt8 → Prop} {c : UInt8} {b t : List UInt8} {v w : LEX_VALUE} {n : ℕ}

/-- The texts with digits in front of a text of `L`. -/
def Digital (L : List UInt8 → Prop) (t : List UInt8) : Prop := ∃ d u, Digits d ∧ L u ∧ t = d ++ u

/-- The texts with a digit in front of a text of `L`. -/
def Digit (L : List UInt8 → Prop) (t : List UInt8) : Prop :=
  ∃ c u, isDigit c = true ∧ L u ∧ t = c :: u

/-- What follows a whole part. -/
def Rational (t : List UInt8) : Prop := ∃ f e, Fraction f ∧ Exponent e ∧ t = f ++ e

/-- What follows the sign of a number. -/
def Unsigned (t : List UInt8) : Prop := ∃ i u, Whole i ∧ Rational u ∧ t = i ++ u

/-- What follows the letter of an exponent. -/
def Signed (t : List UInt8) : Prop :=
  ∃ sign u, sign ∈ [[], [43], [45]] ∧ Digits u ∧ u ≠ [] ∧ t = sign ++ u

/-- What follows a backslash in a string. -/
def Escaped (b : List UInt8) : Prop := Body (92 :: b)

/-- The rest of a code in front of a text of a string. -/
def Code : ℕ → List UInt8 → Prop
  | 0, b => Body b
  | _ + 1, [] => False
  | n + 1, c :: b => isHex c = true ∧ Code n b

theorem digits_cons : Digits (c :: t) ↔ isDigit c = true ∧ Digits t := List.forall_mem_cons

theorem digital_cons : Digital L (c :: t) ↔ L (c :: t) ∨ isDigit c = true ∧ Digital L t := by
  constructor
  · rintro ⟨d, u, hd, hu, heq⟩
    obtain ⟨rfl, rfl⟩ | ⟨d, rfl, rfl⟩ := List.cons_eq_append_iff.mp heq
    · exact .inl hu
    · exact .inr ⟨(digits_cons.mp hd).1, d, u, (digits_cons.mp hd).2, hu, rfl⟩
  · rintro (h | ⟨hc, d, u, hd, hu, rfl⟩)
    · exact ⟨[], c :: t, List.forall_mem_nil _, h, rfl⟩
    · exact ⟨c :: d, u, digits_cons.mpr ⟨hc, hd⟩, hu, rfl⟩

theorem digital_nil : Digital L [] ↔ L [] := by
  constructor
  · rintro ⟨d, u, -, hu, heq⟩
    rwa [(List.append_eq_nil_iff.mp heq.symm).2] at hu
  · exact fun h => ⟨[], [], List.forall_mem_nil _, h, rfl⟩

theorem digit_cons : Digit L (c :: t) ↔ isDigit c = true ∧ L t := by
  constructor
  · rintro ⟨_, _, hc, hu, heq⟩
    obtain ⟨rfl, rfl⟩ := List.cons.inj heq
    exact ⟨hc, hu⟩
  · exact fun ⟨hc, ht⟩ => ⟨c, t, hc, ht, rfl⟩

theorem not_digit_nil : ¬Digit L [] := by
  rintro ⟨_, _, _, _, heq⟩
  cases heq

/-- Digits that are not missing begin with one. -/
theorem digits_ne_nil : Digits t ∧ t ≠ [] ↔ Digit Digits t := by
  cases t with
  | nil => exact iff_of_false (fun h => h.2 rfl) not_digit_nil
  | cons c t => simp [digit_cons, digits_cons]

theorem signed_cons :
    Signed (c :: t) ↔ (c = 45 ∨ c = 43) ∧ Digit Digits t ∨ isDigit c = true ∧ Digits t := by
  unfold Signed
  constructor
  · rintro ⟨sign, u, hsign, hu, hne, heq⟩
    simp only [List.mem_cons, List.not_mem_nil, or_false] at hsign
    obtain rfl | rfl | rfl := hsign
    · obtain rfl : c :: t = u := heq
      exact .inr (digits_cons.mp hu)
    · obtain ⟨rfl, rfl⟩ := List.cons.inj heq
      exact .inl ⟨.inr rfl, digits_ne_nil.mp ⟨hu, hne⟩⟩
    · obtain ⟨rfl, rfl⟩ := List.cons.inj heq
      exact .inl ⟨.inl rfl, digits_ne_nil.mp ⟨hu, hne⟩⟩
  · rintro (⟨rfl | rfl, ht⟩ | ⟨hc, ht⟩)
    · exact ⟨[45], t, by simp, (digits_ne_nil.mpr ht).1, (digits_ne_nil.mpr ht).2, rfl⟩
    · exact ⟨[43], t, by simp, (digits_ne_nil.mpr ht).1, (digits_ne_nil.mpr ht).2, rfl⟩
    · exact ⟨[], c :: t, by simp, digits_cons.mpr ⟨hc, ht⟩, List.cons_ne_nil c t, rfl⟩

theorem not_signed_nil : ¬Signed [] := by
  rintro ⟨sign, u, -, -, hne, heq⟩
  exact hne (List.append_eq_nil_iff.mp heq.symm).2

theorem exponent_cons : Exponent (c :: t) ↔ (c = 101 ∨ c = 69) ∧ Signed t := by
  constructor
  · intro h
    cases h with
    | digits he hsign ht hne => exact ⟨he, _, _, hsign, ht, hne, rfl⟩
  · rintro ⟨hc, sign, u, hsign, hu, hne, rfl⟩
    exact .digits hc hsign hu hne

theorem fraction_cons : Fraction (c :: t) ↔ c = 46 ∧ Digit Digits t := by
  constructor
  · intro h
    cases h with
    | digits ht hne => exact ⟨rfl, digits_ne_nil.mp ⟨ht, hne⟩⟩
  · rintro ⟨rfl, ht⟩
    exact .digits (digits_ne_nil.mpr ht).1 (digits_ne_nil.mpr ht).2

theorem rational_cons : Rational (c :: t) ↔
    (c = 101 ∨ c = 69) ∧ Signed t ∨ c = 46 ∧ Digit (Digital Exponent) t := by
  constructor
  · rintro ⟨f, e, hf, he, heq⟩
    obtain ⟨rfl, rfl⟩ | ⟨f, rfl, rfl⟩ := List.cons_eq_append_iff.mp heq
    · exact .inl (exponent_cons.mp he)
    · obtain ⟨rfl, d, u, hd, hu, rfl⟩ := fraction_cons.mp hf
      exact .inr ⟨rfl, d, u ++ e, hd, ⟨u, e, hu, he, rfl⟩, rfl⟩
  · rintro (h | ⟨rfl, d, _, hd, ⟨u, e, hu, he, rfl⟩, rfl⟩)
    · exact ⟨[], c :: t, .none, exponent_cons.mpr h, rfl⟩
    · exact ⟨46 :: d :: u, e, fraction_cons.mpr ⟨rfl, d, u, hd, hu, rfl⟩, he, rfl⟩

theorem rational_nil : Rational [] := ⟨[], [], .none, .none, rfl⟩

/-- A code is four digits. -/
theorem body_code : Body (92 :: 117 :: b) ↔ Code 4 b := by
  constructor
  · intro h
    cases h with
    | plain _ _ hslash => exact absurd rfl hslash
    | short he => exact absurd he (by decide)
    | code h₁ h₂ h₃ h₄ hb => exact ⟨h₁, h₂, h₃, h₄, hb⟩
  · intro h
    match b, h with
    | _ :: _ :: _ :: _ :: _, ⟨h₁, h₂, h₃, h₄, hb⟩ => exact .code h₁ h₂ h₃ h₄ hb

theorem escaped_cons : Escaped (c :: b) ↔
    c ∈ [92, 34, 47, 98, 102, 110, 114, 116] ∧ Body b ∨ c = 117 ∧ Code 4 b := by
  constructor
  · intro h
    cases h with
    | plain _ _ hslash => exact absurd rfl hslash
    | short he hb => exact .inl ⟨he, hb⟩
    | code h₁ h₂ h₃ h₄ hb => exact .inr ⟨rfl, h₁, h₂, h₃, h₄, hb⟩
  · rintro (⟨he, hb⟩ | ⟨rfl, hb⟩)
    · exact .short he hb
    · exact body_code.mpr hb

theorem not_escaped_nil : ¬Escaped [] := by
  intro h
  cases h with
  | plain _ _ hslash => exact hslash rfl

/-- A character that is no backslash stands for itself. -/
theorem body_cons (hc : c ≠ 92) : Body (c :: b) ↔ (¬(1 ≤ c ∧ c ≤ 31) ∧ c ≠ 34) ∧ Body b := by
  constructor
  · intro h
    cases h with
    | plain hcontrol hquote _ hb => exact ⟨⟨hcontrol, hquote⟩, hb⟩
    | short | code => exact absurd rfl hc
  · exact fun ⟨⟨hcontrol, hquote⟩, hb⟩ => .plain hcontrol hquote hc hb

end Languages

/-- What is behind the first letter of `true`, `false` or `null`. -/
def Letters (w : LEX_VALUE) (s : List UInt8) (v : LEX_VALUE) (b t : List UInt8) : Prop :=
  v = w ∧ b = [] ∧ t = s

/-- What is inside of a string, up to its quotation mark. -/
def Quoted (L : List UInt8 → Prop) (v : LEX_VALUE) (b t : List UInt8) : Prop :=
  v = LEX_STRING ∧ L b ∧ t = b ++ [34]

/-- What is inside of a number. -/
def Numeral (L : List UInt8 → Prop) (v : LEX_VALUE) (b t : List UInt8) : Prop :=
  v = LEX_NUMBER ∧ b = t ∧ L t

/-- **What may follow in a state** up to the end of the token, with the part of it that is kept. -/
def MayFollow : ℕ → LEX_VALUE → List UInt8 → List UInt8 → Prop
  | 1 => Quoted Body
  | 2 => Quoted Escaped
  | 3 => Quoted (Code 4)
  | 4 => Quoted (Code 3)
  | 5 => Quoted (Code 2)
  | 6 => Quoted (Code 1)
  | 7 => Letters LEX_TRUE [114, 117, 101]
  | 8 => Letters LEX_TRUE [117, 101]
  | 9 => Letters LEX_TRUE [101]
  | 10 => Letters LEX_FALSE [97, 108, 115, 101]
  | 11 => Letters LEX_FALSE [108, 115, 101]
  | 12 => Letters LEX_FALSE [115, 101]
  | 13 => Letters LEX_FALSE [101]
  | 14 => Letters LEX_NULL [117, 108, 108]
  | 15 => Letters LEX_NULL [108, 108]
  | 16 => Letters LEX_NULL [108]
  | 17 => Numeral Unsigned
  | 18 => Numeral Rational
  | 19 => Numeral (Digital Rational)
  | 20 => Numeral (Digit (Digital Exponent))
  | 21 => Numeral (Digital Exponent)
  | 22 => Numeral Signed
  | 23 => Numeral (Digit Digits)
  | 24 => Numeral Digits
  | _ => fun _ _ _ => False

/-- What may follow a character, by what the lexer does with it. -/
def lexer.Action.MayFollow (c : UInt8) (v : LEX_VALUE) (b t : List UInt8) : lexer.Action → Prop
  | .skip state => Mjson.MayFollow state v b t
  | .cat state => ∃ b', b = c :: b' ∧ Mjson.MayFollow state v b' t
  | .token w _ => w ≠ LEX_NUMBER ∧ v = w ∧ b = [] ∧ t = []
  | .start _ _ | .invalid _ => False

section MayFollow

variable {L M : List UInt8 → Prop} {c d : UInt8} {b t s : List UInt8} {v w : LEX_VALUE}
  {state state' : ℕ}

theorem letters_cons : Letters w (d :: s) v b (c :: t) ↔ c = d ∧ Letters w s v b t := by
  unfold Letters
  rw [List.cons.injEq]
  tauto

/-- A letter is read. -/
theorem follows_letter {next : lexer.Action} (h : Letters w s v b t ↔ next.MayFollow c v b t) :
    Letters w (d :: s) v b (c :: t) ↔ (lexer.letter c d next).MayFollow c v b t := by
  unfold lexer.letter
  rw [letters_cons]
  split_ifs with hc
  · rw [← h, and_iff_right hc]
  · exact iff_of_false (fun h => hc h.1) id

/-- A character of a number is read. -/
theorem numeral_cons :
    Numeral L v b (c :: t) ↔ ∃ b', b = c :: b' ∧ Numeral (fun t => L (c :: t)) v b' t := by
  constructor
  · rintro ⟨rfl, rfl, h⟩
    exact ⟨t, rfl, rfl, rfl, h⟩
  · rintro ⟨_, rfl, rfl, rfl, h⟩
    exact ⟨rfl, rfl, h⟩

theorem follows_cat (hM : MayFollow state' = Numeral M) (h : ∀ t, L (c :: t) ↔ M t) :
    Numeral L v b (c :: t) ↔ (lexer.Action.cat state').MayFollow c v b t := by
  show _ ↔ ∃ b', b = c :: b' ∧ MayFollow state' v b' t
  rw [numeral_cons, hM, show (fun t => L (c :: t)) = M from funext fun t => propext (h t)]

theorem follows_stop {action : lexer.Action} (h : ¬L (c :: t))
    (haction : ¬action.MayFollow c v b t) : Numeral L v b (c :: t) ↔ action.MayFollow c v b t :=
  iff_of_false (fun hnumeral => h hnumeral.2.2) haction

/-- What ends a number is no part of it. -/
theorem follows_numberEnd {other : lexer.Action}
    (hL : L (c :: t) → isDigit c = true ∨ c = 101 ∨ c = 69 ∨ c = 46)
    (h : Numeral L v b (c :: t) ↔ other.MayFollow c v b t) :
    Numeral L v b (c :: t) ↔ (lexer.numberEnd c other).MayFollow c v b t := by
  unfold lexer.numberEnd
  split_ifs with hwhite hend
  · refine follows_stop (fun h => ?_) (fun h => h.1 rfl)
    rcases hL h with hdigit | rfl | rfl | rfl
    · simp only [isWhite, decide_eq_true_eq] at hwhite
      rcases hwhite with rfl | rfl | rfl | rfl <;> exact absurd hdigit (by decide)
    all_goals exact absurd hwhite (by decide)
  · refine follows_stop (fun h => ?_) (fun h => h.1 rfl)
    rcases hL h with hdigit | rfl | rfl | rfl
    · rcases hend with rfl | rfl | rfl <;> exact absurd hdigit (by decide)
    all_goals exact absurd hend (by decide)
  · exact h

/-- A character of a string is read. -/
theorem quoted_cons :
    Quoted L v b (c :: t) ↔ (c = 34 ∧ L []) ∧ v = LEX_STRING ∧ b = [] ∧ t = [] ∨
      ∃ b', b = c :: b' ∧ Quoted (fun b => L (c :: b)) v b' t := by
  constructor
  · rintro ⟨rfl, hb, heq⟩
    cases b with
    | nil =>
      obtain ⟨rfl, rfl⟩ := List.cons.inj heq
      exact .inl ⟨⟨rfl, hb⟩, rfl, rfl, rfl⟩
    | cons d b =>
      obtain ⟨rfl, rfl⟩ := List.cons.inj heq
      exact .inr ⟨b, rfl, rfl, hb, rfl⟩
  · rintro (⟨⟨rfl, hb⟩, rfl, rfl, rfl⟩ | ⟨b', rfl, rfl, hb, rfl⟩)
    · exact ⟨rfl, hb, rfl⟩
    · exact ⟨rfl, hb, rfl⟩

theorem follows_quoted (hM : MayFollow state' = Quoted M) (hnil : c = 34 → ¬L [])
    (h : ∀ b, L (c :: b) ↔ M b) :
    Quoted L v b (c :: t) ↔ (lexer.Action.cat state').MayFollow c v b t := by
  show _ ↔ ∃ b', b = c :: b' ∧ MayFollow state' v b' t
  rw [quoted_cons, hM, show (fun b => L (c :: b)) = M from funext fun b => propext (h b)]
  exact or_iff_right fun hend => hnil hend.1.1 hend.1.2

theorem not_quoted (hnil : c = 34 → ¬L []) (h : ∀ b, ¬L (c :: b)) : ¬Quoted L v b (c :: t) := by
  rw [quoted_cons]
  rintro (hend | ⟨b', -, -, hb, -⟩)
  · exact hnil hend.1.1 hend.1.2
  · exact h b' hb

/-- A digit of a code is read. -/
theorem follows_code {n : ℕ} (hM : MayFollow state' = Quoted (Code n)) :
    Quoted (Code (n + 1)) v b (c :: t)
      ↔ (if isHex c then .cat state' else .invalid false : lexer.Action).MayFollow c v b t := by
  split_ifs with hc
  · exact follows_quoted hM (fun _ => id) fun b => and_iff_right hc
  · exact iff_of_false (not_quoted (fun _ => id) fun b h => hc h.1) id

theorem follows_body :
    Quoted Body v b (c :: t) ↔ (lexer.action 1 c).MayFollow c v b t := by
  show _ ↔ (if 1 ≤ c ∧ c ≤ 31 then .invalid false else if c = 34 then .token LEX_STRING true
    else if c = 92 then .cat 2 else .cat 1 : lexer.Action).MayFollow c v b t
  split_ifs with hcontrol hquote hslash
  · have hslash : c ≠ 92 := by
      rintro rfl
      exact absurd hcontrol (by decide)
    refine iff_of_false (not_quoted ?_ fun b hb => ((body_cons hslash).mp hb).1.1 hcontrol) id
    rintro rfl
    exact absurd hcontrol (by decide)
  · have hslash : c ≠ 92 := by
      rintro rfl
      exact absurd hquote (by decide)
    rw [quoted_cons, or_iff_left, and_iff_right ⟨hquote, .nil⟩]
    · exact (and_iff_right (by decide)).symm
    · rintro ⟨b', -, -, hb, -⟩
      exact ((body_cons hslash).mp hb).1.2 hquote
  · obtain rfl := hslash
    exact follows_quoted rfl (fun h => absurd h (by decide)) fun b => Iff.rfl
  · exact follows_quoted rfl (fun h => absurd h hquote)
      fun b => (body_cons hslash).trans (and_iff_right ⟨hcontrol, hquote⟩)

theorem follows_escape :
    Quoted Escaped v b (c :: t) ↔ (lexer.action 2 c).MayFollow c v b t := by
  show _ ↔ (if c = 92 ∨ c = 34 ∨ c = 47 ∨ c = 98 ∨ c = 102 ∨ c = 110 ∨ c = 114 ∨ c = 116
    then .cat 1 else if c = 117 then .cat 3 else .invalid false : lexer.Action).MayFollow c v b t
  have hmem : c ∈ [92, 34, 47, 98, 102, 110, 114, 116]
      ↔ c = 92 ∨ c = 34 ∨ c = 47 ∨ c = 98 ∨ c = 102 ∨ c = 110 ∨ c = 114 ∨ c = 116 := by simp
  split_ifs with hshort hcode
  · have hne : c ≠ 117 := by
      rintro rfl
      exact absurd hshort (by decide)
    refine follows_quoted rfl (fun _ => not_escaped_nil) fun b => escaped_cons.trans ?_
    rw [and_iff_right (hmem.mpr hshort), or_iff_left fun h => hne h.1]
  · refine follows_quoted rfl (fun _ => not_escaped_nil) fun b => escaped_cons.trans ?_
    rw [or_iff_right fun h => hshort (hmem.mp h.1), and_iff_right hcode]
  · exact iff_of_false (not_quoted (fun _ => not_escaped_nil)
      fun b hb => (escaped_cons.mp hb).elim (fun h => hshort (hmem.mp h.1)) fun h => hcode h.1) id

theorem unsigned_cons : Unsigned (c :: t) ↔
    c = 48 ∧ Rational t ∨ c ≠ 48 ∧ isDigit c = true ∧ Digital Rational t := by
  constructor
  · rintro ⟨i, u, hi, hu, heq⟩
    cases hi with
    | zero =>
      obtain ⟨rfl, rfl⟩ := List.cons.inj heq
      exact .inl ⟨rfl, hu⟩
    | digits hc hne hd =>
      obtain ⟨rfl, rfl⟩ := List.cons.inj heq
      exact .inr ⟨hne, hc, _, u, hd, hu, rfl⟩
  · rintro (⟨rfl, ht⟩ | ⟨hne, hc, d, u, hd, hu, rfl⟩)
    · exact ⟨[48], t, .zero, ht, rfl⟩
    · exact ⟨c :: d, u, .digits hc hne hd, hu, rfl⟩

theorem isDigit_ne {d : UInt8} (hc : isDigit c = true) (hd : isDigit d = false) : c ≠ d :=
  fun h => absurd (h ▸ hc) (ne_true_of_eq_false hd)

/-- The digits of a whole part, and what is behind it. -/
theorem follows_unsigned : Numeral Unsigned v b (c :: t)
    ↔ (if c = 48 then .cat 18 else if isDigit c then .cat 19
      else .invalid false : lexer.Action).MayFollow c v b t := by
  split_ifs with hzero hdigit
  · exact follows_cat rfl fun t => unsigned_cons.trans (by simp [hzero])
  · exact follows_cat rfl fun t => unsigned_cons.trans (by simp [hzero, hdigit])
  · exact follows_stop (fun h => (unsigned_cons.mp h).elim (fun h => hzero h.1)
      fun h => hdigit h.2.1) id

theorem rational_first (h : Rational (c :: t)) :
    isDigit c = true ∨ c = 101 ∨ c = 69 ∨ c = 46 := by
  have := rational_cons.mp h
  tauto

theorem follows_rational :
    Numeral Rational v b (c :: t) ↔ (lexer.action 18 c).MayFollow c v b t := by
  refine follows_numberEnd rational_first ?_
  split_ifs with hpoint hexponent
  · obtain rfl := hpoint
    exact follows_cat rfl fun t => rational_cons.trans (by simp)
  · refine follows_cat rfl fun t => rational_cons.trans ?_
    rw [and_iff_right hexponent, or_iff_left fun h => hpoint h.1]
  · exact follows_stop (fun h => (rational_cons.mp h).elim (fun h => hexponent h.1)
      fun h => hpoint h.1) id

theorem follows_digits_rational :
    Numeral (Digital Rational) v b (c :: t) ↔ (lexer.action 19 c).MayFollow c v b t := by
  refine follows_numberEnd
    (fun h => (digital_cons.mp h).elim rational_first fun h => .inl h.1) ?_
  split_ifs with hpoint hexponent hdigit
  · obtain rfl := hpoint
    exact follows_cat rfl fun t => digital_cons.trans (by simp [rational_cons, isDigit])
  · have hdigit : ¬isDigit c = true := by rcases hexponent with rfl | rfl <;> decide
    refine follows_cat rfl fun t => digital_cons.trans ?_
    rw [rational_cons, and_iff_right hexponent, or_iff_left fun h => hdigit h.1,
      or_iff_left fun h => hpoint h.1]
  · refine follows_cat rfl fun t => digital_cons.trans ?_
    rw [rational_cons, or_iff_right, and_iff_right hdigit]
    exact not_or.mpr ⟨fun h => hexponent h.1, fun h => hpoint h.1⟩
  · refine follows_stop (fun h => (digital_cons.mp h).elim (fun h => ?_) fun h => hdigit h.1) id
    exact (rational_cons.mp h).elim (fun h => hexponent h.1) fun h => hpoint h.1

theorem follows_fraction :
    Numeral (Digital Exponent) v b (c :: t) ↔ (lexer.action 21 c).MayFollow c v b t := by
  refine follows_numberEnd (fun h => (digital_cons.mp h).elim
    (fun h => .inr ((exponent_cons.mp h).1.imp_right .inl)) fun h => .inl h.1) ?_
  split_ifs with hexponent hdigit
  · have hdigit : ¬isDigit c = true := by rcases hexponent with rfl | rfl <;> decide
    refine follows_cat rfl fun t => digital_cons.trans ?_
    rw [exponent_cons, and_iff_right hexponent, or_iff_left fun h => hdigit h.1]
  · refine follows_cat rfl fun t => digital_cons.trans ?_
    rw [exponent_cons, or_iff_right fun h => hexponent h.1, and_iff_right hdigit]
  · exact follows_stop (fun h => (digital_cons.mp h).elim
      (fun h => hexponent (exponent_cons.mp h).1) fun h => hdigit h.1) id

theorem follows_signed : Numeral Signed v b (c :: t)
    ↔ (if c = 45 ∨ c = 43 then .cat 23 else if isDigit c then .cat 24
      else .invalid false : lexer.Action).MayFollow c v b t := by
  split_ifs with hsign hdigit
  · have hdigit : ¬isDigit c = true := by rcases hsign with rfl | rfl <;> decide
    refine follows_cat rfl fun t => signed_cons.trans ?_
    rw [and_iff_right hsign, or_iff_left fun h => hdigit h.1]
  · refine follows_cat rfl fun t => signed_cons.trans ?_
    rw [or_iff_right fun h => hsign h.1, and_iff_right hdigit]
  · exact follows_stop (fun h => (signed_cons.mp h).elim (fun h => hsign h.1)
      fun h => hdigit h.1) id

/-- A digit that there has to be. -/
theorem follows_digit (hM : MayFollow state' = Numeral L) : Numeral (Digit L) v b (c :: t)
    ↔ (if isDigit c then .cat state' else .invalid false : lexer.Action).MayFollow c v b t := by
  split_ifs with hdigit
  · exact follows_cat hM fun t => digit_cons.trans (and_iff_right hdigit)
  · exact follows_stop (fun h => hdigit (digit_cons.mp h).1) id

theorem follows_digits :
    Numeral Digits v b (c :: t) ↔ (lexer.action 24 c).MayFollow c v b t := by
  refine follows_numberEnd (fun h => .inl (digits_cons.mp h).1) ?_
  split_ifs with hdigit
  · exact follows_cat rfl fun t => digits_cons.trans (and_iff_right hdigit)
  · exact follows_stop (fun h => hdigit (digits_cons.mp h).1) id

/-- **What may follow in a state is what the lexer goes on with.** -/
theorem follows_cons (hstate : 1 ≤ state) :
    MayFollow state v b (c :: t) ↔ (lexer.action state c).MayFollow c v b t := by
  match state, hstate with
  | 1, _ => exact follows_body
  | 2, _ => exact follows_escape
  | 3, _ | 4, _ | 5, _ | 6, _ => exact follows_code rfl
  | 7, _ | 8, _ | 10, _ | 11, _ | 12, _ | 14, _ | 15, _ => exact follows_letter Iff.rfl
  | 9, _ | 13, _ | 16, _ => exact follows_letter (and_iff_right (by decide)).symm
  | 17, _ => exact follows_unsigned
  | 18, _ => exact follows_rational
  | 19, _ => exact follows_digits_rational
  | 20, _ => exact follows_digit rfl
  | 21, _ => exact follows_fraction
  | 22, _ => exact follows_signed
  | 23, _ => exact follows_digit rfl
  | 24, _ => exact follows_digits
  | _ + 25, _ => exact Iff.rfl

end MayFollow

/-! ## The lexer inside of a token -/

/-- The states in which a number may end. -/
def Final (state : ℕ) : Prop := state = 18 ∨ state = 19 ∨ state = 21 ∨ state = 24

instance (state : ℕ) : Decidable (Final state) := inferInstanceAs (Decidable (_ ∨ _))

/-- The token goes on. -/
def lexer.Action.GoesOn : lexer.Action → Prop
  | .skip state | .cat state => 1 ≤ state ∧ state ≤ 24
  | .invalid _ => True
  | .start _ _ | .token _ _ => False

/-- What a turn inside of a token does. -/
def lexer.Action.Inside : lexer.Action → Prop
  | .skip state | .cat state => 1 ≤ state ∧ state ≤ 24
  | .invalid _ => True
  | .token w _ => w ≠ LEX_MORE ∧ w ≠ LEX_INVALID_CHARACTER
  | .start _ _ => False

/-- A token that has its own end is finished. -/
def lexer.Action.Ends (action : lexer.Action) : Prop :=
  ∃ w, action = .token w true ∧ w ≠ LEX_MORE ∧ w ≠ LEX_INVALID_CHARACTER ∧ w ≠ LEX_NUMBER

section Inside

variable {c d : UInt8} {p p' b t : List UInt8} {v : LEX_VALUE} {state : ℕ}
  {text text' : Option (List UInt8)} {action next other : lexer.Action}

theorem goesOn_ite {P : Prop} [Decidable P] {x y : lexer.Action} (hx : x.GoesOn ∨ x.Ends)
    (hy : y.GoesOn ∨ y.Ends) : (if P then x else y).GoesOn ∨ (if P then x else y).Ends := by
  split_ifs
  · exact hx
  · exact hy

theorem goesOn_if {P : Prop} [Decidable P] {x y : lexer.Action} (hx : x.GoesOn) (hy : y.GoesOn) :
    (if P then x else y).GoesOn := by
  split_ifs
  · exact hx
  · exact hy

theorem goesOn_letter (h : next.GoesOn ∨ next.Ends) :
    (lexer.letter c d next).GoesOn ∨ (lexer.letter c d next).Ends :=
  goesOn_ite h (.inl trivial)

theorem ends_token {w : LEX_VALUE}
    (h : w ≠ LEX_MORE ∧ w ≠ LEX_INVALID_CHARACTER ∧ w ≠ LEX_NUMBER) :
    (lexer.Action.token w true).Ends := ⟨w, rfl, h⟩

/-- **What the lexer does inside of a token.** -/
theorem action_inside (hstate : 1 ≤ state) (c : UInt8) :
    (¬Final state ∧ ((lexer.action state c).GoesOn ∨ (lexer.action state c).Ends))
      ∨ (Final state ∧ ∃ other : lexer.Action,
        lexer.action state c = lexer.numberEnd c other ∧ other.GoesOn) := by
  have hgo : ∀ {s}, 1 ≤ s ∧ s ≤ 24 → (lexer.Action.cat s).GoesOn ∨ (lexer.Action.cat s).Ends :=
    fun h => .inl h
  have hno : (lexer.Action.invalid false).GoesOn ∨ (lexer.Action.invalid false).Ends :=
    .inl trivial
  have hcat : ∀ {s}, 1 ≤ s ∧ s ≤ 24 → (lexer.Action.cat s).GoesOn := id
  have hbad : (lexer.Action.invalid false).GoesOn := trivial
  match state, hstate with
  | 1, _ =>
    exact .inl ⟨by decide, goesOn_ite hno (goesOn_ite (.inr (ends_token (by decide)))
      (goesOn_ite (hgo (by decide)) (hgo (by decide))))⟩
  | 2, _ =>
    exact .inl ⟨by decide, goesOn_ite (hgo (by decide)) (goesOn_ite (hgo (by decide)) hno)⟩
  | 3, _ | 4, _ | 5, _ | 6, _ | 20, _ | 23, _ =>
    exact .inl ⟨by decide, goesOn_ite (hgo (by decide)) hno⟩
  | 7, _ | 8, _ | 10, _ | 11, _ | 12, _ | 14, _ | 15, _ =>
    exact .inl ⟨by decide, goesOn_letter (.inl (by decide : 1 ≤ _ ∧ _ ≤ 24))⟩
  | 9, _ | 13, _ | 16, _ =>
    exact .inl ⟨by decide, goesOn_letter (.inr (ends_token (by decide)))⟩
  | 17, _ | 22, _ =>
    exact .inl ⟨by decide, goesOn_ite (hgo (by decide)) (goesOn_ite (hgo (by decide)) hno)⟩
  | 18, _ =>
    exact .inr ⟨by decide, _, rfl, goesOn_if (hcat (by decide)) (goesOn_if (hcat (by decide)) hbad)⟩
  | 19, _ =>
    exact .inr ⟨by decide, _, rfl, goesOn_if (hcat (by decide)) (goesOn_if (hcat (by decide))
      (goesOn_if (hcat (by decide)) hbad))⟩
  | 21, _ =>
    exact .inr ⟨by decide, _, rfl, goesOn_if (hcat (by decide)) (goesOn_if (hcat (by decide)) hbad)⟩
  | 24, _ => exact .inr ⟨by decide, _, rfl, goesOn_if (hcat (by decide)) hbad⟩
  | _ + 25, _ => exact .inl ⟨by unfold Final; omega, hno⟩

theorem left_number : Left LEX_NUMBER (c :: p) p'
    ↔ isWhite c = true ∧ p' = p ∨ c ∈ [93, 125, 44] ∧ p' = c :: p := by
  unfold Left
  rw [if_pos rfl]
  constructor
  · rintro ⟨_, _, heq, h⟩
    obtain ⟨rfl, rfl⟩ := List.cons.inj heq
    exact h
  · exact fun h => ⟨c, p, rfl, h⟩

theorem not_isWhite_end (hc : c ∈ [93, 125, 44]) : ¬isWhite c = true := by
  simp only [List.mem_cons, List.not_mem_nil, or_false] at hc
  rcases hc with rfl | rfl | rfl <;> decide

theorem not_left_nil : ¬Left LEX_NUMBER [] p' := by
  unfold Left
  rw [if_pos rfl]
  rintro ⟨_, _, heq, _⟩
  cases heq

theorem left_of_ne (h : v ≠ LEX_NUMBER) {q : List UInt8} : Left v q p' ↔ p' = q := by
  rw [Left, if_neg h]

/-- Nothing follows where a number may end, and only there. -/
theorem follows_nil : MayFollow state v b [] ↔ Final state ∧ v = LEX_NUMBER ∧ b = [] := by
  have hquoted : ∀ L, ¬Quoted L v b [] := fun L h =>
    List.append_ne_nil_of_right_ne_nil b (List.cons_ne_nil 34 []) h.2.2.symm
  have hletters : ∀ w d s, ¬Letters w (d :: s) v b [] := fun w d s h =>
    List.cons_ne_nil d s h.2.2.symm
  have hnumeral : ∀ {L : List UInt8 → Prop}, L [] →
      (Numeral L v b [] ↔ v = LEX_NUMBER ∧ b = []) := fun h =>
    ⟨fun h => ⟨h.1, h.2.1⟩, fun h' => ⟨h'.1, h'.2, h⟩⟩
  have hnot : ∀ {L : List UInt8 → Prop}, ¬L [] → ¬Numeral L v b [] := fun h h' => h h'.2.2
  match state with
  | 0 => exact iff_of_false id fun h => absurd h.1 (by decide)
  | 1 | 2 | 3 | 4 | 5 | 6 => exact iff_of_false (hquoted _) fun h => absurd h.1 (by decide)
  | 7 | 8 | 9 | 10 | 11 | 12 | 13 | 14 | 15 | 16 =>
    exact iff_of_false (hletters _ _ _) fun h => absurd h.1 (by decide)
  | 17 =>
    refine iff_of_false (hnot ?_) fun h => absurd h.1 (by decide)
    rintro ⟨i, u, hi, -, heq⟩
    rw [(List.append_eq_nil_iff.mp heq.symm).1] at hi
    cases hi
  | 18 => exact (hnumeral rational_nil).trans (and_iff_right (by decide)).symm
  | 19 => exact (hnumeral (digital_nil.mpr rational_nil)).trans (and_iff_right (by decide)).symm
  | 20 => exact iff_of_false (hnot not_digit_nil) fun h => absurd h.1 (by decide)
  | 21 => exact (hnumeral (digital_nil.mpr .none)).trans (and_iff_right (by decide)).symm
  | 22 => exact iff_of_false (hnot not_signed_nil) fun h => absurd h.1 (by decide)
  | 23 => exact iff_of_false (hnot not_digit_nil) fun h => absurd h.1 (by decide)
  | 24 => exact (hnumeral (List.forall_mem_nil _)).trans (and_iff_right (by decide)).symm
  | state + 25 =>
    exact iff_of_false id fun h => absurd h.1 (by unfold Final; omega)

/-- What the lexer reads as a token. -/
def ReadsToken (state : ℕ) (p : List UInt8) (text : Option (List UInt8)) (v : LEX_VALUE)
    (p' : List UInt8) (text' : Option (List UInt8)) : Prop :=
  v ≠ LEX_MORE ∧ v ≠ LEX_INVALID_CHARACTER ∧ lex p state text = (v, some p', 0, text')

/-- What may follow, and what is left behind it. -/
def Continues (state : ℕ) (p : List UInt8) (text : Option (List UInt8)) (v : LEX_VALUE)
    (p' : List UInt8) (text' : Option (List UInt8)) : Prop :=
  ∃ b t q, MayFollow state v b t ∧ Left v q p' ∧ p = t ++ q ∧ text' = text.map (· ++ b)

/-- The token ends here, or goes on with a character. -/
theorem continues_cons (hstate : 1 ≤ state) : Continues state (c :: p) text v p' text' ↔
    (Final state ∧ v = LEX_NUMBER ∧ Left LEX_NUMBER (c :: p) p' ∧ text' = text)
      ∨ ∃ b t q, (lexer.action state c).MayFollow c v b t ∧ Left v q p' ∧ p = t ++ q
        ∧ text' = text.map (· ++ b) := by
  have hmap : text.map (· ++ ([] : List UInt8)) = text := by simp
  constructor
  · rintro ⟨b, t, q, hfollows, hleft, heq, rfl⟩
    obtain ⟨rfl, rfl⟩ | ⟨t, rfl, rfl⟩ := List.cons_eq_append_iff.mp heq
    · obtain ⟨hfinal, rfl, rfl⟩ := follows_nil.mp hfollows
      exact .inl ⟨hfinal, rfl, hleft, hmap⟩
    · exact .inr ⟨b, t, q, (follows_cons hstate).mp hfollows, hleft, rfl, rfl⟩
  · rintro (⟨hfinal, rfl, hleft, rfl⟩ | ⟨b, t, q, hfollows, hleft, rfl, rfl⟩)
    · exact ⟨[], [], c :: p, follows_nil.mpr ⟨hfinal, rfl, rfl⟩, hleft, rfl, hmap.symm⟩
    · exact ⟨b, c :: t, q, (follows_cons hstate).mpr hfollows, hleft, rfl, rfl⟩

/-- The token goes on. -/
theorem reads_goesOn (ih : ∀ state text, 1 ≤ state →
      (ReadsToken state p text v p' text' ↔ Continues state p text v p' text'))
    (haction : lexer.action state c = action) (hgo : action.GoesOn) :
    ReadsToken state (c :: p) text v p' text' ↔
      ∃ b t q, action.MayFollow c v b t ∧ Left v q p' ∧ p = t ++ q ∧ text' = text.map (· ++ b) := by
  have hmap : ∀ (b : List UInt8) (text : Option (List UInt8)),
      (text.map (· ++ [c])).map (· ++ b) = text.map (· ++ (c :: b)) := by
    rintro b (_ | t) <;> simp
  unfold ReadsToken
  rw [lex, haction]
  cases action with
  | skip state' => exact ih state' text hgo.1
  | cat state' =>
    refine (ih state' _ hgo.1).trans ⟨?_, ?_⟩
    · rintro ⟨b, t, q, hfollows, hleft, rfl, rfl⟩
      exact ⟨c :: b, t, q, ⟨b, rfl, hfollows⟩, hleft, rfl, hmap b text⟩
    · rintro ⟨_, t, q, ⟨b, rfl, hfollows⟩, hleft, rfl, rfl⟩
      exact ⟨b, t, q, hfollows, hleft, rfl, (hmap b text).symm⟩
  | start | token => exact hgo.elim
  | invalid skipped =>
    refine iff_of_false (fun h => h.2.1 (congrArg Prod.fst h.2.2).symm) ?_
    rintro ⟨_, _, _, hfollows, -⟩
    exact hfollows

/-- The token is finished. -/
theorem reads_token {w : LEX_VALUE} {skipped : Bool}
    (haction : lexer.action state c = .token w skipped) (hmore : w ≠ LEX_MORE)
    (hinvalid : w ≠ LEX_INVALID_CHARACTER) : ReadsToken state (c :: p) text v p' text' ↔
      v = w ∧ p' = (if skipped then p else c :: p) ∧ text' = text := by
  unfold ReadsToken
  rw [lex, haction]
  constructor
  · rintro ⟨-, -, heq⟩
    injection heq with hv heq
    injection heq with hp heq
    injection heq with _ htext
    exact ⟨hv.symm, (Option.some.inj hp).symm, htext.symm⟩
  · rintro ⟨rfl, rfl, rfl⟩
    exact ⟨hmore, hinvalid, rfl⟩

/-- What is behind a token that has its own end. -/
theorem reads_ends {w : LEX_VALUE} (haction : lexer.action state c = .token w true)
    (hw : w ≠ LEX_MORE ∧ w ≠ LEX_INVALID_CHARACTER ∧ w ≠ LEX_NUMBER) :
    ReadsToken state (c :: p) text v p' text' ↔ ∃ b t q,
      (lexer.Action.token w true).MayFollow c v b t ∧ Left v q p' ∧ p = t ++ q
        ∧ text' = text.map (· ++ b) := by
  rw [reads_token haction hw.1 hw.2.1]
  constructor
  · rintro ⟨rfl, rfl, rfl⟩
    exact ⟨[], [], _, ⟨hw.2.2, rfl, rfl, rfl⟩, (left_of_ne hw.2.2).mpr rfl, rfl, by simp⟩
  · rintro ⟨_, _, q, ⟨-, rfl, rfl, rfl⟩, hleft, rfl, rfl⟩
    exact ⟨rfl, (left_of_ne hw.2.2).mp hleft, by simp⟩

/-- What ends a number, where it may end. -/
theorem reads_final {skipped : Bool}
    (haction : lexer.action state c = .token LEX_NUMBER skipped) (hfinal : Final state)
    (hleft : Left LEX_NUMBER (c :: p) p' ↔ p' = if skipped then p else c :: p) :
    ReadsToken state (c :: p) text v p' text' ↔
      (Final state ∧ v = LEX_NUMBER ∧ Left LEX_NUMBER (c :: p) p' ∧ text' = text)
        ∨ ∃ b t q, (lexer.Action.token LEX_NUMBER skipped).MayFollow c v b t ∧ Left v q p'
          ∧ p = t ++ q ∧ text' = text.map (· ++ b) := by
  rw [reads_token haction (by decide) (by decide), hleft, and_iff_right hfinal, or_iff_left]
  rintro ⟨_, _, _, hfollows, -⟩
  exact hfollows.1 rfl

/-- **The lexer inside of a token** reads what may follow in its state. -/
theorem reads_iff (hstate : 1 ≤ state) :
    ReadsToken state p text v p' text' ↔ Continues state p text v p' text' := by
  induction p generalizing state text with
  | nil =>
    refine iff_of_false (fun h => h.1 (congrArg Prod.fst h.2.2).symm) ?_
    rintro ⟨b, t, q, hfollows, hleft, heq, -⟩
    obtain ⟨rfl, rfl⟩ := List.append_eq_nil_iff.mp heq.symm
    obtain ⟨-, rfl, -⟩ := follows_nil.mp hfollows
    exact not_left_nil hleft
  | cons c p ih =>
    have ih' : ∀ state text, 1 ≤ state →
        (ReadsToken state p text v p' text' ↔ Continues state p text v p' text') :=
      fun _ _ h => ih h
    rw [continues_cons hstate]
    obtain ⟨hfinal, hgo | ⟨w, haction, hw⟩⟩ | ⟨hfinal, other, haction, hgo⟩ :=
      action_inside hstate c
    · rw [or_iff_right fun h => hfinal h.1]
      exact reads_goesOn ih' rfl hgo
    · rw [or_iff_right fun h => hfinal h.1, haction]
      exact reads_ends haction hw
    · by_cases hwhite : isWhite c = true
      · have htoken := haction.trans (if_pos hwhite)
        rw [htoken]
        refine reads_final htoken hfinal (left_number.trans ?_)
        rw [and_iff_right hwhite, or_iff_left]
        · rfl
        · exact fun h => not_isWhite_end h.1 hwhite
      by_cases hend : c ∈ [93, 125, 44]
      · have htoken := haction.trans ((if_neg hwhite).trans (if_pos (by simpa using hend)))
        rw [htoken]
        refine reads_final htoken hfinal (left_number.trans ?_)
        rw [and_iff_right hend, or_iff_right fun h => hwhite h.1]
        rfl
      · have hother := haction.trans ((if_neg hwhite).trans (if_neg (by simpa using hend)))
        rw [or_iff_right, hother]
        · exact reads_goesOn ih' hother hgo
        · exact fun h => (left_number.mp h.2.2.1).elim (fun h => hwhite h.1) fun h => hend h.1

/-- There is something that may follow. -/
theorem exists_follows (hstate : 1 ≤ state) (hle : state ≤ 24) : ∃ v b t, MayFollow state v b t := by
  have hdigits : Digits [48] := by simp [Digits, isDigit]
  have hdigit : Digit Digits [48] := ⟨48, [], by decide, List.forall_mem_nil _, rfl⟩
  match state, hstate, hle with
  | 1, _, _ => exact ⟨_, [], _, rfl, .nil, rfl⟩
  | 2, _, _ => exact ⟨_, [110], _, rfl, .short (by decide) .nil, rfl⟩
  | 3, _, _ =>
    exact ⟨_, [48, 48, 48, 48], _, rfl, ⟨by decide, by decide, by decide, by decide, .nil⟩, rfl⟩
  | 4, _, _ => exact ⟨_, [48, 48, 48], _, rfl, ⟨by decide, by decide, by decide, .nil⟩, rfl⟩
  | 5, _, _ => exact ⟨_, [48, 48], _, rfl, ⟨by decide, by decide, .nil⟩, rfl⟩
  | 6, _, _ => exact ⟨_, [48], _, rfl, ⟨by decide, .nil⟩, rfl⟩
  | 7, _, _ | 8, _, _ | 9, _, _ | 10, _, _ | 11, _, _ | 12, _, _ | 13, _, _ | 14, _, _
  | 15, _, _ | 16, _, _ => exact ⟨_, [], _, rfl, rfl, rfl⟩
  | 17, _, _ => exact ⟨_, _, [48], rfl, rfl, [48], [], .zero, rational_nil, rfl⟩
  | 18, _, _ => exact ⟨_, _, [], rfl, rfl, rational_nil⟩
  | 19, _, _ => exact ⟨_, _, [], rfl, rfl, digital_nil.mpr rational_nil⟩
  | 20, _, _ => exact ⟨_, _, [48], rfl, rfl, 48, [], by decide, digital_nil.mpr .none, rfl⟩
  | 21, _, _ => exact ⟨_, _, [], rfl, rfl, digital_nil.mpr .none⟩
  | 22, _, _ => exact ⟨_, _, [48], rfl, rfl, [], [48], by decide, hdigits, by decide, rfl⟩
  | 23, _, _ => exact ⟨_, _, [48], rfl, rfl, hdigit⟩
  | 24, _, _ => exact ⟨_, _, [], rfl, rfl, List.forall_mem_nil _⟩
  | state + 25, _, hle => omega

/-- A text that ends inside of a token, from a state on. -/
def Breaks (state : ℕ) (p : List UInt8) : Prop :=
  ∃ v b t, MayFollow state v b t ∧ p <+: t ∧ (p = t → v = LEX_NUMBER)

theorem breaks_cons (hstate : 1 ≤ state) : Breaks state (c :: p) ↔ ∃ v b t,
    (lexer.action state c).MayFollow c v b t ∧ p <+: t ∧ (p = t → v = LEX_NUMBER) := by
  constructor
  · rintro ⟨v, b, _, hfollows, ⟨q, rfl⟩, hv⟩
    rw [List.cons_append] at hfollows hv
    exact ⟨v, b, p ++ q, (follows_cons hstate).mp hfollows, List.prefix_append p q,
      fun h => hv (congrArg (c :: ·) h)⟩
  · rintro ⟨v, b, t, hfollows, hpre, hv⟩
    exact ⟨v, b, c :: t, (follows_cons hstate).mpr hfollows, List.cons_prefix_cons.mpr ⟨rfl, hpre⟩,
      fun h => hv (List.cons.inj h).2⟩

/-- A token does not break behind its end. -/
theorem not_breaks_token {w : LEX_VALUE} {skipped : Bool} : ¬∃ v b t,
    (lexer.Action.token w skipped).MayFollow c v b t ∧ p <+: t ∧ (p = t → v = LEX_NUMBER) := by
  rintro ⟨v, b, t, ⟨hw, rfl, -, rfl⟩, hpre, hv⟩
  exact hw (hv (List.prefix_nil.mp hpre))

/-- A turn inside of a token goes on inside, or is the last one. -/
theorem action_next (hstate : 1 ≤ state) (c : UInt8) : (lexer.action state c).Inside := by
  have hends : ∀ {action : lexer.Action}, action.GoesOn → action.Inside := by
    rintro (_ | _ | _ | _ | _) h
    all_goals first | exact h | exact h.elim
  obtain ⟨-, hgo | ⟨w, haction, hw⟩⟩ | ⟨-, other, haction, hgo⟩ := action_inside hstate c
  · exact hends hgo
  · rw [haction]
    exact ⟨hw.1, hw.2.1⟩
  · rw [haction]
    unfold lexer.numberEnd
    split_ifs
    · exact (by decide : LEX_NUMBER ≠ LEX_MORE ∧ LEX_NUMBER ≠ LEX_INVALID_CHARACTER)
    · exact (by decide : LEX_NUMBER ≠ LEX_MORE ∧ LEX_NUMBER ≠ LEX_INVALID_CHARACTER)
    · exact hends hgo

/-- **The lexer asks for more** where the text ends inside of a token. -/
theorem lex_more_iff (hstate : 1 ≤ state) (hle : state ≤ 24) :
    (lex p state text).1 = LEX_MORE ↔ Breaks state p := by
  induction p generalizing state text with
  | nil =>
    obtain ⟨v, b, t, hfollows⟩ := exists_follows hstate hle
    refine iff_of_true rfl ⟨v, b, t, hfollows, List.nil_prefix, ?_⟩
    rintro rfl
    exact (follows_nil.mp hfollows).2.1
  | cons c p ih =>
    rw [breaks_cons hstate, lex]
    have haction := action_next hstate c
    cases hnext : lexer.action state c with
    | skip state' =>
      rw [hnext] at haction
      exact ih haction.1 haction.2
    | cat state' =>
      rw [hnext] at haction
      refine (ih haction.1 haction.2).trans ⟨?_, ?_⟩
      · rintro ⟨v, b, t, hfollows, h⟩
        exact ⟨v, c :: b, t, ⟨b, rfl, hfollows⟩, h⟩
      · rintro ⟨v, _, t, ⟨b, rfl, hfollows⟩, h⟩
        exact ⟨v, b, t, hfollows, h⟩
    | start first state' =>
      rw [hnext] at haction
      exact haction.elim
    | token w skipped =>
      rw [hnext] at haction
      exact iff_of_false haction.1 not_breaks_token
    | invalid skipped =>
      refine iff_of_false (by simp) ?_
      rintro ⟨_, _, _, hfollows, -⟩
      exact hfollows

end Inside

/-! ## The lexer in front of a token -/

/-- What begins with a character, by what the lexer does with it. -/
def lexer.Action.Begins (v : LEX_VALUE) (text : Option (List UInt8)) (t : List UInt8) :
    lexer.Action → Prop
  | .skip state => text = none ∧ ∃ b, Mjson.MayFollow state v b t
  | .start first state => ∃ b, text = some (first ++ b) ∧ Mjson.MayFollow state v b t
  | .token w _ => v = w ∧ text = none ∧ t = []
  | .cat _ | .invalid _ => False

/-- What a turn in front of a token does. -/
def lexer.Action.Front : lexer.Action → Prop
  | .skip state | .start _ state => 1 ≤ state ∧ state ≤ 24
  | .invalid _ => True
  | .token w skipped => skipped = true ∧ w ≠ LEX_MORE ∧ w ≠ LEX_INVALID_CHARACTER ∧ w ≠ LEX_NUMBER
  | .cat _ => False

section Front

variable {c : UInt8} {p p' t : List UInt8} {v : LEX_VALUE} {text : Option (List UInt8)}

/-- The characters that begin a token. -/
theorem action_zero (hc : ¬isWhite c = true) : lexer.action 0 c =
    if c = 123 then .token LEX_BEGIN_OBJECT true
    else if c = 125 then .token LEX_END_OBJECT true
    else if c = 91 then .token LEX_BEGIN_ARRAY true
    else if c = 93 then .token LEX_END_ARRAY true
    else if c = 58 then .token LEX_NAME_SEPARATOR true
    else if c = 44 then .token LEX_VALUE_SEPARATOR true
    else if c = 34 then .start [] 1
    else if c = 116 then .skip 7
    else if c = 102 then .skip 10
    else if c = 110 then .skip 14
    else if c = 45 then .start [45] 17
    else if c = 48 then .start [48] 18
    else if isDigit c then .start [c] 19
    else .invalid true := if_neg hc

theorem front_ite {P : Prop} [Decidable P] {x y : lexer.Action} (hx : x.Front) (hy : y.Front) :
    (if P then x else y).Front := by
  split_ifs
  · exact hx
  · exact hy

theorem begins_ite {P Q : Prop} [Decidable P] {x y : lexer.Action}
    (hx : P → x.Begins v text t → Q) (hy : ¬P → y.Begins v text t → Q) :
    (if P then x else y).Begins v text t → Q := by
  split_ifs with h
  · exact hx h
  · exact hy h

theorem action_front (hc : ¬isWhite c = true) : (lexer.action 0 c).Front := by
  rw [action_zero hc]
  repeat' refine front_ite ?_ ?_
  all_goals first
    | exact ⟨rfl, by decide, by decide, by decide⟩
    | exact (by decide : 1 ≤ _ ∧ _ ≤ 24)
    | trivial

/-- A digit that is no zero begins a number. -/
theorem action_digit (hc : isDigit c = true) (hne : c ≠ 48) :
    lexer.action 0 c = .start [c] 19 := by
  have hnot : ∀ {d}, isDigit d = false → c ≠ d := isDigit_ne hc
  have hwhite : ¬isWhite c = true := by
    simp only [isWhite, decide_eq_true_eq, not_or]
    exact ⟨hnot rfl, hnot rfl, hnot rfl, hnot rfl⟩
  rw [action_zero hwhite]
  repeat rw [if_neg (hnot rfl)]
  rw [if_neg hne, if_pos hc]

/-- What a number begins with. -/
theorem Number.begins (h : Number (c :: t)) :
    (lexer.action 0 c).Begins LEX_NUMBER (some (c :: t)) t := by
  obtain ⟨sign, i, f, e, hsign, hi, hf, he, heq⟩ := h
  simp only [List.mem_cons, List.not_mem_nil, or_false] at hsign
  obtain rfl | rfl := hsign
  · cases hi with
    | zero =>
      obtain ⟨rfl, rfl⟩ := List.cons.inj heq
      exact ⟨_, rfl, rfl, rfl, f, e, hf, he, rfl⟩
    | @digits d ds hd hne hds =>
      obtain ⟨rfl, rfl⟩ := List.cons.inj heq
      rw [action_digit hd hne]
      exact ⟨_, rfl, rfl, rfl, ds, f ++ e, hds, ⟨f, e, hf, he, rfl⟩, rfl⟩
  · obtain ⟨rfl, rfl⟩ := List.cons.inj heq
    exact ⟨_, rfl, rfl, rfl, i, f ++ e, hi, ⟨f, e, hf, he, rfl⟩, rfl⟩

theorem not_word_nil : ¬Word v text [] := by
  intro h
  cases h with
  | number h =>
    obtain ⟨sign, i, f, e, -, hi, -, -, heq⟩ := h
    rw [(List.append_eq_nil_iff.mp (List.append_eq_nil_iff.mp heq.symm).2).1] at hi
    cases hi

/-- **A token begins** with what the lexer begins it with. -/
theorem word_cons (hc : ¬isWhite c = true) :
    Word v text (c :: t) ↔ (lexer.action 0 c).Begins v text t := by
  constructor
  · intro h
    cases h with
    | beginObject | endObject | beginArray | endArray | nameSeparator | valueSeparator =>
      exact ⟨rfl, rfl, rfl⟩
    | true | false | null => exact ⟨rfl, [], rfl, rfl, rfl⟩
    | string hbody => exact ⟨_, rfl, rfl, hbody, rfl⟩
    | number h => exact h.begins
  · rw [action_zero hc]
    refine begins_ite (fun hc => ?_) fun _ => begins_ite (fun hc => ?_) fun _ =>
      begins_ite (fun hc => ?_) fun _ => begins_ite (fun hc => ?_) fun _ =>
      begins_ite (fun hc => ?_) fun _ => begins_ite (fun hc => ?_) fun _ =>
      begins_ite (fun hc => ?_) fun _ => begins_ite (fun hc => ?_) fun _ =>
      begins_ite (fun hc => ?_) fun _ => begins_ite (fun hc => ?_) fun _ =>
      begins_ite (fun hc => ?_) fun _ => begins_ite (fun hc => ?_) fun hzero =>
      begins_ite (fun hc => ?_) fun _ => False.elim
    · rintro ⟨rfl, rfl, rfl⟩
      exact hc ▸ .beginObject
    · rintro ⟨rfl, rfl, rfl⟩
      exact hc ▸ .endObject
    · rintro ⟨rfl, rfl, rfl⟩
      exact hc ▸ .beginArray
    · rintro ⟨rfl, rfl, rfl⟩
      exact hc ▸ .endArray
    · rintro ⟨rfl, rfl, rfl⟩
      exact hc ▸ .nameSeparator
    · rintro ⟨rfl, rfl, rfl⟩
      exact hc ▸ .valueSeparator
    · rintro ⟨b, rfl, rfl, hbody, rfl⟩
      exact hc ▸ .string hbody
    · rintro ⟨rfl, b, rfl, -, rfl⟩
      exact hc ▸ .true
    · rintro ⟨rfl, b, rfl, -, rfl⟩
      exact hc ▸ .false
    · rintro ⟨rfl, b, rfl, -, rfl⟩
      exact hc ▸ .null
    · rintro ⟨_, rfl, rfl, rfl, i, _, hi, ⟨f, e, hf, he, rfl⟩, rfl⟩
      subst hc
      exact .number ⟨[45], i, f, e, by decide, hi, hf, he, rfl⟩
    · rintro ⟨_, rfl, rfl, rfl, f, e, hf, he, rfl⟩
      subst hc
      exact .number ⟨[], [48], f, e, by decide, .zero, hf, he, rfl⟩
    · rintro ⟨_, rfl, rfl, rfl, d, _, hd, ⟨f, e, hf, he, rfl⟩, rfl⟩
      exact .number ⟨[], c :: d, f, e, by decide, .digits hc hzero hd, hf, he, rfl⟩

/-- No token begins with a white space. -/
theorem not_isWhite_word (h : Word v text (c :: t)) : ¬isWhite c = true := by
  cases h with
  | beginObject | endObject | beginArray | endArray | nameSeparator | valueSeparator => decide
  | true | false | null | string => decide
  | number h =>
    intro hwhite
    have hskip : lexer.action 0 c = .skip 0 := if_pos hwhite
    have hbegins := h.begins
    rw [hskip] at hbegins
    cases hbegins.1

/-- **White space** in front of a token is skipped. -/
theorem tok_white (hc : isWhite c = true) : Tok (c :: p) v text p' ↔ Tok p v text p' := by
  constructor
  · rintro ⟨w, word, q, hw, hword, hleft, heq⟩
    cases w with
    | nil =>
      cases word with
      | nil => exact absurd hword not_word_nil
      | cons d word =>
        obtain ⟨rfl, rfl⟩ := List.cons.inj heq
        exact absurd hc (not_isWhite_word hword)
    | cons d w =>
      obtain ⟨rfl, rfl⟩ := List.cons.inj heq
      exact ⟨w, word, q, (List.forall_mem_cons.mp hw).2, hword, hleft, rfl⟩
  · rintro ⟨w, word, q, hw, hword, hleft, rfl⟩
    exact ⟨c :: w, word, q, List.forall_mem_cons.mpr ⟨hc, hw⟩, hword, hleft, rfl⟩

/-- The first character of a token. -/
theorem tok_cons (hc : ¬isWhite c = true) : Tok (c :: p) v text p' ↔
    ∃ t q, (lexer.action 0 c).Begins v text t ∧ Left v q p' ∧ p = t ++ q := by
  constructor
  · rintro ⟨w, word, q, hw, hword, hleft, heq⟩
    cases w with
    | nil =>
      cases word with
      | nil => exact absurd hword not_word_nil
      | cons d word =>
        obtain ⟨rfl, rfl⟩ := List.cons.inj heq
        exact ⟨word, q, (word_cons hc).mp hword, hleft, rfl⟩
    | cons d w =>
      obtain ⟨rfl, rfl⟩ := List.cons.inj heq
      exact absurd (List.forall_mem_cons.mp hw).1 hc
  · rintro ⟨t, q, hbegins, hleft, rfl⟩
    exact ⟨[], c :: t, q, List.forall_mem_nil _, (word_cons hc).mpr hbegins, hleft, rfl⟩

/-- **The tokens of JSON are those of the lexer.** -/
theorem tok_iff : Tok p v text p' ↔
    v ≠ LEX_MORE ∧ v ≠ LEX_INVALID_CHARACTER ∧ lex p 0 none = (v, some p', 0, text) := by
  show _ ↔ ReadsToken 0 p none v p' text
  induction p with
  | nil =>
    refine iff_of_false ?_ fun h => h.1 (congrArg Prod.fst h.2.2).symm
    rintro ⟨w, word, q, -, hword, -, heq⟩
    rw [(List.append_eq_nil_iff.mp (List.append_eq_nil_iff.mp heq.symm).2).1] at hword
    exact not_word_nil hword
  | cons c p ih =>
    by_cases hc : isWhite c = true
    · have hskip : lexer.action 0 c = .skip 0 := if_pos hc
      rw [tok_white hc, ih]
      unfold ReadsToken
      rw [lex, hskip]
    rw [tok_cons hc]
    have hfront := action_front hc
    cases haction : lexer.action 0 c with
    | skip state =>
      rw [haction] at hfront
      have hreads : ReadsToken 0 (c :: p) none v p' text ↔ ReadsToken state p none v p' text := by
        unfold ReadsToken
        rw [lex, haction]
      rw [hreads, reads_iff hfront.1]
      constructor
      · rintro ⟨t, q, ⟨rfl, b, hfollows⟩, hleft, rfl⟩
        exact ⟨b, t, q, hfollows, hleft, rfl, rfl⟩
      · rintro ⟨b, t, q, hfollows, hleft, rfl, rfl⟩
        exact ⟨t, q, ⟨rfl, b, hfollows⟩, hleft, rfl⟩
    | start first state =>
      rw [haction] at hfront
      have hreads : ReadsToken 0 (c :: p) none v p' text
          ↔ ReadsToken state p (some first) v p' text := by
        unfold ReadsToken
        rw [lex, haction]
      rw [hreads, reads_iff hfront.1]
      constructor
      · rintro ⟨t, q, ⟨b, rfl, hfollows⟩, hleft, rfl⟩
        exact ⟨b, t, q, hfollows, hleft, rfl, rfl⟩
      · rintro ⟨b, t, q, hfollows, hleft, rfl, rfl⟩
        exact ⟨t, q, ⟨b, rfl, hfollows⟩, hleft, rfl⟩
    | cat state =>
      rw [haction] at hfront
      exact hfront.elim
    | token w skipped =>
      rw [haction] at hfront
      obtain ⟨rfl, hw⟩ := hfront
      rw [reads_token haction hw.1 hw.2.1]
      constructor
      · rintro ⟨_, q, ⟨rfl, rfl, rfl⟩, hleft, rfl⟩
        exact ⟨rfl, (left_of_ne hw.2.2).mp hleft, rfl⟩
      · rintro ⟨rfl, rfl, rfl⟩
        exact ⟨[], _, ⟨rfl, rfl, rfl⟩, (left_of_ne hw.2.2).mpr rfl, rfl⟩
    | invalid skipped =>
      refine iff_of_false ?_ fun h => ?_
      · rintro ⟨_, _, hbegins, -⟩
        exact hbegins
      · obtain ⟨-, hinvalid, hlex⟩ := h
        rw [lex, haction] at hlex
        exact hinvalid (congrArg Prod.fst hlex).symm

/-- White space, and the first character of a token. -/
theorem unfinished_cons (hc : ¬isWhite c = true) : Unfinished (c :: p) ↔
    ∃ v text t, (lexer.action 0 c).Begins v text t ∧ p <+: t ∧ (p = t → v = LEX_NUMBER) := by
  constructor
  · rintro ⟨w, begun, v, text, word, hw, hword, heq, ⟨q, rfl⟩, hv⟩
    cases w with
    | nil =>
      obtain rfl : c :: p = begun := heq
      exact ⟨v, text, p ++ q, (word_cons hc).mp hword, List.prefix_append p q,
        fun h => hv (congrArg (c :: ·) h)⟩
    | cons d w =>
      obtain ⟨rfl, rfl⟩ := List.cons.inj heq
      exact absurd (List.forall_mem_cons.mp hw).1 hc
  · rintro ⟨v, text, t, hbegins, hpre, hv⟩
    exact ⟨[], c :: p, v, text, c :: t, List.forall_mem_nil _, (word_cons hc).mpr hbegins, rfl,
      List.cons_prefix_cons.mpr ⟨rfl, hpre⟩, fun h => hv (List.cons.inj h).2⟩

theorem unfinished_white (hc : isWhite c = true) : Unfinished (c :: p) ↔ Unfinished p := by
  constructor
  · rintro ⟨w, begun, v, text, word, hw, hword, heq, ⟨q, rfl⟩, hv⟩
    cases w with
    | nil =>
      obtain rfl : c :: p = begun := heq
      exact absurd hc (not_isWhite_word hword)
    | cons d w =>
      obtain ⟨rfl, rfl⟩ := List.cons.inj heq
      exact ⟨w, begun, v, text, _, (List.forall_mem_cons.mp hw).2, hword, rfl, ⟨q, rfl⟩, hv⟩
  · rintro ⟨w, begun, v, text, word, hw, hword, rfl, hpre, hv⟩
    exact ⟨c :: w, begun, v, text, word, List.forall_mem_cons.mpr ⟨hc, hw⟩, hword, rfl, hpre, hv⟩

/-- **The lexer asks for more** where a token is not finished. -/
theorem unfinished_iff : Unfinished p ↔ (lex p 0 none).1 = LEX_MORE := by
  induction p with
  | nil =>
    exact iff_of_true ⟨[], [], _, _, _, List.forall_mem_nil _, .beginObject, rfl, List.nil_prefix,
      fun h => absurd h (by decide)⟩ rfl
  | cons c p ih =>
    by_cases hc : isWhite c = true
    · have hskip : lexer.action 0 c = .skip 0 := if_pos hc
      rw [unfinished_white hc, ih, lex, hskip]
    rw [unfinished_cons hc, lex]
    have hfront := action_front hc
    cases haction : lexer.action 0 c with
    | skip state =>
      rw [haction] at hfront
      refine Iff.trans ?_ (lex_more_iff hfront.1 hfront.2).symm
      constructor
      · rintro ⟨v, _, t, ⟨rfl, b, hfollows⟩, h⟩
        exact ⟨v, b, t, hfollows, h⟩
      · rintro ⟨v, b, t, hfollows, h⟩
        exact ⟨v, none, t, ⟨rfl, b, hfollows⟩, h⟩
    | start first state =>
      rw [haction] at hfront
      refine Iff.trans ?_ (lex_more_iff hfront.1 hfront.2).symm
      constructor
      · rintro ⟨v, _, t, ⟨b, rfl, hfollows⟩, h⟩
        exact ⟨v, b, t, hfollows, h⟩
      · rintro ⟨v, b, t, hfollows, h⟩
        exact ⟨v, _, t, ⟨b, rfl, hfollows⟩, h⟩
    | cat state =>
      rw [haction] at hfront
      exact hfront.elim
    | token w skipped =>
      rw [haction] at hfront
      refine iff_of_false ?_ hfront.2.1
      rintro ⟨v, _, _, ⟨rfl, rfl, rfl⟩, hpre, hv⟩
      exact hfront.2.2.2 (hv (List.prefix_nil.mp hpre))
    | invalid skipped =>
      refine iff_of_false ?_ (by simp)
      rintro ⟨_, _, _, hbegins, -⟩
      exact hbegins

end Front

end Mjson
