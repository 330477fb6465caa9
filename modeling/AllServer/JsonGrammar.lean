import AllServer.JsonFragments
import AllServer.JsonTokens

/-!
# The texts that are documents

`Mjson.Spells` is the grammar of what the parser accepts, and of what a text means: the values and
the labels in the order in which they stand there. Its tokens are those of `Mjson.Word`, so that
nothing of it depends on the code. It is the grammar of JSON but for two things. A comma may stand
in front of the end of an array, and behind the end of the document a last token may be begun that
is never finished.

The parser accepts these texts and no others, as long as there is memory for the nodes, and leaves
in memory what they mean (`Mjson.json_parse_document_eq`).
-/

namespace Mjson

open json_value_type LEX_VALUE json_status Forest

/-- The values that have nothing below them, and the tokens they are. -/
inductive Leaf : LEX_VALUE → Option (List UInt8) → Label → Prop
  | string (text : Option (List UInt8)) : Leaf LEX_STRING text (JSON_STRING, text)
  | number (text : Option (List UInt8)) : Leaf LEX_NUMBER text (JSON_NUMBER, text)
  | true : Leaf LEX_TRUE none (JSON_TRUE, none)
  | false : Leaf LEX_FALSE none (JSON_FALSE, none)
  | null : Leaf LEX_NULL none (JSON_NULL, none)

/-- What is expected: a value, what stands in an array behind its bracket or a comma, or behind a
value, and what stands in an object behind its brace, a comma, or a field. -/
inductive Part where
  | value | elements | moreElements | members | member | moreMembers

open Mjson.Part

/-- **The grammar.** A part of a text begins with what is meant by a row of values, and the rest is
left. -/
inductive Spells : Part → List UInt8 → Forest Label → List UInt8 → Prop
  /-- A value with nothing below it. -/
  | leaf {p p' : List UInt8} {v : LEX_VALUE} {text : Option (List UInt8)} {l : Label} :
    Tok p v text p' → Leaf v text l → Spells value p (tree l nil) p'
  /-- An array. -/
  | array {p p₁ p' : List UInt8} {K : Forest Label} : Tok p LEX_BEGIN_ARRAY none p₁ →
    Spells elements p₁ K p' → Spells value p (tree (JSON_ARRAY, none) K) p'
  /-- An object. -/
  | object {p p₁ p' : List UInt8} {K : Forest Label} : Tok p LEX_BEGIN_OBJECT none p₁ →
    Spells members p₁ K p' → Spells value p (tree (JSON_OBJECT, none) K) p'
  /-- The end of an array, which may be behind a comma. -/
  | endArray {p p' : List UInt8} : Tok p LEX_END_ARRAY none p' → Spells elements p nil p'
  /-- A value of an array. -/
  | element {p p₁ p' : List UInt8} {T K : Forest Label} : Spells value p T p₁ →
    Spells moreElements p₁ K p' → Spells elements p (T ++ K) p'
  /-- The end of an array behind a value. -/
  | endElements {p p' : List UInt8} : Tok p LEX_END_ARRAY none p' → Spells moreElements p nil p'
  /-- A comma between the values of an array. -/
  | elementComma {p p₁ p' : List UInt8} {K : Forest Label} : Tok p LEX_VALUE_SEPARATOR none p₁ →
    Spells elements p₁ K p' → Spells moreElements p K p'
  /-- The end of an empty object. -/
  | endObject {p p' : List UInt8} : Tok p LEX_END_OBJECT none p' → Spells members p nil p'
  /-- The fields of an object. -/
  | fields {p p' : List UInt8} {K : Forest Label} : Spells member p K p' → Spells members p K p'
  /-- A field. -/
  | field {p p₁ p₂ p₃ p' : List UInt8} {text : Option (List UInt8)} {T K : Forest Label} :
    Tok p LEX_STRING text p₁ → Tok p₁ LEX_NAME_SEPARATOR none p₂ → Spells value p₂ T p₃ →
    Spells moreMembers p₃ K p' → Spells member p (tree (JSON_STRING, text) T ++ K) p'
  /-- The end of an object behind a field. -/
  | endMembers {p p' : List UInt8} : Tok p LEX_END_OBJECT none p' → Spells moreMembers p nil p'
  /-- A comma between the fields of an object. -/
  | memberComma {p p₁ p' : List UInt8} {K : Forest Label} : Tok p LEX_VALUE_SEPARATOR none p₁ →
    Spells member p₁ K p' → Spells moreMembers p K p'

/-- **A document**: an object, and behind it no token that is finished. -/
def Document (p : List UInt8) (K : Forest Label) : Prop :=
  ∃ p₁ p', Tok p LEX_BEGIN_OBJECT none p₁ ∧ Spells members p₁ K p' ∧ Unfinished p'

/-! ## The machine reads what the grammar derives -/

namespace Parsing

/-- The machine between two tokens. -/
def between (state : ℕ) (stack : List (Frame Label)) (pool : List ℕ) : Parsing :=
  ⟨state, 0, none, stack, pool⟩

/-- The machine behind the end of an object or of an array. -/
def closed (stack : List (Frame Label)) (pool : List ℕ) : Parsing := (between 0 stack pool).close

/-- The machine behind a value, which is inside of an array or behind a label. -/
def behind (stack : List (Frame Label)) (pool : List ℕ) : Parsing :=
  match stack with
  | [] => between 3 [] pool
  | f :: stack => if f.1.2.1 = JSON_ARRAY then between 9 (f :: stack) pool
    else between 3 (up (f :: stack)) pool

variable {p p' : List UInt8} {value : LEX_VALUE} {text : Option (List UInt8)} {state : ℕ}
  {stack : List (Frame Label)} {pool : List ℕ}

/-- **A token.** -/
theorem run_tok (hstate : state ≠ 1 ∧ state ≠ 7) (h : Tok p value text p') :
    run p (between state stack pool)
      = andThen (token { between state stack pool with text } value) (run p') := by
  obtain ⟨hmore, -, hlex⟩ := tok_iff.mp h
  rw [run_lex hstate (by exact hlex ▸ hmore)]
  show andThen (token { between state stack pool with
      lex_state := (lex p 0 none).2.2.1, text := (lex p 0 none).2.2.2 } (lex p 0 none).1)
    (run ((lex p 0 none).2.1.getD [])) = _
  rw [hlex]
  rfl

/-- What ends an object or an array is behind it. -/
theorem closed_cons (f g : Frame Label) (stack : List (Frame Label)) (pool : List ℕ) :
    closed (f :: g :: stack) pool = behind ((g.1, g.2 ++ tree f.1 f.2) :: stack) pool := by
  unfold closed between close behind
  dsimp only
  split_ifs <;> rfl

/-- **A value is opened**, and the text goes on inside of it. -/
theorem run_open (hp : p ≠ []) (type : json_value_type) (a : ℕ)
    (htype : type = JSON_OBJECT ∧ state = 1 ∨ type = JSON_ARRAY ∧ state = 7) :
    run p (between state stack (a :: pool))
      = run p (between (state + 1) (((a, (type, none)), nil) :: stack) pool) := by
  rw [run_settle _ hp]
  rcases htype with ⟨rfl, rfl⟩ | ⟨rfl, rfl⟩ <;> rfl

end Parsing

theorem Tok.ne_nil {p p' : List UInt8} {value : LEX_VALUE} {text : Option (List UInt8)}
    (h : Tok p value text p') : p ≠ [] := by
  rintro rfl
  obtain ⟨hmore, -, hlex⟩ := tok_iff.mp h
  exact hmore (congrArg Prod.fst hlex).symm

theorem Spells.ne_nil {part : Part} {p p' : List UInt8} {T : Forest Label}
    (h : Spells part p T p') : p ≠ [] := by
  induction h with
  | leaf htok | array htok | object htok | endArray htok | endElements htok | elementComma htok
  | endObject htok | field htok | endMembers htok | memberComma htok => exact htok.ne_nil
  | element _ _ ih | fields _ ih => exact ih

/-- The states in which a part is read, inside of an open node of some type. -/
def Part.Starts : Part → json_value_type → ℕ → Prop
  | value, type, state => type = JSON_ARRAY ∧ state = 8 ∨ type ≠ JSON_ARRAY ∧ state = 6
  | elements, type, state => type = JSON_ARRAY ∧ state = 8
  | moreElements, type, state => type = JSON_ARRAY ∧ state = 9
  | members, _, state => state = 2
  | member, _, state => state = 2 ∨ state = 4
  | moreMembers, _, state => state = 3

/-- Where the machine is behind it. -/
def Part.exit : Part → List (Frame Label) → List ℕ → Parsing
  | value => Parsing.behind
  | _ => Parsing.closed

section Spells

variable {part : Part} {p p' : List UInt8} {T : Forest Label} {F : Doc}

/-- A tree with the same labels. -/
theorem map_eq_cons {l : Label} {K R : Forest Label} (h : F.map Prod.snd = cons l K R) :
    ∃ a K' R', F = cons (a, l) K' R' ∧ K'.map Prod.snd = K ∧ R'.map Prod.snd = R := by
  cases F with
  | nil => cases h
  | cons b K' R' =>
    injection h with hl hK hR
    exact ⟨b.1, K', R', by rw [← hl], hK, hR⟩

theorem map_eq_nil (h : F.map Prod.snd = nil) : F = nil := by
  cases F with
  | nil => rfl
  | cons b K R => cases h

/-- Two rows with the same labels. -/
theorem map_eq_append {K : Forest Label} (h : F.map Prod.snd = T ++ K) :
    ∃ F₁ F₂, F = F₁ ++ F₂ ∧ F₁.map Prod.snd = T ∧ F₂.map Prod.snd = K := by
  induction T generalizing F with
  | nil => exact ⟨nil, F, rfl, rfl, h⟩
  | cons l K₁ R _ ih =>
    obtain ⟨a, K', R', rfl, hK, hR⟩ := map_eq_cons h
    obtain ⟨F₁, F₂, rfl, h₁, h₂⟩ := ih hR
    exact ⟨cons (a, l) K' F₁, F₂, rfl, by rw [map, hK, h₁], h₂⟩

/-- **The machine reads a first part of the text as what it means**: behind it there are the values
on the stack, at the addresses that there were. -/
def Part.Reads (part : Part) (p : List UInt8) (T : Forest Label) (p' : List UInt8) : Prop :=
  ∀ {F : Doc} {pool : List ℕ} {f : Frame Label} {stack : List (Frame Label)} {state : ℕ},
    F.map Prod.snd = T → part.Starts f.1.2.1 state →
      Parsing.run p (.between state (f :: stack) (addrs F ++ pool))
        = Parsing.run p' (part.exit ((f.1, f.2 ++ F) :: stack) pool)

namespace Part

variable {p₁ p₂ p₃ : List UInt8} {K : Forest Label} {text : Option (List UInt8)}

theorem reads_leaf {v : LEX_VALUE} {l : Label} (htok : Tok p v text p') (hleaf : Leaf v text l) :
    value.Reads p (tree l nil) p' := by
  intro F pool f stack state hF hstate
  obtain ⟨a, K, R, rfl, hK, hR⟩ := map_eq_cons hF
  obtain rfl := map_eq_nil hK
  obtain rfl := map_eq_nil hR
  unfold exit Parsing.behind
  dsimp only
  rcases hstate with ⟨hf, rfl⟩ | ⟨hf, rfl⟩
  · rw [Parsing.run_tok (by decide) htok, if_pos hf]
    cases hleaf <;> rfl
  · rw [Parsing.run_tok (by decide) htok, if_neg hf]
    cases hleaf <;> rfl

/-- **A value that is opened**: what is in it is read at a node of its own, and when that is closed
the machine is behind the value. -/
theorem reads_open {type : json_value_type} {inside : ℕ} {part : Part} (hp₁ : p₁ ≠ [])
    (hK : part.Reads p₁ K p')
    (htok : ∀ {state stack pool}, state = 8 ∨ state = 6 →
      Parsing.run p (.between state stack pool) = Parsing.run p₁ (.between inside stack pool))
    (htype : type = JSON_OBJECT ∧ inside = 1 ∨ type = JSON_ARRAY ∧ inside = 7)
    (hstarts : part.Starts type (inside + 1)) (hexit : part.exit = Parsing.closed) :
    value.Reads p (tree (type, none) K) p' := by
  intro F pool f stack state hF hstate
  obtain ⟨a, K', R, rfl, hK', hR⟩ := map_eq_cons hF
  obtain rfl := map_eq_nil hR
  show Parsing.run p
      (.between state (f :: stack) (addrs (tree (a, (type, none)) K') ++ pool))
    = Parsing.run p' (.behind ((f.1, f.2 ++ tree (a, (type, none)) K') :: stack) pool)
  rw [addrs_tree, List.cons_append, htok (hstate.imp And.right And.right),
    Parsing.run_open hp₁ type a htype, hK hK' hstarts, hexit]
  exact congrArg (Parsing.run p') (Parsing.closed_cons _ f stack pool)

theorem reads_element (hT : value.Reads p T p₁) (hK : moreElements.Reads p₁ K p') :
    elements.Reads p (T ++ K) p' := by
  intro F pool f stack state hF hstate
  obtain ⟨F₁, F₂, rfl, h₁, h₂⟩ := map_eq_append hF
  obtain ⟨hf, rfl⟩ := hstate
  have hbehind : Parsing.behind ((f.1, f.2 ++ F₁) :: stack) (addrs F₂ ++ pool)
      = .between 9 ((f.1, f.2 ++ F₁) :: stack) (addrs F₂ ++ pool) := if_pos hf
  rw [addrs_append, List.append_assoc, hT h₁ (.inl ⟨hf, rfl⟩)]
  show Parsing.run p₁ (.behind ((f.1, f.2 ++ F₁) :: stack) (addrs F₂ ++ pool)) = _
  rw [hbehind, hK (f := (f.1, f.2 ++ F₁)) h₂ ⟨hf, rfl⟩]
  show Parsing.run p' (.closed ((f.1, f.2 ++ F₁ ++ F₂) :: stack) pool) = _
  rw [append_assoc]
  rfl

/-- **A field**: its label is a node, in which the machine reads the value. -/
theorem reads_field (htok : Tok p LEX_STRING text p₁) (htok₁ : Tok p₁ LEX_NAME_SEPARATOR none p₂)
    (hT : value.Reads p₂ T p₃) (hK : moreMembers.Reads p₃ K p') :
    member.Reads p (tree (JSON_STRING, text) T ++ K) p' := by
  intro F pool f stack state hF hstate
  obtain ⟨F₁, F₂, rfl, h₁, h₂⟩ := map_eq_append hF
  obtain ⟨a, K', R, rfl, hK', hR⟩ := map_eq_cons h₁
  obtain rfl := map_eq_nil hR
  have htok' : Parsing.run p (.between state (f :: stack) (a :: (addrs K' ++ (addrs F₂ ++ pool))))
      = Parsing.run p₁ (.between 5 (((a, (JSON_STRING, text)), nil) :: f :: stack)
        (addrs K' ++ (addrs F₂ ++ pool))) := by
    rcases hstate with rfl | rfl
    · exact Parsing.run_tok (by decide) htok
    · exact Parsing.run_tok (by decide) htok
  have hlabel : JSON_STRING ≠ JSON_ARRAY := by decide
  rw [addrs_append, List.append_assoc]
  show Parsing.run p (.between state (f :: stack)
    (addrs (tree (a, (JSON_STRING, text)) K') ++ (addrs F₂ ++ pool))) = _
  rw [addrs_tree, List.cons_append, htok', Parsing.run_tok (by decide) htok₁]
  show Parsing.run p₂ (.between 6 (((a, (JSON_STRING, text)), nil) :: f :: stack)
    (addrs K' ++ (addrs F₂ ++ pool))) = _
  rw [hT hK' (.inr ⟨hlabel, rfl⟩)]
  show Parsing.run p₃ (.between 3 ((f.1, f.2 ++ tree (a, (JSON_STRING, text)) K') :: stack)
    (addrs F₂ ++ pool)) = _
  rw [hK (f := (f.1, f.2 ++ tree (a, (JSON_STRING, text)) K')) h₂ rfl]
  show Parsing.run p'
    (.closed ((f.1, f.2 ++ tree (a, (JSON_STRING, text)) K' ++ F₂) :: stack) pool) = _
  rw [append_assoc]
  rfl

end Part

/-- **What the grammar derives is what the machine reads**, by induction on the derivation: every
production is a token or a nested part, and the machine is where the next one starts. -/
theorem Spells.run (h : Spells part p T p') : part.Reads p T p' := by
  induction h with
  | leaf htok hleaf => exact Part.reads_leaf htok hleaf
  | array htok hK ih =>
    refine Part.reads_open hK.ne_nil ih ?_ (.inr ⟨rfl, rfl⟩) ⟨rfl, rfl⟩ rfl
    rintro state stack pool (rfl | rfl)
    · exact Parsing.run_tok (by decide) htok
    · exact Parsing.run_tok (by decide) htok
  | object htok hK ih =>
    refine Part.reads_open hK.ne_nil ih ?_ (.inl ⟨rfl, rfl⟩) rfl rfl
    rintro state stack pool (rfl | rfl)
    · exact Parsing.run_tok (by decide) htok
    · exact Parsing.run_tok (by decide) htok
  | endArray htok | endElements htok =>
    intro F pool f stack state hF hstate
    obtain rfl := map_eq_nil hF
    obtain ⟨-, rfl⟩ := hstate
    rw [Parsing.run_tok (by decide) htok, append_nil]
    rfl
  | element hT hK ihT ihK => exact Part.reads_element ihT ihK
  | elementComma htok hK ih =>
    intro F pool f stack state hF hstate
    obtain ⟨hf, rfl⟩ := hstate
    rw [Parsing.run_tok (by decide) htok]
    exact ih hF ⟨hf, rfl⟩
  | endObject htok | endMembers htok =>
    intro F pool f stack state hF hstate
    obtain rfl := map_eq_nil hF
    obtain rfl := hstate
    rw [Parsing.run_tok (by decide) htok, append_nil]
    rfl
  | fields hK ih => exact fun hF hstate => ih hF (.inl hstate)
  | field htok htok₁ hT hK ihT ihK => exact Part.reads_field htok htok₁ ihT ihK
  | memberComma htok hK ih =>
    intro F pool f stack state hF hstate
    obtain rfl := hstate
    rw [Parsing.run_tok (by decide) htok]
    exact ih hF (.inr rfl)

end Spells

/-! ## What the machine reads is derived -/

/-- Everything has been read, and the document is finished. -/
def Accepts (x : Parsing × Option json_status) : Prop := x.2 = none ∧ x.1.state = 99

/-- There is a derivation of a first part of the text, and there is memory for what it means. -/
def Derives (part : Part) (p : List UInt8) (pool : List ℕ) : Prop :=
  ∃ F p' pool', Spells part p (map Prod.snd F) p' ∧ pool = addrs F ++ pool' ∧ p'.length < p.length

section Accepts

variable {p p' : List UInt8} {value : LEX_VALUE} {text : Option (List UInt8)} {state : ℕ}
  {f : Frame Label} {stack : List (Frame Label)} {pool : List ℕ} {s : Parsing}
  {next : Parsing → Parsing × Option json_status}

theorem not_accepts_some {error : json_status} : ¬Accepts (Parsing.andThen (s, some error) next) :=
  fun h => nomatch h.1

/-- Only strings and numbers have a text. -/
theorem lex_text {p : List UInt8} {state : ℕ} {text : Option (List UInt8)}
    (h : lexer.hasText state = true ∨ text = none) (hmore : (lex p state text).1 ≠ LEX_MORE)
    (hinvalid : (lex p state text).1 ≠ LEX_INVALID_CHARACTER) :
    ((lex p state text).1 = LEX_STRING ∨ (lex p state text).1 = LEX_NUMBER)
      ∨ (lex p state text).2.2.2 = none := by
  induction p generalizing state text with
  | nil => exact absurd rfl hmore
  | cons c p ih =>
    have hkeeps := action_keeps state c
    rw [lex] at hmore hinvalid ⊢
    cases haction : lexer.action state c with
    | skip state' =>
      rw [haction] at hkeeps hmore hinvalid
      refine ih (h.imp_left fun hhas => ?_) hmore hinvalid
      exact absurd (hhas.symm.trans hkeeps.1) (by decide)
    | start first state' =>
      rw [haction] at hkeeps hmore hinvalid
      exact ih (.inl hkeeps.2.1) hmore hinvalid
    | cat state' =>
      rw [haction] at hkeeps hmore hinvalid
      exact ih (.inl hkeeps.2) hmore hinvalid
    | token value skipped =>
      rw [haction] at hkeeps
      exact h.imp_left fun hhas => of_decide_eq_true (hkeeps.symm.trans hhas)
    | invalid skipped =>
      rw [haction] at hinvalid
      exact absurd rfl hinvalid

/-- **A text that goes on has a first token.** -/
theorem Accepts.tok (hstate : state ≠ 1 ∧ state ≠ 7) (hne : state ≠ 99)
    (h : Accepts (Parsing.run p (.between state stack pool))) :
    ∃ value text p', Tok p value text p' ∧ p'.length < p.length
      ∧ ((value = LEX_STRING ∨ value = LEX_NUMBER) ∨ text = none)
      ∧ Accepts (Parsing.andThen
        (Parsing.token { Parsing.between state stack pool with text } value)
        (Parsing.run p')) := by
  have hmore : (lex p 0 none).1 ≠ LEX_MORE := fun hmore => by
    rw [Parsing.run_lex_more hstate hmore] at h
    exact hne h.2
  have hinvalid : (lex p 0 none).1 ≠ LEX_INVALID_CHARACTER := fun hinvalid => by
    rw [Parsing.run_lex hstate hmore] at h
    have h' : Accepts (Parsing.andThen (Parsing.token { Parsing.between state stack pool with
        lex_state := (lex p 0 none).2.2.1, text := (lex p 0 none).2.2.2 } (lex p 0 none).1)
        (Parsing.run ((lex p 0 none).2.1.getD []))) := h
    rw [hinvalid, Parsing.token_invalid] at h'
    exact Parsing.token_invalid_ne _ h'.1
  obtain ⟨p', hp', hsuffix, hsame⟩ := lex_left hmore hinvalid
  have htok : Tok p (lex p 0 none).1 (lex p 0 none).2.2.2 p' :=
    tok_iff.mpr ⟨hmore, hinvalid, Prod.ext rfl
      (Prod.ext hp' (Prod.ext (lex_state_eq_zero p 0 none hmore hinvalid) rfl))⟩
  refine ⟨_, _, p', htok, ?_, lex_text (.inr rfl) hmore hinvalid, ?_⟩
  · exact lt_of_le_of_ne hsuffix.length_le fun hlength => hsame (hsuffix.eq_of_length hlength) rfl
  · rwa [Parsing.run_tok hstate htok] at h

/-- **There was memory for a new value.** -/
theorem Accepts.add {type : json_value_type} {hasText : Bool} {after : Parsing → Parsing}
    (h : Accepts (Parsing.andThen (s.add type hasText after) next)) :
    ∃ a pool, s.pool = a :: pool
      ∧ Accepts (next (after { s with
        text := if hasText then none else s.text
        stack := ((a, (type, if hasText then s.text else none)), nil) :: s.stack
        pool })) := by
  unfold Parsing.add at h
  split at h
  · exact absurd h not_accepts_some
  · exact ⟨_, _, ‹_›, h⟩

/-- **There was memory for what is opened.** -/
theorem Accepts.opened (type : json_value_type)
    (htype : type = JSON_OBJECT ∧ state = 1 ∨ type = JSON_ARRAY ∧ state = 7)
    (h : Accepts (Parsing.run p (.between state stack pool))) :
    ∃ a pool', pool = a :: pool'
      ∧ Accepts (Parsing.run p
        (.between (state + 1) (((a, (type, none)), nil) :: stack) pool')) := by
  have hp : p ≠ [] := by
    rintro rfl
    rcases htype with ⟨-, rfl⟩ | ⟨-, rfl⟩ <;> cases h.2
  cases pool with
  | nil =>
    rw [Parsing.run_settle _ hp] at h
    rcases htype with ⟨-, rfl⟩ | ⟨-, rfl⟩ <;> exact absurd h not_accepts_some
  | cons a pool' =>
    rw [Parsing.run_open hp type a htype] at h
    exact ⟨a, pool', rfl, h⟩

end Accepts

/-- The state in which a part is read, where it is not known how it begins. -/
def Part.entry : Part → ℕ
  | value => 6
  | elements => 8
  | moreElements => 9
  | members => 2
  | member => 4
  | moreMembers => 3

/-- **What is shown of the texts that are shorter.** -/
def Sound (n : ℕ) : Prop :=
  ∀ (part : Part) {p : List UInt8} {f : Frame Label} {stack : List (Frame Label)} {pool : List ℕ},
    p.length < n → part.Starts f.1.2.1 part.entry →
    Accepts (Parsing.run p (.between part.entry (f :: stack) pool)) → Derives part p pool

section Sound

variable {p p' : List UInt8} {v : LEX_VALUE} {text : Option (List UInt8)} {state : ℕ}
  {f : Frame Label} {stack : List (Frame Label)} {pool : List ℕ}

theorem Derives.leaf {l : Label} {a : ℕ} (htok : Tok p v text p') (hlength : p'.length < p.length)
    (hleaf : Leaf v text l) : Derives value p (a :: pool) :=
  ⟨tree (a, l) nil, p', pool, .leaf htok hleaf, rfl, hlength⟩

/-- An array, of which the brackets are opened. -/
theorem Sound.array (ih : Sound p.length) (htok : Tok p LEX_BEGIN_ARRAY none p')
    (hlength : p'.length < p.length)
    (h : Accepts (Parsing.run p' (.between 7 stack pool))) : Derives value p pool := by
  obtain ⟨a, pool', rfl, h'⟩ := h.opened JSON_ARRAY (.inr ⟨rfl, rfl⟩)
  obtain ⟨F, p₁, pool₁, hspells, rfl, hlength₁⟩ := ih elements hlength ⟨rfl, rfl⟩ h'
  exact ⟨tree (a, (JSON_ARRAY, none)) F, p₁, pool₁, .array htok hspells,
    by rw [addrs_tree, List.cons_append], hlength₁.trans hlength⟩

/-- An object, of which the brace is opened. -/
theorem Sound.object (ih : Sound p.length) (htok : Tok p LEX_BEGIN_OBJECT none p')
    (hlength : p'.length < p.length)
    (h : Accepts (Parsing.run p' (.between 1 stack pool))) : Derives value p pool := by
  obtain ⟨a, pool', rfl, h'⟩ := h.opened JSON_OBJECT (.inl ⟨rfl, rfl⟩)
  obtain ⟨F, p₁, pool₁, hspells, rfl, hlength₁⟩ := ih members hlength rfl h'
  exact ⟨tree (a, (JSON_OBJECT, none)) F, p₁, pool₁, .object htok hspells,
    by rw [addrs_tree, List.cons_append], hlength₁.trans hlength⟩

/-- What a token is where a value is expected. -/
theorem token_value (stack : List (Frame Label)) (pool : List ℕ)
    (hstate : value.Starts f.1.2.1 state)
    (htext : (v = LEX_STRING ∨ v = LEX_NUMBER) ∨ text = none) (hend : v ≠ LEX_END_ARRAY) :
    (∃ l type hasText, Leaf v text l
      ∧ (Parsing.token { Parsing.between state (f :: stack) pool with text } v
          = Parsing.element { Parsing.between state (f :: stack) pool with text } type hasText
        ∨ Parsing.token { Parsing.between state (f :: stack) pool with text } v
          = Parsing.field { Parsing.between state (f :: stack) pool with text } type hasText))
    ∨ (v = LEX_BEGIN_ARRAY ∧ text = none
      ∧ Parsing.token { Parsing.between state (f :: stack) pool with text } v
        = (Parsing.between 7 (f :: stack) pool, none))
    ∨ (v = LEX_BEGIN_OBJECT ∧ text = none
      ∧ Parsing.token { Parsing.between state (f :: stack) pool with text } v
        = (Parsing.between 1 (f :: stack) pool, none))
    ∨ ∃ s error, Parsing.token { Parsing.between state (f :: stack) pool with text } v
        = (s, some error) := by
  have hnone := htext.resolve_left
  rcases hstate with ⟨-, rfl⟩ | ⟨-, rfl⟩
  all_goals cases v
  case inl.LEX_END_ARRAY => exact absurd rfl hend
  case inl.LEX_STRING => exact .inl ⟨_, JSON_STRING, true, .string text, .inl rfl⟩
  case inr.LEX_STRING => exact .inl ⟨_, JSON_STRING, true, .string text, .inr rfl⟩
  case inl.LEX_NUMBER => exact .inl ⟨_, JSON_NUMBER, true, .number text, .inl rfl⟩
  case inr.LEX_NUMBER => exact .inl ⟨_, JSON_NUMBER, true, .number text, .inr rfl⟩
  case inl.LEX_TRUE =>
    obtain rfl := hnone (by decide)
    exact .inl ⟨_, JSON_TRUE, false, .true, .inl rfl⟩
  case inr.LEX_TRUE =>
    obtain rfl := hnone (by decide)
    exact .inl ⟨_, JSON_TRUE, false, .true, .inr rfl⟩
  case inl.LEX_FALSE =>
    obtain rfl := hnone (by decide)
    exact .inl ⟨_, JSON_FALSE, false, .false, .inl rfl⟩
  case inr.LEX_FALSE =>
    obtain rfl := hnone (by decide)
    exact .inl ⟨_, JSON_FALSE, false, .false, .inr rfl⟩
  case inl.LEX_NULL =>
    obtain rfl := hnone (by decide)
    exact .inl ⟨_, JSON_NULL, false, .null, .inl rfl⟩
  case inr.LEX_NULL =>
    obtain rfl := hnone (by decide)
    exact .inl ⟨_, JSON_NULL, false, .null, .inr rfl⟩
  case inl.LEX_BEGIN_ARRAY | inr.LEX_BEGIN_ARRAY =>
    obtain rfl := hnone (by decide)
    exact .inr (.inl ⟨rfl, rfl, rfl⟩)
  case inl.LEX_BEGIN_OBJECT | inr.LEX_BEGIN_OBJECT =>
    obtain rfl := hnone (by decide)
    exact .inr (.inr (.inl ⟨rfl, rfl, rfl⟩))
  all_goals exact .inr (.inr (.inr ⟨_, _, rfl⟩))

/-- **A value**, in an array or behind a label. -/
theorem Sound.value (ih : Sound p.length) (hstate : value.Starts f.1.2.1 state)
    (htok : Tok p v text p') (hlength : p'.length < p.length)
    (htext : (v = LEX_STRING ∨ v = LEX_NUMBER) ∨ text = none) (hend : v ≠ LEX_END_ARRAY)
    (h : Accepts (Parsing.andThen
      (Parsing.token { Parsing.between state (f :: stack) pool with text } v) (Parsing.run p'))) :
    Derives Part.value p pool := by
  rcases token_value stack pool hstate htext hend with
    ⟨l, type, hasText, hleaf, htoken⟩ | ⟨rfl, rfl, htoken⟩ | ⟨rfl, rfl, htoken⟩
      | ⟨s, error, htoken⟩
  · have hpool : ∃ a pool', pool = a :: pool' := by
      rcases htoken with htoken | htoken
      · rw [htoken] at h
        obtain ⟨a, pool', hpool, -⟩ := h.add
        exact ⟨a, pool', hpool⟩
      · rw [htoken] at h
        obtain ⟨a, pool', hpool, -⟩ := h.add
        exact ⟨a, pool', hpool⟩
    obtain ⟨a, pool', rfl⟩ := hpool
    exact .leaf htok hlength hleaf
  · rw [htoken] at h
    exact ih.array htok hlength h
  · rw [htoken] at h
    exact ih.object htok hlength h
  · rw [htoken] at h
    exact absurd h not_accepts_some

/-- **A field**, of which the label is read. -/
theorem Sound.member (ih : Sound p.length) (hstate : member.Starts f.1.2.1 state)
    (htok : Tok p LEX_STRING text p') (hlength : p'.length < p.length)
    (h : Accepts (Parsing.andThen
      (Parsing.token { Parsing.between state (f :: stack) pool with text } LEX_STRING)
      (Parsing.run p'))) : Derives Part.member p pool := by
  have hlabel : Parsing.token { Parsing.between state (f :: stack) pool with text } LEX_STRING
      = Parsing.label { Parsing.between state (f :: stack) pool with text } := by
    rcases hstate with rfl | rfl <;> rfl
  rw [hlabel] at h
  obtain ⟨a, pool', hpool, h₁⟩ := h.add
  obtain rfl : pool = a :: pool' := hpool
  have h₁' : Accepts (Parsing.run p'
      (.between 5 (((a, (JSON_STRING, text)), nil) :: f :: stack) pool')) := h₁
  obtain ⟨v₁, text₁, p₁, htok₁, hlength₁, htext₁, h₂⟩ := h₁'.tok (by decide) (by decide)
  have hsep : v₁ = LEX_NAME_SEPARATOR := by
    by_contra hne
    cases v₁
    case LEX_NAME_SEPARATOR => exact hne rfl
    all_goals exact absurd h₂ not_accepts_some
  obtain rfl := hsep
  obtain rfl := htext₁.resolve_left (by decide)
  have h₂' : Accepts (Parsing.run p₁
      (.between 6 (((a, (JSON_STRING, text)), nil) :: f :: stack) pool')) := h₂
  have hne : JSON_STRING ≠ JSON_ARRAY := by decide
  obtain ⟨F₁, p₂, pool₂, hspells₁, rfl, hlength₂⟩ :=
    ih Part.value (hlength₁.trans hlength) (.inr ⟨hne, rfl⟩) h₂'
  rw [hspells₁.run (f := ((a, (JSON_STRING, text)), nil)) rfl (.inr ⟨hne, rfl⟩)] at h₂'
  obtain ⟨F₂, p₃, pool₃, hspells₂, rfl, hlength₃⟩ :=
    ih (f := (f.1, f.2 ++ tree (a, (JSON_STRING, text)) F₁)) moreMembers
      (hlength₂.trans (hlength₁.trans hlength)) rfl h₂'
  refine ⟨tree (a, (JSON_STRING, text)) F₁ ++ F₂, p₃, pool₃, ?_, ?_,
    hlength₃.trans (hlength₂.trans (hlength₁.trans hlength))⟩
  · rw [map_append]
    exact .field htok htok₁ hspells₁ hspells₂
  · rw [addrs_append, addrs_tree, List.cons_append, List.cons_append, List.append_assoc]

/-- **The machine reads nothing that the grammar does not derive.** -/
theorem sound (n : ℕ) : Sound n := by
  induction n with
  | zero => exact fun part p f stack pool hlength => absurd hlength (Nat.not_lt_zero _)
  | succ n ih =>
    intro part p f stack pool hlength hstarts h
    have ih' : Sound p.length := fun part p₁ f stack pool hlength₁ =>
      ih part (hlength₁.trans_le (Nat.lt_succ_iff.mp hlength))
    obtain ⟨v, text, p', htok, hlength', htext, h'⟩ :=
      h.tok (by cases part <;> decide) (by cases part <;> decide)
    have hnone := htext.resolve_left
    cases part with
    | value =>
      refine ih'.value hstarts htok hlength' htext ?_ h'
      rintro rfl
      exact absurd h' not_accepts_some
    | elements =>
      by_cases hend : v = LEX_END_ARRAY
      · obtain rfl := hend
        obtain rfl := hnone (by decide)
        exact ⟨nil, p', pool, .endArray htok, rfl, hlength'⟩
      · obtain ⟨F₁, p₁, pool₁, hspells₁, rfl, hlength₁⟩ :=
          ih'.value (.inl hstarts) htok hlength' htext hend h'
        rw [hspells₁.run rfl (.inl hstarts)] at h
        have h₁ : Accepts (Parsing.run p₁ (.between 9 ((f.1, f.2 ++ F₁) :: stack) pool₁)) := by
          rwa [show Part.exit .value ((f.1, f.2 ++ F₁) :: stack) pool₁
            = .between 9 ((f.1, f.2 ++ F₁) :: stack) pool₁ from if_pos hstarts.1] at h
        obtain ⟨F₂, p₂, pool₂, hspells₂, rfl, hlength₂⟩ :=
          ih' (f := (f.1, f.2 ++ F₁)) moreElements hlength₁ ⟨hstarts.1, rfl⟩ h₁
        refine ⟨F₁ ++ F₂, p₂, pool₂, ?_, ?_, hlength₂.trans hlength₁⟩
        · rw [map_append]
          exact .element hspells₁ hspells₂
        · rw [addrs_append, List.append_assoc]
    | moreElements =>
      cases v
      case LEX_END_ARRAY =>
        obtain rfl := hnone (by decide)
        exact ⟨nil, p', pool, .endElements htok, rfl, hlength'⟩
      case LEX_VALUE_SEPARATOR =>
        obtain rfl := hnone (by decide)
        obtain ⟨F, p₁, pool₁, hspells, rfl, hlength₁⟩ :=
          ih' elements hlength' ⟨hstarts.1, rfl⟩ h'
        exact ⟨F, p₁, pool₁, .elementComma htok hspells, rfl, hlength₁.trans hlength'⟩
      all_goals exact absurd h' not_accepts_some
    | members =>
      cases v
      case LEX_END_OBJECT =>
        obtain rfl := hnone (by decide)
        exact ⟨nil, p', pool, .endObject htok, rfl, hlength'⟩
      case LEX_STRING =>
        obtain ⟨F, p₁, pool₁, hspells, rfl, hlength₁⟩ := ih'.member (.inl rfl) htok hlength' h'
        exact ⟨F, p₁, pool₁, .fields hspells, rfl, hlength₁⟩
      all_goals exact absurd h' not_accepts_some
    | member =>
      cases v
      case LEX_STRING => exact ih'.member (.inr rfl) htok hlength' h'
      all_goals exact absurd h' not_accepts_some
    | moreMembers =>
      cases v
      case LEX_END_OBJECT =>
        obtain rfl := hnone (by decide)
        exact ⟨nil, p', pool, .endMembers htok, rfl, hlength'⟩
      case LEX_VALUE_SEPARATOR =>
        obtain rfl := hnone (by decide)
        obtain ⟨F, p₁, pool₁, hspells, rfl, hlength₁⟩ := ih' member hlength' (.inr rfl) h'
        exact ⟨F, p₁, pool₁, .memberComma htok hspells, rfl, hlength₁.trans hlength'⟩
      all_goals exact absurd h' not_accepts_some

/-- **The machine accepts a document.** -/
theorem Document.run {p : List UInt8} {K : Forest Label} (h : Document p K) {a : ℕ} {F : Doc}
    (hF : map Prod.snd F = K) (pool : List ℕ) :
    ∃ lex_state text, Parsing.run p (.between 0 [] (a :: (addrs F ++ pool)))
      = (⟨99, lex_state, text, [((a, (JSON_OBJECT, none)), F)], pool⟩, none) := by
  obtain ⟨p₁, p', htok, hspells, hmore⟩ := h
  refine ⟨(lex p' 0 none).2.2.1, (lex p' 0 none).2.2.2, ?_⟩
  rw [Parsing.run_tok (by decide) htok]
  show Parsing.run p₁ (.between 1 [] (a :: (addrs F ++ pool))) = _
  rw [Parsing.run_open hspells.ne_nil JSON_OBJECT a (.inl ⟨rfl, rfl⟩), hspells.run hF rfl]
  exact Parsing.run_lex_more (s := .between 99 [((a, (JSON_OBJECT, none)), F)] pool)
    ⟨(by decide : 99 ≠ 1), (by decide : 99 ≠ 7)⟩ (unfinished_iff.mp hmore)

/-- No token is read behind the end of a document. -/
theorem not_accepts_end {s : Parsing} (hs : s.state = 99) (hv : v ≠ LEX_MORE)
    {next : Parsing → Parsing × Option json_status} :
    ¬Accepts (Parsing.andThen (s.token v) next) := by
  intro h
  obtain ⟨state, lex_state, text, stack, pool⟩ := s
  obtain rfl : state = 99 := hs
  cases v
  case LEX_MORE => exact hv rfl
  all_goals exact absurd h not_accepts_some

/-- **The machine accepts nothing else.** -/
theorem Accepts.document {p : List UInt8} {pool : List ℕ}
    (h : Accepts (Parsing.run p (.between 0 [] pool))) :
    ∃ a F pool', Document p (map Prod.snd F) ∧ pool = a :: (addrs F ++ pool') := by
  obtain ⟨v, text, p₁, htok, -, htext, h₁⟩ := h.tok (by decide) (by decide)
  have hbegin : v = LEX_BEGIN_OBJECT := by
    by_contra hne
    cases v
    case LEX_BEGIN_OBJECT => exact hne rfl
    all_goals exact absurd h₁ not_accepts_some
  obtain rfl := hbegin
  obtain rfl := htext.resolve_left (by decide)
  have h₁' : Accepts (Parsing.run p₁ (.between 1 [] pool)) := h₁
  obtain ⟨a, pool', rfl, h₂⟩ := h₁'.opened JSON_OBJECT (.inl ⟨rfl, rfl⟩)
  obtain ⟨F, p', pool₂, hspells, rfl, -⟩ := sound _ members (Nat.lt_succ_self _) rfl h₂
  refine ⟨a, F, pool₂, ⟨p₁, p', htok, hspells, ?_⟩, rfl⟩
  have h₃ : Accepts (Parsing.run p' (.between 99 [((a, (JSON_OBJECT, none)), F)] pool₂)) := by
    rwa [show (1 : ℕ) + 1 = 2 from rfl, hspells.run rfl rfl] at h₂
  by_contra hnot
  have hmore := mt unfinished_iff.mpr hnot
  rw [Parsing.run_lex (s := .between 99 [((a, (JSON_OBJECT, none)), F)] pool₂)
    ⟨(by decide : 99 ≠ 1), (by decide : 99 ≠ 7)⟩ hmore] at h₃
  exact not_accepts_end rfl hmore h₃

end Sound

/-- The labels in memory, at the first addresses of a list that is long enough. -/
theorem exists_place (K : Forest Label) (pool : List ℕ) (h : (labels K).length ≤ pool.length) :
    ∃ F pool', map Prod.snd F = K ∧ pool = addrs F ++ pool' := by
  induction K generalizing pool with
  | nil => exact ⟨nil, pool, rfl, rfl⟩
  | cons l K R ihK ihR =>
    rw [labels_cons, List.length_cons, List.length_append] at h
    cases pool with
    | nil => exact absurd h (by simp)
    | cons a pool =>
      rw [List.length_cons] at h
      obtain ⟨F₁, pool₁, hF₁, rfl⟩ := ihK pool (by omega)
      have hlength : (addrs F₁).length = (labels K).length := by
        rw [← hF₁, labels_map, List.length_map, addrs, List.length_map]
      rw [List.length_append] at h
      obtain ⟨F₂, pool₂, hF₂, rfl⟩ := ihR pool₁ (by omega)
      refine ⟨cons (a, l) F₁ F₂, pool₂, by rw [map, hF₁, hF₂], ?_⟩
      rw [addrs_cons, List.cons_append, List.append_assoc]

/-- The document is finished where the code waits for the end of the file. -/
theorem read_eq_waiting (s : Parsing) (p : List UInt8) :
    (s.read p).2 = JSON_WAITING_FOR_EOF ↔ Accepts (Parsing.run p s) := by
  have hstops := Parsing.run_stops p s
  unfold Parsing.read Accepts
  cases hrun : Parsing.run p s with
  | mk s' error =>
    rw [hrun] at hstops
    cases error with
    | some error =>
      refine iff_of_false (fun h => ?_) fun h => nomatch h.1
      have hfalse := (hstops error rfl).1
      rw [show error = JSON_WAITING_FOR_EOF from h] at hfalse
      cases hfalse
    | none =>
      unfold Parsing.answer
      dsimp only
      split_ifs with h h' <;> simp [h]

/-- Nothing is answered that says that there is no error. -/
theorem read_ne_ok (s : Parsing) (p : List UInt8) : (s.read p).2 ≠ JSON_OK := by
  have hstops := Parsing.run_stops p s
  unfold Parsing.read
  cases hrun : Parsing.run p s with
  | mk s' error =>
    rw [hrun] at hstops
    cases error with
    | some error => exact (hstops error rfl).2
    | none =>
      unfold Parsing.answer
      dsimp only
      split_ifs <;> decide

section Document

variable {heap : JsonHeap} {W : List Doc} {pool : List ℕ}

/-- **A document is parsed**, where there is memory for it. -/
theorem Document.parse {text : List UInt8} {K : Forest Label} (hdoc : Document (cstr text) K)
    (fresh : ℕ → UInt8) (h : Holds heap W) (hpool : pool.Nodup)
    (hfree : ∀ p ∈ pool, heap p = none) (hlength : (labels K).length < pool.length) {fuel : ℕ}
    (hfuel : 4 * (cstr text).length + 3 < fuel) :
    ∃ s a F, json_parse_document fresh heap pool text fuel = .ok (s, JSON_OK, some a)
      ∧ map Prod.snd F = K ∧ pool = a :: (addrs F ++ s.pool)
      ∧ Holds s.heap (tree (a, (JSON_OBJECT, none)) F :: W) := by
  have hinit : Rel W ⟨heap, pool, json_jpi_init⟩ (.between 0 [] pool) := rel_init h hpool hfree
  obtain ⟨s, hrun, hstands, -⟩ := json_parse_fragment_eq fresh hinit hfuel
  obtain ⟨a, pool₁, rfl⟩ := List.exists_cons_of_length_pos (Nat.zero_lt_of_lt hlength)
  obtain ⟨F, pool', hF, rfl⟩ := exists_place K pool₁ (Nat.lt_succ_iff.mp hlength)
  obtain ⟨lex_state, lex_text, hread⟩ := hdoc.run hF pool' (a := a)
  have hstack : (Parsing.between 0 [] (a :: (addrs F ++ pool'))).read (cstr text)
      = (⟨99, lex_state, lex_text, [((a, (JSON_OBJECT, none)), F)], pool'⟩,
        JSON_WAITING_FOR_EOF) := by
    unfold Parsing.read
    rw [hread]
    rfl
  rw [hstack] at hrun hstands
  have hholds : Holds s.heap ([tree (a, (JSON_OBJECT, none)) (F ++ nil)] ++ W) := hstands.holds
  have hcursor : s.info.cursor = some a := hstands.cursor
  have hpool' : s.pool = pool' := hstands.pool
  rw [append_nil] at hholds
  refine ⟨s, a, F, ?_, hF, by rw [hpool'], hholds⟩
  unfold json_parse_document
  rw [hrun, ok_bind, ← hcursor]
  rfl

/-- **The texts that are parsed, and what is in memory then.** They are those of a grammar of
characters that knows nothing of the lexer and of the parser. Any other text leaves an unfinished
document there, to which nothing leads. The code is a loop over a cursor in the tree and a number
for the state, and has no recursion that could be compared with that of the grammar: the open
nodes above the cursor are the stack of a machine, and what the machine accepts is what the
grammar derives. -/
theorem json_parse_document_eq (fresh : ℕ → UInt8) (h : Holds heap W) (hpool : pool.Nodup)
    (hfree : ∀ p ∈ pool, heap p = none) {text : List UInt8} {fuel : ℕ}
    (hfuel : 4 * (cstr text).length + 3 < fuel) :
    ∃ s status root, json_parse_document fresh heap pool text fuel = .ok (s, status, root)
      ∧ (status = JSON_OK ↔ ∃ K, Document (cstr text) K ∧ (labels K).length < pool.length)
      ∧ (status = JSON_OK → ∃ a F, root = some a ∧ Document (cstr text) (map Prod.snd F)
        ∧ pool = a :: (addrs F ++ s.pool)
        ∧ Holds s.heap (tree (a, (JSON_OBJECT, none)) F :: W))
      ∧ (status ≠ JSON_OK → root = none ∧ ∃ docs, docs.length ≤ 1 ∧ Holds s.heap (docs ++ W)) := by
  by_cases haccepts : Accepts (Parsing.run (cstr text) (.between 0 [] pool))
  · obtain ⟨a, F, pool', hdoc, hpool'⟩ := haccepts.document
    have hlength : (labels (map Prod.snd F)).length < pool.length := by
      rw [hpool', List.length_cons, List.length_append, labels_map, List.length_map, addrs,
        List.length_map]
      omega
    obtain ⟨s, a', F', hrun, hF', hpool'', hholds⟩ :=
      hdoc.parse fresh h hpool hfree hlength hfuel
    exact ⟨s, JSON_OK, some a', hrun, iff_of_true rfl ⟨_, hdoc, hlength⟩,
      fun _ => ⟨a', F', rfl, hF' ▸ hdoc, hpool'', hholds⟩, fun hfalse => absurd rfl hfalse⟩
  · have hinit : Rel W ⟨heap, pool, json_jpi_init⟩ (.between 0 [] pool) := rel_init h hpool hfree
    obtain ⟨s, hrun, hstands, -⟩ := json_parse_fragment_eq fresh hinit hfuel
    have hwaiting := read_eq_waiting (.between 0 [] pool) (cstr text)
    have hne := read_ne_ok (.between 0 [] pool) (cstr text)
    unfold json_parse_document
    rw [hrun, ok_bind]
    dsimp only
    have hnot : ((Parsing.between 0 [] pool).read (cstr text)).2 ≠ JSON_WAITING_FOR_EOF :=
      mt hwaiting.mp haccepts
    rw [if_neg (not_or.mpr ⟨hnot, hne⟩)]
    refine ⟨s, _, none, rfl, iff_of_false hne ?_, fun hok => absurd hok hne, fun _ => ⟨rfl, _, ?_,
      hstands.holds⟩⟩
    · rintro ⟨K, hdoc, hlength⟩
      obtain ⟨a, pool₁, rfl⟩ := List.exists_cons_of_length_pos (Nat.zero_lt_of_lt hlength)
      obtain ⟨F, pool', hF, rfl⟩ := exists_place K pool₁ (Nat.lt_succ_iff.mp hlength)
      obtain ⟨lex_state, lex_text, hread⟩ := hdoc.run hF pool' (a := a)
      exact haccepts (by rw [hread]; exact ⟨rfl, rfl⟩)
    · cases ((Parsing.between 0 [] pool).read (cstr text)).1.stack with
      | nil => exact Nat.zero_le 1
      | cons f stack => exact Nat.le_refl 1

theorem json_parse_document_eq_field : ∃ s status root,
    json_parse_document (fun _ => 205) (fun _ => none) [10, 20, 30]
      [123, 34, 97, 34, 58, 55, 125] 40
      = .ok (s, status, root)
    ∧ (status = JSON_OK ↔ ∃ K, Document (cstr [123, 34, 97, 34, 58, 55, 125]) K
      ∧ (labels K).length < [10, 20, 30].length)
    ∧ (status = JSON_OK → ∃ a F, root = some a
      ∧ Document (cstr [123, 34, 97, 34, 58, 55, 125]) (map Prod.snd F)
      ∧ [10, 20, 30] = a :: (addrs F ++ s.pool)
      ∧ Holds s.heap [tree (a, (JSON_OBJECT, none)) F])
    ∧ (status ≠ JSON_OK → root = none ∧ ∃ docs, docs.length ≤ 1 ∧ Holds s.heap (docs ++ [])) :=
  json_parse_document_eq (fun _ => 205) Holds.empty (by decide) (fun _ _ => rfl) (by decide)

/-- **A text means one document at most.** -/
theorem Document.unique {p : List UInt8} {K K' : Forest Label} (h : Document p K)
    (h' : Document p K') : K = K' := by
  obtain ⟨F, pool, hF, hpool⟩ :=
    exists_place K (List.range (labels K ++ labels K').length) (by simp)
  obtain ⟨F', pool', hF', hpool'⟩ :=
    exists_place K' (List.range (labels K ++ labels K').length) (by simp)
  -- the machine reads the text in one way
  obtain ⟨_, _, hrun⟩ := h.run hF pool (a := 0)
  obtain ⟨_, _, hrun'⟩ := h'.run hF' pool' (a := 0)
  rw [← hpool] at hrun
  rw [← hpool', hrun] at hrun'
  have hstack := congrArg (fun x => x.1.stack) hrun'
  rw [← hF, ← hF']
  exact congrArg (map Prod.snd) (Prod.mk.inj (List.cons.inj hstack).1).2

end Document

end Mjson
