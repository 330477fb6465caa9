import AllServer.JsonGrammar
import AllServer.JsonPrint

/-!
# Printing a document and parsing it again

A document that can be printed is told by `Mjson.Proper`: the labels of an object have a value each,
and the texts of its strings and numbers are such as the lexer takes up to their end. What is
printed then is a text that the grammar derives, and it means the document
(`Mjson.Proper.document`), so that the parser builds it again beside the first one
(`Mjson.json_parse_printed`).

Every document that has been parsed is proper (`Mjson.Document.proper`): a text that is parsed and
printed again is brought into a normal form (`Mjson.json_print_parsed`).
-/

namespace Mjson

open json_value_type LEX_VALUE json_status Forest Mjson.Part

/-- The text of a string, with its escapes. -/
def IsBody (t : List UInt8) : Prop :=
  NulFree t ∧ lex (t ++ [34]) 1 (some []) = (LEX_STRING, some [], 0, some t)

/-- The text of a number. -/
def IsNumber (t : List UInt8) : Prop :=
  NulFree t ∧ lex (t ++ [44]) 0 none = (LEX_NUMBER, some [44], 0, some t)

/-- **The texts that the lexer takes as a string** are those of the grammar. -/
theorem isBody_iff {t : List UInt8} : IsBody t ↔ NulFree t ∧ Body t := by
  have hreads : ReadsToken 1 (t ++ [34]) (some []) LEX_STRING [] (some t)
      ↔ Continues 1 (t ++ [34]) (some []) LEX_STRING [] (some t) := reads_iff le_rfl
  refine and_congr_right fun _ => ⟨fun hlex => ?_, fun hbody => ?_⟩
  · obtain ⟨b, s, q, ⟨-, hbody, rfl⟩, -, -, htext⟩ := hreads.mp ⟨by decide, by decide, hlex⟩
    obtain rfl : t = b := Option.some.inj htext
    exact hbody
  · have hleft : Left LEX_STRING [] [] := (left_of_ne (by decide)).mpr rfl
    exact (hreads.mpr
      ⟨t, t ++ [34], [], ⟨rfl, hbody, rfl⟩, hleft, (List.append_nil _).symm, rfl⟩).2.2

/-- **The texts that the lexer takes as a number** are those of the grammar. -/
theorem isNumber_iff {t : List UInt8} : IsNumber t ↔ NulFree t ∧ Number t := by
  refine and_congr_right fun _ => ⟨fun hlex => ?_, fun hnumber => ?_⟩
  · obtain ⟨w, word, q, -, hword, -⟩ := tok_iff.mpr ⟨by decide, by decide, hlex⟩
    cases hword with
    | number hnumber => exact hnumber
  · have hleft : Left LEX_NUMBER [44] [44] := left_number.mpr (.inr ⟨by decide, rfl⟩)
    exact (tok_iff.mp ⟨[], t, [44], List.forall_mem_nil _, .number hnumber, hleft, rfl⟩).2.2

/-- **The rows of values that can be printed**: the labels of an object, or not. -/
inductive Proper : Bool → Forest Label → Prop
  | empty (inObject : Bool) : Proper inObject nil
  | string {t : List UInt8} {R : Forest Label} : IsBody t → Proper false R →
    Proper false (cons (JSON_STRING, some t) nil R)
  | number {t : List UInt8} {R : Forest Label} : IsNumber t → Proper false R →
    Proper false (cons (JSON_NUMBER, some t) nil R)
  | isTrue {R : Forest Label} : Proper false R → Proper false (cons (JSON_TRUE, none) nil R)
  | isFalse {R : Forest Label} : Proper false R → Proper false (cons (JSON_FALSE, none) nil R)
  | isNull {R : Forest Label} : Proper false R → Proper false (cons (JSON_NULL, none) nil R)
  | array {K R : Forest Label} : Proper false K → Proper false R →
    Proper false (cons (JSON_ARRAY, none) K R)
  | object {K R : Forest Label} : Proper true K → Proper false R →
    Proper false (cons (JSON_OBJECT, none) K R)
  | field {t : List UInt8} {l : Label} {K R : Forest Label} : IsBody t → Proper false (tree l K) →
    Proper true R → Proper true (cons (JSON_STRING, some t) (tree l K) R)

/-! ## Tokens that have been printed -/

section Tokens

variable {v : LEX_VALUE}

/-- A character that is a token. -/
theorem tok_char {c : UInt8} (hmore : v ≠ LEX_MORE) (hinvalid : v ≠ LEX_INVALID_CHARACTER)
    (haction : lexer.action 0 c = .token v true) (p : List UInt8) : Tok (c :: p) v none p := by
  refine tok_iff.mpr ⟨hmore, hinvalid, ?_⟩
  rw [lex, haction]
  rfl

/-- **A string that has been printed.** -/
theorem IsBody.tok {t : List UInt8} (h : IsBody t) (p : List UInt8) :
    Tok (quoted t ++ p) LEX_STRING (some t) p :=
  ⟨[], quoted t, p, List.forall_mem_nil _, .string (isBody_iff.mp h).2,
    (left_of_ne (by decide)).mpr rfl, rfl⟩

/-- **A number that has been printed**, in front of what ends it. -/
theorem IsNumber.tok {t : List UInt8} (h : IsNumber t) {d : UInt8} (hd : d ∈ [44, 93, 125])
    (p : List UInt8) : Tok (t ++ d :: p) LEX_NUMBER (some t) (d :: p) := by
  have hend : d ∈ [93, 125, 44] := by
    simp only [List.mem_cons] at hd ⊢
    tauto
  exact ⟨[], t, d :: p, List.forall_mem_nil _, .number (isNumber_iff.mp h).2,
    left_number.mpr (.inr ⟨hend, rfl⟩), rfl⟩

end Tokens

/-! ## What is printed is derived -/

/-- What the text of a row of values is derived as, in an array, as a single value, and in an
object. -/
def Printed : Bool → Forest Label → Prop
  | false, F => ∃ t, print false F = (t, true) ∧ NulFree t
    ∧ (∀ p, Spells elements (t ++ 93 :: p) F p)
    ∧ ((∃ l K, F = tree l K) → ∀ d ∈ [44, 93, 125], ∀ p, Spells value (t ++ d :: p) F (d :: p))
  | true, F => ∃ t, print true F = (t, true) ∧ NulFree t
    ∧ (∀ p, Spells members (t ++ 125 :: p) F p)
    ∧ (F ≠ nil → ∀ p, Spells member (t ++ 125 :: p) F p)

theorem nulFree_cons {c : UInt8} {s : List UInt8} (hc : c ≠ 0) (hs : NulFree s) :
    NulFree (c :: s) := fun h => (List.mem_cons.mp h).elim (fun h => hc h.symm) hs

theorem IsBody.nulFree {t : List UInt8} (h : IsBody t) : NulFree (quoted t) :=
  (nulFree_cons (by decide) h.1).append (by decide)

/-- A value in front of others. -/
theorem printed_cons {l : Label} {K R : Forest Label} {t : List UInt8}
    (hprint : (printOpen false l (isNil K) fun inObject => print inObject K).andThen
      (printClose l.1, true) = (t, true))
    (hfree : NulFree t)
    (hvalue : ∀ d ∈ [44, 93, 125], ∀ p, Spells value (t ++ d :: p) (tree l K) (d :: p))
    (hR : Printed false R) : Printed false (cons l K R) := by
  obtain ⟨tR, htR, hfreeR, helements, -⟩ := hR
  cases R with
  | nil =>
    refine ⟨t, ?_, hfree, fun p => ?_, fun _ => hvalue⟩
    · rw [print, ← Written.andThen_assoc, hprint]
      exact Written.andThen_nil _
    · have h := Spells.element (hvalue 93 (by decide) p)
        (.endElements (tok_char (by decide) (by decide) rfl p))
      exact h
  | cons l' K' R' =>
    refine ⟨t ++ 44 :: tR, ?_, hfree.append (nulFree_cons (by decide) hfreeR), fun p => ?_, ?_⟩
    · rw [print, ← Written.andThen_assoc, hprint, htR]
      rfl
    · rw [List.append_assoc, List.cons_append]
      exact Spells.element (hvalue 44 (by decide) (tR ++ 93 :: p))
        (.elementComma (tok_char (by decide) (by decide) rfl _)
          (helements p))
    · rintro ⟨l', K', h⟩
      cases h

/-- **A row of values is derived as it is printed.** -/
theorem Proper.printed {inObject : Bool} {F : Forest Label} (h : Proper inObject F) :
    Printed inObject F := by
  induction h with
  | empty inObject =>
    cases inObject with
    | false =>
      refine ⟨[], rfl, List.not_mem_nil,
        fun p => .endArray (tok_char (by decide) (by decide) rfl p), ?_⟩
      rintro ⟨l, K, h⟩
      cases h
    | true =>
      exact ⟨[], rfl, List.not_mem_nil,
        fun p => .endObject (tok_char (by decide) (by decide) rfl p), fun h => absurd rfl h⟩
  | @string t R ht hR ih =>
    refine printed_cons (t := quoted t) ?_ ht.nulFree
      (fun d hd p => .leaf (ht.tok (d :: p)) (.string _)) ih
    simp [printOpen, printClose, print, Written.andThen]
  | @number t R ht hR ih =>
    refine printed_cons (t := t) ?_ ht.1 (fun d hd p => .leaf (ht.tok hd p) (.number _)) ih
    simp [printOpen, printClose, Written.andThen]
  | isTrue hR ih =>
    exact printed_cons (t := ascii "true") rfl (by decide)
      (fun d hd p => .leaf (tok_iff.mpr ⟨by decide, by decide, rfl⟩) .true) ih
  | isFalse hR ih =>
    exact printed_cons (t := ascii "false") rfl (by decide)
      (fun d hd p => .leaf (tok_iff.mpr ⟨by decide, by decide, rfl⟩) .false) ih
  | isNull hR ih =>
    exact printed_cons (t := ascii "null") rfl (by decide)
      (fun d hd p => .leaf (tok_iff.mpr ⟨by decide, by decide, rfl⟩) .null) ih
  | @array K R hK hR ihK ihR =>
    obtain ⟨tK, htK, hfreeK, helements, -⟩ := ihK
    refine printed_cons (t := 91 :: tK ++ [93]) ?_
      ((nulFree_cons (by decide) hfreeK).append (by decide)) (fun d hd p => ?_) ihR
    · simp [printOpen, printClose, htK, Written.andThen]
    · rw [List.append_assoc, List.cons_append]
      exact .array (tok_char (by decide) (by decide) rfl _) (helements (d :: p))
  | @object K R hK hR ihK ihR =>
    obtain ⟨tK, htK, hfreeK, hmembers, -⟩ := ihK
    refine printed_cons (t := 123 :: tK ++ [125]) ?_
      ((nulFree_cons (by decide) hfreeK).append (by decide)) (fun d hd p => ?_) ihR
    · simp [printOpen, printClose, htK, Written.andThen]
    · rw [List.append_assoc, List.cons_append]
      exact .object (tok_char (by decide) (by decide) rfl _) (hmembers (d :: p))
  | @field t l K R ht hK hR ihK ihR =>
    obtain ⟨tK, htK, hfreeK, -, hvalue⟩ := ihK
    obtain ⟨tR, htR, hfreeR, -, hmember⟩ := ihR
    have hopen : printOpen true (JSON_STRING, some t) (isNil (tree l K))
        (fun inObject => print inObject (tree l K)) = (quoted t ++ 58 :: tK, true) := by
      rw [show isNil (tree l K) = false from rfl]
      simp [printOpen, htK, Written.andThen]
    have hfield : ∀ d ∈ [44, 93, 125], ∀ (p p' : List UInt8) (G : Forest Label),
        Spells moreMembers (d :: p) G p' →
        Spells member (quoted t ++ 58 :: (tK ++ d :: p))
          (tree (JSON_STRING, some t) (tree l K) ++ G) p' := fun d hd p p' G hG =>
      .field (ht.tok _) (tok_char (by decide) (by decide) rfl _) (hvalue ⟨l, K, rfl⟩ d hd p) hG
    cases R with
    | nil =>
      have hspells : ∀ p, Spells member ((quoted t ++ 58 :: tK) ++ 125 :: p)
          (cons (JSON_STRING, some t) (tree l K) nil) p := fun p => by
        rw [List.append_assoc]
        exact hfield 125 (by decide) p p nil
          (.endMembers (tok_char (by decide) (by decide) rfl p))
      refine ⟨quoted t ++ 58 :: tK, ?_, ht.nulFree.append (nulFree_cons (by decide) hfreeK),
        fun p => .fields (hspells p), fun _ => hspells⟩
      rw [print, hopen]
      simp [printClose, Written.andThen, isNil]
    | cons l' K' R' =>
      have hspells : ∀ p, Spells member ((quoted t ++ 58 :: (tK ++ 44 :: tR)) ++ 125 :: p)
          (cons (JSON_STRING, some t) (tree l K) (cons l' K' R')) p := fun p => by
        rw [List.append_assoc, List.cons_append, List.append_assoc]
        exact hfield 44 (by decide) (tR ++ 125 :: p) p (cons l' K' R')
          (.memberComma (tok_char (by decide) (by decide) rfl _)
            (hmember (fun h => by cases h) p))
      refine ⟨quoted t ++ 58 :: (tK ++ 44 :: tR), ?_, ht.nulFree.append (nulFree_cons (by decide)
        (hfreeK.append (nulFree_cons (by decide) hfreeR))), fun p => .fields (hspells p),
        fun _ => hspells⟩
      rw [print, hopen, htR]
      simp [printClose, Written.andThen, isNil]

/-- **What is printed of a proper document is a document, and means the same.** -/
theorem Proper.document {K : Forest Label} (h : Proper true K) :
    ∃ t, (∀ inObject, print inObject (tree (JSON_OBJECT, none) K) = (t, true)) ∧ NulFree t
      ∧ Document t K := by
  obtain ⟨tK, htK, hfreeK, hmembers, -⟩ := h.printed
  refine ⟨123 :: (tK ++ [125]), fun inObject => ?_,
    nulFree_cons (by decide) (hfreeK.append (by decide)), tK ++ [125], [],
    tok_char (by decide) (by decide) rfl _, hmembers [], unfinished_iff.mpr rfl⟩
  rw [tree, print]
  simp [printOpen, printClose, htK, Written.andThen, isNil]

/-- The texts of a proper document can be C strings. -/
theorem Proper.spelled {inObject : Bool} {F : Forest Label} (h : Proper inObject F) :
    ∀ l ∈ labels F, Spelled l := by
  have hnone : ∀ {type : json_value_type}, type ≠ JSON_STRING → type ≠ JSON_NUMBER →
      Spelled (type, none) := fun hs hn h => absurd h (not_or.mpr ⟨hs, hn⟩)
  induction h with
  | empty inObject => exact List.forall_mem_nil _
  | string ht hR ih | number ht hR ih =>
    exact List.forall_mem_cons.mpr ⟨fun _ => ⟨_, rfl, ht.1⟩, ih⟩
  | isTrue hR ih | isFalse hR ih | isNull hR ih =>
    exact List.forall_mem_cons.mpr ⟨hnone (by decide) (by decide), ih⟩
  | array hK hR ihK ihR | object hK hR ihK ihR =>
    exact List.forall_mem_cons.mpr ⟨hnone (by decide) (by decide),
      List.forall_mem_append.mpr ⟨ihK, ihR⟩⟩
  | field ht hK hR ihK ihR =>
    exact List.forall_mem_cons.mpr ⟨fun _ => ⟨_, rfl, ht.1⟩, List.forall_mem_append.mpr ⟨ihK, ihR⟩⟩

/-- **A proper document in memory is printed.** -/
theorem Proper.to_string {heap : JsonHeap} {W : List Doc} {r : ℕ} {K : Doc}
    (hproper : Proper true (map Prod.snd K)) (fresh : ℕ → UInt8) (h : Holds heap W)
    (hF : tree (r, (JSON_OBJECT, none)) K ∈ W) :
    ∃ text fuel₀, (∀ fuel > fuel₀,
        json_tree_to_string fresh heap (some r) fuel = .ok (JSON_OK, some text))
      ∧ print false (tree (JSON_OBJECT, none) (map Prod.snd K)) = (text, true) ∧ NulFree text
      ∧ Document text (map Prod.snd K) := by
  obtain ⟨text, hprint, hfree, hdoc⟩ := hproper.document
  have hspelled : ∀ x ∈ labels (tree (r, (JSON_OBJECT, none)) K), Spelled x.2 := by
    have hK := hproper.spelled
    rw [labels_map, List.forall_mem_map] at hK
    rw [tree, labels_cons, labels_nil, List.append_nil]
    exact List.forall_mem_cons.mpr ⟨fun h => h.elim (fun h => by cases h) (fun h => by cases h), hK⟩
  obtain ⟨n, fuel₀, -, hrun⟩ :=
    json_tree_to_string_eq h hF (r := r) (l := (JSON_OBJECT, none)) (K := K) (if_pos rfl) hspelled
      fresh
  exact ⟨text, fuel₀, fun fuel hfuel => by rw [hrun fuel hfuel, hprint], hprint false, hfree, hdoc⟩

/-- **A document that is printed and parsed again is the same document**, in other nodes. What is
printed is derived by the grammar, by induction on the tree, and the parser builds what the
grammar derives. So neither of the two is ever compared with the other one step by step. -/
theorem json_parse_printed {heap : JsonHeap} {W : List Doc} {pool : List ℕ} {r : ℕ} {K : Doc}
    (fresh fresh' : ℕ → UInt8) (h : Holds heap W) (hF : tree (r, (JSON_OBJECT, none)) K ∈ W)
    (hproper : Proper true (map Prod.snd K)) (hpool : pool.Nodup)
    (hfree : ∀ p ∈ pool, heap p = none) (hlength : (addrs K).length < pool.length) :
    ∃ text fuel₀, (∀ fuel > fuel₀,
        json_tree_to_string fresh heap (some r) fuel = .ok (JSON_OK, some text))
      ∧ ∀ fuel > 4 * text.length + 3, ∃ s a F,
        json_parse_document fresh' heap pool text fuel = .ok (s, JSON_OK, some a)
        ∧ map Prod.snd F = map Prod.snd K
        ∧ Holds s.heap (tree (a, (JSON_OBJECT, none)) F :: W) := by
  obtain ⟨text, fuel₀, hrun, -, hfreeText, hdoc⟩ := hproper.to_string fresh h hF
  refine ⟨text, fuel₀, hrun, fun fuel hfuel => ?_⟩
  have hcstr := cstr_of_nulFree hfreeText
  rw [← hcstr] at hdoc hfuel
  have hlength' : (labels (map Prod.snd K)).length < pool.length := by
    rwa [labels_map, List.length_map, ← List.length_map (f := Prod.fst)]
  obtain ⟨s, a, F, hparse, hmap, -, hholds⟩ := hdoc.parse fresh' h hpool hfree hlength' hfuel
  exact ⟨s, a, F, hparse, hmap, hholds⟩

theorem json_parse_printed_field : ∃ heap text fuel₀,
    (∀ fuel > fuel₀,
      json_tree_to_string (fun _ => 205) heap (some 10) fuel = .ok (JSON_OK, some text))
    ∧ ∀ fuel > 4 * text.length + 3, ∃ s a F,
      json_parse_document (fun _ => 204) heap [1, 2, 3] text fuel = .ok (s, JSON_OK, some a)
      ∧ map Prod.snd F = tree (JSON_STRING, some (ascii "a"))
        (tree (JSON_NUMBER, some (ascii "7")) nil)
      ∧ Holds s.heap [tree (a, (JSON_OBJECT, none)) F, tree (10, (JSON_OBJECT, none))
        (tree (30, (JSON_STRING, some (ascii "a")))
          (tree (20, (JSON_NUMBER, some (ascii "7"))) nil))] := by
  obtain ⟨heap, h⟩ := exists_field
  have hnotMem : ∀ p ∈ [1, 2, 3], p ∉ [10, 30, 20] := by decide
  have hfree : ∀ p ∈ [1, 2, 3], heap p = none := fun p hp => by
    rw [← Option.not_isSome_iff_eq_none, h.isSome]
    exact hnotMem p hp
  have hproper : Proper true (tree (JSON_STRING, some (ascii "a"))
      (tree (JSON_NUMBER, some (ascii "7")) nil)) :=
    .field ⟨by decide, rfl⟩ (.number ⟨by decide, rfl⟩ (.empty false)) (.empty true)
  exact ⟨heap, json_parse_printed (fun _ => 205) (fun _ => 204) h List.mem_cons_self hproper
    (by decide) hfree (by decide)⟩

/-! ## What is parsed can be printed -/

section Words

variable {p p' : List UInt8} {text : Option (List UInt8)} {v : LEX_VALUE}

/-- **The text of a string or of a number that has been read.** -/
theorem Tok.word (h : Tok p v text p') (hp : NulFree p) (hv : v = LEX_STRING ∨ v = LEX_NUMBER) :
    ∃ t, text = some t ∧ (v = LEX_STRING → IsBody t) ∧ (v = LEX_NUMBER → IsNumber t) := by
  obtain ⟨w, word, q, -, hword, -, rfl⟩ := h
  have hfree : NulFree word := fun hmem => hp (by simp [hmem])
  cases hword with
  | @string t hbody =>
    have hfree' : NulFree t := fun hmem => hfree (by simp [hmem])
    exact ⟨t, rfl, fun _ => isBody_iff.mpr ⟨hfree', hbody⟩, fun hnumber => by cases hnumber⟩
  | number hnumber =>
    exact ⟨word, rfl, fun hstring => (by cases hstring), fun _ => isNumber_iff.mpr ⟨hfree, hnumber⟩⟩
  | _ => rcases hv with hv | hv <;> cases hv

theorem Tok.nulFree (h : Tok p v text p') (hp : NulFree p) : NulFree p' := by
  obtain ⟨w, word, q, -, -, hleft, rfl⟩ := h
  have hq : NulFree q := fun hmem => hp (by simp [hmem])
  by_cases hv : v = LEX_NUMBER
  · unfold Left at hleft
    rw [if_pos hv] at hleft
    obtain ⟨c, r, rfl, ⟨-, rfl⟩ | ⟨-, rfl⟩⟩ := hleft
    · exact fun hmem => hq (List.mem_cons_of_mem c hmem)
    · exact hq
  · rwa [(left_of_ne hv).mp hleft]

end Words

/-- A value that has nothing below it. -/
theorem proper_leaf {p p' : List UInt8} {v : LEX_VALUE} {text : Option (List UInt8)} {l : Label}
    (h : Leaf v text l) (htok : Tok p v text p') (hp : NulFree p) : Proper false (tree l nil) := by
  cases h with
  | string text =>
    obtain ⟨t, rfl, hbody, -⟩ := htok.word hp (.inl rfl)
    exact .string (hbody rfl) (.empty false)
  | number text =>
    obtain ⟨t, rfl, -, hnumber⟩ := htok.word hp (.inr rfl)
    exact .number (hnumber rfl) (.empty false)
  | true => exact .isTrue (.empty false)
  | false => exact .isFalse (.empty false)
  | null => exact .isNull (.empty false)

/-- One row of values beside another. -/
theorem Proper.append {inObject : Bool} {F G : Forest Label} (hF : Proper inObject F)
    (hG : Proper inObject G) : Proper inObject (F ++ G) := by
  induction hF with
  | empty inObject => exact hG
  | string ht _ ih => exact .string ht (ih hG)
  | number ht _ ih => exact .number ht (ih hG)
  | isTrue _ ih => exact .isTrue (ih hG)
  | isFalse _ ih => exact .isFalse (ih hG)
  | isNull _ ih => exact .isNull (ih hG)
  | array hK _ _ ih => exact .array hK (ih hG)
  | object hK _ _ ih => exact .object hK (ih hG)
  | field ht hK _ _ ih => exact .field ht hK (ih hG)

/-- What a part of a text means: labels or values, and a single value where one is expected. -/
def Part.Means : Part → Forest Label → Prop
  | value, T => Proper false T ∧ ∃ l K, T = tree l K
  | elements, T => Proper false T
  | moreElements, T => Proper false T
  | members, T => Proper true T
  | member, T => Proper true T
  | moreMembers, T => Proper true T

/-- **What is derived can be printed.** -/
theorem Spells.proper {part : Part} {p p' : List UInt8} {T : Forest Label}
    (h : Spells part p T p') (hp : NulFree p) : part.Means T ∧ NulFree p' := by
  induction h with
  | leaf htok hleaf => exact ⟨⟨proper_leaf hleaf htok hp, _, _, rfl⟩, htok.nulFree hp⟩
  | array htok _ ih =>
    obtain ⟨hK, hp'⟩ := ih (htok.nulFree hp)
    exact ⟨⟨.array hK (.empty false), _, _, rfl⟩, hp'⟩
  | object htok _ ih =>
    obtain ⟨hK, hp'⟩ := ih (htok.nulFree hp)
    exact ⟨⟨.object hK (.empty false), _, _, rfl⟩, hp'⟩
  | endArray htok | endElements htok => exact ⟨.empty false, htok.nulFree hp⟩
  | element _ _ ihT ihK =>
    obtain ⟨hT, hp₁⟩ := ihT hp
    obtain ⟨hK, hp'⟩ := ihK hp₁
    exact ⟨hT.1.append hK, hp'⟩
  | elementComma htok _ ih | memberComma htok _ ih => exact ih (htok.nulFree hp)
  | endObject htok | endMembers htok => exact ⟨.empty true, htok.nulFree hp⟩
  | fields _ ih => exact ih hp
  | field htok hcolon _ _ ihT ihK =>
    obtain ⟨t, rfl, hbody, -⟩ := htok.word hp (.inl rfl)
    obtain ⟨⟨hT, l, K, rfl⟩, hp₃⟩ := ihT (hcolon.nulFree (htok.nulFree hp))
    obtain ⟨hR, hp'⟩ := ihK hp₃
    exact ⟨.field (hbody rfl) hT hR, hp'⟩

/-- A document that is a text is proper. -/
theorem Document.proper {p : List UInt8} {K : Forest Label} (h : Document p K) (hp : NulFree p) :
    Proper true K := by
  obtain ⟨p₁, p', htok, hmembers, -⟩ := h
  exact (hmembers.proper (htok.nulFree hp)).1

/-- **A text that is parsed and printed again**: what is printed is a document that means the
same, and depends on nothing but what the text means. What has been parsed can be printed, since
the texts of its strings and numbers are those of tokens; the white space and the commas that the
grammar allows besides are gone. -/
theorem json_print_parsed {heap : JsonHeap} {W : List Doc} {pool : List ℕ} {text : List UInt8}
    {K : Forest Label} (fresh fresh' : ℕ → UInt8) (h : Holds heap W) (hpool : pool.Nodup)
    (hfree : ∀ p ∈ pool, heap p = none) (hdoc : Document (cstr text) K)
    (hlength : (labels K).length < pool.length) {fuel : ℕ}
    (hfuel : 4 * (cstr text).length + 3 < fuel) :
    ∃ s a printed fuel₀, json_parse_document fresh heap pool text fuel = .ok (s, JSON_OK, some a)
      ∧ (∀ fuel > fuel₀,
        json_tree_to_string fresh' s.heap (some a) fuel = .ok (JSON_OK, some printed))
      ∧ print false (tree (JSON_OBJECT, none) K) = (printed, true) ∧ NulFree printed
      ∧ Document printed K := by
  obtain ⟨s, a, F, hparse, rfl, -, hholds⟩ := hdoc.parse fresh h hpool hfree hlength hfuel
  have hproper := hdoc.proper (nulFree_cstr text)
  obtain ⟨printed, fuel₀, hprinted⟩ := hproper.to_string fresh' hholds List.mem_cons_self
  exact ⟨s, a, printed, fuel₀, hparse, hprinted⟩

theorem json_print_parsed_field : ∃ s a printed fuel₀,
    json_parse_document (fun _ => 205) (fun _ => none) [10, 20, 30]
      [32, 123, 34, 97, 34, 32, 58, 55, 10, 125] 60 = .ok (s, JSON_OK, some a)
    ∧ (∀ fuel > fuel₀,
      json_tree_to_string (fun _ => 204) s.heap (some a) fuel = .ok (JSON_OK, some printed))
    ∧ print false (tree (JSON_OBJECT, none) (tree (JSON_STRING, some (ascii "a"))
      (tree (JSON_NUMBER, some (ascii "7")) nil))) = (printed, true)
    ∧ NulFree printed ∧ Document printed (tree (JSON_STRING, some (ascii "a"))
      (tree (JSON_NUMBER, some (ascii "7")) nil)) := by
  have hdoc : Document (cstr [32, 123, 34, 97, 34, 32, 58, 55, 10, 125])
      (tree (JSON_STRING, some (ascii "a")) (tree (JSON_NUMBER, some (ascii "7")) nil)) := by
    have hlabel : Tok [34, 97, 34, 32, 58, 55, 10, 125] LEX_STRING (some (ascii "a"))
        [32, 58, 55, 10, 125] := tok_iff.mpr ⟨by decide, by decide, rfl⟩
    have hcolon : Tok [32, 58, 55, 10, 125] LEX_NAME_SEPARATOR none [55, 10, 125] :=
      tok_iff.mpr ⟨by decide, by decide, rfl⟩
    have hnumber : Tok [55, 10, 125] LEX_NUMBER (some (ascii "7")) [125] :=
      tok_iff.mpr ⟨by decide, by decide, rfl⟩
    have hend : Tok [125] LEX_END_OBJECT none [] := tok_iff.mpr ⟨by decide, by decide, rfl⟩
    exact ⟨_, [], tok_iff.mpr ⟨by decide, by decide, rfl⟩,
      .fields (.field hlabel hcolon (.leaf hnumber (.number _)) (.endMembers hend)),
      unfinished_iff.mpr rfl⟩
  exact json_print_parsed (fun _ => 205) (fun _ => 204) Holds.empty (by decide) (fun _ _ => rfl)
    hdoc (by decide) (by decide)

end Mjson
