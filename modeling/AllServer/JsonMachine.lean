import AllServer.JsonParser

/-!
# The JSON parser as a machine with a stack

`Mjson.Parsing` is the parser with the open nodes on a stack, each with the children it has so far,
and with its text as a list. What the code does in memory is what this machine does
with its stack: whatever text comes, in whatever pieces, no assertion fails, nothing is read
through a pointer that leads nowhere, and in memory is, beside the documents there were, one
document with everything that has been read (`Mjson.json_parse_fragment_eq`).
-/

namespace Mjson

open json_value_type LEX_VALUE json_status Forest

/-- **The parser with a stack**: the open nodes, the innermost one first. -/
structure Parsing where
  state : ℕ
  lex_state : ℕ
  text : Option (List UInt8)
  stack : List (Frame Label)
  pool : List ℕ

namespace Parsing

/-- The innermost open node is closed. -/
def up : List (Frame Label) → List (Frame Label)
  | f :: g :: stack => (g.1, g.2 ++ tree f.1 f.2) :: stack
  | stack => stack

/-- A new value is opened; it gets the text that has been read where it has one. -/
def add (s : Parsing) (type : json_value_type) (text : Bool) (next : Parsing → Parsing) :
    Parsing × Option json_status :=
  match s.pool with
  | [] => (s, some JSON_MEMORY)
  | p :: pool =>
    (next { s with
      text := if text then none else s.text
      stack := ((p, (type, if text then s.text else none)), nil) :: s.stack
      pool }, none)

/-- The label of a field. -/
def label (s : Parsing) : Parsing × Option json_status :=
  s.add JSON_STRING true ({ · with state := 5 })

/-- A value of a field that has nothing below it; it is closed and the field with it. -/
def field (s : Parsing) (type : json_value_type) (text : Bool) : Parsing × Option json_status :=
  s.add type text fun s => { s with state := 3, stack := up (up s.stack) }

/-- A value of an array that has nothing below it. -/
def element (s : Parsing) (type : json_value_type) (text : Bool) : Parsing × Option json_status :=
  s.add type text fun s => { s with state := 9, stack := up s.stack }

/-- The end of an object or of an array, and of the field it is the value of. -/
def close (s : Parsing) : Parsing :=
  match s.stack with
  | _ :: g :: _ =>
    if g.1.2.1 = JSON_ARRAY then { s with state := 9, stack := up s.stack }
    else { s with state := 3, stack := up (up s.stack) }
  | _ => { s with state := 99 }

/-- The states 1 and 7, which read nothing. -/
def settle (s : Parsing) : Parsing × Option json_status :=
  match s.state with
  | 1 => s.add JSON_OBJECT false ({ · with state := 2 })
  | 7 => s.add JSON_ARRAY false ({ · with state := 8 })
  | _ => (s, none)

/-- What is done with what the lexer returns. -/
def token (s : Parsing) (value : LEX_VALUE) : Parsing × Option json_status :=
  match s.state, value with
  | 0, LEX_BEGIN_OBJECT => ({ s with state := 1 }, none)
  | 0, _ => (s, some JSON_MALFORMED_DOCUMENT)
  | 2, LEX_STRING => s.label
  | 2, LEX_END_OBJECT => (s.close, none)
  | 2, LEX_MORE => (s, some JSON_INCOMPLETE_DOCUMENT)
  | 2, _ => (s, some JSON_MALFORMED_DOCUMENT)
  | 3, LEX_VALUE_SEPARATOR => ({ s with state := 4 }, none)
  | 3, LEX_END_OBJECT => (s.close, none)
  | 3, LEX_MORE => (s, some JSON_INCOMPLETE_DOCUMENT)
  | 3, _ => (s, some JSON_MALFORMED_DOCUMENT)
  | 4, LEX_STRING => s.label
  | 4, LEX_MORE => (s, some JSON_INCOMPLETE_DOCUMENT)
  | 4, LEX_INVALID_CHARACTER => (s, some JSON_ILLEGAL_CHARACTER)
  | 4, _ => (s, some JSON_MALFORMED_DOCUMENT)
  | 5, LEX_NAME_SEPARATOR => ({ s with state := 6 }, none)
  | 5, LEX_MORE => (s, some JSON_INCOMPLETE_DOCUMENT)
  | 5, _ => (s, some JSON_MALFORMED_DOCUMENT)
  | 6, LEX_STRING => s.field JSON_STRING true
  | 6, LEX_NUMBER => s.field JSON_NUMBER true
  | 6, LEX_TRUE => s.field JSON_TRUE false
  | 6, LEX_FALSE => s.field JSON_FALSE false
  | 6, LEX_NULL => s.field JSON_NULL false
  | 6, LEX_BEGIN_OBJECT => ({ s with state := 1 }, none)
  | 6, LEX_BEGIN_ARRAY => ({ s with state := 7 }, none)
  | 6, LEX_MORE => (s, some JSON_INCOMPLETE_DOCUMENT)
  | 6, LEX_MEMORY => (s, some JSON_MEMORY)
  | 6, LEX_INVALID_CHARACTER => (s, some JSON_ILLEGAL_CHARACTER)
  | 6, _ => (s, some JSON_MALFORMED_DOCUMENT)
  | 8, LEX_STRING => s.element JSON_STRING true
  | 8, LEX_NUMBER => s.element JSON_NUMBER true
  | 8, LEX_TRUE => s.element JSON_TRUE false
  | 8, LEX_FALSE => s.element JSON_FALSE false
  | 8, LEX_NULL => s.element JSON_NULL false
  | 8, LEX_BEGIN_ARRAY => ({ s with state := 7 }, none)
  | 8, LEX_END_ARRAY => (s.close, none)
  | 8, LEX_BEGIN_OBJECT => ({ s with state := 1 }, none)
  | 8, LEX_MORE => (s, some JSON_INCOMPLETE_DOCUMENT)
  | 8, LEX_INVALID_CHARACTER => (s, some JSON_ILLEGAL_CHARACTER)
  | 8, _ => (s, some JSON_MALFORMED_DOCUMENT)
  | 9, LEX_VALUE_SEPARATOR => ({ s with state := 8 }, none)
  | 9, LEX_END_ARRAY => (s.close, none)
  | 9, LEX_MORE => (s, some JSON_INCOMPLETE_DOCUMENT)
  | 9, _ => (s, some JSON_MALFORMED_DOCUMENT)
  | 99, LEX_MORE => (s, some JSON_WAITING_FOR_EOF)
  | 99, LEX_MEMORY => (s, some JSON_MEMORY)
  | 99, _ => (s, some JSON_MALFORMED_DOCUMENT)
  | _, _ => (s, some JSON_UNKNOWN_PROBLEM)

end Parsing

/-! ## The stack in memory -/

/-- The address of the innermost open node. -/
def cursor (stack : List (Frame Label)) : Option ℕ := stack.head?.map fun f => f.1.1

/-- The document that the stack is a place in, if there is one. -/
def opened : List (Frame Label) → List Doc
  | [] => []
  | f :: stack => [fill (f :: stack) nil]

section Stack

variable {heap : JsonHeap} {W : List Doc} {f : Frame Label} {stack : List (Frame Label)} {p : ℕ}

/-- **The innermost open node in memory.** -/
theorem Holds.top (h : Holds heap (opened (f :: stack) ++ W)) :
    ∃ n, heap f.1.1 = some n ∧ n.type = f.1.2.1 ∧ n.parent = cursor stack := by
  obtain ⟨r, l, kids, hfill, hdet⟩ := h.detached _ List.mem_cons_self
  unfold Detached at hdet
  rw [← hfill] at hdet
  obtain ⟨k, hk, hlabel, hparent⟩ := hdet.top
  obtain ⟨n, hn, rfl⟩ := nodes_eq_some.mp hk
  exact ⟨n, hn, congrArg Prod.fst hlabel, hparent⟩

/-- **A new value below the innermost open node.** -/
theorem Holds.push (h : Holds heap (opened (f :: stack) ++ W)) (hp : heap p = none)
    {type : json_value_type} (htakes : takes f.1.2.1 type nil = true) (text : Option (List UInt8)) :
    ∃ heap', json_insert_child
        (Function.update heap p (some ⟨type, text, none, none, none, none, none⟩))
        (some f.1.1) (some p)
        = .ok (heap', .JSON_OK)
      ∧ Holds heap' (opened (((p, (type, text)), nil) :: f :: stack) ++ W)
      ∧ ∀ q, q ≠ p → heap q = none → heap' q = none := by
  have hnodup : (addrs (fill (f :: stack) nil)).Nodup :=
    (List.nodup_flatMap.mp h.nodup).1 _ List.mem_cons_self
  have h₁ : Holds _ (fill (f :: stack) nil :: tree (p, (type, text)) nil :: W) :=
    (h.update hp type text).perm (List.Perm.swap _ _ _)
  obtain ⟨heap', hinsert, h'⟩ := h₁.insert (find_top hnodup)
  rw [if_pos htakes] at hinsert h'
  rw [pushAt_top hnodup, ← fill_open] at h'
  refine ⟨heap', hinsert, h', fun q hqp hq => ?_⟩
  have hperm : ((fill (((p, (type, text)), nil) :: f :: stack) nil :: W).flatMap addrs).Perm
      (p :: (fill (f :: stack) nil :: W).flatMap addrs) := by
    rw [List.flatMap_cons, List.flatMap_cons, ← List.cons_append]
    refine List.Perm.append_right _ ((addrs_fill_perm _ _).trans ?_)
    rw [outer_cons]
    exact ((addrs_fill_perm (f :: stack) nil).symm).cons p
  rw [← Option.not_isSome_iff_eq_none, h'.isSome, hperm.mem_iff, List.mem_cons, not_or]
  refine ⟨hqp, fun hmem => ?_⟩
  have hsome := (h.isSome q).mpr hmem
  rw [hq] at hsome
  cases hsome

@[simp] theorem opened_up (stack : List (Frame Label)) :
    opened (Parsing.up stack) = opened stack := by
  cases stack with
  | nil => rfl
  | cons f stack =>
    cases stack with
    | nil => rfl
    | cons g stack => exact congrArg (fun F => [F]) (fill_close f g stack)

end Stack

/-- **What may be inside of what**: a label in an object, and the others in an array or behind a
label. -/
def Nested : List (Frame Label) → Prop
  | [] => False
  | [f] => f.1.2.1 = JSON_OBJECT
  | f :: g :: stack =>
    (g.1.2.1 = JSON_OBJECT ∧ f.1.2.1 = JSON_STRING
      ∨ (g.1.2.1 = JSON_STRING ∨ g.1.2.1 = JSON_ARRAY)
        ∧ (f.1.2.1 = JSON_OBJECT ∨ f.1.2.1 = JSON_ARRAY)) ∧ Nested (g :: stack)

/-- The innermost open node is one of these. -/
def OpenAt (stack : List (Frame Label)) (types : List json_value_type) : Prop :=
  ∃ f rest, stack = f :: rest ∧ f.1.2.1 ∈ types ∧ Nested (f :: rest)

/-- **The states of the parser**, and what it is inside of in each of them. -/
def Parsing.WF (a : Parsing) : Prop :=
  match a.state with
  | 0 => a.stack = []
  | 1 => a.stack = [] ∨ OpenAt a.stack [JSON_STRING, JSON_ARRAY]
  | 2 => OpenAt a.stack [JSON_OBJECT]
  | 3 => OpenAt a.stack [JSON_OBJECT]
  | 4 => OpenAt a.stack [JSON_OBJECT]
  | 5 => OpenAt a.stack [JSON_STRING]
  | 6 => OpenAt a.stack [JSON_STRING]
  | 7 => OpenAt a.stack [JSON_STRING, JSON_ARRAY]
  | 8 => OpenAt a.stack [JSON_ARRAY]
  | 9 => OpenAt a.stack [JSON_ARRAY]
  | 99 => ∃ f, a.stack = [f] ∧ f.1.2.1 = JSON_OBJECT
  | _ => False

/-- Only what the open nodes are counts. -/
theorem nested_children {a : ℕ × Label} {K K' : Doc} {stack : List (Frame Label)} :
    Nested ((a, K) :: stack) ↔ Nested ((a, K') :: stack) := by
  cases stack <;> exact Iff.rfl

/-- A label is in an object. -/
theorem nested_label {f : Frame Label} {rest : List (Frame Label)} (h : Nested (f :: rest))
    (hf : f.1.2.1 = JSON_STRING) :
    ∃ g rest', rest = g :: rest' ∧ g.1.2.1 = JSON_OBJECT ∧ Nested (g :: rest') := by
  cases rest with
  | nil => exact absurd (hf.symm.trans h) (by decide)
  | cons g rest' =>
    obtain ⟨⟨hg, -⟩ | ⟨-, hf' | hf'⟩, hnested⟩ := h
    · exact ⟨g, rest', rfl, hg, hnested⟩
    · exact absurd (hf.symm.trans hf') (by decide)
    · exact absurd (hf.symm.trans hf') (by decide)

/-! ## The code does what the machine does -/

/-- The machine has the same documents in memory, and is inside of the same nodes. -/
structure Stands (W : List Doc) (s : Parse) (a : Parsing) : Prop where
  cursor : s.info.cursor = cursor a.stack
  pool : s.pool = a.pool
  nodup : a.pool.Nodup
  free : ∀ p ∈ a.pool, s.heap p = none
  holds : Holds s.heap (opened a.stack ++ W)

/-- The machine has read the same of a token. -/
structure Reads (s : Parse) (a : Parsing) : Prop where
  lex_state : s.info.lex_state = a.lex_state
  text : LexText s.info.lex_text a.text
  hasText : lexer.hasText a.lex_state = true → a.text.isSome = true

/-- **The machine is where the code is.** -/
structure Rel (W : List Doc) (s : Parse) (a : Parsing) : Prop extends Stands W s a, Reads s a where
  state : s.info.state = a.state
  wf : a.WF

/-- The answers after which the parser may be called again. -/
def goesOn (error : json_status) : Bool :=
  error = JSON_INCOMPLETE_DOCUMENT ∨ error = JSON_WAITING_FOR_EOF

/-- The same after a step that may return a status. -/
structure RelOut (W : List Doc) (x : Parse × Option json_status)
    (y : Parsing × Option json_status) : Prop where
  status : x.2 = y.2
  stands : Stands W x.1 y.1
  rel : (∀ error, y.2 = some error → goesOn error = true) → Rel W x.1 y.1

section Step

variable {W : List Doc} {s : Parse} {a : Parsing} {f : Frame Label} {rest : List (Frame Label)}

theorem RelOut.of_rel (h : Rel W s a) : RelOut W (s, none) (a, none) :=
  ⟨rfl, h.toStands, fun _ => h⟩

theorem RelOut.of_stands (h : Stands W s a) {error : json_status} (herror : goesOn error = false) :
    RelOut W (s, some error) (a, some error) :=
  ⟨rfl, h, fun hgoes => absurd ((hgoes error rfl).symm.trans herror) (by decide)⟩

/-- **A new value in memory**, where there is memory for it. -/
theorem insert_eq (h : Stands W s a) (hstack : a.stack = f :: rest) {type : json_value_type}
    (htakes : takes f.1.2.1 type nil = true) {text : Bool}
    (htext : text = true → LexText s.info.lex_text a.text ∧ a.text.isSome = true)
    (next : Parse → ℕ → Except Fault (Parse × Option json_status)) :
    (a.pool = [] → json_parse_fragment.insert s type text next = .ok (s, some JSON_MEMORY))
    ∧ ∀ p pool, a.pool = p :: pool → ∃ heap',
      json_parse_fragment.insert s type text next
        = next ⟨heap', pool, { s.info with
            lex_text := if text then none else s.info.lex_text }⟩ p
      ∧ Holds heap' (opened (((p, (type, if text then a.text else none)), nil) :: a.stack) ++ W)
      ∧ ∀ q ∈ pool, heap' q = none := by
  constructor
  · intro hpool
    unfold json_parse_fragment.insert
    rw [h.pool, hpool]
    rfl
  · intro p pool hpool
    have hfree := h.free
    have hnodup := h.nodup
    rw [hpool, List.forall_mem_cons] at hfree
    rw [hpool, List.nodup_cons] at hnodup
    have hholds := h.holds
    rw [hstack] at hholds
    obtain ⟨heap', hinsert, h', hother⟩ :=
      hholds.push hfree.1 htakes (if text then a.text else none)
    refine ⟨heap', ?_, hstack ▸ h', fun q hq => hother q ?_ (hfree.2 q hq)⟩
    · unfold json_parse_fragment.insert
      rw [h.pool, hpool]
      dsimp only [List.head?_cons, json_new_value]
      have hcursor : s.info.cursor = some f.1.1 := h.cursor.trans (by rw [hstack]; rfl)
      cases text with
      | false =>
        rw [if_neg Bool.false_ne_true] at hinsert ⊢
        rw [ok_bind, hcursor]
        dsimp only [List.tail_cons]
        rw [hinsert]
        rfl
      | true =>
        obtain ⟨hlex, hsome⟩ := htext rfl
        rw [if_pos rfl] at hinsert ⊢
        obtain ⟨t, ht⟩ := Option.isSome_iff_exists.mp hsome
        rw [ht] at hlex hinsert
        cases hrcs : s.info.lex_text with
        | none =>
          rw [hrcs] at hlex
          cases hlex
        | some rcs =>
          rw [hrcs] at hlex
          cases hlex with
          | some hlex =>
            dsimp only
            rw [hlex.1.unwrap hlex.2, ok_bind, Heap.store_eq_ok (by rw [Function.update_self]; rfl),
              ok_bind, Heap.modify_update, pure_bind, hcursor]
            dsimp only [List.tail_cons]
            rw [hinsert]
            rfl
    · exact ne_of_mem_of_not_mem hq hnodup.1

/-- The code with a new value, before it has gone anywhere. -/
structure Added (s : Parse) (a : Parsing) (type : json_value_type) (text : Bool) (p : ℕ)
    (s' : Parse) (a' : Parsing) : Prop where
  info : s'.info = { s.info with lex_text := if text then none else s.info.lex_text }
  machine : ∃ pool, a' = { a with
    text := if text then none else a.text
    stack := ((p, (type, if text then a.text else none)), nil) :: a.stack
    pool }

theorem Added.p_eq {type : json_value_type} {text : Bool} {p : ℕ} {s' : Parse} {a' : Parsing}
    (h : Added s a type text p s' a') : s'.info.p = s.info.p := by rw [h.info]

theorem Added.cursor_eq {type : json_value_type} {text : Bool} {p : ℕ} {s' : Parse} {a' : Parsing}
    (h : Added s a type text p s' a') : s'.info.cursor = s.info.cursor := by rw [h.info]

/-- **A new value, and what is done with it.** -/
theorem insert_rel (h : Stands W s a) (hstack : a.stack = f :: rest) {type : json_value_type}
    (htakes : takes f.1.2.1 type nil = true) {text : Bool}
    (htext : text = true → LexText s.info.lex_text a.text ∧ a.text.isSome = true)
    {next : Parse → ℕ → Except Fault (Parse × Option json_status)} {next' : Parsing → Parsing}
    (hnext : ∀ s' a' p, Added s a type text p s' a' → Stands W (s'.moveTo (some p)) a' →
      ∃ x, next s' p = .ok x ∧ RelOut W x (next' a', none) ∧ x.1.info.p = s.info.p) :
    ∃ x, json_parse_fragment.insert s type text next = .ok x
      ∧ RelOut W x (a.add type text next') ∧ x.1.info.p = s.info.p := by
  obtain ⟨hfull, hroom⟩ := insert_eq h hstack htakes htext next
  unfold Parsing.add
  cases hpool : a.pool with
  | nil => exact ⟨_, hfull hpool, RelOut.of_stands h rfl, rfl⟩
  | cons p pool =>
    obtain ⟨heap', hinsert, hholds, hfree⟩ := hroom p pool hpool
    rw [hinsert]
    refine hnext _ _ p ⟨rfl, pool, rfl⟩ ⟨rfl, rfl, ?_, hfree, hholds⟩
    exact (List.nodup_cons.mp (hpool ▸ h.nodup)).2

/-- What is read goes on after a new value. -/
theorem Reads.added (h : Reads s a) {type : json_value_type} {text : Bool} {p : ℕ} {s' : Parse}
    {a' : Parsing} (hadd : Added s a type text p s' a') (hlex : text = true → a.lex_state = 0) :
    Reads s' a' := by
  have hinfo := hadd.info
  obtain ⟨pool, rfl⟩ := hadd.machine
  refine ⟨?_, ?_, ?_⟩
  · rw [hinfo]
    exact h.lex_state
  · rw [hinfo]
    cases text with
    | true => exact Option.Rel.none
    | false => exact h.text
  · cases text with
    | true =>
      intro hhas
      rw [show lexer.hasText a.lex_state = false by rw [hlex rfl]; rfl] at hhas
      cases hhas
    | false => exact h.hasText

/-- The innermost open node is closed: the code goes to its parent. -/
theorem Stands.up {g : Frame Label} (h : Stands W s a) (hstack : a.stack = f :: g :: rest) :
    Stands W (s.moveTo (some g.1.1)) { a with stack := Parsing.up a.stack } where
  cursor := by rw [hstack]; rfl
  pool := h.pool
  nodup := h.nodup
  free := h.free
  holds := by rw [opened_up]; exact h.holds

/-- The node at the cursor. -/
theorem Stands.top (h : Stands W s a) (hstack : a.stack = f :: rest) :
    ∃ n, s.heap.load s.info.cursor = .ok n ∧ n.type = f.1.2.1 ∧ n.parent = Mjson.cursor rest := by
  obtain ⟨n, hn, htype, hparent⟩ := Holds.top (hstack ▸ h.holds)
  exact ⟨n, by rw [h.cursor, hstack]; exact Heap.load_eq_ok hn, htype, hparent⟩

/-- **The label of a field.** -/
theorem label_rel (h : Stands W s a) (hread : Reads s a) (hlex : a.lex_state = 0)
    (htext : a.text.isSome = true) (hopen : OpenAt a.stack [JSON_OBJECT]) :
    ∃ x, json_parse_fragment.label s = .ok x ∧ RelOut W x a.label ∧ x.1.info.p = s.info.p := by
  obtain ⟨f, rest, hstack, htype, hnested⟩ := hopen
  have htype' : f.1.2.1 = JSON_OBJECT := List.mem_singleton.mp htype
  refine insert_rel h hstack (by rw [htype']; rfl) (fun _ => ⟨hread.text, htext⟩)
    fun s' a' p hadd hstands => ?_
  have hread' := hread.added hadd fun _ => hlex
  have hp := hadd.p_eq
  obtain ⟨pool, rfl⟩ := hadd.machine
  refine ⟨_, rfl, RelOut.of_rel ⟨⟨hstands.cursor, hstands.pool, hstands.nodup, hstands.free,
    hstands.holds⟩, ⟨hread'.lex_state, hread'.text, hread'.hasText⟩, rfl, ?_⟩, ?_⟩
  · refine ⟨_, _, rfl, List.mem_singleton_self _, ?_⟩
    rw [hstack]
    exact ⟨.inl ⟨htype', rfl⟩, hnested⟩
  · exact hp

/-- **A value of an array that has nothing below it.** -/
theorem element_rel (h : Stands W s a) (hread : Reads s a) (hlex : a.lex_state = 0)
    {type : json_value_type} {text : Bool} (htext : text = true → a.text.isSome = true)
    (hopen : OpenAt a.stack [JSON_ARRAY]) :
    ∃ x, json_parse_fragment.element s type text = .ok x ∧ RelOut W x (a.element type text)
      ∧ x.1.info.p = s.info.p := by
  obtain ⟨f, rest, hstack, htype, hnested⟩ := hopen
  have htype' : f.1.2.1 = JSON_ARRAY := List.mem_singleton.mp htype
  refine insert_rel h hstack (by rw [htype']; cases type <;> rfl) (fun h => ⟨hread.text, htext h⟩)
    fun s' a' p hadd hstands => ?_
  have hread' := hread.added hadd fun _ => hlex
  have hp := hadd.p_eq
  have hcursor := hadd.cursor_eq.trans (h.cursor.trans (congrArg cursor hstack))
  obtain ⟨pool, rfl⟩ := hadd.machine
  have hup := hstands.up (congrArg (List.cons _) hstack)
  refine ⟨_, rfl, RelOut.of_rel ⟨⟨?_, hup.pool, hup.nodup, hup.free, hup.holds⟩,
    ⟨hread'.lex_state, hread'.text, hread'.hasText⟩, rfl, ?_⟩, ?_⟩
  · exact hcursor.trans hup.cursor
  · rw [hstack]
    exact ⟨_, _, rfl, htype, nested_children.mp hnested⟩
  · exact hp

/-- **A value of a field that has nothing below it.** -/
theorem field_rel (h : Stands W s a) (hread : Reads s a) (hlex : a.lex_state = 0)
    {type : json_value_type} {text : Bool} (htext : text = true → a.text.isSome = true)
    (hopen : OpenAt a.stack [JSON_STRING]) :
    ∃ x, json_parse_fragment.field s type text = .ok x ∧ RelOut W x (a.field type text)
      ∧ x.1.info.p = s.info.p := by
  obtain ⟨f, rest, hstack, htype, hnested⟩ := hopen
  have htype' : f.1.2.1 = JSON_STRING := List.mem_singleton.mp htype
  -- the label is in an object
  obtain ⟨g, rest', rfl, hg, hnested'⟩ := nested_label hnested htype'
  refine insert_rel h hstack (by rw [htype']; cases type <;> rfl) (fun h => ⟨hread.text, htext h⟩)
    fun s' a' p hadd hstands => ?_
  have hread' := hread.added hadd fun _ => hlex
  have hp := hadd.p_eq
  have hcursor := hadd.cursor_eq.trans (h.cursor.trans (congrArg cursor hstack))
  obtain ⟨pool, rfl⟩ := hadd.machine
  have hup := hstands.up (congrArg (List.cons _) hstack)
  rw [hstack] at hup
  obtain ⟨n, hn, -, hparent⟩ := hup.top rfl
  have hup' := hup.up rfl
  have hn' : s'.heap.load s'.info.cursor = .ok n := by
    rw [hcursor]
    exact hn
  have hparent' : n.parent = some g.1.1 := hparent
  refine ⟨((s'.moveTo (some g.1.1)).goto 3, none), ?_, RelOut.of_rel ⟨⟨?_, ?_, ?_, ?_, ?_⟩,
    ⟨hread'.lex_state, hread'.text, hread'.hasText⟩, rfl, ?_⟩, hp⟩
  · rw [hn', ok_bind, hparent', if_neg (Option.some_ne_none _)]
    rfl
  · rw [hstack]
    exact hup'.cursor
  · exact hup'.pool
  · exact hup'.nodup
  · exact hup'.free
  · rw [hstack]
    exact hup'.holds
  · rw [hstack]
    exact ⟨_, _, rfl, List.mem_singleton.mpr hg, nested_children.mp hnested'⟩

/-- **The end of an object or of an array.** A label always has a parent, so what the code does
where it has none does not matter. -/
theorem close_rel (h : Stands W s a) (hread : Reads s a) {type : json_value_type}
    (htype : type = JSON_OBJECT ∨ type = JSON_ARRAY) (hopen : OpenAt a.stack [type])
    (orphan : Parse → Except Fault (Parse × Option json_status)) :
    ∃ x, json_parse_fragment.close s orphan = .ok x ∧ RelOut W x (a.close, none)
      ∧ x.1.info.p = s.info.p := by
  obtain ⟨f, rest, hstack, hf, hnested⟩ := hopen
  obtain rfl := List.mem_singleton.mp hf
  obtain ⟨n, hn, -, hparent⟩ := h.top hstack
  cases rest with
  | nil =>
    -- the document is finished
    have hparent' : n.parent = none := hparent
    have hclose : json_parse_fragment.close s orphan = .ok (s.goto 99, none) := by
      unfold json_parse_fragment.close
      rw [hn, ok_bind, if_pos hparent']
      rfl
    have habs : a.close = { a with state := 99 } := by
      unfold Parsing.close
      rw [hstack]
    rw [habs]
    refine ⟨_, hclose, RelOut.of_rel ⟨⟨h.cursor, h.pool, h.nodup, h.free, h.holds⟩,
      ⟨hread.lex_state, hread.text, hread.hasText⟩, rfl, ?_⟩, rfl⟩
    exact ⟨f, hstack, hnested⟩
  | cons g rest =>
    have hparent' : n.parent = some g.1.1 := hparent
    have hup := h.up hstack
    obtain ⟨k, hk, hktype, hkparent⟩ := hup.top (by rw [hstack]; rfl)
    have hk' : s.heap.load (some g.1.1) = .ok k := hk
    have hktype' : k.type = g.1.2.1 := hktype
    obtain ⟨hin, hnested'⟩ := hnested
    by_cases hg : g.1.2.1 = JSON_ARRAY
    · -- it is a value of an array
      have hclose : json_parse_fragment.close s orphan
          = .ok ((s.moveTo (some g.1.1)).goto 9, none) := by
        unfold json_parse_fragment.close
        rw [hn, ok_bind, hparent', if_neg (Option.some_ne_none _)]
        dsimp only [Parse.moveTo]
        rw [hk', ok_bind, hktype', hg]
        rfl
      have habs : a.close = { a with state := 9, stack := Parsing.up a.stack } := by
        unfold Parsing.close
        rw [hstack]
        exact if_pos hg
      rw [habs]
      refine ⟨_, hclose, RelOut.of_rel ⟨⟨hup.cursor, hup.pool, hup.nodup, hup.free, hup.holds⟩,
        ⟨hread.lex_state, hread.text, hread.hasText⟩, rfl, ?_⟩, rfl⟩
      rw [hstack]
      exact ⟨_, _, rfl, List.mem_singleton.mpr hg, nested_children.mp hnested'⟩
    · -- it is the value of a field, which is in an object
      have hg' : g.1.2.1 = JSON_STRING := by
        rcases hin with ⟨-, hf'⟩ | ⟨hg' | hg', -⟩
        · rcases htype with heq | heq
          · exact absurd (heq.symm.trans hf') (by decide)
          · exact absurd (heq.symm.trans hf') (by decide)
        · exact hg'
        · exact absurd hg' hg
      obtain ⟨o, rest', rfl, ho, hnested''⟩ := nested_label hnested' hg'
      have hup' := hup.up (by rw [hstack]; rfl)
      obtain ⟨m, hm, hmtype, -⟩ := hup'.top (by rw [hstack]; rfl)
      have hkparent' : k.parent = some o.1.1 := hkparent
      have hm' : s.heap.load (some o.1.1) = .ok m := hm
      have hmtype' : m.type = JSON_OBJECT := hmtype.trans ho
      have hclose : json_parse_fragment.close s orphan
          = .ok (((s.moveTo (some g.1.1)).moveTo (some o.1.1)).goto 3, none) := by
        unfold json_parse_fragment.close
        rw [hn, ok_bind, hparent', if_neg (Option.some_ne_none _)]
        dsimp only [Parse.moveTo]
        rw [hk', ok_bind, hktype', hg']
        dsimp only
        rw [hkparent', if_neg (Option.some_ne_none _), hm', ok_bind, hmtype',
          if_neg (not_not_intro rfl)]
        rfl
      have habs : a.close
          = { a with state := 3, stack := Parsing.up (Parsing.up a.stack) } := by
        unfold Parsing.close
        rw [hstack]
        exact if_neg hg
      rw [habs]
      refine ⟨_, hclose, RelOut.of_rel ⟨⟨hup'.cursor, hup'.pool, hup'.nodup, hup'.free, hup'.holds⟩,
        ⟨hread.lex_state, hread.text, hread.hasText⟩, rfl, ?_⟩, rfl⟩
      rw [hstack]
      exact ⟨_, _, rfl, List.mem_singleton.mpr ho, nested_children.mp hnested''⟩

/-- **An object or an array is opened**: the first one is the document, and the others are hung into
it. -/
theorem open_rel (h : Stands W s a) (hread : Reads s a) {type : json_value_type} {state : ℕ}
    (htype : type = JSON_OBJECT ∨ type = JSON_ARRAY)
    (hopen : a.stack = [] ∧ type = JSON_OBJECT ∨ OpenAt a.stack [JSON_STRING, JSON_ARRAY])
    (hwf : ∀ a' : Parsing, a'.state = state → OpenAt a'.stack [type] → a'.WF) :
    ∃ x, json_parse_fragment.openValue s type state = .ok x
      ∧ RelOut W x (a.add type false ({ · with state })) ∧ x.1.info.p = s.info.p := by
  unfold json_parse_fragment.openValue
  rcases hopen with ⟨hstack, rfl⟩ | ⟨f, rest, hstack, hf, hnested⟩
  · have hcursor : s.info.cursor = none := h.cursor.trans (by rw [hstack]; rfl)
    rw [if_pos hcursor, h.pool]
    unfold Parsing.add
    cases hpool : a.pool with
    | nil => exact ⟨_, rfl, RelOut.of_stands h rfl, rfl⟩
    | cons p pool =>
      have hfree := h.free
      have hnodup := h.nodup
      rw [hpool, List.forall_mem_cons] at hfree
      rw [hpool, List.nodup_cons] at hnodup
      have hholds := h.holds
      rw [hstack] at hholds ⊢
      refine ⟨_, rfl, RelOut.of_rel ⟨⟨rfl, rfl, hnodup.2, fun q hq => ?_, ?_⟩,
        ⟨hread.lex_state, hread.text, hread.hasText⟩, rfl, ?_⟩, rfl⟩
      · exact (Function.update_of_ne (ne_of_mem_of_not_mem hq hnodup.1) _ _).trans (hfree.2 q hq)
      · exact hholds.update hfree.1 JSON_OBJECT none
      · exact hwf _ rfl ⟨_, _, rfl, List.mem_singleton_self _, rfl⟩
  · have hcursor : s.info.cursor = some f.1.1 := h.cursor.trans (by rw [hstack]; rfl)
    obtain ⟨n, hn, hntype, -⟩ := h.top hstack
    have hf' : f.1.2.1 = JSON_STRING ∨ f.1.2.1 = JSON_ARRAY := by simpa using hf
    rw [if_neg (hcursor ▸ Option.some_ne_none _), hn, ok_bind,
      show assert (n.type = JSON_STRING ∨ n.type = JSON_ARRAY) = .ok () from if_pos (hntype ▸ hf'),
      ok_bind]
    refine insert_rel h hstack ?_ (fun hfalse => absurd hfalse Bool.false_ne_true)
      fun s' a' p hadd hstands => ?_
    · rcases htype with rfl | rfl <;> rcases hf' with hf' | hf' <;> rw [hf'] <;> rfl
    · have hread' := hread.added hadd fun hfalse => absurd hfalse Bool.false_ne_true
      have hp := hadd.p_eq
      obtain ⟨pool, rfl⟩ := hadd.machine
      refine ⟨_, rfl, RelOut.of_rel ⟨⟨hstands.cursor, hstands.pool, hstands.nodup, hstands.free,
        hstands.holds⟩, ⟨hread'.lex_state, hread'.text, hread'.hasText⟩, rfl, ?_⟩, hp⟩
      refine hwf _ rfl ⟨_, _, rfl, List.mem_singleton_self _, ?_⟩
      rw [hstack]
      exact ⟨.inr ⟨hf', htype⟩, hnested⟩

variable (fresh : ℕ → UInt8) (buffer : List UInt8)

/-- **A turn that reads nothing.** -/
theorem step_settle (h : Rel W s a) (hstate : a.state = 1 ∨ a.state = 7) :
    ∃ x, json_parse_fragment.step fresh buffer s = .ok x ∧ RelOut W x a.settle
      ∧ x.1.info.p = s.info.p := by
  have hwf := h.wf
  unfold json_parse_fragment.step Parsing.settle
  unfold Parsing.WF at hwf
  rw [h.state]
  rcases hstate with hstate | hstate
  · rw [hstate] at hwf ⊢
    refine open_rel h.toStands h.toReads (.inl rfl) (hwf.imp_left fun h => ⟨h, rfl⟩) ?_
    intro a' ha' hopen
    unfold Parsing.WF
    rw [ha']
    exact hopen
  · rw [hstate] at hwf ⊢
    refine open_rel h.toStands h.toReads (.inr rfl) (.inr hwf) ?_
    intro a' ha' hopen
    unfold Parsing.WF
    rw [ha']
    exact hopen

/-- A token that is no error leaves the lexer at the start of the next one. -/
theorem lex_state_eq_zero (p : List UInt8) (state : ℕ) (text : Option (List UInt8))
    (hmore : (lex p state text).1 ≠ LEX_MORE)
    (hinvalid : (lex p state text).1 ≠ LEX_INVALID_CHARACTER) : (lex p state text).2.2.1 = 0 := by
  induction p generalizing state text with
  | nil => exact absurd rfl hmore
  | cons c p ih =>
    rw [lex] at hmore hinvalid ⊢
    cases haction : lexer.action state c with
    | skip state' =>
      rw [haction] at hmore hinvalid
      exact ih _ _ hmore hinvalid
    | start first state' =>
      rw [haction] at hmore hinvalid
      exact ih _ _ hmore hinvalid
    | cat state' =>
      rw [haction] at hmore hinvalid
      exact ih _ _ hmore hinvalid
    | token value skipped => rfl
    | invalid skipped =>
      rw [haction] at hinvalid
      exact absurd rfl hinvalid

/-- What the lexer returns only with a text. -/
theorem lex_rel {p : List UInt8} (h : Rel W s a) (hp : s.info.p = some p) (hfree : NulFree p) :
    ∃ s', json_parse_fragment.lex fresh buffer s = .ok ((lex p a.lex_state a.text).1, s')
      ∧ s'.info.p = (lex p a.lex_state a.text).2.1
      ∧ Stands W s' { a with lex_state := (lex p a.lex_state a.text).2.2.1
                             text := (lex p a.lex_state a.text).2.2.2 }
      ∧ Reads s' { a with lex_state := (lex p a.lex_state a.text).2.2.1
                          text := (lex p a.lex_state a.text).2.2.2 }
      ∧ s'.info.state = a.state
      ∧ ((lex p a.lex_state a.text).1 = LEX_STRING ∨ (lex p a.lex_state a.text).1 = LEX_NUMBER →
        (lex p a.lex_state a.text).2.2.2.isSome = true) := by
  obtain ⟨text', hlexer, htext', hhas, hsome⟩ := lexer_eq fresh h.text h.hasText hfree
  refine ⟨⟨s.heap, s.pool, { s.info with
      p := (lex p a.lex_state a.text).2.1
      lex_state := (lex p a.lex_state a.text).2.2.1
      lex_text := text' }⟩, ?_, rfl, ⟨h.cursor, h.pool, h.nodup, h.free, h.holds⟩,
    ⟨rfl, htext', hhas⟩, h.state, hsome⟩
  unfold json_parse_fragment.lex lexer
  rw [hp, h.lex_state, Option.getD_some, hlexer]
  rfl

theorem Stands.expect (h : Stands W s a) {type : json_value_type} (hopen : OpenAt a.stack [type]) :
    json_parse_fragment.expect s type = .ok () := by
  obtain ⟨f, rest, hstack, hf, -⟩ := hopen
  obtain ⟨n, hn, htype, -⟩ := h.top hstack
  have hcursor : s.info.cursor = some f.1.1 := h.cursor.trans (by rw [hstack]; rfl)
  unfold json_parse_fragment.expect
  rw [show assert (s.info.cursor ≠ none) = .ok () from if_pos (hcursor ▸ Option.some_ne_none _),
    ok_bind, hn, ok_bind]
  exact if_pos (htype.trans (List.mem_singleton.mp hf))

/-- An answer after which the parser is not called again. -/
theorem stop_rel (h : Stands W s a) {error : json_status} (herror : goesOn error = false) :
    ∃ x, (pure (s, some error) : Except Fault (Parse × Option json_status)) = .ok x
      ∧ RelOut W x (a, some error) ∧ x.1.info.p = s.info.p :=
  ⟨_, rfl, RelOut.of_stands h herror, rfl⟩

/-- The end of the text. -/
theorem more_rel (h : Stands W s a) (hread : Reads s a) (hstate : s.info.state = a.state)
    (hwf : a.WF) (error : json_status) :
    ∃ x, (pure (s, some error) : Except Fault (Parse × Option json_status)) = .ok x
      ∧ RelOut W x (a, some error) ∧ x.1.info.p = s.info.p :=
  ⟨_, rfl, ⟨rfl, h, fun _ => ⟨h, hread, hstate, hwf⟩⟩, rfl⟩

theorem goto_rel (h : Stands W s a) (hread : Reads s a) {state : ℕ}
    (hwf : Parsing.WF { a with state }) :
    ∃ x, (pure (s.goto state, none) : Except Fault (Parse × Option json_status)) = .ok x
      ∧ RelOut W x ({ a with state }, none) ∧ x.1.info.p = s.info.p :=
  ⟨_, rfl, RelOut.of_rel ⟨⟨h.cursor, h.pool, h.nodup, h.free, h.holds⟩,
    ⟨hread.lex_state, hread.text, hread.hasText⟩, rfl, hwf⟩, rfl⟩

theorem OpenAt.mono {stack : List (Frame Label)} {types types' : List json_value_type}
    (h : OpenAt stack types) (hsub : types ⊆ types') : OpenAt stack types' := by
  obtain ⟨f, rest, hstack, hf, hnested⟩ := h
  exact ⟨f, rest, hstack, hsub hf, hnested⟩

variable (W s) in
/-- **A token has been read**, and the code has not yet looked at where it is: the machine `b`
differs from what there was before in the lexer alone. -/
structure HasRead (s' : Parse) (b : Parsing) (value : LEX_VALUE) : Prop where
  lex : json_parse_fragment.lex fresh buffer s = .ok (value, s')
  stands : Stands W s' b
  reads : Reads s' b
  state : s.info.state = b.state
  state' : s'.info.state = b.state
  wf : b.WF
  expect : ∀ type, OpenAt b.stack [type] → json_parse_fragment.expect s type = .ok ()
  /-- Only an unfinished token, or an invalid one, leaves the lexer inside of it. -/
  settled : value ≠ LEX_MORE → value ≠ LEX_INVALID_CHARACTER → b.lex_state = 0
  isSome : value = LEX_STRING ∨ value = LEX_NUMBER → b.text.isSome = true

theorem hasRead_lex {p : List UInt8} (h : Rel W s a) (hp : s.info.p = some p) (hfree : NulFree p) :
    ∃ s', HasRead W s fresh buffer s'
        { a with lex_state := (Mjson.lex p a.lex_state a.text).2.2.1
                 text := (Mjson.lex p a.lex_state a.text).2.2.2 }
        (Mjson.lex p a.lex_state a.text).1
      ∧ s'.info.p = (Mjson.lex p a.lex_state a.text).2.1 := by
  obtain ⟨s', hlex, hp', hstands, hread, hstate', hsome⟩ := lex_rel fresh buffer h hp hfree
  exact ⟨s', ⟨hlex, hstands, hread, h.state, hstate', h.wf, fun _ => h.expect,
    lex_state_eq_zero p a.lex_state a.text, hsome⟩, hp'⟩

section HasRead

variable {fresh buffer} {s' : Parse} {b : Parsing} {value : LEX_VALUE}

/-- **A token before the document or behind it.** -/
theorem HasRead.step_outside (h : Rel W s a) (hread : HasRead W s fresh buffer s' b value)
    (hstack : a.stack = b.stack) (hstate : b.state = 0 ∨ b.state = 99) :
    ∃ x, json_parse_fragment.step fresh buffer s = .ok x ∧ RelOut W x (Parsing.token b value)
      ∧ x.1.info.p = s'.info.p := by
  obtain ⟨hlex, hstands, hread, hs, hs', hwf, -, -, -⟩ := hread
  obtain ⟨q, l, t, stack, pool⟩ := b
  dsimp only at hstack hs hstate
  unfold json_parse_fragment.step Parsing.token
  rcases hstate with rfl | rfl
  · simp only [hs]
    rw [hlex, ok_bind]
    cases value
    case LEX_BEGIN_OBJECT => exact goto_rel hstands hread (.inl hwf)
    all_goals exact stop_rel hstands rfl
  · simp only [hs]
    obtain ⟨f, hf, -⟩ := id hwf
    obtain ⟨n, hn, -, hparent⟩ := h.top (hstack.trans hf)
    have hparent' : n.parent = none := hparent
    rw [hn, ok_bind, show assert (n.parent = none) = .ok () from if_pos hparent', ok_bind, hlex,
      ok_bind]
    cases value
    case LEX_MORE => exact more_rel hstands hread hs' hwf _
    all_goals exact stop_rel hstands rfl

/-- **A token inside of an object**: a label, a comma or the end. -/
theorem HasRead.step_object (hread : HasRead W s fresh buffer s' b value)
    (hstate : b.state = 2 ∨ b.state = 3 ∨ b.state = 4) :
    ∃ x, json_parse_fragment.step fresh buffer s = .ok x ∧ RelOut W x (Parsing.token b value)
      ∧ x.1.info.p = s'.info.p := by
  obtain ⟨hlex, hstands, hread, hs, hs', hwf, hexpect, hzero, hsome⟩ := hread
  obtain ⟨q, l, t, stack, pool⟩ := b
  dsimp only at hs hstate
  unfold json_parse_fragment.step Parsing.token
  rcases hstate with rfl | rfl | rfl
  · simp only [hs]
    rw [hexpect _ hwf, ok_bind, hlex, ok_bind]
    cases value
    case LEX_MORE => exact more_rel hstands hread hs' hwf _
    case LEX_STRING =>
      exact label_rel hstands hread (hzero (by decide) (by decide)) (hsome (.inl rfl)) hwf
    case LEX_END_OBJECT => exact close_rel hstands hread (.inl rfl) hwf _
    all_goals exact stop_rel hstands rfl
  · simp only [hs]
    rw [hexpect _ hwf, ok_bind, hlex, ok_bind]
    cases value
    case LEX_MORE => exact more_rel hstands hread hs' hwf _
    case LEX_VALUE_SEPARATOR => exact goto_rel hstands hread hwf
    case LEX_END_OBJECT => exact close_rel hstands hread (.inl rfl) hwf _
    all_goals exact stop_rel hstands rfl
  · simp only [hs]
    rw [hexpect _ hwf, ok_bind, hlex, ok_bind]
    cases value
    case LEX_MORE => exact more_rel hstands hread hs' hwf _
    case LEX_STRING =>
      exact label_rel hstands hread (hzero (by decide) (by decide)) (hsome (.inl rfl)) hwf
    all_goals exact stop_rel hstands rfl

/-- **A token behind a label**: the colon, and the value of the field. -/
theorem HasRead.step_label (hread : HasRead W s fresh buffer s' b value)
    (hstate : b.state = 5 ∨ b.state = 6) :
    ∃ x, json_parse_fragment.step fresh buffer s = .ok x ∧ RelOut W x (Parsing.token b value)
      ∧ x.1.info.p = s'.info.p := by
  obtain ⟨hlex, hstands, hread, hs, hs', hwf, hexpect, hzero, hsome⟩ := hread
  obtain ⟨q, l, t, stack, pool⟩ := b
  dsimp only at hs hstate
  unfold json_parse_fragment.step Parsing.token
  rcases hstate with rfl | rfl
  · simp only [hs]
    rw [hexpect _ hwf, ok_bind, hlex, ok_bind]
    cases value
    case LEX_MORE => exact more_rel hstands hread hs' hwf _
    case LEX_NAME_SEPARATOR => exact goto_rel hstands hread hwf
    all_goals exact stop_rel hstands rfl
  · have hopen : OpenAt stack [JSON_STRING] := hwf
    simp only [hs]
    rw [hexpect _ hopen, ok_bind, hlex, ok_bind]
    cases value
    case LEX_MORE => exact more_rel hstands hread hs' hwf _
    case LEX_STRING =>
      exact field_rel hstands hread (hzero (by decide) (by decide)) (fun _ => hsome (.inl rfl)) hwf
    case LEX_NUMBER =>
      exact field_rel hstands hread (hzero (by decide) (by decide)) (fun _ => hsome (.inr rfl)) hwf
    case LEX_BEGIN_OBJECT => exact goto_rel hstands hread (.inr (hopen.mono (by decide)))
    case LEX_BEGIN_ARRAY => exact goto_rel hstands hread (hopen.mono (by decide))
    case LEX_TRUE | LEX_FALSE | LEX_NULL =>
      exact field_rel hstands hread (hzero (by decide) (by decide))
        (fun hfalse => absurd hfalse Bool.false_ne_true) hwf
    all_goals exact stop_rel hstands rfl

/-- **A token inside of an array**: a value, a comma or the end. -/
theorem HasRead.step_array (h : Rel W s a) (hread : HasRead W s fresh buffer s' b value)
    (hstack : a.stack = b.stack) (hstate : b.state = 8 ∨ b.state = 9) :
    ∃ x, json_parse_fragment.step fresh buffer s = .ok x ∧ RelOut W x (Parsing.token b value)
      ∧ x.1.info.p = s'.info.p := by
  obtain ⟨hlex, hstands, hread, hs, hs', hwf, hexpect, hzero, hsome⟩ := hread
  obtain ⟨q, l, t, stack, pool⟩ := b
  dsimp only at hstack hs hstate
  unfold json_parse_fragment.step Parsing.token
  rcases hstate with rfl | rfl
  · have hopen : OpenAt stack [JSON_ARRAY] := hwf
    simp only [hs]
    rw [hexpect _ hopen, ok_bind, hlex, ok_bind]
    cases value
    case LEX_MORE => exact more_rel hstands hread hs' hwf _
    case LEX_STRING =>
      exact element_rel hstands hread (hzero (by decide) (by decide)) (fun _ => hsome (.inl rfl))
        hwf
    case LEX_NUMBER =>
      exact element_rel hstands hread (hzero (by decide) (by decide)) (fun _ => hsome (.inr rfl))
        hwf
    case LEX_BEGIN_OBJECT => exact goto_rel hstands hread (.inr (hopen.mono (by decide)))
    case LEX_BEGIN_ARRAY => exact goto_rel hstands hread (hopen.mono (by decide))
    case LEX_END_ARRAY => exact close_rel hstands hread (.inr rfl) hwf _
    case LEX_TRUE | LEX_FALSE | LEX_NULL =>
      exact element_rel hstands hread (hzero (by decide) (by decide))
        (fun hfalse => absurd hfalse Bool.false_ne_true) hwf
    all_goals exact stop_rel hstands rfl
  · simp only [hs]
    -- behind a value the code asserts that a node is open, and not its type
    obtain ⟨f, rest, hf, -⟩ := id hwf
    have hcursor : s.info.cursor ≠ none := by
      rw [h.cursor, hstack.trans hf]
      exact Option.some_ne_none f.1.1
    rw [show assert (s.info.cursor ≠ none) = .ok () from if_pos hcursor, ok_bind, hlex, ok_bind]
    cases value
    case LEX_MORE => exact more_rel hstands hread hs' hwf _
    case LEX_VALUE_SEPARATOR => exact goto_rel hstands hread hwf
    case LEX_END_ARRAY => exact close_rel hstands hread (.inr rfl) hwf _
    all_goals exact stop_rel hstands rfl

end HasRead

/-- There are no other states than these. -/
theorem Parsing.WF.state (h : a.WF) (hstate : a.state ≠ 1 ∧ a.state ≠ 7) :
    (a.state = 0 ∨ a.state = 99) ∨ (a.state = 2 ∨ a.state = 3 ∨ a.state = 4)
      ∨ (a.state = 5 ∨ a.state = 6) ∨ a.state = 8 ∨ a.state = 9 := by
  unfold Parsing.WF at h
  split at h
  case h_12 => exact h.elim
  all_goals omega

/-- **A turn that reads a token**: what it does depends on the token and on where it stands, before
the document or behind it, in an object, behind a label or in an array. -/
theorem step_token {p : List UInt8} (h : Rel W s a) (hp : s.info.p = some p) (hfree : NulFree p)
    (hstate : a.state ≠ 1 ∧ a.state ≠ 7) :
    ∃ x, json_parse_fragment.step fresh buffer s = .ok x
      ∧ RelOut W x (Parsing.token { a with lex_state := (lex p a.lex_state a.text).2.2.1
                                           text := (lex p a.lex_state a.text).2.2.2 }
          (lex p a.lex_state a.text).1)
      ∧ x.1.info.p = (lex p a.lex_state a.text).2.1 := by
  obtain ⟨s', hread, hp'⟩ := hasRead_lex fresh buffer h hp hfree
  rw [← hp']
  rcases h.wf.state hstate with houtside | hobject | hlabel | harray
  · exact hread.step_outside h rfl houtside
  · exact hread.step_object hobject
  · exact hread.step_label hlabel
  · exact hread.step_array h rfl harray

end Step

end Mjson
