import AllServer.JsonFree
import AllServer.JsonLexer

/-!
# The JSON parser

`json_parse_fragment` hangs every value into the document as soon as it has been read, and has no
stack: what it is inside of is told by the parents of the node at `cursor`. It is called with one
piece of the text after the other, and stops with one of three answers that are no errors –
that the document is not complete, that it is, or that it is and nothing may follow.
-/

namespace Mjson

open json_value_type LEX_VALUE json_status

/-- `struct json_parsing_info`. -/
structure json_parsing_info where
  state : ℕ
  lex_state : ℕ
  lex_text : Option rcstring
  p : Option (List UInt8)
  cursor : Option ℕ

/-- `json_jpi_init`. -/
def json_jpi_init : json_parsing_info := ⟨0, 0, none, none, none⟩

/-- What the parser works with: the nodes there are, the addresses `malloc` has left for nodes, and
what is kept between two pieces of the text. -/
structure Parse where
  heap : JsonHeap
  pool : List ℕ
  info : json_parsing_info

/-- `info->state = state`. -/
def Parse.goto (s : Parse) (state : ℕ) : Parse := { s with info := { s.info with state } }

/-- `info->cursor = cursor`. -/
def Parse.moveTo (s : Parse) (cursor : Option ℕ) : Parse :=
  { s with info := { s.info with cursor } }

/-! ## The code -/

namespace json_parse_fragment

/-- A call of the lexer. -/
def lex (fresh : ℕ → UInt8) (buffer : List UInt8) (s : Parse) :
    Except Fault (LEX_VALUE × Parse) := do
  let (value, p, lex_state, lex_text) ←
    lexer fresh buffer s.info.p s.info.lex_state s.info.lex_text
  return (value, { s with info := { s.info with p, lex_state, lex_text } })

/-- The node at the cursor, which has to have a type. -/
def expect (s : Parse) (type : json_value_type) : Except Fault Unit := do
  assert (s.info.cursor ≠ none)
  assert ((← s.heap.load s.info.cursor).type = type)

/-- A new value is the last child of the node at the cursor; its text is the one that has been read
where it has one. -/
def insert (s : Parse) (type : json_value_type) (text : Bool)
    (next : Parse → ℕ → Except Fault (Parse × Option json_status)) :
    Except Fault (Parse × Option json_status) :=
  match json_new_value type s.heap s.pool.head? with
  | (_, none) => return (s, some JSON_MEMORY)
  | (heap, some temp) => do
    let (heap, lex_text) ← (if text then
      match s.info.lex_text with
      | none => .error .thrown
      | some rcs => do
        let text ← rcs_unwrap rcs
        return (← heap.store temp ({ · with text := some text }), none)
      else .ok (heap, s.info.lex_text))
    let s : Parse := ⟨heap, s.pool.tail, { s.info with lex_text }⟩
    match ← json_insert_child s.heap s.info.cursor temp with
    | (heap, .JSON_OK) => next { s with heap } temp
    | (heap, _) => return ({ s with heap }, some JSON_UNKNOWN_PROBLEM)

/-- The states 1 and 7: open an object or an array. -/
def openValue (s : Parse) (type : json_value_type) (state : ℕ) :
    Except Fault (Parse × Option json_status) :=
  if s.info.cursor = none then
    match json_new_value type s.heap s.pool.head? with
    | (_, none) => return (s, some JSON_MEMORY)
    | (heap, some temp) =>
      return (Parse.goto (Parse.moveTo { s with heap, pool := s.pool.tail } temp) state, none)
  else do
    let node ← s.heap.load s.info.cursor
    assert (node.type = JSON_STRING ∨ node.type = JSON_ARRAY)
    insert s type false fun s temp => return ((s.moveTo temp).goto state, none)

/-- A string that is the label of a field. -/
def label (s : Parse) : Except Fault (Parse × Option json_status) :=
  insert s JSON_STRING true fun s temp => return ((s.moveTo temp).goto 5, none)

/-- A value of a field that has nothing below it. -/
def field (s : Parse) (type : json_value_type) (text : Bool) :
    Except Fault (Parse × Option json_status) :=
  insert s type text fun s _ => do
    let node ← s.heap.load s.info.cursor
    return ((if node.parent = none then s.goto 99 else s.moveTo node.parent).goto 3, none)

/-- A value of an array that has nothing below it. -/
def element (s : Parse) (type : json_value_type) (text : Bool) :
    Except Fault (Parse × Option json_status) :=
  insert s type text fun s _ => return (s.goto 9, none)

/-- The end of an object or of an array. What happens at a label without a parent is not the same in
all states. -/
def close (s : Parse) (orphan : Parse → Except Fault (Parse × Option json_status)) :
    Except Fault (Parse × Option json_status) := do
  let node ← s.heap.load s.info.cursor
  if node.parent = none then
    return (s.goto 99, none)
  let s := s.moveTo node.parent
  let node ← s.heap.load s.info.cursor
  match node.type with
  | JSON_STRING =>
    if node.parent = none then
      orphan s
    else
      let s := s.moveTo node.parent
      if (← s.heap.load s.info.cursor).type ≠ JSON_OBJECT then
        return (s, some JSON_BAD_TREE_STRUCTURE)
      else
        return (s.goto 3, none)
  | JSON_ARRAY => return (s.goto 9, none)
  | _ => return (s, some JSON_BAD_TREE_STRUCTURE)

/-- The switch over `info->state`, where the text is not at its end. A status is what is
returned. -/
def step (fresh : ℕ → UInt8) (buffer : List UInt8) (s : Parse) :
    Except Fault (Parse × Option json_status) :=
  match s.info.state with
  -- starting point
  | 0 => do
    match ← lex fresh buffer s with
    | (LEX_BEGIN_OBJECT, s) => return (s.goto 1, none)
    | (_, s) => return (s, some JSON_MALFORMED_DOCUMENT)
  | 1 => openValue s JSON_OBJECT 2
  -- opened object
  | 2 => do
    expect s JSON_OBJECT
    match ← lex fresh buffer s with
    | (LEX_STRING, s) => label s
    | (LEX_END_OBJECT, s) => close s fun _ => .error .thrown
    | (LEX_MORE, s) => return (s, some JSON_INCOMPLETE_DOCUMENT)
    | (_, s) => return (s, some JSON_MALFORMED_DOCUMENT)
  -- finished adding a field to an object
  | 3 => do
    expect s JSON_OBJECT
    match ← lex fresh buffer s with
    | (LEX_VALUE_SEPARATOR, s) => return (s.goto 4, none)
    | (LEX_END_OBJECT, s) => close s fun _ => .error .thrown
    | (LEX_MORE, s) => return (s, some JSON_INCOMPLETE_DOCUMENT)
    | (_, s) => return (s, some JSON_MALFORMED_DOCUMENT)
  -- sibling, post-object
  | 4 => do
    expect s JSON_OBJECT
    match ← lex fresh buffer s with
    | (LEX_STRING, s) => label s
    | (LEX_MORE, s) => return (s, some JSON_INCOMPLETE_DOCUMENT)
    | (LEX_INVALID_CHARACTER, s) => return (s, some JSON_ILLEGAL_CHARACTER)
    | (_, s) => return (s, some JSON_MALFORMED_DOCUMENT)
  -- label, pre name separator
  | 5 => do
    expect s JSON_STRING
    match ← lex fresh buffer s with
    | (LEX_NAME_SEPARATOR, s) => return (s.goto 6, none)
    | (LEX_MORE, s) => return (s, some JSON_INCOMPLETE_DOCUMENT)
    | (_, s) => return (s, some JSON_MALFORMED_DOCUMENT)
  -- label, pos name separator
  | 6 => do
    expect s JSON_STRING
    match ← lex fresh buffer s with
    | (LEX_STRING, s) => field s JSON_STRING true
    | (LEX_NUMBER, s) => field s JSON_NUMBER true
    | (LEX_TRUE, s) => field s JSON_TRUE false
    | (LEX_FALSE, s) => field s JSON_FALSE false
    | (LEX_NULL, s) => field s JSON_NULL false
    | (LEX_BEGIN_OBJECT, s) => return (s.goto 1, none)
    | (LEX_BEGIN_ARRAY, s) => return (s.goto 7, none)
    | (LEX_MORE, s) => return (s, some JSON_INCOMPLETE_DOCUMENT)
    | (LEX_MEMORY, s) => return (s, some JSON_MEMORY)
    | (LEX_INVALID_CHARACTER, s) => return (s, some JSON_ILLEGAL_CHARACTER)
    | (_, s) => return (s, some JSON_MALFORMED_DOCUMENT)
  | 7 => openValue s JSON_ARRAY 8
  -- just entered an array
  | 8 => do
    expect s JSON_ARRAY
    match ← lex fresh buffer s with
    | (LEX_STRING, s) => element s JSON_STRING true
    | (LEX_NUMBER, s) => element s JSON_NUMBER true
    | (LEX_TRUE, s) => element s JSON_TRUE false
    | (LEX_FALSE, s) => element s JSON_FALSE false
    | (LEX_NULL, s) => element s JSON_NULL false
    | (LEX_BEGIN_ARRAY, s) => return (s.goto 7, none)
    | (LEX_END_ARRAY, s) => close s fun s => return (s, some JSON_BAD_TREE_STRUCTURE)
    | (LEX_BEGIN_OBJECT, s) => return (s.goto 1, none)
    | (LEX_MORE, s) => return (s, some JSON_INCOMPLETE_DOCUMENT)
    | (LEX_INVALID_CHARACTER, s) => return (s, some JSON_ILLEGAL_CHARACTER)
    | (_, s) => return (s, some JSON_MALFORMED_DOCUMENT)
  -- followup to adding child to array
  | 9 => do
    assert (s.info.cursor ≠ none)
    match ← lex fresh buffer s with
    | (LEX_VALUE_SEPARATOR, s) => return (s.goto 8, none)
    | (LEX_END_ARRAY, s) => close s fun s => return (s.goto 99, none)
    | (LEX_MORE, s) => return (s, some JSON_INCOMPLETE_DOCUMENT)
    | (_, s) => return (s, some JSON_MALFORMED_DOCUMENT)
  -- finished document. only accept whitespaces until EOF
  | 99 => do
    assert ((← s.heap.load s.info.cursor).parent = none)
    match ← lex fresh buffer s with
    | (LEX_MORE, s) => return (s, some JSON_WAITING_FOR_EOF)
    | (LEX_MEMORY, s) => return (s, some JSON_MEMORY)
    | (_, s) => return (s, some JSON_MALFORMED_DOCUMENT)
  | _ => return (s, some JSON_UNKNOWN_PROBLEM)

/-- A turn, with what has been returned as the second part of the state. -/
def turn (fresh : ℕ → UInt8) (buffer : List UInt8) :
    Parse × Option json_status → Except Fault (ForInStep (Parse × Option json_status) × List Empty)
  | (s, _) => match s.info.p with
    | none => .error .null
    | some [] => .ok (.done (s, none), [])
    | some (_ :: _) => do
      match ← step fresh buffer s with
      | (s, none) => return (.yield (s, none), [])
      | (s, some error) => return (.done (s, some error), [])

end json_parse_fragment

/-- `json_parse_fragment`: what is kept, and the status. -/
def json_parse_fragment (fresh : ℕ → UInt8) (s : Parse) (buffer : List UInt8) (fuel : ℕ) :
    Except Fault (Parse × json_status) := do
  let s := { s with info := { s.info with p := some (cstr buffer) } }
  let ((s, error), _) ← whileTrue (json_parse_fragment.turn fresh (cstr buffer)) fuel (s, none)
  match error with
  | some error => return (s, error)
  | none =>
    let s := { s with info := { s.info with p := none } }
    return (s, if s.info.state = 99 then JSON_WAITING_FOR_EOF else JSON_INCOMPLETE_DOCUMENT)

/-- `json_parse_document`: the status and `*root`, with what is left in memory. -/
def json_parse_document (fresh : ℕ → UInt8) (heap : JsonHeap) (pool : List ℕ) (text : List UInt8)
    (fuel : ℕ) : Except Fault (Parse × json_status × Option ℕ) := do
  let (s, error) ← json_parse_fragment fresh ⟨heap, pool, json_jpi_init⟩ text fuel
  if error = JSON_WAITING_FOR_EOF ∨ error = JSON_OK then
    return (s, JSON_OK, s.info.cursor)
  else
    return (s, error, none)

end Mjson
