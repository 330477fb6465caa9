import AllServer.JsonTree
import AllServer.RString

/-!
# Printing JSON documents

`json_tree_to_string` and `json_stream_output` go through a document with a single pointer and no
stack: a value is opened in `state1`, which leads to its first child, and closed in
`state2`, which leads to its next sibling or, behind the last one, back to its parent. They differ
in where the text goes. `Mjson.print` says what is written, by recursion on the
document. That it ends early means that a label has no value, and then what has been written up to
there is in the file, where the string is freed again.

A value that is printed need not be the root of its document: nothing beside it or above it
is printed (`Mjson.json_tree_to_string_eq`, `Mjson.json_stream_output_eq`).
-/

namespace Mjson

open json_value_type Forest

/-! ## The code -/

/-- Where the control is: at one of the labels, or at the return of an error. -/
inductive Goto where
  | state1 | state2 | finish | bad
  deriving DecidableEq

/-- The text of a node, which has to have one. -/
def json_t.str (node : json_t) : Except Fault (List UInt8) :=
  match node.text with
  | none => .error .null
  | some text => .ok (cstr text)

section

variable {ρ : Type} (put : ρ → Cat → Except Fault ρ) (heap : JsonHeap) (root : Option ℕ)

/-- `goto state1` to the first child, or `goto state2`. -/
def printer.down (node : json_t) (cursor : Option ℕ) (out : ρ) : Goto × Option ℕ × ρ :=
  if node.child ≠ none then (.state1, node.child, out) else (.state2, cursor, out)

/-- The switch of `state1`. -/
def printer.value (node : json_t) (cursor : Option ℕ) (out : ρ) :
    Except Fault (Goto × Option ℕ × ρ) := do
  match node.type with
  | JSON_STRING =>
    let out ← put out (.catc 34)
    let out ← put out (.catcs (← node.str))
    let out ← put out (.catc 34)
    let label ← (if node.parent ≠ none then do
      return decide ((← heap.load node.parent).type = JSON_OBJECT) else .ok true)
    if label then
      if node.child ≠ none then
        return printer.down node cursor (← put out (.catc 58))
      else
        return (.bad, cursor, out)
    else
      return printer.down node cursor out
  | JSON_NUMBER => return (.state2, cursor, ← put out (.catcs (← node.str)))
  | JSON_OBJECT => return printer.down node cursor (← put out (.catc 123))
  | JSON_ARRAY => return printer.down node cursor (← put out (.catc 91))
  | JSON_TRUE => return (.state2, cursor, ← put out (.catcs (ascii "true")))
  | JSON_FALSE => return (.state2, cursor, ← put out (.catcs (ascii "false")))
  | JSON_NULL => return (.state2, cursor, ← put out (.catcs (ascii "null")))

/-- `state1`: open value. -/
def printer.state1 (cursor : Option ℕ) (out : ρ) : Except Fault (Goto × Option ℕ × ρ) := do
  let node ← heap.load cursor
  let out ← (if node.previous ≠ none ∧ cursor ≠ root then put out (.catc 44) else .ok out)
  printer.value put heap node cursor out

/-- `state2`: close value. -/
def printer.state2 (cursor : Option ℕ) (out : ρ) : Except Fault (Goto × Option ℕ × ρ) := do
  let node ← heap.load cursor
  let out ← (match node.type with
    | JSON_OBJECT => put out (.catc 125)
    | JSON_ARRAY => put out (.catc 93)
    | _ => .ok out)
  if node.parent = none ∨ cursor = root then
    return (.finish, cursor, out)
  else if node.next ≠ none then
    return (.state1, node.next, out)
  else
    return (.state2, node.parent, out)

/-- From a label to the next one. -/
def printer.turn : Goto × Option ℕ × ρ →
    Except Fault (ForInStep (Goto × Option ℕ × ρ) × List Empty)
  | (.state1, cursor, out) => do return (.yield (← printer.state1 put heap root cursor out), [])
  | (.state2, cursor, out) => do return (.yield (← printer.state2 put heap root cursor out), [])
  | (.finish, cursor, out) => .ok (.done (.finish, cursor, out), [])
  | (.bad, cursor, out) => .ok (.done (.bad, cursor, out), [])

end

/-- `json_tree_to_string`: the status and `*text`. -/
def json_tree_to_string (fresh : ℕ → UInt8) (heap : JsonHeap) (root : Option ℕ) (fuel : ℕ) :
    Except Fault (json_status × Option (List UInt8)) := do
  assert (root ≠ none)
  let output ← rcs_create fresh RSTRING_DEFAULT
  let ((goto, _, output), _) ← whileTrue (printer.turn (Cat.run fresh) heap root) fuel
    (.state1, root, output)
  match goto with
  | .bad => return (.JSON_BAD_TREE_STRUCTURE, none)
  | _ => return (.JSON_OK, some (← rcs_unwrap output))

/-- `json_stream_output`: the status and what is in the file behind what there was. -/
def json_stream_output (heap : JsonHeap) (file : List UInt8) (root : Option ℕ) (fuel : ℕ) :
    Except Fault (json_status × List UInt8) := do
  assert (root ≠ none)
  let ((goto, _, file), _) ← whileTrue
    (printer.turn (fun file cat => .ok (file ++ cat.bytes)) heap root) fuel (.state1, root, file)
  match goto with
  | .bad => return (.JSON_BAD_TREE_STRUCTURE, file)
  | _ => return (.JSON_OK, file ++ [10])

/-! ## What is written -/

/-- **What is written**, and whether it is everything. -/
abbrev Written := List UInt8 × Bool

/-- One after the other, up to the first one that ends early. -/
def Written.andThen (w w' : Written) : Written := if w.2 then (w.1 ++ w'.1, w'.2) else w

/-- A string in quotes. -/
def quoted (text : List UInt8) : List UInt8 := 34 :: text ++ [34]

@[simp] theorem Written.nil_andThen (w : Written) : Written.andThen ([], true) w = w := rfl

@[simp] theorem Written.andThen_nil (w : Written) : w.andThen ([], true) = w := by
  obtain ⟨s, b⟩ := w
  cases b <;> simp [andThen]

theorem Written.ok_andThen_ok (t t' : List UInt8) :
    Written.andThen (t, true) (t', true) = (t ++ t', true) := rfl

theorem Written.andThen_assoc (w w' w'' : Written) :
    (w.andThen w').andThen w'' = w.andThen (w'.andThen w'') := by
  obtain ⟨s, b⟩ := w
  obtain ⟨s', b'⟩ := w'
  cases b <;> cases b' <;> simp [andThen]

/-- What opens a value, with the text of its children where they are the labels of an object and
where they are not. A label has to have a value. -/
def printOpen (inObject : Bool) (l : Label) (leaf : Bool) (below : Bool → Written) : Written :=
  match l.1 with
  | JSON_STRING =>
    if inObject then
      if leaf then (quoted (l.2.getD []), false)
      else Written.andThen (quoted (l.2.getD []) ++ [58], true) (below false)
    else Written.andThen (quoted (l.2.getD []), true) (below false)
  | JSON_NUMBER => (l.2.getD [], true)
  | JSON_OBJECT => Written.andThen ([123], true) (below true)
  | JSON_ARRAY => Written.andThen ([91], true) (below false)
  | JSON_TRUE => (ascii "true", true)
  | JSON_FALSE => (ascii "false", true)
  | JSON_NULL => (ascii "null", true)

/-- What closes a value. -/
def printClose : json_value_type → List UInt8
  | JSON_OBJECT => [125]
  | JSON_ARRAY => [93]
  | _ => []

/-- **The text of a row of values**, which are the labels of an object or not. -/
def print (inObject : Bool) : Forest Label → Written
  | .nil => ([], true)
  | .cons l kids rest =>
    (printOpen inObject l (isNil kids) fun inObject => print inObject kids).andThen
      (Written.andThen (printClose l.1, true)
        (if isNil rest then ([], true) else Written.andThen ([44], true) (print inObject rest)))

/-! ## What the code writes -/

/-- The label of a node with a text has one, which can be a C string. -/
def Spelled (l : Label) : Prop :=
  l.1 = JSON_STRING ∨ l.1 = JSON_NUMBER → ∃ text, l.2 = some text ∧ NulFree text

/-- **A place to write to**, with what has been written there: there is always more room. -/
structure Sink {ρ : Type} (put : ρ → Cat → Except Fault ρ) (R : ρ → List UInt8 → Prop) : Prop where
  put : ∀ {out : ρ} {s : List UInt8} {cat : Cat}, R out s → NulFree cat.bytes →
    ∃ out', put out cat = .ok out' ∧ R out' (s ++ cat.bytes)

theorem sink_rcs (fresh : ℕ → UInt8) :
    Sink (Cat.run fresh) fun output s => Rcs output s ∧ NulFree s where
  put := fun h hcat => by
    obtain ⟨output', hrun, h'⟩ := h.1.run fresh hcat
    exact ⟨output', hrun, h', h.2.append hcat⟩

theorem sink_file : Sink (fun file cat => .ok (file ++ cat.bytes)) fun file s => file = s where
  put := fun h _ => ⟨_, rfl, by rw [h]⟩

section Writes

variable {ρ : Type} {put : ρ → Cat → Except Fault ρ} {R : ρ → List UInt8 → Prop} {heap : JsonHeap}
  {root : Option ℕ} {s : List UInt8} {out : ρ} {w w' : Written} {goto goto' : Goto}
  {cursor cursor' : Option ℕ} {x : Goto × Option ℕ × ρ}

variable (put R heap root)

/-- **The code writes a text** on the way to a label, or on the way to the return of an error. -/
def Writes (x : Goto × Option ℕ × ρ) (s : List UInt8) (w : Written) (goto : Goto)
    (cursor : Option ℕ) : Prop :=
  ∃ k out', R out' (s ++ w.1)
    ∧ if w.2 then Turns (printer.turn put heap root) k x [] (goto, cursor, out')
      else ∃ cursor', Turns (printer.turn put heap root) k x [] (.bad, cursor', out')

variable {put R heap root}

theorem Writes.refl (h : R out s) :
    Writes put R heap root (goto, cursor, out) s ([], true) goto cursor :=
  ⟨0, out, by rwa [List.append_nil], Turns.refl _⟩

/-- A turn that writes something first. -/
theorem Writes.turn {y : Goto × Option ℕ × ρ} {t : List UInt8}
    (h : printer.turn put heap root x = .ok (.yield y, []))
    (h' : Writes put R heap root y (s ++ t) w goto cursor) :
    Writes put R heap root x s (Written.andThen (t, true) w) goto cursor := by
  obtain ⟨k, out', hR, hturns⟩ := h'
  refine ⟨k + 1, out', by rwa [List.append_assoc] at hR, ?_⟩
  split_ifs at hturns ⊢ with hw hw' hw'
  · exact Turns.step h hturns
  · exact absurd hw hw'
  · exact absurd hw' hw
  · obtain ⟨cursor', hturns⟩ := hturns
    exact ⟨cursor', Turns.step h hturns⟩

/-- A turn that writes something and gives up. -/
theorem Writes.stop {t : List UInt8}
    (h : printer.turn put heap root x = .ok (.yield (.bad, cursor', out), []))
    (hR : R out (s ++ t)) :
    Writes put R heap root x s (t, false) goto cursor :=
  ⟨1, out, hR, cursor', Turns.single h⟩

/-- **One text after the other.** -/
theorem Writes.andThen (h : Writes put R heap root x s w goto cursor)
    (h' : ∀ out', R out' (s ++ w.1) →
      Writes put R heap root (goto, cursor, out') (s ++ w.1) w' goto' cursor') :
    Writes put R heap root x s (w.andThen w') goto' cursor' := by
  obtain ⟨k, out₁, hR, hturns⟩ := h
  unfold Written.andThen
  by_cases hw : w.2 = true
  · rw [if_pos hw] at hturns ⊢
    obtain ⟨k', out₂, hR', hturns'⟩ := h' out₁ hR
    refine ⟨k + k', out₂, by rwa [← List.append_assoc], ?_⟩
    split_ifs at hturns' ⊢
    · exact hturns.trans hturns'
    · obtain ⟨cursor₂, hturns'⟩ := hturns'
      exact ⟨cursor₂, hturns.trans hturns'⟩
  · rw [if_neg hw] at hturns ⊢
    exact ⟨k, out₁, hR, by rwa [if_neg hw]⟩

end Writes

/-- Whether a value is printed as the label of an object: its parent is one, or it has none. -/
def isLabel (heap : JsonHeap) (n : json_t) : Bool :=
  match n.parent with
  | none => true
  | some a => match heap a with
    | some na => na.type = JSON_OBJECT
    | none => false

section Value

variable {ρ : Type} {put : ρ → Cat → Except Fault ρ} {R : ρ → List UInt8 → Prop} {heap : JsonHeap}
  {root : Option ℕ} {s : List UInt8} {out : ρ} {c : ℕ} {n : json_t} {K : Forest Label}

theorem isLabel_eq {a : ℕ} {na : json_t} (ha : n.parent = some a) (hna : heap a = some na) :
    isLabel heap n = decide (na.type = JSON_OBJECT) := by
  simp only [isLabel, ha, hna]

theorem json_t.str_eq {text : List UInt8} (htext : n.text = some text) (hfree : NulFree text) :
    n.str = .ok text := by
  unfold json_t.str
  rw [htext]
  exact congrArg Except.ok (cstr_of_nulFree hfree)

/-- What is written in front of a value. -/
def comma (n : json_t) (cursor root : Option ℕ) : List UInt8 :=
  if n.previous ≠ none ∧ cursor ≠ root then [44] else []

/-- **What is below a value**, if there is anything. -/
theorem writes_down (hleaf : n.child = none ↔ K = .nil)
    (hkids : ∀ out s, R out s → K ≠ .nil → Writes put R heap root (.state1, n.child, out) s
      (print (decide (n.type = JSON_OBJECT)) K) .state2 (some c)) (hR : R out s) :
    Writes put R heap root (printer.down n (some c) out) s
      (print (decide (n.type = JSON_OBJECT)) K) .state2 (some c) := by
  unfold printer.down
  by_cases hK : K = .nil
  · rw [if_neg (not_not_intro (hleaf.mpr hK)), hK]
    exact Writes.refl hR
  · rw [if_pos (hleaf.not.mpr hK)]
    exact hkids out s hR hK

section Begun

variable {out₁ : ρ}

variable (put R heap root n c out s out₁) in
/-- **The comma in front of a value has been written**, and what the value itself does is what the
turn does. -/
structure Begun : Prop where
  turn : ∀ {y}, printer.value put heap n (some c) out₁ = .ok y →
    printer.turn put heap root (.state1, some c, out) = .ok (.yield y, [])
  written : R out₁ (s ++ comma n (some c) root)

theorem exists_begun (hput : Sink put R) (hn : heap c = some n) (hR : R out s) :
    ∃ out₁, Begun put R heap root s out c n out₁ := by
  obtain ⟨out₁, hcomma, hR₁⟩ : ∃ out₁, (if n.previous ≠ none ∧ some c ≠ root then
      put out (.catc 44) else .ok out) = .ok out₁ ∧ R out₁ (s ++ comma n (some c) root) := by
    unfold comma
    split_ifs
    · exact hput.put hR (show NulFree (Cat.catc 44).bytes by decide)
    · exact ⟨out, rfl, by rwa [List.append_nil]⟩
  refine ⟨out₁, fun h => ?_, hR₁⟩
  unfold printer.turn printer.state1
  dsimp only
  rw [Heap.load_eq_ok hn, ok_bind, hcomma, ok_bind, h]
  rfl

/-- A word without anything below it. -/
theorem Begun.word (h : Begun put R heap root s out c n out₁) (hput : Sink put R)
    {word : List UInt8} (hfree : NulFree word)
    (hvalue : ∀ out₂, put out₁ (.catcs word) = .ok out₂ →
      printer.value put heap n (some c) out₁ = .ok (.state2, some c, out₂)) :
    Writes put R heap root (.state1, some c, out) s
      (Written.andThen (comma n (some c) root, true) (word, true)) .state2 (some c) := by
  obtain ⟨out₂, hput₂, hR₂⟩ :=
    hput.put h.written (show NulFree (Cat.catcs word).bytes from hfree)
  rw [List.append_assoc] at hR₂
  rw [Written.ok_andThen_ok, ← Written.andThen_nil (_, true)]
  exact Writes.turn (h.turn (hvalue out₂ hput₂)) (Writes.refl hR₂)

/-- A bracket, and what is below. -/
theorem Begun.bracket (h : Begun put R heap root s out c n out₁) (hput : Sink put R)
    (hdown : ∀ out s, R out s → Writes put R heap root (printer.down n (some c) out) s
      (print (decide (n.type = JSON_OBJECT)) K) .state2 (some c))
    {bracket : UInt8} {inObject : Bool} (hne : bracket ≠ 0)
    (htype : decide (n.type = JSON_OBJECT) = inObject)
    (hvalue : ∀ out₂, put out₁ (.catc bracket) = .ok out₂ →
      printer.value put heap n (some c) out₁ = .ok (printer.down n (some c) out₂)) :
    Writes put R heap root (.state1, some c, out) s
      (Written.andThen (comma n (some c) root, true)
        (Written.andThen ([bracket], true) (print inObject K))) .state2 (some c) := by
  subst htype
  obtain ⟨out₂, hput₂, hR₂⟩ := hput.put h.written (show NulFree (Cat.catc bracket).bytes by
    simpa [NulFree, Cat.bytes] using hne.symm)
  rw [List.append_assoc] at hR₂
  rw [← Written.andThen_assoc]
  exact Writes.turn (h.turn (hvalue out₂ hput₂)) (hdown _ _ hR₂)

/-- **A string**, between its quotation marks: a label has a colon and a value behind it, or it is
where the printer gives up. -/
theorem Begun.string (h : Begun put R heap root s out c n out₁) (hput : Sink put R)
    (hparent : ∀ a, n.parent = some a → (heap a).isSome = true)
    (hspelled : Spelled (n.type, n.text)) (hleaf : n.child = none ↔ K = .nil)
    (htype : n.type = JSON_STRING)
    (hdown : ∀ out s, R out s → Writes put R heap root (printer.down n (some c) out) s
      (print false K) .state2 (some c)) :
    Writes put R heap root (.state1, some c, out) s
      (Written.andThen (comma n (some c) root, true)
        (printOpen (isLabel heap n) (JSON_STRING, n.text) (isNil K) fun inObject =>
          print inObject K))
      .state2 (some c) := by
  obtain ⟨text, htext, hfree⟩ : ∃ text, n.text = some text ∧ NulFree text :=
    hspelled (.inl htype)
  have hstr := json_t.str_eq htext hfree
  have hlabel : (if n.parent ≠ none then do
      return decide ((← heap.load n.parent).type = JSON_OBJECT) else .ok true)
        = (.ok (isLabel heap n) : Except Fault Bool) := by
    cases hpar : n.parent with
    | none => simp [isLabel, hpar]
    | some a =>
      obtain ⟨na, hna⟩ := Option.isSome_iff_exists.mp (hparent a hpar)
      rw [if_pos (Option.some_ne_none a), Heap.load_eq_ok hna, isLabel_eq hpar hna]
      rfl
  obtain ⟨out₂, hput₂, hR₂⟩ := hput.put h.written (show NulFree (Cat.catc 34).bytes by decide)
  obtain ⟨out₃, hput₃, hR₃⟩ := hput.put hR₂ (show NulFree (Cat.catcs text).bytes from hfree)
  obtain ⟨out₄, hput₄, hR₄⟩ := hput.put hR₃ (show NulFree (Cat.catc 34).bytes by decide)
  have hR₄' : R out₄ (s ++ (comma n (some c) root ++ quoted text)) := by
    simpa [Cat.bytes, quoted] using hR₄
  have hvalue : printer.value put heap n (some c) out₁ = (if isLabel heap n then
      if n.child ≠ none then do return printer.down n (some c) (← put out₄ (.catc 58))
      else .ok (.bad, some c, out₄)
    else .ok (printer.down n (some c) out₄)) := by
    rw [printer.value, htype]
    dsimp only
    rw [hput₂, ok_bind, hstr, ok_bind, hput₃, ok_bind, hput₄, ok_bind, hlabel, ok_bind]
    rfl
  unfold printOpen
  rw [htext]
  dsimp only [Option.getD_some]
  cases hlab : isLabel heap n with
  | false =>
    rw [hlab, if_neg Bool.false_ne_true] at hvalue
    rw [if_neg Bool.false_ne_true, ← Written.andThen_assoc]
    exact Writes.turn (h.turn hvalue) (hdown _ _ hR₄')
  | true =>
    rw [hlab, if_pos rfl] at hvalue
    rw [if_pos rfl]
    by_cases hchild : n.child = none
    · rw [if_neg (not_not_intro hchild)] at hvalue
      rw [hleaf.mp hchild]
      exact Writes.stop (h.turn hvalue) hR₄'
    · obtain ⟨out₅, hput₅, hR₅⟩ := hput.put hR₄' (show NulFree (Cat.catc 58).bytes by decide)
      rw [if_pos hchild, hput₅] at hvalue
      have hK : isNil K = false := by
        cases K with
        | nil => exact absurd (hleaf.mpr rfl) hchild
        | cons l kids rest => rfl
      rw [hK, if_neg Bool.false_ne_true, ← Written.andThen_assoc]
      refine Writes.turn (h.turn hvalue) (hdown _ _ ?_)
      simpa [Cat.bytes] using hR₅

end Begun

/-- **Opening a value**, and everything below it. -/
theorem writes_open (hput : Sink put R) (hn : heap c = some n)
    (hparent : ∀ a, n.parent = some a → (heap a).isSome = true)
    (hspelled : Spelled (n.type, n.text))
    (hleaf : n.child = none ↔ K = .nil)
    (hkids : ∀ out s, R out s → K ≠ .nil → Writes put R heap root (.state1, n.child, out) s
      (print (decide (n.type = JSON_OBJECT)) K) .state2 (some c)) (hR : R out s) :
    Writes put R heap root (.state1, some c, out) s
      (Written.andThen (comma n (some c) root, true)
        (printOpen (isLabel heap n) (n.type, n.text) (isNil K) fun inObject => print inObject K))
      .state2 (some c) := by
  have hdown : ∀ out s, R out s → Writes put R heap root (printer.down n (some c) out) s
      (print (decide (n.type = JSON_OBJECT)) K) .state2 (some c) :=
    fun _ _ => writes_down hleaf hkids
  obtain ⟨out₁, hbegun⟩ : ∃ out₁, Begun put R heap root s out c n out₁ :=
    exists_begun hput hn hR
  cases htype : n.type with
  | JSON_OBJECT =>
    refine hbegun.bracket hput hdown (by decide) (decide_eq_true htype) fun out₂ hput₂ => ?_
    rw [printer.value, htype, hput₂]
    rfl
  | JSON_ARRAY =>
    refine hbegun.bracket hput hdown (by decide) (by rw [htype]; rfl) fun out₂ hput₂ => ?_
    rw [printer.value, htype, hput₂]
    rfl
  | JSON_TRUE | JSON_FALSE | JSON_NULL =>
    refine hbegun.word hput (by decide) fun out₂ hput₂ => ?_
    rw [printer.value, htype, hput₂]
    rfl
  | JSON_NUMBER =>
    obtain ⟨text, htext, hfree⟩ : ∃ text, n.text = some text ∧ NulFree text :=
      hspelled (.inr htype)
    have hstr := json_t.str_eq htext hfree
    unfold printOpen
    rw [htext]
    dsimp only [Option.getD_some]
    refine hbegun.word hput hfree fun out₂ hput₂ => ?_
    rw [printer.value, htype, hstr, ok_bind, hput₂]
    rfl
  | JSON_STRING =>
    have hbelow : decide (n.type = JSON_OBJECT) = false := by rw [htype]; rfl
    rw [hbelow] at hdown
    exact hbegun.string hput hparent hspelled hleaf htype hdown

/-- **Closing a value.** -/
theorem writes_close (hput : Sink put R) (hn : heap c = some n) (hR : R out s) :
    Writes put R heap root (.state2, some c, out) s (printClose n.type, true)
      (if n.parent = none ∨ some c = root then .finish
        else if n.next ≠ none then .state1 else .state2)
      (if n.parent = none ∨ some c = root then some c else if n.next ≠ none then n.next
        else n.parent) := by
  obtain ⟨out₁, hclose, hR₁⟩ : ∃ out₁, (match n.type with
      | JSON_OBJECT => put out (.catc 125)
      | JSON_ARRAY => put out (.catc 93)
      | _ => .ok out) = .ok out₁ ∧ R out₁ (s ++ printClose n.type) := by
    unfold printClose
    cases n.type with
    | JSON_OBJECT => exact hput.put hR (show NulFree (Cat.catc 125).bytes by decide)
    | JSON_ARRAY => exact hput.put hR (show NulFree (Cat.catc 93).bytes by decide)
    | _ => exact ⟨out, rfl, by rwa [List.append_nil]⟩
  have hturn : printer.turn put heap root (.state2, some c, out) = .ok (.yield
      (if n.parent = none ∨ some c = root then .finish
        else if n.next ≠ none then .state1 else .state2,
        if n.parent = none ∨ some c = root then some c else if n.next ≠ none then n.next
          else n.parent, out₁), []) := by
    unfold printer.turn printer.state2
    dsimp only
    rw [Heap.load_eq_ok hn, ok_bind, hclose, ok_bind]
    split_ifs <;> rfl
  rw [← Written.andThen_nil (_, true)]
  exact Writes.turn hturn (Writes.refl hR₁)

end Value

section Row

variable {ρ : Type} {put : ρ → Cat → Except Fault ρ} {R : ρ → List UInt8 → Prop} {heap : JsonHeap}
  {root : Option ℕ} {s : List UInt8} {out : ρ} {F : Doc}

/-- **A row of siblings and everything below them**, and then back to their parent. -/
theorem writes_row (hput : Sink put R) {a : ℕ} {na : json_t} {prev p last : Option ℕ}
    (h : Seg (nodes heap) (some a) prev p last none F) (hF : F ≠ .nil) (ha : heap a = some na)
    (hroot : ∀ x ∈ addrs F, some x ≠ root) (hspelled : ∀ x ∈ F.labels, Spelled x.2) (hR : R out s) :
    Writes put R heap root (.state1, p, out) s
      (Written.andThen (if prev ≠ none then [44] else [], true)
        (print (decide (na.type = JSON_OBJECT)) (F.map Prod.snd))) .state2 (some a) := by
  induction F generalizing a na prev p last out s with
  | nil => exact absurd rfl hF
  | cons c kids rest ihk ihr =>
    obtain ⟨rfl, k, hk, hlabel, hparent, hprev, hkids, hrest⟩ := h
    obtain ⟨n, hn, rfl⟩ := nodes_eq_some.mp hk
    rw [addrs_cons, List.forall_mem_cons, List.forall_mem_append] at hroot
    rw [labels_cons, List.forall_mem_cons, List.forall_mem_append] at hspelled
    obtain ⟨hrootc, hrootk, hrootr⟩ := hroot
    obtain ⟨hspelledc, hspelledk, hspelledr⟩ := hspelled
    have hparent' : n.parent = some a := hparent
    have hleaf : n.child = none ↔ kids.map Prod.snd = .nil := by
      rw [show n.child = n.node.child from rfl, child_eq_none_iff hkids]
      cases kids <;> simp [Forest.map]
    have hlabel' : (n.type, n.text) = c.2 := hlabel
    have hopen : Writes put R heap root (.state1, some c.1, out) s _ .state2 (some c.1) :=
      writes_open hput hn (fun b hb => by
        obtain rfl := Option.some.inj (hparent'.symm.trans hb)
        exact ha ▸ rfl) (hlabel' ▸ hspelledc) hleaf
        (fun out s hR hK => ihk hkids (fun h => hK (by rw [h]; rfl)) hn hrootk hspelledk hR) hR
    have hcomma : comma n (some c.1) root = if prev ≠ none then [44] else [] := by
      simp only [comma, show n.previous = prev from hprev, and_iff_left hrootc]
    have hroot' : ¬(n.parent = none ∨ some c.1 = root) := by
      rw [hparent']
      exact fun h => h.elim (Option.some_ne_none a) hrootc
    rw [isLabel_eq hparent' ha, hlabel', hcomma] at hopen
    rw [Forest.map, print, ← Written.andThen_assoc]
    refine hopen.andThen fun out₁ hR₁ => ?_
    have hclose : Writes put R heap root (.state2, some c.1, out₁) _ _ _ _ :=
      writes_close hput hn hR₁
    rw [if_neg hroot', if_neg hroot', hparent', show n.type = c.2.1 from congrArg Prod.fst hlabel']
      at hclose
    refine hclose.andThen fun out₂ hR₂ => ?_
    cases rest with
    | nil =>
      have hnext : n.next = none := hrest.1
      rw [if_neg (not_not_intro hnext), if_neg (not_not_intro hnext)]
      exact Writes.refl hR₂
    | cons d K rest' =>
      have hnext : n.next ≠ none := fun h => Option.some_ne_none d.1 (hrest.1.symm.trans h)
      rw [if_pos hnext, if_pos hnext]
      exact ihr hrest (fun h => by cases h) ha hrootr hspelledr hR₂

/-- **A value of a document.** -/
theorem writes_value (hput : Sink put R) {W : List Doc} {K : Doc} {r : ℕ} {l : Label}
    (h : Holds heap W) (hF : F ∈ W) (hfind : find r F = some (l, K))
    (hspelled : ∀ x ∈ F.labels, Spelled x.2) (hR : R out s) :
    ∃ n, heap r = some n ∧ Writes put R heap (some r) (.state1, some r, out) s
      (print (isLabel heap n) (tree l (K.map Prod.snd))) .finish (some r) := by
  obtain ⟨z, lz, kids, rfl, hdet⟩ := h.detached F hF
  have hnodup : (addrs (tree (z, lz) kids)).Nodup := (List.nodup_flatMap.mp h.nodup).1 _ hF
  obtain ⟨k, hk, hlabel, hkids⟩ := Seg.find hdet hfind
  obtain ⟨n, hn, rfl⟩ := nodes_eq_some.mp hk
  obtain ⟨hl, hK⟩ := mem_labels_of_find hfind
  obtain ⟨-, -, hpar⟩ := Seg.links hdet (mem_addrs_of_find hfind).1 hk
  have hlabel' : (n.type, n.text) = l := hlabel
  have hleaf : n.child = none ↔ K.map Prod.snd = .nil := by
    rw [show n.child = n.node.child from rfl, child_eq_none_iff hkids]
    cases K <;> simp [Forest.map]
  have hroot := (List.nodup_cons.mp (notMem_of_find hnodup hfind)).1
  have hopen : Writes put R heap (some r) (.state1, some r, out) s _ .state2 (some r) :=
    writes_open hput hn (fun a ha => by
      rcases hpar with hnone | ⟨m, hm, hsome⟩
      · exact absurd (hnone.symm.trans ha) (Option.some_ne_none a).symm
      · obtain rfl := Option.some.inj (hsome.symm.trans ha)
        exact (h.isSome m).mpr (List.mem_flatMap_of_mem hF hm)) (hlabel' ▸ hspelled _ hl) hleaf
      (fun out s hR hne => by
        refine writes_row hput hkids (fun h => hne (by rw [h]; rfl)) hn (fun x hx heq => ?_)
          (fun x hx => hspelled x (hK hx)) hR
        exact hroot (Option.some.inj heq ▸ hx)) hR
  have hcomma : comma n (some r) (some r) = [] := if_neg fun h => h.2 rfl
  rw [hcomma, Written.nil_andThen, hlabel'] at hopen
  refine ⟨n, hn, ?_⟩
  rw [tree, print]
  refine hopen.andThen fun out₁ hR₁ => ?_
  have hclose : Writes put R heap (some r) (.state2, some r, out₁) _ _ _ _ :=
    writes_close hput hn hR₁
  have hfinish : n.parent = none ∨ some r = some r := .inr rfl
  rw [if_pos hfinish, if_pos hfinish, show n.type = l.1 from congrArg Prod.fst hlabel'] at hclose
  rw [show isNil (.nil : Forest Label) = true from rfl, if_pos rfl, Written.andThen_nil]
  exact hclose

end Row

/-! ## The two printers -/

section Print

variable {heap : JsonHeap} {W : List Doc} {F K : Doc} {r : ℕ} {l : Label}

/-- **`json_tree_to_string`** of any value in memory: its text, or that the document is not well
formed where a label has no value. -/
theorem json_tree_to_string_eq (h : Holds heap W) (hF : F ∈ W) (hfind : find r F = some (l, K))
    (hspelled : ∀ x ∈ F.labels, Spelled x.2) (fresh : ℕ → UInt8) :
    ∃ n fuel₀, heap r = some n ∧ ∀ fuel > fuel₀, json_tree_to_string fresh heap (some r) fuel
      = .ok (match print (isLabel heap n) (tree l (K.map Prod.snd)) with
        | (text, true) => (.JSON_OK, some text)
        | (_, false) => (.JSON_BAD_TREE_STRUCTURE, none)) := by
  obtain ⟨output, hcreate, hR⟩ := rcs_create_eq fresh RSTRING_DEFAULT
  obtain ⟨n, hn, k, output', ⟨hR', hfree⟩, hturns⟩ :=
    writes_value (sink_rcs fresh) h hF hfind hspelled
    ⟨hR, List.not_mem_nil⟩
  refine ⟨n, k, hn, fun fuel hfuel => ?_⟩
  unfold json_tree_to_string
  rw [show assert (some r ≠ none) = .ok () from if_pos (Option.some_ne_none r), ok_bind, hcreate,
    ok_bind]
  generalize print (isLabel heap n) (tree l (K.map Prod.snd)) = w at hR' hfree hturns ⊢
  obtain ⟨text, b⟩ := w
  cases b with
  | true =>
    rw [hturns.loop_done rfl hfuel, ok_bind]
    dsimp only
    rw [hR'.unwrap hfree]
    rfl
  | false =>
    obtain ⟨cursor, hturns⟩ := hturns
    rw [hturns.loop_done rfl hfuel]
    rfl

/-- **`json_stream_output`** of any value in memory: its text and the end of the line, or only
the text in front of the end of a label that has no value. The code has no stack. It goes down by
`child`, along by `next` and up by `parent`, so that the induction is on the tree below the
cursor, with what is written on the way from its first value to the way up again. -/
theorem json_stream_output_eq (h : Holds heap W) (hF : F ∈ W) (hfind : find r F = some (l, K))
    (hspelled : ∀ x ∈ F.labels, Spelled x.2) (file : List UInt8) :
    ∃ n fuel₀, heap r = some n ∧ ∀ fuel > fuel₀, json_stream_output heap file (some r) fuel
      = .ok (match print (isLabel heap n) (tree l (K.map Prod.snd)) with
        | (text, true) => (.JSON_OK, file ++ text ++ [10])
        | (text, false) => (.JSON_BAD_TREE_STRUCTURE, file ++ text)) := by
  obtain ⟨n, hn, k, file', hR', hturns⟩ := writes_value sink_file h hF hfind hspelled rfl
  refine ⟨n, k, hn, fun fuel hfuel => ?_⟩
  unfold json_stream_output
  rw [show assert (some r ≠ none) = .ok () from if_pos (Option.some_ne_none r), ok_bind]
  generalize print (isLabel heap n) (tree l (K.map Prod.snd)) = w at hR' hturns ⊢
  obtain ⟨text, b⟩ := w
  subst hR'
  cases b with
  | true =>
    rw [hturns.loop_done rfl hfuel]
    rfl
  | false =>
    obtain ⟨cursor, hturns⟩ := hturns
    rw [hturns.loop_done rfl hfuel]
    rfl

end Print

/-- An object with one field. -/
theorem exists_field : ∃ heap, Holds heap [tree (10, (JSON_OBJECT, none))
    (tree (30, (JSON_STRING, some (ascii "a")))
      (tree (20, (JSON_NUMBER, some (ascii "7"))) .nil))] := by
  have h₁ := Holds.empty.update (p := 20) rfl JSON_NUMBER (some (ascii "7"))
  have h₂ := h₁.update (p := 10) rfl JSON_OBJECT none
  obtain ⟨heap, -, h⟩ : ∃ heap,
      json_insert_pair_into_object _ (some 10) (some (ascii "a")) (some 20) (some 30)
        = .ok (heap, _) ∧ Holds heap _ := h₂.pair rfl rfl
  exact ⟨heap, h⟩

theorem json_stream_output_eq_field : ∃ heap n fuel₀, heap 10 = some n ∧ ∀ fuel > fuel₀,
    json_stream_output heap [33] (some 10) fuel
      = .ok (.JSON_OK, [33, 123, 34, 97, 34, 58, 55, 125, 10]) := by
  obtain ⟨heap, h⟩ := exists_field
  have hspelled : ∀ x ∈ [(10, (JSON_OBJECT, none)), (30, (JSON_STRING, some (ascii "a"))),
      (20, (JSON_NUMBER, some (ascii "7")))], Spelled x.2 := by
    simp [Spelled, NulFree, ascii]
  obtain ⟨n, fuel₀, hn, hrun⟩ :=
    json_stream_output_eq h List.mem_cons_self (r := 10) rfl hspelled [33]
  exact ⟨heap, n, fuel₀, hn, hrun⟩

end Mjson
