import AllServer.Util.Decimal
import AllServer.Util.Heap
import Mathlib.Data.Option.Basic

/-!
# Indexed access to JSON children

The children of a JSON node are linked through `next`, and a child that is
inserted becomes the last one. `json_array_size` counts them, and
`json_array_at` goes along them with a cursor and an index – but the index is
never counted up. So it finds the first child and nothing else
(`Mjson.json_array_at_eq`), and a value that is pushed is found at its index only
where it is the first (`Mjson.json_array_access_iff`).
-/

namespace Mjson

/-- `enum json_value_type`. -/
inductive json_value_type where
  | JSON_STRING | JSON_NUMBER | JSON_OBJECT | JSON_ARRAY | JSON_TRUE | JSON_FALSE | JSON_NULL
  deriving DecidableEq

open json_value_type

/-- `enum json_error`, as far as an insertion returns it. -/
inductive json_error where
  | JSON_OK | JSON_BAD_TREE_STRUCTURE

/-- **A node of a JSON document.** -/
structure json_t where
  type : json_value_type
  text : Option (List UInt8)
  next : Option ℕ
  previous : Option ℕ
  parent : Option ℕ
  child : Option ℕ
  child_end : Option ℕ

/-- The nodes there are. -/
abbrev JsonHeap := Heap json_t

/-- An assertion that fails ends the program. -/
def assert (c : Prop) [Decidable c] : Except Fault Unit := if c then .ok () else .error .thrown

/-! ## The code -/

/-- `json_new_value`: a node without text. It is put at `pNew`, which is `none` where the
memory is used up. -/
def json_new_value (type : json_value_type) (heap : JsonHeap) (pNew : Option ℕ) :
    JsonHeap × Option ℕ :=
  match pNew with
  | none => (heap, none)
  | some p =>
    (Function.update heap p (some
      { type, text := none, next := none, previous := none, parent := none, child := none,
        child_end := none }), some p)

/-- `json_new_array`. -/
def json_new_array := json_new_value JSON_ARRAY

/-- `json_new_string` and `json_new_number`: a node with a copy of a text. -/
def json_new_text (type : json_value_type) (heap : JsonHeap) (pNew : Option ℕ)
    (text : Option (List UInt8)) : Except Fault (JsonHeap × Option ℕ) := do
  assert (text ≠ none)
  match pNew with
  | none => return (heap, none)
  | some p =>
    return (Function.update heap p (some
      { type, text := text.map cstr, next := none, previous := none, parent := none,
        child := none, child_end := none }), some p)

/-- `json_new_string`. -/
def json_new_string := json_new_text JSON_STRING

/-- `json_new_number`. -/
def json_new_number := json_new_text JSON_NUMBER

/-- The switch of `json_insert_child`: whether a node may be a child of another. -/
def json_insert_child.accepts (parent child : json_t) : Bool :=
  match parent.type with
  | JSON_STRING => match child.type with
    | JSON_STRING | JSON_NUMBER | JSON_TRUE | JSON_FALSE | JSON_NULL => child.child = none
    | JSON_OBJECT | JSON_ARRAY => true
  | JSON_OBJECT => child.type = JSON_STRING
  | JSON_ARRAY => match child.type with
    | JSON_STRING | JSON_TRUE | JSON_FALSE | JSON_NULL | JSON_NUMBER => child.child = none
    | JSON_OBJECT | JSON_ARRAY => true
  | _ => false

/-- `json_insert_child`, where the links are set. -/
def json_insert_child.link (heap : JsonHeap) (parent child : Option ℕ) : Except Fault JsonHeap := do
  let heap ← heap.store child ({ · with parent })
  if (← heap.load parent).child ≠ none then
    let child_end := (← heap.load parent).child_end
    let heap ← heap.store child ({ · with previous := child_end })
    let heap ← heap.store (← heap.load parent).child_end ({ · with next := child })
    heap.store parent ({ · with child_end := child })
  else
    let heap ← heap.store parent ({ · with child })
    heap.store parent ({ · with child_end := child })

/-- `json_insert_child`. -/
def json_insert_child (heap : JsonHeap) (parent child : Option ℕ) :
    Except Fault (JsonHeap × json_error) := do
  assert (parent ≠ none)
  assert (child ≠ none)
  assert (parent ≠ child)
  if json_insert_child.accepts (← heap.load parent) (← heap.load child) then
    return (← json_insert_child.link heap parent child, .JSON_OK)
  else
    return (heap, .JSON_BAD_TREE_STRUCTURE)

/-- A turn of `json_array_size`, with the state `count` and `walk`. -/
def json_array_size.turn (heap : JsonHeap) :
    Int32 × Option ℕ → Except Fault (ForInStep (Int32 × Option ℕ) × List ℕ)
  | (count, none) => .ok (.done (count, none), [])
  | (count, some walk) => do
    let count := count + 1
    return (.yield (count, (← heap.load walk).next), [walk])

/-- `json_array_size`. -/
def json_array_size (heap : JsonHeap) (parent : Option ℕ) (fuel : ℕ) : Except Fault Int32 := do
  let walk := (← heap.load parent).child
  let ((count, _), _) ← whileTrue (json_array_size.turn heap) fuel (0, walk)
  return count

/-- A turn of `json_array_at`, with the state `j_key` and `index`. -/
def json_array_at.turn (heap : JsonHeap) (i : Int32) :
    Option ℕ × Int32 → Except Fault (ForInStep (Option ℕ × Int32) × List ℕ)
  | (none, index) => .ok (.done (none, index), [])
  | (some j_key, index) => do
    if index = i then
      return (.done (some j_key, index), [])
    -- `index` is not counted up
    return (.yield ((← heap.load j_key).next, index), [j_key])

/-- `json_array_at`: the pointer at which the loop ends is the one that is returned. -/
def json_array_at (heap : JsonHeap) (parent : Option ℕ) (i : Int32) (fuel : ℕ) :
    Except Fault (Option ℕ) := do
  let j_key := (← heap.load parent).child
  let ((j_key, _), _) ← whileTrue (json_array_at.turn heap i) fuel (j_key, 0)
  return j_key

/-- `json_array_push_number`: `fresh` is what was in `buf`. -/
def json_array_push_number (heap : JsonHeap) (parent : Option ℕ) (value : Int32)
    (pNew : Option ℕ) (fresh : ℕ → UInt8) : Except Fault JsonHeap := do
  let buf ← (MemBlock.ofFn fresh 16).store 0 (intDecimal value.toInt ++ [0])
  let (heap, j_value) ← json_new_number heap pNew (some (← buf.str))
  let (heap, _) ← json_insert_child heap parent j_value
  return heap

/-- `json_array_push_string`. -/
def json_array_push_string (heap : JsonHeap) (parent : Option ℕ) (value : Option (List UInt8))
    (pNew : Option ℕ) : Except Fault JsonHeap := do
  let (heap, j_value) ← json_new_string heap pNew value
  let (heap, _) ← json_insert_child heap parent j_value
  return heap

/-! ## Nodes with children -/

/-- **A node with its children**: an array or an object, and what following `next` from
its first child finds. -/
structure Children (heap : JsonHeap) (parent : ℕ) (node : json_t) (cs : List ℕ) : Prop where
  heap_eq : heap parent = some node
  type : node.type = JSON_ARRAY ∨ node.type = JSON_OBJECT
  follows : Follows (heap.field json_t.next) node.child cs

/-- **The child at an index**, if it is an index. -/
def childAt (cs : List ℕ) (i : Int32) : Option ℕ := if 0 ≤ i.toInt then cs[i.toInt.toNat]? else none

/-- **Indexed access finds what has been pushed**: at the index behind the children that
there were, and at the others what was found before. -/
def FindsPushed (heap : JsonHeap) (parent : ℕ) (cs : List ℕ) (p : ℕ)
    (pushed : Except Fault JsonHeap) : Prop :=
  ∃ heap', pushed = .ok heap'
    ∧ (∃ i : Int32, i.toInt = cs.length
      ∧ ∀ fuel > cs.length + 1, json_array_at heap' parent i fuel = .ok (some p))
    ∧ ∀ i : Int32, 0 ≤ i.toInt → i.toInt < cs.length → ∀ fuel > cs.length + 1,
      json_array_at heap' parent i fuel = json_array_at heap parent i fuel

section Access

variable {heap : JsonHeap} {parent : ℕ} {node : json_t} {cs : List ℕ} {i : Int32} {fuel : ℕ}

/-- **`json_array_size` counts the children**, as far as an `int` can. -/
theorem json_array_size_eq (h : Children heap parent node cs) (hfuel : cs.length < fuel) :
    json_array_size heap parent fuel = .ok (Int32.ofNat cs.length) := by
  have hturn : ∀ xs₁ x xs₂, cs = xs₁ ++ x :: xs₂ →
      json_array_size.turn heap (Int32.ofNat xs₁.length, (x :: xs₂).head?)
        = .ok (.yield (Int32.ofNat (xs₁ ++ [x]).length, xs₂.head?), [x]) := by
    rintro xs₁ x xs₂ rfl
    obtain ⟨n, hn, hnext⟩ := Heap.field_eq_some.mp h.follows.next_eq
    rw [List.head?_cons, json_array_size.turn, Heap.load_eq_ok hn, ok_bind, hnext,
      List.length_append, List.length_singleton, Int32.ofNat_add]
    rfl
  have hloop := whileTrue_all cs (fun xs₁ xs₂ => (Int32.ofNat xs₁.length, xs₂.head?))
    (fun x => [x]) hturn rfl hfuel
  unfold json_array_size
  rw [Heap.load_eq_ok h.heap_eq, ok_bind, h.follows.eq_head?]
  dsimp only
  rw [show (0 : Int32) = Int32.ofNat ([] : List ℕ).length from rfl, hloop]
  rfl

/-- **`json_array_at` finds the first child**, at index 0, and nothing else. -/
theorem json_array_at_eq (h : Children heap parent node cs) (hfuel : cs.length < fuel) :
    json_array_at heap parent i fuel = .ok (if i = 0 then cs.head? else none) := by
  unfold json_array_at
  rw [Heap.load_eq_ok h.heap_eq, ok_bind, h.follows.eq_head?]
  by_cases hi : i = 0
  · subst hi
    obtain ⟨k, rfl⟩ := Nat.exists_eq_add_of_lt hfuel
    rw [if_pos rfl]
    have hdone : json_array_at.turn heap 0 (cs.head?, 0) = .ok (.done (cs.head?, 0), []) := by
      cases cs <;> rfl
    dsimp only
    rw [whileTrue_done hdone]
    rfl
  · have hturn : ∀ xs₁ x xs₂, cs = xs₁ ++ x :: xs₂ →
        json_array_at.turn heap i ((x :: xs₂).head?, 0) = .ok (.yield (xs₂.head?, 0), [x]) := by
      rintro xs₁ x xs₂ rfl
      obtain ⟨n, hn, hnext⟩ := Heap.field_eq_some.mp h.follows.next_eq
      rw [List.head?_cons, json_array_at.turn, if_neg (Ne.symm hi), Heap.load_eq_ok hn, ← hnext]
      rfl
    have hloop := whileTrue_all cs (fun _ xs₂ => (xs₂.head?, (0 : Int32))) (fun x => [x]) hturn rfl
      hfuel
    rw [if_neg hi]
    dsimp only
    rw [hloop]
    rfl

end Access

/-! ## Pushing a value -/

section Push

variable {heap : JsonHeap} {parent p : ℕ} {node new : json_t} {cs : List ℕ}

/-- There is a node for every child. -/
theorem Children.isSome (h : Children heap parent node cs) {x : ℕ} (hx : x ∈ cs) :
    (heap x).isSome = true := by
  obtain ⟨l, r, rfl⟩ := List.append_of_mem hx
  obtain ⟨n, hn, -⟩ := Heap.field_eq_some.mp h.follows.next_eq
  exact hn ▸ rfl

theorem json_insert_child_eq (hnode : heap parent = some node) (hp : heap p = some new)
    (hne : p ≠ parent) :
    json_insert_child heap parent p
      = if json_insert_child.accepts node new then (do
          return (← json_insert_child.link heap parent p, .JSON_OK))
        else .ok (heap, .JSON_BAD_TREE_STRUCTURE) := by
  have hne' : some parent ≠ some p := fun heq => hne (Option.some.inj heq).symm
  unfold json_insert_child assert
  rw [if_pos (Option.some_ne_none parent), ok_bind, if_pos (Option.some_ne_none p), ok_bind,
    if_pos hne', ok_bind, Heap.load_eq_ok hnode, ok_bind, Heap.load_eq_ok hp, ok_bind]
  rfl

/-- **A node that is on no list yet**, beside a node with its children. -/
structure Beside (heap : JsonHeap) (parent : ℕ) (node : json_t) (cs : List ℕ) (p : ℕ) : Prop
    extends Children heap parent node cs where
  ne_parent : p ≠ parent
  not_mem : p ∉ cs
  next_eq : heap.field json_t.next p = some none

/-- An assignment that is not to its link. -/
theorem Beside.modify (h : Beside heap parent node cs p) {f : json_t → json_t}
    (hf : ∀ n, (f n).next = n.next) : Beside (heap.modify p f) parent node cs p where
  heap_eq := (Heap.modify_of_ne h.ne_parent.symm).trans h.heap_eq
  type := h.type
  follows := (Heap.field_modify hf).symm ▸ h.follows
  ne_parent := h.ne_parent
  not_mem := h.not_mem
  next_eq := (Heap.field_modify hf).symm ▸ h.next_eq

theorem Beside.isSome (h : Beside heap parent node cs p) : (heap p).isSome = true := by
  obtain ⟨n, hn, -⟩ := Heap.field_eq_some.mp h.next_eq
  exact hn ▸ rfl

/-- **The first child.** -/
theorem Beside.link_first (h : Beside heap parent node [] p) :
    ∃ heap' node', json_insert_child.link heap parent p = .ok heap'
      ∧ Children heap' parent node' [p] ∧ node'.child_end = some p := by
  have hchild : node.child = none := h.follows
  unfold json_insert_child.link
  rw [Heap.store_eq_ok h.isSome, ok_bind]
  have h₁ := h.modify (f := ({ · with parent := some parent })) fun _ => rfl
  generalize heap.modify p _ = heap₁ at h₁ ⊢
  have hnode := Heap.modify_self (f := ({ · with child := some p })) h₁.heap_eq
  rw [Heap.load_eq_ok h₁.heap_eq, ok_bind, if_neg (not_not_intro hchild),
    Heap.store_eq_ok (h₁.heap_eq ▸ rfl), ok_bind, Heap.store_eq_ok (hnode ▸ rfl)]
  refine ⟨_, _, rfl, ⟨Heap.modify_self hnode, h.type, rfl, none, ?_, rfl⟩, rfl⟩
  rw [Heap.field_modify, Heap.field_modify, h₁.next_eq]
  · exact fun _ => rfl
  · exact fun _ => rfl

/-- **A child behind the last one.** -/
theorem Beside.link_last {l : List ℕ} {y : ℕ} (h : Beside heap parent node (l ++ [y]) p)
    (hend : node.child_end = some y) :
    ∃ heap' node', json_insert_child.link heap parent p = .ok heap'
      ∧ Children heap' parent node' (l ++ [y] ++ [p]) ∧ node'.child_end = some p := by
  have hchild : node.child ≠ none := by
    rw [h.follows.eq_head?]
    cases l <;> exact Option.some_ne_none _
  unfold json_insert_child.link
  rw [Heap.store_eq_ok h.isSome, ok_bind]
  have h₁ := h.modify (f := ({ · with parent := some parent })) fun _ => rfl
  generalize heap.modify p _ = heap₁ at h₁ ⊢
  rw [Heap.load_eq_ok h₁.heap_eq, ok_bind, if_pos hchild, ok_bind]
  dsimp only
  rw [Heap.store_eq_ok h₁.isSome, ok_bind]
  have h₂ := h₁.modify (f := ({ · with previous := node.child_end })) fun _ => rfl
  generalize heap₁.modify p _ = heap₂ at h₂ ⊢
  have hsome : (heap₂ y).isSome = true := h₂.toChildren.isSome List.mem_concat_self
  -- the last child may be the parent itself
  obtain ⟨n, hn, htype, hchild'⟩ : ∃ n, heap₂.modify y ({ · with next := some p }) parent = some n
      ∧ n.type = node.type ∧ n.child = node.child := by
    by_cases hy : parent = y
    · subst hy
      exact ⟨_, Heap.modify_self h₂.heap_eq, rfl, rfl⟩
    · exact ⟨node, (Heap.modify_of_ne hy).trans h₂.heap_eq, rfl, rfl⟩
  rw [Heap.load_eq_ok h₂.heap_eq, ok_bind, hend, Heap.store_eq_ok hsome, ok_bind,
    Heap.store_eq_ok (hn ▸ rfl)]
  refine ⟨_, _, rfl, ⟨Heap.modify_self hn, htype ▸ h.type, ?_⟩, rfl⟩
  have hnext := Heap.field_modify_of_eq (f := ({ · with next := some p })) (g := json_t.next)
    (fun _ => rfl) hsome
  rw [Heap.field_modify, hnext]
  · have hpy : p ≠ y := (ne_of_mem_of_not_mem List.mem_concat_self h.not_mem).symm
    obtain ⟨-, -, hdisjoint⟩ := List.nodup_append.mp h.follows.nodup
    refine (hchild' ▸ h₂.follows).concat (fun z hz => ?_) (Function.update_self _ _ _) ?_
    · exact Function.update_of_ne (hdisjoint z hz y (List.mem_singleton_self y)) _ _
    · rw [Function.update_of_ne hpy, h₂.next_eq]
  · exact fun _ => rfl

/-- **A child becomes the last one.** -/
theorem Beside.link (h : Beside heap parent node cs p) (hend : node.child_end = cs.getLast?) :
    ∃ heap' node', json_insert_child.link heap parent p = .ok heap'
      ∧ Children heap' parent node' (cs ++ [p]) ∧ node'.child_end = some p := by
  rcases List.eq_nil_or_concat' cs with rfl | ⟨l, y, rfl⟩
  · exact h.link_first
  · exact h.link_last (hend.trans List.getLast?_concat)

/-- A node that has just been made. -/
def newText (type : json_value_type) (text : List UInt8) : json_t :=
  { type, text := some (cstr text), next := none, previous := none, parent := none, child := none,
    child_end := none }

/-- A node that has just been made is on no list. -/
theorem Children.beside (h : Children heap parent node cs) (hp : heap p = none)
    (hnext : new.next = none) : Beside (Function.update heap p (some new)) parent node cs p := by
  have hne : p ≠ parent := by
    rintro rfl
    cases hp.symm.trans h.heap_eq
  have hpcs : p ∉ cs := fun hmem => by
    have hsome := h.isSome hmem
    rw [hp] at hsome
    cases hsome
  refine ⟨⟨(Function.update_of_ne hne.symm _ _).trans h.heap_eq, h.type,
    h.follows.congr fun x hx => ?_⟩, hne, hpcs, ?_⟩
  · rw [Heap.field_update, Function.update_of_ne (ne_of_mem_of_not_mem hx hpcs)]
  · rw [Heap.field_update, Function.update_self, hnext]

/-- **What has been pushed is found** exactly if it is accepted and is the first child. -/
theorem findsPushed_iff (h : Children heap parent node cs) (hend : node.child_end = cs.getLast?)
    (hp : heap p = none) (hnext : new.next = none) :
    FindsPushed heap parent cs p (do
        let (heap, _) ← json_insert_child (Function.update heap p (some new)) parent p
        return heap)
      ↔ cs = [] ∧ json_insert_child.accepts node new = true := by
  have hbeside := h.beside hp hnext
  have hnew : Function.update heap p (some new) p = some new := Function.update_self _ _ _
  have hzero : (0 : Int32).toInt = 0 := rfl
  rw [json_insert_child_eq hbeside.heap_eq hnew hbeside.ne_parent]
  cases hacc : json_insert_child.accepts node new with
  | true =>
    obtain ⟨heap', node', hlink, hch', -⟩ := hbeside.link hend
    rw [if_pos rfl, hlink, and_iff_left rfl]
    have hlen : (cs ++ [p]).length = cs.length + 1 := List.length_append
    constructor
    · rintro ⟨heap'', heq, ⟨i, hi, hat⟩, -⟩
      obtain rfl := Except.ok.inj heq
      have hat := hat (cs.length + 2) (Nat.lt_succ_self _)
      rw [json_array_at_eq hch' (by omega)] at hat
      split_ifs at hat with hi0
      · rw [hi0, hzero] at hi
        exact List.length_eq_zero_iff.mp (by omega)
      · cases hat
    · rintro rfl
      refine ⟨heap', rfl, ⟨0, rfl, fun fuel hfuel => ?_⟩, fun i h₀ h => absurd h (not_lt.mpr h₀)⟩
      exact json_array_at_eq hch' hfuel
  | false =>
    rw [if_neg Bool.false_ne_true]
    refine ⟨?_, fun hfalse => absurd hfalse.2 Bool.false_ne_true⟩
    rintro ⟨heap'', heq, ⟨i, -, hat⟩, -⟩
    obtain rfl := Except.ok.inj heq
    have hat := hat (cs.length + 2) (Nat.lt_succ_self _)
    rw [json_array_at_eq hbeside.toChildren (by omega)] at hat
    split_ifs at hat with hi0
    · exact absurd (List.mem_of_head? (Except.ok.inj hat)) hbeside.not_mem
    · cases hat

theorem json_array_push_string_eq (heap : JsonHeap) (parent p : ℕ) (value : List UInt8) :
    json_array_push_string heap parent (some value) (some p) = (do
      let (heap, _) ← json_insert_child
        (Function.update heap p (some (newText JSON_STRING value))) parent p
      return heap) := rfl

/-- **The text of a number fits in `buf`.** -/
theorem json_array_push_number_eq (heap : JsonHeap) (parent p : ℕ) (value : Int32)
    (fresh : ℕ → UInt8) :
    json_array_push_number heap parent value (some p) fresh = (do
      let (heap, _) ← json_insert_child
        (Function.update heap p (some (newText JSON_NUMBER (intDecimal value.toInt)))) parent p
      return heap) := by
  have hlen : (intDecimal value.toInt ++ [0]).length ≤ 16 := by
    have hlo := value.le_toInt
    have hhi := value.toInt_lt
    have hdecimal : (intDecimal value.toInt).length ≤ 9 + 2 := length_intDecimal_le (by omega)
    rw [List.length_append, List.length_singleton]
    omega
  obtain ⟨buf, hbuf, hslice⟩ := (MemBlock.ofFn fresh 16).exists_store _ hlen
  have hstr := MemBlock.str_of_slice (nulFree_intDecimal _) [] hslice
  unfold json_array_push_number
  rw [hbuf, ok_bind, hstr]
  rfl

end Push

/-! ## Indexed access -/

/-- The child at an index is the first one, or none, exactly if the index is not that of
another. -/
theorem childAt_eq_iff (cs : List ℕ) (i : Int32) :
    (if i = 0 then cs.head? else none) = childAt cs i ↔ ¬ (1 ≤ i.toInt ∧ i.toInt < cs.length) := by
  have hzero : (0 : Int32).toInt = 0 := rfl
  unfold childAt
  by_cases hi : i = 0
  · rw [if_pos hi, hi, hzero, if_pos le_rfl]
    simp [List.head?_eq_getElem?]
  · have hne : i.toInt ≠ 0 := fun heq => hi (Int32.toInt_inj.mp (heq.trans hzero.symm))
    rw [if_neg hi]
    split_ifs with h₀
    · rw [eq_comm, List.getElem?_eq_none_iff]
      omega
    · exact iff_of_true rfl (by omega)

/-- **Indexed access agrees with the child list** exactly where the index is 0 or is out
of range: the size is right as far as an `int` can count, an index of another
child finds none, and what is pushed is found at its index exactly if it is the
first child and the node takes it – an array takes both, an object a string. -/
theorem json_array_access_iff (heap : JsonHeap) (parent : ℕ) (node : json_t) (cs : List ℕ)
    (h : Children heap parent node cs) :
    ((∃ count, (∀ fuel > cs.length, json_array_size heap parent fuel = .ok count)
        ∧ count.toInt = cs.length) ↔ cs.length < 2 ^ 31)
    ∧ (∀ i, (∀ fuel > cs.length, json_array_at heap parent i fuel = .ok (childAt cs i))
        ↔ ¬ (1 ≤ i.toInt ∧ i.toInt < cs.length))
    ∧ ∀ p, heap p = none → node.child_end = cs.getLast? →
      (∀ value fresh, FindsPushed heap parent cs p
          (json_array_push_number heap parent value (some p) fresh)
        ↔ cs = [] ∧ node.type = JSON_ARRAY)
      ∧ ∀ value, FindsPushed heap parent cs p
          (json_array_push_string heap parent (some value) (some p)) ↔ cs = [] := by
  refine ⟨⟨fun ⟨count, hcount, heq⟩ => ?_, fun hlt => ?_⟩, fun i => ?_, fun p hp hend => ⟨?_, ?_⟩⟩
  · have hlt := count.toInt_lt
    omega
  · exact ⟨_, fun fuel hfuel => json_array_size_eq h hfuel, Int32.toInt_ofNat_of_lt hlt⟩
  · rw [← childAt_eq_iff cs i]
    refine ⟨fun hat => ?_, fun heq fuel hfuel => heq ▸ json_array_at_eq h hfuel⟩
    exact Except.ok.inj ((json_array_at_eq h (Nat.lt_succ_self _)).symm.trans
      (hat _ (Nat.lt_succ_self _)))
  · intro value fresh
    rw [json_array_push_number_eq, findsPushed_iff h hend hp rfl]
    rcases h.type with htype | htype <;> simp [json_insert_child.accepts, htype, newText]
  · intro value
    rw [json_array_push_string_eq, findsPushed_iff h hend hp rfl]
    rcases h.type with htype | htype <;> simp [json_insert_child.accepts, htype, newText]

/-- An array to which 7 and 8 are pushed, with the nodes at 0, 1 and 2. -/
def pushTwo : Except Fault JsonHeap := do
  let (heap, root) := json_new_array (fun _ => none) (some 0)
  let heap ← json_array_push_number heap root 7 (some 1) (fun _ => 0)
  json_array_push_number heap root 8 (some 2) (fun _ => 0)

theorem exists_pushTwo : ∃ heap node, pushTwo = .ok heap ∧ Children heap 0 node [1, 2] :=
  ⟨_, _, rfl, rfl, .inl rfl, rfl, some 2, rfl, rfl, none, rfl, rfl⟩

/-- The first child of that array is found, and the second one is not. -/
theorem json_array_access_iff_two : ∃ heap, pushTwo = .ok heap
    ∧ (∀ fuel > 2, json_array_at heap (some 0) 0 fuel = .ok (some 1))
    ∧ ¬ ∀ fuel > 2, json_array_at heap (some 0) 1 fuel = .ok (some 2) := by
  obtain ⟨heap, node, hheap, h⟩ := exists_pushTwo
  obtain ⟨-, hat, -⟩ := json_array_access_iff heap 0 node [1, 2] h
  exact ⟨heap, hheap, (hat 0).mpr (by decide), fun h => (hat 1).mp h (by decide)⟩

/-- At index 1 of that array there is the child 2, and `NULL` is returned. -/
theorem not_json_array_access : ∃ heap node, pushTwo = .ok heap ∧ Children heap 0 node [1, 2]
    ∧ childAt [1, 2] 1 = some 2 ∧ ∀ fuel > 2, json_array_at heap (some 0) 1 fuel = .ok none := by
  obtain ⟨heap, node, hheap, h⟩ := exists_pushTwo
  exact ⟨heap, node, hheap, h, rfl, fun fuel hfuel => json_array_at_eq h hfuel⟩

end Mjson
