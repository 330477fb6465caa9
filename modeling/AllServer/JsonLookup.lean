import AllServer.JsonPrint

/-!
# Looking up a label

`json_find_first_label` goes along the labels of an object and compares texts; `json_object_at`
returns the value of the label that is found. On any object of the documents in memory they find the
first label with the text and its value, and nothing where there is no such label
(`Mjson.json_object_at_eq`).
-/

namespace Mjson

open json_value_type json_status Forest

/-! ## The code -/

/-- The loop of `json_find_first_label`. -/
def json_find_first_label.loop (heap : JsonHeap) (text_label : List UInt8) :
    ℕ → Option ℕ → Except Fault (Option ℕ)
  | 0, _ => .error .fuel
  | _ + 1, none => .ok none
  | fuel + 1, some cursor => do
    let n ← heap.load (some cursor)
    match n.text with
    | none => .error .null
    | some text =>
      if cstr text = cstr text_label then .ok (some cursor)
      else json_find_first_label.loop heap text_label fuel n.next

/-- `json_find_first_label`. -/
def json_find_first_label (heap : JsonHeap) (object : Option ℕ) (text_label : Option (List UInt8))
    (fuel : ℕ) : Except Fault (Option ℕ) := do
  assert (object ≠ none)
  assert (text_label ≠ none)
  let n ← heap.load object
  assert (n.type = JSON_OBJECT)
  json_find_first_label.loop heap (text_label.getD []) fuel n.child

/-- `json_object_at`. -/
def json_object_at (heap : JsonHeap) (parent : Option ℕ) (key : Option (List UInt8)) (fuel : ℕ) :
    Except Fault (Option ℕ) := do
  let j_key ← json_find_first_label heap parent key fuel
  if j_key = none then return none
  return (← heap.load j_key).child

/-! ## What it finds -/

/-- The trees of a row beside each other, without what is below them. -/
def topNodes : Doc → List (ℕ × Label)
  | nil => []
  | cons a _ rest => a :: topNodes rest

/-- The pointer to the first one. -/
def firstNode : Doc → Option ℕ
  | nil => none
  | cons a _ _ => some a.1

/-- **The first label with a text**, and what is below it. -/
def firstLabel (key : List UInt8) : Doc → Option (ℕ × Doc)
  | nil => none
  | cons a kids rest => if a.2.2 = some key then some (a.1, kids) else firstLabel key rest

section Lookup

variable {heap : JsonHeap} {parent prev p last : Option ℕ} {K : Doc} {key : List UInt8}

theorem eq_firstNode (h : Seg (nodes heap) parent prev p last none K) : p = firstNode K := by
  cases K with
  | nil => exact h.1
  | cons a kids rest => exact h.1

/-- The label that is found is in memory, with what is below it. -/
theorem exists_firstLabel (h : Seg (nodes heap) parent prev p last none K) {x : ℕ} {T : Doc}
    (hfirst : firstLabel key K = some (x, T)) : ∃ n, heap x = some n ∧ n.child = firstNode T := by
  induction K generalizing prev p with
  | nil => cases hfirst
  | cons a kids rest _ ih =>
    obtain ⟨-, k, hk, -, -, -, hkids, hrest⟩ := h
    rw [firstLabel] at hfirst
    by_cases ha : a.2.2 = some key
    · rw [if_pos ha] at hfirst
      obtain ⟨rfl, rfl⟩ := Prod.mk.inj (Option.some.inj hfirst)
      obtain ⟨n, hn, rfl⟩ := nodes_eq_some.mp hk
      exact ⟨n, hn, eq_firstNode hkids⟩
    · rw [if_neg ha] at hfirst
      exact ih hrest hfirst

/-- **The loop along a row of labels.** -/
theorem find_loop (hkey : NulFree key) (h : Seg (nodes heap) parent prev p last none K)
    (htexts : ∀ x ∈ topNodes K, ∃ t, x.2.2 = some t ∧ NulFree t) {fuel : ℕ}
    (hfuel : (topNodes K).length < fuel) :
    json_find_first_label.loop heap key fuel p = .ok ((firstLabel key K).map Prod.fst) := by
  induction K generalizing prev p fuel with
  | nil =>
    obtain ⟨rfl, -⟩ := h
    obtain ⟨fuel, rfl⟩ := Nat.exists_eq_succ_of_ne_zero (Nat.ne_of_gt hfuel)
    rfl
  | cons a kids rest _ ih =>
    obtain ⟨rfl, k, hk, hlabel, -, -, -, hrest⟩ := h
    obtain ⟨n, hn, rfl⟩ := nodes_eq_some.mp hk
    obtain ⟨⟨t, ht, hfree⟩, htexts'⟩ := List.forall_mem_cons.mp htexts
    obtain ⟨fuel, rfl⟩ := Nat.exists_eq_succ_of_ne_zero (Nat.ne_of_gt (Nat.zero_lt_of_lt hfuel))
    have htext : n.text = some t := (congrArg Prod.snd hlabel).trans ht
    rw [json_find_first_label.loop, Heap.load_eq_ok hn, ok_bind, htext]
    dsimp only
    rw [cstr_of_nulFree hfree, cstr_of_nulFree hkey, firstLabel, ht]
    by_cases hsame : t = key
    · rw [if_pos hsame, if_pos (congrArg some hsame)]
      rfl
    · rw [if_neg hsame, if_neg (mt Option.some.inj hsame)]
      exact ih hrest htexts' (Nat.lt_of_succ_lt_succ hfuel)

variable {W : List Doc} {F : Doc} {r : ℕ} {text : Option (List UInt8)}

/-- **`json_find_first_label`** of any object in memory. -/
theorem json_find_first_label_eq (h : Holds heap W) (hF : F ∈ W)
    (hfind : find r F = some ((JSON_OBJECT, text), K)) (hkey : NulFree key)
    (htexts : ∀ x ∈ topNodes K, ∃ t, x.2.2 = some t ∧ NulFree t) {fuel : ℕ}
    (hfuel : (topNodes K).length < fuel) :
    json_find_first_label heap (some r) (some key) fuel
        = .ok ((firstLabel key K).map Prod.fst)
      ∧ ∀ x T, firstLabel key K = some (x, T) → ∃ n, heap x = some n ∧ n.child = firstNode T := by
  obtain ⟨z, lz, kids, rfl, hdet⟩ := h.detached F hF
  obtain ⟨k, hk, hlabel, hkids⟩ := Seg.find hdet hfind
  obtain ⟨n, hn, rfl⟩ := nodes_eq_some.mp hk
  have htype : n.type = JSON_OBJECT := congrArg Prod.fst hlabel
  refine ⟨?_, fun x T hfirst => exists_firstLabel hkids hfirst⟩
  unfold json_find_first_label
  rw [show assert (some r ≠ none) = .ok () from if_pos (Option.some_ne_none r), ok_bind,
    show assert (some key ≠ none) = .ok () from if_pos (Option.some_ne_none key), ok_bind,
    Heap.load_eq_ok hn, ok_bind, show assert (n.type = JSON_OBJECT) = .ok () from if_pos htype,
    ok_bind]
  exact find_loop hkey hkids htexts hfuel

/-- **`json_object_at`** of any object in memory: the value of the first label with the text, or
NULL. The labels are compared up to their NUL, so that they have to have texts; where one has
none, `strcmp` is given no string. -/
theorem json_object_at_eq (h : Holds heap W) (hF : F ∈ W)
    (hfind : find r F = some ((JSON_OBJECT, text), K)) (hkey : NulFree key)
    (htexts : ∀ x ∈ topNodes K, ∃ t, x.2.2 = some t ∧ NulFree t) {fuel : ℕ}
    (hfuel : (topNodes K).length < fuel) :
    json_object_at heap (some r) (some key) fuel
      = .ok ((firstLabel key K).bind fun x => firstNode x.2) := by
  obtain ⟨hlabel, hchild⟩ := json_find_first_label_eq h hF hfind hkey htexts hfuel
  unfold json_object_at
  rw [hlabel, ok_bind]
  cases hfirst : firstLabel key K with
  | none => rfl
  | some x =>
    obtain ⟨n, hn, hT⟩ := hchild x.1 x.2 hfirst
    rw [Option.map_some, if_neg (Option.some_ne_none x.1), Heap.load_eq_ok hn, ok_bind, hT]
    rfl

end Lookup

theorem json_object_at_eq_field : ∃ heap,
    json_object_at heap (some 10) (some (ascii "a")) 2 = .ok (some 20) := by
  obtain ⟨heap, h⟩ := exists_field
  have hfind : find 10 (tree (10, (JSON_OBJECT, none)) (tree (30, (JSON_STRING, some (ascii "a")))
      (tree (20, (JSON_NUMBER, some (ascii "7"))) nil))) = some ((JSON_OBJECT, none),
        tree (30, (JSON_STRING, some (ascii "a")))
          (tree (20, (JSON_NUMBER, some (ascii "7"))) nil)) := if_pos rfl
  have htexts : ∀ x ∈ [(30, (JSON_STRING, some (ascii "a")))],
      ∃ t : List UInt8, x.2.2 = some t ∧ NulFree t :=
    List.forall_mem_singleton.mpr ⟨ascii "a", rfl, by decide⟩
  exact ⟨heap, json_object_at_eq h List.mem_cons_self hfind (by decide) htexts (by decide)⟩

end Mjson
