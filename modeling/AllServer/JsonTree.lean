import AllServer.JsonExtends
import AllServer.Util.Forest

/-!
# JSON documents in memory

The nodes of a JSON document point to each other in five ways. `Mjson.Holds` says
which documents are in memory: each one is a tree of its own, no two of
them share a node, and there is no other node.

Making a node adds a document to them, and inserting a node with all that is below it hangs one
document into another one, if the types allow it (`Mjson.Holds.insert`). A value that does not go
under its label leaves that label behind as a document of its own, which nothing
points to any more (`Mjson.Holds.pair`).
-/

namespace Mjson

open json_value_type Forest

/-- `enum json_error`, all of it. -/
inductive json_status where
  | JSON_OK | JSON_INCOMPLETE_DOCUMENT | JSON_WAITING_FOR_EOF | JSON_MALFORMED_DOCUMENT
  | JSON_INCOMPATIBLE_TYPE | JSON_MEMORY | JSON_ILLEGAL_CHARACTER | JSON_BAD_TREE_STRUCTURE
  | JSON_MAXIMUM_LENGTH | JSON_UNKNOWN_PROBLEM
  deriving DecidableEq

/-- What an insertion returns, among all errors. -/
def json_error.status : json_error → json_status
  | .JSON_OK => .JSON_OK
  | .JSON_BAD_TREE_STRUCTURE => .JSON_BAD_TREE_STRUCTURE

/-! ## The code -/

/-- `json_insert_pair_into_object`: where an insertion fails, the label stays in memory. -/
def json_insert_pair_into_object (heap : JsonHeap) (parent : Option ℕ)
    (text_label : Option (List UInt8)) (value : Option ℕ) (pNew : Option ℕ) :
    Except Fault (JsonHeap × json_status) := do
  assert (parent ≠ none)
  assert (text_label ≠ none)
  assert (value ≠ none)
  assert (parent ≠ value)
  assert ((← heap.load parent).type = JSON_OBJECT)
  let (heap, label) ← json_new_string heap pNew text_label
  match label with
  | none => return (heap, .JSON_MEMORY)
  | some label =>
    match ← json_insert_child heap (some label) value with
    | (heap, .JSON_OK) =>
      let (heap, error) ← json_insert_child heap parent (some label)
      return (heap, error.status)
    | (heap, error) => return (heap, error.status)

/-! ## Documents -/

/-- What a node says of itself. -/
abbrev Label := json_value_type × Option (List UInt8)

/-- **A document**, with the addresses of its nodes. -/
abbrev Doc := Forest (ℕ × Label)

/-- A node and its links. -/
def json_t.node (n : json_t) : Node Label :=
  ⟨(n.type, n.text), n.next, n.previous, n.parent, n.child, n.child_end⟩

/-- The nodes there are. -/
def nodes (heap : JsonHeap) : Heap (Node Label) := heap.field json_t.node

theorem nodes_eq_some {heap : JsonHeap} {x : ℕ} {k : Node Label} :
    nodes heap x = some k ↔ ∃ n, heap x = some n ∧ n.node = k :=
  Heap.field_eq_some

theorem nodes_of_eq_some {heap : JsonHeap} {x : ℕ} {n : json_t} (h : heap x = some n) :
    nodes heap x = some n.node :=
  Heap.field_of_eq_some h

/-- **A node of its own**, with what is below it. -/
def Detached (heap : JsonHeap) (r : ℕ) (l : Label) (kids : Doc) : Prop :=
  Seg (nodes heap) none none (some r) (some r) none (tree (r, l) kids)

/-! ## Setting the links -/

section Link

variable {heap : JsonHeap} {a z : ℕ} {na nz : json_t}

/-- What is at an address after an insertion. -/
structure LinkedAt (heap heap' : JsonHeap) (a z : ℕ) (na nz : json_t) : Prop where
  parent : heap' a = some { na with child := some (na.child.getD z), child_end := some z }
  last : ∀ m nm, na.child_end = some m → heap m = some nm →
    heap' m = some { nm with next := some z }
  new : heap' z = some { nz with parent := some a, previous := na.child_end }
  other : ∀ x, x ≠ a → x ≠ z → na.child_end ≠ some x → heap' x = heap x

/-- **The links that an insertion sets**, if the first and the last child are there together. -/
theorem json_insert_child.exists_link (ha : heap a = some na) (hz : heap z = some nz) (hne : z ≠ a)
    (hprev : nz.previous = none)
    (hend : na.child = none ∧ na.child_end = none
      ∨ ∃ y m nm, na.child = some y ∧ na.child_end = some m ∧ heap m = some nm ∧ m ≠ z ∧ m ≠ a) :
    ∃ heap', json_insert_child.link heap (some a) (some z) = .ok heap'
      ∧ LinkedAt heap heap' a z na nz := by
  unfold json_insert_child.link
  have hz₁ := Heap.modify_self (f := ({ · with parent := some a })) hz
  have ha₁ := (Heap.modify_of_ne (f := ({ · with parent := some a })) hne.symm).trans ha
  have hother₁ : ∀ x, x ≠ z → heap.modify z ({ · with parent := some a }) x = heap x :=
    fun x hx => Heap.modify_of_ne hx
  rw [Heap.store_eq_ok (hz ▸ rfl), ok_bind, Heap.load_eq_ok ha₁, ok_bind]
  generalize heap.modify z _ = heap₁ at hz₁ ha₁ hother₁ ⊢
  rcases hend with ⟨hchild, hend⟩ | ⟨y, m, nm, hchild, hend, hm, hmz, hma⟩
  · -- the node is the first child and the last one
    have ha₂ := Heap.modify_self (f := ({ · with child := some z })) ha₁
    rw [if_neg (not_not_intro hchild), Heap.store_eq_ok (ha₁ ▸ rfl), ok_bind,
      Heap.store_eq_ok (ha₂ ▸ rfl)]
    refine ⟨_, rfl, ?_, ?_, ?_, ?_⟩
    · rw [Heap.modify_self ha₂, hchild]
      rfl
    · intro m nm hm
      exact absurd (hend.symm.trans hm) (Option.some_ne_none m).symm
    · rw [Heap.modify_of_ne hne, Heap.modify_of_ne hne, hz₁, hend, ← hprev]
    · intro x hxa hxz _
      rw [Heap.modify_of_ne hxa, Heap.modify_of_ne hxa, hother₁ x hxz]
  · -- there is a last child, and the node comes behind it
    have hz₂ := Heap.modify_self (f := ({ · with previous := na.child_end })) hz₁
    have ha₂ := (Heap.modify_of_ne (f := ({ · with previous := na.child_end })) hne.symm).trans ha₁
    have hm₂ := (Heap.modify_of_ne (f := ({ · with previous := na.child_end })) hmz).trans
      ((hother₁ m hmz).trans hm)
    have hother₂ : ∀ x, x ≠ z →
        heap₁.modify z ({ · with previous := na.child_end }) x = heap x :=
      fun x hx => (Heap.modify_of_ne hx).trans (hother₁ x hx)
    rw [if_pos (hchild ▸ Option.some_ne_none y), ok_bind]
    dsimp only
    rw [Heap.store_eq_ok (hz₁ ▸ rfl), ok_bind, Heap.load_eq_ok ha₂, ok_bind]
    generalize heap₁.modify z _ = heap₂ at hz₂ ha₂ hm₂ hother₂ ⊢
    have ha₃ := (Heap.modify_of_ne (f := ({ · with next := some z })) hma.symm).trans ha₂
    rw [hend, Heap.store_eq_ok (hm₂ ▸ rfl), ok_bind, Heap.store_eq_ok (ha₃ ▸ rfl)]
    refine ⟨_, rfl, ?_, ?_, ?_, ?_⟩
    · rw [Heap.modify_self ha₃, hchild]
      rfl
    · intro m' nm' hm' hnm'
      obtain rfl := Option.some.inj (hend.symm.trans hm')
      obtain rfl := Option.some.inj (hm.symm.trans hnm')
      rw [Heap.modify_of_ne hma, Heap.modify_self hm₂]
    · rw [Heap.modify_of_ne hne, Heap.modify_of_ne hmz.symm, hz₂]
    · intro x hxa hxz hxm
      have hxm' : x ≠ m := fun heq => hxm (heq ▸ hend)
      rw [Heap.modify_of_ne hxa, Heap.modify_of_ne hxm', hother₂ x hxz]

/-- The insertion as the forest sees it. -/
theorem LinkedAt.linked {heap' : JsonHeap} (h : LinkedAt heap heap' a z na nz)
    (ha : heap a = some na) (hz : heap z = some nz) : Linked (nodes heap) (nodes heap') a z where
  parent := fun n hn => by
    obtain rfl := Option.some.inj ((nodes_of_eq_some ha).symm.trans hn)
    exact nodes_of_eq_some h.parent
  last := fun n m k hn hm hk => by
    obtain rfl := Option.some.inj ((nodes_of_eq_some ha).symm.trans hn)
    obtain ⟨nm, hnm, rfl⟩ := nodes_eq_some.mp hk
    exact nodes_of_eq_some (h.last m nm hm hnm)
  new := fun n k hn hk => by
    obtain rfl := Option.some.inj ((nodes_of_eq_some ha).symm.trans hn)
    obtain rfl := Option.some.inj ((nodes_of_eq_some hz).symm.trans hk)
    exact nodes_of_eq_some h.new
  other := fun n x hn hxa hxz hend => by
    obtain rfl := Option.some.inj ((nodes_of_eq_some ha).symm.trans hn)
    exact congrArg (Option.map json_t.node) (h.other x hxa hxz hend)

/-- No node comes or goes. -/
theorem LinkedAt.isSome {heap' : JsonHeap} (h : LinkedAt heap heap' a z na nz)
    (ha : heap a = some na) (hz : heap z = some nz)
    (hend : ∀ m, na.child_end = some m → (heap m).isSome = true) (x : ℕ) :
    (heap' x).isSome = (heap x).isSome := by
  by_cases hxa : x = a
  · rw [hxa, h.parent, ha]
    rfl
  by_cases hxz : x = z
  · rw [hxz, h.new, hz]
    rfl
  by_cases hxm : na.child_end = some x
  · obtain ⟨nm, hnm⟩ := Option.isSome_iff_exists.mp (hend x hxm)
    rw [h.last x nm hxm hnm, hnm]
    rfl
  · rw [h.other x hxa hxz hxm]

end Link

/-! ## Inserting a tree -/

/-- **Whether a tree may go under a node**: a node with a label of its own type takes what the
type allows, and a value that is no container has nothing below it. -/
def takes (parent child : json_value_type) (kids : Doc) : Bool :=
  match parent with
  | JSON_OBJECT => child = JSON_STRING
  | JSON_STRING | JSON_ARRAY => match child with
    | JSON_OBJECT | JSON_ARRAY => true
    | _ => match kids with
      | .nil => true
      | .cons _ _ _ => false
  | _ => false

section Insert

variable {heap : JsonHeap} {parent prev p last q : Option ℕ} {a z : ℕ} {F kids K : Doc}
  {la l : Label}

/-- A row of siblings has a first one, or it is empty. -/
theorem child_eq_none_iff {H : Heap (Node Label)} (h : Seg H parent none p last none F) :
    p = none ↔ F = .nil := by
  cases F with
  | nil => exact iff_of_true h.1 rfl
  | cons b kids rest => exact iff_of_false (h.1 ▸ Option.some_ne_none b.1) (fun h => nomatch h)

theorem accepts_eq {na nz : json_t} {H : Heap (Node Label)} {parent last : Option ℕ}
    (h : Seg H parent none nz.child last none K) :
    json_insert_child.accepts na nz = takes na.type nz.type K := by
  have hchild := child_eq_none_iff h
  unfold json_insert_child.accepts takes
  cases na.type <;> cases nz.type <;> cases K <;> simp_all

/-- A tree of its own has a node at its root. -/
theorem Detached.exists_node (h : Detached heap z l K) :
    ∃ n, heap z = some n ∧ (n.type, n.text) = l ∧ n.previous = none
      ∧ Seg (nodes heap) (some z) none n.child n.child_end none K := by
  obtain ⟨-, k, hk, hlabel, -, hprev, hkids, -⟩ := h
  obtain ⟨n, hn, rfl⟩ := nodes_eq_some.mp hk
  exact ⟨n, hn, hlabel, hprev, hkids⟩

/-- **An insertion pushes the tree at the node**, if the types allow it, and changes nothing
else. -/
theorem exists_insert (h : Seg (nodes heap) parent prev p last q F) (hT : Detached heap z l K)
    (hnodup : (addrs F ++ addrs (tree (z, l) K)).Nodup) (ha : find a F = some (la, kids)) :
    (takes la.1 l.1 K = false →
      json_insert_child heap (some a) (some z) = .ok (heap, .JSON_BAD_TREE_STRUCTURE))
    ∧ (takes la.1 l.1 K = true →
      ∃ heap', json_insert_child heap (some a) (some z) = .ok (heap', .JSON_OK)
        ∧ Seg (nodes heap') parent prev p last q (pushAt a (tree (z, l) K) F)
        ∧ (∀ x, (heap' x).isSome = (heap x).isSome)
        ∧ ∀ x, x ∉ addrs F → x ≠ z → heap' x = heap x) := by
  obtain ⟨k, hk, hlabel, hkids⟩ := h.find ha
  obtain ⟨na, hna, rfl⟩ := nodes_eq_some.mp hk
  obtain ⟨nz, hnz, hnzlabel, hprev, hzkids⟩ := hT.exists_node
  obtain ⟨hmem, hsub⟩ := mem_addrs_of_find ha
  have hzmem : z ∈ addrs (tree (z, l) K) := by simp [tree]
  have hne : z ≠ a := fun heq => (List.nodup_append.mp hnodup).2.2 a hmem z hzmem heq.symm
  have hacc : json_insert_child.accepts na nz = takes la.1 l.1 K := by
    rw [accepts_eq hzkids, ← hlabel, ← hnzlabel]
    rfl
  rw [json_insert_child_eq hna hnz hne, hacc]
  refine ⟨fun hfalse => by rw [hfalse, if_neg Bool.false_ne_true], fun htrue => ?_⟩
  have hend : na.child = none ∧ na.child_end = none
      ∨ ∃ y m nm, na.child = some y ∧ na.child_end = some m ∧ heap m = some nm ∧ m ≠ z
        ∧ m ≠ a := by
    rcases hkids.last_mem with ⟨rfl, hlast⟩ | ⟨m, hm, hlast⟩
    · exact .inl ⟨hkids.1, hlast⟩
    · obtain ⟨km, hkm⟩ := h.exists_node (hsub hm)
      obtain ⟨nm, hnm, -⟩ := nodes_eq_some.mp hkm
      have hchild : na.child ≠ none := fun hnone => by
        obtain rfl := (child_eq_none_iff hkids).mp hnone
        exact absurd hm List.not_mem_nil
      obtain ⟨y, hy⟩ := Option.ne_none_iff_exists'.mp hchild
      refine .inr ⟨y, m, nm, hy, hlast, hnm, ?_, ?_⟩
      · exact (List.nodup_append.mp hnodup).2.2 m (hsub hm) z hzmem
      · have hnodupa := notMem_of_find (List.nodup_append.mp hnodup).1 ha
        exact ne_of_mem_of_not_mem hm (List.nodup_cons.mp hnodupa).1
  obtain ⟨heap', hlink, hlinked⟩ := json_insert_child.exists_link hna hnz hne hprev hend
  have hsome : ∀ m, na.child_end = some m → m ∈ addrs F := fun m hm =>
    h.child_end_mem hmem hk hm
  refine ⟨heap', ?_, h.pushAt hT hnodup hmem (hlinked.linked hna hnz),
    hlinked.isSome hna hnz fun m hm => ?_, fun x hx hxz => ?_⟩
  · rw [htrue, if_pos rfl, hlink]
    rfl
  · obtain ⟨km, hkm⟩ := h.exists_node (hsome m hm)
    obtain ⟨nm, hnm, -⟩ := nodes_eq_some.mp hkm
    exact hnm ▸ rfl
  · exact hlinked.other x (ne_of_mem_of_not_mem hmem hx).symm hxz fun hx' => hx (hsome x hx')

end Insert

/-! ## The documents in memory -/

/-- **The documents that are in memory**: each one is a tree of its own, they share no node, and
there is no other node. -/
structure Holds (heap : JsonHeap) (W : List Doc) : Prop where
  detached : ∀ T ∈ W, ∃ r l kids, T = tree (r, l) kids ∧ Detached heap r l kids
  nodup : (W.flatMap addrs).Nodup
  isSome : ∀ x, (heap x).isSome = true ↔ x ∈ W.flatMap addrs

/-- A memory without nodes. -/
theorem Holds.empty : Holds (fun _ => none) [] where
  detached := List.forall_mem_nil _
  nodup := List.nodup_nil
  isSome := by simp

section Holds

variable {heap heap' : JsonHeap} {W W' : List Doc}

/-- The order of the documents does not matter. -/
theorem Holds.perm (h : Holds heap W) (hperm : W.Perm W') : Holds heap W' where
  detached := fun T hT => h.detached T (hperm.mem_iff.mpr hT)
  nodup := (hperm.flatMap_right addrs).nodup_iff.mp h.nodup
  isSome := fun x => (h.isSome x).trans (hperm.flatMap_right addrs).mem_iff

theorem nodes_congr {x : ℕ} (h : heap' x = heap x) : nodes heap' x = nodes heap x :=
  congrArg (Option.map json_t.node) h

/-- A node that has just been made is a document of its own. -/
theorem Holds.update (h : Holds heap W) {p : ℕ} (hp : heap p = none) (type : json_value_type)
    (text : Option (List UInt8)) :
    Holds (Function.update heap p (some ⟨type, text, none, none, none, none, none⟩))
      (tree (p, (type, text)) .nil :: W) := by
  have hpW : p ∉ W.flatMap addrs := fun hmem => by
    have hsome := (h.isSome p).mpr hmem
    rw [hp] at hsome
    cases hsome
  have hcons : (tree (p, (type, text)) .nil :: W).flatMap addrs = p :: W.flatMap addrs := by
    simp [tree]
  refine ⟨List.forall_mem_cons.mpr ⟨?_, fun T hT => ?_⟩, ?_, fun x => ?_⟩
  · refine ⟨p, _, .nil, rfl, rfl, _, nodes_of_eq_some (Function.update_self _ _ _), rfl, rfl, rfl,
      ⟨rfl, rfl⟩, rfl, rfl⟩
  · obtain ⟨r, l, kids, rfl, hdet⟩ := h.detached T hT
    refine ⟨r, l, kids, rfl, hdet.congr fun x hx => nodes_congr ?_⟩
    exact Function.update_of_ne
      (ne_of_mem_of_not_mem (List.mem_flatMap_of_mem hT hx) hpW) _ _
  · rw [hcons]
    exact List.nodup_cons.mpr ⟨hpW, h.nodup⟩
  · rw [hcons, List.mem_cons, ← h.isSome]
    by_cases hx : x = p
    · rw [hx, Function.update_self]
      exact iff_of_true rfl (.inl rfl)
    · rw [Function.update_of_ne hx]
      exact (or_iff_right hx).symm

/-- **Inserting the root of a document into another one.** -/
theorem Holds.insert {F K : Doc} {a z : ℕ} {la l : Label} {kids : Doc}
    (h : Holds heap (F :: tree (z, l) K :: W)) (ha : find a F = some (la, kids)) :
    ∃ heap', json_insert_child heap (some a) (some z)
        = .ok (heap', if takes la.1 l.1 K then .JSON_OK else .JSON_BAD_TREE_STRUCTURE)
      ∧ Holds heap' (if takes la.1 l.1 K then pushAt a (tree (z, l) K) F :: W
        else F :: tree (z, l) K :: W) := by
  obtain ⟨⟨r, lr, kidsr, rfl, hF⟩, ⟨z', l', K', hroot, hz⟩, hW⟩ :=
    And.imp_right List.forall_mem_cons.mp (List.forall_mem_cons.mp h.detached)
  obtain ⟨heq, rfl, -⟩ := Forest.cons.inj hroot
  obtain ⟨rfl, rfl⟩ := Prod.mk.inj heq
  have hnodup := h.nodup
  rw [List.flatMap_cons, List.flatMap_cons, ← List.append_assoc] at hnodup
  obtain ⟨hnodupFT, -, hdisjoint⟩ := List.nodup_append.mp hnodup
  obtain ⟨hbad, hok⟩ := exists_insert hF hz hnodupFT ha
  by_cases htakes : takes la.1 l.1 K = true
  · obtain ⟨heap', hinsert, hseg, hsome, hother⟩ := hok htakes
    rw [if_pos htakes, if_pos htakes]
    obtain ⟨hmem, -⟩ := mem_addrs_of_find ha
    obtain ⟨hnodupF, -, -⟩ := List.nodup_append.mp hnodupFT
    have hperm : ((pushAt a (tree (z, l) K) (tree (r, lr) kidsr) :: W).flatMap addrs).Perm
        ((tree (r, lr) kidsr :: tree (z, l) K :: W).flatMap addrs) := by
      rw [List.flatMap_cons, List.flatMap_cons, List.flatMap_cons, ← List.append_assoc]
      exact (addrs_pushAt_perm hnodupF hmem).append_right _
    refine ⟨heap', hinsert, List.forall_mem_cons.mpr ⟨⟨r, lr, _, rfl, hseg⟩, fun T hT => ?_⟩,
      hperm.nodup_iff.mpr h.nodup, fun x => ?_⟩
    · obtain ⟨r', l', kids', rfl, hdet⟩ := hW T hT
      refine ⟨r', l', kids', rfl, hdet.congr fun x hx => nodes_congr (hother x ?_ ?_)⟩
      · exact fun hx' => hdisjoint x (List.mem_append_left _ hx') x
          (List.mem_flatMap.mpr ⟨_, hT, hx⟩) rfl
      · rintro rfl
        exact hdisjoint x (List.mem_append_right _ (by simp [tree])) x
          (List.mem_flatMap.mpr ⟨_, hT, hx⟩) rfl
    · rw [hsome, h.isSome, hperm.mem_iff]
  · rw [if_neg htakes, if_neg htakes]
    exact ⟨heap, hbad (Bool.eq_false_iff.mpr htakes), h⟩

/-- **Inserting a value under a new label**: where it does not go under the label, the label
stays behind. -/
theorem Holds.pair {F K : Doc} {a z p : ℕ} {text : Option (List UInt8)} {l : Label} {kids : Doc}
    {label : List UInt8} (h : Holds heap (F :: tree (z, l) K :: W))
    (ha : find a F = some ((JSON_OBJECT, text), kids)) (hp : heap p = none) :
    ∃ heap', json_insert_pair_into_object heap (some a) (some label) (some z) (some p)
        = .ok (heap', if takes JSON_STRING l.1 K then .JSON_OK else .JSON_BAD_TREE_STRUCTURE)
      ∧ Holds heap' (if takes JSON_STRING l.1 K
        then pushAt a (tree (p, (JSON_STRING, some (cstr label))) (tree (z, l) K)) F :: W
        else tree (p, (JSON_STRING, some (cstr label))) .nil :: F :: tree (z, l) K :: W) := by
  obtain ⟨⟨r, lr, kidsr, rfl, hF⟩, -⟩ := List.forall_mem_cons.mp h.detached
  obtain ⟨k, hk, hlabel, -⟩ := Seg.find hF ha
  obtain ⟨na, hna, rfl⟩ := nodes_eq_some.mp hk
  have htype : na.type = JSON_OBJECT := congrArg Prod.fst hlabel
  have hne : some a ≠ some z := fun heq => by
    obtain rfl := Option.some.inj heq
    have hnodup := h.nodup
    rw [List.flatMap_cons, List.flatMap_cons, ← List.append_assoc] at hnodup
    exact (List.nodup_append.mp (List.nodup_append.mp hnodup).1).2.2 a (mem_addrs_of_find ha).1 a
      (by simp [tree]) rfl
  -- the label is a document of its own first, and the value is put under it
  have h₁ := (h.update hp JSON_STRING (some (cstr label))).perm ((List.Perm.swap _ _ W).cons _)
  have hfind : find p (tree (p, ((JSON_STRING, some (cstr label)) : Label)) .nil)
      = some ((JSON_STRING, some (cstr label)), .nil) := if_pos rfl
  obtain ⟨heap₂, hinsert, h₂⟩ := h₁.insert hfind
  unfold json_insert_pair_into_object
  rw [show assert (some a ≠ none) = .ok () from if_pos (Option.some_ne_none a), ok_bind,
    show assert (some label ≠ none) = .ok () from if_pos (Option.some_ne_none label), ok_bind,
    show assert (some z ≠ none) = .ok () from if_pos (Option.some_ne_none z), ok_bind,
    show assert (some a ≠ some z) = .ok () from if_pos hne, ok_bind, Heap.load_eq_ok hna, ok_bind,
    show assert (na.type = JSON_OBJECT) = .ok () from if_pos htype, ok_bind,
    show json_new_string heap (some p) (some label)
      = .ok (Function.update heap p (some (newText JSON_STRING label)), some p) from rfl, ok_bind]
  dsimp only [newText]
  rw [hinsert, ok_bind]
  by_cases htakes : takes JSON_STRING l.1 K = true
  · simp only [if_pos htakes] at h₂ ⊢
    have hfind' : find a (tree (r, lr) kidsr) = some ((JSON_OBJECT, text), kids) := ha
    have hpush : pushAt p (tree (z, l) K)
        (tree (p, ((JSON_STRING, some (cstr label)) : Label)) .nil)
        = tree (p, (JSON_STRING, some (cstr label))) (tree (z, l) K) := by simp [tree, pushAt]
    rw [hpush] at h₂
    obtain ⟨heap₃, hinsert₃, h₃⟩ := (h₂.perm (List.Perm.swap _ _ W)).insert hfind'
    have htakes₃ : takes JSON_OBJECT JSON_STRING (tree (z, l) K) = true := rfl
    rw [if_pos htakes₃] at hinsert₃ h₃
    rw [hinsert₃]
    exact ⟨heap₃, rfl, h₃⟩
  · simp only [if_neg htakes] at h₂ ⊢
    exact ⟨heap₂, rfl, h₂.perm ((List.Perm.swap _ _ W).cons _)⟩

end Holds

end Mjson
