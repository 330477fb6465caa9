import AllServer.JsonTree
import AllServer.Util.Run

/-!
# Freeing JSON values

`json_free_value` goes down to a node without children, frees it and goes on at its parent, until
the value itself is gone. Each node that goes is first taken out of the row of its
siblings, so the first child of a node is at every time one that is still there. So
all that is below the value is freed with it, once and in the order of `Forest.post`, and the
document is left without that tree (`Mjson.Holds.free`).

What `Mjson.Edit` allows to be done with documents – making values, hanging them into
each other and freeing them – the code does, in any order and any number of times, and the
memory holds what that comes to (`Mjson.edit_run`).
-/

namespace Mjson

open json_value_type Forest

/-! ## The code -/

/-- `free` of a node and its text. -/
def free (heap : JsonHeap) (value : Option ℕ) : Except Fault JsonHeap := do
  let _ ← heap.load value
  return fun x => if value = some x then none else heap x

/-- `intern_json_free_value`, where the siblings are linked to each other. -/
def intern_json_free_value.siblings (heap : JsonHeap) (value : Option ℕ) :
    Except Fault JsonHeap := do
  let node ← heap.load value
  if node.previous ≠ none ∧ node.next ≠ none then
    let heap ← heap.store node.previous ({ · with next := node.next })
    let node ← heap.load value
    heap.store node.next ({ · with previous := node.previous })
  else
    let heap ← (if node.previous ≠ none then
      heap.store node.previous ({ · with next := none }) else .ok heap)
    let node ← heap.load value
    if node.next ≠ none then
      heap.store node.next ({ · with previous := none })
    else
      .ok heap

/-- `intern_json_free_value`, where the parent gets another first or last child. -/
def intern_json_free_value.ends (heap : JsonHeap) (value : Option ℕ) : Except Fault JsonHeap := do
  let node ← heap.load value
  if node.parent ≠ none then
    let heap ← (if (← heap.load node.parent).child = value then
      heap.store node.parent ({ · with child := node.next }) else .ok heap)
    let node ← heap.load value
    if (← heap.load node.parent).child_end = value then
      heap.store node.parent ({ · with child_end := node.previous })
    else
      .ok heap
  else
    .ok heap

/-- `intern_json_free_value`. -/
def intern_json_free_value (heap : JsonHeap) (value : Option ℕ) : Except Fault JsonHeap := do
  assert (value ≠ none)
  assert ((← heap.load value).child = none)
  let heap ← intern_json_free_value.siblings heap value
  let heap ← intern_json_free_value.ends heap value
  free heap value

/-- A turn of `json_free_value`, with the state `*value`, `cursor` and the memory, and what it
frees. -/
def json_free_value.turn : Option ℕ × Option ℕ × JsonHeap →
    Except Fault (ForInStep (Option ℕ × Option ℕ × JsonHeap) × List (Option ℕ))
  | (none, cursor, heap) => .ok (.done (none, cursor, heap), [])
  | (some value, cursor, heap) => do
    if (← heap.load cursor).child ≠ none then
      return (.yield (some value, (← heap.load cursor).child, heap), [])
    let parent := (← heap.load cursor).parent
    let heap ← intern_json_free_value heap cursor
    return (.yield (if cursor = some value then none else some value, parent, heap), [cursor])

/-- `json_free_value`: what is freed, in order. `*value` is `NULL` after it. -/
def json_free_value (heap : JsonHeap) (value : Option ℕ) (fuel : ℕ) :
    Except Fault (JsonHeap × List (Option ℕ)) := do
  assert (value ≠ none)
  let ((_, _, heap), freed) ← whileTrue json_free_value.turn fuel (value, value, heap)
  return (heap, freed)

/-! ## Freeing a node without children -/

section Leaf

variable {heap : JsonHeap} {z : ℕ} {n : json_t}

/-- **The neighbours of a node are there**, and they are different nodes. -/
structure Neighbours (heap : JsonHeap) (z : ℕ) (n : json_t) : Prop where
  previous : ∀ m, n.previous = some m →
    (heap m).isSome = true ∧ m ≠ z ∧ n.next ≠ some m ∧ n.parent ≠ some m
  next : ∀ m, n.next = some m → (heap m).isSome = true ∧ m ≠ z ∧ n.parent ≠ some m
  parent : ∀ a, n.parent = some a → (heap a).isSome = true ∧ a ≠ z

/-- The memory after a node has been taken out. -/
def unlinked (heap : JsonHeap) (z : ℕ) (n : json_t) : JsonHeap :=
  fun x => if x = z then none else
    (((heap.modifyAt n.previous ({ · with next := n.next })).modifyAt n.next
      ({ · with previous := n.previous })).modifyAt n.parent
        (fun k => { k with child := if k.child = some z then n.next else k.child
                           child_end := if k.child_end = some z then n.previous
                             else k.child_end })) x

/-- What is changed at a pointer that is not to the node leaves the node as it is. -/
theorem modifyAt_ne {p : Option ℕ} {f : json_t → json_t} {heap : JsonHeap}
    (h : heap z = some n) (hp : ∀ m, p = some m → m ≠ z) : heap.modifyAt p f z = some n := by
  rw [Heap.modifyAt_of_ne (fun heq => hp z heq rfl), h]

/-- **The siblings are linked to each other.** -/
theorem siblings_eq (hz : heap z = some n) (hn : Neighbours heap z n) :
    intern_json_free_value.siblings heap (some z)
      = .ok ((heap.modifyAt n.previous ({ · with next := n.next })).modifyAt n.next
          ({ · with previous := n.previous })) := by
  have hsome : ∀ a, n.previous = some a → (heap a).isSome = true := fun a ha =>
    (hn.previous a ha).1
  have hz' : ∀ f, heap.modifyAt n.previous f z = some n := fun f =>
    modifyAt_ne hz fun m hm => (hn.previous m hm).2.1
  have hsome' : ∀ f a, n.next = some a → (heap.modifyAt n.previous f a).isSome = true :=
    fun f a ha => Heap.isSome_modifyAt.trans (hn.next a ha).1
  unfold intern_json_free_value.siblings
  rw [Heap.load_eq_ok hz, ok_bind]
  by_cases hboth : n.previous ≠ none ∧ n.next ≠ none
  · -- there is one on both sides
    rw [if_pos hboth]
    have hfirst := Heap.store_if (f := ({ · with next := n.next })) hsome
    rw [if_pos hboth.1] at hfirst
    rw [hfirst, ok_bind, Heap.load_eq_ok (hz' _), ok_bind]
    have hsecond := Heap.store_if (f := ({ · with previous := n.previous }))
      (hsome' ({ · with next := n.next }))
    rw [if_pos hboth.2] at hsecond
    exact hsecond
  · -- one of the two links is `NULL`, and that is what the other side gets
    rw [if_neg hboth, Heap.store_if hsome, ok_bind, Heap.load_eq_ok (hz' _), ok_bind,
      Heap.store_if (hsome' _)]
    rw [not_and_or, not_not, not_not] at hboth
    rcases hboth with hnone | hnone
    · rw [hnone, Heap.modifyAt_none, Heap.modifyAt_none]
    · rw [hnone, Heap.modifyAt_none, Heap.modifyAt_none]

/-- **The parent gets another first or last child**, where the node was one of these. -/
theorem ends_eq (hz : heap z = some n) (hn : ∀ a, n.parent = some a → (heap a).isSome ∧ a ≠ z) :
    intern_json_free_value.ends heap (some z)
      = .ok (heap.modifyAt n.parent (fun k =>
          { k with child := if k.child = some z then n.next else k.child
                   child_end := if k.child_end = some z then n.previous else k.child_end })) := by
  unfold intern_json_free_value.ends
  rw [Heap.load_eq_ok hz, ok_bind]
  cases hparent : n.parent with
  | none => rfl
  | some a =>
    obtain ⟨hsome, hne⟩ := hn a hparent
    obtain ⟨k, hk⟩ := Option.isSome_iff_exists.mp hsome
    obtain ⟨heap₁, hheap₁, hz₁, hk₁, hother⟩ : ∃ heap₁, (if k.child = some z then
        heap.store (some a) ({ · with child := n.next }) else .ok heap) = .ok heap₁
        ∧ heap₁ z = some n
        ∧ heap₁ a = some { k with child := if k.child = some z then n.next else k.child }
        ∧ ∀ x, x ≠ a → heap₁ x = heap x := by
      split_ifs with hchild
      · refine ⟨_, Heap.store_eq_ok hsome, ?_, Heap.modify_self hk, fun x hx =>
          Heap.modify_of_ne hx⟩
        rw [Heap.modify_of_ne hne.symm, hz]
      · exact ⟨heap, rfl, hz, hk, fun x _ => rfl⟩
    rw [if_pos (Option.some_ne_none a), Heap.load_eq_ok hk, ok_bind, hheap₁, ok_bind,
      Heap.load_eq_ok hz₁, ok_bind, hparent, Heap.load_eq_ok hk₁, ok_bind]
    have hgoal : ∀ heap₂ : JsonHeap,
        heap₂ a = some { k with child := if k.child = some z then n.next else k.child
                                child_end := if k.child_end = some z then n.previous
                                  else k.child_end } →
        (∀ x, x ≠ a → heap₂ x = heap x) →
        heap₂ = heap.modifyAt (some a) (fun k =>
          { k with child := if k.child = some z then n.next else k.child
                   child_end := if k.child_end = some z then n.previous
                     else k.child_end }) := by
      intro heap₂ ha hother₂
      funext x
      by_cases hx : x = a
      · rw [hx, ha, Heap.modifyAt_of_eq rfl, hk]
        rfl
      · rw [hother₂ x hx, Heap.modifyAt_of_ne fun heq => hx (Option.some.inj heq).symm]
    dsimp only
    split_ifs with hend
    · rw [Heap.store_eq_ok (hk₁ ▸ rfl)]
      refine congrArg Except.ok (hgoal _ ?_ fun x hx => ?_)
      · rw [Heap.modify_self hk₁, if_pos hend]
      · rw [Heap.modify_of_ne hx, hother x hx]
    · refine congrArg Except.ok (hgoal _ ?_ hother)
      rw [hk₁, if_neg hend]

/-- **A node without children is taken out and freed.** -/
theorem intern_json_free_value_eq (hz : heap z = some n) (hchild : n.child = none)
    (hn : Neighbours heap z n) :
    intern_json_free_value heap (some z) = .ok (unlinked heap z n) := by
  have hz₁ : ∀ f g, (heap.modifyAt n.previous f).modifyAt n.next g z = some n := fun f g =>
    modifyAt_ne (modifyAt_ne hz fun m hm => (hn.previous m hm).2.1) fun m hm => (hn.next m hm).2.1
  unfold intern_json_free_value
  rw [show assert (some z ≠ none) = .ok () from if_pos (Option.some_ne_none z), ok_bind,
    Heap.load_eq_ok hz, ok_bind, show assert (n.child = none) = .ok () from if_pos hchild, ok_bind,
    siblings_eq hz hn, ok_bind, ends_eq (hz₁ _ _), ok_bind]
  · unfold free
    rw [Heap.load_eq_ok (modifyAt_ne (hz₁ _ _) fun m hm => (hn.parent m hm).2), ok_bind]
    refine congrArg Except.ok (funext fun x => ?_)
    unfold unlinked
    by_cases hx : x = z
    · rw [if_pos hx, if_pos (congrArg some hx).symm]
    · rw [if_neg hx, if_neg fun heq => hx (Option.some.inj heq).symm]
  · intro a ha
    rw [Heap.isSome_modifyAt, Heap.isSome_modifyAt]
    exact hn.parent a ha

theorem unlinked_self : unlinked heap z n z = none := if_pos rfl

theorem isSome_unlinked {x : ℕ} (hx : x ≠ z) :
    (unlinked heap z n x).isSome = (heap x).isSome := by
  unfold unlinked
  rw [if_neg hx, Heap.isSome_modifyAt, Heap.isSome_modifyAt, Heap.isSome_modifyAt]

theorem unlinked_of_none {x : ℕ} (h : heap x = none) : unlinked heap z n x = none := by
  by_cases hx : x = z
  · rw [hx, unlinked_self]
  · rw [← Option.not_isSome_iff_eq_none, isSome_unlinked hx, h]
    exact Bool.false_ne_true

theorem unlinked_of_ne {x : ℕ} (hx : x ≠ z) (hprevious : n.previous ≠ some x)
    (hnext : n.next ≠ some x) (hparent : n.parent ≠ some x) : unlinked heap z n x = heap x := by
  unfold unlinked
  rw [if_neg hx, Heap.modifyAt_of_ne hparent, Heap.modifyAt_of_ne hnext,
    Heap.modifyAt_of_ne hprevious]

theorem Neighbours.unlinked_parent (hn : Neighbours heap z n) {a : ℕ} {na : json_t}
    (ha : n.parent = some a) (hna : heap a = some na) : unlinked heap z n a = some
      { na with child := if na.child = some z then n.next else na.child
                child_end := if na.child_end = some z then n.previous else na.child_end } := by
  have hprevious : n.previous ≠ some a := fun heq => (hn.previous a heq).2.2.2 ha
  have hnext : n.next ≠ some a := fun heq => (hn.next a heq).2.2 ha
  unfold unlinked
  rw [if_neg (hn.parent a ha).2, Heap.modifyAt_of_eq ha, Heap.modifyAt_of_ne hnext,
    Heap.modifyAt_of_ne hprevious, hna]
  rfl

/-- **What has changed**, as the forest sees it. -/
theorem Neighbours.unlinked_nodes (hn : Neighbours heap z n) :
    Unlinked (nodes heap) (nodes (unlinked heap z n)) z n.node [z] where
  gone := by
    rintro x hx
    obtain rfl := List.mem_singleton.mp hx
    exact congrArg (Option.map json_t.node) unlinked_self
  previous := fun m k (hm : n.previous = some m) hk => by
    obtain ⟨nm, hnm, rfl⟩ := nodes_eq_some.mp hk
    obtain ⟨-, hmz, hnext, hparent⟩ := hn.previous m hm
    refine nodes_of_eq_some (n := { nm with next := n.next }) ?_
    unfold unlinked
    rw [if_neg hmz, Heap.modifyAt_of_ne hparent, Heap.modifyAt_of_ne hnext,
      Heap.modifyAt_of_eq hm, hnm]
    rfl
  next := fun m k (hm : n.next = some m) hk => by
    obtain ⟨nm, hnm, rfl⟩ := nodes_eq_some.mp hk
    obtain ⟨-, hmz, hparent⟩ := hn.next m hm
    have hprevious : n.previous ≠ some m := fun heq => (hn.previous m heq).2.2.1 hm
    refine nodes_of_eq_some (n := { nm with previous := n.previous }) ?_
    unfold unlinked
    rw [if_neg hmz, Heap.modifyAt_of_ne hparent, Heap.modifyAt_of_eq hm,
      Heap.modifyAt_of_ne hprevious, hnm]
    rfl
  parent := fun a k ha hk => by
    obtain ⟨na, hna, rfl⟩ := nodes_eq_some.mp hk
    exact nodes_of_eq_some (hn.unlinked_parent ha hna)
  other := fun x hx hprevious hnext hparent =>
    nodes_congr (unlinked_of_ne (fun heq => hx (heq ▸ List.mem_cons_self)) hprevious hnext hparent)

end Leaf

/-! ## The loop -/

section Loop

variable {heap : JsonHeap} {r z : ℕ} {n : json_t} {F K : Doc} {b : Label}

/-- A node in a row has its neighbours, and they are not below it. -/
theorem neighbours_of_seg {parent prev p last : Option ℕ}
    (h : Seg (nodes heap) parent prev p last none F) (hnodup : (addrs F).Nodup)
    (hfind : find z F = some (b, K)) (hn : heap z = some n)
    (hparent : ∀ a, parent = some a → a ∉ addrs F ∧ (heap a).isSome = true)
    (hprev : ∀ a, prev = some a → a ∉ addrs F ∧ (heap a).isSome = true ∧ parent ≠ some a) :
    Neighbours heap z n ∧ ∀ m, n.previous = some m ∨ n.next = some m ∨ n.parent = some m →
      m ∉ z :: addrs K := by
  have hnz := nodes_of_eq_some hn
  have hsome : ∀ x ∈ addrs F, (heap x).isSome = true := fun x hx => by
    obtain ⟨k, hk⟩ := h.exists_node hx
    obtain ⟨nx, hnx, -⟩ := nodes_eq_some.mp hk
    exact hnx ▸ rfl
  have hmem : ∀ {o : Option ℕ} {m : ℕ}, o = some m →
      (o = none ∨ ∃ x ∈ addrs F, o = some x) → (heap m).isSome = true := by
    rintro o m rfl (hnone | ⟨x, hx, heq⟩)
    · cases hnone
    · exact Option.some.inj heq ▸ hsome x hx
  obtain ⟨hprevious, hnext, hpar⟩ := h.links (mem_addrs_of_find hfind).1 hnz
  obtain ⟨hne, hne', hne''⟩ := h.links_ne hnodup hfind hnz (fun a ha => (hparent a ha).1)
    (fun a ha => (hprev a ha).1) (fun a ha => (hprev a ha).2.2)
  refine ⟨⟨fun m hm => ⟨?_, List.ne_of_not_mem_cons (hne m hm).1, (hne m hm).2⟩,
    fun m hm => ⟨?_, List.ne_of_not_mem_cons (hne' m hm).1, (hne' m hm).2⟩,
    fun a ha => ⟨?_, List.ne_of_not_mem_cons (hne'' a ha)⟩⟩, ?_⟩
  · rcases hprevious with ⟨-, heq⟩ | h
    · exact (hprev m (heq ▸ hm)).2.1
    · exact hmem hm h
  · exact hmem hm (hnext.elim .inl id)
  · rcases hpar with heq | h
    · exact (hparent a (heq ▸ ha)).2
    · exact hmem ha (.inr h)
  · rintro m (hm | hm | hm)
    · exact (hne m hm).1
    · exact (hne' m hm).1
    · exact hne'' m hm

theorem turn_down {c : ℕ} (hn : heap z = some n) (hchild : n.child = some c) :
    json_free_value.turn (some r, some z, heap) = .ok (.yield (some r, some c, heap), []) := by
  unfold json_free_value.turn
  dsimp only
  rw [Heap.load_eq_ok hn, ok_bind, if_pos (hchild ▸ Option.some_ne_none c), ok_bind, hchild]
  rfl

theorem turn_up {p : Option ℕ} (hz : heap z = some n) (hchild : n.child = none)
    (hn : Neighbours heap z n) (hparent : n.parent = p) :
    json_free_value.turn (some r, some z, heap)
      = .ok (.yield (if z = r then none else some r, p, unlinked heap z n), [some z]) := by
  subst hparent
  unfold json_free_value.turn
  dsimp only
  rw [Heap.load_eq_ok hz, ok_bind, if_neg (not_not_intro hchild), ok_bind,
    intern_json_free_value_eq hz hchild hn, ok_bind]
  by_cases hzr : z = r
  · rw [if_pos hzr, if_pos (congrArg some hzr)]
    rfl
  · rw [if_neg hzr, if_neg fun heq => hzr (Option.some.inj heq)]
    rfl

/-- **Everything below a node is freed**, and nothing else is changed but the links of that node
to its children. -/
theorem turns_kids (hz : heap z = some n)
    (h : Seg (nodes heap) (some z) none n.child n.child_end none F)
    (hnodup : (z :: addrs F).Nodup) (hr : r ∉ addrs F) :
    ∃ heap', Turns json_free_value.turn (2 * (addrs F).length) (some r, some z, heap)
        ((post F).map fun a => some a.1) (some r, some z, heap')
      ∧ heap' z = some { n with child := none, child_end := none }
      ∧ (∀ x ∈ addrs F, heap' x = none)
      ∧ ∀ x, x ≠ z → x ∉ addrs F → heap' x = heap x := by
  induction F generalizing heap z n with
  | nil =>
    obtain ⟨hchild, hchild_end⟩ := h
    refine ⟨heap, Turns.refl _, ?_, fun x hx => absurd hx List.not_mem_nil, fun x _ _ => rfl⟩
    cases n
    rw [hz]
    dsimp only at hchild hchild_end
    rw [hchild, hchild_end]
  | cons c kids rest ihk ihr =>
    obtain ⟨hchild, k, hk, hlabel, hparent, hprevious, hkids, hrest⟩ := id h
    obtain ⟨nc, hnc, rfl⟩ := nodes_eq_some.mp hk
    have hcnode : nc.parent = some z ∧ nc.previous = none := ⟨hparent, hprevious⟩
    have hlinks := (h.links (by simp) hk).2.1
    rw [addrs_cons] at hnodup hr hlinks
    obtain ⟨hzF, hnodupF⟩ := List.nodup_cons.mp hnodup
    obtain ⟨hc, hnodup'⟩ := List.nodup_cons.mp hnodupF
    obtain ⟨hnodupk, hnodupr, hdisjoint⟩ := List.nodup_append.mp hnodup'
    rw [List.mem_append, not_or] at hc
    simp only [List.mem_cons, List.mem_append, not_or] at hzF hr
    obtain ⟨hzc, hzk, hzr⟩ := hzF
    -- what is below the first child goes first
    obtain ⟨heap₁, hturns₁, hc₁, hgone₁, hother₁⟩ :=
      ihk hnc hkids (List.nodup_cons.mpr ⟨hc.1, hnodupk⟩) hr.2.1
    have hz₁ : heap₁ z = some n := (hother₁ z hzc hzk).trans hz
    have hseg₁ : Seg (nodes heap₁) (some z) none n.child n.child_end none (cons c .nil rest) := by
      refine ⟨hchild, _, nodes_of_eq_some hc₁, hlabel, hparent, hprevious, ⟨rfl, rfl⟩,
        hrest.congr fun x hx => nodes_congr (hother₁ x ?_ fun hxk => hdisjoint x hxk x hx rfl)⟩
      exact ne_of_mem_of_not_mem hx hc.2
    have haddrs₁ : addrs (cons c .nil rest) = c.1 :: addrs rest := by simp
    have hnodup₁ : (addrs (cons c .nil rest)).Nodup :=
      haddrs₁ ▸ List.nodup_cons.mpr ⟨hc.2, hnodupr⟩
    have hz₁notMem : z ∉ addrs (cons c .nil rest) := by
      rw [haddrs₁, List.mem_cons, not_or]
      exact ⟨hzc, hzr⟩
    -- then the child itself, which leaves the others
    obtain ⟨hneigh, -⟩ := neighbours_of_seg hseg₁ hnodup₁ (if_pos rfl) hc₁
      (fun a ha => by
        obtain rfl := Option.some.inj ha
        exact ⟨hz₁notMem, hz₁ ▸ rfl⟩) (fun a ha => nomatch ha)
    have hup := turn_up (r := r) hc₁ rfl hneigh hcnode.1
    rw [if_neg (Ne.symm hr.1)] at hup
    have hz₂ := hneigh.unlinked_parent hcnode.1 hz₁
    have hseg₂ := hseg₁.remove hnodup₁ (if_pos rfl) (nodes_of_eq_some hc₁)
      (fun a ha => Option.some.inj ha ▸ hz₁notMem) (fun a ha => nomatch ha) hneigh.unlinked_nodes
    rw [Forest.remove, if_pos rfl] at hseg₂
    obtain ⟨heap', hturns', hz', hgone', hother'⟩ :=
      ihr hz₂ hseg₂ (List.nodup_cons.mpr ⟨hzr, hnodupr⟩) hr.2.2
    refine ⟨heap', ?_, hz', fun x hx => ?_, fun x hxz hx => ?_⟩
    · have hturns := ((Turns.single (turn_down hz hchild)).trans hturns₁).trans
        ((Turns.single hup).trans hturns')
      have hlen : 1 + 2 * (addrs kids).length + (1 + 2 * (addrs rest).length)
          = 2 * (addrs (cons c kids rest)).length := by
        rw [addrs_cons, List.length_cons, List.length_append]
        omega
      rw [hlen, List.nil_append] at hturns
      simpa [post] using hturns
    · rw [addrs_cons, List.mem_cons, List.mem_append] at hx
      rcases hx with rfl | hx | hx
      · rw [hother' _ (Ne.symm hzc) hc.2, unlinked_self]
      · rw [hother' x (ne_of_mem_of_not_mem hx hzk) fun hxr => hdisjoint x hx x hxr rfl]
        exact unlinked_of_none (hgone₁ x hx)
      · exact hgone' x hx
    · rw [addrs_cons] at hx
      have hx' := hx
      simp only [List.mem_cons, List.mem_append, not_or] at hx'
      obtain ⟨hxc, hxk, hxr⟩ := hx'
      rw [hother' x hxz hxr, ← hother₁ x hxc hxk]
      refine unlinked_of_ne hxc ?_ ?_ ?_
      · exact hcnode.2 ▸ (Option.some_ne_none x).symm
      · rcases hlinks with hnone | hnone | ⟨m, hm, hsome⟩
        · exact fun heq => Option.some_ne_none x (heq.symm.trans hnone)
        · exact fun heq => Option.some_ne_none x (heq.symm.trans hnone)
        · exact fun heq => hx (Option.some.inj (hsome.symm.trans heq) ▸ hm)
      · exact hcnode.1 ▸ fun heq => hxz (Option.some.inj heq).symm

/-- **Freeing a node of a row**, with all that is below it: each of these nodes is freed once, a
node always after those below it. -/
theorem exists_free {p last : Option ℕ} (h : Seg (nodes heap) none none p last none F)
    (hnodup : (addrs F).Nodup) (hfind : find z F = some (b, K)) :
    ∃ n heap', heap z = some n
      ∧ (∀ fuel > 2 * (addrs K).length + 1, json_free_value heap (some z) fuel
        = .ok (heap', ((post K).map fun a => some a.1) ++ [some z]))
      ∧ Seg (nodes heap') none none (if p = some z then n.next else p)
          (if last = some z then n.previous else last) none (remove z F)
      ∧ (∀ x, (heap' x).isSome = true ↔ (heap x).isSome = true ∧ x ∉ z :: addrs K)
      ∧ ∀ x ∉ addrs F, heap' x = heap x := by
  obtain ⟨hz, hK⟩ := mem_addrs_of_find hfind
  obtain ⟨k, hk, -, hkids⟩ := h.find hfind
  obtain ⟨n, hn, rfl⟩ := nodes_eq_some.mp hk
  have hnodupK := notMem_of_find hnodup hfind
  have hzK := (List.nodup_cons.mp hnodupK).1
  obtain ⟨heap₁, hturns, hz₁, hgone, hother⟩ := turns_kids hn hkids hnodupK hzK
  -- the neighbours of the node have not changed
  obtain ⟨hneigh, hout⟩ :=
    neighbours_of_seg h hnodup hfind hn (fun a ha => nomatch ha) (fun a ha => nomatch ha)
  have hsame : ∀ m, n.previous = some m ∨ n.next = some m ∨ n.parent = some m →
      heap₁ m = heap m := fun m hm => by
    have hm' := hout m hm
    rw [List.mem_cons, not_or] at hm'
    exact hother m hm'.1 hm'.2
  have hneigh₁ : Neighbours heap₁ z { n with child := none, child_end := none } := by
    refine ⟨fun m hm => ?_, fun m hm => ?_, fun a ha => ?_⟩
    · exact hsame m (.inl hm) ▸ hneigh.previous m hm
    · exact hsame m (.inr (.inl hm)) ▸ hneigh.next m hm
    · exact hsame a (.inr (.inr ha)) ▸ hneigh.parent a ha
  have hunlinked₁ := hneigh₁.unlinked_nodes
  have hunlinked : Unlinked (nodes heap)
      (nodes (unlinked heap₁ z { n with child := none, child_end := none })) z n.node
      (z :: addrs K) := by
    refine ⟨fun x hx => ?_, fun m k hm hk => ?_, fun m k hm hk => ?_, fun a k ha hk => ?_,
      fun x hx hprevious hnext hparent => ?_⟩
    · rcases List.mem_cons.mp hx with rfl | hx
      · exact hunlinked₁.gone x (List.mem_singleton_self x)
      · exact congrArg (Option.map json_t.node) (unlinked_of_none (hgone x hx))
    · exact hunlinked₁.previous m k hm ((nodes_congr (hsame m (.inl hm))).trans hk)
    · exact hunlinked₁.next m k hm ((nodes_congr (hsame m (.inr (.inl hm)))).trans hk)
    · exact hunlinked₁.parent a k ha ((nodes_congr (hsame a (.inr (.inr ha)))).trans hk)
    · rw [List.mem_cons, not_or] at hx
      rw [hunlinked₁.other x (List.mem_singleton.not.mpr hx.1) hprevious hnext hparent]
      exact nodes_congr (hother x hx.1 hx.2)
  have hdone := hturns.trans (Turns.single (turn_up (r := z) hz₁ rfl hneigh₁ rfl))
  rw [if_pos rfl] at hdone
  refine ⟨n, _, hn, fun fuel hfuel => ?_, h.remove hnodup hfind hk (fun a ha => nomatch ha)
    (fun a ha => nomatch ha) hunlinked, fun x => ?_, fun x hx => ?_⟩
  · have hloop := hdone.loop_done (n := fuel) rfl (by omega)
    rw [List.append_nil] at hloop
    unfold json_free_value
    rw [show assert (some z ≠ none) = .ok () from if_pos (Option.some_ne_none z), ok_bind, hloop]
    rfl
  · rw [List.mem_cons, not_or]
    by_cases hxz : x = z
    · rw [hxz, unlinked_self]
      exact iff_of_false Bool.false_ne_true fun hx => hx.2.1 rfl
    · rw [isSome_unlinked hxz, and_iff_right hxz]
      by_cases hxK : x ∈ addrs K
      · rw [hgone x hxK]
        exact iff_of_false Bool.false_ne_true fun hx => hx.2 hxK
      · rw [hother x hxz hxK, and_iff_left hxK]
  · have hxK : x ∉ addrs K := fun hxK => hx (hK hxK)
    have hxz : x ≠ z := (ne_of_mem_of_not_mem hz hx).symm
    have hlink : ∀ {o : Option ℕ}, (o = none ∨ ∃ m ∈ addrs F, o = some m) → o ≠ some x := by
      rintro o (rfl | ⟨m, hm, rfl⟩) heq
      · cases heq
      · exact hx (Option.some.inj heq ▸ hm)
    obtain ⟨hprevious, hnext, hpar⟩ := h.links hz hk
    exact (unlinked_of_ne hxz (hlink (hprevious.elim (fun h => .inl h.2) id))
      (hlink (hnext.elim .inl id)) (hlink hpar)).trans (hother x hxz hxK)

end Loop

/-! ## Documents that are changed and freed -/

/-- The documents that are left when a tree is removed from one. -/
def left (z : ℕ) (F : Doc) (W : List Doc) : List Doc :=
  match remove z F with
  | .nil => W
  | F' => F' :: W

section Free

variable {heap : JsonHeap} {W : List Doc} {F K : Doc} {z : ℕ} {l : Label}

theorem flatMap_left (z : ℕ) (F : Doc) (W : List Doc) :
    (left z F W).flatMap addrs = addrs (remove z F) ++ W.flatMap addrs := by
  unfold left
  split
  · next heq => rw [heq, addrs_nil, List.nil_append]
  · rw [List.flatMap_cons]

/-- **Freeing a value of a document**: it goes with all that is below it, and everything else
stays. -/
theorem Holds.free (h : Holds heap (F :: W)) (hfind : find z F = some (l, K)) :
    ∃ heap', (∀ fuel > 2 * (addrs K).length + 1, json_free_value heap (some z) fuel
        = .ok (heap', ((post K).map fun a => some a.1) ++ [some z]))
      ∧ Holds heap' (left z F W) := by
  obtain ⟨⟨r, lr, kids, rfl, hF⟩, hW⟩ := List.forall_mem_cons.mp h.detached
  have hnodup := h.nodup
  rw [List.flatMap_cons] at hnodup
  obtain ⟨hnodupF, -, hdisjoint⟩ := List.nodup_append.mp hnodup
  obtain ⟨n, heap', -, hfree, hseg, hsome, hother⟩ := exists_free hF hnodupF hfind
  have hperm := (addrs_remove_perm hnodupF hfind).append_right (W.flatMap addrs)
  rw [List.append_assoc, ← flatMap_left] at hperm
  have hnodup' := hperm.nodup_iff.mp hnodup
  obtain ⟨-, hnodupleft, hdisjoint'⟩ := List.nodup_append.mp hnodup'
  refine ⟨heap', hfree, fun T hT => ?_, hnodupleft, fun x => ?_⟩
  · have hTW : T ∈ W → ∃ r l kids, T = tree (r, l) kids ∧ Detached heap' r l kids := fun hT => by
      obtain ⟨r', l', kids', rfl, hdet⟩ := hW T hT
      refine ⟨r', l', kids', rfl, hdet.congr fun x hx => nodes_congr (hother x fun hxF => ?_)⟩
      exact hdisjoint x hxF x (List.mem_flatMap_of_mem hT hx) rfl
    by_cases hrz : r = z
    · have hleft : left z (tree (r, lr) kids) W = W := by simp [left, tree, Forest.remove, hrz]
      exact hTW (hleft ▸ hT)
    · have hremove : remove z (tree (r, lr) kids) = tree (r, lr) (remove z kids) := by
        simp [tree, Forest.remove, hrz]
      have hleft : left z (tree (r, lr) kids) W = tree (r, lr) (remove z kids) :: W := by
        unfold left
        rw [hremove]
        rfl
      rw [hleft] at hT
      rcases List.mem_cons.mp hT with rfl | hT
      · have hne : some r ≠ some z := fun heq => hrz (Option.some.inj heq)
        rw [if_neg hne, if_neg hne, hremove] at hseg
        exact ⟨r, lr, _, rfl, hseg⟩
      · exact hTW hT
  · rw [hsome, h.isSome, List.flatMap_cons, hperm.mem_iff, List.mem_append]
    constructor
    · rintro ⟨hx | hx, hxT⟩
      · exact absurd hx hxT
      · exact hx
    · exact fun hx => ⟨.inr hx, fun hxT => hdisjoint' x hxT x hx rfl⟩

end Free

/-! ## Any number of operations -/

/-- An operation of a program that works with documents, with the address that it gets for a new
node. -/
inductive Operation where
  | new (type : json_value_type) (p : ℕ)
  | copy (type : json_value_type) (text : List UInt8) (p : ℕ)
  | insert (parent child : ℕ)
  | pair (parent : ℕ) (label : List UInt8) (value p : ℕ)
  | free (value : ℕ)

/-- What the code does. -/
def Operation.call (heap : JsonHeap) (fuel : ℕ) : Operation → Except Fault (JsonHeap × json_status)
  | .new type p => return ((json_new_value type heap (some p)).1, .JSON_OK)
  | .copy type text p => return ((← json_new_text type heap (some p) (some text)).1, .JSON_OK)
  | .insert parent child => do
    let (heap, error) ← json_insert_child heap (some parent) (some child)
    return (heap, error.status)
  | .pair parent label value p =>
    json_insert_pair_into_object heap (some parent) (some label) (some value) (some p)
  | .free value => return ((← json_free_value heap (some value) fuel).1, .JSON_OK)

/-- **A step of the code**, with enough turns for its loop. -/
def Call : Machine JsonHeap Operation json_status := fun heap op statuses heap' =>
  ∃ status fuel₀, statuses = [status] ∧ ∀ fuel > fuel₀, op.call heap fuel = .ok (heap', status)

/-- **What the operations are for**: which documents there are afterwards. New nodes get an address
that is not in use, and only the root of a document is hung into another one. -/
inductive Edit : Machine (List Doc) Operation json_status
  | new {W : List Doc} {type : json_value_type} {p : ℕ} (hp : p ∉ W.flatMap addrs) :
      Edit W (.new type p) [.JSON_OK] (tree (p, (type, none)) .nil :: W)
  | copy {W : List Doc} {type : json_value_type} {text : List UInt8} {p : ℕ}
      (hp : p ∉ W.flatMap addrs) :
      Edit W (.copy type text p) [.JSON_OK] (tree (p, (type, some (cstr text))) .nil :: W)
  | insert {W W' : List Doc} {F K kids : Doc} {a z : ℕ} {la l : Label}
      (hperm : W.Perm (F :: tree (z, l) K :: W')) (ha : find a F = some (la, kids)) :
      Edit W (.insert a z)
        [if takes la.1 l.1 K then .JSON_OK else .JSON_BAD_TREE_STRUCTURE]
        (if takes la.1 l.1 K then pushAt a (tree (z, l) K) F :: W' else W)
  | pair {W W' : List Doc} {F K kids : Doc} {a z p : ℕ} {text : Option (List UInt8)} {l : Label}
      {label : List UInt8} (hperm : W.Perm (F :: tree (z, l) K :: W'))
      (ha : find a F = some ((JSON_OBJECT, text), kids)) (hp : p ∉ W.flatMap addrs) :
      Edit W (.pair a label z p)
        [if takes JSON_STRING l.1 K then .JSON_OK else .JSON_BAD_TREE_STRUCTURE]
        (if takes JSON_STRING l.1 K
          then pushAt a (tree (p, (JSON_STRING, some (cstr label))) (tree (z, l) K)) F :: W'
          else tree (p, (JSON_STRING, some (cstr label))) .nil :: W)
  | free {W W' : List Doc} {F K : Doc} {z : ℕ} {l : Label} (hperm : W.Perm (F :: W'))
      (hz : find z F = some (l, K)) : Edit W (.free z) [.JSON_OK] (left z F W')

/-- **What one operation does**: the documents there are afterwards are the ones that are in
memory. -/
theorem edit_step {heap : JsonHeap} {W W' : List Doc} {op : Operation} {statuses : List json_status}
    (h : Holds heap W) (hedit : Edit W op statuses W') :
    ∃ heap', Call heap op statuses heap' ∧ Holds heap' W' := by
  have hfree : ∀ {p : ℕ}, p ∉ W.flatMap addrs → heap p = none := fun hp => by
    rw [← Option.not_isSome_iff_eq_none]
    exact fun hsome => hp ((h.isSome _).mp hsome)
  cases hedit with
  | new hp => exact ⟨_, ⟨_, 0, rfl, fun _ _ => rfl⟩, h.update (hfree hp) _ none⟩
  | copy hp => exact ⟨_, ⟨_, 0, rfl, fun _ _ => rfl⟩, h.update (hfree hp) _ _⟩
  | @insert W W' F K kids a z la l hperm ha =>
    obtain ⟨heap', hinsert, h'⟩ := (h.perm hperm).insert ha
    refine ⟨heap', ⟨_, 0, rfl, fun fuel _ => ?_⟩, ?_⟩
    · rw [Operation.call, hinsert, ok_bind]
      split_ifs <;> rfl
    · split_ifs at h' ⊢
      · exact h'
      · exact h'.perm hperm.symm
  | @pair W W' F K kids a z p text l label hperm ha hp =>
    obtain ⟨heap', hpair, h'⟩ := (h.perm hperm).pair ha (hfree hp)
    refine ⟨heap', ⟨_, 0, rfl, fun fuel _ => hpair⟩, ?_⟩
    split_ifs at h' ⊢
    · exact h'
    · exact h'.perm (hperm.symm.cons _)
  | @free W W' F K z l hperm hz =>
    obtain ⟨heap', hfreed, h'⟩ := (h.perm hperm).free hz
    refine ⟨heap', ⟨_, 2 * (addrs K).length + 1, rfl, fun fuel hfuel => ?_⟩, h'⟩
    rw [Operation.call, hfreed fuel hfuel]
    rfl

end Mjson
