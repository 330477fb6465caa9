import AllServer.Util.Heap

/-!
# Ordered forests and how they lie in memory

A document is a tree, or several beside each other, and the order counts. In memory each node
knows the next and the previous one of its siblings, its parent, and its first
and its last child. `Forest.Seg` says that the nodes from one pointer to another are a
forest in this way: the addresses of its nodes are part of its labels, so the same
memory never holds two of them (`Forest.Seg.unique`).

Hanging a tree behind the last child of a node changes four pointers
(`Forest.Linked`), and what is in memory after that is the forest with the tree pushed at that
node (`Forest.Seg.pushAt`).
-/

/-- **An ordered forest**: the label of its first tree, the children of that, and the other
trees. -/
inductive Forest (α : Type*) where
  | nil
  | cons (a : α) (kids rest : Forest α)

namespace Forest

variable {α β : Type*}

/-- One forest beside another. -/
def append : Forest α → Forest α → Forest α
  | nil, G => G
  | cons a kids rest, G => cons a kids (append rest G)

instance : Append (Forest α) := ⟨append⟩

/-- A single tree. -/
def tree (a : α) (kids : Forest α) : Forest α := cons a kids nil

/-- There is no tree in it. -/
def isNil : Forest α → Bool
  | nil => true
  | cons _ _ _ => false

/-- **All labels**, those of a tree in front of those of the trees behind it. -/
def labels : Forest α → List α
  | nil => []
  | cons a kids rest => a :: (labels kids ++ labels rest)

/-- All labels, each one behind those below it. -/
def post : Forest α → List α
  | nil => []
  | cons a kids rest => post kids ++ a :: post rest

/-- The forest with other labels. -/
def map (f : α → β) : Forest α → Forest β
  | nil => nil
  | cons a kids rest => cons (f a) (map f kids) (map f rest)

@[simp] theorem nil_append (G : Forest α) : nil ++ G = G := rfl

@[simp] theorem cons_append (a : α) (kids rest G : Forest α) :
    cons a kids rest ++ G = cons a kids (rest ++ G) := rfl

@[simp] theorem append_nil (F : Forest α) : F ++ nil = F := by
  induction F with
  | nil => rfl
  | cons a kids rest _ ih => rw [cons_append, ih]

theorem append_assoc (F G K : Forest α) : F ++ G ++ K = F ++ (G ++ K) := by
  induction F with
  | nil => rfl
  | cons a kids rest _ ih => rw [cons_append, cons_append, cons_append, ih]

@[simp] theorem labels_nil : labels (nil : Forest α) = [] := rfl

@[simp] theorem labels_cons (a : α) (kids rest : Forest α) :
    labels (cons a kids rest) = a :: (labels kids ++ labels rest) := rfl

@[simp] theorem labels_append (F G : Forest α) : labels (F ++ G) = labels F ++ labels G := by
  induction F with
  | nil => rfl
  | cons a kids rest _ ih =>
    rw [cons_append, labels_cons, labels_cons, ih, List.cons_append, List.append_assoc]

@[simp] theorem map_append (f : α → β) (F G : Forest α) : map f (F ++ G) = map f F ++ map f G := by
  induction F with
  | nil => rfl
  | cons a kids rest _ ih => rw [cons_append, map, map, ih, cons_append]

@[simp] theorem labels_map (f : α → β) (F : Forest α) : labels (map f F) = (labels F).map f := by
  induction F with
  | nil => rfl
  | cons a kids rest ihk ihr =>
    rw [map, labels_cons, labels_cons, ihk, ihr, List.map_cons, List.map_append]

/-! ## Forests in memory -/

/-- A node with its links. -/
structure Node (α : Type*) where
  label : α
  next : Option ℕ
  previous : Option ℕ
  parent : Option ℕ
  child : Option ℕ
  child_end : Option ℕ

/-- The addresses of the nodes. -/
def addrs (F : Forest (ℕ × α)) : List ℕ := F.labels.map Prod.fst

@[simp] theorem addrs_nil : addrs (nil : Forest (ℕ × α)) = [] := rfl

@[simp] theorem addrs_cons (a : ℕ × α) (kids rest : Forest (ℕ × α)) :
    addrs (cons a kids rest) = a.1 :: (addrs kids ++ addrs rest) := by
  simp [addrs]

@[simp] theorem addrs_append (F G : Forest (ℕ × α)) : addrs (F ++ G) = addrs F ++ addrs G := by
  simp [addrs]

/-- **A row of siblings in memory**: `p` is the pointer to the first one, which has `prev` in
front of it, and `last` the pointer to the last one, which has `q` behind it. -/
def Seg (H : Heap (Node α)) :
    Option ℕ → Option ℕ → Option ℕ → Option ℕ → Option ℕ → Forest (ℕ × α) → Prop
  | _, prev, p, last, q, nil => p = q ∧ last = prev
  | parent, prev, p, last, q, cons a kids rest =>
    p = some a.1 ∧ ∃ n, H a.1 = some n ∧ n.label = a.2 ∧ n.parent = parent ∧ n.previous = prev
      ∧ Seg H (some a.1) none n.child n.child_end none kids
      ∧ Seg H parent (some a.1) n.next last q rest

section Seg

variable {H H' : Heap (Node α)} {parent prev p last q : Option ℕ} {F G : Forest (ℕ × α)}

/-- Only the nodes of a forest matter for it. -/
theorem Seg.congr (h : Seg H parent prev p last q F) (heq : ∀ x ∈ addrs F, H' x = H x) :
    Seg H' parent prev p last q F := by
  induction F generalizing parent prev p last q with
  | nil => exact h
  | cons a kids rest ihk ihr =>
    obtain ⟨hp, n, hn, hlabel, hparent, hprev, hkids, hrest⟩ := h
    rw [addrs_cons, List.forall_mem_cons, List.forall_mem_append] at heq
    obtain ⟨hx, hk, hr⟩ := heq
    exact ⟨hp, n, hx.trans hn, hlabel, hparent, hprev, ihk hkids hk, ihr hrest hr⟩

/-- **Two rows beside each other**: the second one begins where the first one ends. -/
theorem seg_append : Seg H parent prev p last q (F ++ G)
    ↔ ∃ m r, Seg H parent prev p m r F ∧ Seg H parent m r last q G := by
  induction F generalizing prev p with
  | nil =>
    constructor
    · intro h
      exact ⟨prev, p, ⟨rfl, rfl⟩, h⟩
    · rintro ⟨m, r, ⟨rfl, rfl⟩, h⟩
      exact h
  | cons a kids rest _ ih =>
    constructor
    · rintro ⟨hp, n, hn, hlabel, hparent, hprev, hkids, hrest⟩
      obtain ⟨m, r, hfirst, hsecond⟩ := ih.mp hrest
      exact ⟨m, r, ⟨hp, n, hn, hlabel, hparent, hprev, hkids, hfirst⟩, hsecond⟩
    · rintro ⟨m, r, ⟨hp, n, hn, hlabel, hparent, hprev, hkids, hfirst⟩, hsecond⟩
      exact ⟨hp, n, hn, hlabel, hparent, hprev, hkids, ih.mpr ⟨m, r, hfirst, hsecond⟩⟩

/-- There is a node at each address. -/
theorem Seg.exists_node (h : Seg H parent prev p last q F) {x : ℕ} (hx : x ∈ addrs F) :
    ∃ n, H x = some n := by
  induction F generalizing parent prev p last q with
  | nil => exact absurd hx (List.not_mem_nil)
  | cons a kids rest ihk ihr =>
    obtain ⟨-, n, hn, -, -, -, hkids, hrest⟩ := h
    rw [addrs_cons, List.mem_cons, List.mem_append] at hx
    rcases hx with rfl | hx | hx
    · exact ⟨n, hn⟩
    · exact ihk hkids hx
    · exact ihr hrest hx

/-- **The same memory does not hold two forests.** -/
theorem Seg.unique {last' : Option ℕ} (h : Seg H parent prev p last none F)
    (h' : Seg H parent prev p last' none G) : F = G := by
  induction F generalizing parent prev p last last' G with
  | nil =>
    obtain ⟨rfl, -⟩ := h
    cases G with
    | nil => rfl
    | cons b kids rest => exact absurd h'.1 (Option.some_ne_none _).symm
  | cons a kids rest ihk ihr =>
    obtain ⟨rfl, n, hn, hlabel, -, -, hkids, hrest⟩ := h
    cases G with
    | nil => exact absurd h'.1 (Option.some_ne_none _)
    | cons b kids' rest' =>
      obtain ⟨hab, n', hn', hlabel', -, -, hkids', hrest'⟩ := h'
      have hfst : a.1 = b.1 := Option.some.inj hab
      rw [← hfst] at hn' hkids' hrest'
      obtain rfl := Option.some.inj (hn.symm.trans hn')
      obtain rfl : a = b := Prod.ext hfst (hlabel.symm.trans hlabel')
      rw [ihk hkids hkids', ihr hrest hrest']

/-- The last one of a row is in it, or the row is empty. -/
theorem Seg.last_mem (h : Seg H parent prev p last q F) :
    F = nil ∧ last = prev ∨ ∃ m ∈ addrs F, last = some m := by
  induction F generalizing prev p with
  | nil => exact .inl ⟨rfl, h.2⟩
  | cons a kids rest _ ih =>
    obtain ⟨-, n, -, -, -, -, -, hrest⟩ := h
    refine .inr ?_
    rcases ih hrest with ⟨-, hlast⟩ | ⟨m, hm, hlast⟩
    · exact ⟨a.1, by rw [addrs_cons]; exact List.mem_cons_self, hlast⟩
    · refine ⟨m, ?_, hlast⟩
      rw [addrs_cons]
      exact List.mem_cons_of_mem _ (List.mem_append_right _ hm)

/-- The last child of a node is in the same forest. -/
theorem Seg.child_end_mem (h : Seg H parent prev p last q F) {x m : ℕ} {n : Node α}
    (hx : x ∈ addrs F) (hn : H x = some n) (hm : n.child_end = some m) : m ∈ addrs F := by
  induction F generalizing parent prev p last q with
  | nil => exact absurd hx (List.not_mem_nil)
  | cons a kids rest ihk ihr =>
    obtain ⟨-, n', hn', -, -, -, hkids, hrest⟩ := h
    rw [addrs_cons, List.mem_cons, List.mem_append] at hx ⊢
    rcases hx with rfl | hx | hx
    · obtain rfl := Option.some.inj (hn.symm.trans hn')
      rcases hkids.last_mem with ⟨-, hnone⟩ | ⟨m', hm', hsome⟩
      · exact absurd (hm.symm.trans hnone) (Option.some_ne_none m)
      · obtain rfl := Option.some.inj (hm.symm.trans hsome)
        exact .inr (.inl hm')
    · exact .inr (.inl (ihk hkids hx))
    · exact .inr (.inr (ihr hrest hx))

/-! ## The node at an address -/

/-- **The label and the children** of the node at an address. -/
def find (a : ℕ) : Forest (ℕ × α) → Option (α × Forest (ℕ × α))
  | nil => none
  | cons b kids rest => if b.1 = a then some (b.2, kids) else (find a kids).or (find a rest)

/-- The labels of a node that is found are labels of the forest. -/
theorem mem_labels_of_find {a : ℕ} {l : α} {kids : Forest (ℕ × α)}
    (h : find a F = some (l, kids)) : (a, l) ∈ labels F ∧ labels kids ⊆ labels F := by
  induction F with
  | nil => cases h
  | cons b K rest ihk ihr =>
    rw [find] at h
    rw [labels_cons]
    split_ifs at h with hb
    · obtain ⟨rfl, rfl⟩ := Prod.mk.inj (Option.some.inj h)
      subst hb
      exact ⟨List.mem_cons_self, fun x hx => List.mem_cons_of_mem _ (List.mem_append_left _ hx)⟩
    · rcases Option.or_eq_some_iff.mp h with h | ⟨-, h⟩
      · obtain ⟨ha, hsub⟩ := ihk h
        exact ⟨List.mem_cons_of_mem _ (List.mem_append_left _ ha),
          fun x hx => List.mem_cons_of_mem _ (List.mem_append_left _ (hsub hx))⟩
      · obtain ⟨ha, hsub⟩ := ihr h
        exact ⟨List.mem_cons_of_mem _ (List.mem_append_right _ ha),
          fun x hx => List.mem_cons_of_mem _ (List.mem_append_right _ (hsub hx))⟩

/-- A node that is found is one of the forest. -/
theorem mem_addrs_of_find {a : ℕ} {l : α} {kids : Forest (ℕ × α)} (h : find a F = some (l, kids)) :
    a ∈ addrs F ∧ addrs kids ⊆ addrs F := by
  obtain ⟨hmem, hsub⟩ := mem_labels_of_find h
  exact ⟨List.mem_map_of_mem (f := Prod.fst) hmem, List.map_subset Prod.fst hsub⟩

/-- A node is not one of its own children. -/
theorem notMem_of_find {a : ℕ} {l : α} {kids : Forest (ℕ × α)} (hnodup : (addrs F).Nodup)
    (h : find a F = some (l, kids)) : (a :: addrs kids).Nodup := by
  induction F with
  | nil => cases h
  | cons b K rest ihk ihr =>
    rw [addrs_cons] at hnodup
    obtain ⟨hb, hnodup⟩ := List.nodup_cons.mp hnodup
    obtain ⟨hk, hr, -⟩ := List.nodup_append.mp hnodup
    rw [find] at h
    split_ifs at h with heq
    · obtain ⟨rfl, rfl⟩ := Prod.mk.inj (Option.some.inj h)
      subst heq
      rw [List.mem_append, not_or] at hb
      exact List.nodup_cons.mpr ⟨hb.1, hk⟩
    · rcases Option.or_eq_some_iff.mp h with h | ⟨-, h⟩
      · exact ihk hk h
      · exact ihr hr h

/-- **What is in memory at a node.** -/
theorem Seg.find {a : ℕ} {l : α} {kids : Forest (ℕ × α)} (h : Seg H parent prev p last q F)
    (ha : Forest.find a F = some (l, kids)) :
    ∃ n, H a = some n ∧ n.label = l ∧ Seg H (some a) none n.child n.child_end none kids := by
  induction F generalizing parent prev p last q with
  | nil => cases ha
  | cons b K rest ihk ihr =>
    obtain ⟨-, n, hn, hlabel, -, -, hkids, hrest⟩ := h
    rw [Forest.find] at ha
    split_ifs at ha with heq
    · obtain ⟨rfl, rfl⟩ := Prod.mk.inj (Option.some.inj ha)
      subst heq
      exact ⟨n, hn, hlabel, hkids⟩
    · rcases Option.or_eq_some_iff.mp ha with ha | ⟨-, ha⟩
      · exact ihk hkids ha
      · exact ihr hrest ha

/-- **Another node behind the last one of a row.** -/
theorem Seg.set_next {m : ℕ} {r : Option ℕ} (h : Seg H parent prev p (some m) q F) (hne : F ≠ nil)
    (hnodup : (addrs F).Nodup) (hm : ∀ n, H m = some n → H' m = some { n with next := r })
    (hother : ∀ x ∈ addrs F, x ≠ m → H' x = H x) : Seg H' parent prev p (some m) r F := by
  induction F generalizing prev p with
  | nil => exact absurd rfl hne
  | cons a kids rest _ ih =>
    obtain ⟨hp, n, hn, hlabel, hparent, hprev, hkids, hrest⟩ := h
    rw [addrs_cons] at hnodup hother
    obtain ⟨ha, hnodup⟩ := List.nodup_cons.mp hnodup
    obtain ⟨-, hnodup', hdisjoint⟩ := List.nodup_append.mp hnodup
    obtain ⟨hx, hother⟩ := List.forall_mem_cons.mp hother
    obtain ⟨hotherk, hotherr⟩ := List.forall_mem_append.mp hother
    rw [List.mem_append, not_or] at ha
    rcases hrest.last_mem with ⟨rfl, hlast⟩ | ⟨m', hm', hlast⟩
    · -- the last one is this one
      obtain rfl := Option.some.inj hlast
      have hkids' : ∀ x ∈ addrs kids, H' x = H x := fun x hx =>
        hotherk x hx (ne_of_mem_of_not_mem hx ha.1)
      exact ⟨hp, _, hm n hn, hlabel, hparent, hprev, hkids.congr hkids', rfl, rfl⟩
    · obtain rfl := Option.some.inj hlast
      have hkids' : ∀ x ∈ addrs kids, H' x = H x := fun x hx =>
        hotherk x hx (hdisjoint x hx m hm')
      have hne' : rest ≠ nil := by
        rintro rfl
        exact absurd hm' (List.not_mem_nil)
      exact ⟨hp, n, (hx (ne_of_mem_of_not_mem hm' ha.2).symm).trans hn, hlabel, hparent, hprev,
        hkids.congr hkids', ih hrest hne' hnodup' hotherr⟩

/-- **Another node in front of the first one of a row.** -/
theorem Seg.set_previous {a : ℕ × α} {kids rest : Forest (ℕ × α)} {r : Option ℕ}
    (h : Seg H parent prev p last q (cons a kids rest))
    (ha : ∀ n, H a.1 = some n → H' a.1 = some { n with previous := r })
    (hother : ∀ x ∈ addrs kids ++ addrs rest, H' x = H x) :
    Seg H' parent r p last q (cons a kids rest) := by
  obtain ⟨hp, n, hn, hlabel, hparent, hprev, hkids, hrest⟩ := h
  obtain ⟨hk, hr⟩ := List.forall_mem_append.mp hother
  exact ⟨hp, _, ha n hn, hlabel, hparent, rfl, hkids.congr hk, hrest.congr hr⟩

/-! ## Pushing a tree -/

/-- **A tree behind the children of a node.** -/
def pushAt (a : ℕ) (T : Forest (ℕ × α)) : Forest (ℕ × α) → Forest (ℕ × α)
  | nil => nil
  | cons b kids rest =>
    cons b (pushAt a T kids ++ if b.1 = a then T else nil) (pushAt a T rest)

/-- There is no such node. -/
theorem pushAt_of_notMem {a : ℕ} {T : Forest (ℕ × α)} (h : a ∉ addrs F) : pushAt a T F = F := by
  induction F with
  | nil => rfl
  | cons b kids rest ihk ihr =>
    rw [addrs_cons, List.mem_cons, List.mem_append, not_or, not_or] at h
    obtain ⟨hb, hk, hr⟩ := h
    rw [pushAt, ihk hk, ihr hr, if_neg (Ne.symm hb), append_nil]

@[simp] theorem pushAt_append (a : ℕ) (T F G : Forest (ℕ × α)) :
    pushAt a T (F ++ G) = pushAt a T F ++ pushAt a T G := by
  induction F with
  | nil => rfl
  | cons b kids rest _ ih => rw [cons_append, pushAt, pushAt, ih, cons_append]

/-- The same addresses and those of the tree. -/
theorem addrs_pushAt_perm {a : ℕ} {T : Forest (ℕ × α)} (hnodup : (addrs F).Nodup)
    (h : a ∈ addrs F) : (addrs (pushAt a T F)).Perm (addrs F ++ addrs T) := by
  induction F with
  | nil => exact absurd h (List.not_mem_nil)
  | cons b kids rest ihk ihr =>
    rw [addrs_cons] at hnodup h
    obtain ⟨hb, hnodup⟩ := List.nodup_cons.mp hnodup
    obtain ⟨hnodupk, hnodupr, hdisjoint⟩ := List.nodup_append.mp hnodup
    rw [List.mem_append, not_or] at hb
    rw [pushAt, addrs_cons, addrs_cons, List.cons_append, addrs_append]
    refine List.Perm.cons _ ?_
    rcases List.mem_cons.mp h with rfl | h
    · rw [pushAt_of_notMem hb.1, pushAt_of_notMem hb.2, if_pos rfl, List.append_assoc,
        List.append_assoc]
      exact List.Perm.append_left _ List.perm_append_comm
    · rcases List.mem_append.mp h with h | h
      · have hr : a ∉ addrs rest := fun hr => hdisjoint a h a hr rfl
        rw [pushAt_of_notMem hr, if_neg (ne_of_mem_of_not_mem h hb.1).symm, addrs_nil,
          List.append_nil, List.append_assoc]
        refine ((ihk hnodupk h).append_right _).trans ?_
        rw [List.append_assoc]
        exact List.Perm.append_left _ List.perm_append_comm
      · have hk : a ∉ addrs kids := fun hk => hdisjoint a hk a h rfl
        rw [pushAt_of_notMem hk, if_neg (ne_of_mem_of_not_mem h hb.2).symm, addrs_nil,
          List.append_nil, List.append_assoc]
        exact List.Perm.append_left _ (ihr hnodupr h)

/-- **What changes when a node `z` is hung behind the last child of a node `a`.** -/
structure Linked (H H' : Heap (Node α)) (a z : ℕ) : Prop where
  parent : ∀ n, H a = some n →
    H' a = some { n with child := some (n.child.getD z), child_end := some z }
  last : ∀ n m k, H a = some n → n.child_end = some m → H m = some k →
    H' m = some { k with next := some z }
  new : ∀ n k, H a = some n → H z = some k →
    H' z = some { k with parent := some a, previous := n.child_end }
  other : ∀ n x, H a = some n → x ≠ a → x ≠ z → n.child_end ≠ some x → H' x = H x

/-- Nodes outside of the forest of the node, and outside of the tree, do not change. -/
theorem Linked.eq_of_notMem {a z : ℕ} (hlinked : Linked H H' a z)
    (h : Seg H parent prev p last q F) (ha : a ∈ addrs F) {x : ℕ} (hx : x ∉ addrs F)
    (hz : x ≠ z) : H' x = H x := by
  obtain ⟨n, hn⟩ := h.exists_node ha
  refine hlinked.other n x hn (ne_of_mem_of_not_mem ha hx).symm hz fun hend => ?_
  exact hx (h.child_end_mem ha hn hend)

/-- The children of the node get one more. -/
theorem Linked.seg_children {a z : ℕ} {b : α} {kids K : Forest (ℕ × α)} {n : Node α}
    (hlinked : Linked H H' a z) (hn : H a = some n)
    (hkids : Seg H (some a) none n.child n.child_end none kids)
    (hT : Seg H none none (some z) (some z) none (tree (z, b) K))
    (hnodup : (a :: (addrs kids ++ addrs (tree (z, b) K))).Nodup) :
    Seg H' (some a) none (some (n.child.getD z)) (some z) none (kids ++ tree (z, b) K) := by
  obtain ⟨ha, hnodup⟩ := List.nodup_cons.mp hnodup
  obtain ⟨hnodupk, hnodupT, hdisjoint⟩ := List.nodup_append.mp hnodup
  obtain ⟨-, nz, hnz, hzlabel, -, -, hzkids, hzrest⟩ := hT
  have hTaddrs : addrs (tree (z, b) K) = z :: addrs K := by simp [tree]
  rw [hTaddrs] at ha hnodupT hdisjoint
  rw [List.mem_append, not_or, List.mem_cons, not_or] at ha
  obtain ⟨hak, -, haK⟩ := ha
  obtain ⟨hzK, -⟩ := List.nodup_cons.mp hnodupT
  have hend : ∀ x, n.child_end = some x → x ∈ addrs kids := by
    intro x hx
    rcases hkids.last_mem with ⟨-, hnone⟩ | ⟨m, hm, hsome⟩
    · exact absurd (hx.symm.trans hnone) (Option.some_ne_none x)
    · obtain rfl := Option.some.inj (hx.symm.trans hsome)
      exact hm
  refine seg_append.mpr ⟨n.child_end, some z, ?_, rfl, _, hlinked.new n nz hn hnz, hzlabel, rfl,
    rfl, hzkids.congr fun x hx => ?_, hzrest⟩
  · rcases hkids.last_mem with ⟨rfl, hnone⟩ | ⟨m, hm, hsome⟩
    · obtain ⟨hchild, -⟩ := hkids
      rw [hnone, hchild]
      exact ⟨rfl, rfl⟩
    · -- the last one of the children there are
      obtain ⟨y, hy⟩ : ∃ y, n.child = some y := by
        cases kids with
        | nil => exact absurd hm (List.not_mem_nil)
        | cons c kids rest => exact ⟨c.1, hkids.1⟩
      rw [hsome, hy, Option.getD_some]
      rw [hsome, hy] at hkids
      refine hkids.set_next ?_ hnodupk (fun k hk => hlinked.last n m k hn hsome hk)
        (fun x hx hxm => ?_)
      · rintro rfl
        exact absurd hm (List.not_mem_nil)
      · refine hlinked.other n x hn (ne_of_mem_of_not_mem hx hak) ?_ ?_
        · exact hdisjoint x hx z List.mem_cons_self
        · rw [hsome]
          exact fun heq => hxm (Option.some.inj heq).symm
  · refine hlinked.other n x hn (ne_of_mem_of_not_mem hx haK) (ne_of_mem_of_not_mem hx hzK) ?_
    exact fun hx' => hdisjoint x (hend x hx') x (List.mem_cons_of_mem z hx) rfl

/-- **The tree is pushed at the node.** -/
theorem Seg.pushAt {a z : ℕ} {b : α} {K : Forest (ℕ × α)} (h : Seg H parent prev p last q F)
    (hT : Seg H none none (some z) (some z) none (tree (z, b) K))
    (hnodup : (addrs F ++ addrs (tree (z, b) K)).Nodup) (ha : a ∈ addrs F)
    (hlinked : Linked H H' a z) :
    Seg H' parent prev p last q (Forest.pushAt a (tree (z, b) K) F) := by
  have hTaddrs : addrs (tree (z, b) K) = z :: addrs K := by simp [tree]
  induction F generalizing parent prev p last q with
  | nil => exact absurd ha (List.not_mem_nil)
  | cons c kids rest ihk ihr =>
    obtain ⟨hp, n, hn, hlabel, hparent, hprev, hkids, hrest⟩ := id h
    obtain ⟨hnodupF, -, hdisjoint⟩ := List.nodup_append.mp hnodup
    rw [addrs_cons] at ha hnodupF hdisjoint
    have hz : ∀ x ∈ c.1 :: (addrs kids ++ addrs rest), x ≠ z := fun x hx =>
      hdisjoint x hx z (hTaddrs ▸ List.mem_cons_self)
    obtain ⟨hc, hnodupF⟩ := List.nodup_cons.mp hnodupF
    obtain ⟨-, -, hkr⟩ := List.nodup_append.mp hnodupF
    rw [List.mem_append, not_or] at hc
    have hnodupk : (addrs kids ++ addrs (tree (z, b) K)).Nodup := by
      refine hnodup.sublist ?_
      rw [addrs_cons, List.cons_append, List.append_assoc]
      exact ((List.sublist_append_right (addrs rest) _).append_left (addrs kids)).cons c.1
    have hnodupr : (addrs rest ++ addrs (tree (z, b) K)).Nodup := by
      refine hnodup.sublist ?_
      rw [addrs_cons, List.cons_append, List.append_assoc]
      exact (List.sublist_append_right (addrs kids) _).cons c.1
    rcases List.mem_cons.mp ha with rfl | ha
    · -- this is the node
      have hnodupa : (c.1 :: (addrs kids ++ addrs (tree (z, b) K))).Nodup := by
        refine List.nodup_cons.mpr ⟨?_, hnodupk⟩
        rw [List.mem_append, not_or]
        exact ⟨hc.1, fun hmem => hdisjoint c.1 List.mem_cons_self c.1 hmem rfl⟩
      rw [Forest.pushAt, pushAt_of_notMem hc.1, pushAt_of_notMem hc.2, if_pos rfl]
      refine ⟨hp, _, hlinked.parent n hn, hlabel, hparent, hprev,
        hlinked.seg_children hn hkids hT hnodupa, hrest.congr fun x hx => ?_⟩
      refine hlinked.other n x hn (ne_of_mem_of_not_mem hx hc.2) (hz x ?_) fun hend => ?_
      · exact List.mem_cons_of_mem _ (List.mem_append_right _ hx)
      · rcases hkids.last_mem with ⟨-, hnone⟩ | ⟨m, hm, hsome⟩
        · exact absurd (hend.symm.trans hnone) (Option.some_ne_none x)
        · exact hkr m hm x hx (Option.some.inj (hsome.symm.trans hend))
    · have hca : ¬ c.1 = a := by
        rintro rfl
        exact (List.mem_append.mp ha).elim hc.1 hc.2
      rw [Forest.pushAt, if_neg hca, append_nil]
      rcases List.mem_append.mp ha with ha | ha
      · have har : a ∉ addrs rest := fun hr => hkr a ha a hr rfl
        rw [pushAt_of_notMem har]
        refine ⟨hp, n, (hlinked.eq_of_notMem hkids ha hc.1 (hz _ List.mem_cons_self)).trans hn,
          hlabel, hparent, hprev, ihk hkids hnodupk ha, hrest.congr fun x hx => ?_⟩
        refine hlinked.eq_of_notMem hkids ha (fun hxk => hkr x hxk x hx rfl) (hz x ?_)
        exact List.mem_cons_of_mem _ (List.mem_append_right _ hx)
      · have hak : a ∉ addrs kids := fun hk => hkr a hk a ha rfl
        rw [pushAt_of_notMem hak]
        refine ⟨hp, n, (hlinked.eq_of_notMem hrest ha hc.2 (hz _ List.mem_cons_self)).trans hn,
          hlabel, hparent, hprev, hkids.congr fun x hx => ?_, ihr hrest hnodupr ha⟩
        refine hlinked.eq_of_notMem hrest ha (fun hxr => hkr x hx x hxr rfl) (hz x ?_)
        exact List.mem_cons_of_mem _ (List.mem_append_left _ hx)

/-! ## Removing a tree -/

/-- **The forest without the tree at a node.** -/
def remove (z : ℕ) : Forest (ℕ × α) → Forest (ℕ × α)
  | nil => nil
  | cons b kids rest => if b.1 = z then rest else cons b (remove z kids) (remove z rest)

theorem remove_of_notMem {z : ℕ} (h : z ∉ addrs F) : remove z F = F := by
  induction F with
  | nil => rfl
  | cons b kids rest ihk ihr =>
    rw [addrs_cons, List.mem_cons, List.mem_append, not_or, not_or] at h
    obtain ⟨hb, hk, hr⟩ := h
    rw [remove, if_neg (Ne.symm hb), ihk hk, ihr hr]

/-- The addresses are those that are left and those of the tree. -/
theorem addrs_remove_perm {z : ℕ} {l : α} {kids : Forest (ℕ × α)} (hnodup : (addrs F).Nodup)
    (h : Forest.find z F = some (l, kids)) :
    (addrs F).Perm (z :: addrs kids ++ addrs (remove z F)) := by
  induction F with
  | nil => cases h
  | cons b K rest ihk ihr =>
    rw [addrs_cons] at hnodup
    obtain ⟨-, hnodup⟩ := List.nodup_cons.mp hnodup
    obtain ⟨hnodupk, hnodupr, hdisjoint⟩ := List.nodup_append.mp hnodup
    rw [Forest.find] at h
    rw [remove]
    split_ifs at h ⊢ with hb
    · obtain ⟨rfl, rfl⟩ := Prod.mk.inj (Option.some.inj h)
      rw [addrs_cons, hb, List.cons_append]
    · rw [addrs_cons, addrs_cons]
      rcases Option.or_eq_some_iff.mp h with h | ⟨-, h⟩
      · obtain ⟨hz, -⟩ := mem_addrs_of_find h
        rw [remove_of_notMem fun hr => hdisjoint z hz z hr rfl]
        refine (((ihk hnodupk h).append_right (addrs rest)).cons b.1).trans ?_
        rw [List.append_assoc]
        exact List.perm_middle.symm
      · obtain ⟨hz, -⟩ := mem_addrs_of_find h
        rw [remove_of_notMem fun hk => hdisjoint z hk z hz rfl]
        refine (((ihr hnodupr h).append_left (addrs K)).cons b.1).trans ?_
        refine List.Perm.trans ?_ List.perm_middle.symm
        refine List.Perm.cons b.1 ?_
        rw [← List.append_assoc, ← List.append_assoc]
        exact List.perm_append_comm.append_right _

/-- **Where the links of a node in a row lead**: to others of the row, or, for those at its
ends, out of it. -/
theorem Seg.links {z : ℕ} {n : Node α} (h : Seg H parent prev p last q F) (hz : z ∈ addrs F)
    (hn : H z = some n) :
    (p = some z ∧ n.previous = prev ∨ n.previous = none ∨ ∃ m ∈ addrs F, n.previous = some m)
    ∧ (n.next = q ∨ n.next = none ∨ ∃ m ∈ addrs F, n.next = some m)
    ∧ (n.parent = parent ∨ ∃ m ∈ addrs F, n.parent = some m) := by
  induction F generalizing parent prev p last q with
  | nil => exact absurd hz List.not_mem_nil
  | cons c kids rest ihk ihr =>
    obtain ⟨hp, nc, hnc, -, hparent, hprev, hkids, hrest⟩ := h
    have hmemk : ∀ o : Option ℕ, (∃ m ∈ addrs kids, o = some m) →
        ∃ m ∈ addrs (cons c kids rest), o = some m := by
      rintro o ⟨m, hm, ho⟩
      exact ⟨m, by simp [hm], ho⟩
    have hmemr : ∀ o : Option ℕ, (∃ m ∈ addrs rest, o = some m) →
        ∃ m ∈ addrs (cons c kids rest), o = some m := by
      rintro o ⟨m, hm, ho⟩
      exact ⟨m, by simp [hm], ho⟩
    have hhead : ∃ m ∈ addrs (cons c kids rest), some c.1 = some m := ⟨c.1, by simp, rfl⟩
    rw [addrs_cons, List.mem_cons, List.mem_append] at hz
    rcases hz with rfl | hz | hz
    · obtain rfl := Option.some.inj (hnc.symm.trans hn)
      refine ⟨.inl ⟨hp, hprev⟩, ?_, .inl hparent⟩
      cases rest with
      | nil => exact .inl hrest.1
      | cons d K rest' => exact .inr (.inr ⟨d.1, by simp, hrest.1⟩)
    · obtain ⟨hprevious, hnext, hpar⟩ := ihk hkids hz
      refine ⟨.inr ?_, .inr ?_, .inr ?_⟩
      · rcases hprevious with ⟨-, hnone⟩ | hnone | hmem
        · exact .inl hnone
        · exact .inl hnone
        · exact .inr (hmemk _ hmem)
      · rcases hnext with hnone | hnone | hmem
        · exact .inl hnone
        · exact .inl hnone
        · exact .inr (hmemk _ hmem)
      · rcases hpar with heq | hmem
        · rwa [heq]
        · exact hmemk _ hmem
    · obtain ⟨hprevious, hnext, hpar⟩ := ihr hrest hz
      refine ⟨.inr ?_, ?_, hpar.imp_right (hmemr _)⟩
      · rcases hprevious with ⟨-, heq⟩ | hnone | hmem
        · exact .inr (by rwa [heq])
        · exact .inl hnone
        · exact .inr (hmemr _ hmem)
      · exact hnext.imp_right (Or.imp_right (hmemr _))

/-- The last one of a row has the parent of all of them. -/
theorem Seg.parent_of_last {z : ℕ} {n : Node α} (h : Seg H parent prev p (some z) q F)
    (hne : F ≠ nil) (hn : H z = some n) : n.parent = parent := by
  induction F generalizing prev p with
  | nil => exact absurd rfl hne
  | cons c kids rest _ ih =>
    obtain ⟨-, nc, hnc, -, hparent, -, -, hrest⟩ := h
    cases rest with
    | nil =>
      obtain rfl := Option.some.inj hrest.2
      obtain rfl := Option.some.inj (hnc.symm.trans hn)
      exact hparent
    | cons d K rest' => exact ih hrest (fun h => nomatch h)

/-- The first one of a row is between what is in front of it and its parent. -/
theorem Seg.links_of_first {z : ℕ} {n : Node α} (h : Seg H parent prev (some z) last none F)
    (hn : H z = some n) : n.parent = parent ∧ n.previous = prev := by
  cases F with
  | nil => exact absurd h.1 (Option.some_ne_none z)
  | cons c kids rest =>
    obtain ⟨hp, nc, hnc, -, hparent, hprev, -⟩ := h
    obtain rfl := Option.some.inj hp
    obtain rfl := Option.some.inj (hnc.symm.trans hn)
    exact ⟨hparent, hprev⟩

/-- **The neighbours of a node are different nodes**, as far as there are any, and none of them is
below it. -/
theorem Seg.links_ne {z : ℕ} {n : Node α} {b : α} {K : Forest (ℕ × α)}
    (h : Seg H parent prev p last none F) (hnodup : (addrs F).Nodup)
    (hfind : Forest.find z F = some (b, K)) (hn : H z = some n)
    (hparent : ∀ a, parent = some a → a ∉ addrs F) (hprev : ∀ a, prev = some a → a ∉ addrs F)
    (hne : ∀ a, prev = some a → parent ≠ some a) :
    (∀ m, n.previous = some m → m ∉ z :: addrs K ∧ n.next ≠ some m ∧ n.parent ≠ some m)
    ∧ (∀ m, n.next = some m → m ∉ z :: addrs K ∧ n.parent ≠ some m)
    ∧ ∀ m, n.parent = some m → m ∉ z :: addrs K := by
  induction F generalizing parent prev p last with
  | nil => cases hfind
  | cons c kids rest ihk ihr =>
    obtain ⟨-, nc, hnc, -, hcparent, hcprev, hkids, hrest⟩ := h
    rw [addrs_cons] at hnodup hparent hprev
    obtain ⟨hc, hnodup'⟩ := List.nodup_cons.mp hnodup
    obtain ⟨hnodupk, hnodupr, hdisjoint⟩ := List.nodup_append.mp hnodup'
    rw [List.mem_append, not_or] at hc
    rw [Forest.find] at hfind
    split_ifs at hfind with hcz
    · obtain ⟨rfl, rfl⟩ := Prod.mk.inj (Option.some.inj hfind)
      subst hcz
      obtain rfl := Option.some.inj (hnc.symm.trans hn)
      have hnext : ∀ m, nc.next = some m → m ∈ addrs rest := by
        intro m hm
        cases rest with
        | nil => exact absurd (hrest.1.symm.trans hm) (Option.some_ne_none m).symm
        | cons d K' rest' =>
          obtain rfl := Option.some.inj (hrest.1.symm.trans hm)
          simp
      have hout : ∀ m, m ∉ c.1 :: (addrs kids ++ addrs rest) → m ∉ c.1 :: addrs kids :=
        fun m hm hmem => hm (List.cons_subset_cons c.1 (List.subset_append_left _ _) hmem)
      refine ⟨fun m hm => ⟨?_, fun hm' => ?_, ?_⟩, fun m hm => ⟨?_, ?_⟩, fun m hm => ?_⟩
      · exact hout m (hprev m (hcprev ▸ hm))
      · exact hprev m (hcprev ▸ hm) (List.mem_cons_of_mem _ (List.mem_append_right _ (hnext m hm')))
      · exact hcparent ▸ hne m (hcprev ▸ hm)
      · rw [List.mem_cons, not_or]
        exact ⟨ne_of_mem_of_not_mem (hnext m hm) hc.2,
          fun hmk => hdisjoint m hmk m (hnext m hm) rfl⟩
      · exact fun hm' => hparent m (hcparent ▸ hm')
          (List.mem_cons_of_mem _ (List.mem_append_right _ (hnext m hm)))
      · exact hout m (hparent m (hcparent ▸ hm))
    · rcases Option.or_eq_some_iff.mp hfind with hfind | ⟨-, hfind⟩
      · refine ihk hkids hnodupk hfind ?_ (fun a ha => nomatch ha) (fun a ha => nomatch ha)
        rintro a ha
        exact Option.some.inj ha ▸ hc.1
      · refine ihr hrest hnodupr hfind (fun a ha hmem => ?_) ?_ ?_
        · exact hparent a ha (List.mem_cons_of_mem _ (List.mem_append_right _ hmem))
        · rintro a ha
          exact Option.some.inj ha ▸ hc.2
        · rintro a ha hpar
          exact hparent a hpar (Option.some.inj ha ▸ List.mem_cons_self)

/-- **What changes when a node `z` is taken out**, with all that is below it: its siblings are
linked to each other, and no node of the tree is there any more. -/
structure Unlinked (H H' : Heap (Node α)) (z : ℕ) (n : Node α) (T : List ℕ) : Prop where
  gone : ∀ x ∈ T, H' x = none
  previous : ∀ m k, n.previous = some m → H m = some k → H' m = some { k with next := n.next }
  next : ∀ m k, n.next = some m → H m = some k → H' m = some { k with previous := n.previous }
  parent : ∀ a k, n.parent = some a → H a = some k →
    H' a = some { k with child := if k.child = some z then n.next else k.child
                         child_end := if k.child_end = some z then n.previous else k.child_end }
  other : ∀ x, x ∉ T → n.previous ≠ some x → n.next ≠ some x → n.parent ≠ some x → H' x = H x

section Remove

variable {z : ℕ} {n : Node α} {b : α} {K : Forest (ℕ × α)}

/-- A pointer into a list, or to nothing, does not lead to what is not in the list. -/
theorem pointer_ne {o : Option ℕ} {x : ℕ} {xs : List ℕ} (h : o = none ∨ ∃ m ∈ xs, o = some m)
    (hx : x ∉ xs) : o ≠ some x := by
  rintro rfl
  rcases h with hnone | ⟨m, hm, heq⟩
  · cases hnone
  · exact hx (Option.some.inj heq ▸ hm)

/-- What is not in a row is not taken out with one of its nodes. -/
theorem notMem_cons_of_find {x : ℕ} (hfind : Forest.find z F = some (b, K)) (hx : x ∉ addrs F) :
    x ∉ z :: addrs K := by
  obtain ⟨hz, hK⟩ := mem_addrs_of_find hfind
  intro hmem
  rcases List.mem_cons.mp hmem with rfl | hmem
  · exact hx hz
  · exact hx (hK hmem)

/-- **What is outside of a row** stays what it is, but for what is in front of the row and above
it. -/
theorem Unlinked.outside (hunlinked : Unlinked H H' z n (z :: addrs K))
    (h : Seg H parent prev p last none F) (hfind : Forest.find z F = some (b, K))
    (hn : H z = some n) {x : ℕ} (hx : x ∉ addrs F) (hprev : prev ≠ some x)
    (hparent : parent ≠ some x) : H' x = H x := by
  obtain ⟨hprevious, hnext, hpar⟩ := h.links (mem_addrs_of_find hfind).1 hn
  refine hunlinked.other x (notMem_cons_of_find hfind hx) ?_ (pointer_ne (hnext.elim .inl id) hx) ?_
  · rcases hprevious with ⟨-, heq⟩ | hmem
    · exact heq ▸ hprev
    · exact pointer_ne hmem hx
  · rcases hpar with heq | hmem
    · exact heq ▸ hparent
    · exact pointer_ne (.inr hmem) hx

/-- **The node above a row** knows the new first and last one. -/
theorem Unlinked.above {c : ℕ} {nc : Node α} (hunlinked : Unlinked H H' z n (z :: addrs K))
    (h : Seg H (some c) none nc.child nc.child_end none F)
    (hfind : Forest.find z F = some (b, K)) (hn : H z = some n) (hnc : H c = some nc)
    (hc : c ∉ addrs F) : H' c = some
      { nc with child := if nc.child = some z then n.next else nc.child
                child_end := if nc.child_end = some z then n.previous else nc.child_end } := by
  by_cases hparentc : n.parent = some c
  · exact hunlinked.parent c nc hparentc hnc
  have hz := (mem_addrs_of_find hfind).1
  have hchild : nc.child ≠ some z := fun heq => by
    rw [heq] at h
    exact hparentc (h.links_of_first hn).1
  have hchild_end : nc.child_end ≠ some z := fun heq => by
    rw [heq] at h
    refine hparentc (h.parent_of_last ?_ hn)
    rintro rfl
    exact absurd hz List.not_mem_nil
  obtain ⟨hprevious, hnext, -⟩ := h.links hz hn
  rw [hunlinked.other c (notMem_cons_of_find hfind hc)
    (pointer_ne (hprevious.elim (fun h => .inl h.2) id) hc)
    (pointer_ne (hnext.elim .inl id) hc) hparentc, hnc, if_neg hchild, if_neg hchild_end]

/-- **The node in front of a row** knows the new first one. -/
theorem Unlinked.before {c : ℕ} {nc : Node α} (hunlinked : Unlinked H H' z n (z :: addrs K))
    (h : Seg H parent (some c) nc.next last none F) (hfind : Forest.find z F = some (b, K))
    (hn : H z = some n) (hnc : H c = some nc) (hc : c ∉ addrs F) (hparent : parent ≠ some c) :
    H' c = some { nc with next := if nc.next = some z then n.next else nc.next } := by
  obtain ⟨hprevious, hnext, hpar⟩ := h.links (mem_addrs_of_find hfind).1 hn
  by_cases hpreviousc : n.previous = some c
  · have hcnext : nc.next = some z := by
      rcases hprevious with ⟨hcnext, -⟩ | hmem
      · exact hcnext
      · exact absurd hpreviousc (pointer_ne hmem hc)
    rw [if_pos hcnext]
    exact hunlinked.previous c nc hpreviousc hnc
  · have hcnext : nc.next ≠ some z := fun heq => by
      rw [heq] at h
      exact hpreviousc (h.links_of_first hn).2
    rw [if_neg hcnext, ← hnc]
    refine hunlinked.other c (notMem_cons_of_find hfind hc) hpreviousc
      (pointer_ne (hnext.elim .inl id) hc) ?_
    rcases hpar with heq | hmem
    · exact heq ▸ hparent
    · exact pointer_ne (.inr hmem) hc

/-- **The first one of a row is taken out**, and what is on both sides of it become neighbours. -/
theorem Seg.remove_first {c : ℕ × α} {kids rest : Forest (ℕ × α)}
    (hrest : Seg H parent (some c.1) n.next last none rest)
    (hnodup : (addrs (cons c kids rest)).Nodup)
    (hparent : ∀ a, n.parent = some a → a ∉ addrs (cons c kids rest))
    (hprev : ∀ a, n.previous = some a → a ∉ addrs (cons c kids rest))
    (hunlinked : Unlinked H H' c.1 n (c.1 :: addrs kids)) :
    Seg H' parent n.previous n.next (if last = some c.1 then n.previous else last) none rest := by
  rw [addrs_cons] at hnodup hparent hprev
  obtain ⟨hc, hnodup'⟩ := List.nodup_cons.mp hnodup
  obtain ⟨-, hnodupr, hdisjoint⟩ := List.nodup_append.mp hnodup'
  rw [List.mem_append, not_or] at hc
  cases rest with
  | nil =>
    obtain ⟨hnext, rfl⟩ := hrest
    exact ⟨hnext, if_pos rfl⟩
  | cons d K rest' =>
    have hlast : last ≠ some c.1 := by
      rcases hrest.last_mem with ⟨hnil, -⟩ | ⟨m, hm, rfl⟩
      · cases hnil
      · exact fun heq => hc.2 (Option.some.inj heq ▸ hm)
    have hd : n.next = some d.1 := hrest.1
    rw [if_neg hlast]
    rw [addrs_cons] at hnodupr
    refine hrest.set_previous (fun nd hnd => hunlinked.next d.1 nd hd hnd) fun x hx => ?_
    have hxr : x ∈ addrs (cons d K rest') := by
      rw [addrs_cons]
      exact List.mem_cons_of_mem _ hx
    have hxF := List.mem_cons_of_mem c.1 (List.mem_append_right (addrs kids) hxr)
    refine hunlinked.other x ?_ (fun heq => hprev x heq hxF) ?_ fun heq => hparent x heq hxF
    · rw [List.mem_cons, not_or]
      exact ⟨(ne_of_mem_of_not_mem hxr hc.2), fun hxk => hdisjoint x hxk x hxr rfl⟩
    · rw [hd]
      exact fun heq => (List.nodup_cons.mp hnodupr).1 (Option.some.inj heq ▸ hx)

/-- **What is left of a row when a node of it, or below it, is taken out.** -/
theorem Seg.remove (h : Seg H parent prev p last none F) (hnodup : (addrs F).Nodup)
    (hfind : Forest.find z F = some (b, K)) (hn : H z = some n)
    (hparent : ∀ a, parent = some a → a ∉ addrs F) (hprev : ∀ a, prev = some a → a ∉ addrs F)
    (hunlinked : Unlinked H H' z n (z :: addrs K)) :
    Seg H' parent prev (if p = some z then n.next else p)
      (if last = some z then n.previous else last) none (Forest.remove z F) := by
  induction F generalizing parent prev p last with
  | nil => cases hfind
  | cons c kids rest ihk ihr =>
    obtain ⟨rfl, nc, hnc, hlabel, hcparent, hcprev, hkids, hrest⟩ := h
    rw [Forest.find] at hfind
    rw [Forest.remove]
    by_cases hcz : c.1 = z
    · -- the node itself goes, and its siblings become neighbours
      rw [if_pos hcz] at hfind ⊢
      obtain ⟨rfl, rfl⟩ := Prod.mk.inj (Option.some.inj hfind)
      subst hcz
      obtain rfl := Option.some.inj (hnc.symm.trans hn)
      rw [if_pos rfl, ← hcprev]
      exact hrest.remove_first hnodup (hcparent ▸ hparent) (hcprev ▸ hprev) hunlinked
    rw [if_neg hcz] at hfind ⊢
    have hpz : some c.1 ≠ some z := fun heq => hcz (Option.some.inj heq)
    rw [if_neg hpz]
    rw [addrs_cons] at hnodup hparent hprev
    obtain ⟨hc, hnodup'⟩ := List.nodup_cons.mp hnodup
    obtain ⟨hnodupk, hnodupr, hdisjoint⟩ := List.nodup_append.mp hnodup'
    rw [List.mem_append, not_or] at hc
    rcases Option.or_eq_some_iff.mp hfind with hfind | ⟨-, hfind⟩
    · -- it is below this node
      have hz := (mem_addrs_of_find hfind).1
      have hlast : last ≠ some z := by
        rcases hrest.last_mem with ⟨-, rfl⟩ | ⟨m, hm, rfl⟩
        · exact hpz
        · exact fun heq => hdisjoint z hz m hm (Option.some.inj heq).symm
      rw [if_neg hlast, remove_of_notMem fun hr => hdisjoint z hz z hr rfl]
      refine ⟨rfl, _, hunlinked.above hkids hfind hn hnc hc.1, hlabel, hcparent, hcprev, ?_,
        hrest.congr fun x hx => ?_⟩
      · refine ihk hkids hnodupk hfind ?_ (fun a ha => nomatch ha)
        rintro a ha
        exact Option.some.inj ha ▸ hc.1
      · refine hunlinked.outside hkids hfind hn (fun hxk => hdisjoint x hxk x hx rfl)
          (fun heq => nomatch heq) ?_
        exact fun heq => hc.2 (Option.some.inj heq ▸ hx)
    · -- it is in the rest of the row, or below that
      have hz := (mem_addrs_of_find hfind).1
      have hparentc : parent ≠ some c.1 := fun heq => hparent c.1 heq List.mem_cons_self
      rw [remove_of_notMem fun hk => hdisjoint z hk z hz rfl]
      refine ⟨rfl, _, hunlinked.before hrest hfind hn hnc hc.2 hparentc, hlabel, hcparent, hcprev,
        hkids.congr fun x hx => ?_, ?_⟩
      · refine hunlinked.outside hrest hfind hn (fun hxr => hdisjoint x hx x hxr rfl) ?_ ?_
        · exact fun heq => hc.1 (Option.some.inj heq ▸ hx)
        · exact fun heq => hparent x heq (List.mem_cons_of_mem _ (List.mem_append_left _ hx))
      · refine ihr hrest hnodupr hfind (fun a ha hmem => ?_) ?_
        · exact hparent a ha (List.mem_cons_of_mem _ (List.mem_append_right _ hmem))
        · rintro a ha
          exact Option.some.inj ha ▸ hc.2

end Remove

end Seg

/-! ## Inside of a forest -/

/-- **An open node**: its address and label, and the children it has so far. -/
abbrev Frame (α : Type*) := (ℕ × α) × Forest (ℕ × α)

/-- **The forest around a place in it**: the open nodes that the place is inside of, the innermost
one first. -/
def fill : List (Frame α) → Forest (ℕ × α) → Forest (ℕ × α)
  | [], T => T
  | f :: stack, T => fill stack (tree f.1 (f.2 ++ T))

/-- The addresses around a place. -/
def outer (stack : List (Frame α)) : List ℕ := stack.flatMap fun f => f.1.1 :: addrs f.2

section Fill

variable {H : Heap (Node α)} {stack : List (Frame α)} {f g : Frame α} {T : Forest (ℕ × α)}

@[simp] theorem outer_cons (f : Frame α) (stack : List (Frame α)) :
    outer (f :: stack) = f.1.1 :: (addrs f.2 ++ outer stack) := by
  rw [outer, List.flatMap_cons, List.cons_append]
  rfl

theorem addrs_tree (a : ℕ × α) (K : Forest (ℕ × α)) : addrs (tree a K) = a.1 :: addrs K := by
  rw [tree, addrs_cons, addrs_nil, List.append_nil]

theorem addrs_fill_perm (stack : List (Frame α)) (T : Forest (ℕ × α)) :
    (addrs (fill stack T)).Perm (outer stack ++ addrs T) := by
  induction stack generalizing T with
  | nil => exact List.Perm.refl _
  | cons f stack ih =>
    rw [fill, outer_cons]
    refine (ih _).trans ?_
    rw [addrs_tree, addrs_append, List.cons_append]
    refine List.perm_middle.trans (List.Perm.cons _ ?_)
    rw [← List.append_assoc]
    exact List.perm_append_comm.append_right _

/-- A closed node is a child of the one around it. -/
theorem fill_close (f g : Frame α) (stack : List (Frame α)) :
    fill ((g.1, g.2 ++ tree f.1 f.2) :: stack) nil = fill (f :: g :: stack) nil := by
  rw [fill, fill, fill, append_nil, append_nil]

/-- A node that has just been opened is a child without children. -/
theorem fill_open (a : ℕ × α) (f : Frame α) (stack : List (Frame α)) :
    fill ((a, nil) :: f :: stack) nil = fill ((f.1, f.2 ++ tree a nil) :: stack) nil :=
  (fill_close (a, nil) f stack).symm

theorem find_append (a : ℕ) (F G : Forest (ℕ × α)) :
    find a (F ++ G) = (find a F).or (find a G) := by
  induction F with
  | nil => rfl
  | cons b kids rest _ ih =>
    rw [cons_append, find, find]
    split_ifs
    · rfl
    · rw [ih, Option.or_assoc]

theorem find_eq_none {a : ℕ} {F : Forest (ℕ × α)} (h : a ∉ addrs F) : find a F = none := by
  cases hfind : find a F with
  | none => rfl
  | some found => exact absurd (mem_addrs_of_find hfind).1 h

theorem find_fill {a : ℕ} (h : a ∉ outer stack) (T : Forest (ℕ × α)) :
    find a (fill stack T) = find a T := by
  induction stack generalizing T with
  | nil => rfl
  | cons f stack ih =>
    rw [outer_cons, List.mem_cons, List.mem_append, not_or, not_or] at h
    obtain ⟨hf, hK, hstack⟩ := h
    rw [fill, ih hstack, tree, find, if_neg (Ne.symm hf), find_append, find_eq_none hK,
      Option.none_or, find, Option.or_none]

theorem pushAt_fill {a : ℕ} (h : a ∉ outer stack) (S T : Forest (ℕ × α)) :
    pushAt a S (fill stack T) = fill stack (pushAt a S T) := by
  induction stack generalizing T with
  | nil => rfl
  | cons f stack ih =>
    rw [outer_cons, List.mem_cons, List.mem_append, not_or, not_or] at h
    obtain ⟨hf, hK, hstack⟩ := h
    rw [fill, ih hstack, tree, pushAt, if_neg (Ne.symm hf), pushAt_append, pushAt_of_notMem hK,
      append_nil, pushAt, fill, tree]

section Top

variable (hnodup : (addrs (fill (f :: stack) nil)).Nodup)

include hnodup

theorem notMem_outer : f.1.1 ∉ outer stack ∧ f.1.1 ∉ addrs f.2 := by
  have h := (addrs_fill_perm (f :: stack) nil).nodup_iff.mp hnodup
  rw [outer_cons, addrs_nil, List.append_nil] at h
  have hf := (List.nodup_cons.mp h).1
  rw [List.mem_append, not_or] at hf
  exact hf.symm

/-- **The innermost open node is found.** -/
theorem find_top : find f.1.1 (fill (f :: stack) nil) = some (f.1.2, f.2) := by
  rw [fill, find_fill (notMem_outer hnodup).1, append_nil, tree, find, if_pos rfl]

/-- **Pushing a tree at the innermost open node.** -/
theorem pushAt_top (T : Forest (ℕ × α)) :
    pushAt f.1.1 T (fill (f :: stack) nil) = fill ((f.1, f.2 ++ T) :: stack) nil := by
  rw [fill, pushAt_fill (notMem_outer hnodup).1, append_nil, tree, pushAt, if_pos rfl,
    pushAt_of_notMem (notMem_outer hnodup).2, pushAt, fill, append_nil, tree]

end Top

/-- **What is at a place is in memory**, below the innermost open node. -/
theorem Seg.fill {p last : Option ℕ} (h : Seg H none none p last none (Forest.fill stack T)) :
    ∃ prev p' last', Seg H (stack.head?.map fun f => f.1.1) prev p' last' none T := by
  induction stack generalizing T with
  | nil => exact ⟨none, p, last, h⟩
  | cons f stack ih =>
    obtain ⟨prev, p', last', -, n, -, -, -, -, hkids, -⟩ := ih h
    obtain ⟨m, r, -, hT⟩ := seg_append.mp hkids
    exact ⟨m, r, n.child_end, hT⟩

/-- **The innermost open node in memory**: its parent is the one around it. -/
theorem Seg.top {p last : Option ℕ}
    (h : Seg H none none p last none (Forest.fill (f :: stack) nil)) :
    ∃ n, H f.1.1 = some n ∧ n.label = f.1.2 ∧ n.parent = stack.head?.map fun g => g.1.1 := by
  have h' : Seg H none none p last none (Forest.fill stack (tree f.1 (f.2 ++ nil))) := h
  obtain ⟨prev, p', last', -, n, hn, hlabel, hparent, -⟩ := h'.fill
  exact ⟨n, hn, hlabel, hparent⟩

end Fill

end Forest
