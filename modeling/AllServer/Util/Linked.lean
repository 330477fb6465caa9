import Mathlib.Data.List.Nodup
import Mathlib.Tactic.Common

/-!
# Doubly linked lists

A heap of nodes that point to each other is read as a map from addresses to
links. `Chain L xs` says that the nodes at the addresses `xs` are a doubly
linked list in this order: every one is linked to the one in front of it and to
the one behind it, and the ones at the ends to none.

Only the neighbours of a node change when it is taken out (`Chain.unlink`) or
put in at the front (`Chain.link`), and both are stated so: by what the new
links are, whatever the order of the writes that made them.
-/

variable {α : Type*}

/-- The two pointers of a node. -/
@[ext] structure Link (α : Type*) where
  prev : Option α
  next : Option α

/-- The links of the nodes there are. -/
abbrev Links (α : Type*) := α → Option (Link α)

/-- **A doubly linked list**: every node is linked to its neighbours. -/
def Chain (L : Links α) (xs : List α) : Prop :=
  ∀ l x r, xs = l ++ x :: r → L x = some ⟨l.getLast?, r.head?⟩

namespace Chain

variable {L L' : Links α} {a b xs : List α} {p x : α}

theorem nil (L : Links α) : Chain L [] := fun l x r h => absurd h (by simp)

/-- A list is linked as long as its own nodes are. -/
theorem congr (h : Chain L xs) (hL : ∀ x ∈ xs, L' x = L x) : Chain L' xs := by
  intro l x r hxs
  rw [hL x (hxs ▸ List.mem_append_right l List.mem_cons_self)]
  exact h l x r hxs

/-- The links of a node in the middle. -/
theorem eq_some (h : Chain L (a ++ p :: b)) : L p = some ⟨a.getLast?, b.head?⟩ :=
  h a p b rfl

/-- The node at the front has none in front of it. -/
theorem prev_head (h : Chain L xs) {k : Link α} (hx : xs.head? = some x) (hk : L x = some k) :
    k.prev = none := by
  cases xs with
  | nil => exact absurd hx (by simp)
  | cons y ys =>
    obtain rfl := Option.some.inj hx
    obtain rfl := Option.some.inj (hk.symm.trans (h [] y ys rfl))
    rfl

/-- **The node behind a node is linked back to it.** -/
theorem prev_next (h : Chain L xs) (hx : x ∈ xs) {k : Link α} (hk : L x = some k) {y : α}
    (hy : k.next = some y) : y ∈ xs ∧ ∃ k', L y = some k' ∧ k'.prev = some x := by
  obtain ⟨l, r, rfl⟩ := List.append_of_mem hx
  obtain rfl := Option.some.inj (hk.symm.trans h.eq_some)
  obtain ⟨r', rfl⟩ := List.head?_eq_some_iff.mp hy
  have hsplit : l ++ x :: y :: r' = (l ++ [x]) ++ y :: r' := by simp
  exact ⟨by simp, _, h (l ++ [x]) y r' hsplit, by simp⟩

/-! ## Taking a node out and putting one in -/

section Splice

variable [DecidableEq α]

/-- **Taking out a node**: the one in front of it is linked to the one behind it,
and the other way round. -/
theorem unlink (h : Chain L (a ++ p :: b)) (hnodup : (a ++ p :: b).Nodup)
    (hL : ∀ x ∈ a ++ b, L' x = (L x).map (fun k =>
      ⟨if b.head? = some x then a.getLast? else k.prev,
        if a.getLast? = some x then b.head? else k.next⟩)) :
    Chain L' (a ++ b) := by
  intro l x r hsplit
  have hx : x ∈ a ++ b := hsplit ▸ List.mem_append_right l List.mem_cons_self
  rw [hL x hx]
  rw [List.nodup_append, List.nodup_cons] at hnodup
  obtain ⟨ha, ⟨hpb, hb⟩, hab⟩ := hnodup
  rcases List.append_eq_append_iff.mp hsplit with ⟨l', rfl, hr⟩ | ⟨r', rfl, hr⟩
  · -- the node is behind the one that is taken out
    have hold : a ++ p :: b = (a ++ p :: l') ++ x :: r := by simp [hr]
    have hnotlast : a.getLast? ≠ some x := fun hlast =>
      hab x (List.mem_of_getLast? hlast) x (List.mem_cons_of_mem p (by simp [hr])) rfl
    rw [h _ x r hold, Option.map_some, if_neg hnotlast]
    cases l' with
    | nil =>
      rw [hr, List.nil_append, List.head?_cons, if_pos rfl, List.append_nil]
    | cons c l' =>
      have hne : b.head? ≠ some x := by
        rw [hr, List.cons_append, List.head?_cons]
        rintro heq
        obtain rfl := Option.some.inj heq
        rw [hr] at hb
        exact absurd hb (by simp)
      rw [if_neg hne]
      simp
  · cases r' with
    | nil =>
      -- the node is the first one behind
      rw [List.append_nil, List.nil_append] at *
      have hold : l ++ p :: b = (l ++ [p]) ++ x :: r := by simp [← hr]
      have hnotlast : l.getLast? ≠ some x := fun hlast =>
        hab x (List.mem_of_getLast? hlast) x (List.mem_cons_of_mem p (by simp [← hr])) rfl
      rw [h _ x r hold, Option.map_some, if_neg hnotlast, ← hr, List.head?_cons, if_pos rfl]
    | cons c r' =>
      -- the node is in front of it
      obtain ⟨rfl, rfl⟩ := List.cons.inj hr
      have hold : l ++ x :: r' ++ p :: b = l ++ x :: (r' ++ p :: b) := by simp
      have hne : b.head? ≠ some x := fun hhead =>
        hab x (by simp) x (List.mem_cons_of_mem p (List.mem_of_head? hhead)) rfl
      rw [h l x _ hold, Option.map_some, if_neg hne]
      cases r' with
      | nil =>
        rw [List.getLast?_concat, if_pos rfl]
        rfl
      | cons c r' =>
        have hlast : (l ++ x :: c :: r').getLast? ≠ some x := by
          have hxr : x ∉ c :: r' := (List.nodup_cons.mp (List.nodup_append.mp ha).2.1).1
          rw [List.getLast?_append_cons, List.getLast?_cons_cons]
          exact fun heq => hxr (List.mem_of_getLast? heq)
        rw [if_neg hlast]
        rfl

/-- **Putting in a node at the front**: it is linked to the one that was there,
and the other way round. -/
theorem link (h : Chain L xs) (hxs : xs.Nodup) (hx : L' x = some ⟨none, xs.head?⟩)
    (hL : ∀ y ∈ xs, L' y = (L y).map (fun k =>
      ⟨if xs.head? = some y then some x else k.prev, k.next⟩)) :
    Chain L' (x :: xs) := by
  intro l y r hsplit
  cases l with
  | nil =>
    obtain ⟨rfl, rfl⟩ := List.cons.inj hsplit
    exact hx
  | cons z l =>
    obtain ⟨rfl, rfl⟩ := List.cons.inj hsplit
    rw [hL y (List.mem_append_right l List.mem_cons_self), h.eq_some, Option.map_some]
    cases l with
    | nil => simp
    | cons c l =>
      -- the node in front of it was in front of it
      have hne : c ≠ y := fun heq =>
        (List.nodup_cons.mp hxs).1 (heq ▸ List.mem_append_right l List.mem_cons_self)
      simp [hne, List.getLast?_cons_cons]

end Splice

end Chain
