import AllServer.Util.Memory

/-!
# Heaps of nodes

A heap says which node is at an address, if there is one, and every access
through a pointer is checked. `Follows` says which nodes a pointer leads to
where every node has a link to the next one. Such a list comes to an end, so no
node is in it twice (`Follows.nodup`); and it gets longer by one node when its
last link is set (`Follows.concat`).
-/

/-- **The nodes there are**, by their addresses. -/
abbrev Heap (ν : Type*) := ℕ → Option ν

namespace Heap

variable {ν β : Type*} {heap : Heap ν} {a x : ℕ} {n : ν} {f : ν → ν} {g : ν → β}

/-- `*p`. -/
def load (heap : Heap ν) : Option ℕ → Except Fault ν
  | none => .error .null
  | some a => match heap a with
    | some n => .ok n
    | none => .error .load

/-- The heap with one node changed, if it is there. -/
def modify (heap : Heap ν) (a : ℕ) (f : ν → ν) : Heap ν :=
  fun x => if x = a then (heap x).map f else heap x

/-- An assignment to a member of `*p`. -/
def store (heap : Heap ν) (p : Option ℕ) (f : ν → ν) : Except Fault (Heap ν) :=
  match p with
  | none => .error .null
  | some a => match heap a with
    | some _ => .ok (heap.modify a f)
    | none => .error .load

/-- **A member of every node.** -/
def field (heap : Heap ν) (g : ν → β) (x : ℕ) : Option β := (heap x).map g

theorem load_eq_ok (h : heap a = some n) : heap.load (some a) = .ok n := by
  simp only [load, h]

theorem store_eq_ok (h : (heap a).isSome = true) :
    heap.store (some a) f = .ok (heap.modify a f) := by
  obtain ⟨n, hn⟩ := Option.isSome_iff_exists.mp h
  simp only [store, hn]

@[simp] theorem isSome_modify : (heap.modify a f x).isSome = (heap x).isSome := by
  unfold modify
  split_ifs
  · exact Option.isSome_map
  · rfl

theorem modify_self (h : heap a = some n) : heap.modify a f a = some (f n) := by
  rw [modify, if_pos rfl, h, Option.map_some]

theorem modify_of_ne (h : x ≠ a) : heap.modify a f x = heap x := if_neg h

theorem field_eq_some {b : β} : heap.field g x = some b ↔ ∃ n, heap x = some n ∧ g n = b :=
  Option.map_eq_some_iff

theorem field_of_eq_some (h : heap x = some n) : heap.field g x = some (g n) :=
  congrArg (Option.map g) h

/-- An assignment to another member. -/
theorem field_modify (h : ∀ n, g (f n) = g n) : (heap.modify a f).field g = heap.field g := by
  funext x
  unfold field modify
  split_ifs
  · rw [Option.map_map]
    exact congrArg (Option.map · (heap x)) (funext h)
  · rfl

/-- An assignment to this one. -/
theorem field_modify_of_eq {b : β} (h : ∀ n, g (f n) = b) (ha : (heap a).isSome = true) :
    (heap.modify a f).field g = Function.update (heap.field g) a (some b) := by
  funext x
  obtain ⟨n, hn⟩ := Option.isSome_iff_exists.mp ha
  unfold field modify
  split_ifs with hx
  · rw [hx, hn, Function.update_self, Option.map_some, Option.map_some, h]
  · rw [Function.update_of_ne hx]

theorem field_update (heap : Heap ν) (a : ℕ) (n : ν) :
    field (Function.update heap a (some n)) g = Function.update (heap.field g) a (some (g n)) := by
  funext x
  by_cases hx : x = a
  · rw [hx, field, Function.update_self, Function.update_self, Option.map_some]
  · rw [Function.update_of_ne hx, field, Function.update_of_ne hx, field]

/-- A node that has just been put there is changed. -/
theorem modify_update (heap : Heap ν) (a : ℕ) (n : ν) (f : ν → ν) :
    modify (Function.update heap a (some n)) a f = Function.update heap a (some (f n)) := by
  funext x
  by_cases hx : x = a
  · rw [hx, modify_self (Function.update_self _ _ _), Function.update_self]
  · rw [modify_of_ne hx, Function.update_of_ne hx, Function.update_of_ne hx]

/-- A node changed through a pointer, if there is one. -/
def modifyAt (heap : Heap ν) (p : Option ℕ) (f : ν → ν) : Heap ν :=
  fun x => if p = some x then (heap x).map f else heap x

theorem modifyAt_of_ne {p : Option ℕ} (h : p ≠ some x) : heap.modifyAt p f x = heap x := if_neg h

theorem modifyAt_of_eq {p : Option ℕ} (h : p = some x) : heap.modifyAt p f x = (heap x).map f :=
  if_pos h

theorem modifyAt_none (heap : Heap ν) (f : ν → ν) : heap.modifyAt none f = heap := rfl

theorem modifyAt_some (heap : Heap ν) (a : ℕ) (f : ν → ν) :
    heap.modifyAt (some a) f = heap.modify a f := by
  funext x
  by_cases hx : x = a
  · rw [modifyAt_of_eq (congrArg some hx.symm), modify, if_pos hx]
  · rw [modifyAt_of_ne (fun h => hx (Option.some.inj h).symm), modify_of_ne hx]

@[simp] theorem isSome_modifyAt {p : Option ℕ} :
    (heap.modifyAt p f x).isSome = (heap x).isSome := by
  unfold modifyAt
  split_ifs
  · exact Option.isSome_map
  · rfl

/-- A store through a pointer that is checked first. -/
theorem store_if {p : Option ℕ} (h : ∀ a, p = some a → (heap a).isSome = true) :
    (if p ≠ none then heap.store p f else .ok heap) = .ok (heap.modifyAt p f) := by
  cases p with
  | none => rfl
  | some a =>
    rw [if_pos (Option.some_ne_none a), store_eq_ok (h a rfl), modifyAt_some]

end Heap

/-! ## Following a link -/

/-- **What following the links from a pointer finds**, up to the end. -/
def Follows {α : Type*} (next : α → Option (Option α)) : Option α → List α → Prop
  | p, [] => p = none
  | p, x :: xs => p = some x ∧ ∃ q, next x = some q ∧ Follows next q xs

namespace Follows

variable {α : Type*} {next next' : α → Option (Option α)} {p : Option α} {x : α} {xs ys : List α}

theorem eq_head? (h : Follows next p xs) : p = xs.head? := by
  cases xs with
  | nil => exact h
  | cons x xs => exact h.1

/-- Every node is linked to the one behind it. -/
theorem next_eq (h : Follows next p (xs ++ x :: ys)) : next x = some ys.head? := by
  induction xs generalizing p with
  | nil =>
    obtain ⟨-, q, hq, hrest⟩ := h
    rw [hq, hrest.eq_head?]
  | cons y xs ih =>
    obtain ⟨-, q, -, hrest⟩ := h
    exact ih hrest

/-- Nodes that are linked like this are what is found. -/
theorem of_next (hp : p = xs.head?) (h : ∀ l x r, xs = l ++ x :: r → next x = some r.head?) :
    Follows next p xs := by
  induction xs generalizing p with
  | nil => exact hp
  | cons x xs ih =>
    refine ⟨hp, xs.head?, h [] x xs rfl, ih rfl fun l y r hxs => ?_⟩
    exact h (x :: l) y r (by rw [hxs, List.cons_append])

theorem congr (h : Follows next p xs) (heq : ∀ x ∈ xs, next' x = next x) : Follows next' p xs := by
  refine of_next h.eq_head? fun l x r hxs => ?_
  rw [heq x (hxs ▸ List.mem_append_right l List.mem_cons_self)]
  exact (hxs ▸ h).next_eq

/-- Following the links again finds the same. -/
theorem unique (h : Follows next p xs) (h' : Follows next p ys) : xs = ys := by
  induction xs generalizing p ys with
  | nil =>
    obtain rfl : p = none := h
    exact (List.head?_eq_none_iff.mp h'.eq_head?.symm).symm
  | cons x xs ih =>
    obtain ⟨rfl, q, hq, hrest⟩ := h
    obtain ⟨ys, rfl⟩ := List.head?_eq_some_iff.mp h'.eq_head?.symm
    obtain ⟨-, q', hq', hrest'⟩ := h'
    obtain rfl := Option.some.inj (hq.symm.trans hq')
    rw [ih hrest hrest']

/-- What is found from a node in the middle. -/
theorem drop (h : Follows next p (xs ++ ys)) : Follows next ys.head? ys := by
  induction xs generalizing p with
  | nil =>
    rw [List.nil_append] at h
    exact h.eq_head? ▸ h
  | cons x xs ih =>
    obtain ⟨-, q, -, hrest⟩ := h
    exact ih hrest

/-- **No node is found twice.** -/
theorem nodup (h : Follows next p xs) : xs.Nodup := by
  induction xs generalizing p with
  | nil => exact List.nodup_nil
  | cons x xs ih =>
    obtain ⟨-, q, -, hrest⟩ := id h
    refine List.nodup_cons.mpr ⟨fun hmem => ?_, ih hrest⟩
    obtain ⟨l, r, rfl⟩ := List.append_of_mem hmem
    have hagain : Follows next (some x) (x :: r) :=
      drop (show Follows next p ((x :: l) ++ x :: r) from h)
    have hlen := congrArg List.length ((h.eq_head? ▸ h : Follows next (some x) _).unique hagain)
    rw [List.length_cons, List.length_append, List.length_cons] at hlen
    omega

/-- **A node more at the end**: the last link leads to it, and its own to none. -/
theorem concat {y : α} (h : Follows next p (xs ++ [y])) (hxs : ∀ z ∈ xs, next' z = next z)
    (hy : next' y = some (some x)) (hx : next' x = some none) :
    Follows next' p (xs ++ [y] ++ [x]) := by
  induction xs generalizing p with
  | nil => exact ⟨h.1, some x, hy, rfl, none, hx, rfl⟩
  | cons z xs ih =>
    obtain ⟨rfl, q, hq, hrest⟩ := h
    obtain ⟨hz, hxs⟩ := List.forall_mem_cons.mp hxs
    exact ⟨rfl, q, hz.trans hq, ih hrest hxs⟩

end Follows
