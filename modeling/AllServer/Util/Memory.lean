import Mathlib.Data.List.Basic
import Mathlib.Tactic.Common

/-!
# Fixed-size memory blocks, and loops that may fault

C code copies between arrays whose sizes it never checks and runs loops whose
end it never argues. To say that it stays inside its arrays and ends, the
operations here are *checked*: a load or a store outside its block, a
subtraction of unsigned integers that would wrap and a loop that is still
running after its allowance of turns are a `Fault`. Code that is proved never
to fault is code whose unchecked original does the same thing.

A `MemBlock` carries its size as a field, so an array of the wrong size cannot
be built. Copying into a block is described by what the copied-to region reads
afterwards (`MemBlock.slice_zero_patch`).
-/

variable {α σ ω : Type*}

/-- Why a computation cannot be carried out. -/
inductive Fault where
  /-- A read outside the block. -/
  | load
  /-- A write outside the block. -/
  | store
  /-- A subtraction of unsigned integers that wraps around. -/
  | wrap
  /-- A loop that has used up its turns. -/
  | fuel
  /-- A call through a null pointer. -/
  | null
  /-- An exception thrown by a library call. -/
  | thrown
  deriving DecidableEq, Repr

/-- A step that succeeds hands its result on. -/
theorem ok_bind.{u} {β γ : Type u} (b : β) (f : β → Except Fault γ) :
    (Except.ok b >>= f) = f b := rfl

/-- **A sequence of two steps succeeds** exactly where both do. -/
theorem bind_eq_ok.{u} {β γ : Type u} {x : Except Fault β} {f : β → Except Fault γ} {c : γ} :
    (x >>= f) = .ok c ↔ ∃ b, x = .ok b ∧ f b = .ok c := by
  cases x with
  | error e => exact iff_of_false (fun h => nomatch h) (fun ⟨_, h, _⟩ => nomatch h)
  | ok b =>
    rw [ok_bind]
    exact ⟨fun h => ⟨b, rfl, h⟩, fun ⟨_, h, h'⟩ => Except.ok.inj h ▸ h'⟩

/-- The subtraction of unsigned integers, where it does not wrap. -/
def checkedSub (a b : ℕ) : Except Fault ℕ :=
  if b ≤ a then .ok (a - b) else .error .wrap

theorem checkedSub_eq_ok {a b : ℕ} (h : b ≤ a) : checkedSub a b = .ok (a - b) :=
  if_pos h

/-- Reading one element of an array, checked. -/
def index (xs : List α) (i : ℕ) : Except Fault α :=
  match xs[i]? with
  | some x => .ok x
  | none => .error .load

theorem index_eq_ok {xs : List α} {i : ℕ} {x : α} (h : xs[i]? = some x) :
    index xs i = .ok x := by
  unfold index
  rw [h]

/-! ## Blocks -/

/-- **A memory block** of `n` cells. -/
structure MemBlock (α : Type*) (n : ℕ) where
  /-- The cells, in order. -/
  cells : List α
  /-- There are exactly `n` of them. -/
  length_cells : cells.length = n

namespace MemBlock

variable {n : ℕ}

/-- The block whose cells are given by a function of their position. -/
def ofFn (f : ℕ → α) (n : ℕ) : MemBlock α n :=
  ⟨(List.range n).map f, by rw [List.length_map, List.length_range]⟩

/-- The block of the cells of a list. -/
def ofList (s : List α) : MemBlock α s.length := ⟨s, rfl⟩

/-- The `len` cells from position `off` on. -/
def slice (b : MemBlock α n) (off len : ℕ) : List α :=
  (b.cells.drop off).take len

/-- The block with the cells from position `off` on replaced by `src`. -/
def patch (b : MemBlock α n) (off : ℕ) (src : List α) (h : off + src.length ≤ n) :
    MemBlock α n :=
  ⟨b.cells.take off ++ src ++ b.cells.drop (off + src.length), by
    have hb := b.length_cells
    rw [List.length_append, List.length_append, List.length_take,
      List.length_drop]
    omega⟩

/-- Reading `len` cells at `off`, checked. -/
def load (b : MemBlock α n) (off len : ℕ) : Except Fault (List α) :=
  if off + len ≤ n then .ok (b.slice off len) else .error .load

/-- Copying `src` to `off`, checked. -/
def store (b : MemBlock α n) (off : ℕ) (src : List α) :
    Except Fault (MemBlock α n) :=
  if h : off + src.length ≤ n then .ok (b.patch off src h) else .error .store

theorem load_eq_ok (b : MemBlock α n) {off len : ℕ} (h : off + len ≤ n) :
    b.load off len = .ok (b.slice off len) :=
  if_pos h

theorem store_eq_ok (b : MemBlock α n) {off : ℕ} {src : List α}
    (h : off + src.length ≤ n) : b.store off src = .ok (b.patch off src h) :=
  dif_pos h

@[simp] theorem slice_zero (b : MemBlock α n) (off : ℕ) : b.slice off 0 = [] :=
  List.take_zero

@[simp] theorem length_slice (b : MemBlock α n) {off len : ℕ}
    (h : off + len ≤ n) : (b.slice off len).length = len := by
  have hb := b.length_cells
  unfold slice
  rw [List.length_take, List.length_drop]
  omega

/-- A part of a slice is a slice. -/
theorem take_slice (b : MemBlock α n) {off k l : ℕ} (h : k ≤ l) :
    (b.slice off l).take k = b.slice off k := by
  unfold slice
  rw [List.take_take, Nat.min_eq_left h]

/-- What is behind a part of a slice is a slice. -/
theorem drop_slice (b : MemBlock α n) (off k l : ℕ) :
    (b.slice off l).drop k = b.slice (off + k) (l - k) := by
  unfold slice
  rw [List.drop_take, List.drop_drop]

/-- **What a copy leaves readable**: the cells in front of it, then the
source. -/
theorem slice_zero_patch (b : MemBlock α n) (off : ℕ) (src : List α)
    (h : off + src.length ≤ n) :
    (b.patch off src h).slice 0 (off + src.length) = b.slice 0 off ++ src := by
  have hb := b.length_cells
  have hlen : (b.cells.take off ++ src).length = off + src.length := by
    rw [List.length_append, List.length_take]
    omega
  unfold slice
  rw [List.drop_zero, List.drop_zero]
  show (b.cells.take off ++ src ++ _).take (off + src.length) = _
  exact List.take_left' hlen

/-- **Copying behind what is there.** -/
theorem exists_store_append (b : MemBlock α n) {off : ℕ} {s : List α} (src : List α)
    (hs : b.slice 0 off = s) (h : off + src.length ≤ n) :
    ∃ b', b.store off src = .ok b' ∧ b'.slice 0 (off + src.length) = s ++ src :=
  ⟨_, b.store_eq_ok h, hs ▸ b.slice_zero_patch off src h⟩

/-- A copy to the start. -/
theorem exists_store (b : MemBlock α n) (src : List α) (h : src.length ≤ n) :
    ∃ b', b.store 0 src = .ok b' ∧ b'.slice 0 src.length = src := by
  obtain ⟨b', hb', hslice⟩ := b.exists_store_append src (b.slice_zero 0)
    (show 0 + src.length ≤ n by rwa [Nat.zero_add])
  rw [Nat.zero_add, List.nil_append] at hslice
  exact ⟨b', hb', hslice⟩

end MemBlock

/-! ## Loops -/

/-- **`while (true)` with `break`**: the body is run until it is `done`, for
at most the given number of turns, and what its turns emit is collected. -/
def whileTrue (body : σ → Except Fault (ForInStep σ × List ω)) :
    ℕ → σ → Except Fault (σ × List ω)
  | 0, _ => .error .fuel
  | n + 1, s => do
    match ← body s with
    | (.done s', os) => return (s', os)
    | (.yield s', os) =>
      let (s'', os') ← whileTrue body n s'
      return (s'', os ++ os')

variable {body : σ → Except Fault (ForInStep σ × List ω)} {s t : σ} {os : List ω}

/-- A turn that breaks ends the loop. -/
theorem whileTrue_done (h : body s = .ok (.done t, os)) (n : ℕ) :
    whileTrue body (n + 1) s = .ok (t, os) := by
  rw [whileTrue, h]
  rfl

/-- A turn that does not break is followed by the rest of the loop. -/
theorem whileTrue_yield (h : body s = .ok (.yield t, os)) {n : ℕ} {u : σ}
    {os' : List ω} (hrest : whileTrue body n t = .ok (u, os')) :
    whileTrue body (n + 1) s = .ok (u, os ++ os') := by
  rw [whileTrue, h]
  show (do let (s'', os'') ← whileTrue body n t
           return (s'', os ++ os'') : Except Fault (σ × List ω)) = _
  rw [hrest]
  rfl

/-- **A loop along a list**: where the state is told by the elements behind and those
ahead, and a turn goes past one element, the loop goes past all of them. -/
theorem whileTrue_turns {α : Type*} (xs : List α) (state : List α → List α → σ)
    (emit : α → List ω)
    (hturn : ∀ xs₁ x xs₂, xs = xs₁ ++ x :: xs₂ →
      body (state xs₁ (x :: xs₂)) = .ok (.yield (state (xs₁ ++ [x]) xs₂), emit x))
    {n : ℕ} (hrest : whileTrue body n (state xs []) = .ok (t, os)) :
    whileTrue body (xs.length + n) (state [] xs) = .ok (t, xs.flatMap emit ++ os) := by
  have hgen : ∀ ys zs, xs = ys ++ zs →
      whileTrue body (zs.length + n) (state ys zs) = .ok (t, zs.flatMap emit ++ os) := by
    intro ys zs
    induction zs generalizing ys with
    | nil =>
      intro hxs
      rw [List.append_nil] at hxs
      rw [List.length_nil, Nat.zero_add, ← hxs]
      exact hrest
    | cons z zs ih =>
      intro hxs
      rw [List.length_cons, Nat.add_right_comm, List.flatMap_cons, List.append_assoc]
      exact whileTrue_yield (hturn ys z zs hxs) (ih (ys ++ [z]) (List.append_cons ys z zs ▸ hxs))
  exact hgen [] xs rfl

/-- **A loop along a list that ends with it.** -/
theorem whileTrue_all {α : Type*} (xs : List α) (state : List α → List α → σ) (emit : α → List ω)
    (hturn : ∀ xs₁ x xs₂, xs = xs₁ ++ x :: xs₂ →
      body (state xs₁ (x :: xs₂)) = .ok (.yield (state (xs₁ ++ [x]) xs₂), emit x))
    (hdone : body (state xs []) = .ok (.done t, [])) {n : ℕ} (hn : xs.length < n) :
    whileTrue body n (state [] xs) = .ok (t, xs.flatMap emit) := by
  obtain ⟨k, rfl⟩ := Nat.exists_eq_add_of_lt hn
  have hloop := whileTrue_turns xs state emit hturn (whileTrue_done hdone k)
  rwa [List.append_nil] at hloop

/-- **What the turns of a loop do together**: what holds of a turn that breaks,
and of a turn that does not break together with the rest, holds of the loop. -/
theorem whileTrue_rule {R : σ → List ω → σ → Prop}
    (hdone : ∀ s t os, body s = .ok (.done t, os) → R s os t)
    (hyield : ∀ s t u os os', body s = .ok (.yield t, os) → R t os' u → R s (os ++ os') u)
    {n : ℕ} (h : whileTrue body n s = .ok (t, os)) : R s os t := by
  induction n generalizing s os with
  | zero => cases h
  | succ n ih =>
    obtain ⟨⟨x, os₁⟩, hturn, h⟩ := bind_eq_ok.mp h
    cases x with
    | done t' =>
      obtain ⟨rfl, rfl⟩ := Prod.mk.inj (Except.ok.inj h)
      exact hdone s _ _ hturn
    | yield t' =>
      obtain ⟨⟨u, os₂⟩, hrest, h⟩ := bind_eq_ok.mp h
      obtain ⟨rfl, rfl⟩ := Prod.mk.inj (Except.ok.inj h)
      exact hyield s t' _ _ _ hturn (ih hrest)

/-- **The loop with another log**: if every turn is also a turn of the other
loop, and adds as much to what is kept as it takes in and gives away, the same
is so of the loop. -/
theorem whileTrue_log {ω' : Type*} {body' : σ → Except Fault (ForInStep σ × List ω')}
    {kept : σ → ℕ} {gone : List ω → ℕ}
    (hgone : ∀ os os', gone (os ++ os') = gone os + gone os')
    (hbody : ∀ s x os, body s = .ok (x, os) →
      ∃ taken, body' s = .ok (x, taken) ∧ taken.length + kept s = gone os + kept x.value)
    {n : ℕ} (h : whileTrue body n s = .ok (t, os)) :
    ∃ taken, whileTrue body' n s = .ok (t, taken) ∧ taken.length + kept s = gone os + kept t := by
  induction n generalizing s os with
  | zero => cases h
  | succ n ih =>
    obtain ⟨⟨x, os₁⟩, hturn, h⟩ := bind_eq_ok.mp h
    obtain ⟨taken₁, hturn', hkept⟩ := hbody s x os₁ hturn
    cases x with
    | done t' =>
      obtain ⟨rfl, rfl⟩ := Prod.mk.inj (Except.ok.inj h)
      exact ⟨taken₁, whileTrue_done hturn' n, hkept⟩
    | yield t' =>
      obtain ⟨⟨u, os₂⟩, hrest, h⟩ := bind_eq_ok.mp h
      obtain ⟨rfl, rfl⟩ := Prod.mk.inj (Except.ok.inj h)
      obtain ⟨taken₂, hrest', hkept'⟩ := ih hrest
      refine ⟨taken₁ ++ taken₂, whileTrue_yield hturn' hrest', ?_⟩
      have hvalue : kept (ForInStep.yield t').value = kept t' := rfl
      rw [List.length_append, hgone]
      omega

/-- **A number of turns that do not break**, and what they emit. -/
inductive Turns (body : σ → Except Fault (ForInStep σ × List ω)) : ℕ → σ → List ω → σ → Prop
  /-- No turn. -/
  | refl (s : σ) : Turns body 0 s [] s
  /-- A turn, and then the others. -/
  | step {k : ℕ} {s t u : σ} {os os' : List ω} :
      body s = .ok (.yield t, os) → Turns body k t os' u → Turns body (k + 1) s (os ++ os') u

theorem Turns.single (h : body s = .ok (.yield t, os)) : Turns body 1 s os t := by
  simpa using Turns.step h (.refl t)

/-- Turns after turns. -/
theorem Turns.trans {k l : ℕ} {u : σ} {os' : List ω} (h : Turns body k s os t)
    (h' : Turns body l t os' u) : Turns body (k + l) s (os ++ os') u := by
  induction h with
  | refl s => simpa using h'
  | step hturn _ ih =>
    rw [Nat.add_right_comm, List.append_assoc]
    exact Turns.step hturn (ih h')

/-- **Turns before the rest of the loop.** -/
theorem Turns.loop {k n : ℕ} {u : σ} {os' : List ω} (h : Turns body k s os t)
    (hrest : whileTrue body n t = .ok (u, os')) :
    whileTrue body (k + n) s = .ok (u, os ++ os') := by
  induction h with
  | refl s => simpa using hrest
  | step hturn _ ih =>
    rw [Nat.add_right_comm, List.append_assoc]
    exact whileTrue_yield hturn (ih hrest)

/-- Turns and one that breaks, with any allowance that is large enough. -/
theorem Turns.loop_done {k n : ℕ} {u : σ} {os' : List ω} (h : Turns body k s os t)
    (hdone : body t = .ok (.done u, os')) (hn : k < n) :
    whileTrue body n s = .ok (u, os ++ os') := by
  obtain ⟨m, rfl⟩ := Nat.exists_eq_add_of_lt hn
  exact h.loop (whileTrue_done hdone m)
