import AllServer.Util.CString

/-!
# Strings that grow

The parser and the printer of the JSON library build their texts in an `rcstring`: a buffer
with room for `max` bytes and a NUL, of which `length` are in use. Appending makes
the buffer longer where it has to, and puts the NUL behind what is there.

`Mjson.Rcs` says which text a buffer holds. Whatever is appended, nothing is written
outside the buffer, and what is unwrapped is all of it in order (`Mjson.rcs_run_eq`).
-/

namespace Mjson

/-- `rcstring`: a buffer has a byte more than there is room for. -/
structure rcstring where
  length : ℕ
  max : ℕ
  text : MemBlock UInt8 (max + 1)

/-- `RSTRING_INCSTEP`. -/
def RSTRING_INCSTEP : ℕ := 5

/-- `RSTRING_DEFAULT`. -/
def RSTRING_DEFAULT : ℕ := 8

/-! ## The code -/

section

/- What is in memory that is allocated. -/
variable (fresh : ℕ → UInt8)

/-- `realloc`. -/
def realloc {n : ℕ} (b : MemBlock UInt8 n) (m : ℕ) : MemBlock UInt8 m :=
  MemBlock.ofFn (fun i => b.cells.getD i (fresh i)) m

/-- `rcs_create`. -/
def rcs_create (length : ℕ) : Except Fault rcstring := do
  let text ← (MemBlock.ofFn fresh (length + 1)).store 0 [0]
  return { length := 0, max := length, text }

/-- `rcs_resize`. -/
def rcs_resize (rcs : rcstring) (length : ℕ) : Except Fault rcstring := do
  let text ← (realloc fresh rcs.text (length + 1)).store length [0]
  return { length := rcs.length, max := length, text }

/-- `rcs_catcs`: the C string `pos` is filled up with zeros where it is shorter. -/
def rcs_catcs (pre : rcstring) (pos : List UInt8) (length : ℕ) : Except Fault rcstring := do
  let pre ← (if pre.max < pre.length + length then
    rcs_resize fresh pre (pre.length + length + RSTRING_INCSTEP) else .ok pre)
  let text ← pre.text.store pre.length
    ((cstr pos).take length ++ List.replicate (length - (cstr pos).length) 0)
  let text ← text.store (pre.length + length) [0]
  return { length := pre.length + length, max := pre.max, text }

/-- `rcs_catc`. -/
def rcs_catc (pre : rcstring) (c : UInt8) : Except Fault rcstring := do
  let pre ← (if pre.max ≤ pre.length then
    rcs_resize fresh pre (pre.max + RSTRING_INCSTEP) else .ok pre)
  let text ← pre.text.store pre.length [c]
  let text ← text.store (pre.length + 1) [0]
  return { length := pre.length + 1, max := pre.max, text }

end

/-- `rcs_unwrap`: the string, in memory of just its size. -/
def rcs_unwrap (rcs : rcstring) : Except Fault (List UInt8) := rcs.text.str

/-! ## What a buffer holds -/

/-- **A buffer holds a text**, with a NUL behind it. -/
structure Rcs (rcs : rcstring) (s : List UInt8) : Prop where
  length : rcs.length = s.length
  room : s.length ≤ rcs.max
  slice : rcs.text.slice 0 (s.length + 1) = s ++ [0]

variable {rcs : rcstring} {s : List UInt8}

theorem rcs_create_eq (fresh : ℕ → UInt8) (length : ℕ) :
    ∃ rcs, rcs_create fresh length = .ok rcs ∧ Rcs rcs [] := by
  obtain ⟨text, htext, hslice⟩ := (MemBlock.ofFn fresh (length + 1)).exists_store [0]
    (Nat.succ_le_succ (Nat.zero_le length))
  exact ⟨⟨0, length, text⟩, bind_eq_ok.mpr ⟨text, htext, rfl⟩, rfl, Nat.zero_le _, hslice⟩

/-- What is in a block stays when it gets longer. -/
theorem slice_realloc {fresh : ℕ → UInt8} {n m k : ℕ} (b : MemBlock UInt8 n) (hn : k ≤ n)
    (hm : k ≤ m) :
    (realloc fresh b m).slice 0 k = b.slice 0 k := by
  have hb := b.length_cells
  refine List.ext_getElem ?_ fun i h₁ h₂ => ?_
  · rw [MemBlock.length_slice _ (by omega), MemBlock.length_slice _ (by omega)]
  · rw [MemBlock.length_slice _ (by omega)] at h₂
    simp only [MemBlock.slice, realloc, MemBlock.ofFn, List.drop_zero, List.getElem_take,
      List.getElem_map, List.getElem_range]
    rw [List.getD_eq_getElem?_getD, List.getElem?_eq_getElem (by omega), Option.getD_some]

/-- What is written behind a part of a block leaves that as it is. -/
theorem slice_patch_of_le {n k off : ℕ} (b : MemBlock UInt8 n) {src : List UInt8}
    (h : off + src.length ≤ n) (hk : k ≤ off) : (b.patch off src h).slice 0 k = b.slice 0 k := by
  have hlen : (b.slice 0 off).length = off := b.length_slice (by omega)
  rw [← MemBlock.take_slice _ (show k ≤ off + src.length by omega), MemBlock.slice_zero_patch,
    List.take_append_of_le_length (by omega), MemBlock.take_slice _ hk]

/-- **A longer buffer holds the same text.** -/
theorem Rcs.resize (h : Rcs rcs s) (fresh : ℕ → UInt8) {length : ℕ} (hlength : s.length < length) :
    ∃ rcs', rcs_resize fresh rcs length = .ok rcs' ∧ Rcs rcs' s ∧ rcs'.max = length := by
  have hroom := h.room
  have hstore : length + [(0 : UInt8)].length ≤ length + 1 := le_rfl
  refine ⟨_, bind_eq_ok.mpr ⟨_, MemBlock.store_eq_ok _ hstore, rfl⟩, ⟨h.length, hlength.le, ?_⟩,
    rfl⟩
  dsimp only
  rw [slice_patch_of_le _ hstore hlength, slice_realloc _ (by omega) (by omega), h.slice]

/-- What is put behind the text of a buffer with room for it, and a NUL behind that. -/
theorem Rcs.store (h : Rcs rcs s) {src : List UInt8} (hroom : s.length + src.length ≤ rcs.max) :
    ∃ text text', rcs.text.store rcs.length src = .ok text
      ∧ text.store (rcs.length + src.length) [0] = .ok text'
      ∧ Rcs ⟨rcs.length + src.length, rcs.max, text'⟩ (s ++ src) := by
  have hslice : rcs.text.slice 0 s.length = s := by
    rw [← rcs.text.take_slice (Nat.le_succ s.length), h.slice, List.take_left]
  rw [h.length]
  obtain ⟨text, htext, hs⟩ := rcs.text.exists_store_append src hslice (by omega)
  obtain ⟨text', htext', hs'⟩ := text.exists_store_append [0] hs
    (show s.length + src.length + 1 ≤ rcs.max + 1 by omega)
  refine ⟨text, text', htext, htext', ?_, ?_, ?_⟩
  · exact List.length_append.symm
  · rwa [List.length_append]
  · rw [List.length_append]
    exact hs'

/-- **Appending a character.** -/
theorem Rcs.catc (h : Rcs rcs s) (fresh : ℕ → UInt8) (c : UInt8) :
    ∃ rcs', rcs_catc fresh rcs c = .ok rcs' ∧ Rcs rcs' (s ++ [c]) := by
  have hroom := h.room
  have hlength := h.length
  obtain ⟨rcs₁, hrcs₁, h₁, hmax⟩ : ∃ rcs₁, (if rcs.max ≤ rcs.length then
      rcs_resize fresh rcs (rcs.max + RSTRING_INCSTEP) else .ok rcs) = .ok rcs₁ ∧ Rcs rcs₁ s
      ∧ s.length + 1 ≤ rcs₁.max := by
    split_ifs with hfull
    · obtain ⟨rcs₁, hrcs₁, h₁, hmax⟩ := h.resize fresh
        (show s.length < rcs.max + RSTRING_INCSTEP by unfold RSTRING_INCSTEP; omega)
      refine ⟨rcs₁, hrcs₁, h₁, ?_⟩
      unfold RSTRING_INCSTEP at hmax
      omega
    · exact ⟨rcs, rfl, h, by omega⟩
  obtain ⟨text, text', htext, htext', h'⟩ := h₁.store (show s.length + [c].length ≤ _ from hmax)
  exact ⟨_, bind_eq_ok.mpr ⟨rcs₁, hrcs₁, bind_eq_ok.mpr ⟨text, htext,
    bind_eq_ok.mpr ⟨text', htext', rfl⟩⟩⟩, h'⟩

/-- **Appending a string.** -/
theorem Rcs.catcs (h : Rcs rcs s) (fresh : ℕ → UInt8) {pos : List UInt8} (hpos : NulFree pos) :
    ∃ rcs', rcs_catcs fresh rcs pos pos.length = .ok rcs' ∧ Rcs rcs' (s ++ pos) := by
  have hroom := h.room
  have hlength := h.length
  obtain ⟨rcs₁, hrcs₁, h₁, hmax⟩ : ∃ rcs₁, (if rcs.max < rcs.length + pos.length then
      rcs_resize fresh rcs (rcs.length + pos.length + RSTRING_INCSTEP) else .ok rcs) = .ok rcs₁
      ∧ Rcs rcs₁ s ∧ s.length + pos.length ≤ rcs₁.max := by
    split_ifs with hfull
    · obtain ⟨rcs₁, hrcs₁, h₁, hmax⟩ := h.resize fresh
        (show s.length < rcs.length + pos.length + RSTRING_INCSTEP by
          unfold RSTRING_INCSTEP
          omega)
      exact ⟨rcs₁, hrcs₁, h₁, by omega⟩
    · exact ⟨rcs, rfl, h, by omega⟩
  obtain ⟨text, text', htext, htext', h'⟩ := h₁.store hmax
  refine ⟨_, bind_eq_ok.mpr ⟨rcs₁, hrcs₁, bind_eq_ok.mpr ⟨text, ?_,
    bind_eq_ok.mpr ⟨text', htext', rfl⟩⟩⟩, h'⟩
  rw [cstr_of_nulFree hpos, List.take_length, Nat.sub_self, List.replicate_zero, List.append_nil,
    htext]

/-- **What is unwrapped is the text.** -/
theorem Rcs.unwrap (h : Rcs rcs s) (hs : NulFree s) : rcs_unwrap rcs = .ok s :=
  MemBlock.str_of_slice hs [] h.slice

/-! ## Any number of appends -/

/-- An append. -/
inductive Cat where
  | catc (c : UInt8)
  | catcs (pos : List UInt8)

/-- The append that is made. -/
def Cat.run (fresh : ℕ → UInt8) (rcs : rcstring) : Cat → Except Fault rcstring
  | .catc c => rcs_catc fresh rcs c
  | .catcs pos => rcs_catcs fresh rcs pos pos.length

/-- What it appends. -/
def Cat.bytes : Cat → List UInt8
  | .catc c => [c]
  | .catcs pos => pos

theorem Rcs.run (h : Rcs rcs s) (fresh : ℕ → UInt8) {cat : Cat} (hcat : NulFree cat.bytes) :
    ∃ rcs', cat.run fresh rcs = .ok rcs' ∧ Rcs rcs' (s ++ cat.bytes) := by
  cases cat with
  | catc c => exact h.catc fresh c
  | catcs pos => exact h.catcs fresh hcat

theorem Rcs.foldlM (h : Rcs rcs s) (fresh : ℕ → UInt8) {cats : List Cat}
    (hcats : ∀ cat ∈ cats, NulFree cat.bytes) :
    ∃ rcs', cats.foldlM (Cat.run fresh) rcs = .ok rcs'
      ∧ Rcs rcs' (s ++ cats.flatMap Cat.bytes) := by
  induction cats generalizing rcs s with
  | nil => exact ⟨rcs, rfl, by rwa [List.flatMap_nil, List.append_nil]⟩
  | cons cat cats ih =>
    obtain ⟨hcat, hcats⟩ := List.forall_mem_cons.mp hcats
    obtain ⟨rcs₁, hrun, h₁⟩ := h.run fresh hcat
    obtain ⟨rcs₂, hfold, h₂⟩ := ih h₁ hcats
    rw [List.append_assoc, ← List.flatMap_cons] at h₂
    exact ⟨rcs₂, bind_eq_ok.mpr ⟨rcs₁, hrun, hfold⟩, h₂⟩

theorem nulFree_flatMap {β : Type*} {f : β → List UInt8} {xs : List β}
    (h : ∀ x ∈ xs, NulFree (f x)) : NulFree (xs.flatMap f) := fun hmem => by
  obtain ⟨x, hx, hzero⟩ := List.mem_flatMap.mp hmem
  exact h x hx hzero

/-- **A string that is built by appending** is what has been appended, one after the other: from
a buffer of any size, with any number of appends, nothing is written outside the buffer. What a
run keeps is that a buffer holds a text and has room for the NUL behind it. -/
theorem rcs_run_eq (fresh fresh' : ℕ → UInt8) (length : ℕ) (cats : List Cat)
    (hcats : ∀ cat ∈ cats, NulFree cat.bytes) :
    ∃ rcs rcs', rcs_create fresh length = .ok rcs ∧ cats.foldlM (Cat.run fresh') rcs = .ok rcs'
      ∧ rcs'.length ≤ rcs'.max ∧ rcs_unwrap rcs' = .ok (cats.flatMap Cat.bytes) := by
  obtain ⟨rcs, hcreate, h⟩ := rcs_create_eq fresh length
  obtain ⟨rcs', hfold, h'⟩ := h.foldlM fresh' hcats
  exact ⟨rcs, rcs', hcreate, hfold, h'.length.trans_le h'.room, h'.unwrap (nulFree_flatMap hcats)⟩

/-- A buffer of no size, to which three strings are appended. -/
theorem rcs_run_eq_three : ∃ rcs rcs', rcs_create (fun _ => 205) 0 = .ok rcs
    ∧ [Cat.catcs (ascii "tr"), .catc 117, .catc 101].foldlM (Cat.run fun _ => 204) rcs = .ok rcs'
    ∧ rcs'.length ≤ rcs'.max
    ∧ rcs_unwrap rcs' = .ok ([Cat.catcs (ascii "tr"), .catc 117, .catc 101].flatMap Cat.bytes) :=
  rcs_run_eq (fun _ => 205) (fun _ => 204) 0 [.catcs (ascii "tr"), .catc 117, .catc 101]
    (by decide)

end Mjson
