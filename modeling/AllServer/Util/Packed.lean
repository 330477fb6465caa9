import AllServer.Util.Memory
import Mathlib.Algebra.GroupWithZero.Nat
import Mathlib.Logic.Function.Basic

/-!
# Packed records

A packed record lays its fields out one behind the other, in the order in which
they are declared and with nothing in between. `Packed.offset` is where a field
begins, and `Packed.sizeof` is where the record ends.

Fields do not overlap (`Packed.disjoint`). Where a block begins with a record
(`Packed.Laid`), a field that is read gives what is in its place, and one that
is written changes no other one. So the fields can be written in any order, or
all at once.
-/

variable {α ι : Type*}

namespace MemBlock

variable {n : ℕ} {b : MemBlock α n} {pre mid post : List α}

/-- **Reading a segment** of a block. -/
theorem slice_segment (h : b.cells = pre ++ mid ++ post) :
    b.slice pre.length mid.length = mid := by
  unfold slice
  rw [h, List.append_assoc, List.drop_left, List.take_left]

/-- **Writing a segment** of a block. -/
theorem exists_store_segment (h : b.cells = pre ++ mid ++ post) {src : List α}
    (hsrc : src.length = mid.length) :
    ∃ b', b.store pre.length src = .ok b' ∧ b'.cells = pre ++ src ++ post := by
  have hlen := congrArg List.length h
  rw [b.length_cells, List.length_append, List.length_append] at hlen
  refine ⟨_, b.store_eq_ok (by omega), ?_⟩
  show b.cells.take pre.length ++ src ++ b.cells.drop (pre.length + src.length) = _
  rw [h, hsrc, List.append_assoc pre, List.take_left, ← List.append_assoc, ← List.length_append,
    List.drop_left]

end MemBlock

/-- **A packed record**: its fields in order, and how many bytes each one
takes. -/
structure Packed (ι : Type*) where
  fields : List ι
  nodup : fields.Nodup
  size : ι → ℕ

namespace Packed

variable [DecidableEq ι] (L : Packed ι)

/-- Where a field begins: behind those that are declared before it. -/
def offset (i : ι) : ℕ := ((L.fields.takeWhile (· ≠ i)).map L.size).sum

/-- `sizeof`. -/
def sizeof : ℕ := (L.fields.map L.size).sum

variable {L} {i j : ι}

omit [DecidableEq ι] in
/-- A field is declared once. -/
theorem notMem_of_fields {pre post : List ι} (h : L.fields = pre ++ i :: post) :
    i ∉ pre ∧ i ∉ post := by
  have hnodup := L.nodup
  rw [h, List.nodup_append, List.nodup_cons] at hnodup
  obtain ⟨-, ⟨hpost, -⟩, hpre⟩ := hnodup
  exact ⟨fun hmem => hpre i hmem i List.mem_cons_self rfl, hpost⟩

/-- **A field begins where those before it end.** -/
theorem offset_eq {pre post : List ι} (h : L.fields = pre ++ i :: post) :
    L.offset i = (pre.map L.size).sum := by
  have hpre : ∀ k ∈ pre, decide (k ≠ i) = true := by
    intro k hk
    exact decide_eq_true fun heq => (notMem_of_fields h).1 (heq ▸ hk)
  rw [offset, h, List.takeWhile_append_of_pos hpre, List.takeWhile_cons_of_neg (by simp),
    List.append_nil]

/-- A field ends inside the record. -/
theorem offset_add_size_le (hi : i ∈ L.fields) : L.offset i + L.size i ≤ L.sizeof := by
  obtain ⟨pre, post, hfields⟩ := List.append_of_mem hi
  rw [offset_eq hfields, sizeof, hfields, List.map_append, List.sum_append, List.map_cons,
    List.sum_cons]
  omega

/-- A field that is declared before another one ends before it. -/
theorem offset_add_size_le_offset {pre mid post : List ι}
    (h : L.fields = pre ++ i :: mid ++ j :: post) : L.offset i + L.size i ≤ L.offset j := by
  have hi : L.fields = pre ++ i :: (mid ++ j :: post) := by simpa using h
  rw [offset_eq h, offset_eq hi, List.map_append, List.sum_append, List.map_cons, List.sum_cons]
  omega

/-- **Fields do not overlap.** -/
theorem disjoint (hi : i ∈ L.fields) (hj : j ∈ L.fields) (hne : i ≠ j) :
    L.offset i + L.size i ≤ L.offset j ∨ L.offset j + L.size j ≤ L.offset i := by
  obtain ⟨pre, post, hfields⟩ := List.append_of_mem hi
  rw [hfields] at hj
  rcases List.mem_append.mp hj with hj | hj
  · obtain ⟨pre', mid, rfl⟩ := List.append_of_mem hj
    exact .inr (offset_add_size_le_offset hfields)
  · obtain ⟨mid, post', rfl⟩ := List.append_of_mem ((List.mem_cons.mp hj).resolve_left hne.symm)
    have hsplit : L.fields = pre ++ i :: mid ++ j :: post' := by
      rw [hfields, List.append_assoc, List.cons_append]
    exact .inl (offset_add_size_le_offset hsplit)

/-! ## Reading and writing -/

variable {n : ℕ} {b : MemBlock α n} {seg : ι → List α} {rest src : List α}

/-- **A block that begins with a record**: the bytes of each field, and what is
behind all of them. -/
structure Laid (L : Packed ι) (b : MemBlock α n) (seg : ι → List α) (rest : List α) : Prop where
  length : ∀ i ∈ L.fields, (seg i).length = L.size i
  cells : b.cells = L.fields.flatMap seg ++ rest

/-- The bytes of other fields are not changed. -/
theorem flatMap_update {fields : List ι} (hi : i ∉ fields) (src : List α) :
    fields.flatMap (Function.update seg i src) = fields.flatMap seg := by
  refine List.flatMap_congr fun k hk => Function.update_of_ne ?_ _ _
  rintro rfl
  exact hi hk

omit [DecidableEq ι] in
/-- How many bytes a part of the fields has. -/
theorem length_flatMap {fields : List ι} (h : ∀ i ∈ fields, (seg i).length = L.size i) :
    (fields.flatMap seg).length = (fields.map L.size).sum := by
  rw [List.length_flatMap, List.map_congr_left h]

/-- The bytes of a list of fields can be told apart. -/
theorem exists_segments (size : ι → ℕ) {fields : List ι} (hfields : fields.Nodup)
    {cells : List α} (h : (fields.map size).sum ≤ cells.length) :
    ∃ seg rest, (∀ i ∈ fields, (seg i).length = size i) ∧ cells = fields.flatMap seg ++ rest := by
  induction fields generalizing cells with
  | nil => exact ⟨fun _ => [], cells, List.forall_mem_nil _, rfl⟩
  | cons i fields ih =>
    obtain ⟨hi, hfields⟩ := List.nodup_cons.mp hfields
    rw [List.map_cons, List.sum_cons] at h
    have hrest : (fields.map size).sum ≤ (cells.drop (size i)).length := by
      rw [List.length_drop]
      omega
    obtain ⟨seg, rest, hseg, hcells⟩ := ih hfields hrest
    refine ⟨Function.update seg i (cells.take (size i)), rest, ?_, ?_⟩
    · intro k hk
      by_cases hki : k = i
      · rw [hki, Function.update_self, List.length_take]
        omega
      · rw [Function.update_of_ne hki]
        exact hseg k ((List.mem_cons.mp hk).resolve_left hki)
    · rw [List.flatMap_cons, Function.update_self, flatMap_update hi, List.append_assoc, ← hcells,
        List.take_append_drop]

/-- **A block with room for the record begins with one.** -/
theorem exists_laid (h : L.sizeof ≤ n) : ∃ seg rest, L.Laid b seg rest := by
  rw [← b.length_cells] at h
  obtain ⟨seg, rest, hseg, hcells⟩ := exists_segments L.size L.nodup h
  exact ⟨seg, rest, hseg, hcells⟩

namespace Laid

variable (hb : L.Laid b seg rest)
include hb

omit [DecidableEq ι] in
/-- What is behind the record is the rest of the block. -/
theorem sizeof_add_length : L.sizeof + rest.length = n := by
  rw [← b.length_cells, hb.cells, List.length_append, length_flatMap hb.length]
  rfl

/-- **Reading a field** gives what is in its place. -/
theorem slice_field (hi : i ∈ L.fields) : b.slice (L.offset i) (L.size i) = seg i := by
  obtain ⟨pre, post, hfields⟩ := List.append_of_mem hi
  have hcells := hb.cells
  rw [hfields, List.flatMap_append, List.flatMap_cons, ← List.append_assoc,
    List.append_assoc _ _ rest] at hcells
  have hslice := MemBlock.slice_segment hcells
  have hpre : (pre.flatMap seg).length = (pre.map L.size).sum :=
    length_flatMap fun k hk => hb.length k (hfields ▸ List.mem_append_left _ hk)
  rwa [hpre, hb.length i hi, ← offset_eq hfields] at hslice

/-- **Writing a field** puts it in its place, and changes no other one. -/
theorem exists_store_field (hi : i ∈ L.fields) (hsrc : src.length = L.size i) :
    ∃ b', b.store (L.offset i) src = .ok b' ∧ L.Laid b' (Function.update seg i src) rest := by
  obtain ⟨pre, post, hfields⟩ := List.append_of_mem hi
  obtain ⟨hpre, hpost⟩ := notMem_of_fields hfields
  have hcells := hb.cells
  rw [hfields, List.flatMap_append, List.flatMap_cons, ← List.append_assoc,
    List.append_assoc _ _ rest] at hcells
  obtain ⟨b', hstore, hcells'⟩ :=
    MemBlock.exists_store_segment hcells (hsrc.trans (hb.length i hi).symm)
  have hlength : (pre.flatMap seg).length = (pre.map L.size).sum :=
    length_flatMap fun k hk => hb.length k (hfields ▸ List.mem_append_left _ hk)
  rw [hlength, ← offset_eq hfields] at hstore
  refine ⟨b', hstore, ?_, ?_⟩
  · intro k hk
    by_cases hki : k = i
    · rw [hki, Function.update_self, hsrc]
    · rw [Function.update_of_ne hki, hb.length k hk]
  · rw [hcells', hfields, List.flatMap_append, List.flatMap_cons, Function.update_self,
      flatMap_update hpre, flatMap_update hpost]
    simp only [List.append_assoc]

omit [DecidableEq ι] in
/-- **Writing all of the record** at once. -/
theorem exists_store_record {seg' : ι → List α}
    (hseg' : ∀ i ∈ L.fields, (seg' i).length = L.size i) :
    ∃ b', b.store 0 (L.fields.flatMap seg') = .ok b' ∧ L.Laid b' seg' rest := by
  have hcells : b.cells = [] ++ L.fields.flatMap seg ++ rest := hb.cells
  obtain ⟨b', hstore, hcells'⟩ := MemBlock.exists_store_segment hcells
    ((length_flatMap hseg').trans (length_flatMap hb.length).symm)
  exact ⟨b', hstore, hseg', hcells'⟩

omit [DecidableEq ι] in
/-- **Writing behind the record** does not change it. -/
theorem exists_store_behind (hsrc : src.length ≤ rest.length) :
    ∃ b', b.store L.sizeof src = .ok b' ∧ L.Laid b' seg (src ++ rest.drop src.length) := by
  have hcells : b.cells
      = L.fields.flatMap seg ++ rest.take src.length ++ rest.drop src.length := by
    rw [List.append_assoc, List.take_append_drop, hb.cells]
  have hlen : src.length = (rest.take src.length).length := by
    rw [List.length_take, Nat.min_eq_left hsrc]
  obtain ⟨b', hstore, hcells'⟩ := MemBlock.exists_store_segment hcells hlen
  rw [length_flatMap hb.length] at hstore
  exact ⟨b', hstore, hb.length, by rw [hcells', List.append_assoc]⟩

end Laid

end Packed
