import Mathlib.Data.List.Basic
import Mathlib.Data.List.Perm.Basic
import Mathlib.Tactic.Common

/-!
# Sorted maps

A `SortedMap` is a list of entries in the order of their keys, each key once.
Inserting a key that is there already changes nothing, as with `std::map`, so
what is found for a key after a sequence of insertions is what was inserted
first (`find_insertAll`). Maps in which the same is found are the same
(`ext_find`), so inserting the entries of a map gives it back
(`insertAll_entries`).
-/

/-- **A sorted map.** -/
structure SortedMap (κ α : Type*) [LT κ] where
  entries : List (κ × α)
  /-- The keys go up. -/
  sorted : entries.Pairwise fun e e' => e.1 < e'.1

namespace SortedMap

variable {κ α : Type*} [LT κ] [DecidableLT κ] [BEq κ]

/-- The map without entries. -/
def empty : SortedMap κ α := ⟨[], .nil⟩

/-- What is found for a key. -/
def find (k : κ) (m : SortedMap κ α) : Option α := m.entries.lookup k

/-- An entry is put where it belongs, if its key is not there. -/
def insertEntry (k : κ) (v : α) : List (κ × α) → List (κ × α)
  | [] => [(k, v)]
  | e :: es =>
    if k < e.1 then (k, v) :: e :: es
    else if k == e.1 then e :: es
    else e :: insertEntry k v es

variable {k k' : κ} {v : α} {e : κ × α} {es : List (κ × α)}

theorem mem_insertEntry (h : e ∈ insertEntry k v es) : e = (k, v) ∨ e ∈ es := by
  induction es with
  | nil => exact .inl (List.mem_singleton.mp h)
  | cons e' es ih =>
    unfold insertEntry at h
    split_ifs at h
    · exact List.mem_cons.mp h
    · exact .inr h
    · rcases List.mem_cons.mp h with rfl | hmem
      · exact .inr List.mem_cons_self
      · exact (ih hmem).imp_right (List.mem_cons_of_mem e')

section Lookup

variable [LawfulBEq κ]

omit [LT κ] [DecidableLT κ] in
/-- What is found behind an entry, for another key than its. -/
theorem lookup_cons_of_ne (h : k ≠ e.1) : (e :: es).lookup k = es.lookup k := by
  rw [List.lookup_cons, beq_false_of_ne h]

/-- **What is found after an insertion** is what was there. -/
theorem lookup_insertEntry_of_ne (h : k' ≠ k) : (insertEntry k v es).lookup k' = es.lookup k' := by
  induction es with
  | nil => exact lookup_cons_of_ne h
  | cons e es ih =>
    unfold insertEntry
    split_ifs
    · exact lookup_cons_of_ne h
    · rfl
    · rw [List.lookup_cons, List.lookup_cons, ih]

end Lookup

variable [LawfulBEq κ] [LE κ] [Std.IsLinearOrder κ] [Std.LawfulOrderLT κ]

theorem sorted_insertEntry (k : κ) (v : α) (hes : es.Pairwise fun e e' => e.1 < e'.1) :
    (insertEntry k v es).Pairwise fun e e' => e.1 < e'.1 := by
  induction es with
  | nil => exact List.pairwise_singleton _ _
  | cons e es ih =>
    obtain ⟨hfirst, hrest⟩ := List.pairwise_cons.mp hes
    unfold insertEntry
    split_ifs with hlt heq
    · refine List.pairwise_cons.mpr ⟨List.forall_mem_cons.mpr ⟨hlt, fun e' he' => ?_⟩, hes⟩
      exact Std.lt_trans hlt (hfirst e' he')
    · exact hes
    · refine List.pairwise_cons.mpr ⟨fun e' he' => ?_, ih hrest⟩
      rcases mem_insertEntry he' with rfl | hmem
      · exact ((Std.lt_trichotomy k e.1).resolve_left hlt).resolve_left fun h =>
          heq (beq_iff_eq.mpr h)
      · exact hfirst e' hmem

/-- `std::map::insert`. -/
def insert (k : κ) (v : α) (m : SortedMap κ α) : SortedMap κ α :=
  ⟨insertEntry k v m.entries, sorted_insertEntry k v m.sorted⟩

/-- The map after a sequence of insertions. -/
def insertAll (kvs : List (κ × α)) (m : SortedMap κ α) : SortedMap κ α :=
  kvs.foldl (fun m kv => m.insert kv.1 kv.2) m

theorem insertAll_append (kvs kvs' : List (κ × α)) (m : SortedMap κ α) :
    m.insertAll (kvs ++ kvs') = (m.insertAll kvs).insertAll kvs' :=
  List.foldl_append

omit [DecidableLT κ] [Std.IsLinearOrder κ] in
/-- A key that is in front of all others is not found. -/
theorem lookup_of_lt (h : ∀ e ∈ es, k < e.1) : es.lookup k = none := by
  refine List.lookup_eq_none_iff.mpr fun e he => bne_iff_ne.mpr ?_
  rintro rfl
  exact Std.lt_irrefl (h e he)

/-- For its key, it is what has been inserted if nothing was. -/
theorem lookup_insertEntry_self (hes : es.Pairwise fun e e' => e.1 < e'.1) :
    (insertEntry k v es).lookup k = (es.lookup k).or (some v) := by
  induction es with
  | nil => exact List.lookup_cons_self
  | cons e es ih =>
    obtain ⟨hfirst, hrest⟩ := List.pairwise_cons.mp hes
    unfold insertEntry
    split_ifs with hlt heq
    · rw [List.lookup_cons_self, lookup_of_lt (List.forall_mem_cons.mpr
        ⟨hlt, fun e' he' => Std.lt_trans hlt (hfirst e' he')⟩)]
      rfl
    · obtain ⟨k', v'⟩ := e
      obtain rfl : k = k' := eq_of_beq heq
      rw [List.lookup_cons_self]
      rfl
    · have hne : k ≠ e.1 := fun h => heq (beq_iff_eq.mpr h)
      rw [lookup_cons_of_ne hne, lookup_cons_of_ne hne, ih hrest]

/-- **What is found after a sequence of insertions** is what was there, or else what
has been inserted first. -/
theorem find_insertAll (kvs : List (κ × α)) (m : SortedMap κ α) (k : κ) :
    (m.insertAll kvs).find k = (m.find k).or (kvs.lookup k) := by
  induction kvs generalizing m with
  | nil => exact (Option.or_none).symm
  | cons kv kvs ih =>
    obtain ⟨k', v⟩ := kv
    refine (ih (m.insert k' v)).trans ?_
    by_cases hk : k = k'
    · subst hk
      rw [find, insert, lookup_insertEntry_self m.sorted, Option.or_assoc, List.lookup_cons_self]
      rfl
    · rw [find, insert, lookup_insertEntry_of_ne hk, lookup_cons_of_ne hk]
      rfl

omit [DecidableLT κ] [Std.IsLinearOrder κ] in
/-- **The entries are what is found.** -/
theorem mem_entries_iff (m : SortedMap κ α) : e ∈ m.entries ↔ m.find e.1 = some e.2 := by
  obtain ⟨es, hes⟩ := m
  show e ∈ es ↔ es.lookup e.1 = some e.2
  induction es with
  | nil => simp
  | cons e' es ih =>
    obtain ⟨hfirst, hrest⟩ := List.pairwise_cons.mp hes
    by_cases hk : e.1 = e'.1
    · have hnot : e ∉ es := fun hmem => Std.lt_irrefl (hk ▸ hfirst e hmem)
      obtain ⟨k, v⟩ := e
      obtain ⟨k', v'⟩ := e'
      obtain rfl : k = k' := hk
      rw [List.lookup_cons_self, List.mem_cons, or_iff_left hnot]
      simp [eq_comm]
    · rw [lookup_cons_of_ne hk, ← ih hrest, List.mem_cons, or_iff_right]
      rintro rfl
      exact hk rfl

omit [DecidableLT κ] in
/-- **Maps in which the same is found are the same.** -/
theorem ext_find {m m' : SortedMap κ α} (h : ∀ k, m.find k = m'.find k) : m = m' := by
  have hnodup : ∀ m : SortedMap κ α, m.entries.Nodup := fun m => by
    refine List.Pairwise.imp (fun hlt => ?_) m.sorted
    rintro rfl
    exact Std.lt_irrefl hlt
  have hperm : m.entries.Perm m'.entries :=
    (List.perm_ext_iff_of_nodup (hnodup m) (hnodup m')).mpr fun e => by
      rw [mem_entries_iff, mem_entries_iff, h]
  have hentries := hperm.eq_of_pairwise (fun a b _ _ hab hba =>
    absurd (Std.lt_trans hab hba) Std.lt_irrefl) m.sorted m'.sorted
  obtain ⟨es, hes⟩ := m
  obtain ⟨es', hes'⟩ := m'
  obtain rfl : es = es' := hentries
  rfl

/-- What is in the map has been inserted. -/
theorem mem_of_mem_insertAll {kvs : List (κ × α)} (h : e ∈ (empty.insertAll kvs).entries) :
    e ∈ kvs := by
  rw [mem_entries_iff, find_insertAll] at h
  obtain ⟨pre, post, rfl, -⟩ := List.lookup_eq_some_iff.mp h
  simp

/-- **The entries of a map give it back.** -/
theorem insertAll_entries (m : SortedMap κ α) : empty.insertAll m.entries = m :=
  ext_find fun k => find_insertAll m.entries empty k

end SortedMap
