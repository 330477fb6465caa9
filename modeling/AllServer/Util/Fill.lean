import Mathlib.Data.List.Induction
import Mathlib.Data.List.Nodup
import Mathlib.Logic.Function.Basic

/-!
# A table that is filled by a loop

A loop assigns to each key in turn: `fill` is the table after it. What is found
for a key is what has been assigned last (`fill_apply`), so every value is found
exactly if no two have the same key (`fill_of_nodup`, `nodup_of_fill`).
-/

variable {κ α β : Type*} [DecidableEq κ]

/-- **The table after a loop** over `xs` that assigns `val x` to `key x`. -/
def fill (key : β → κ) (val : β → α) (xs : List β) (t : κ → Option α) : κ → Option α :=
  xs.foldl (fun t x => Function.update t (key x) (some (val x))) t

variable {key : β → κ} {val : β → α} {xs : List β} {t : κ → Option α} {k : κ}

/-- **What has been assigned last is found**, or else what was there before. -/
theorem fill_apply (key : β → κ) (val : β → α) (xs : List β) (t : κ → Option α) (k : κ) :
    fill key val xs t k = ((xs.reverse.find? (fun x => key x = k)).map val).or (t k) := by
  induction xs using List.reverseRecOn with
  | nil => rfl
  | append_singleton xs x ih =>
    rw [List.reverse_append, List.reverse_singleton, List.singleton_append, fill, List.foldl_append]
    by_cases hk : key x = k
    · rw [List.find?_cons_of_pos (by simpa using hk), ← hk]
      exact Function.update_self _ _ _
    · rw [List.find?_cons_of_neg (by simpa using hk), ← ih]
      exact Function.update_of_ne (Ne.symm hk) _ _

/-- What is found in a table that was empty has been assigned. -/
theorem exists_of_fill {v : α} (h : fill key val xs (fun _ => none) k = some v) :
    ∃ x ∈ xs, key x = k ∧ val x = v := by
  rw [fill_apply, Option.or_none] at h
  obtain ⟨x, hfind, rfl⟩ := Option.map_eq_some_iff.mp h
  exact ⟨x, List.mem_reverse.mp (List.mem_of_find?_eq_some hfind),
    by simpa using List.find?_some hfind, rfl⟩

/-- What is looked for by its key is found if no two have the same. -/
theorem find?_of_nodup (hxs : (xs.map key).Nodup) {x : β} (hx : x ∈ xs) :
    xs.find? (fun y => key y = key x) = some x := by
  have hsome : (xs.find? (fun y => key y = key x)).isSome :=
    List.find?_isSome.mpr ⟨x, hx, decide_eq_true rfl⟩
  obtain ⟨y, hy⟩ := Option.isSome_iff_exists.mp hsome
  have hkey : key y = key x := by simpa using List.find?_some hy
  rw [hy, List.inj_on_of_nodup_map hxs (List.mem_of_find?_eq_some hy) hx hkey]

/-- **Every value is found** if no two have the same key. -/
theorem fill_of_nodup (hxs : (xs.map key).Nodup) {x : β} (hx : x ∈ xs) :
    fill key val xs t (key x) = some (val x) := by
  have hrev : (xs.reverse.map key).Nodup := by
    rw [List.map_reverse]
    exact List.nodup_reverse.mpr hxs
  rw [fill_apply, find?_of_nodup hrev (List.mem_reverse.mpr hx)]
  rfl

/-- **No two have the same key** if every value is found and they are different. -/
theorem nodup_of_fill (hxs : (xs.map val).Nodup)
    (h : ∀ x ∈ xs, fill key val xs t (key x) = some (val x)) : (xs.map key).Nodup := by
  refine (List.Nodup.of_map val hxs).map_on fun x hx y hy hkey => ?_
  have heq := h x hx
  rw [hkey, h y hy] at heq
  exact List.inj_on_of_nodup_map hxs hx hy (Option.some.inj heq).symm
