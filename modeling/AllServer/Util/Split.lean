import Mathlib.Data.List.Infix
import Mathlib.Tactic.Common

/-!
# Cutting a list at a delimiter

`search` is where a delimiter first occurs. `Cuts` relates a list to its pieces
when it is cut at every occurrence that is the leftmost one in what is left;
there always are such pieces (`exists_cuts`), none of them has the delimiter in
it and joined by it they give the list back (`Cuts.not_isInfix`,
`Cuts.intercalate_eq`), there is no other way (`Cuts.unique`), and for a
delimiter of one element they are those of `List.splitOn` (`cuts_splitOn`).
-/

variable {α : Type*} {d s p r : List α} {pieces : List (List α)}

/-- **Where `d` first occurs** in a list, or else its length. -/
def search [DecidableEq α] (d : List α) : List α → ℕ
  | [] => 0
  | c :: s => if d <+: c :: s then 0 else search d s + 1

/-- The occurrence of `d` between `p` and `r` is the leftmost one. -/
def Leftmost (d p r : List α) : Prop :=
  ∀ p' r', p ++ (d ++ r) = p' ++ (d ++ r') → p.length ≤ p'.length

/-- **The list is cut at the leftmost occurrence** of `d`, and what is behind it is
cut in turn. -/
inductive Cuts (d : List α) : List α → List (List α) → Prop
  | last {s : List α} : ¬ d <:+: s → Cuts d s [s]
  | cut {p r : List α} {pieces : List (List α)} :
    Leftmost d p r → Cuts d r pieces → Cuts d (p ++ (d ++ r)) (p :: pieces)

/-- What begins with one more element is the leftmost as far as the rest goes. -/
theorem Leftmost.of_cons {c : α} (h : Leftmost d (c :: p) r) : Leftmost d p r :=
  fun p' r' heq => Nat.le_of_succ_le_succ (h (c :: p') r' (congrArg (c :: ·) heq))

/-- **An occurrence has a leftmost one.** -/
theorem exists_leftmost (h : d <:+: s) : ∃ p r, s = p ++ (d ++ r) ∧ Leftmost d p r := by
  induction s with
  | nil =>
    obtain rfl := List.infix_nil.mp h
    exact ⟨[], [], rfl, fun _ _ _ => Nat.zero_le _⟩
  | cons c s ih =>
    by_cases hprefix : d <+: c :: s
    · obtain ⟨r, hr⟩ := hprefix
      exact ⟨[], r, hr.symm, fun _ _ _ => Nat.zero_le _⟩
    · obtain ⟨p, r, rfl, hleft⟩ := ih ((List.infix_cons_iff.mp h).resolve_left hprefix)
      refine ⟨c :: p, r, rfl, fun p' r' heq => ?_⟩
      cases p' with
      | nil => exact absurd ⟨r', heq.symm⟩ hprefix
      | cons c' p' => exact Nat.succ_le_succ (hleft p' r' (List.cons.inj heq).2)

/-- **A list can be cut.** -/
theorem exists_cuts (hd : d ≠ []) (s : List α) : ∃ pieces, Cuts d s pieces := by
  by_cases h : d <:+: s
  · obtain ⟨p, r, hs, hleft⟩ := exists_leftmost h
    have hlt : r.length < s.length := by
      have hpos := List.length_pos_iff.mpr hd
      rw [hs, List.length_append, List.length_append]
      omega
    obtain ⟨pieces, hpieces⟩ := exists_cuts hd r
    exact ⟨p :: pieces, hs ▸ .cut hleft hpieces⟩
  · exact ⟨[s], .last h⟩
termination_by s.length

/-- **No piece has the delimiter in it.** -/
theorem Cuts.not_isInfix (h : Cuts d s pieces) (hd : d ≠ []) : ∀ q ∈ pieces, ¬ d <:+: q := by
  induction h with
  | last hs =>
    intro q hq
    rwa [List.mem_singleton.mp hq]
  | @cut p r pieces hleft _ ih =>
    refine List.forall_mem_cons.mpr ⟨fun ⟨a, b, hab⟩ => ?_, ih⟩
    have hle := hleft a (b ++ (d ++ r)) (by simp [← hab])
    have hlen := congrArg List.length hab
    have hpos := List.length_pos_iff.mpr hd
    rw [List.length_append, List.length_append] at hlen
    omega

/-- A piece is a part of the list. -/
theorem Cuts.isInfix (h : Cuts d s pieces) : ∀ q ∈ pieces, q <:+: s := by
  induction h with
  | last hs => exact fun q hq => List.mem_singleton.mp hq ▸ List.infix_refl _
  | @cut p r pieces _ _ ih =>
    refine List.forall_mem_cons.mpr ⟨(List.prefix_append p _).isInfix, fun q hq => ?_⟩
    have hsuffix : r <:+ p ++ (d ++ r) := by
      rw [← List.append_assoc]
      exact List.suffix_append _ r
    exact (ih q hq).trans hsuffix.isInfix

theorem Cuts.ne_nil (h : Cuts d s pieces) : pieces ≠ [] := by
  cases h <;> exact List.cons_ne_nil _ _

/-- **Joined by the delimiter, the pieces give the list back.** -/
theorem Cuts.intercalate_eq (h : Cuts d s pieces) : d.intercalate pieces = s := by
  induction h with
  | last => exact List.intercalate_singleton
  | cut _ hrest ih => rw [List.intercalate_cons_of_ne_nil hrest.ne_nil, ih, List.append_assoc]

/-- The two ways in which a list is cut. -/
theorem Cuts.eq_or (h : Cuts d s pieces) : ¬ d <:+: s ∧ pieces = [s]
    ∨ ∃ p r rest, s = p ++ (d ++ r) ∧ pieces = p :: rest ∧ Leftmost d p r ∧ Cuts d r rest := by
  cases h with
  | last hs => exact .inl ⟨hs, rfl⟩
  | cut hleft hrest => exact .inr ⟨_, _, _, rfl, rfl, hleft, hrest⟩

/-- **There is only one way to cut a list.** -/
theorem Cuts.unique {pieces' : List (List α)} (h : Cuts d s pieces) (h' : Cuts d s pieces') :
    pieces' = pieces := by
  induction h generalizing pieces' with
  | last hs =>
    obtain ⟨-, rfl⟩ | ⟨p, r, rest, rfl, -⟩ := h'.eq_or
    · rfl
    · exact absurd ⟨p, r, List.append_assoc p d r⟩ hs
  | @cut p r pieces hleft _ ih =>
    obtain ⟨hs, -⟩ | ⟨p', r', rest, heq, rfl, hleft', hrest⟩ := h'.eq_or
    · exact absurd ⟨p, r, List.append_assoc p d r⟩ hs
    · have hlen : p.length = p'.length :=
        Nat.le_antisymm (hleft p' r' heq) (hleft' p r heq.symm)
      obtain ⟨rfl, hrest'⟩ := List.append_inj heq hlen
      obtain rfl := List.append_cancel_left hrest'
      rw [ih hrest]

section Search

variable [DecidableEq α]

/-- Nothing is found where the delimiter does not occur. -/
theorem search_of_not_isInfix (h : ¬ d <:+: s) : search d s = s.length := by
  induction s with
  | nil => rfl
  | cons c s ih =>
    rw [List.infix_cons_iff, not_or] at h
    rw [search, if_neg h.1, ih h.2, List.length_cons]

/-- **The leftmost occurrence is found.** -/
theorem search_of_leftmost (hd : d ≠ []) (h : Leftmost d p r) :
    search d (p ++ (d ++ r)) = p.length := by
  induction p with
  | nil =>
    obtain ⟨c, d', rfl⟩ := List.exists_cons_of_ne_nil hd
    exact if_pos (List.prefix_append _ r)
  | cons c p ih =>
    have hnot : ¬ d <+: c :: (p ++ (d ++ r)) := fun ⟨r', hr'⟩ =>
      absurd (h [] r' hr'.symm) (Nat.not_succ_le_zero _)
    rw [List.cons_append, search, if_neg hnot, ih h.of_cons, List.length_cons]

end Search

/-- **With a delimiter of one element** the pieces are those between its
occurrences. -/
theorem Cuts.eq_splitOn [BEq α] [LawfulBEq α] {c : α} (h : Cuts [c] s pieces) :
    pieces = s.splitOn c := by
  induction h with
  | last hs =>
    rw [List.splitOn_eq_singleton fun hmem => hs (List.singleton_infix_iff c _ |>.mpr hmem)]
  | @cut p r pieces hleft _ ih =>
    have hmem : c ∉ p := by
      intro hmem
      obtain ⟨a, b, rfl⟩ := List.append_of_mem hmem
      have hle := hleft a (b ++ c :: r) (by simp)
      rw [List.length_append, List.length_cons] at hle
      omega
    rw [ih]
    exact (List.splitOn_append_cons_self_of_not_mem hmem r).symm

theorem cuts_splitOn [BEq α] [LawfulBEq α] (c : α) (s : List α) : Cuts [c] s (s.splitOn c) := by
  obtain ⟨pieces, hpieces⟩ := exists_cuts (List.cons_ne_nil c []) s
  rwa [← hpieces.eq_splitOn]

/-- The delimiter is in none of the pieces. -/
theorem notMem_of_mem_splitOn [BEq α] [LawfulBEq α] {c : α} {q : List α} (hq : q ∈ s.splitOn c) :
    c ∉ q := fun hmem =>
  (cuts_splitOn c s).not_isInfix (List.cons_ne_nil c []) q hq
    ((List.singleton_infix_iff c q).mpr hmem)

/-- What is in a piece is in the list. -/
theorem subset_of_mem_splitOn [BEq α] [LawfulBEq α] {c : α} {q : List α} (hq : q ∈ s.splitOn c) :
    q ⊆ s :=
  ((cuts_splitOn c s).isInfix q hq).subset

/-- **A list that is put together** from pieces with an element behind each of them
is cut into them. -/
theorem splitOn_flatMap [BEq α] [LawfulBEq α] {c : α} (hpieces : ∀ q ∈ pieces, c ∉ q) :
    (pieces.flatMap (fun q => q ++ [c])).splitOn c = pieces ++ [[]] := by
  induction pieces with
  | nil => exact List.splitOn_nil c
  | cons q pieces ih =>
    obtain ⟨hq, hrest⟩ := List.forall_mem_cons.mp hpieces
    rw [List.flatMap_cons, List.append_assoc, List.singleton_append,
      List.splitOn_append_cons_self_of_not_mem hq, ih hrest, List.cons_append]

/-- **Nothing but the delimiter** is in a list whose pieces are all empty. -/
theorem splitOn_eq_nil_iff [BEq α] [LawfulBEq α] {c : α} :
    (∀ q ∈ s.splitOn c, q = []) ↔ ∀ x ∈ s, x = c := by
  constructor
  · induction s with
    | nil => exact fun _ x hx => absurd hx List.not_mem_nil
    | cons x s ih =>
      rw [List.splitOn_cons_eq_if_modifyHead]
      split_ifs with hx
      · exact fun h => List.forall_mem_cons.mpr ⟨eq_of_beq hx, ih (List.forall_mem_cons.mp h).2⟩
      · obtain ⟨q, pieces, heq⟩ := List.exists_cons_of_ne_nil (List.splitOn_ne_nil c s)
        rw [heq]
        exact fun h => absurd (h _ List.mem_cons_self) (List.cons_ne_nil x q)
  · intro h q hq
    refine List.eq_nil_iff_forall_not_mem.mpr fun x hx => notMem_of_mem_splitOn hq ?_
    exact h x (subset_of_mem_splitOn hq hx) ▸ hx
