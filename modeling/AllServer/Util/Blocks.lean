import AllServer.Util.Endian
import AllServer.Util.Memory

/-!
# Iterated compression

A hash function that works on blocks runs over its input block by block, with
a compression function that takes what has come so far and one more block. `Blocks.absorb`
is that run, as far as there are whole blocks, and `Blocks.residue` is what is left over.

Input that comes in pieces can be absorbed as it comes, if what is left over of
one piece is put in front of the next one (`Blocks.absorb_append`,
`Blocks.residue_append`).
-/

namespace Blocks

variable {α σ : Type*} (f : σ → List α → σ) (b : ℕ)

/-- **Compressing a number of blocks**, one after the other. -/
def iterate : ℕ → σ → List α → σ
  | 0, s, _ => s
  | k + 1, s, xs => iterate k (f s (xs.take b)) (xs.drop b)

/-- **Compressing all whole blocks** of the input. -/
def absorb (s : σ) (xs : List α) : σ := iterate f b (xs.length / b) s xs

/-- **What is left over** behind the whole blocks. -/
def residue (xs : List α) : List α := xs.drop (xs.length / b * b)

variable {f b} {s : σ} {xs ys : List α}

@[simp] theorem length_residue (xs : List α) : (residue b xs).length = xs.length % b := by
  rw [residue, List.length_drop, Nat.mod_eq_sub_div_mul]

theorem absorb_of_lt (h : xs.length < b) : absorb f b s xs = s := by
  rw [absorb, Nat.div_eq_of_lt h, iterate]

theorem residue_of_lt (h : xs.length < b) : residue b xs = xs := by
  rw [residue, Nat.div_eq_of_lt h, Nat.zero_mul, List.drop_zero]

/-- **A block in front** is compressed first. -/
theorem absorb_block (hb : 0 < b) (h : xs.length = b) :
    absorb f b s (xs ++ ys) = absorb f b (f s xs) ys := by
  have hdiv : (b + ys.length) / b = ys.length / b + 1 := Nat.add_div_left _ hb
  rw [absorb, List.length_append, h, hdiv, iterate, List.take_left' h, List.drop_left' h, absorb]

theorem residue_block (hb : 0 < b) (h : xs.length = b) :
    residue b (xs ++ ys) = residue b ys := by
  have hdiv : (b + ys.length) / b = ys.length / b + 1 := Nat.add_div_left _ hb
  rw [residue, List.length_append, h, hdiv, Nat.succ_mul, Nat.add_comm _ b, ← List.drop_drop,
    List.drop_left' h, residue]

/-- **Input is shorter than a block, or begins with one.** -/
@[elab_as_elim]
theorem induction {motive : List α → Prop} (hb : 0 < b)
    (short : ∀ xs, xs.length < b → motive xs)
    (block : ∀ xs ys, xs.length = b → motive ys → motive (xs ++ ys)) (xs : List α) :
    motive xs := by
  by_cases h : xs.length < b
  · exact short xs h
  · have hlen : (xs.drop b).length < xs.length := by
      rw [List.length_drop]
      omega
    have htake : (xs.take b).length = b := by
      rw [List.length_take]
      omega
    exact List.take_append_drop b xs ▸ block _ _ htake (induction hb short block (xs.drop b))
termination_by xs.length

/-- **Input in pieces**: the blocks of the first piece, and then those of what is left over
of it with the second one behind it. -/
theorem absorb_append (hb : 0 < b) :
    absorb f b s (xs ++ ys) = absorb f b (absorb f b s xs) (residue b xs ++ ys) := by
  induction xs using induction hb generalizing s with
  | short xs h => rw [absorb_of_lt h, residue_of_lt h]
  | block xs zs h ih =>
    rw [List.append_assoc, absorb_block hb h, ih, absorb_block hb h, residue_block hb h]

theorem residue_append (hb : 0 < b) : residue b (xs ++ ys) = residue b (residue b xs ++ ys) := by
  induction xs using induction hb with
  | short xs h => rw [residue_of_lt h]
  | block xs zs h ih => rw [List.append_assoc, residue_block hb h, ih, residue_block hb h]

end Blocks
