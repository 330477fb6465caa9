import AllServer.Util.Memory
import Mathlib.Data.List.TakeWhile
import Mathlib.Data.Nat.Digits.Lemmas

/-!
# C strings

A C string is the bytes of a block up to the first one that is 0, and reading
one from a block that has no such byte runs off its end. As in
`AllServer.Util.Memory` the operations are checked: `str` is what `strlen` and
`strcmp` and `%s` read, and the ones that write are stores. What a copy leaves
to be read does not depend on what the block held before (`exists_strncpy`,
`exists_sprintf`).
-/

/-- The bytes of a text. -/
def ascii (text : String) : List UInt8 := text.toList.map (fun c => UInt8.ofNat c.toNat)

/-- **The bytes can be a C string**: none of them is 0. -/
def NulFree (s : List UInt8) : Prop := 0 ∉ s

instance (s : List UInt8) : Decidable (NulFree s) := inferInstanceAs (Decidable (¬ _))

theorem NulFree.append {s t : List UInt8} (hs : NulFree s) (ht : NulFree t) :
    NulFree (s ++ t) :=
  fun h => (List.mem_append.mp h).elim hs ht

theorem NulFree.take {s : List UInt8} (hs : NulFree s) (n : ℕ) : NulFree (s.take n) :=
  fun h => hs (List.mem_of_mem_take h)

/-- The part in front of the first NUL. -/
def cstr (s : List UInt8) : List UInt8 := s.takeWhile (fun c => c ≠ 0)

theorem nulFree_cstr (s : List UInt8) : NulFree (cstr s) := fun h => by
  simpa using List.mem_takeWhile_imp h

/-- **What is read of a string that ends in a NUL.** -/
theorem cstr_append {s : List UInt8} (hs : NulFree s) (rest : List UInt8) :
    cstr (s ++ 0 :: rest) = s := by
  unfold cstr
  have hall : ∀ c ∈ s, decide (c ≠ 0) = true := by
    intro c hc
    rw [decide_eq_true_eq]
    rintro rfl
    exact hs hc
  rw [List.takeWhile_append_of_pos hall, List.takeWhile_cons_of_neg (by simp),
    List.append_nil]

theorem cstr_of_nulFree {s : List UInt8} (hs : NulFree s) : cstr s = s := by
  unfold cstr
  rw [List.takeWhile_eq_self_iff]
  intro c hc
  rw [decide_eq_true_eq]
  rintro rfl
  exact hs hc

/-! ## Formatting -/

/-- **A number in decimal.** -/
def decimal (n : ℕ) : List UInt8 :=
  if n = 0 then [48] else (Nat.digits 10 n).reverse.map (fun d => UInt8.ofNat (48 + d))

theorem length_decimal_le {n k : ℕ} (h : n < 10 ^ (k + 1)) : (decimal n).length ≤ k + 1 := by
  unfold decimal
  split_ifs with h0
  · exact Nat.succ_le_succ (Nat.zero_le k)
  · rw [List.length_map, List.length_reverse]
    exact Nat.digits_length_le_iff (by decide) _ |>.mpr h

theorem nulFree_decimal (n : ℕ) : NulFree (decimal n) := by
  unfold decimal
  split_ifs with h0
  · decide
  · intro hmem
    obtain ⟨d, hd, h⟩ := List.mem_map.mp hmem
    have hlt : d < 10 := Nat.digits_lt_base (by decide) (List.mem_reverse.mp hd)
    have h' := congrArg UInt8.toNat h
    rw [UInt8.toNat_ofNat'] at h'
    have hzero : (48 + d) % 2 ^ 8 = 0 := h'
    omega

/-- An argument of `sprintf`. -/
inductive FormatArg where
  /-- A string, for `%s`. -/
  | s (text : List UInt8)
  /-- A number that is not negative, for `%d`. -/
  | d (value : ℕ)

/-- **What `sprintf` writes**, for a format with `%s` and `%d`. -/
def format : List UInt8 → List FormatArg → List UInt8
  | 37 :: 115 :: fmt, .s text :: args => text ++ format fmt args
  | 37 :: 100 :: fmt, .d value :: args => decimal value ++ format fmt args
  | c :: fmt, args => c :: format fmt args
  | [], _ => []

/-- A text in the format is written as it is. -/
theorem format_append {text : List UInt8} (h : 37 ∉ text) (fmt : List UInt8)
    (args : List FormatArg) : format (text ++ fmt) args = text ++ format fmt args := by
  induction text with
  | nil => rfl
  | cons c text ih =>
    have hc : c ≠ 37 := fun heq => h (heq ▸ List.mem_cons_self)
    have hstep : format (c :: (text ++ fmt)) args = c :: format (text ++ fmt) args := by
      rw [format.eq_3]
      · exact fun _ _ _ _ heq _ => hc heq
      · exact fun _ _ _ _ heq _ => hc heq
    rw [List.cons_append, hstep, ih (fun hmem => h (List.mem_cons_of_mem c hmem))]
    rfl

namespace MemBlock

variable {n : ℕ} {b : MemBlock UInt8 n}

/-- `memset(b, 0, sizeof(b))`. -/
def zeros (n : ℕ) : MemBlock UInt8 n := ofFn (fun _ => 0) n

/-- **The string in a block**, which has to end inside it. -/
def str (b : MemBlock UInt8 n) : Except Fault (List UInt8) :=
  if 0 ∈ b.cells then .ok (cstr b.cells) else .error .load

/-- `strcmp(b, s) == 0`. -/
def strcmp (b : MemBlock UInt8 n) (s : List UInt8) : Except Fault Bool := do
  return decide ((← b.str) = s)

/-- `strncpy(b, src, len)`: what is behind the string is filled up with 0. -/
def strncpy (b : MemBlock UInt8 n) (src : List UInt8) (len : ℕ) :
    Except Fault (MemBlock UInt8 n) :=
  b.store 0 ((cstr src).take len ++ List.replicate (len - (cstr src).length) 0)

/-- `sprintf(b, fmt, args)`. -/
def sprintf (b : MemBlock UInt8 n) (fmt : List UInt8) (args : List FormatArg) :
    Except Fault (MemBlock UInt8 n) :=
  b.store 0 (format fmt args ++ [0])

/-- `snprintf(b, count, ...)` of what the format makes: what does not fit is cut off. -/
def snprintf (b : MemBlock UInt8 n) (count : ℕ) (text : List UInt8) :
    Except Fault (MemBlock UInt8 n) :=
  if count = 0 then .ok b else b.store 0 (text.take (count - 1) ++ [0])

/-- A string that stands at the start of the block is what is read. -/
theorem str_of_slice {s : List UInt8} {m : ℕ} (hs : NulFree s) (rest : List UInt8)
    (h : b.slice 0 m = s ++ 0 :: rest) : b.str = .ok s := by
  have hcells : b.cells = s ++ 0 :: (rest ++ b.cells.drop m) := by
    rw [← List.cons_append, ← List.append_assoc, ← h]
    exact (List.take_append_drop m b.cells).symm
  unfold str
  rw [if_pos (by rw [hcells]; simp), hcells, cstr_append hs]

/-- **A string that is read** has no NUL in it, and one behind it. -/
theorem nulFree_of_str {s : List UInt8} (h : b.str = .ok s) : NulFree s ∧ s.length < n := by
  unfold str at h
  split_ifs at h with hmem
  obtain rfl := Except.ok.inj h
  refine ⟨nulFree_cstr _, ?_⟩
  have hle : (cstr b.cells).length ≤ n :=
    (List.takeWhile_prefix _).length_le.trans b.length_cells.le
  refine hle.lt_of_ne (fun heq => ?_)
  have hall : cstr b.cells = b.cells :=
    (List.takeWhile_prefix _).eq_of_length (heq.trans b.length_cells.symm)
  exact nulFree_cstr b.cells (hall.symm ▸ hmem)

/-- **`strncpy` and the NUL behind it** leave the first `len` bytes of the
string. -/
theorem exists_strncpy (b : MemBlock UInt8 n) (src : List UInt8) {len : ℕ} (h : len < n) :
    ∃ b₁ b₂, b.strncpy src len = .ok b₁ ∧ b₁.store len [0] = .ok b₂
      ∧ b₂.str = .ok ((cstr src).take len) := by
  have hlen : ((cstr src).take len ++ List.replicate (len - (cstr src).length) 0).length = len := by
    rw [List.length_append, List.length_take, List.length_replicate]
    omega
  obtain ⟨b₁, hb₁, hslice⟩ := b.exists_store
    ((cstr src).take len ++ List.replicate (len - (cstr src).length) 0) (hlen.le.trans h.le)
  have hle : len + [(0 : UInt8)].length ≤ n := h
  refine ⟨b₁, _, hb₁, b₁.store_eq_ok hle, str_of_slice ((nulFree_cstr src).take len)
    (List.replicate (len - (cstr src).length) 0) (m := len + 1) ?_⟩
  rw [hlen] at hslice
  rw [show len + 1 = len + [(0 : UInt8)].length from rfl, b₁.slice_zero_patch len [0] hle,
    hslice, List.append_assoc, ← List.replicate_succ', List.replicate_succ]

/-- **`sprintf` leaves what it writes**, if it fits with its NUL. -/
theorem exists_sprintf (b : MemBlock UInt8 n) (fmt : List UInt8) (args : List FormatArg)
    (hnul : NulFree (format fmt args)) (h : (format fmt args).length < n) :
    ∃ b', b.sprintf fmt args = .ok b' ∧ b'.str = .ok (format fmt args) := by
  obtain ⟨b', hb', hslice⟩ := b.exists_store (format fmt args ++ [0])
    (by rw [List.length_append]; exact h)
  exact ⟨b', hb', str_of_slice hnul [] hslice⟩

/-- **`snprintf` leaves all of a text** that fits with its NUL. -/
theorem exists_snprintf (b : MemBlock UInt8 n) {text : List UInt8} {count : ℕ}
    (hnul : NulFree text) (h : text.length < count) (hn : count ≤ n) :
    ∃ b', b.snprintf count text = .ok b' ∧ b'.str = .ok text := by
  obtain ⟨b', hb', hslice⟩ := b.exists_store (text ++ [0])
    (by rw [List.length_append]; exact h.trans_le hn)
  refine ⟨b', ?_, str_of_slice hnul [] hslice⟩
  rw [snprintf, if_neg (Nat.ne_of_gt (Nat.zero_lt_of_lt h)), List.take_of_length_le (by omega), hb']

end MemBlock
