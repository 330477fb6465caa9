import AllServer.Util.CString

/-!
# Numbers in decimal

What `%d` writes of an integer, and what `atoi` reads: the spaces at the start
are skipped, then there can be a sign, and the number ends at the first
character that is not a digit. A number that does not fit is replaced by the
closest one that does. What is written of a number is read as that number
(`readInt_intDecimal`), so two numbers never have the same text.
-/

/-- **An integer in decimal.** -/
def intDecimal : ℤ → List UInt8
  | .ofNat n => decimal n
  | .negSucc n => 45 :: decimal (n + 1)

/-- `isspace`. -/
def isSpace (c : UInt8) : Bool := c = 32 || (9 ≤ c && c ≤ 13)

/-- `isdigit`. -/
def isDigit (c : UInt8) : Bool := 48 ≤ c && c ≤ 57

/-- The value of digits, the first one in front. -/
def digitsVal (s : List UInt8) : ℕ := s.foldl (fun acc c => 10 * acc + (c.toNat - 48)) 0

/-- **The integer at the start of a string**, which is 0 if there is none. -/
def readInt (s : List UInt8) : ℤ :=
  match s.dropWhile isSpace with
  | 45 :: s => -(digitsVal (s.takeWhile isDigit) : ℤ)
  | 43 :: s => digitsVal (s.takeWhile isDigit)
  | s => digitsVal (s.takeWhile isDigit)

/-- `atoi`. -/
def atoi (s : List UInt8) : Int32 := Int32.ofIntClamp (readInt (cstr s))

/-- `_atoi64`. -/
def atoi64 (s : List UInt8) : Int64 := Int64.ofIntClamp (readInt (cstr s))

/-! ## Reading what has been written -/

theorem isDigit_ofNat {d : ℕ} (h : d < 10) : isDigit (UInt8.ofNat (48 + d)) = true := by
  interval_cases d <;> rfl

theorem isDigit_of_mem_decimal {n : ℕ} {c : UInt8} (h : c ∈ decimal n) : isDigit c = true := by
  unfold decimal at h
  split_ifs at h
  · obtain rfl := List.mem_singleton.mp h
    rfl
  · obtain ⟨d, hd, rfl⟩ := List.mem_map.mp h
    exact isDigit_ofNat (Nat.digits_lt_base (by decide) (List.mem_reverse.mp hd))

/-- **The digits of a number have its value.** -/
theorem digitsVal_decimal (n : ℕ) : digitsVal (decimal n) = n := by
  have hfold : ∀ ds : List ℕ, (∀ d ∈ ds, d < 10) →
      digitsVal (ds.reverse.map fun d => UInt8.ofNat (48 + d)) = Nat.ofDigits 10 ds := by
    intro ds hds
    induction ds with
    | nil => rfl
    | cons d ds ih =>
      obtain ⟨hd, hds⟩ := List.forall_mem_cons.mp hds
      have hval : (UInt8.ofNat (48 + d)).toNat - 48 = d := by
        rw [UInt8.toNat_ofNat', Nat.mod_eq_of_lt (by omega), Nat.add_sub_cancel_left]
      have hstep := ih hds
      unfold digitsVal at hstep ⊢
      rw [List.reverse_cons, List.map_append, List.foldl_append, hstep, Nat.ofDigits_cons,
        List.map_singleton, List.foldl_cons, List.foldl_nil, hval, Nat.add_comm]
  unfold decimal
  split_ifs with h0
  · rw [h0]
    rfl
  · rw [hfold _ fun d hd => Nat.digits_lt_base (by decide) hd, Nat.ofDigits_digits]

/-- A number is all digits, and there is at least one. -/
theorem decimal_cons (n : ℕ) : ∃ c s, decimal n = c :: s ∧ isDigit c = true := by
  match h : decimal n with
  | [] =>
    unfold decimal at h
    split_ifs at h with h0
    exact absurd (Nat.digits_eq_nil_iff_eq_zero.mp
      (List.reverse_eq_nil_iff.mp (List.map_eq_nil_iff.mp h))) h0
  | c :: s => exact ⟨c, s, rfl, isDigit_of_mem_decimal (h ▸ List.mem_cons_self)⟩

theorem takeWhile_decimal (n : ℕ) : (decimal n).takeWhile isDigit = decimal n :=
  List.takeWhile_eq_self_iff.mpr fun _ => isDigit_of_mem_decimal

/-- **What is written of an integer is read as that integer.** -/
theorem readInt_intDecimal (n : ℤ) : readInt (intDecimal n) = n := by
  cases n with
  | ofNat n =>
    obtain ⟨c, s, hcons, hc⟩ := decimal_cons n
    have hspace : (decimal n).dropWhile isSpace = decimal n := by
      rw [hcons, List.dropWhile_cons_of_neg]
      unfold isDigit at hc
      unfold isSpace
      grind
    show readInt (decimal n) = n
    unfold readInt
    rw [hspace, hcons]
    split
    · next heq => obtain rfl := (List.cons.inj heq).1; cases hc
    · next heq => obtain rfl := (List.cons.inj heq).1; cases hc
    · rw [← hcons, takeWhile_decimal, digitsVal_decimal]
  | negSucc n =>
    show -(digitsVal ((decimal (n + 1)).takeWhile isDigit) : ℤ) = Int.negSucc n
    rw [takeWhile_decimal, digitsVal_decimal]
    rfl

theorem intDecimal_injective : Function.Injective intDecimal :=
  Function.LeftInverse.injective readInt_intDecimal

theorem nulFree_intDecimal (n : ℤ) : NulFree (intDecimal n) := by
  cases n with
  | ofNat n => exact nulFree_decimal n
  | negSucc n =>
    have hsign : NulFree [45] := by decide
    exact hsign.append (nulFree_decimal (n + 1))

theorem length_intDecimal_le {n : ℤ} {k : ℕ} (h : n.natAbs < 10 ^ (k + 1)) :
    (intDecimal n).length ≤ k + 2 := by
  cases n with
  | ofNat n => exact (length_decimal_le h).trans (Nat.le_succ _)
  | negSucc n => exact Nat.succ_le_succ (length_decimal_le h)

/-- **An `int` survives its text.** -/
theorem atoi_intDecimal (n : Int32) : atoi (intDecimal n.toInt) = n := by
  rw [atoi, cstr_of_nulFree (nulFree_intDecimal _), readInt_intDecimal, Int32.ofIntClamp_toInt]

/-- An `__int64` does so as well. -/
theorem atoi64_intDecimal (n : Int64) : atoi64 (intDecimal n.toInt) = n := by
  rw [atoi64, cstr_of_nulFree (nulFree_intDecimal _), readInt_intDecimal, Int64.ofIntClamp_toInt]
