import Mathlib.Data.Nat.Digits.Defs
import Mathlib.Tactic.Common
import Mathlib.Tactic.Positivity
import Mathlib.Tactic.Ring

/-!
# Byte order

A number written in a fixed number of bytes, least significant byte first or
last, and the number a sequence of bytes stands for. C code reads such a
number by shifting each byte into place and taking the bitwise or of all of
them; on bytes that do not overlap the or is a sum
(`UInt32.toNat_or_shiftLeft`), so what the code computes is `Endian.val`.
-/

namespace Endian

/-- The `k` low bytes of `n`, least significant first. -/
def le : ℕ → ℕ → List UInt8
  | 0, _ => []
  | k + 1, n => UInt8.ofNat n :: le k (n / 256)

/-- The `k` low bytes of `n`, most significant first: network byte order. -/
def be (k n : ℕ) : List UInt8 := (le k n).reverse

/-- **The number that bytes stand for**, least significant first. -/
def val (bs : List UInt8) : ℕ := Nat.ofDigits 256 (bs.map UInt8.toNat)

@[simp] theorem length_le (k n : ℕ) : (le k n).length = k := by
  induction k generalizing n with
  | zero => rfl
  | succ k ih => rw [le, List.length_cons, ih]

@[simp] theorem length_be (k n : ℕ) : (be k n).length = k := by
  unfold be
  rw [List.length_reverse, length_le]

@[simp] theorem val_nil : val [] = 0 := rfl

@[simp] theorem val_cons (b : UInt8) (bs : List UInt8) :
    val (b :: bs) = b.toNat + 256 * val bs := by
  unfold val
  rw [List.map_cons, Nat.ofDigits_cons]

/-- **Bytes behind a number** add to it, and nothing if they are zero. -/
theorem val_append (a c : List UInt8) : val (a ++ c) = val a + 256 ^ a.length * val c := by
  unfold val
  rw [List.map_append, Nat.ofDigits_append, List.length_map]

theorem val_replicate (n : ℕ) : val (List.replicate n 0) = 0 := by
  induction n with
  | zero => rfl
  | succ n ih => rw [List.replicate_succ, val_cons, ih]; rfl

/-- Reading back the low bytes of a number keeps it modulo their range. -/
@[simp] theorem val_le (k n : ℕ) : val (le k n) = n % 256 ^ k := by
  induction k generalizing n with
  | zero => rw [le, val_nil, pow_zero, Nat.mod_one]
  | succ k ih =>
    have hlow : (UInt8.ofNat n).toNat = n % 256 := UInt8.toNat_ofNat'
    rw [le, val_cons, ih, hlow, pow_succ', Nat.mod_mul]

/-- Writing what bytes stand for gives the bytes back. -/
@[simp] theorem le_val (bs : List UInt8) : le bs.length (val bs) = bs := by
  induction bs with
  | nil => rfl
  | cons b bs ih =>
    have hb : b.toNat < 256 := b.toNat_lt
    have hlow : UInt8.ofNat (b.toNat + 256 * val bs) = b := by
      rw [← UInt8.toNat_inj, UInt8.toNat_ofNat']
      omega
    have hhigh : (b.toNat + 256 * val bs) / 256 = val bs := by omega
    rw [List.length_cons, val_cons, le, hlow, hhigh, ih]

/-- Only the low bytes are written. -/
theorem le_mod (k n : ℕ) : le k (n % 256 ^ k) = le k n := by
  have hval := le_val (le k n)
  rwa [length_le, val_le] at hval

/-- **The bytes of a number in two parts.** -/
theorem le_add (k l : ℕ) {a : ℕ} (c : ℕ) (ha : a < 256 ^ k) :
    le (k + l) (a + 256 ^ k * c) = le k a ++ le l c := by
  induction k generalizing a with
  | zero =>
    obtain rfl : a = 0 := by omega
    rw [Nat.zero_add, Nat.zero_add, pow_zero, one_mul, le, List.nil_append]
  | succ k ih =>
    rw [pow_succ'] at ha
    have hlow : UInt8.ofNat (a + 256 * (256 ^ k * c)) = UInt8.ofNat a := by
      rw [← UInt8.toNat_inj, UInt8.toNat_ofNat', UInt8.toNat_ofNat']
      omega
    rw [Nat.add_right_comm, le, pow_succ', mul_assoc, hlow, Nat.add_mul_div_left _ _ (by decide),
      ih (by omega), le, List.cons_append]

/-- **A bit of a number** is one of its bytes. -/
theorem testBit_val (bs : List UInt8) (i : ℕ) :
    (val bs).testBit i = (bs.getD (i / 8) 0).toNat.testBit (i % 8) := by
  induction bs generalizing i with
  | nil => rw [val_nil, Nat.zero_testBit, List.getD_nil, UInt8.toNat_zero, Nat.zero_testBit]
  | cons b bs ih =>
    have hb : b.toNat < 2 ^ 8 := b.toNat_lt
    rw [val_cons, Nat.add_comm, show (256 : ℕ) = 2 ^ 8 from rfl, Nat.testBit_two_pow_mul_add _ hb]
    split_ifs with h
    · rw [Nat.div_eq_of_lt h, Nat.mod_eq_of_lt h, List.getD_cons_zero]
    · have hdiv : i / 8 = (i - 8) / 8 + 1 := by omega
      have hmod : i % 8 = (i - 8) % 8 := by omega
      rw [ih, hdiv, hmod, List.getD_cons_succ]

/-- Bytes stand for a number in their range. -/
theorem val_lt (bs : List UInt8) : val bs < 256 ^ bs.length := by
  rw [← le_val bs, val_le, length_le]
  exact Nat.mod_lt _ (by positivity)

end Endian

/-- **Shifting a byte into place**: over the bits of a word that are still
free, taking the or with a shifted byte adds it. -/
theorem UInt32.toNat_or_shiftLeft (x : UInt32) (b : UInt8) {k : UInt32}
    (hk : k.toNat ≤ 24) (hx : x.toNat < 2 ^ k.toNat) :
    (x ||| b.toUInt32 <<< k).toNat = x.toNat + 2 ^ k.toNat * b.toNat := by
  have hb : b.toNat < 2 ^ 8 := b.toNat_lt
  have hpow : 2 ^ k.toNat * 2 ^ 8 ≤ 2 ^ 32 := by
    rw [← pow_add]
    exact Nat.pow_le_pow_right (by decide) (by omega)
  have hmul : b.toNat * 2 ^ k.toNat < 2 ^ 32 :=
    lt_of_lt_of_le (Nat.mul_lt_mul_of_pos_right hb (Nat.two_pow_pos _))
      (by rwa [Nat.mul_comm])
  have hshift : (b.toUInt32 <<< k).toNat = b.toNat <<< k.toNat := by
    rw [UInt32.toNat_shiftLeft, UInt8.toNat_toUInt32,
      Nat.mod_eq_of_lt (show k.toNat < 32 by omega), Nat.shiftLeft_eq,
      Nat.mod_eq_of_lt hmul]
  rw [UInt32.toNat_or, hshift, Nat.or_comm,
    ← Nat.shiftLeft_add_eq_or_of_lt hx, Nat.shiftLeft_eq]
  ring
