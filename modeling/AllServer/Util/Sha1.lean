import AllServer.Util.Blocks

/-!
# SHA-1

The hash of a message as the standard has it: the message is padded to whole
blocks of 64 bytes, with its length in bits at the end, and the blocks are
compressed one after the other. A block is expanded to a schedule of 80 words,
and each word goes into a round on five variables.

`Sha1.hashWith` leaves open which length is put at the end, so that an
implementation that counts wrong can be told from one that compresses
wrong; `Sha1.hash` is the hash itself.
-/

namespace Sha1

/-- The circular left shift. -/
def rotl (x n : UInt32) : UInt32 := x <<< n ||| x >>> (32 - n)

/-- The word of four bytes, most significant first. -/
def word (bytes : List UInt8) : UInt32 := UInt32.ofNat (Endian.val bytes.reverse)

/-- **A bit of a word that is shifted** around. -/
theorem getLsbD_rotl (x : UInt32) {n : UInt32} {i : ℕ} (hn : n.toNat < 32) (hpos : 0 < n.toNat)
    (hi : i < 32) :
    (rotl x n).toBitVec.getLsbD i = x.toBitVec.getLsbD ((i + (32 - n.toNat)) % 32) := by
  have hleft : (n.toBitVec % 32).toNat = n.toNat := Nat.mod_eq_of_lt hn
  have hright : ((32 - n).toBitVec % 32).toNat = 32 - n.toNat := by
    have hsub : (32 - n).toNat = 32 - n.toNat :=
      UInt32.toNat_sub_of_le _ _ (UInt32.le_iff_toNat_le.mpr hn.le)
    rw [BitVec.toNat_umod]
    show (32 - n).toNat % 32 = _
    rw [hsub, Nat.mod_eq_of_lt (by omega)]
  unfold rotl
  rw [UInt32.toBitVec_or, UInt32.toBitVec_shiftLeft, UInt32.toBitVec_shiftRight, BitVec.getLsbD_or,
    BitVec.shiftLeft_eq', BitVec.ushiftRight_eq', BitVec.getLsbD_shiftLeft,
    BitVec.getLsbD_ushiftRight, hleft, hright, decide_eq_true hi, Bool.true_and]
  by_cases h : i < n.toNat
  · rw [decide_eq_true h, Bool.not_true, Bool.false_and, Bool.false_or, Nat.add_comm,
      Nat.mod_eq_of_lt (by omega)]
  · -- what is shifted down leaves no bit here
    rw [decide_eq_false h, Bool.not_false, Bool.true_and,
      BitVec.getLsbD_of_ge x.toBitVec _ (show 32 ≤ 32 - n.toNat + i by omega), Bool.or_false]
    congr 1
    omega

/-- A bit of the word of some bytes. -/
theorem getLsbD_ofNat_val (bs : List UInt8) {i : ℕ} (hi : i < 32) :
    (UInt32.ofNat (Endian.val bs)).toBitVec.getLsbD i
      = (bs.getD (i / 8) 0).toNat.testBit (i % 8) := by
  rw [UInt32.toBitVec_ofNat', BitVec.getLsbD_ofNat, Endian.testBit_val, decide_eq_true hi,
    Bool.true_and]

/-- **The five words** that are carried from block to block, and from round to round. -/
@[ext] structure Chain where
  a : UInt32
  b : UInt32
  c : UInt32
  d : UInt32
  e : UInt32
  deriving DecidableEq

instance : Add Chain := ⟨fun s t => ⟨s.a + t.a, s.b + t.b, s.c + t.c, s.d + t.d, s.e + t.e⟩⟩

/-- The words in front of the first block. -/
def initial : Chain := ⟨0x67452301, 0xEFCDAB89, 0x98BADCFE, 0x10325476, 0xC3D2E1F0⟩

/-- The function of a round. -/
def f (t : ℕ) (b c d : UInt32) : UInt32 :=
  if t < 20 then b &&& c ||| ~~~b &&& d
  else if t < 40 then b ^^^ c ^^^ d
  else if t < 60 then b &&& c ||| b &&& d ||| c &&& d
  else b ^^^ c ^^^ d

/-- The constant of a round. -/
def k (t : ℕ) : UInt32 :=
  if t < 20 then 0x5A827999 else if t < 40 then 0x6ED9EBA1 else if t < 60 then 0x8F1BBCDC
  else 0xCA62C1D6

/-- **The schedule** of a block: its words, and each further one from four of those in front
of it. -/
def schedule (m : ℕ → UInt32) (t : ℕ) : UInt32 :=
  if t < 16 then m t
  else rotl (schedule m (t - 3) ^^^ schedule m (t - 8) ^^^ schedule m (t - 14)
    ^^^ schedule m (t - 16)) 1

theorem schedule_of_lt (m : ℕ → UInt32) {t : ℕ} (h : t < 16) : schedule m t = m t := by
  rw [schedule, if_pos h]

theorem schedule_of_le (m : ℕ → UInt32) {t : ℕ} (h : 16 ≤ t) :
    schedule m t = rotl (schedule m (t - 3) ^^^ schedule m (t - 8) ^^^ schedule m (t - 14)
      ^^^ schedule m (t - 16)) 1 := by
  rw [schedule, if_neg (not_lt.mpr h)]

/-- A round. -/
def round (t : ℕ) (w : UInt32) (s : Chain) : Chain :=
  ⟨rotl s.a 5 + f t s.b s.c s.d + s.e + w + k t, s.a, rotl s.b 30, s.c, s.d⟩

/-- The rounds up to a number. -/
def rounds (m : ℕ → UInt32) : ℕ → Chain → Chain
  | 0, s => s
  | t + 1, s => round t (schedule m t) (rounds m t s)

/-- A word of a block. -/
def blockWord (block : List UInt8) (t : ℕ) : UInt32 := word ((block.drop (4 * t)).take 4)

/-- **Compressing a block.** -/
def compress (h : Chain) (block : List UInt8) : Chain := h + rounds (blockWord block) 80 h

/-- What is put behind a message: a one bit, zeros and the number of its bits. -/
def padding (length bits : ℕ) : List UInt8 :=
  0x80 :: (List.replicate ((119 - length % 64) % 64) 0 ++ Endian.be 8 bits)

/-- The words in order. -/
def digest (h : Chain) : List UInt8 :=
  [h.a, h.b, h.c, h.d, h.e].flatMap fun w => Endian.be 4 w.toNat

/-- The hash of a message with this number in the place of its length. -/
def hashWith (bits : ℕ) (m : List UInt8) : List UInt8 :=
  digest (Blocks.absorb compress 64 initial (m ++ padding m.length bits))

/-- **The hash of a message.** -/
def hash (m : List UInt8) : List UInt8 := hashWith (8 * m.length) m

end Sha1
