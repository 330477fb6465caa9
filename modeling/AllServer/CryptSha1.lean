import AllServer.Handshake
import AllServer.Util.Sha1

/-!
# The hash of the handshake

`crypt_sha1` hashes a buffer in one call, but underneath it is a streaming
implementation: `sat_SHA1_Update` keeps what is left over behind the last whole block in
the context, and `sat_SHA1_Final` pads by updating with single bytes until there is room for
the length.

`SHA1_Transform` does not expand a block to 80 words. It writes each further word over the one that
is needed last, in 16 words, and it does not move the five variables along but names
them in a different order from round to round. That is the compression of the
standard all the same (`Crypt.SHA1_Transform_eq`). What a context holds after
any updates is told by the bytes they were given, however they were cut
(`Crypt.Held.updates`).

The number of bits is kept in two 32-bit words. Where `size_t` has 64 bits and an
update is of 2²⁹ bytes or more, the carry between them is taken twice
(`Crypt.sat_SHA1_Update_count_iff`).
-/

/-- The platforms the solution is built for. -/
inductive Platform where
  | Win32 | x64
  deriving DecidableEq

/-- How many bits a `size_t` has. -/
def Platform.size_t : Platform → ℕ
  | Win32 => 32
  | x64 => 64

namespace Crypt

/-- `SHA1_CTX`. -/
structure SHA1_CTX where
  state : Vector UInt32 5
  count : Vector UInt32 2
  buffer : MemBlock UInt8 64

/-- `SHA1_DIGEST_SIZE`. -/
def SHA1_DIGEST_SIZE : ℕ := 20

/-! ## The code -/

/-- `rol`. -/
def rol (value bits : UInt32) : UInt32 := value <<< bits ||| value >>> (32 - bits)

/-- The 16 words of a block. -/
abbrev Block := Vector UInt32 16

/-- `i & 15`. -/
def and15 (i : ℕ) : Fin 16 := ⟨i &&& 15, Nat.and_lt_two_pow (n := 4) i (by decide)⟩

/-- The names of the variables of `SHA1_Transform`. -/
inductive Reg where
  | a | b | c | d | e
  deriving DecidableEq

/-- **The variables of `SHA1_Transform`**, and its block. -/
structure Vars where
  a : UInt32
  b : UInt32
  c : UInt32
  d : UInt32
  e : UInt32
  block : Block

/-- The variable of a name. -/
def Vars.get (s : Vars) : Reg → UInt32
  | .a => s.a
  | .b => s.b
  | .c => s.c
  | .d => s.d
  | .e => s.e

/-- An assignment to the variable of a name. -/
def Vars.set (s : Vars) (r : Reg) (x : UInt32) : Vars :=
  match r with
  | .a => { s with a := x }
  | .b => { s with b := x }
  | .c => { s with c := x }
  | .d => { s with d := x }
  | .e => { s with e := x }

/-- `blk0`: the word with its bytes reversed, which is put in its place. -/
def blk0 (i : Fin 16) (l : Block) : Block :=
  l.set i (rol (l.get i) 24 &&& 0xFF00FF00 ||| rol (l.get i) 8 &&& 0x00FF00FF)

/-- `blk`: a further word, which is put over the one it is needed for last. -/
def blk (i : ℕ) (l : Block) : Block :=
  l.set (and15 i) (rol (l.get (and15 (i + 13)) ^^^ l.get (and15 (i + 8)) ^^^ l.get (and15 (i + 2))
    ^^^ l.get (and15 i)) 1)

/-- What the macros of the rounds have in common: `expand` is what they do with the block,
`mix` the function of the three variables, and `k` the constant. -/
def round (expand : Block → Block) (i : Fin 16) (mix : UInt32 → UInt32 → UInt32 → UInt32)
    (k : UInt32) (v w x y z : Reg) (s : Vars) : Vars :=
  let s := { s with block := expand s.block }
  let s := s.set z (s.get z + (mix (s.get w) (s.get x) (s.get y) + s.block.get i + k
    + rol (s.get v) 5))
  s.set w (rol (s.get w) 30)

/-- `R0`. -/
def R0 (v w x y z : Reg) (i : Fin 16) : Vars → Vars :=
  round (blk0 i) i (fun w x y => (w &&& (x ^^^ y)) ^^^ y) 0x5A827999 v w x y z

/-- `R1`. -/
def R1 (v w x y z : Reg) (i : ℕ) : Vars → Vars :=
  round (blk i) (and15 i) (fun w x y => (w &&& (x ^^^ y)) ^^^ y) 0x5A827999 v w x y z

/-- `R2`. -/
def R2 (v w x y z : Reg) (i : ℕ) : Vars → Vars :=
  round (blk i) (and15 i) (fun w x y => w ^^^ x ^^^ y) 0x6ED9EBA1 v w x y z

/-- `R3`. -/
def R3 (v w x y z : Reg) (i : ℕ) : Vars → Vars :=
  round (blk i) (and15 i) (fun w x y => (w ||| x) &&& y ||| w &&& x) 0x8F1BBCDC v w x y z

/-- `R4`. -/
def R4 (v w x y z : Reg) (i : ℕ) : Vars → Vars :=
  round (blk i) (and15 i) (fun w x y => w ^^^ x ^^^ y) 0xCA62C1D6 v w x y z

open Reg in
/-- The unrolled rounds of `SHA1_Transform`. -/
def SHA1_Transform.rounds : List (Vars → Vars) :=
  [
    R0 a b c d e 0, R0 e a b c d 1, R0 d e a b c 2, R0 c d e a b 3,
    R0 b c d e a 4, R0 a b c d e 5, R0 e a b c d 6, R0 d e a b c 7,
    R0 c d e a b 8, R0 b c d e a 9, R0 a b c d e 10, R0 e a b c d 11,
    R0 d e a b c 12, R0 c d e a b 13, R0 b c d e a 14, R0 a b c d e 15,
    R1 e a b c d 16, R1 d e a b c 17, R1 c d e a b 18, R1 b c d e a 19,
    R2 a b c d e 20, R2 e a b c d 21, R2 d e a b c 22, R2 c d e a b 23,
    R2 b c d e a 24, R2 a b c d e 25, R2 e a b c d 26, R2 d e a b c 27,
    R2 c d e a b 28, R2 b c d e a 29, R2 a b c d e 30, R2 e a b c d 31,
    R2 d e a b c 32, R2 c d e a b 33, R2 b c d e a 34, R2 a b c d e 35,
    R2 e a b c d 36, R2 d e a b c 37, R2 c d e a b 38, R2 b c d e a 39,
    R3 a b c d e 40, R3 e a b c d 41, R3 d e a b c 42, R3 c d e a b 43,
    R3 b c d e a 44, R3 a b c d e 45, R3 e a b c d 46, R3 d e a b c 47,
    R3 c d e a b 48, R3 b c d e a 49, R3 a b c d e 50, R3 e a b c d 51,
    R3 d e a b c 52, R3 c d e a b 53, R3 b c d e a 54, R3 a b c d e 55,
    R3 e a b c d 56, R3 d e a b c 57, R3 c d e a b 58, R3 b c d e a 59,
    R4 a b c d e 60, R4 e a b c d 61, R4 d e a b c 62, R4 c d e a b 63,
    R4 b c d e a 64, R4 a b c d e 65, R4 e a b c d 66, R4 d e a b c 67,
    R4 c d e a b 68, R4 b c d e a 69, R4 a b c d e 70, R4 e a b c d 71,
    R4 d e a b c 72, R4 c d e a b 73, R4 b c d e a 74, R4 a b c d e 75,
    R4 e a b c d 76, R4 d e a b c 77, R4 c d e a b 78, R4 b c d e a 79]

/-- `SHA1_Transform`: the bytes are read as words of the machine, which has the least significant
byte first. -/
def SHA1_Transform (state : Vector UInt32 5) (buffer : List UInt8) : Vector UInt32 5 :=
  let block : Block := Vector.ofFn fun i =>
    UInt32.ofNat (Endian.val ((buffer.drop (4 * i)).take 4))
  let vars : Vars := ⟨state[0], state[1], state[2], state[3], state[4], block⟩
  let vars := SHA1_Transform.rounds.foldl (fun vars r => r vars) vars
  #v[state[0] + vars.a, state[1] + vars.b, state[2] + vars.c, state[3] + vars.d, state[4] + vars.e]

/-- `sat_SHA1_Init`. -/
def sat_SHA1_Init (context : SHA1_CTX) : SHA1_CTX where
  state := #v[0x67452301, 0xEFCDAB89, 0x98BADCFE, 0x10325476, 0xC3D2E1F0]
  count := #v[0, 0]
  buffer := context.buffer

/-- A turn of `for (; i + 63 < len; i += 64)`, with the state `i` and `context->state`. -/
def sat_SHA1_Update.turn {n : ℕ} (p : Platform) (data : MemBlock UInt8 n) (len : ℕ) :
    ℕ × Vector UInt32 5 → Except Fault (ForInStep (ℕ × Vector UInt32 5) × List Empty)
  | (i, state) => do
    if (i + 63) % 2 ^ p.size_t < len then
      let state := SHA1_Transform state (← data.load i 64)
      return (.yield (i + 64, state), [])
    else
      return (.done (i, state), [])

/-- The number of bits after an update: `len << 3` and `len >> 29` are of type `size_t`, and so is
the comparison. -/
def sat_SHA1_Update.count (p : Platform) (count : Vector UInt32 2) (len : ℕ) : Vector UInt32 2 :=
  let bits := len <<< 3 % 2 ^ p.size_t
  let count₀ := count[0] + UInt32.ofNat bits
  let count₁ := if count₀.toNat < bits then count[1] + 1 else count[1]
  #v[count₀, count₁ + UInt32.ofNat (len >>> 29)]

/-- `sat_SHA1_Update`. -/
def sat_SHA1_Update {n : ℕ} (p : Platform) (context : SHA1_CTX) (data : MemBlock UInt8 n)
    (len : ℕ) : Except Fault SHA1_CTX := do
  let j := (context.count[0] >>> 3 &&& 63).toNat
  let count := sat_SHA1_Update.count p context.count len
  if (j + len) % 2 ^ p.size_t > 63 then
    let buffer ← context.buffer.store j (← data.load 0 (64 - j))
    let state := SHA1_Transform context.state buffer.cells
    let ((i, state), _) ←
      whileTrue (sat_SHA1_Update.turn p data len) (len / 64 + 1) (64 - j, state)
    let buffer ← buffer.store 0 (← data.load i (len - i))
    return { state, count, buffer }
  else
    let buffer ← context.buffer.store j (← data.load 0 len)
    return { context with count, buffer }

/-- A byte of `finalcount`. -/
def sat_SHA1_Final.finalcount (count : Vector UInt32 2) (i : ℕ) : UInt8 :=
  ((if i ≥ 4 then count[0] else count[1]) >>> UInt32.ofNat ((3 - (i &&& 3)) * 8) &&& 255).toUInt8

/-- A byte of the digest. -/
def sat_SHA1_Final.digest (state : Vector UInt32 5) (i : Fin SHA1_DIGEST_SIZE) : UInt8 :=
  (state.get ⟨i.val >>> 2,
      (Nat.shiftRight_eq_div_pow i.val 2).trans_lt (Nat.div_lt_of_lt_mul i.isLt)⟩
    >>> UInt32.ofNat ((3 - (i.val &&& 3)) * 8) &&& 255).toUInt8

/-- A turn of the loop that pads with zeros. -/
def sat_SHA1_Final.turn (p : Platform) (context : SHA1_CTX) :
    Except Fault (ForInStep SHA1_CTX × List Empty) := do
  if context.count[0] &&& 504 ≠ 448 then
    return (.yield (← sat_SHA1_Update p context (⟨[0, 0], rfl⟩ : MemBlock UInt8 2) 1), [])
  else
    return (.done context, [])

/-- `sat_SHA1_Final`: the context, which is wiped, and the digest. -/
def sat_SHA1_Final (p : Platform) (context : SHA1_CTX) :
    Except Fault (SHA1_CTX × MemBlock UInt8 SHA1_DIGEST_SIZE) := do
  let finalcount := MemBlock.ofFn (sat_SHA1_Final.finalcount context.count) 8
  let context ← sat_SHA1_Update p context (⟨[0x80, 0], rfl⟩ : MemBlock UInt8 2) 1
  let (context, _) ← whileTrue (sat_SHA1_Final.turn p) 65 context
  let context ← sat_SHA1_Update p context finalcount 8
  let digest := ⟨(List.finRange SHA1_DIGEST_SIZE).map (sat_SHA1_Final.digest context.state),
    by rw [List.length_map, List.length_finRange]⟩
  return (⟨#v[0, 0, 0, 0, 0], #v[0, 0], MemBlock.zeros 64⟩, digest)

/-- `crypt_sha1`: the digest and `*e_sz`. The parameter `ctx` is what is on the stack. -/
def crypt_sha1 {n : ℕ} (p : Platform) (ctx : SHA1_CTX) (buffer : MemBlock UInt8 n) (sz : Int32) :
    Except Fault (MemBlock UInt8 SHA1_DIGEST_SIZE × Int32) := do
  let ctx := sat_SHA1_Init ctx
  let ctx ← sat_SHA1_Update p ctx buffer (sz.toInt % 2 ^ p.size_t).toNat
  let (_, digest) ← sat_SHA1_Final p ctx
  return (digest, Int32.ofNat SHA1_DIGEST_SIZE)

/-! ## A round -/

/-- The first of the round functions. -/
theorem mix_ch (w x y : UInt32) : (w &&& (x ^^^ y)) ^^^ y = w &&& x ||| ~~~w &&& y := by
  refine UInt32.toBitVec_inj.mp (BitVec.eq_of_getLsbD_eq fun i hi => ?_)
  simp only [UInt32.toBitVec_xor, UInt32.toBitVec_and, UInt32.toBitVec_or, UInt32.toBitVec_not,
    BitVec.getLsbD_xor, BitVec.getLsbD_and, BitVec.getLsbD_or, BitVec.getLsbD_not, hi]
  cases w.toBitVec.getLsbD i <;> cases x.toBitVec.getLsbD i <;> cases y.toBitVec.getLsbD i <;> rfl

/-- The third one. -/
theorem mix_maj (w x y : UInt32) :
    (w ||| x) &&& y ||| w &&& x = w &&& x ||| w &&& y ||| x &&& y := by
  refine UInt32.toBitVec_inj.mp (BitVec.eq_of_getLsbD_eq fun i _ => ?_)
  simp only [UInt32.toBitVec_and, UInt32.toBitVec_or, BitVec.getLsbD_and, BitVec.getLsbD_or]
  cases w.toBitVec.getLsbD i <;> cases x.toBitVec.getLsbD i <;> cases y.toBitVec.getLsbD i <;> rfl

/-- **The bytes of a word, reversed**: what `blk0` writes. -/
def swap (x : UInt32) : UInt32 := rol x 24 &&& 0xFF00FF00 ||| rol x 8 &&& 0x00FF00FF

/-- A word that has been read with its least significant byte first. -/
theorem swap_val (p q r s : UInt8) :
    swap (UInt32.ofNat (Endian.val [p, q, r, s])) = Sha1.word [p, q, r, s] := by
  refine UInt32.toBitVec_inj.mp (BitVec.eq_of_getLsbD_eq fun i hi => ?_)
  have hodd : (0xFF00FF00 : UInt32).toBitVec.getLsbD i = decide (i / 8 % 2 = 1) := by
    interval_cases i <;> rfl
  have heven : (0x00FF00FF : UInt32).toBitVec.getLsbD i = decide (i / 8 % 2 = 0) := by
    interval_cases i <;> rfl
  have h24 : (24 : UInt32).toNat = 24 := rfl
  have h8 : (8 : UInt32).toNat = 8 := rfl
  have hrol : rol = Sha1.rotl := rfl
  have hlt : ∀ j, j % 32 < 32 := fun j => Nat.mod_lt j (by decide)
  rw [Sha1.word, Sha1.getLsbD_ofNat_val _ hi, swap, hrol, UInt32.toBitVec_or, BitVec.getLsbD_or,
    UInt32.toBitVec_and, UInt32.toBitVec_and, BitVec.getLsbD_and, BitVec.getLsbD_and,
    Sha1.getLsbD_rotl _ (by decide) (by decide) hi, Sha1.getLsbD_rotl _ (by decide) (by decide) hi,
    Sha1.getLsbD_ofNat_val _ (hlt _), Sha1.getLsbD_ofNat_val _ (hlt _), h24, h8, hodd, heven]
  interval_cases i <;> simp

theorem Vars.get_set (s : Vars) (r r' : Reg) (x : UInt32) :
    (s.set r x).get r' = if r' = r then x else s.get r' := by
  cases r <;> cases r' <;> rfl

theorem Vars.block_set (s : Vars) (r : Reg) (x : UInt32) : (s.set r x).block = s.block := by
  cases r <;> rfl

/-- **What a round does**, if the five names are different ones: the last variable gets the
sum, the second one is shifted, and the others stay. -/
theorem round_eq (expand : Block → Block) (i : Fin 16)
    (mix : UInt32 → UInt32 → UInt32 → UInt32) (k : UInt32) {v w x y z : Reg}
    (h : [v, w, x, y, z].Nodup) (s : Vars) :
    (round expand i mix k v w x y z s).block = expand s.block
      ∧ (round expand i mix k v w x y z s).get z = s.get z + (mix (s.get w) (s.get x) (s.get y)
          + (expand s.block).get i + k + rol (s.get v) 5)
      ∧ (round expand i mix k v w x y z s).get v = s.get v
      ∧ (round expand i mix k v w x y z s).get w = rol (s.get w) 30
      ∧ (round expand i mix k v w x y z s).get x = s.get x
      ∧ (round expand i mix k v w x y z s).get y = s.get y := by
  have hblock : ∀ r, ({ s with block := expand s.block } : Vars).get r = s.get r := by
    intro r
    cases r <;> rfl
  simp only [List.nodup_cons, List.mem_cons, not_or, List.not_mem_nil, or_false] at h
  obtain ⟨⟨hvw, hvx, hvy, hvz⟩, ⟨hwx, hwy, hwz⟩, ⟨hxy, hxz⟩, hyz, -⟩ := h
  refine ⟨?_, ?_, ?_, ?_, ?_, ?_⟩
  · rw [round, Vars.block_set, Vars.block_set]
  · simp only [round, Vars.get_set, hblock, if_neg (Ne.symm hwz), if_true]
  · simp only [round, Vars.get_set, hblock, if_neg hvw, if_neg hvz]
  · simp only [round, Vars.get_set, hblock, if_neg hwz, if_true]
  · simp only [round, Vars.get_set, hblock, if_neg (Ne.symm hwx), if_neg hxz]
  · simp only [round, Vars.get_set, hblock, if_neg (Ne.symm hwy), if_neg hyz]

/-! ## The names in a round -/

/-- The names in a cycle. -/
def Reg.cycle (n : ℕ) : Reg :=
  match n % 5 with
  | 0 => .a
  | 1 => .b
  | 2 => .c
  | 3 => .d
  | _ => .e

/-- **The names of the variables in a round**: each one moves on by one place. -/
def Reg.at (t j : ℕ) : Reg := Reg.cycle (j + 4 * t)

theorem Reg.cycle_add_five (n : ℕ) : Reg.cycle (n + 5) = Reg.cycle n := by
  unfold Reg.cycle
  rw [Nat.add_mod_right]

theorem Reg.at_succ (t j : ℕ) : Reg.at (t + 1) (j + 1) = Reg.at t j := by
  unfold Reg.at
  rw [show j + 1 + 4 * (t + 1) = j + 4 * t + 5 by omega, Reg.cycle_add_five]

theorem Reg.at_succ_zero (t : ℕ) : Reg.at (t + 1) 0 = Reg.at t 4 := by
  unfold Reg.at
  congr 1
  omega

theorem Reg.nodup_at (t : ℕ) :
    [Reg.at t 0, Reg.at t 1, Reg.at t 2, Reg.at t 3, Reg.at t 4].Nodup := by
  induction t with
  | zero => decide
  | succ t ih =>
    rw [Reg.at_succ_zero, Reg.at_succ t 0, Reg.at_succ t 1, Reg.at_succ t 2, Reg.at_succ t 3]
    exact (List.perm_append_singleton (Reg.at t 4)
      [Reg.at t 0, Reg.at t 1, Reg.at t 2, Reg.at t 3]).nodup_iff.mp ih

/-- The variables in the order of a round. -/
def Vars.chain (t : ℕ) (s : Vars) : Sha1.Chain :=
  ⟨s.get (Reg.at t 0), s.get (Reg.at t 1), s.get (Reg.at t 2), s.get (Reg.at t 3),
    s.get (Reg.at t 4)⟩

/-- The function of three variables in a round, as it is written. -/
def mix (t : ℕ) (w x y : UInt32) : UInt32 :=
  if t < 20 then (w &&& (x ^^^ y)) ^^^ y
  else if t < 40 then w ^^^ x ^^^ y
  else if t < 60 then (w ||| x) &&& y ||| w &&& x
  else w ^^^ x ^^^ y

theorem mix_eq (t : ℕ) (w x y : UInt32) : mix t w x y = Sha1.f t w x y := by
  unfold mix Sha1.f
  rw [mix_ch, mix_maj]

/-- What a round does with the block. -/
def expand (t : ℕ) : Block → Block := if t < 16 then blk0 (and15 t) else blk t

/-- **A round by its number.** -/
def call (t : ℕ) : Vars → Vars :=
  round (expand t) (and15 t) (mix t) (Sha1.k t) (Reg.at t 0) (Reg.at t 1) (Reg.at t 2)
    (Reg.at t 3) (Reg.at t 4)

/-- **The unrolled rounds** are the rounds in order. -/
theorem rounds_eq : SHA1_Transform.rounds = (List.range 80).map call := rfl

/-! ## The words of a block -/

theorem and15_eq_iff {i j : ℕ} : and15 i = and15 j ↔ i % 16 = j % 16 := by
  have hmod : ∀ n, n &&& 15 = n % 16 := fun n => Nat.and_two_pow_sub_one_eq_mod n 4
  rw [and15, and15, Fin.mk.injEq, hmod, hmod]

theorem and15_val (i : Fin 16) : and15 i = i :=
  Fin.ext ((Nat.and_two_pow_sub_one_eq_mod i.val 4).trans (Nat.mod_eq_of_lt i.isLt))

theorem get_set {l : Block} {i j : Fin 16} (x : UInt32) :
    Vector.get (l.set i x) j = if i = j then x else l.get j := by
  show (l.set i x)[j.val] = _
  rw [Vector.getElem_set]
  simp only [Fin.val_inj]
  rfl

/-- **The block in a round**: the words that have not been read yet, and the last 16 words of the
schedule, or as many as there are. -/
structure Ready (m : ℕ → UInt32) (t : ℕ) (l : Block) : Prop where
  raw : ∀ i : Fin 16, t ≤ i → swap (l.get i) = m i
  word : ∀ j, j < t → t ≤ j + 16 → l.get (and15 j) = Sha1.schedule m j

/-- **A round puts the next word of the schedule in its place.** -/
theorem Ready.expand {m : ℕ → UInt32} {t : ℕ} {l : Block} (h : Ready m t l) :
    Ready m (t + 1) (expand t l) ∧ (expand t l).get (and15 t) = Sha1.schedule m t := by
  obtain ⟨x, hx, hexpand⟩ : ∃ x, x = Sha1.schedule m t ∧ Crypt.expand t l = l.set (and15 t) x := by
    unfold Crypt.expand
    by_cases ht : t < 16
    · rw [if_pos ht]
      refine ⟨_, ?_, rfl⟩
      rw [Sha1.schedule_of_lt m ht]
      exact and15_val ⟨t, ht⟩ ▸ h.raw ⟨t, ht⟩ le_rfl
    · rw [if_neg ht]
      refine ⟨_, ?_, rfl⟩
      have hword : ∀ d, d < 16 → l.get (and15 (t + d)) = Sha1.schedule m (t + d - 16) := by
        intro d hd
        rw [and15_eq_iff.mpr (show (t + d) % 16 = (t + d - 16) % 16 by omega)]
        exact h.word _ (by omega) (by omega)
      have h0 : l.get (and15 t) = Sha1.schedule m (t - 16) := hword 0 (by decide)
      rw [Sha1.schedule_of_le m (not_lt.mp ht), hword 13 (by decide), hword 8 (by decide),
        hword 2 (by decide), h0, show t + 13 - 16 = t - 3 by omega,
        show t + 8 - 16 = t - 8 by omega, show t + 2 - 16 = t - 14 by omega]
      rfl
  rw [hexpand]
  refine ⟨⟨fun i hi => ?_, fun j hj hj16 => ?_⟩, ?_⟩
  · have hne : and15 t ≠ i := by
      rw [← and15_val i, Ne, and15_eq_iff]
      omega
    rw [get_set, if_neg hne]
    exact h.raw i (by omega)
  · rw [get_set]
    split_ifs with heq
    · rw [and15_eq_iff] at heq
      rw [hx, show j = t by omega]
    · rcases Nat.lt_succ_iff_lt_or_eq.mp hj with hj | rfl
      · exact h.word j hj (by omega)
      · exact absurd rfl heq
  · rw [get_set, if_pos rfl, hx]

/-- **A round is that of the standard.** -/
theorem call_eq {m : ℕ → UInt32} {t : ℕ} {s : Vars} (h : Ready m t s.block) :
    Ready m (t + 1) (call t s).block
      ∧ (call t s).chain (t + 1) = Sha1.round t (Sha1.schedule m t) (s.chain t) := by
  obtain ⟨hready, hword⟩ := h.expand
  obtain ⟨hblock, hz, hv, hw, hx, hy⟩ :=
    round_eq (expand t) (and15 t) (mix t) (Sha1.k t) (Reg.nodup_at t) s
  refine ⟨hblock ▸ hready, ?_⟩
  have hrol : rol = Sha1.rotl := rfl
  unfold Vars.chain Sha1.round
  rw [Reg.at_succ_zero, Reg.at_succ t 0, Reg.at_succ t 1, Reg.at_succ t 2, Reg.at_succ t 3]
  refine Sha1.Chain.ext ?_ hv hw hx hy
  rw [call, hz, hword, mix_eq, hrol]
  dsimp only
  ac_rfl

/-- **So are the rounds.** -/
theorem rounds_chain {m : ℕ → UInt32} {s : Vars} (h : Ready m 0 s.block) (t : ℕ) :
    Ready m t (((List.range t).map call).foldl (fun s r => r s) s).block
      ∧ (((List.range t).map call).foldl (fun s r => r s) s).chain t
        = Sha1.rounds m t (s.chain 0) := by
  induction t with
  | zero => exact ⟨h, rfl⟩
  | succ t ih =>
    obtain ⟨hready, hchain⟩ := ih
    obtain ⟨hready', hchain'⟩ := call_eq hready
    rw [List.range_succ, List.map_append, List.foldl_append]
    exact ⟨hready', hchain'.trans (hchain ▸ rfl)⟩

/-- The five words in memory. -/
def chainOf (state : Vector UInt32 5) : Sha1.Chain :=
  ⟨state[0], state[1], state[2], state[3], state[4]⟩

/-- **`SHA1_Transform` compresses a block.** -/
theorem SHA1_Transform_eq (state : Vector UInt32 5) {buffer : List UInt8}
    (h : buffer.length = 64) :
    chainOf (SHA1_Transform state buffer) = Sha1.compress (chainOf state) buffer := by
  let s : Vars := ⟨state[0], state[1], state[2], state[3], state[4], Vector.ofFn fun i =>
    UInt32.ofNat (Endian.val ((buffer.drop (4 * i)).take 4))⟩
  have hready : Ready (Sha1.blockWord buffer) 0 s.block := by
    refine ⟨fun i _ => ?_, fun j hj => absurd hj (Nat.not_lt_zero j)⟩
    have hlen : ((buffer.drop (4 * i)).take 4).length = 4 := by
      have hi := i.isLt
      rw [List.length_take, List.length_drop]
      omega
    have hget : s.block.get i = UInt32.ofNat (Endian.val ((buffer.drop (4 * i)).take 4)) :=
      Vector.getElem_ofFn i.isLt
    obtain ⟨p, q, r, t, hbytes⟩ := List.length_eq_four.mp hlen
    rw [hget, Sha1.blockWord, hbytes]
    exact swap_val p q r t
  obtain ⟨-, hchain⟩ := rounds_chain hready 80
  rw [← rounds_eq] at hchain
  rw [Sha1.compress, show chainOf state = s.chain 0 from rfl, ← hchain]
  rfl

/-! ## Updates -/

/-- The number of bits in memory. -/
def bitsOf (count : Vector UInt32 2) : ℕ := count[0].toNat + 2 ^ 32 * count[1].toNat

/-- **What is counted too much**: the carry is taken once by the comparison and once with the
high bits. -/
def excess (p : Platform) (count : Vector UInt32 2) (len : ℕ) : ℕ :=
  if p = .x64 ∧ 2 ^ 29 ≤ len ∧ count[0].toNat + 8 * len % 2 ^ 32 < 2 ^ 32 then 2 ^ 32 else 0

theorem count_zero (p : Platform) (count : Vector UInt32 2) (len : ℕ) :
    (sat_SHA1_Update.count p count len)[0]
      = count[0] + UInt32.ofNat (len <<< 3 % 2 ^ p.size_t) := rfl

theorem count_one (p : Platform) (count : Vector UInt32 2) (len : ℕ) :
    (sat_SHA1_Update.count p count len)[1]
      = (if (count[0] + UInt32.ofNat (len <<< 3 % 2 ^ p.size_t)).toNat < len <<< 3 % 2 ^ p.size_t
        then count[1] + 1 else count[1]) + UInt32.ofNat (len >>> 29) := rfl

/-- **The number of bits after an update.** -/
theorem bitsOf_count (p : Platform) (count : Vector UInt32 2) {len : ℕ} (h : len < 2 ^ 32) :
    bitsOf (sat_SHA1_Update.count p count len)
      = (bitsOf count + 8 * len + excess p count len) % 2 ^ 64 := by
  have h₀ := count[0].toNat_lt
  have h₁ := count[1].toNat_lt
  have hshift : len <<< 3 = 8 * len := (Nat.shiftLeft_eq len 3).trans (Nat.mul_comm _ _)
  have hhigh : len >>> 29 = len / 2 ^ 29 := Nat.shiftRight_eq_div_pow len 29
  have hone : (1 : UInt32).toNat = 1 := rfl
  have hlow : ∀ bits, (count[0] + UInt32.ofNat bits).toNat = (count[0].toNat + bits) % 2 ^ 32 := by
    intro bits
    rw [UInt32.toNat_add, UInt32.toNat_ofNat', Nat.add_mod_mod]
  unfold bitsOf excess
  rw [count_zero, count_one, hshift, hhigh, hlow, UInt32.toNat_add, UInt32.toNat_ofNat',
    apply_ite UInt32.toNat, UInt32.toNat_add, hone]
  generalize count[0].toNat = c₀ at h₀ ⊢
  generalize count[1].toNat = c₁ at h₁ ⊢
  have hmod : 8 * len % 2 ^ p.size_t = if p = .x64 then 8 * len else 8 * len % 2 ^ 32 := by
    cases p with
    | Win32 => rfl
    | x64 => exact Nat.mod_eq_of_lt (show 8 * len < 2 ^ 64 by omega)
  rw [hmod]
  by_cases hp : p = .x64
  · simp only [hp, if_true, true_and]
    by_cases hcarry : (c₀ + 8 * len) % 2 ^ 32 < 8 * len
    · rw [if_pos hcarry]
      split_ifs <;> omega
    · rw [if_neg hcarry, if_neg (by omega)]
      omega
  · simp only [hp, if_false, false_and]
    split_ifs <;> omega

/-- **The number of bits is right after an update** exactly if the update has
fewer than 2²⁹ bytes, or `size_t` has 32 bits, or the low word carries. The low
word is compared with the number of bits as a `size_t`, which for a longer update
is larger than any word, so that it seems to carry; and what is above the low word
is added in any case. -/
theorem sat_SHA1_Update_count_iff (p : Platform) (count : Vector UInt32 2) (len : ℕ)
    (h : len < 2 ^ 32) :
    bitsOf (sat_SHA1_Update.count p count len) = (bitsOf count + 8 * len) % 2 ^ 64
      ↔ p = .Win32 ∨ len < 2 ^ 29 ∨ 2 ^ 32 ≤ count[0].toNat + 8 * len % 2 ^ 32 := by
  rw [bitsOf_count p count h]
  unfold excess
  cases p with
  | Win32 => simp
  | x64 =>
    simp only [true_and, reduceCtorEq, false_or]
    split_ifs with hexcess
    · omega
    · exact iff_of_true rfl (by omega)

theorem sat_SHA1_Update_count_iff_carry :
    bitsOf (sat_SHA1_Update.count .x64 #v[8, 0] (2 ^ 29)) = (bitsOf #v[8, 0] + 8 * 2 ^ 29) % 2 ^ 64
      ↔ Platform.x64 = .Win32 ∨ 2 ^ 29 < 2 ^ 29
        ∨ 2 ^ 32 ≤ (#v[8, 0] : Vector UInt32 2)[0].toNat + 8 * 2 ^ 29 % 2 ^ 32 :=
  sat_SHA1_Update_count_iff .x64 #v[8, 0] (2 ^ 29) (by decide)

/-- **What a context holds** after a message: its whole blocks have been compressed, what is
left over is in the buffer, and `bits` is what has been counted. -/
structure Held (context : SHA1_CTX) (m : List UInt8) (bits : ℕ) : Prop where
  state : chainOf context.state = Blocks.absorb Sha1.compress 64 Sha1.initial m
  buffer : context.buffer.slice 0 (m.length % 64) = Blocks.residue 64 m
  count : bitsOf context.count = bits % 2 ^ 64
  low : bits % 512 = 8 * m.length % 512

section Update

variable {n len bits : ℕ} {context : SHA1_CTX} {m : List UInt8}

/-- A slice in two parts. -/
theorem slice_add (b : MemBlock UInt8 n) (off k l : ℕ) :
    b.slice off (k + l) = b.slice off k ++ b.slice (off + k) l := by
  rw [← List.take_append_drop k (b.slice off (k + l)), b.take_slice (Nat.le_add_right k l),
    b.drop_slice, Nat.add_sub_cancel_left]

/-- **The loop compresses the whole blocks** that are ahead. -/
theorem whileTrue_turn (p : Platform) (data : MemBlock UInt8 n) (hlen : len ≤ n)
    (hlt : len < 2 ^ 31) (k : ℕ) {i : ℕ} (hi : i ≤ len)
    (hk : (len - i) / 64 = k) (state : Vector UInt32 5) {fuel : ℕ} (hfuel : k < fuel) :
    ∃ state', whileTrue (sat_SHA1_Update.turn p data len) fuel (i, state)
        = .ok ((i + k * 64, state'), [])
      ∧ chainOf state'
        = Blocks.absorb Sha1.compress 64 (chainOf state) (data.slice i (len - i)) := by
  have hsize : 2 ^ 32 ≤ 2 ^ p.size_t := by cases p <;> decide
  obtain ⟨fuel, rfl⟩ := Nat.exists_eq_add_of_lt hfuel
  induction k generalizing i state with
  | zero =>
    have hdone : sat_SHA1_Update.turn p data len (i, state) = .ok (.done (i, state), []) := by
      unfold sat_SHA1_Update.turn
      dsimp only
      rw [Nat.mod_eq_of_lt (by omega), if_neg (by omega)]
      rfl
    refine ⟨state, whileTrue_done hdone _, ?_⟩
    rw [Blocks.absorb_of_lt]
    rw [data.length_slice (by omega)]
    omega
  | succ k ih =>
    have hslice : (data.slice i 64).length = 64 := data.length_slice (by omega)
    have hturn : sat_SHA1_Update.turn p data len (i, state)
        = .ok (.yield (i + 64, SHA1_Transform state (data.slice i 64)), []) := by
      unfold sat_SHA1_Update.turn
      dsimp only
      rw [Nat.mod_eq_of_lt (by omega), if_pos (by omega), data.load_eq_ok (by omega)]
      rfl
    obtain ⟨state', hloop, hstate⟩ := ih (i := i + 64) (by omega) (by omega)
      (SHA1_Transform state (data.slice i 64)) (by omega)
    refine ⟨state', ?_, ?_⟩
    · have hwhile := whileTrue_yield hturn hloop
      rw [List.nil_append, show i + 64 + k * 64 = i + (k + 1) * 64 by omega,
        show k + fuel + 1 + 1 = k + 1 + fuel + 1 by omega] at hwhile
      exact hwhile
    · rw [show len - i = 64 + (len - (i + 64)) by omega, slice_add,
        Blocks.absorb_block (by decide) hslice, hstate, SHA1_Transform_eq state hslice]

/-- Where the next byte goes. -/
theorem Held.index_eq (h : Held context m bits) :
    (context.count[0] >>> 3 &&& 63).toNat = m.length % 64 := by
  have hcount := h.count
  have hlow := h.low
  have h₀ := context.count[0].toNat_lt
  have h63 : (63 : UInt32).toNat = 2 ^ 6 - 1 := rfl
  have h3 : (3 : UInt32).toNat % 32 = 3 := rfl
  unfold bitsOf at hcount
  rw [UInt32.toNat_and, UInt32.toNat_shiftRight, h63, h3, Nat.and_two_pow_sub_one_eq_mod,
    Nat.shiftRight_eq_div_pow]
  omega

/-- **An update adds its bytes to the message**, inside the buffer and the data. -/
theorem Held.update (h : Held context m bits) (p : Platform) (data : MemBlock UInt8 n)
    (hlen : len ≤ n) (hlt : len < 2 ^ 31) :
    ∃ context', sat_SHA1_Update p context data len = .ok context'
      ∧ Held context' (m ++ data.slice 0 len) (bits + 8 * len + excess p context.count len) := by
  have hsize : 2 ^ 32 ≤ 2 ^ p.size_t := by cases p <;> decide
  have hslice : (data.slice 0 len).length = len := data.length_slice (by omega)
  have hcount : bitsOf (sat_SHA1_Update.count p context.count len)
      = (bits + 8 * len + excess p context.count len) % 2 ^ 64 := by
    rw [bitsOf_count p context.count (by omega), h.count]
    omega
  have hlow : (bits + 8 * len + excess p context.count len) % 512
      = 8 * (m ++ data.slice 0 len).length % 512 := by
    have hbits := h.low
    rw [List.length_append, hslice]
    unfold excess
    split_ifs <;> omega
  have habsorb : Blocks.absorb Sha1.compress 64 Sha1.initial (m ++ data.slice 0 len) = _ :=
    Blocks.absorb_append (by decide)
  have hresidue : Blocks.residue 64 (m ++ data.slice 0 len) = _ :=
    Blocks.residue_append (by decide)
  have hmod : (m ++ data.slice 0 len).length % 64 = (m.length % 64 + len) % 64 := by
    rw [List.length_append, hslice]
    omega
  unfold sat_SHA1_Update
  dsimp only
  rw [h.index_eq, Nat.mod_eq_of_lt (show m.length % 64 + len < 2 ^ p.size_t by omega)]
  by_cases hfull : m.length % 64 + len > 63
  · -- the buffer is filled up and compressed, and then what is behind that
    rw [if_pos hfull, data.load_eq_ok (by omega), ok_bind]
    have hfirst : (data.slice 0 (64 - m.length % 64)).length = 64 - m.length % 64 :=
      data.length_slice (by omega)
    obtain ⟨buffer, hbuffer, hcells⟩ := context.buffer.exists_store_append
      (data.slice 0 (64 - m.length % 64)) h.buffer (by omega)
    have hblock : buffer.cells
        = Blocks.residue 64 m ++ data.slice 0 (64 - m.length % 64) := by
      rw [← hcells, hfirst, show m.length % 64 + (64 - m.length % 64) = 64 by omega]
      exact (List.take_of_length_le buffer.length_cells.le).symm
    have hfuel : (len - (64 - m.length % 64)) / 64 < len / 64 + 1 := by omega
    obtain ⟨state, hloop, hstate⟩ := whileTrue_turn p data hlen hlt _ (by omega) rfl
      (SHA1_Transform context.state buffer.cells) hfuel
    generalize hk : (len - (64 - m.length % 64)) / 64 = k at hloop
    rw [hbuffer, ok_bind, hloop, ok_bind]
    dsimp only
    have hrest : (data.slice (64 - m.length % 64 + k * 64)
        (len - (64 - m.length % 64 + k * 64))).length = len - (64 - m.length % 64 + k * 64) :=
      data.length_slice (by omega)
    obtain ⟨buffer', hbuffer', hcells'⟩ := buffer.exists_store
      (data.slice (64 - m.length % 64 + k * 64) (len - (64 - m.length % 64 + k * 64)))
      (by omega)
    rw [data.load_eq_ok (by omega), ok_bind, hbuffer', ok_bind]
    have hsplit : Blocks.residue 64 m ++ data.slice 0 len
        = buffer.cells ++ data.slice (64 - m.length % 64) (len - (64 - m.length % 64)) := by
      have hadd := slice_add data 0 (64 - m.length % 64) (len - (64 - m.length % 64))
      rw [Nat.zero_add, Nat.add_sub_cancel' (by omega)] at hadd
      rw [hblock, List.append_assoc, ← hadd]
    refine ⟨_, rfl, ?_, ?_, hcount, hlow⟩
    · rw [habsorb, hsplit, Blocks.absorb_block (by decide) buffer.length_cells, hstate,
        SHA1_Transform_eq _ buffer.length_cells, h.state]
    · rw [hresidue, hsplit, Blocks.residue_block (by decide) buffer.length_cells, hmod,
        Blocks.residue, data.drop_slice, data.length_slice (by omega), hk]
      rw [hrest] at hcells'
      rw [show (m.length % 64 + len) % 64 = len - (64 - m.length % 64 + k * 64) by omega, hcells']
      congr 1
      omega
  · rw [if_neg hfull, data.load_eq_ok (by omega), ok_bind]
    obtain ⟨buffer, hbuffer, hcells⟩ := context.buffer.exists_store_append (data.slice 0 len)
      h.buffer (by omega)
    have hshort : (Blocks.residue 64 m ++ data.slice 0 len).length < 64 := by
      rw [List.length_append, Blocks.length_residue, hslice]
      omega
    rw [hbuffer, ok_bind]
    refine ⟨_, rfl, ?_, ?_, hcount, hlow⟩
    · rw [habsorb, Blocks.absorb_of_lt hshort, h.state]
    · rw [hresidue, Blocks.residue_of_lt hshort, hmod, Nat.mod_eq_of_lt (by omega)]
      rwa [hslice] at hcells

end Update

/-- A context with a short piece more. -/
theorem Held.update_short {context : SHA1_CTX} {m : List UInt8} {bits n : ℕ}
    (h : Held context m bits) (p : Platform) (data : MemBlock UInt8 n) {len : ℕ} (hlen : len ≤ n)
    (hlt : len < 2 ^ 29) :
    ∃ context', sat_SHA1_Update p context data len = .ok context'
      ∧ Held context' (m ++ data.slice 0 len) (bits + 8 * len) := by
  obtain ⟨context', hupdate, h'⟩ := h.update p data hlen (hlt.trans (by decide))
  have hexcess : excess p context.count len = 0 := if_neg fun hlong => by omega
  exact ⟨context', hupdate, by rwa [hexcess] at h'⟩

/-- An update with the pieces of a message. -/
def updates (p : Platform) (context : SHA1_CTX) (pieces : List (List UInt8)) :
    Except Fault SHA1_CTX :=
  pieces.foldlM (fun context piece =>
    sat_SHA1_Update p context (MemBlock.ofList piece) piece.length) context

/-- A context that has just been made holds nothing. -/
theorem held_init (context : SHA1_CTX) : Held (sat_SHA1_Init context) [] 0 := ⟨rfl, rfl, rfl, rfl⟩

/-- **Updates with short pieces** add up to the message that they are cut from. -/
theorem Held.updates {context : SHA1_CTX} {m : List UInt8}
    (h : Held context m (8 * m.length)) (p : Platform) {pieces : List (List UInt8)}
    (hshort : ∀ piece ∈ pieces, piece.length < 2 ^ 29) :
    ∃ context', Crypt.updates p context pieces = .ok context'
      ∧ Held context' (m ++ pieces.flatten) (8 * (m ++ pieces.flatten).length) := by
  induction pieces generalizing context m with
  | nil => exact ⟨context, rfl, by rwa [List.flatten_nil, List.append_nil]⟩
  | cons piece pieces ih =>
    obtain ⟨hpiece, hshort⟩ := List.forall_mem_cons.mp hshort
    obtain ⟨context₁, hupdate, h₁⟩ := h.update_short p (.ofList piece) le_rfl hpiece
    have hslice : (MemBlock.ofList piece).slice 0 piece.length = piece := List.take_length
    rw [hslice, ← Nat.mul_add, ← List.length_append] at h₁
    obtain ⟨context', hupdates, h'⟩ := ih h₁ hshort
    rw [List.flatten_cons, ← List.append_assoc]
    exact ⟨context', bind_eq_ok.mpr ⟨context₁, hupdate, hupdates⟩, h'⟩

/-! ## The digest -/

/-- The bytes of a word. -/
theorem be_four (w : UInt32) :
    Endian.be 4 w.toNat = [(w >>> UInt32.ofNat 24 &&& 255).toUInt8,
      (w >>> UInt32.ofNat 16 &&& 255).toUInt8, (w >>> UInt32.ofNat 8 &&& 255).toUInt8,
      (w >>> UInt32.ofNat 0 &&& 255).toUInt8] := by
  have hbyte : ∀ k, k < 32 → (w >>> UInt32.ofNat k &&& 255).toUInt8
      = UInt8.ofNat (w.toNat / 2 ^ k) := by
    intro k hk
    have h255 : (255 : UInt32).toNat = 2 ^ 8 - 1 := rfl
    refine UInt8.toNat_inj.mp ?_
    rw [UInt32.toNat_toUInt8, UInt32.toNat_and, h255, Nat.and_two_pow_sub_one_eq_mod,
      UInt32.toNat_shiftRight, UInt32.toNat_ofNat', UInt8.toNat_ofNat',
      Nat.mod_eq_of_lt (hk.trans (by decide)), Nat.mod_eq_of_lt hk, Nat.shiftRight_eq_div_pow,
      Nat.mod_mod]
  rw [hbyte 24 (by decide), hbyte 16 (by decide), hbyte 8 (by decide), hbyte 0 (by decide)]
  simp only [Endian.be, Endian.le, Nat.div_div_eq_div_mul, List.reverse_cons, List.reverse_nil,
    List.nil_append, List.cons_append, Nat.pow_zero, Nat.div_one]
  rfl

/-- The number of bits, as it is put behind the message. -/
theorem finalcount_eq (count : Vector UInt32 2) :
    (MemBlock.ofFn (sat_SHA1_Final.finalcount count) 8).cells = Endian.be 8 (bitsOf count) := by
  have hcells : (MemBlock.ofFn (sat_SHA1_Final.finalcount count) 8).cells
      = Endian.be 4 count[1].toNat ++ Endian.be 4 count[0].toNat := by
    rw [be_four, be_four]
    rfl
  have hlow : count[0].toNat < 256 ^ 4 := count[0].toNat_lt
  have hbits : bitsOf count = count[0].toNat + 256 ^ 4 * count[1].toNat := rfl
  rw [hcells, hbits, Endian.be, Endian.be, Endian.be, Endian.le_add 4 4 _ hlow,
    List.reverse_append]

/-- The words in order. -/
theorem digest_eq (state : Vector UInt32 5) :
    (List.finRange SHA1_DIGEST_SIZE).map (sat_SHA1_Final.digest state)
      = Sha1.digest (chainOf state) := by
  unfold Sha1.digest
  simp only [List.flatMap_cons, List.flatMap_nil, be_four]
  rfl

/-- **The loop asks whether there is room for 8 bytes**, and no more. -/
theorem Held.and_504 {context : SHA1_CTX} {m : List UInt8} {bits : ℕ}
    (h : Held context m bits) : context.count[0] &&& 504 ≠ 448 ↔ m.length % 64 ≠ 56 := by
  have hcount := h.count
  have hlow := h.low
  have h₀ := context.count[0].toNat_lt
  have h504 : (504 : UInt32).toNat = (2 ^ 6 - 1) * 2 ^ 3 := rfl
  have h448 : (448 : UInt32).toNat = 448 := rfl
  have hand : ∀ x : ℕ, x &&& (2 ^ 6 - 1) * 2 ^ 3 = x / 2 ^ 3 % 2 ^ 6 * 2 ^ 3 := by
    intro x
    refine Nat.eq_of_testBit_eq fun i => ?_
    rw [Nat.testBit_and, Nat.testBit_mul_two_pow, Nat.testBit_mul_two_pow, Nat.testBit_mod_two_pow,
      Nat.testBit_div_two_pow, Nat.testBit_two_pow_sub_one]
    by_cases hi : 3 ≤ i
    · rw [Nat.sub_add_cancel hi, Bool.and_comm, Bool.and_assoc]
    · simp [hi]
  unfold bitsOf at hcount
  rw [Ne, ← UInt32.toNat_inj, UInt32.toNat_and, h504, hand, h448]
  omega

/-- **The loop pads with zeros** until there is room for 8 bytes. -/
theorem Held.zeros (p : Platform) (z : ℕ) {context : SHA1_CTX} {m : List UInt8} {bits fuel : ℕ}
    (h : Held context m bits) (hz : (120 - m.length % 64) % 64 = z) (hfuel : z < fuel) :
    ∃ context', whileTrue (sat_SHA1_Final.turn p) fuel context = .ok (context', [])
      ∧ Held context' (m ++ List.replicate z 0) (bits + 8 * z) := by
  obtain ⟨fuel, rfl⟩ := Nat.exists_eq_add_of_lt hfuel
  induction z generalizing context m bits with
  | zero =>
    have hdone : sat_SHA1_Final.turn p context = .ok (.done context, []) := by
      unfold sat_SHA1_Final.turn
      rw [if_neg (mt h.and_504.mp (by omega))]
      rfl
    refine ⟨context, whileTrue_done hdone _, ?_⟩
    rwa [List.replicate_zero, List.append_nil]
  | succ z ih =>
    obtain ⟨context₁, hupdate, h₁⟩ := h.update_short p (⟨[0, 0], rfl⟩ : MemBlock UInt8 2)
      (show 1 ≤ 2 by decide) (by decide)
    have hturn : sat_SHA1_Final.turn p context = .ok (.yield context₁, []) := by
      unfold sat_SHA1_Final.turn
      rw [if_pos (h.and_504.mpr (by omega)), hupdate]
      rfl
    have h₁ : Held context₁ (m ++ [0]) (bits + 8 * 1) := h₁
    have hlen : (m ++ [0]).length = m.length + 1 := List.length_append
    obtain ⟨context', hloop, h'⟩ := ih h₁ (by omega) (by omega)
    refine ⟨context', ?_, ?_⟩
    · rw [Nat.add_right_comm z 1 fuel]
      exact whileTrue_yield hturn hloop
    · rw [List.append_assoc, List.singleton_append, ← List.replicate_succ] at h'
      rwa [show bits + 8 * (z + 1) = bits + 8 * 1 + 8 * z by omega]

/-- **`sat_SHA1_Final` makes the hash of what the context holds**, with the number of bits that
has been counted. -/
theorem Held.final {context : SHA1_CTX} {m : List UInt8} {bits : ℕ} (h : Held context m bits)
    (p : Platform) : ∃ context' digest, sat_SHA1_Final p context = .ok (context', digest)
      ∧ digest.cells = Sha1.hashWith bits m := by
  obtain ⟨context₁, hmark, h₁⟩ := h.update_short p (⟨[0x80, 0], rfl⟩ : MemBlock UInt8 2)
    (show 1 ≤ 2 by decide) (by decide)
  have h₁ : Held context₁ (m ++ [0x80]) (bits + 8 * 1) := h₁
  have hlen : (m ++ [(0x80 : UInt8)]).length = m.length + 1 := List.length_append
  have hz : (120 - (m ++ [(0x80 : UInt8)]).length % 64) % 64 = (119 - m.length % 64) % 64 := by
    omega
  have hfuel : (119 - m.length % 64) % 64 < 65 := by omega
  obtain ⟨context₂, hzeros, h₂⟩ := h₁.zeros p _ hz hfuel
  obtain ⟨context₃, hcount, h₃⟩ := h₂.update_short p
    (MemBlock.ofFn (sat_SHA1_Final.finalcount context.count) 8) le_rfl (by decide)
  have hslice : (MemBlock.ofFn (sat_SHA1_Final.finalcount context.count) 8).slice 0 8
      = Endian.be 8 bits := by
    have hbits : Endian.be 8 (bits % 2 ^ 64) = Endian.be 8 bits :=
      congrArg List.reverse (Endian.le_mod 8 bits)
    rw [← hbits, ← h.count, ← finalcount_eq]
    rfl
  rw [hslice] at h₃
  refine ⟨_, _, bind_eq_ok.mpr ⟨context₁, hmark, bind_eq_ok.mpr ⟨_, hzeros,
    bind_eq_ok.mpr ⟨context₃, hcount, rfl⟩⟩⟩, ?_⟩
  dsimp only
  rw [digest_eq, h₃.state, Sha1.hashWith, Sha1.padding, List.append_assoc, List.append_assoc,
    List.singleton_append]

/-- **Hashing in pieces is hashing at once**: whatever short pieces a message is
cut into, the digest is its hash. The context has the words of the blocks that are
done, the begun block and the number of bits, and an update begins in the middle
of a block. What is kept from update to update is that this is the state behind
the message so far, and it does not depend on where the pieces end. -/
theorem updates_final (p : Platform) (context : SHA1_CTX) (pieces : List (List UInt8))
    (hshort : ∀ piece ∈ pieces, piece.length < 2 ^ 29) :
    ∃ context₁ context₂ digest, updates p (sat_SHA1_Init context) pieces = .ok context₁
      ∧ sat_SHA1_Final p context₁ = .ok (context₂, digest)
      ∧ digest.cells = Sha1.hash pieces.flatten := by
  obtain ⟨context₁, hupdates, h₁⟩ := (held_init context).updates p hshort
  obtain ⟨context₂, digest, hfinal, hdigest⟩ := h₁.final p
  exact ⟨context₁, context₂, digest, hupdates, hfinal, hdigest⟩

/-- A message in three pieces, one of them empty. -/
theorem updates_final_three : ∃ context₁ context₂ digest,
    updates .x64 (sat_SHA1_Init ⟨#v[1, 2, 3, 4, 5], #v[6, 7], MemBlock.zeros 64⟩)
        [ascii "a", [], ascii "bc"] = .ok context₁
      ∧ sat_SHA1_Final .x64 context₁ = .ok (context₂, digest)
      ∧ digest.cells = Sha1.hash [ascii "a", [], ascii "bc"].flatten :=
  updates_final .x64 ⟨#v[1, 2, 3, 4, 5], #v[6, 7], MemBlock.zeros 64⟩
    [ascii "a", [], ascii "bc"] (by decide)

/-- **`crypt_sha1` is SHA-1**, but for the number of bits of a buffer of 2²⁹ bytes or more where
`size_t` has 64 bits: there it is too large by 2³². Nothing is read outside the buffer, and what
was on the stack does not matter. -/
theorem crypt_sha1_eq (p : Platform) (ctx : SHA1_CTX) {n : ℕ} (buffer : MemBlock UInt8 n)
    (sz : Int32) (h₀ : 0 ≤ sz.toInt) (hn : sz.toInt ≤ n) :
    ∃ digest, crypt_sha1 p ctx buffer sz = .ok (digest, 20)
      ∧ digest.cells = Sha1.hashWith
          (8 * sz.toInt.toNat + if p = .x64 ∧ 2 ^ 29 ≤ sz.toInt then 2 ^ 32 else 0)
          (buffer.slice 0 sz.toInt.toNat) := by
  have hsz := sz.toInt_lt
  have hlen : (sz.toInt % 2 ^ p.size_t).toNat = sz.toInt.toNat := by
    have hsize : (2 : ℤ) ^ 32 ≤ 2 ^ p.size_t := by cases p <;> decide
    rw [Int.emod_eq_of_lt h₀ (by omega)]
  obtain ⟨ctx₁, hupdate, h₁⟩ := (held_init ctx).update p buffer
    (show sz.toInt.toNat ≤ n by omega) (by omega)
  obtain ⟨ctx₂, digest, hfinal, hdigest⟩ := h₁.final p
  refine ⟨digest, ?_, ?_⟩
  · unfold crypt_sha1
    rw [hlen]
    exact bind_eq_ok.mpr ⟨ctx₁, hupdate, bind_eq_ok.mpr ⟨_, hfinal, rfl⟩⟩
  · have hexcess : excess p (sat_SHA1_Init ctx).count sz.toInt.toNat
        = if p = .x64 ∧ 2 ^ 29 ≤ sz.toInt then 2 ^ 32 else 0 := by
      have hzero : (sat_SHA1_Init ctx).count[0].toNat = 0 := rfl
      unfold excess
      refine if_congr (and_congr_right fun _ => ?_) rfl rfl
      rw [hzero]
      omega
    rw [hdigest, hexcess, Nat.zero_add, List.nil_append]

/-! ## The accept value -/

/-- The hash as the handshake calls it, on all of a string. -/
def digestOf (p : Platform) (ctx : SHA1_CTX) (hashed : List UInt8) : MemBlock UInt8 20 :=
  match crypt_sha1 p ctx (MemBlock.ofList hashed)
    (Int32.ofNat hashed.length) with
  | .ok (digest, _) => digest
  | .error _ => MemBlock.zeros 20

/-- A string that is not too long is hashed. -/
theorem cells_digestOf (p : Platform) (ctx : SHA1_CTX) {hashed : List UInt8}
    (h : hashed.length < 2 ^ 29) : (digestOf p ctx hashed).cells = Sha1.hash hashed := by
  have hint : (Int32.ofNat hashed.length).toInt = hashed.length :=
    Int32.toInt_ofNat_of_lt (h.trans (by decide))
  obtain ⟨digest, hcrypt, hdigest⟩ :=
    crypt_sha1_eq p ctx (.ofList hashed) (Int32.ofNat hashed.length) (by omega) (by omega)
  have hslice : (MemBlock.ofList hashed).slice 0 hashed.length = hashed :=
    List.take_length
  rw [hint, Int.toNat_natCast, hslice, if_neg (by omega)] at hdigest
  unfold digestOf
  rw [hcrypt]
  exact hdigest

/-- **The accept value of the response is the one that the protocol asks for**: the SHA-1 of the
key, as it has been kept, and of the magic string, in base64. It depends on nothing that the
static arrays, the stack or the new memory held before. The response is built on every queue, and
it is behind the others afterwards exactly where the queue had room. -/
theorem response_accept (http_parser_execute : List UInt8 → List HttpCallback)
    (request key : List UInt8) (hfirst : NameFirst (http_parser_execute request))
    (hkey : (heard (http_parser_execute request)).key = some key)
    (p : Platform) (ctx : SHA1_CTX) (e : Endpoint) (fresh : ℕ → UInt8) (st : Statics)
    (q : Sender) :
    ∃ st' st'' arrays b q',
      Handshake.CheckHttpPackkage http_parser_execute request st = .ok (st', true)
      ∧ Handshake.RetHttpHandlerPackkage (digestOf p ctx) e fresh st' q
        = .ok (st'', arrays, b, q')
      ∧ b.pwebDataBuffer.content = acceptText (Base64.encode (Sha1.hash (key ++ migic))) e
      ∧ (Handshake.Queues q q' (acceptText (Base64.encode (Sha1.hash (key ++ migic))) e)
        ↔ q.lockfree_queue.length < QUEUE_CAPACITY) := by
  obtain ⟨st', hcheck, hin⟩ := Handshake.CheckHttpPackkage_eq hfirst st
  have hstr := hin.key key hkey
  obtain ⟨-, hlt⟩ := MemBlock.nulFree_of_str hstr
  obtain ⟨st'', arrays, b, hret, -, hcontent, -, -⟩ :=
    Handshake.HttpHandlerPackkage_eq (digestOf p ctx) e fresh hstr
  have hmigic : migic.length = 36 := by decide
  have hlen : (key ++ migic).length < 2 ^ 29 := by
    rw [List.length_append]
    omega
  rw [hkey] at hcheck
  rw [Handshake.accept, cells_digestOf p ctx hlen] at hcontent
  exact ⟨st', st'', arrays, _, _, hcheck, bind_eq_ok.mpr ⟨_, hret, rfl⟩, hcontent,
    Handshake.queues_push_iff hcontent q⟩

/-- The key of the example in the protocol. -/
theorem response_accept_sample : ∃ st' st'' arrays b q',
    Handshake.CheckHttpPackkage
        (fun _ => report [(SEC_WEBSOCKET_KEY, ascii "dGhlIHNhbXBsZSBub25jZQ==")])
        (ascii "GET /chat HTTP/1.1\r\nSec-WebSocket-Key: dGhlIHNhbXBsZSBub25jZQ==\r\n\r\n")
        Statics.init = .ok (st', true)
      ∧ Handshake.RetHttpHandlerPackkage
          (digestOf .x64 ⟨#v[1, 2, 3, 4, 5], #v[6, 7], MemBlock.zeros 64⟩) ⟨(127, 0, 0, 1), 80⟩
          (fun _ => 205) st' .new = .ok (st'', arrays, b, q')
      ∧ Handshake.Queues .new q' (acceptText
          (Base64.encode (Sha1.hash (ascii "dGhlIHNhbXBsZSBub25jZQ==" ++ migic)))
          ⟨(127, 0, 0, 1), 80⟩) := by
  obtain ⟨st', st'', arrays, b, q', hcheck, hret, -, hqueues⟩ := response_accept
    (fun _ => report [(SEC_WEBSOCKET_KEY, ascii "dGhlIHNhbXBsZSBub25jZQ==")])
    (ascii "GET /chat HTTP/1.1\r\nSec-WebSocket-Key: dGhlIHNhbXBsZSBub25jZQ==\r\n\r\n")
    (ascii "dGhlIHNhbXBsZSBub25jZQ==") (nameFirst_report _) (by decide) .x64
    ⟨#v[1, 2, 3, 4, 5], #v[6, 7], MemBlock.zeros 64⟩ ⟨(127, 0, 0, 1), 80⟩ (fun _ => 205)
    Statics.init .new
  exact ⟨st', st'', arrays, b, q', hcheck, hret, hqueues.mpr (by decide)⟩

end Crypt
