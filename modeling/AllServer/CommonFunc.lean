import AllServer.Util.Decimal
import AllServer.Util.Split

/-!
# Splitting a string, and numbers as texts

`SpliteString` goes from one occurrence of a delimiter to the next, and keeps
what is between them unless it is empty. So it cuts the string at the leftmost
occurrences (`SpliteString_of_cuts`), and drops the empty pieces.

`IntToString` makes the decimal text of an `INT32` in a buffer of 64 bytes, and
`StringToInt` and `StringToInt64` read such texts.
-/

namespace CommonFunc

/-- A turn of the loop of `SpliteString`, on what is left from `subStart` on: it
emits what is pushed to `vtStr`. -/
def SpliteString.turn (strDelim rest : List UInt8) :
    Except Fault (ForInStep (List UInt8) × List (List UInt8)) :=
  let subEnd := search strDelim rest
  let temp := rest.take subEnd
  let pushed := if temp = [] then [] else [temp]
  if subEnd = rest.length then .ok (.done rest, pushed)
  else .ok (.yield (rest.drop (subEnd + strDelim.length)), pushed)

/-- `CommonFunc::SpliteString`: what is in `vtStr` afterwards. The loop has no more
turns than there are places in the string. -/
def SpliteString (strSrc strDelim : List UInt8) (vtStr : List (List UInt8)) :
    Except Fault (List (List UInt8)) := do
  -- `clear`
  let vtStr := vtStr.take 0
  if strDelim = [] then
    return vtStr ++ [strSrc]
  let (_, pushed) ← whileTrue (SpliteString.turn strDelim) (strSrc.length + 1) strSrc
  return vtStr ++ pushed

variable {strSrc strDelim rest : List UInt8} {pieces : List (List UInt8)}

/-- **The loop cuts the string**, and pushes the pieces that are not empty. -/
theorem SpliteString.loop_of_cuts (hd : strDelim ≠ []) (h : Cuts strDelim rest pieces) {n : ℕ}
    (hn : rest.length < n) : ∃ rest', whileTrue (turn strDelim) n rest
      = .ok (rest', pieces.filter (fun p => p ≠ [])) := by
  have hpushed : ∀ p : List UInt8, (if p = [] then [] else [p]) = [p].filter (fun p => p ≠ []) := by
    intro p
    by_cases hp : p = []
    · subst hp
      rfl
    · rw [if_neg hp, List.filter_singleton, decide_eq_true hp]
      rfl
  induction h generalizing n with
  | @last s hs =>
    obtain ⟨n, rfl⟩ := Nat.exists_eq_add_one_of_ne_zero (Nat.ne_of_gt (Nat.zero_lt_of_lt hn))
    have hturn : turn strDelim s = .ok (.done s, [s].filter (fun p => p ≠ [])) := by
      unfold turn
      dsimp only
      rw [search_of_not_isInfix hs, if_pos rfl, List.take_length, hpushed]
    exact ⟨_, whileTrue_done hturn n⟩
  | @cut p r pieces hleft _ ih =>
    obtain ⟨n, rfl⟩ := Nat.exists_eq_add_one_of_ne_zero (Nat.ne_of_gt (Nat.zero_lt_of_lt hn))
    have hpos := List.length_pos_iff.mpr hd
    have hlen : (p ++ (strDelim ++ r)).length = p.length + strDelim.length + r.length := by
      rw [List.length_append, List.length_append, Nat.add_assoc]
    have hturn : turn strDelim (p ++ (strDelim ++ r))
        = .ok (.yield r, [p].filter (fun p => p ≠ [])) := by
      unfold turn
      dsimp only
      rw [search_of_leftmost hd hleft, if_neg (by omega), List.take_left, hpushed,
        ← List.append_assoc, ← List.length_append, List.drop_left]
    obtain ⟨rest', hrest⟩ := ih (n := n) (by omega)
    refine ⟨rest', ?_⟩
    rw [← List.singleton_append, List.filter_append]
    exact whileTrue_yield hturn hrest

/-- **What `SpliteString` returns**: the pieces that are not empty. -/
theorem SpliteString_of_cuts (hd : strDelim ≠ []) (h : Cuts strDelim strSrc pieces)
    (vtStr : List (List UInt8)) :
    SpliteString strSrc strDelim vtStr = .ok (pieces.filter (fun p => p ≠ [])) := by
  obtain ⟨rest', hloop⟩ := SpliteString.loop_of_cuts hd h (Nat.lt_succ_self strSrc.length)
  unfold SpliteString
  rw [if_neg hd, hloop]
  rfl

/-- With a delimiter of one character. -/
theorem SpliteString_singleton (strSrc : List UInt8) (c : UInt8) (vtStr : List (List UInt8)) :
    SpliteString strSrc [c] vtStr = .ok ((strSrc.splitOn c).filter (fun p => p ≠ [])) :=
  SpliteString_of_cuts (List.cons_ne_nil c []) (cuts_splitOn c strSrc) vtStr

/-- **`SpliteString` cuts at the leftmost occurrences**: the pieces are those of the
only way to cut the string there, none of them has the delimiter in it, and
joined by it they give the string back. Those that are not empty are what it
returns, in order, whatever was in `vtStr`. -/
theorem splite_string_cuts (strSrc strDelim : List UInt8) (vtStr : List (List UInt8))
    (hd : strDelim ≠ []) :
    ∃ pieces, (∀ pieces', Cuts strDelim strSrc pieces' ↔ pieces' = pieces)
      ∧ (∀ q ∈ pieces, ¬ strDelim <:+: q) ∧ strDelim.intercalate pieces = strSrc
      ∧ SpliteString strSrc strDelim vtStr = .ok (pieces.filter (fun p => p ≠ [])) := by
  obtain ⟨pieces, h⟩ := exists_cuts hd strSrc
  exact ⟨pieces, fun pieces' => ⟨fun h' => h.unique h', fun heq => heq ▸ h⟩, h.not_isInfix hd,
    h.intercalate_eq, SpliteString_of_cuts hd h vtStr⟩

/-- A delimiter that overlaps with itself, at the start and back to back. -/
theorem splite_string_cuts_overlap : ∃ pieces, (ascii "--").intercalate pieces = ascii "--a-----b"
    ∧ SpliteString (ascii "--a-----b") (ascii "--") [ascii "x"]
      = .ok (pieces.filter (fun p => p ≠ []))
    ∧ pieces.filter (fun p => p ≠ []) = [ascii "a", ascii "-b"] := by
  obtain ⟨pieces, -, -, hjoin, hsplit⟩ :=
    splite_string_cuts (ascii "--a-----b") (ascii "--") [ascii "x"] (by decide)
  have hresult : SpliteString (ascii "--a-----b") (ascii "--") [ascii "x"]
      = .ok [ascii "a", ascii "-b"] := by decide
  exact ⟨pieces, hjoin, hsplit, Except.ok.inj (hsplit.symm.trans hresult)⟩

/-! ## Numbers -/

/-- `CommonFunc::StringToInt`: `none` is the null pointer. -/
def StringToInt : Option (List UInt8) → Int32
  | none => 0
  | some pStr => atoi pStr

/-- `CommonFunc::StringToInt64`. -/
def StringToInt64 : Option (List UInt8) → Int64
  | none => 0
  | some pStr => atoi64 pStr

/-- `CommonFunc::IntToString`, with the format `%d`. -/
def IntToString (nValue : Int32) : Except Fault (List UInt8) := do
  let szValue ← (MemBlock.zeros 64).snprintf 64 (intDecimal nValue.toInt)
  szValue.str

/-- **The text of a number fits in the buffer.** -/
theorem IntToString_eq (nValue : Int32) : IntToString nValue = .ok (intDecimal nValue.toInt) := by
  have hlen : (intDecimal nValue.toInt).length ≤ 9 + 2 := by
    have hlo := nValue.le_toInt
    have hhi := nValue.toInt_lt
    exact length_intDecimal_le (by omega)
  obtain ⟨szValue, hprint, hstr⟩ := (MemBlock.zeros 64).exists_snprintf
    (nulFree_intDecimal nValue.toInt) (show _ < 64 by omega) (Nat.le_refl 64)
  unfold IntToString
  rw [hprint]
  exact hstr

end CommonFunc
