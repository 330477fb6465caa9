import AllServer.CommonFunc
import AllServer.Util.CString
import AllServer.Util.SortedMap

/-!
# Parameter strings

`ParseStringToMap` splits a string at `&`, splits what is between at `=`, and
inserts the first two parts as a key and its value. `GetResultString` writes
the map as such a string again.

Empty parts are dropped, so a piece that has nothing in it but `=` has none.
The test for a second part compares `begin() + 1` with `end()`, and lets that
piece pass: its parts are then read although there are none
(`HttpParameter.reads_inside_iff`). Without such pieces the two functions are
inverse to each other (`HttpParameter.parameter_round_trip`).

The getters find a text in the map and read it, and the four `SetKeyValue` insert
one. How the text of a `float` is made is left open: the type and the function
are parameters.
-/

/-- **The parameters.** -/
structure HttpParameter where
  m_ParameterMap : SortedMap (List UInt8) (List UInt8)

namespace HttpParameter

/-- No parameters. -/
def new : HttpParameter := ⟨.empty⟩

/-- What `ParseStringToMap` does about one piece. -/
def ParseStringToMap.turn (m : HttpParameter) (it : List UInt8) : Except Fault HttpParameter := do
  let strVectorSub ← CommonFunc.SpliteString it (ascii "=") []
  -- `begin() + 1 != end()`
  if 0 + 1 ≠ strVectorSub.length then
    let first ← index strVectorSub 0
    let second ← index strVectorSub 1
    return ⟨m.m_ParameterMap.insert first second⟩
  return m

/-- `HttpParameter::ParseStringToMap`. -/
def ParseStringToMap (strParam : List UInt8) (m : HttpParameter) :
    Except Fault (HttpParameter × Bool) := do
  if strParam.length ≤ 0 then
    return (m, false)
  let strVector ← CommonFunc.SpliteString strParam (ascii "&") []
  let m ← strVector.foldlM ParseStringToMap.turn m
  return (m, true)

/-- `HttpParameter::GetResultString`. -/
def GetResultString (m : HttpParameter) : List UInt8 :=
  m.m_ParameterMap.entries.foldl
    (fun strTemp itor => strTemp ++ itor.1 ++ ascii "=" ++ itor.2 ++ ascii "&") []

/-- `HttpParameter::HasKey`. -/
def HasKey (strKey : List UInt8) (m : HttpParameter) : Bool :=
  match m.m_ParameterMap.find strKey with
  | some _ => true
  | none => false

/-- `HttpParameter::GetIntValue`. -/
def GetIntValue (strKey : List UInt8) (m : HttpParameter) : Int32 :=
  match m.m_ParameterMap.find strKey with
  | some second => CommonFunc.StringToInt (some second)
  | none => 0

/-- `HttpParameter::GetStrValue`. -/
def GetStrValue (strKey : List UInt8) (m : HttpParameter) : List UInt8 :=
  match m.m_ParameterMap.find strKey with
  | some second => second
  | none => []

/-- `HttpParameter::GetLongValue`. -/
def GetLongValue (strKey : List UInt8) (m : HttpParameter) : Int64 :=
  match m.m_ParameterMap.find strKey with
  | some second => CommonFunc.StringToInt64 (some second)
  | none => 0

/-- `HttpParameter::SetKeyValue` for an `INT32`. -/
def SetKeyValue_INT32 (strKey : List UInt8) (intValue : Int32) (m : HttpParameter) :
    Except Fault (HttpParameter × Bool) := do
  return (⟨m.m_ParameterMap.insert strKey (← CommonFunc.IntToString intValue)⟩, true)

/-- `HttpParameter::SetKeyValue` for a string. -/
def SetKeyValue_string (strKey strValue : List UInt8) (m : HttpParameter) :
    Except Fault (HttpParameter × Bool) := do
  return (⟨m.m_ParameterMap.insert strKey strValue⟩, true)

/-- `HttpParameter::SetKeyValue` for an `INT64`. -/
def SetKeyValue_INT64 (strKey : List UInt8) (longValue : Int64) (m : HttpParameter) :
    Except Fault (HttpParameter × Bool) := do
  -- the argument of `IntToString` is an `INT32`
  return (⟨m.m_ParameterMap.insert strKey (← CommonFunc.IntToString longValue.toInt32)⟩, true)

/-- `HttpParameter::SetKeyValue` for a `float`. -/
def SetKeyValue_float {F : Type*} (FloatToString : F → Int32 → Bool → List UInt8)
    (strKey : List UInt8) (floatValue : F) (m : HttpParameter) :
    Except Fault (HttpParameter × Bool) := do
  return (⟨m.m_ParameterMap.insert strKey (FloatToString floatValue (-1) false)⟩, true)

/-- A sequence of calls of `ParseStringToMap`. -/
def ParseAll (strParams : List (List UInt8)) (m : HttpParameter) : Except Fault HttpParameter :=
  strParams.foldlM (fun m strParam => do return (← m.ParseStringToMap strParam).1) m

/-! ## The parameters in a string -/

/-- The parts of a string between the occurrences of a character, as far as there
is something in them. -/
def parts (c : UInt8) (s : List UInt8) : List (List UInt8) :=
  (s.splitOn c).filter (fun p => p ≠ [])

/-- **The parameter in a piece**: its first two parts, if it has two. -/
def parameter? (piece : List UInt8) : Option (List UInt8 × List UInt8) :=
  match parts 61 piece with
  | key :: value :: _ => some (key, value)
  | _ => none

/-- The parameters in a string, in order. -/
def parameters (strParam : List UInt8) : List (List UInt8 × List UInt8) :=
  (parts 38 strParam).filterMap parameter?

/-- **Every piece has a character other than `=`.** -/
def WellFormed (strParam : List UInt8) : Prop :=
  ∀ piece ∈ strParam.splitOn 38, piece ≠ [] → ∃ c ∈ piece, c ≠ 61

/-- **The string can be a key or a value**: it is not empty, and there is no `&` and
no `=` in it. -/
structure Plain (s : List UInt8) : Prop where
  ne_nil : s ≠ []
  amp : 38 ∉ s
  eq : 61 ∉ s

variable {strParam piece s : List UInt8} {c : UInt8} {m : HttpParameter}

theorem mem_parts {p : List UInt8} : p ∈ parts c s ↔ p ∈ s.splitOn c ∧ p ≠ [] := by
  rw [parts, List.mem_filter, decide_eq_true_iff]

/-- A string of one character over and over has no parts. -/
theorem parts_eq_nil_iff : parts c s = [] ↔ ∀ x ∈ s, x = c := by
  rw [parts, List.filter_eq_nil_iff, ← splitOn_eq_nil_iff]
  simp

/-- **Every piece has a part** exactly if it has a character other than `=`. -/
theorem wellFormed_iff :
    WellFormed strParam ↔ ∀ piece ∈ parts 38 strParam, parts 61 piece ≠ [] := by
  unfold WellFormed
  simp only [mem_parts, ne_eq, parts_eq_nil_iff, not_forall, exists_prop, and_imp]

theorem SpliteString_eq (s : List UInt8) (c : UInt8) :
    CommonFunc.SpliteString s [c] [] = .ok (parts c s) :=
  CommonFunc.SpliteString_singleton s c []

/-! ## Parsing -/

/-- **A piece that has a part**: the parameter in it is inserted, if there is one. -/
theorem turn_of_parts (h : parts 61 piece ≠ []) :
    ParseStringToMap.turn m piece
      = .ok ⟨m.m_ParameterMap.insertAll (parameter? piece).toList⟩ := by
  unfold ParseStringToMap.turn parameter?
  rw [show ascii "=" = [61] by decide, SpliteString_eq]
  match hparts : parts 61 piece with
  | [] => exact absurd hparts h
  | [_] => rfl
  | _ :: _ :: _ => rfl

/-- **A piece that has none**: the first part is read all the same. -/
theorem turn_of_not_parts (h : parts 61 piece = []) :
    ParseStringToMap.turn m piece = .error .load := by
  unfold ParseStringToMap.turn
  rw [show ascii "=" = [61] by decide, SpliteString_eq, h]
  rfl

/-- **The loop** inserts the parameters of pieces that all have a part. -/
theorem loop_of_parts {pieces : List (List UInt8)} (h : ∀ piece ∈ pieces, parts 61 piece ≠ []) :
    pieces.foldlM ParseStringToMap.turn m
      = .ok ⟨m.m_ParameterMap.insertAll (pieces.filterMap parameter?)⟩ := by
  induction pieces generalizing m with
  | nil => rfl
  | cons piece pieces ih =>
    obtain ⟨hpiece, hrest⟩ := List.forall_mem_cons.mp h
    rw [List.foldlM_cons, turn_of_parts hpiece]
    refine (ih hrest).trans ?_
    rw [← SortedMap.insertAll_append]
    cases hparameter : parameter? piece with
    | none => rw [List.filterMap_cons_none hparameter]; rfl
    | some kv => rw [List.filterMap_cons_some hparameter]; rfl

/-- It does not get past a piece that has none. -/
theorem loop_of_not_parts {pieces : List (List UInt8)} (h : ∃ piece ∈ pieces, parts 61 piece = []) :
    pieces.foldlM ParseStringToMap.turn m = .error .load := by
  induction pieces generalizing m with
  | nil => obtain ⟨piece, hmem, -⟩ := h; exact absurd hmem List.not_mem_nil
  | cons piece pieces ih =>
    rw [List.foldlM_cons]
    by_cases hpiece : parts 61 piece = []
    · rw [turn_of_not_parts hpiece]
      rfl
    · rw [turn_of_parts hpiece]
      obtain ⟨piece', hmem, hparts⟩ := h
      refine ih ⟨piece', (List.mem_cons.mp hmem).resolve_left ?_, hparts⟩
      rintro rfl
      exact hpiece hparts

/-- **`ParseStringToMap`** on any string, up to the loop. -/
theorem ParseStringToMap_eq (strParam : List UInt8) (m : HttpParameter) :
    ParseStringToMap strParam m = (do
      let m ← (parts 38 strParam).foldlM ParseStringToMap.turn m
      return (m, decide (strParam ≠ []))) := by
  unfold ParseStringToMap
  split_ifs with hlen
  · obtain rfl := List.length_eq_zero_iff.mp (Nat.le_zero.mp hlen)
    have hnil : parts 38 [] = [] := parts_eq_nil_iff.mpr fun x hx => absurd hx List.not_mem_nil
    rw [hnil]
    rfl
  · have hne : strParam ≠ [] := fun h => hlen (h ▸ Nat.le_refl 0)
    rw [show ascii "&" = [38] by decide, SpliteString_eq, decide_eq_true hne]
    rfl

/-- On a string that is well-formed, it inserts the parameters. -/
theorem ParseStringToMap_of_wellFormed (h : WellFormed strParam) :
    ParseStringToMap strParam m
      = .ok (⟨m.m_ParameterMap.insertAll (parameters strParam)⟩, decide (strParam ≠ [])) := by
  rw [ParseStringToMap_eq, loop_of_parts (wellFormed_iff.mp h)]
  rfl

/-- **Nothing outside the parts is read**: the parameters of the pieces that have two
parts are inserted, and the others are skipped. -/
def ReadsInside (strParam : List UInt8) (m : HttpParameter) : Prop :=
  ParseStringToMap strParam m
    = .ok (⟨m.m_ParameterMap.insertAll (parameters strParam)⟩, decide (strParam ≠ []))

/-- **Nothing outside the parts is read** exactly if every piece that is not empty
has a character other than `=`. A piece is cut at `=` into the parts that are not
empty, and the first two are read unless there is exactly one. -/
theorem reads_inside_iff (strParam : List UInt8) (m : HttpParameter) :
    ReadsInside strParam m ↔ WellFormed strParam := by
  refine ⟨fun h => wellFormed_iff.mpr fun piece hpiece hparts => ?_,
    fun h => ParseStringToMap_of_wellFormed h⟩
  unfold ReadsInside at h
  rw [ParseStringToMap_eq, loop_of_not_parts ⟨piece, hpiece, hparts⟩] at h
  cases h

/-- It is not true that nothing outside the parts is read: the string is `=`. -/
theorem not_reads_inside : ¬ ∀ strParam m, ReadsInside strParam m := by
  intro h
  have hload : ParseStringToMap (ascii "=") new = .error .load := rfl
  cases hload.symm.trans (h (ascii "=") new)

/-! ## The round trip -/

/-- **What is parsed is plain.** -/
theorem plain_of_mem_parameters {e : List UInt8 × List UInt8} (h : e ∈ parameters strParam) :
    Plain e.1 ∧ Plain e.2 := by
  obtain ⟨piece, hpiece, hparameter⟩ := List.mem_filterMap.mp h
  have hplain : ∀ p ∈ parts 61 piece, Plain p := by
    intro p hp
    obtain ⟨hp, hne⟩ := mem_parts.mp hp
    exact ⟨hne, fun hamp => notMem_of_mem_splitOn (mem_parts.mp hpiece).1
      (subset_of_mem_splitOn hp hamp), notMem_of_mem_splitOn hp⟩
  unfold parameter? at hparameter
  split at hparameter
  · next key value rest hparts =>
    obtain rfl := Option.some.inj hparameter
    rw [hparts] at hplain
    exact ⟨hplain key (by simp), hplain value (by simp)⟩
  · cases hparameter

/-- **A parameter that is written** has its key and its value as parts. -/
theorem parts_of_plain {key value : List UInt8} (hkey : Plain key) (hvalue : Plain value) :
    parts 61 (key ++ 61 :: value) = [key, value] := by
  rw [parts, List.splitOn_append_cons_self_of_not_mem hkey.eq, List.splitOn_eq_singleton hvalue.eq]
  simp [hkey.ne_nil, hvalue.ne_nil]

/-- What is written of a map, piece by piece. -/
theorem GetResultString_eq (m : HttpParameter) :
    m.GetResultString
      = (m.m_ParameterMap.entries.map fun e => e.1 ++ 61 :: e.2).flatMap (fun q => q ++ [38]) := by
  have hfold : ∀ (es : List (List UInt8 × List UInt8)) (strTemp : List UInt8),
      es.foldl (fun strTemp itor => strTemp ++ itor.1 ++ ascii "=" ++ itor.2 ++ ascii "&") strTemp
        = strTemp ++ (es.map fun e => e.1 ++ 61 :: e.2).flatMap (fun q => q ++ [38]) := by
    intro es
    induction es with
    | nil => exact fun strTemp => (List.append_nil strTemp).symm
    | cons e es ih =>
      intro strTemp
      rw [List.foldl_cons, ih, show ascii "=" = [61] by decide, show ascii "&" = [38] by decide]
      simp
  exact hfold _ []

/-- **What is written of a map of plain strings** has its entries as parameters. -/
theorem parameters_GetResultString
    (h : ∀ e ∈ m.m_ParameterMap.entries, Plain e.1 ∧ Plain e.2) :
    WellFormed m.GetResultString ∧ parameters m.GetResultString = m.m_ParameterMap.entries := by
  have hparts : parts 38 m.GetResultString
      = m.m_ParameterMap.entries.map fun e => e.1 ++ 61 :: e.2 := by
    have hamp : ∀ q ∈ m.m_ParameterMap.entries.map fun e => e.1 ++ 61 :: e.2, 38 ∉ q := by
      intro q hq
      obtain ⟨e, he, rfl⟩ := List.mem_map.mp hq
      simp [(h e he).1.amp, (h e he).2.amp]
    rw [GetResultString_eq, parts, splitOn_flatMap hamp, List.filter_append,
      List.filter_eq_self.mpr, List.filter_eq_nil_iff.mpr (by simp), List.append_nil]
    intro q hq
    obtain ⟨e, -, rfl⟩ := List.mem_map.mp hq
    simp
  have hpiece : ∀ e ∈ m.m_ParameterMap.entries, parts 61 (e.1 ++ 61 :: e.2) = [e.1, e.2] :=
    fun e he => parts_of_plain (h e he).1 (h e he).2
  refine ⟨wellFormed_iff.mpr fun piece hmem => ?_, ?_⟩
  · rw [hparts] at hmem
    obtain ⟨e, he, rfl⟩ := List.mem_map.mp hmem
    rw [hpiece e he]
    exact List.cons_ne_nil _ _
  · rw [parameters, hparts, List.filterMap_map]
    refine (List.filterMap_congr fun e he => ?_).trans List.filterMap_some
    rw [Function.comp_apply, parameter?, hpiece e he]

/-- **What is written of a map of plain strings** is parsed into the same map. -/
theorem ParseStringToMap_GetResultString
    (h : ∀ e ∈ m.m_ParameterMap.entries, Plain e.1 ∧ Plain e.2) :
    ParseStringToMap m.GetResultString new = .ok (m, decide (m.GetResultString ≠ [])) := by
  obtain ⟨hwell, hentries⟩ := parameters_GetResultString h
  rw [ParseStringToMap_of_wellFormed hwell, hentries, new, SortedMap.insertAll_entries]

/-- A sequence of calls inserts all the parameters, in order. -/
theorem ParseAll_of_wellFormed {strParams : List (List UInt8)}
    (h : ∀ strParam ∈ strParams, WellFormed strParam) :
    ParseAll strParams m
      = .ok ⟨m.m_ParameterMap.insertAll (strParams.flatMap parameters)⟩ := by
  induction strParams generalizing m with
  | nil => rfl
  | cons strParam strParams ih =>
    obtain ⟨hfirst, hrest⟩ := List.forall_mem_cons.mp h
    rw [List.flatMap_cons, SortedMap.insertAll_append, ParseAll, List.foldlM_cons,
      ParseStringToMap_of_wellFormed hfirst]
    exact ih hrest

/-- **Parameters survive a round trip**: after a sequence of calls on well-formed
strings, the map has plain keys and values, for each key the value that has come
first, and what is written of it is parsed into the same map. -/
theorem parameter_round_trip (strParams : List (List UInt8))
    (h : ∀ strParam ∈ strParams, WellFormed strParam) :
    ∃ m, ParseAll strParams new = .ok m
      ∧ (∀ e ∈ m.m_ParameterMap.entries, Plain e.1 ∧ Plain e.2)
      ∧ (∀ key, m.m_ParameterMap.find key = (strParams.flatMap parameters).lookup key)
      ∧ ∃ ok, ParseStringToMap m.GetResultString new = .ok (m, ok) := by
  have hplain : ∀ e ∈ (SortedMap.empty.insertAll (strParams.flatMap parameters)).entries,
      Plain e.1 ∧ Plain e.2 := by
    intro e he
    obtain ⟨strParam, -, hmem⟩ := List.mem_flatMap.mp (SortedMap.mem_of_mem_insertAll he)
    exact plain_of_mem_parameters hmem
  exact ⟨_, ParseAll_of_wellFormed h, hplain,
    fun key => SortedMap.find_insertAll _ SortedMap.empty key, _,
    ParseStringToMap_GetResultString hplain⟩

/-- Two strings with the same key: the value that has come first is written. -/
theorem parameter_round_trip_two : ∃ m,
    ParseAll [ascii "b=2&a=1", ascii "&a=3=4&c"] new = .ok m
      ∧ m.GetResultString = ascii "a=1&b=2&"
      ∧ ∃ ok, ParseStringToMap m.GetResultString new = .ok (m, ok) := by
  have hwell : ∀ strParam ∈ [ascii "b=2&a=1", ascii "&a=3=4&c"], WellFormed strParam :=
    List.forall_mem_cons.mpr ⟨wellFormed_iff.mpr (by decide),
      List.forall_mem_singleton.mpr (wellFormed_iff.mpr (by decide))⟩
  obtain ⟨m, hm, -, -, hparsed⟩ := parameter_round_trip _ hwell
  have hwritten : (ParseAll [ascii "b=2&a=1", ascii "&a=3=4&c"] new).map GetResultString
      = .ok (ascii "a=1&b=2&") := rfl
  rw [hm] at hwritten
  exact ⟨m, hm, Except.ok.inj hwritten, hparsed⟩

end HttpParameter
