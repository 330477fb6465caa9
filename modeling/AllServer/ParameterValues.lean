import AllServer.HttpParameter

/-!
# Reading and setting parameters

Every value is kept as a text: a number is written in decimal when it is set and
read again when it is asked for. The four `SetKeyValue` all call `insert`, which
leaves a key that is there alone. So what is set reads back exactly if there was
no text for the key, or one that reads as that value already
(`HttpParameter.set_parameter_reads_back_iff`).

The `SetKeyValue` for `INT64` passes its value to `IntToString`, which takes an
`INT32`. So it survives exactly if it fits in 32 bits
(`HttpParameter.long_parameter_iff`).
-/

namespace HttpParameter

section Calls

variable {F : Type*} (FloatToString : F → Int32 → Bool → List UInt8)

/-- The calls that change the parameters. -/
inductive Call (F : Type*) where
  | ParseStringToMap (strParam : List UInt8)
  | SetInt (strKey : List UInt8) (intValue : Int32)
  | SetStr (strKey strValue : List UInt8)
  | SetLong (strKey : List UInt8) (longValue : Int64)
  | SetFloat (strKey : List UInt8) (floatValue : F)

/-- What a call does. -/
def Call.run (m : HttpParameter) : Call F → Except Fault (HttpParameter × Bool)
  | .ParseStringToMap strParam => HttpParameter.ParseStringToMap strParam m
  | .SetInt strKey intValue => m.SetKeyValue_INT32 strKey intValue
  | .SetStr strKey strValue => m.SetKeyValue_string strKey strValue
  | .SetLong strKey longValue => m.SetKeyValue_INT64 strKey longValue
  | .SetFloat strKey floatValue => m.SetKeyValue_float FloatToString strKey floatValue

/-- A sequence of calls. -/
def runCalls (calls : List (Call F)) (m : HttpParameter) : Except Fault HttpParameter :=
  calls.foldlM (fun m call => do return (← call.run FloatToString m).1) m

/-- **The keys and texts that a call inserts**, in order. -/
def Call.entries : Call F → List (List UInt8 × List UInt8)
  | .ParseStringToMap strParam => parameters strParam
  | .SetInt strKey intValue => [(strKey, intDecimal intValue.toInt)]
  | .SetStr strKey strValue => [(strKey, strValue)]
  | .SetLong strKey longValue => [(strKey, intDecimal longValue.toInt32.toInt)]
  | .SetFloat strKey floatValue => [(strKey, FloatToString floatValue (-1) false)]

/-- **The text that the calls give a key first**, if one of them gives it any. -/
def firstText (calls : List (Call F)) (strKey : List UInt8) : Option (List UInt8) :=
  (calls.flatMap (Call.entries FloatToString)).lookup strKey

end Calls

/-- What the getters return for a key. -/
def readings (strKey : List UInt8) (m : HttpParameter) : Bool × List UInt8 × Int32 × Int64 :=
  (m.HasKey strKey, m.GetStrValue strKey, m.GetIntValue strKey, m.GetLongValue strKey)

/-- **What is set reads back**, and the other keys read as they did. -/
def ReadsBack {α : Type} (set : HttpParameter → Except Fault (HttpParameter × Bool))
    (get : HttpParameter → α) (value : α) (strKey : List UInt8) (m : HttpParameter) : Prop :=
  ∃ m', set m = .ok (m', true) ∧ get m' = value
    ∧ ∀ strKey' ≠ strKey, m'.readings strKey' = m.readings strKey'

/-- **A 64-bit value survives**: it reads back, and its text is its decimal
representation. -/
def Survives (strKey : List UInt8) (longValue : Int64) (m : HttpParameter) : Prop :=
  ∃ m', m.SetKeyValue_INT64 strKey longValue = .ok (m', true)
    ∧ m'.GetLongValue strKey = longValue
    ∧ m'.m_ParameterMap.find strKey = some (intDecimal longValue.toInt)

variable {F : Type*} {FloatToString : F → Int32 → Bool → List UInt8} {m m' : HttpParameter}
  {strKey strKey' strValue text : List UInt8}

theorem SetKeyValue_INT32_eq (strKey : List UInt8) (intValue : Int32) (m : HttpParameter) :
    m.SetKeyValue_INT32 strKey intValue
      = .ok (⟨m.m_ParameterMap.insert strKey (intDecimal intValue.toInt)⟩, true) := by
  unfold SetKeyValue_INT32
  rw [CommonFunc.IntToString_eq]
  rfl

/-- **Only the low 32 bits** are written. -/
theorem SetKeyValue_INT64_eq (strKey : List UInt8) (longValue : Int64) (m : HttpParameter) :
    m.SetKeyValue_INT64 strKey longValue
      = .ok (⟨m.m_ParameterMap.insert strKey (intDecimal longValue.toInt32.toInt)⟩, true) := by
  unfold SetKeyValue_INT64
  rw [CommonFunc.IntToString_eq]
  rfl

/-! ## What the calls leave -/

/-- A string that has been parsed to the end is well-formed. -/
theorem wellFormed_of_ParseStringToMap {strParam : List UInt8} {r : HttpParameter × Bool}
    (h : ParseStringToMap strParam m = .ok r) : WellFormed strParam := by
  refine wellFormed_iff.mpr fun piece hpiece hparts => ?_
  rw [ParseStringToMap_eq, loop_of_not_parts ⟨piece, hpiece, hparts⟩] at h
  cases h

/-- **A call inserts its entries.** -/
theorem Call.run_entries {call : Call F} {r : HttpParameter × Bool}
    (h : call.run FloatToString m = .ok r) :
    r.1 = ⟨m.m_ParameterMap.insertAll (call.entries FloatToString)⟩ := by
  cases call with
  | ParseStringToMap strParam =>
    have hrun := ParseStringToMap_of_wellFormed (m := m) (wellFormed_of_ParseStringToMap h)
    obtain rfl := Except.ok.inj (hrun.symm.trans h)
    rfl
  | SetInt strKey intValue =>
    obtain rfl := Except.ok.inj ((SetKeyValue_INT32_eq strKey intValue m).symm.trans h)
    rfl
  | SetStr strKey strValue =>
    obtain rfl := Except.ok.inj h
    rfl
  | SetLong strKey longValue =>
    obtain rfl := Except.ok.inj ((SetKeyValue_INT64_eq strKey longValue m).symm.trans h)
    rfl
  | SetFloat strKey floatValue =>
    obtain rfl := Except.ok.inj h
    rfl

/-- **So does a sequence of calls.** -/
theorem runCalls_entries {calls : List (Call F)} (h : runCalls FloatToString calls m = .ok m') :
    m' = ⟨m.m_ParameterMap.insertAll (calls.flatMap (Call.entries FloatToString))⟩ := by
  induction calls generalizing m with
  | nil => exact (Except.ok.inj h).symm
  | cons call calls ih =>
    unfold runCalls at h
    rw [List.foldlM_cons] at h
    match hcall : call.run FloatToString m with
    | .error e =>
      rw [hcall] at h
      cases h
    | .ok r =>
      rw [hcall] at h
      rw [List.flatMap_cons, SortedMap.insertAll_append, ih h, Call.run_entries hcall]

/-- **What is found after a sequence of calls** is the first text of the key. -/
theorem find_of_runCalls {calls : List (Call F)}
    (h : runCalls FloatToString calls new = .ok m) (strKey : List UInt8) :
    m.m_ParameterMap.find strKey = firstText FloatToString calls strKey := by
  rw [runCalls_entries h, SortedMap.find_insertAll]
  rfl

/-! ## What is read after an insertion -/

/-- What is found for the key that is inserted. -/
theorem find_insert_self (m : HttpParameter) (strKey text : List UInt8) :
    (m.m_ParameterMap.insert strKey text).find strKey
      = some ((m.m_ParameterMap.find strKey).getD text) := by
  rw [SortedMap.find, SortedMap.insert, SortedMap.lookup_insertEntry_self m.m_ParameterMap.sorted,
    ← SortedMap.find]
  cases m.m_ParameterMap.find strKey <;> rfl

/-- **Every other key reads as it did.** -/
theorem readings_insert_of_ne (text : List UInt8) (h : strKey' ≠ strKey) :
    readings strKey' ⟨m.m_ParameterMap.insert strKey text⟩ = m.readings strKey' := by
  have hfind : (m.m_ParameterMap.insert strKey text).find strKey' = m.m_ParameterMap.find strKey' :=
    SortedMap.lookup_insertEntry_of_ne h
  unfold readings HasKey GetStrValue GetIntValue GetLongValue
  dsimp only
  rw [hfind]

/-- **What a key reads as after a set**, for a getter that reads its text. -/
theorem readsBack_iff {α : Type} {set : HttpParameter → Except Fault (HttpParameter × Bool)}
    {get : HttpParameter → α} {value : α} (read : List UInt8 → α)
    (hset : set m = .ok (⟨m.m_ParameterMap.insert strKey text⟩, true))
    (hget : ∀ m second, m.m_ParameterMap.find strKey = some second → get m = read second)
    (hread : read text = value) :
    ReadsBack set get value strKey m
      ↔ ∀ second, m.m_ParameterMap.find strKey = some second → read second = value := by
  have hafter := hget ⟨m.m_ParameterMap.insert strKey text⟩ _ (find_insert_self m strKey text)
  refine ⟨fun ⟨m', hm', hvalue, _⟩ second hsecond => ?_, fun h => ⟨_, hset, hafter.trans ?_,
    fun strKey' hne => readings_insert_of_ne text hne⟩⟩
  · obtain rfl := congrArg Prod.fst (Except.ok.inj (hset.symm.trans hm'))
    rw [hsecond] at hafter
    exact hafter.symm.trans hvalue
  · cases hfind : m.m_ParameterMap.find strKey with
    | none => exact hread
    | some second => exact h second hfind

/-- **A set parameter reads back** exactly if the first text that the calls have given
its key, if any, reads as the value that is set. Every other key reads as it did
in any case. -/
theorem set_parameter_reads_back_iff (FloatToString : F → Int32 → Bool → List UInt8)
    (calls : List (Call F)) (m : HttpParameter) (h : runCalls FloatToString calls new = .ok m)
    (strKey : List UInt8) :
    (∀ strValue, ReadsBack (SetKeyValue_string strKey strValue) (GetStrValue strKey) strValue
        strKey m
      ↔ ∀ text, firstText FloatToString calls strKey = some text → text = strValue)
    ∧ (∀ intValue, ReadsBack (SetKeyValue_INT32 strKey intValue) (GetIntValue strKey) intValue
        strKey m
      ↔ ∀ text, firstText FloatToString calls strKey = some text → atoi text = intValue) := by
  rw [← find_of_runCalls h]
  refine ⟨fun strValue => readsBack_iff id rfl (fun m second hfind => ?_) rfl,
    fun intValue => readsBack_iff atoi (SetKeyValue_INT32_eq strKey intValue m)
      (fun m second hfind => ?_) (atoi_intDecimal intValue)⟩
  · rw [GetStrValue, hfind]
    rfl
  · rw [GetIntValue, hfind]
    rfl

/-- Keys that are set again: `+1` reads as 1 already, and `x` is kept. -/
theorem set_parameter_reads_back_iff_parsed : ∃ m,
    runCalls (F := Empty) nofun [.ParseStringToMap (ascii "a=+1&b=x"), .SetInt (ascii "c") 3] new
        = .ok m
      ∧ ReadsBack (SetKeyValue_INT32 (ascii "a") 1) (GetIntValue (ascii "a")) 1 (ascii "a") m
      ∧ ReadsBack (SetKeyValue_string (ascii "d") (ascii "y")) (GetStrValue (ascii "d"))
        (ascii "y") (ascii "d") m
      ∧ ¬ ReadsBack (SetKeyValue_string (ascii "b") (ascii "y")) (GetStrValue (ascii "b"))
        (ascii "y") (ascii "b") m := by
  have hrun : runCalls (F := Empty) nofun
      [.ParseStringToMap (ascii "a=+1&b=x"), .SetInt (ascii "c") 3] new = .ok _ := rfl
  have hreads := set_parameter_reads_back_iff (F := Empty) nofun _ _ hrun
  refine ⟨_, hrun, ((hreads (ascii "a")).2 1).mpr fun text htext => ?_,
    ((hreads (ascii "d")).1 (ascii "y")).mpr fun text htext => ?_,
    fun h => absurd (((hreads (ascii "b")).1 (ascii "y")).mp h (ascii "x") rfl) (by decide)⟩
  · obtain rfl : ascii "+1" = text := Option.some.inj htext
    decide
  · cases htext

/-- A key that is set twice reads as it was set first. -/
theorem not_set_parameter_reads_back : ∃ m,
    runCalls (F := Empty) nofun [.SetInt (ascii "a") 1] new = .ok m
      ∧ ¬ ReadsBack (SetKeyValue_INT32 (ascii "a") 2) (GetIntValue (ascii "a")) 2
        (ascii "a") m := by
  refine ⟨_, rfl, fun hreads => ?_⟩
  obtain ⟨m', hset, hget, -⟩ := hreads
  obtain rfl := congrArg Prod.fst (Except.ok.inj hset)
  exact absurd hget (by decide)

/-! ## 64 bits -/

/-- **A 64-bit value keeps its low half** exactly if it fits in 32 bits. -/
theorem toInt_toInt32_eq_iff (v : Int64) :
    v.toInt32.toInt = v.toInt ↔ -2 ^ 31 ≤ v.toInt ∧ v.toInt < 2 ^ 31 := by
  rw [Int64.toInt_toInt32]
  refine ⟨fun h => ?_, fun h => Int.bmod_eq_of_le h.1 h.2⟩
  have hlo := Int.le_bmod (x := v.toInt) (m := 2 ^ 32) (by decide)
  have hhi := Int.bmod_lt (x := v.toInt) (m := 2 ^ 32) (by decide)
  omega

/-- **A 64-bit parameter survives the text form** exactly if it fits in 32 bits.
The number is written by the function for an `INT32` and read by the one for an
`INT64`; what is written of an integer is read as that integer, so nothing else
can be lost. -/
theorem long_parameter_iff (m : HttpParameter) (strKey : List UInt8) (longValue : Int64)
    (h : m.HasKey strKey = false) :
    Survives strKey longValue m ↔ -2 ^ 31 ≤ longValue.toInt ∧ longValue.toInt < 2 ^ 31 := by
  have hnone : m.m_ParameterMap.find strKey = none := by
    unfold HasKey at h
    split at h
    · cases h
    · assumption
  have hfind := find_insert_self m strKey (intDecimal longValue.toInt32.toInt)
  rw [hnone, Option.getD_none] at hfind
  have hset := SetKeyValue_INT64_eq strKey longValue m
  rw [← toInt_toInt32_eq_iff]
  refine ⟨fun ⟨m', hm', _, htext⟩ => ?_, fun heq => ⟨_, hset, ?_, heq ▸ hfind⟩⟩
  · obtain rfl := congrArg Prod.fst (Except.ok.inj (hset.symm.trans hm'))
    exact intDecimal_injective (Option.some.inj (hfind.symm.trans htext))
  · unfold GetLongValue
    rw [hfind]
    exact (congrArg (fun v => atoi64 (intDecimal v)) heq).trans (atoi64_intDecimal longValue)

/-- The least value of 32 bits survives, and the one after the greatest does not. -/
theorem long_parameter_iff_bounds :
    Survives (ascii "a") (-2147483648) new ∧ ¬ Survives (ascii "a") 2147483648 new :=
  ⟨(long_parameter_iff new (ascii "a") (-2147483648) rfl).mpr (by decide),
    fun h => absurd ((long_parameter_iff new (ascii "a") 2147483648 rfl).mp h) (by decide)⟩

/-- Of 2³² nothing is left. -/
theorem not_long_parameter :
    new.HasKey (ascii "a") = false ∧ ¬ Survives (ascii "a") 4294967296 new := by
  refine ⟨rfl, fun hsurvives => ?_⟩
  obtain ⟨m', hset, hget, -⟩ := hsurvives
  obtain rfl := congrArg Prod.fst (Except.ok.inj hset)
  exact absurd hget (by decide)

end HttpParameter
