import AllServer.Util.Memory
import AllServer.Util.Run
import Mathlib.Logic.Function.Basic

/-!
# The session manager

`CNetSessionMrg` creates all sessions in advance (`InitConnectionList`), keeps
the free ones in a vector and hands them out from its back
(`CreateNetSession`). A session that has been handed out is found in a map, by
the id that it was given when it was created (`GetNetSessionByID`).

A pointer to a session is its place in the order of creation, and of a session
only the id is kept. The vector is under a lock, and `CreateNetSession` returns
with the lock held where the vector is empty. So a call may never return, and
`CreateNetSession` has no value then.

The vector and the values of the map partition the sessions
(`CNetSessionMrg.Table`), whatever sequence of calls has been made.
-/

/-- **The session manager.** -/
structure CNetSessionMrg where
  /-- How many sessions have been created. -/
  created : ℕ
  /-- The id of each of them, which is kept as an `INT32`. -/
  m_dwSessionID : ℕ → Int32
  /-- Whether the lock is held. -/
  m_GetSessionMutex : Bool
  m_NetSessionVector : List ℕ
  m_OnlineNetSessionVector : UInt32 → Option ℕ

namespace CNetSessionMrg

/-- The manager as its constructor leaves it. -/
def new : CNetSessionMrg := ⟨0, fun _ => -1, false, [], fun _ => none⟩

/-- `CNetSession::SetSessionID`. -/
def SetSessionID (CNetSession_ : ℕ) (dwSessionID : UInt32) (m : CNetSessionMrg) :
    CNetSessionMrg :=
  { m with m_dwSessionID := Function.update m.m_dwSessionID CNetSession_ dwSessionID.toInt32 }

/-- `CNetSession::GetSessionID`. -/
def GetSessionID (m : CNetSessionMrg) (CNetSession_ : ℕ) : UInt32 :=
  (m.m_dwSessionID CNetSession_).toUInt32

/-- One turn of the loop of `InitConnectionList`: a session is created, with
the id that its constructor gives it and then with its own. -/
def InitConnectionList.turn (m : CNetSessionMrg) (i : UInt32) : CNetSessionMrg :=
  let CNetSession_ := m.created
  let m := { m with
    created := m.created + 1
    m_dwSessionID := Function.update m.m_dwSessionID CNetSession_ (-1) }
  let m := m.SetSessionID CNetSession_ (i + 1)
  { m with m_NetSessionVector := m.m_NetSessionVector ++ [CNetSession_] }

/-- `CNetSessionMrg::InitConnectionList`. -/
def InitConnectionList (nMaxCons : UInt32) (m : CNetSessionMrg) : CNetSessionMrg :=
  (List.range nMaxCons.toNat).foldl
    (fun m i => InitConnectionList.turn m (UInt32.ofNat i)) m

/-- `m_GetSessionMutex.lock()`. Where the lock is held the call waits for
ever. -/
def lock (m : CNetSessionMrg) : Option CNetSessionMrg :=
  if m.m_GetSessionMutex then none else some { m with m_GetSessionMutex := true }

/-- `m_GetSessionMutex.unlock()`. -/
def unlock (m : CNetSessionMrg) : CNetSessionMrg := { m with m_GetSessionMutex := false }

/-- `CNetSessionMrg::CreateNetSession`. Where there is no session left it
returns with the lock held. -/
def CreateNetSession (m : CNetSessionMrg) : Option (CNetSessionMrg × Option ℕ) := do
  let m ← m.lock
  match m.m_NetSessionVector.getLast? with
  | none => return (m, none)
  | some CNetSession_ =>
    let m := { m with
      m_OnlineNetSessionVector := Function.update m.m_OnlineNetSessionVector
        (m.GetSessionID CNetSession_) (some CNetSession_)
      m_NetSessionVector := m.m_NetSessionVector.dropLast }
    return (m.unlock, some CNetSession_)

/-- `CNetSessionMrg::GetNetSessionByID`. Where nothing is found, `GetSessionID`
is called through a null pointer. -/
def GetNetSessionByID (dwConnID : UInt32) (m : CNetSessionMrg) : Except Fault (Option ℕ) :=
  if 0 = dwConnID then .ok none
  else
    match m.m_OnlineNetSessionVector dwConnID with
    | none => .error .null
    | some NetSession =>
      .ok (if m.GetSessionID NetSession ≠ dwConnID then none else some NetSession)

/-- **Calls of `CreateNetSession`**, and what they return. -/
def Creates : Machine CNetSessionMrg Unit (Option ℕ) :=
  fun m _ outs m' => ∃ CNetSession_, m.CreateNetSession = some (m', CNetSession_)
    ∧ outs = [CNetSession_]

theorem Creates.of_eq {m m' : CNetSessionMrg} {CNetSession_ : Option ℕ}
    (h : m.CreateNetSession = some (m', CNetSession_)) : Creates m () [CNetSession_] m' :=
  ⟨CNetSession_, h, rfl⟩

/-! ## What the operations do -/

section Operations

variable {m m' : CNetSessionMrg} {CNetSession_ : Option ℕ}

/-- **A call of `CreateNetSession` that returns** has found the lock free. It
takes the last session of the vector, or leaves the lock held. -/
theorem CreateNetSession_eq_some (h : m.CreateNetSession = some (m', CNetSession_)) :
    m.m_GetSessionMutex = false
      ∧ ((m.m_NetSessionVector = [] ∧ CNetSession_ = none
            ∧ m' = { m with m_GetSessionMutex := true })
        ∨ ∃ rest p, m.m_NetSessionVector = rest ++ [p] ∧ CNetSession_ = some p
            ∧ m' = { m with
              m_GetSessionMutex := false
              m_NetSessionVector := rest
              m_OnlineNetSessionVector :=
                Function.update m.m_OnlineNetSessionVector (m.GetSessionID p) (some p) }) := by
  unfold CreateNetSession lock at h
  cases hlock : m.m_GetSessionMutex with
  | true =>
    rw [hlock, if_pos rfl] at h
    cases h
  | false =>
    rw [hlock, if_neg Bool.false_ne_true] at h
    refine ⟨rfl, ?_⟩
    dsimp only [Option.bind_eq_bind, Option.bind_some] at h
    cases hlast : m.m_NetSessionVector.getLast? with
    | none =>
      rw [hlast] at h
      cases h
      exact .inl ⟨List.getLast?_eq_none_iff.mp hlast, rfl, rfl⟩
    | some p =>
      rw [hlast] at h
      cases h
      obtain ⟨rest, hvector⟩ := List.getLast?_eq_some_iff.mp hlast
      refine .inr ⟨rest, p, hvector, rfl, ?_⟩
      rw [hvector, List.dropLast_concat]
      rfl

/-- **A call on a vector with a session** hands out the last one. -/
theorem CreateNetSession_of_concat {rest : List ℕ} {p : ℕ} (hlock : m.m_GetSessionMutex = false)
    (hvector : m.m_NetSessionVector = rest ++ [p]) :
    m.CreateNetSession = some ({ m with
      m_GetSessionMutex := false
      m_NetSessionVector := rest
      m_OnlineNetSessionVector :=
        Function.update m.m_OnlineNetSessionVector (m.GetSessionID p) (some p) }, some p) := by
  unfold CreateNetSession lock
  rw [if_neg (by simp [hlock])]
  dsimp only [Option.bind_eq_bind, Option.bind_some]
  rw [hvector, List.getLast?_concat, List.dropLast_concat]
  rfl

/-- The ids are what `SetSessionID` was given: an `INT32` keeps all of a
`UINT32`. -/
theorem GetSessionID_turn (m : CNetSessionMrg) (i : UInt32) (p : ℕ) :
    (InitConnectionList.turn m i).GetSessionID p
      = if p = m.created then i + 1 else m.GetSessionID p := by
  unfold InitConnectionList.turn SetSessionID GetSessionID
  dsimp only
  by_cases hp : p = m.created
  · rw [if_pos hp, hp, Function.update_self]
    rfl
  · rw [if_neg hp, Function.update_of_ne hp, Function.update_of_ne hp]

end Operations

/-! ## The table -/

/-- **The session table**: the vector and the values of the map partition the
sessions that have been created, whose ids are the numbers from 1 on. -/
structure Table (nMaxCons : UInt32) (m : CNetSessionMrg) : Prop where
  created_eq : m.created = nMaxCons.toNat
  /-- The ids are pairwise distinct. -/
  injective : ∀ p q, p < m.created → q < m.created → m.GetSessionID p = m.GetSessionID q → p = q
  /-- They are exactly those from 1 to `nMaxCons`. -/
  id_iff : ∀ dwConnID : UInt32, (∃ p < m.created, m.GetSessionID p = dwConnID)
    ↔ 1 ≤ dwConnID ∧ dwConnID ≤ nMaxCons
  nodup : m.m_NetSessionVector.Nodup
  /-- Every session is free or online. -/
  lt_iff : ∀ p, p < m.created
    ↔ p ∈ m.m_NetSessionVector ∨ ∃ dwConnID, m.m_OnlineNetSessionVector dwConnID = some p
  /-- None is both. -/
  disjoint : ∀ p ∈ m.m_NetSessionVector, ∀ dwConnID, m.m_OnlineNetSessionVector dwConnID ≠ some p
  /-- A key is the id of its session. -/
  key_eq : ∀ dwConnID p, m.m_OnlineNetSessionVector dwConnID = some p → m.GetSessionID p = dwConnID

/-- What the first `k` turns of the loop of `InitConnectionList` leave. -/
theorem foldl_turn (k : ℕ) :
    let m := (List.range k).foldl (fun m i => InitConnectionList.turn m (UInt32.ofNat i)) new
    m.created = k ∧ m.m_GetSessionMutex = false ∧ m.m_NetSessionVector = List.range k
      ∧ m.m_OnlineNetSessionVector = (fun _ => none)
      ∧ ∀ p < k, m.GetSessionID p = UInt32.ofNat (p + 1) := by
  induction k with
  | zero => exact ⟨rfl, rfl, rfl, rfl, fun p hp => absurd hp (Nat.not_lt_zero p)⟩
  | succ k ih =>
    rw [List.range_succ, List.foldl_concat]
    generalize (List.range k).foldl (fun m i => InitConnectionList.turn m (UInt32.ofNat i)) new
      = m at ih ⊢
    obtain ⟨hcreated, hlock, hvector, honline, hid⟩ := ih
    refine ⟨congrArg (· + 1) hcreated, hlock, ?_, honline, fun p hp => ?_⟩
    · show m.m_NetSessionVector ++ [m.created] = _
      rw [hvector, hcreated]
    · rw [GetSessionID_turn, hcreated]
      by_cases heq : p = k
      · rw [if_pos heq, heq, UInt32.ofNat_add]
        rfl
      · rw [if_neg heq]
        exact hid p (by omega)

/-- The manager after `InitConnectionList`: all sessions are free. -/
theorem init_spec (nMaxCons : UInt32) :
    (new.InitConnectionList nMaxCons).m_GetSessionMutex = false
      ∧ (new.InitConnectionList nMaxCons).m_NetSessionVector = List.range nMaxCons.toNat
      ∧ (new.InitConnectionList nMaxCons).m_OnlineNetSessionVector = fun _ => none := by
  obtain ⟨-, hlock, hvector, honline, -⟩ := foldl_turn nMaxCons.toNat
  exact ⟨hlock, hvector, honline⟩

/-- **The table after `InitConnectionList`.** -/
theorem table_init (nMaxCons : UInt32) : (new.InitConnectionList nMaxCons).Table nMaxCons := by
  obtain ⟨hcreated, -, hvector, honline, hid⟩ := foldl_turn nMaxCons.toNat
  unfold InitConnectionList
  generalize (List.range nMaxCons.toNat).foldl
    (fun m i => InitConnectionList.turn m (UInt32.ofNat i)) new = m at *
  have hlt := nMaxCons.toNat_lt
  -- no id wraps around
  have htoNat : ∀ p < m.created, (m.GetSessionID p).toNat = p + 1 := by
    intro p hp
    rw [hcreated] at hp
    rw [hid p hp, UInt32.toNat_ofNat', Nat.mod_eq_of_lt (by omega)]
  refine ⟨hcreated, fun p q hp hq heq => ?_, fun dwConnID => ?_, ?_, fun p => ?_, ?_, ?_⟩
  · have htoNat' := congrArg UInt32.toNat heq
    rw [htoNat p hp, htoNat q hq] at htoNat'
    omega
  · rw [UInt32.le_iff_toNat_le, UInt32.le_iff_toNat_le]
    constructor
    · rintro ⟨p, hp, rfl⟩
      rw [htoNat p hp]
      exact ⟨Nat.le_add_left 1 p, by omega⟩
    · rintro ⟨hpos, hle⟩
      have hone : (1 : UInt32).toNat = 1 := rfl
      refine ⟨dwConnID.toNat - 1, by omega, UInt32.toNat_inj.mp ?_⟩
      rw [htoNat _ (by omega)]
      omega
  · rw [hvector]
    exact List.nodup_range
  · rw [hvector, honline, hcreated]
    simp
  · rw [honline]
    simp
  · rw [honline]
    simp

/-- The id of a session that is free is not a key. -/
theorem Table.unused {nMaxCons : UInt32} {m : CNetSessionMrg} (hm : m.Table nMaxCons) {p : ℕ}
    (hp : p ∈ m.m_NetSessionVector) : m.m_OnlineNetSessionVector (m.GetSessionID p) = none := by
  refine Option.eq_none_iff_forall_ne_some.mpr fun q hq => ?_
  have hqp := hm.injective q p ((hm.lt_iff q).mpr (.inr ⟨_, hq⟩)) ((hm.lt_iff p).mpr (.inl hp))
    (hm.key_eq _ q hq)
  exact hm.disjoint p hp _ (hqp ▸ hq)

/-- **A call keeps the table.** -/
theorem Table.step {nMaxCons : UInt32} {m m' : CNetSessionMrg} {CNetSession_ : Option ℕ}
    (hm : m.Table nMaxCons) (h : m.CreateNetSession = some (m', CNetSession_)) :
    m'.Table nMaxCons := by
  obtain ⟨-, ⟨-, -, rfl⟩ | ⟨rest, p, hvector, -, rfl⟩⟩ := CreateNetSession_eq_some h
  · exact ⟨hm.created_eq, hm.injective, hm.id_iff, hm.nodup, hm.lt_iff, hm.disjoint, hm.key_eq⟩
  · have hunused := hm.unused (p := p) (by simp [hvector])
    have hlt_iff := hm.lt_iff
    have hdisjoint := hm.disjoint
    have hnodup := hm.nodup
    rw [hvector] at hlt_iff hdisjoint hnodup
    obtain ⟨hrest, -, hnotMem⟩ := List.nodup_append.mp hnodup
    refine ⟨hm.created_eq, hm.injective, hm.id_iff, hrest, fun q => ?_, ?_, ?_⟩
    · refine (hlt_iff q).trans ?_
      dsimp only
      rw [List.mem_append, List.mem_singleton]
      constructor
      · rintro ((hq | rfl) | ⟨dwConnID, hq⟩)
        · exact .inl hq
        · exact .inr ⟨_, Function.update_self _ _ _⟩
        · refine .inr ⟨dwConnID, ?_⟩
          rw [Function.update_of_ne]
          · exact hq
          · rintro rfl
            exact absurd (hunused.symm.trans hq) (Option.some_ne_none q).symm
      · rintro (hq | ⟨dwConnID, hq⟩)
        · exact .inl (.inl hq)
        · by_cases hkey : dwConnID = m.GetSessionID p
          · rw [hkey, Function.update_self] at hq
            exact .inl (.inr (Option.some.inj hq).symm)
          · rw [Function.update_of_ne hkey] at hq
            exact .inr ⟨dwConnID, hq⟩
    · intro q hq dwConnID hkey
      dsimp only at hq hkey
      by_cases hid : dwConnID = m.GetSessionID p
      · rw [hid, Function.update_self] at hkey
        exact hnotMem q hq p (by simp) (Option.some.inj hkey).symm
      · rw [Function.update_of_ne hid] at hkey
        exact hdisjoint q (by simp [hq]) dwConnID hkey
    · intro dwConnID q hkey
      show m.GetSessionID q = dwConnID
      dsimp only at hkey
      by_cases hid : dwConnID = m.GetSessionID p
      · rw [hid, Function.update_self] at hkey
        rw [hid, Option.some.inj hkey]
      · rw [Function.update_of_ne hid] at hkey
        exact hm.key_eq dwConnID q hkey

/-- **The lookup of an id that is not a key** gives nothing where the id is 0,
and is a call through a null pointer everywhere else. -/
theorem GetNetSessionByID_of_none {m : CNetSessionMrg} {dwConnID : UInt32}
    (h : m.m_OnlineNetSessionVector dwConnID = none) :
    m.GetNetSessionByID dwConnID = if 0 = dwConnID then .ok none else .error .null := by
  unfold GetNetSessionByID
  rw [h]

section Lookup

variable {nMaxCons : UInt32} {m : CNetSessionMrg} (hm : m.Table nMaxCons)
include hm

/-- No session has the id 0. -/
theorem Table.zero_eq_none : m.m_OnlineNetSessionVector 0 = none := by
  refine Option.eq_none_iff_forall_ne_some.mpr fun p hp => ?_
  have hlt := (hm.lt_iff p).mpr (.inr ⟨0, hp⟩)
  exact absurd ((hm.id_iff 0).mp ⟨p, hlt, hm.key_eq 0 p hp⟩).1 (by decide)

/-- **The lookup of a key** gives its session. -/
theorem Table.GetNetSessionByID_of_some {dwConnID : UInt32} {p : ℕ}
    (h : m.m_OnlineNetSessionVector dwConnID = some p) :
    m.GetNetSessionByID dwConnID = .ok (some p) := by
  have hzero : 0 ≠ dwConnID := by
    rintro rfl
    exact absurd (hm.zero_eq_none.symm.trans h) (Option.some_ne_none p).symm
  unfold GetNetSessionByID
  rw [if_neg hzero, h]
  dsimp only
  rw [if_neg (not_not.mpr (hm.key_eq dwConnID p h))]

/-- **A session that is handed out** was not online before. -/
theorem Table.notMem_of_create {m' : CNetSessionMrg} {p : ℕ}
    (h : m.CreateNetSession = some (m', some p)) (dwConnID : UInt32) :
    m.m_OnlineNetSessionVector dwConnID ≠ some p := by
  obtain ⟨-, ⟨-, hnone, -⟩ | ⟨rest, q, hvector, hq, -⟩⟩ := CreateNetSession_eq_some h
  · cases hnone
  · obtain rfl := Option.some.inj hq
    exact hm.disjoint p (by simp [hvector]) dwConnID

/-- The sessions that are online after a call are those that were, and the one
that it returns. -/
theorem Table.online_create {m' : CNetSessionMrg} {CNetSession_ : Option ℕ}
    (h : m.CreateNetSession = some (m', CNetSession_)) (q : ℕ) :
    (∃ dwConnID, m'.m_OnlineNetSessionVector dwConnID = some q)
      ↔ (∃ dwConnID, m.m_OnlineNetSessionVector dwConnID = some q) ∨ CNetSession_ = some q := by
  have hm' := hm.step h
  obtain ⟨-, ⟨-, rfl, rfl⟩ | ⟨rest, p, hvector, rfl, rfl⟩⟩ := CreateNetSession_eq_some h
  · simp
  · -- whoever is not free is online, before and after
    have hbefore := hm.lt_iff q
    have hafter := hm'.lt_iff q
    have hfree := hm'.disjoint q
    have hfree' := hm.disjoint q
    have hnodup := hm.nodup
    rw [hvector] at hbefore hfree' hnodup
    dsimp only at hbefore hafter hfree ⊢
    obtain ⟨-, -, hnotMem⟩ := List.nodup_append.mp hnodup
    rw [Option.some.injEq]
    constructor
    · rintro ⟨dwConnID, hq⟩
      rcases hbefore.mp (hafter.mpr (.inr ⟨dwConnID, hq⟩)) with hmem | honline
      · rcases List.mem_append.mp hmem with hrest | hlast
        · exact absurd hq (hfree hrest dwConnID)
        · exact .inr (List.mem_singleton.mp hlast).symm
      · exact .inl honline
    · rintro (⟨dwConnID, hq⟩ | rfl)
      · rcases hafter.mp (hbefore.mpr (.inr ⟨dwConnID, hq⟩)) with hmem | honline
        · exact absurd hq (hfree' (List.mem_append_left _ hmem) dwConnID)
        · exact honline
      · exact ⟨m.GetSessionID p, Function.update_self _ _ _⟩

end Lookup

/-! ## Runs -/

/-- What a run of calls keeps: the table, and that the sessions that are online
are those that have been returned, each of them once. -/
theorem creates_history {nMaxCons : UInt32} {cs : List Unit} {outs : List (Option ℕ)}
    {m : CNetSessionMrg} (hr : Run Creates (new.InitConnectionList nMaxCons) cs outs m) :
    m.Table nMaxCons ∧ (outs.filterMap id).Nodup
      ∧ ∀ p, p ∈ outs.filterMap id ↔ ∃ dwConnID, m.m_OnlineNetSessionVector dwConnID = some p := by
  refine Run.invariant_history (fun _ outs m => m.Table nMaxCons ∧ (outs.filterMap id).Nodup
    ∧ ∀ p, p ∈ outs.filterMap id ↔ ∃ dwConnID, m.m_OnlineNetSessionVector dwConnID = some p)
    ?_ ?_ hr
  · rintro cs outs m c _ m' ⟨hm, hnodup, hmem⟩ ⟨r, h, rfl⟩
    have honline := hm.online_create h
    rw [List.filterMap_append]
    refine ⟨hm.step h, ?_, fun p => ?_⟩
    · cases r with
      | none => simpa using hnodup
      | some p =>
        refine List.nodup_append.mpr ⟨hnodup, by simp, ?_⟩
        rintro q hq _ hp rfl
        obtain rfl := List.mem_singleton.mp hp
        obtain ⟨dwConnID, hkey⟩ := (hmem q).mp hq
        exact hm.notMem_of_create h dwConnID hkey
    · rw [List.mem_append, hmem, honline p]
      cases r <;> simp [eq_comm]
  · obtain ⟨-, -, honline⟩ := init_spec nMaxCons
    exact ⟨table_init nMaxCons, List.nodup_nil, by simp [honline]⟩

/-- **The session table along every run**: the vector and the map partition the
sessions, no session is returned twice, and the lookup of the id of a session that
has been returned gives this session. Ids are numbered from the place of a
session, so what has to be kept is that a session is in one of the two and never
in both. -/
theorem table_of_run {nMaxCons : UInt32} {cs : List Unit} {outs : List (Option ℕ)}
    {m : CNetSessionMrg} (hr : Run Creates (new.InitConnectionList nMaxCons) cs outs m) :
    m.Table nMaxCons ∧ (outs.filterMap id).Nodup
      ∧ ∀ p ∈ outs.filterMap id, m.GetNetSessionByID (m.GetSessionID p) = .ok (some p) := by
  obtain ⟨hm, hnodup, hmem⟩ := creates_history hr
  refine ⟨hm, hnodup, fun p hp => ?_⟩
  obtain ⟨dwConnID, hkey⟩ := (hmem p).mp hp
  rw [hm.key_eq dwConnID p hkey]
  exact hm.GetNetSessionByID_of_some hkey

/-- With two sessions, the second and then the first is handed out, and then
none. -/
theorem table_of_run_two : ∃ m,
    Run Creates (new.InitConnectionList 2) [(), (), ()] [some 1, some 0, none] m
      ∧ m.Table 2 ∧ m.GetNetSessionByID 2 = .ok (some 1) := by
  have hr : Run Creates (new.InitConnectionList 2) [(), (), ()] [some 1, some 0, none] _ :=
    .cons (Creates.of_eq rfl) (.cons (Creates.of_eq rfl) (.single (Creates.of_eq rfl)))
  exact ⟨_, hr, (table_of_run hr).1, (table_of_run hr).2.2 1 (by decide)⟩

end CNetSessionMrg
