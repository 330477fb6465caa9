import AllServer.PoolInvariant
import Mathlib.Data.Set.Card

/-!
# The pool and its holders

A holder knows a buffer by the call of `AllocDataBuff` that handed it out, and a
pool by its address; with pooling an address comes back, and without it the
memory decides whether it does. So what the holders do is said here of handles,
which are the positions of the buffers in the order in which they were handed
out, and a handle is good as long as its buffer has not been handed out again
(`current`).

What can be observed of a handle – the reference count, how much is in use, the
size – then depends on what the holders have done and on nothing else
(`Holders.abs_eq_foldl`), and in particular not on whether there is pooling.
-/

/-! ## Handles -/

section Handles

variable {α : Type*} [DecidableEq α] {hs : List α} {a b : α} {j k : ℕ}

/-- **What the `k`-th handle stands for**: what was handed out then, unless it
has been handed out again since. -/
def current (hs : List α) (k : ℕ) : Option α :=
  hs[k]?.filter (fun a => a ∉ hs.drop (k + 1))

theorem current_eq_some : current hs k = some a ↔ hs[k]? = some a ∧ a ∉ hs.drop (k + 1) := by
  rw [current, Option.filter_eq_some_iff, decide_eq_true_eq]

omit [DecidableEq α] in
/-- What is handed out later is behind. -/
theorem mem_drop_of_lt (hk : hs[k]? = some a) (hjk : j < k) : a ∈ hs.drop (j + 1) := by
  have hdrop : (hs.drop (j + 1))[k - (j + 1)]? = some a := by
    rw [List.getElem?_drop, Nat.add_sub_cancel' hjk, hk]
  exact List.mem_of_getElem? hdrop

/-- No two handles stand for the same. -/
theorem current_inj (hj : current hs j = some a) (hk : current hs k = some a) : j = k := by
  obtain ⟨hj, hj'⟩ := current_eq_some.mp hj
  obtain ⟨hk, hk'⟩ := current_eq_some.mp hk
  rcases Nat.lt_trichotomy j k with hlt | heq | hlt
  · exact absurd (mem_drop_of_lt hk hlt) hj'
  · exact heq
  · exact absurd (mem_drop_of_lt hj hlt) hk'

theorem mem_of_current (h : current hs k = some a) : a ∈ hs :=
  List.mem_of_getElem? (current_eq_some.mp h).1

theorem current_length : current hs hs.length = none := by
  rw [current, List.getElem?_eq_none le_rfl, Option.filter_none]

/-- The new handle. -/
theorem current_concat_self : current (hs ++ [a]) hs.length = some a := by
  rw [current_eq_some, List.getElem?_concat_length, List.drop_eq_nil_of_le (by simp)]
  exact ⟨rfl, List.not_mem_nil⟩

/-- The handles there were. -/
theorem current_concat_of_ne (h : k ≠ hs.length) :
    current (hs ++ [a]) k = (current hs k).filter (fun b => b ≠ a) := by
  rcases Nat.lt_or_gt_of_ne h with hlt | hlt
  · have hdrop : (hs ++ [a]).drop (k + 1) = hs.drop (k + 1) ++ [a] :=
      List.drop_append_of_le_length hlt
    ext b
    rw [current_eq_some, Option.filter_eq_some_iff, current_eq_some, hdrop,
      List.getElem?_append_left hlt, List.mem_append, List.mem_singleton, decide_eq_true_eq]
    tauto
  · have hold : hs[k]? = none := List.getElem?_eq_none hlt.le
    have hnew : (hs ++ [a])[k]? = none := List.getElem?_eq_none (by simpa using hlt)
    rw [current, current, hold, hnew]
    rfl

/-- What was handed out has a handle that stands for it. -/
theorem exists_current (h : a ∈ hs) : ∃ k, current hs k = some a := by
  induction hs using List.reverseRecOn with
  | nil => exact absurd h List.not_mem_nil
  | append_singleton hs b ih =>
    by_cases hab : a = b
    · exact ⟨hs.length, hab ▸ current_concat_self⟩
    · obtain ⟨k, hk⟩ := ih ((List.mem_append.mp h).resolve_right (by simpa using hab))
      have hne : k ≠ hs.length := fun heq =>
        Option.some_ne_none a (hk.symm.trans (heq ▸ current_length))
      refine ⟨k, ?_⟩
      rw [current_concat_of_ne hne, hk, Option.filter_some, if_pos (decide_eq_true hab)]

end Handles

/-- What can be observed of a buffer. -/
@[ext] structure BufferView where
  m_dwRefCount : ℤ
  m_nDataLen : ℕ
  m_nBufSize : ℕ

/-- What a holder does. -/
inductive HandleOp where
  | AllocDataBuff
  /-- The use of the buffer that the `k`-th call handed out. -/
  | use (k : ℕ) (u : BufferUse)

/-- A pool, and what it has handed out. -/
structure Holders (SIZE : ℕ) where
  pool : BufferPool SIZE
  handles : List ℕ

/-- **What the holders see**: how many buffers have been handed out, and those of
them that they hold. -/
@[ext] structure HandleView where
  next : ℕ
  view : ℕ → Option BufferView

/-- The use of a buffer, as it is seen. -/
def BufferUse.see (v : BufferView) : BufferUse → Option BufferView
  | AddRef => some { v with m_dwRefCount := v.m_dwRefCount + 1 }
  | Release => if v.m_dwRefCount = 1 then none
      else some { v with m_dwRefCount := v.m_dwRefCount - 1 }
  | write b => some { v with m_nDataLen := b.m_nDataLen }

/-- **Reference-counted allocation, as it is seen.** -/
def HandleView.step (SIZE : ℕ) (a : HandleView) : HandleOp → HandleView
  | .AllocDataBuff => ⟨a.next + 1, Function.update a.view a.next (some ⟨1, 0, SIZE⟩)⟩
  | .use k u => ⟨a.next, Function.update a.view k ((a.view k).bind u.see)⟩

/-- **The number of buffers that a pool counts** is that of the buffers that are
held. -/
theorem BufferPool.Ok.m_dwBufferCount_eq_ncard {SIZE : ℕ} {m : BufferPool SIZE}
    {used free : List ℕ} (hm : m.Ok used free) :
    m.m_dwBufferCount = {p | (m.live p).isSome = true}.ncard := by
  have hset : {p | (m.live p).isSome = true} = (used.toFinset : Set ℕ) := by
    ext p
    rw [Set.mem_ofPred_eq, hm.isSome_live, Finset.mem_coe, List.mem_toFinset]
  rw [hset, Set.ncard_coe_finset, List.toFinset_card_of_nodup hm.lists.used_isList.nodup,
    hm.m_dwBufferCount_eq]

namespace Holders

variable {SIZE : ℕ}

/-- No buffer has been handed out. -/
def new (SIZE : ℕ) (m_EnablePool : Bool) : Holders SIZE := ⟨.new SIZE m_EnablePool, []⟩

/-- **The steps of the holders of buffers**, who use the buffers that their
handles stand for. -/
inductive Step : Machine (Holders SIZE) HandleOp PoolEvent
  | AllocDataBuff {s : Holders SIZE} {m' : BufferPool SIZE} {p : ℕ} {os : List PoolEvent}
      (pNew : ℕ) (fresh : ℕ → UInt8)
      (h : BufferPool.BoundedStep s.pool (.AllocDataBuff pNew fresh) os m')
      (hp : os.filterMap PoolEvent.handedOut? = [p]) :
      Step s .AllocDataBuff os ⟨m', s.handles ++ [p]⟩
  | use {s : Holders SIZE} {m' : BufferPool SIZE} {k p : ℕ} {u : BufferUse}
      (hk : current s.handles k = some p) (h : BufferPool.BoundedStep s.pool (.use p u) [] m') :
      Step s (.use k u) [] ⟨m', s.handles⟩

/-- What can be observed of a handle. -/
def observe (s : Holders SIZE) (k : ℕ) : Option BufferView :=
  (current s.handles k).bind (fun p => (s.pool.live p).map
    (fun bc => ⟨bc.2, bc.1.m_nDataLen, bc.1.m_nBufSize⟩))

/-- What the holders see. -/
def abs (s : Holders SIZE) : HandleView := ⟨s.handles.length, s.observe⟩

variable {s s' : Holders SIZE}

/-- What every step of the holders preserves: what is held has been handed out. -/
structure Ok (s : Holders SIZE) : Prop where
  exists_lists : ∃ used free, s.pool.Ok used free
  mem_handles : ∀ p, (s.pool.live p).isSome = true → p ∈ s.handles

theorem Ok.new (pool : Bool) : (new SIZE pool).Ok where
  exists_lists := ⟨[], [], .new pool⟩
  mem_handles p hp := by simp [Holders.new, BufferPool.live, BufferPool.new, BufferHeap.data] at hp

/-- The use of a buffer is seen as it is. -/
theorem map_effect {u : BufferUse} {b : CDataBuffer} (hb : b.m_nBufSize = SIZE) (hu : u.Fits SIZE)
    (c : ℤ) :
    (u.effect b c).map (fun bc => (⟨bc.2, bc.1.m_nDataLen, bc.1.m_nBufSize⟩ : BufferView))
      = u.see ⟨c, b.m_nDataLen, b.m_nBufSize⟩ := by
  cases u with
  | AddRef => rfl
  | Release =>
    unfold BufferUse.effect BufferUse.see
    split_ifs <;> rfl
  | write b' =>
    have hb' : b'.m_nBufSize = b.m_nBufSize := Eq.trans hu hb.symm
    simp only [BufferUse.effect, BufferUse.see, Option.map_some, hb']

/-- What can be observed of the other handles when a buffer has been written. -/
theorem observe_of_ne {m' : BufferPool SIZE} {p k : ℕ} {v : Option (CDataBuffer × ℤ)}
    (hlive : m'.live = Function.update s.pool.live p v) (hk : current s.handles k ≠ some p) :
    observe ⟨m', s.handles⟩ k = s.observe k := by
  unfold observe
  cases hq : current s.handles k with
  | none => rfl
  | some q =>
    have hqp : q ≠ p := fun heq => hk (heq ▸ hq)
    rw [Option.bind_some, Option.bind_some, hlive, Function.update_of_ne hqp]

/-- What can be observed of the other handles when a buffer has been handed out. -/
theorem observe_concat {m' : BufferPool SIZE} {p k : ℕ} {v : Option (CDataBuffer × ℤ)}
    (hp : s.pool.live p = none) (hlive : m'.live = Function.update s.pool.live p v)
    (hk : k ≠ s.handles.length) :
    observe ⟨m', s.handles ++ [p]⟩ k = s.observe k := by
  unfold observe
  rw [current_concat_of_ne hk]
  cases hq : current s.handles k with
  | none => rfl
  | some q =>
    by_cases hqp : q = p
    · -- the buffer is handed out again, and this handle was no good
      subst hqp
      rw [Option.filter_some, if_neg (by simp), Option.bind_some, hp]
      rfl
    · rw [Option.filter_some, if_pos (decide_eq_true hqp), Option.bind_some, Option.bind_some,
        hlive, Function.update_of_ne hqp]

/-- **What the holders see of a step** is decided by what they do. -/
theorem Ok.step (hs : s.Ok) {op : HandleOp} {os : List PoolEvent} (hst : Step s op os s') :
    s'.Ok ∧ s'.abs = s.abs.step SIZE op := by
  obtain ⟨used, free, hm⟩ := hs.exists_lists
  cases hst with
  | @AllocDataBuff _ m' p os pNew fresh h hp =>
    obtain ⟨used', free', hm', hstep, -⟩ := hm.step h.1 h.2
    rw [hp] at hstep
    obtain ⟨q, b, hq, hnone, hb, hlen, hlive⟩ := hstep.AllocDataBuff_cases
    obtain rfl := List.singleton_inj.mp hq
    refine ⟨⟨⟨used', free', hm'⟩, fun q hq => ?_⟩, HandleView.ext ?_ ?_⟩
    · by_cases hqp : q = p
      · exact List.mem_append_right s.handles (List.mem_singleton.mpr hqp)
      · rw [hlive, Function.update_of_ne hqp] at hq
        exact List.mem_append_left [p] (hs.mem_handles q hq)
    · exact List.length_append
    · funext k
      by_cases hk : k = s.handles.length
      · -- the new handle
        subst hk
        show observe ⟨m', s.handles ++ [p]⟩ s.handles.length
          = Function.update s.abs.view s.handles.length _ s.handles.length
        rw [Function.update_self, observe]
        dsimp only
        rw [current_concat_self, Option.bind_some, hlive, Function.update_self, Option.map_some, hb,
          hlen]
      · -- an earlier one, which may have been of the same buffer
        show observe ⟨m', s.handles ++ [p]⟩ k = Function.update s.abs.view s.handles.length _ k
        rw [Function.update_of_ne hk]
        exact observe_concat hnone hlive hk
  | @use _ m' k p u hk h =>
    obtain ⟨used', free', hm', hstep, -⟩ := hm.step h.1 h.2
    obtain ⟨b, c, hp, hu, hlive⟩ := hstep.use_cases
    obtain ⟨-, -, hb, -⟩ := hm.used_data_of_live hp
    refine ⟨⟨⟨used', free', hm'⟩, fun q hq => ?_⟩, HandleView.ext rfl ?_⟩
    · by_cases hqp : q = p
      · exact hqp ▸ mem_of_current hk
      · rw [hlive, Function.update_of_ne hqp] at hq
        exact hs.mem_handles q hq
    · funext j
      by_cases hjk : j = k
      · subst hjk
        have hsee : s.observe j = some ⟨c, b.m_nDataLen, b.m_nBufSize⟩ := by
          rw [observe, hk, Option.bind_some, hp, Option.map_some]
        have hview : s.abs.view j = s.observe j := rfl
        show observe ⟨m', s.handles⟩ j = Function.update s.abs.view j _ j
        rw [Function.update_self, hview, hsee, Option.bind_some, ← map_effect hb hu, observe]
        dsimp only
        rw [hk, Option.bind_some, hlive, Function.update_self]
      · -- no other handle is of this buffer
        show observe ⟨m', s.handles⟩ j = Function.update s.abs.view k _ j
        rw [Function.update_of_ne hjk]
        exact observe_of_ne hlive fun hj => hjk (current_inj hj hk)

/-- **What the holders see of a run** is decided by what they do. -/
theorem Ok.run (hs : s.Ok) {es : List HandleOp} {os : List PoolEvent} (hr : Run Step s es os s') :
    s'.Ok ∧ s'.abs = es.foldl (HandleView.step SIZE) s.abs := by
  induction hr with
  | nil s => exact ⟨hs, rfl⟩
  | cons hst _ ih =>
    obtain ⟨hs₁, habs⟩ := hs.step hst
    obtain ⟨hs₂, hfold⟩ := ih hs₁
    exact ⟨hs₂, by rw [List.foldl_cons, ← habs, hfold]⟩

/-- **The number of buffers that a pool counts** is that of the handles that are
held. -/
theorem Ok.m_dwBufferCount_eq (hs : s.Ok) :
    s.pool.m_dwBufferCount = {k | (s.observe k).isSome = true}.ncard := by
  obtain ⟨used, free, hm⟩ := hs.exists_lists
  have hsome : ∀ k, (s.observe k).isSome = true
      ↔ ∃ p, current s.handles k = some p ∧ (s.pool.live p).isSome = true := fun k => by
    rw [observe]
    cases current s.handles k <;> simp
  rw [hm.m_dwBufferCount_eq_ncard]
  symm
  refine Set.ncard_congr (fun k _ => (current s.handles k).getD 0) (fun k hk => ?_)
    (fun j k hj hk hjk => ?_) fun p hp => ?_
  · obtain ⟨p, hkp, hp⟩ := (hsome k).mp hk
    rwa [hkp, Option.getD_some]
  · obtain ⟨p, hjp, -⟩ := (hsome j).mp hj
    obtain ⟨q, hkq, -⟩ := (hsome k).mp hk
    rw [hjp, hkq, Option.getD_some, Option.getD_some] at hjk
    exact current_inj hjp (hjk ▸ hkq)
  · obtain ⟨k, hk⟩ := exists_current (hs.mem_handles p hp)
    exact ⟨k, (hsome k).mpr ⟨p, hk, hp⟩, by rw [hk, Option.getD_some]⟩

end Holders

/-! ## The pool and reference-counted allocation -/

/-- **A pool whose counters stay within their types is reference-counted
allocation**, with pooling and without: what is handed out is not held and has
nothing in use, the use of a buffer is seen in that buffer alone, a buffer is
held up to the release of its last reference, and the pool counts the buffers
that are held. So what the holders see of two runs in which they do the same is
the same, whether there is pooling or not. -/
theorem BufferPool.refines_refCounted {SIZE : ℕ} :
    (∀ (pool : Bool) (es : List PoolOp) (os : List PoolEvent) (m : BufferPool SIZE),
      Run BoundedStep (new SIZE pool) es os m →
        Run (RefCounted.Step SIZE) (fun _ => none) es (os.filterMap PoolEvent.handedOut?) m.live
        ∧ m.m_dwBufferCount = {p | (m.live p).isSome = true}.ncard)
    ∧ ∀ (es : List HandleOp) (os os' : List PoolEvent) (s s' : Holders SIZE),
      Run Holders.Step (Holders.new SIZE true) es os s →
      Run Holders.Step (Holders.new SIZE false) es os' s' →
        s.observe = s'.observe ∧ s.pool.m_dwBufferCount = s'.pool.m_dwBufferCount := by
  constructor
  · intro pool es os m hr
    obtain ⟨used, free, hm, hrun, -⟩ := (Ok.new pool).run hr
    exact ⟨hrun, hm.m_dwBufferCount_eq_ncard⟩
  · intro es os os' s s' hr hr'
    obtain ⟨hs, habs⟩ := (Holders.Ok.new true).run hr
    obtain ⟨hs', habs'⟩ := (Holders.Ok.new false).run hr'
    have hobserve : s.observe = s'.observe := congrArg HandleView.view (habs.trans habs'.symm)
    refine ⟨hobserve, ?_⟩
    rw [hs.m_dwBufferCount_eq, hs'.m_dwBufferCount_eq, hobserve]

/-- A buffer that is released and handed out again where there is pooling, and
created again where there is none. -/
theorem BufferPool.refines_refCounted_reuse :
    (∃ os m, Run BoundedStep (new 64 true)
        [.AllocDataBuff 0 (fun _ => 0), .use 0 .Release, .AllocDataBuff 1 (fun _ => 0)] os m
      ∧ Run (RefCounted.Step 64) (fun _ => none)
        [.AllocDataBuff 0 (fun _ => 0), .use 0 .Release, .AllocDataBuff 1 (fun _ => 0)]
        (os.filterMap PoolEvent.handedOut?) m.live
      ∧ m.m_dwBufferCount = {p | (m.live p).isSome = true}.ncard)
    ∧ ∃ os os' s s',
      Run Holders.Step (Holders.new 64 true)
        [.AllocDataBuff, .use 0 .Release, .AllocDataBuff, .use 1 .Release] os s
      ∧ Run Holders.Step (Holders.new 64 false)
        [.AllocDataBuff, .use 0 .Release, .AllocDataBuff, .use 1 .Release] os' s'
      ∧ s.observe = s'.observe ∧ s.pool.m_dwBufferCount = s'.pool.m_dwBufferCount := by
  constructor
  · have hr : Run BoundedStep (new 64 true)
        [.AllocDataBuff 0 (fun _ => 0), .use 0 .Release, .AllocDataBuff 1 (fun _ => 0)] _ _ :=
      .cons ⟨.AllocDataBuff rfl rfl, Nat.le_of_ble_eq_true rfl⟩ <|
      .cons ⟨.use rfl trivial rfl, trivial⟩ <|
      .cons ⟨.AllocDataBuff rfl rfl, Nat.le_of_ble_eq_true rfl⟩ (.nil _)
    exact ⟨_, _, hr, refines_refCounted.1 true _ _ _ hr⟩
  · have hr : ∀ pool, ∃ os s, Run Holders.Step (Holders.new 64 pool)
        [.AllocDataBuff, .use 0 .Release, .AllocDataBuff, .use 1 .Release] os s := by
      intro pool
      let zeros : ℕ → UInt8 := fun _ => 0
      cases pool <;> exact ⟨_, _,
        .cons (.AllocDataBuff 0 zeros ⟨.AllocDataBuff rfl rfl, Nat.le_of_ble_eq_true rfl⟩ rfl) <|
        .cons (.use rfl ⟨.use rfl trivial rfl, trivial⟩) <|
        .cons (.AllocDataBuff 1 zeros ⟨.AllocDataBuff rfl rfl, by
          show (_ : ℕ) < 2 ^ 32
          decide +kernel⟩ rfl) <|
        .cons (.use rfl ⟨.use rfl trivial rfl, trivial⟩) (.nil _)⟩
    obtain ⟨os, s, hon⟩ := hr true
    obtain ⟨os', s', hoff⟩ := hr false
    exact ⟨os, os', s, s', hon, hoff, refines_refCounted.2 _ _ _ _ _ hon hoff⟩

/-- **A counter that wraps around.** The buffer to which a reference too many has
been added is counted and not held, and buffers that are held are not counted
once there are as many as a `UINT32` can count. -/
theorem BufferPool.not_refines_refCounted :
    (∃ os m, Run Step (new 64 true)
        (.AllocDataBuff 0 (fun _ => 0) :: List.replicate (2 ^ 31 - 1) (.use 0 .AddRef)) os m
      ∧ m.m_dwBufferCount ≠ {p | (m.live p).isSome = true}.ncard)
    ∧ ∃ os m, Run Step (new 64 true)
        ((List.range (2 ^ 32)).map (.AllocDataBuff · (fun _ => 0))) os m
      ∧ m.m_dwBufferCount ≠ {p | (m.live p).isSome = true}.ncard := by
  constructor
  · obtain ⟨os, m, b, hr, hshape, hdata, hcount⟩ :=
      exists_run_AddRef_overflow 64 true (fun _ => 0)
    refine ⟨os, m, hr, ?_⟩
    have hlive : {p | (m.live p).isSome = true} = ∅ := by
      refine Set.eq_empty_of_forall_notMem fun p hp => ?_
      obtain rfl := List.mem_singleton.mp (hshape.mem_of_live hp)
      obtain ⟨⟨b', c⟩, hbc⟩ := Option.isSome_iff_exists.mp hp
      obtain ⟨hdata', hc⟩ := live_eq_some.mp hbc
      obtain ⟨-, rfl⟩ := Prod.mk.inj (Option.some.inj (hdata.symm.trans hdata'))
      exact absurd hc (by decide)
    rw [hcount, hlive, Set.ncard_empty]
    exact one_ne_zero
  · obtain ⟨os, m, hr, hshape, hlive, hcount⟩ :=
      exists_run_AllocDataBuff 64 true (fun _ => 0) (2 ^ 32)
    refine ⟨os, m, hr, fun heq => ?_⟩
    rw [hcount, Nat.mod_self] at heq
    generalize (List.range (2 ^ 32)).reverse = used at hshape
    have hfinite : {p | (m.live p).isSome = true}.Finite :=
      (List.finite_toSet _).subset fun _ hp => hshape.mem_of_live hp
    have hempty := (Set.ncard_eq_zero hfinite).mp heq.symm
    have hmem : 0 ∈ {p | (m.live p).isSome = true} := hlive 0 (by decide)
    rw [hempty] at hmem
    exact hmem
