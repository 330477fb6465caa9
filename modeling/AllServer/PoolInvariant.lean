import AllServer.BufferPool

/-!
# The buffer pool along its runs

A pool is run by `AllocDataBuff`, `AddRef` and `Release`, and by the holders of
its buffers, who write what they like into them. A buffer is held as long as
its reference count is positive (`BufferPool.live`), and only a buffer that is
held is used.

`BufferPool.Ok` is what every such step preserves: the shape of the two lists,
with references on every buffer of the one and nothing in use in any buffer of
the other. `BufferPool.lists_of_run` reads it off the pointers. It takes the
counters to stay within their types, and `BufferPool.not_lists_of_run` says
what happens when one does not: nothing in the code stops a reference count
that is an `INT32` or a number of buffers that is a `UINT32` from wrapping
around.
-/

/-- What is done with a buffer. -/
inductive BufferUse where
  | AddRef
  | Release
  /-- The holder of the buffer writes into it. -/
  | write (b : CDataBuffer)

/-- What is done with a pool and its buffers. -/
inductive PoolOp where
  /-- `AllocDataBuff`. A buffer that is created is put at `pNew`, where the
  memory holds the bytes `fresh`. -/
  | AllocDataBuff (pNew : ℕ) (fresh : ℕ → UInt8)
  | use (p : ℕ) (u : BufferUse)

/-- What is seen of an allocation. -/
inductive PoolEvent where
  | created (p : ℕ)
  | handedOut (p : ℕ)

namespace PoolEvent

/-- The buffer that was created. -/
def created? : PoolEvent → Option ℕ
  | created p => some p
  | handedOut _ => none

/-- The buffer that was handed out. -/
def handedOut? : PoolEvent → Option ℕ
  | created _ => none
  | handedOut p => some p

end PoolEvent

/-! ## Reference-counted allocation

What a pool is for: the buffers that are held, each with a count. -/

namespace BufferUse

/-- A holder leaves the size of a buffer as it is. -/
def Fits (SIZE : ℕ) : BufferUse → Prop
  | write b => b.m_nBufSize = SIZE
  | _ => True

/-- What becomes of a buffer with `c` references. -/
def effect (b : CDataBuffer) (c : ℤ) : BufferUse → Option (CDataBuffer × ℤ)
  | AddRef => some (b, c + 1)
  | Release => if c = 1 then none else some (b, c - 1)
  | write b' => some (b', c)

end BufferUse

/-- **The steps of reference-counted allocation**, on the buffers that are held.
What is handed out is a buffer that is not held and in which nothing is in use,
and the use of a buffer is seen in that buffer. -/
inductive RefCounted.Step (SIZE : ℕ) : Machine (ℕ → Option (CDataBuffer × ℤ)) PoolOp ℕ
  | AllocDataBuff {held : ℕ → Option (CDataBuffer × ℤ)} {pNew p : ℕ} {fresh : ℕ → UInt8}
      {b : CDataBuffer} (hp : held p = none) (hb : b.m_nBufSize = SIZE) (hlen : b.m_nDataLen = 0) :
      Step SIZE held (.AllocDataBuff pNew fresh) [p] (Function.update held p (some (b, 1)))
  | use {held : ℕ → Option (CDataBuffer × ℤ)} {p : ℕ} {u : BufferUse} {b : CDataBuffer} {c : ℤ}
      (hp : held p = some (b, c)) (hu : u.Fits SIZE) :
      Step SIZE held (.use p u) [] (Function.update held p (u.effect b c))

namespace RefCounted.Step

variable {SIZE p : ℕ} {held held' : ℕ → Option (CDataBuffer × ℤ)} {os : List ℕ}

theorem AllocDataBuff_cases {pNew : ℕ} {fresh : ℕ → UInt8}
    (h : RefCounted.Step SIZE held (.AllocDataBuff pNew fresh) os held') :
    ∃ p b, os = [p] ∧ held p = none ∧ b.m_nBufSize = SIZE ∧ b.m_nDataLen = 0
      ∧ held' = Function.update held p (some (b, 1)) := by
  cases h with
  | AllocDataBuff hp hb hlen => exact ⟨_, _, rfl, hp, hb, hlen, rfl⟩

theorem use_cases {u : BufferUse} (h : RefCounted.Step SIZE held (.use p u) os held') :
    ∃ b c, held p = some (b, c) ∧ u.Fits SIZE
      ∧ held' = Function.update held p (u.effect b c) := by
  cases h with
  | use hp hu => exact ⟨_, _, hp, hu, rfl⟩

end RefCounted.Step

/-! ## The pool as a machine -/

/-- **What following `m_pNext` from a pointer finds**, up to the end. -/
def BufferHeap.Follows (heap : BufferHeap) : Option ℕ → List ℕ → Prop
  | p, [] => p = none
  | p, x :: xs => p = some x ∧ ∃ n, heap x = some n ∧ heap.Follows n.m_pNext xs

/-- **A doubly linked list from its first node on**: no node comes twice, the
first one has none in front of it, and the node behind a node is linked back to
it. -/
structure BufferHeap.IsList (heap : BufferHeap) (head : Option ℕ) (xs : List ℕ) : Prop where
  follows : heap.Follows head xs
  nodup : xs.Nodup
  m_pPrev_head : ∀ p n, head = some p → heap p = some n → n.m_pPrev = none
  m_pPrev_next : ∀ p n q, p ∈ xs → heap p = some n → n.m_pNext = some q →
    q ∈ xs ∧ ∃ k, heap q = some k ∧ k.m_pPrev = some p

namespace BufferHeap

variable {heap : BufferHeap} {p : Option ℕ} {xs : List ℕ}

/-- From any node of a list on, following it finds the rest. -/
theorem follows_of_chain {l : List ℕ} (h : Chain heap.links (l ++ xs)) :
    heap.Follows xs.head? xs := by
  induction xs generalizing l with
  | nil => rfl
  | cons x xs ih =>
    obtain ⟨n, hn, -, hnext⟩ := exists_of_links h.eq_some
    rw [List.append_cons] at h
    exact ⟨rfl, n, hn, hnext ▸ ih h⟩

theorem isList_of_chain (h : Chain heap.links xs) (hxs : xs.Nodup) (hp : p = xs.head?) :
    heap.IsList p xs where
  follows := hp ▸ follows_of_chain (l := []) h
  nodup := hxs
  m_pPrev_head q n hq hn := by
    have hlink : heap.links q = some n.link := by rw [links, hn, Option.map_some]
    exact h.prev_head (hp.symm.trans hq) hlink
  m_pPrev_next q n r hq hn hr := by
    have hlink : heap.links q = some n.link := by rw [links, hn, Option.map_some]
    obtain ⟨hmem, k, hk, hprev⟩ := h.prev_next hq hlink hr
    obtain ⟨n', hn', hprev', -⟩ := exists_of_links hk
    exact ⟨hmem, n', hn', hprev'.trans hprev⟩

end BufferHeap

namespace BufferPool

section Machine

variable {SIZE : ℕ}

/-- **The buffers that are held**, each with its reference count. -/
def live (m : BufferPool SIZE) (p : ℕ) : Option (CDataBuffer × ℤ) :=
  (m.heap.data p).filter (0 < ·.2)

/-- The holder of a buffer writes into it. -/
def write (m : BufferPool SIZE) (p : ℕ) (b : CDataBuffer) : Except Fault (BufferPool SIZE) := do
  let heap ← m.heap.store p ({ · with toCDataBuffer := b })
  return { m with heap }

/-- What is done with a buffer, by the code. -/
def use (m : BufferPool SIZE) (p : ℕ) : BufferUse → Except Fault (BufferPool SIZE)
  | .AddRef => m.AddRef p
  | .Release => m.Release p
  | .write b => m.write p b

/-- **The steps of a pool.** A buffer is created where there is none, and only a
buffer that is held is used. -/
inductive Step : Machine (BufferPool SIZE) PoolOp PoolEvent
  | AllocDataBuff {m m' : BufferPool SIZE} {pNew p : ℕ} {fresh : ℕ → UInt8}
      (hnew : m.heap pNew = none) (h : m.AllocDataBuff pNew fresh = .ok (m', some p)) :
      Step m (.AllocDataBuff pNew fresh)
        ((if m.m_pFreeList = none then [.created p] else []) ++ [.handedOut p]) m'
  | use {m m' : BufferPool SIZE} {p : ℕ} {u : BufferUse} (hp : (m.live p).isSome = true)
      (hu : u.Fits SIZE) (h : m.use p u = .ok m') : Step m (.use p u) [] m'

/-- **The counters stay within their types**: no reference is added to a buffer
that has as many as an `INT32` can count, and no buffer is handed out when there
are as many as a `UINT32` can count. -/
def Bounded (m : BufferPool SIZE) : PoolOp → Prop
  | .AllocDataBuff _ _ => m.m_dwBufferCount + 1 < 2 ^ 32
  | .use p .AddRef => ∀ b c, m.live p = some (b, c) → c + 1 < 2 ^ 31
  | .use _ _ => True

/-- **A call that may be made**: new memory is where no buffer is, and only a buffer that is held
is used, within its size. -/
def Legal (m : BufferPool SIZE) : PoolOp → Prop
  | .AllocDataBuff pNew _ => m.heap pNew = none
  | .use p u => (m.live p).isSome = true ∧ u.Fits SIZE

/-- The steps of a pool whose counters stay within their types. -/
abbrev BoundedStep : Machine (BufferPool SIZE) PoolOp PoolEvent :=
  Machine.where Step (fun m op _ _ => m.Bounded op)

/-- **The two lists of a pool.** -/
structure Lists (m : BufferPool SIZE) (used free : List ℕ) : Prop where
  used_isList : m.heap.IsList m.m_pUsedList used
  free_isList : m.heap.IsList m.m_pFreeList free
  disjoint : used.Disjoint free
  used_counted : ∀ p ∈ used, ∃ n, m.heap p = some n ∧ 1 ≤ n.m_dwRefCount
  free_cleared : ∀ p ∈ free, ∃ n, m.heap p = some n ∧ n.m_dwRefCount = 0 ∧ n.m_nDataLen = 0
  m_dwBufferCount_eq : m.m_dwBufferCount = used.length

end Machine

/-! ## The invariant -/

/-- **What every step of a pool preserves.** -/
structure Ok {SIZE : ℕ} (m : BufferPool SIZE) (used free : List ℕ) : Prop where
  shape : m.Shape used free []
  used_data : ∀ p ∈ used, ∃ b c, m.heap.data p = some (b, c) ∧ b.m_nBufSize = SIZE
    ∧ 0 < c ∧ c < 2 ^ 31
  free_data : ∀ p ∈ free, ∃ b, m.heap.data p = some (b, 0) ∧ b.m_nBufSize = SIZE
    ∧ b.m_nDataLen = 0
  m_dwBufferCount_eq : m.m_dwBufferCount = used.length
  length_lt : used.length < 2 ^ 32

section Invariant

variable {SIZE : ℕ} {m m' : BufferPool SIZE} {used free used' free' : List ℕ} {p : ℕ}

theorem live_eq_some {b : CDataBuffer} {c : ℤ} :
    m.live p = some (b, c) ↔ m.heap.data p = some (b, c) ∧ 0 < c := by
  rw [live, Option.filter_eq_some_iff, decide_eq_true_eq]

/-- What is written at an address is seen there and nowhere else. -/
theorem live_update {v : Option (CDataBuffer × ℤ)}
    (h : m'.heap.data = Function.update m.heap.data p v) :
    m'.live = Function.update m.live p (v.filter (0 < ·.2)) := by
  funext q
  unfold live
  rw [h]
  by_cases hq : q = p
  · subst hq
    rw [Function.update_self, Function.update_self]
  · rw [Function.update_of_ne hq, Function.update_of_ne hq]

/-- Only a buffer that there is is held. -/
theorem Shape.mem_of_live {loose : List ℕ} (hm : m.Shape used free loose)
    (h : (m.live p).isSome = true) : p ∈ used ++ (free ++ loose) := by
  obtain ⟨⟨b, c⟩, hbc⟩ := Option.isSome_iff_exists.mp h
  obtain ⟨n, hn, -⟩ := Option.map_eq_some_iff.mp (live_eq_some.mp hbc).1
  exact (hm.isSome_iff p).mp (hn ▸ rfl)

/-- The buffers on the used list are those that are held. -/
theorem Ok.isSome_live (hm : m.Ok used free) : (m.live p).isSome = true ↔ p ∈ used := by
  constructor
  · intro h
    obtain ⟨⟨b, c⟩, hbc⟩ := Option.isSome_iff_exists.mp h
    obtain ⟨hdata, hc⟩ := live_eq_some.mp hbc
    have hmem := hm.shape.mem_of_live h
    rw [List.append_nil] at hmem
    refine (List.mem_append.mp hmem).resolve_right fun hfree => ?_
    obtain ⟨b', hb', -⟩ := hm.free_data p hfree
    rw [hdata, Option.some.injEq, Prod.mk.injEq] at hb'
    exact absurd hb'.2 hc.ne'
  · intro hp
    obtain ⟨b, c, hdata, -, hc, -⟩ := hm.used_data p hp
    exact Option.isSome_iff_exists.mpr ⟨_, live_eq_some.mpr ⟨hdata, hc⟩⟩

/-- A buffer on the used list is not on the free list. -/
theorem Shape.not_mem_free (hm : m.Shape used free []) (hp : p ∈ used) : p ∉ free := fun hfree =>
  (List.nodup_append.mp hm.nodup).2.2 p hp p (by simpa using hfree) rfl

theorem Ok.new (pool : Bool) : (BufferPool.new SIZE pool).Ok [] [] where
  shape := ⟨.nil _, .nil _, List.nodup_nil, rfl, rfl, fun _ => by simp [BufferPool.new]⟩
  used_data p hp := absurd hp List.not_mem_nil
  free_data p hp := absurd hp List.not_mem_nil
  m_dwBufferCount_eq := rfl
  length_lt := by decide

/-- What the two lists are, read off the pointers. -/
theorem Ok.lists (hm : m.Ok used free) : m.Lists used free where
  used_isList := BufferHeap.isList_of_chain hm.shape.used_chain
    (List.nodup_append.mp hm.shape.nodup).1 hm.shape.m_pUsedList_eq
  free_isList := BufferHeap.isList_of_chain hm.shape.free_chain
    (List.nodup_append.mp (List.nodup_append.mp hm.shape.nodup).2.1).1 hm.shape.m_pFreeList_eq
  disjoint p hp hp' := hm.shape.not_mem_free hp hp'
  used_counted p hp := by
    obtain ⟨b, c, hdata, -, hc, -⟩ := hm.used_data p hp
    obtain ⟨n, hn, hnb⟩ := Option.map_eq_some_iff.mp hdata
    obtain ⟨-, rfl⟩ := Prod.mk.inj hnb
    exact ⟨n, hn, hc⟩
  free_cleared p hp := by
    obtain ⟨b, hdata, -, hlen⟩ := hm.free_data p hp
    obtain ⟨n, hn, hnb⟩ := Option.map_eq_some_iff.mp hdata
    obtain ⟨rfl, hcount⟩ := Prod.mk.inj hnb
    exact ⟨n, hn, hcount, hlen⟩
  m_dwBufferCount_eq := hm.m_dwBufferCount_eq

/-- What holds of every element of a list, where one may be another than before. -/
theorem forall_of_update {α β : Type*} [DecidableEq α] {f f' : α → β} {p : α} {v : β}
    (P : β → Prop) {xs xs' : List α} (h : ∀ q ∈ xs, P (f q)) (hf : f' = Function.update f p v)
    (hsub : ∀ q ∈ xs', q ≠ p → q ∈ xs) (hv : p ∈ xs' → P v) : ∀ q ∈ xs', P (f' q) := by
  intro q hq
  rw [hf]
  by_cases hqp : q = p
  · subst hqp
    rw [Function.update_self]
    exact hv hq
  · rw [Function.update_of_ne hqp]
    exact h q (hsub q hq hqp)

/-- A step that writes one buffer and leaves the others where they are. -/
theorem Ok.of_update (hm : m.Ok used free) (hshape : m'.Shape used' free' [])
    {v : Option (CDataBuffer × ℤ)} (hdata : m'.heap.data = Function.update m.heap.data p v)
    (hused : ∀ q ∈ used', q ≠ p → q ∈ used) (hfree : ∀ q ∈ free', q ≠ p → q ∈ free)
    (hvused : p ∈ used' → ∃ b c, v = some (b, c) ∧ b.m_nBufSize = SIZE ∧ 0 < c ∧ c < 2 ^ 31)
    (hvfree : p ∈ free' → ∃ b, v = some (b, 0) ∧ b.m_nBufSize = SIZE ∧ b.m_nDataLen = 0)
    (hcount : m'.m_dwBufferCount = used'.length) (hlt : used'.length < 2 ^ 32) :
    m'.Ok used' free' where
  shape := hshape
  used_data := forall_of_update
    (fun v => ∃ b c, v = some (b, c) ∧ b.m_nBufSize = SIZE ∧ 0 < c ∧ c < 2 ^ 31)
    hm.used_data hdata hused hvused
  free_data := forall_of_update
    (fun v => ∃ b, v = some (b, 0) ∧ b.m_nBufSize = SIZE ∧ b.m_nDataLen = 0)
    hm.free_data hdata hfree hvfree
  m_dwBufferCount_eq := hcount
  length_lt := hlt

/-! ## The steps -/

/-- **`AllocDataBuff`** hands out a buffer that was not held. -/
theorem Ok.AllocDataBuff (hm : m.Ok used free) {pNew : ℕ} (hnew : m.heap pNew = none)
    (hlt : m.m_dwBufferCount + 1 < 2 ^ 32) (fresh : ℕ → UInt8) :
    ∃ m' p free' b, m.AllocDataBuff pNew fresh = .ok (m', some p) ∧ m'.Ok (p :: used) free'
      ∧ (free = p :: free' ∨ free = [] ∧ free' = [] ∧ p = pNew)
      ∧ m.live p = none ∧ m'.live = Function.update m.live p (some (b, 1))
      ∧ b.m_nBufSize = SIZE ∧ b.m_nDataLen = 0 ∧ m'.m_EnablePool = m.m_EnablePool := by
  have hfree : ∀ q ∈ free, ∃ b, m.heap.data q = some (b, 0) := fun q hq =>
    (hm.free_data q hq).imp fun _ h => h.1
  obtain ⟨m', p, free', b, halloc, hshape, hcases, hdata, hcount, hpool⟩ :=
    AllocDataBuff_spec hm.shape hnew hfree fresh
  have hnodup := hshape.nodup
  rw [List.append_nil] at hnodup
  have hpused : p ∉ used := (List.nodup_cons.mp (List.nodup_append.mp hnodup).1).1
  have hpfree : p ∉ free' := fun hq =>
    (List.nodup_append.mp hnodup).2.2 p List.mem_cons_self p hq rfl
  have hlive : m.live p = none := by
    rw [← Option.not_isSome_iff_eq_none, hm.isSome_live]
    exact hpused
  have hlen := hm.m_dwBufferCount_eq
  have hb : b.m_nBufSize = SIZE ∧ b.m_nDataLen = 0 := by
    obtain ⟨rfl, hb⟩ | ⟨-, -, -, rfl⟩ := hcases
    · obtain ⟨b', hb', hsize, hzero⟩ := hm.free_data p List.mem_cons_self
      rw [hb, Option.some.injEq, Prod.mk.injEq] at hb'
      exact hb'.1 ▸ ⟨hsize, hzero⟩
    · exact ⟨rfl, rfl⟩
  have hsub : ∀ q ∈ free', q ∈ free := by
    obtain ⟨rfl, -⟩ | ⟨-, rfl, -⟩ := hcases
    · exact fun q hq => List.mem_cons_of_mem p hq
    · exact fun q hq => absurd hq List.not_mem_nil
  refine ⟨m', p, free', b, halloc, ?_, hcases.imp And.left fun h => ⟨h.1, h.2.1, h.2.2.1⟩, hlive,
    live_update hdata, hb.1, hb.2, hpool⟩
  refine hm.of_update hshape hdata (fun q hq hqp => (List.mem_cons.mp hq).resolve_left hqp)
    (fun q hq _ => hsub q hq) (fun _ => ⟨b, 1, rfl, hb.1, by decide, by decide⟩)
    (fun hq => absurd hq hpfree) ?_ ?_
  · rw [hcount, Nat.mod_eq_of_lt hlt, hlen, List.length_cons]
  · rwa [List.length_cons, ← hlen]

theorem toInt32_of_lt {n : ℤ} (h₀ : 0 ≤ n) (h : n < 2 ^ 31) : toInt32 n = n :=
  Int.bmod_eq_of_le (by omega) (by omega)

/-- The data of a buffer that is held. -/
theorem Ok.used_data_of_live (hm : m.Ok used free) {b : CDataBuffer} {c : ℤ}
    (hp : m.live p = some (b, c)) :
    p ∈ used ∧ m.heap.data p = some (b, c) ∧ b.m_nBufSize = SIZE ∧ 0 < c ∧ c < 2 ^ 31 := by
  have hmem : p ∈ used := hm.isSome_live.mp (Option.isSome_iff_exists.mpr ⟨_, hp⟩)
  obtain ⟨hdata, -⟩ := live_eq_some.mp hp
  obtain ⟨b', c', hdata', hb⟩ := hm.used_data p hmem
  rw [hdata, Option.some.injEq, Prod.mk.injEq] at hdata'
  obtain ⟨rfl, rfl⟩ := hdata'
  exact ⟨hmem, hdata, hb⟩

/-- A step that leaves a buffer held. -/
theorem Ok.of_update_held (hm : m.Ok used free) (hp : p ∈ used) (hshape : m'.Shape used free [])
    {b : CDataBuffer} {c : ℤ} (hdata : m'.heap.data = Function.update m.heap.data p (some (b, c)))
    (hb : b.m_nBufSize = SIZE) (hc : 0 < c) (hc' : c < 2 ^ 31)
    (hcount : m'.m_dwBufferCount = m.m_dwBufferCount) :
    m'.Ok used free ∧ m'.live = Function.update m.live p (some (b, c)) := by
  refine ⟨hm.of_update hshape hdata (fun _ hq _ => hq) (fun _ hq _ => hq)
    (fun _ => ⟨b, c, rfl, hb, hc, hc'⟩) (fun hq => absurd hq (hm.shape.not_mem_free hp))
    (hcount.trans hm.m_dwBufferCount_eq) hm.length_lt, ?_⟩
  rw [live_update hdata, Option.filter_some, if_pos (decide_eq_true hc)]

/-- **`AddRef`** counts one reference more. -/
theorem Ok.AddRef (hm : m.Ok used free) {b : CDataBuffer} {c : ℤ} (hp : m.live p = some (b, c))
    (hc : c + 1 < 2 ^ 31) :
    ∃ m', m.AddRef p = .ok m' ∧ m'.Ok used free
      ∧ m'.live = Function.update m.live p (some (b, c + 1))
      ∧ m'.m_EnablePool = m.m_EnablePool := by
  obtain ⟨hmem, hdata, hb, hpos, -⟩ := hm.used_data_of_live hp
  obtain ⟨m', hadd, hshape, hdata', hcount, hpool⟩ := AddRef_spec hm.shape hdata
  rw [toInt32_of_lt (by omega) hc] at hdata'
  obtain ⟨hm', hlive⟩ := hm.of_update_held hmem hshape hdata' hb (by omega) hc hcount
  exact ⟨m', hadd, hm', hlive, hpool⟩

theorem Release_of_ReleaseDataBuff (h : m.ReleaseDataBuff p = .ok (m', true)) :
    m.Release p = .ok m' :=
  bind_eq_ok.mpr ⟨_, h, rfl⟩

/-- **Writing into a buffer** moves nothing. -/
theorem write_spec (hm : m.Shape used free []) {b : CDataBuffer} {c : ℤ}
    (hb : m.heap.data p = some (b, c)) (b' : CDataBuffer) :
    ∃ m', m.write p b' = .ok m' ∧ m'.Shape used free []
      ∧ m'.heap.data = Function.update m.heap.data p (some (b', c))
      ∧ m'.m_dwBufferCount = m.m_dwBufferCount ∧ m'.m_EnablePool = m.m_EnablePool := by
  obtain ⟨n, hn, hnb⟩ := Option.map_eq_some_iff.mp hb
  obtain ⟨rfl, rfl⟩ := Prod.mk.inj hnb
  have hsome : (m.heap p).isSome = true := hn ▸ rfl
  refine ⟨_, bind_eq_ok.mpr ⟨_, BufferHeap.store_eq_ok hsome _, rfl⟩, ?_, ?_, rfl, rfl⟩
  · exact hm.congr (BufferHeap.links_modify fun _ => rfl) rfl rfl
  · exact BufferHeap.data_modify_of_some hn

/-- What the holder of a buffer writes is in the buffer. -/
theorem Ok.write (hm : m.Ok used free) {b b' : CDataBuffer} {c : ℤ}
    (hp : m.live p = some (b, c)) (hb' : b'.m_nBufSize = SIZE) :
    ∃ m', m.write p b' = .ok m' ∧ m'.Ok used free
      ∧ m'.live = Function.update m.live p (some (b', c))
      ∧ m'.m_EnablePool = m.m_EnablePool := by
  obtain ⟨hmem, hdata, -, hpos, hlt⟩ := hm.used_data_of_live hp
  obtain ⟨m', hwrite, hshape, hdata', hcount, hpool⟩ := write_spec hm.shape hdata b'
  obtain ⟨hm', hlive⟩ := hm.of_update_held hmem hshape hdata' hb' hpos hlt hcount
  exact ⟨m', hwrite, hm', hlive, hpool⟩

/-- **`Release`** counts one reference less, and the buffer is held until it was
the last. -/
theorem Ok.Release (hm : m.Ok used free) {b : CDataBuffer} {c : ℤ} (hp : m.live p = some (b, c)) :
    ∃ m' used' free', m.Release p = .ok m' ∧ m'.Ok used' free'
      ∧ m'.live = Function.update m.live p (if c = 1 then none else some (b, c - 1))
      ∧ (m.m_EnablePool = true → (used' ++ free').Perm (used ++ free))
      ∧ m'.m_EnablePool = m.m_EnablePool := by
  obtain ⟨hmem, hdata, hb, hpos, hlt⟩ := hm.used_data_of_live hp
  by_cases hc : c = 1
  · -- the last reference: the buffer leaves the used list
    subst hc
    obtain ⟨x, y, rfl⟩ := List.append_of_mem hmem
    obtain ⟨m', free', hrelease, hshape, hcases, hcount, hpool⟩ :=
      ReleaseDataBuff_last hm.shape hdata
    have hnodup := (List.nodup_append.mp hm.shape.nodup).1
    have hpxy : p ∉ x ++ y := (List.nodup_cons.mp (List.perm_middle.nodup_iff.mp hnodup)).1
    have hlen : (x ++ p :: y).length = (x ++ y).length + 1 := by simp [Nat.add_assoc]
    have hlt := hm.length_lt
    have hcount' : m'.m_dwBufferCount = (x ++ y).length := by
      rw [hcount, hm.m_dwBufferCount_eq, hlen]
      omega
    have hsub : ∀ q ∈ x ++ y, q ≠ p → q ∈ x ++ p :: y := fun q hq _ => by
      simpa [or_left_comm] using Or.inr hq
    refine ⟨m', x ++ y, free', Release_of_ReleaseDataBuff hrelease, ?_⟩
    rw [if_pos rfl]
    rcases hcases with ⟨hon, rfl, hdata'⟩ | ⟨hoff, rfl, hdata'⟩
    · refine ⟨hm.of_update hshape hdata' hsub
        (fun q hq hqp => (List.mem_cons.mp hq).resolve_left hqp) (fun hq => absurd hq hpxy)
        (fun _ => ⟨_, rfl, hb, rfl⟩) hcount' (by omega), ?_, fun _ => ?_, hpool⟩
      · rw [live_update hdata']
        rfl
      · rw [List.append_assoc, List.append_assoc]
        exact List.perm_middle.append_left x
    · refine ⟨hm.of_update hshape hdata' hsub (fun _ hq _ => hq) (fun hq => absurd hq hpxy)
        (fun hq => absurd hq (hm.shape.not_mem_free hmem)) hcount' (by omega), ?_,
        fun hon => ?_, hpool⟩
      · rw [live_update hdata']
        rfl
      · exact absurd (hon.symm.trans hoff) (by decide)
  · have hpos' : 0 < c - 1 := by omega
    have heq : toInt32 (c - 1) = c - 1 := toInt32_of_lt hpos'.le (by omega)
    obtain ⟨m', hrelease, hshape, hdata', hcount, hpool⟩ :=
      ReleaseDataBuff_of_pos hm.shape hdata hpos (heq.symm ▸ hpos')
    rw [heq] at hdata'
    obtain ⟨hm', hlive⟩ := hm.of_update_held hmem hshape hdata' hb hpos' (by omega) hcount
    rw [if_neg hc]
    exact ⟨m', used, free, Release_of_ReleaseDataBuff hrelease, hm', hlive, fun _ => .refl _, hpool⟩

/-- The use of a buffer. -/
theorem Ok.use (hm : m.Ok used free) {b : CDataBuffer} {c : ℤ} (hp : m.live p = some (b, c))
    {u : BufferUse} (hu : u.Fits SIZE) (hbound : m.Bounded (.use p u)) :
    ∃ m' used' free', m.use p u = .ok m' ∧ m'.Ok used' free'
      ∧ m'.live = Function.update m.live p (u.effect b c)
      ∧ (m.m_EnablePool = true → (used' ++ free').Perm (used ++ free))
      ∧ m'.m_EnablePool = m.m_EnablePool := by
  cases u with
  | AddRef =>
    obtain ⟨m', h, hm', hlive, hpool⟩ := hm.AddRef hp (hbound b c hp)
    exact ⟨m', used, free, h, hm', hlive, fun _ => .refl _, hpool⟩
  | Release => exact hm.Release hp
  | write b' =>
    obtain ⟨m', h, hm', hlive, hpool⟩ := hm.write hp hu
    exact ⟨m', used, free, h, hm', hlive, fun _ => .refl _, hpool⟩

/-- **What a step of a pool preserves**, and that it is a step of
reference-counted allocation. -/
theorem Ok.step (hm : m.Ok used free) {op : PoolOp} {os : List PoolEvent} (hs : Step m op os m')
    (hbound : m.Bounded op) :
    ∃ used' free', m'.Ok used' free'
      ∧ RefCounted.Step SIZE m.live op (os.filterMap PoolEvent.handedOut?) m'.live
      ∧ (m.m_EnablePool = true →
        (used' ++ free').Perm (os.filterMap PoolEvent.created? ++ (used ++ free)))
      ∧ m'.m_EnablePool = m.m_EnablePool := by
  cases hs with
  | @AllocDataBuff _ _ pNew p fresh hnew h =>
    obtain ⟨m'', p', free', b, h', hm', hcases, hnone, hlive, hb, hlen, hpool⟩ :=
      hm.AllocDataBuff hnew hbound fresh
    obtain ⟨rfl, hp⟩ := Prod.mk.inj (Except.ok.inj (h.symm.trans h'))
    obtain rfl := Option.some.inj hp
    have hstep : RefCounted.Step SIZE m.live (.AllocDataBuff pNew fresh) [p] m'.live :=
      hlive ▸ .AllocDataBuff hnone hb hlen
    rcases hcases with rfl | ⟨rfl, rfl, rfl⟩
    · have hhead : m.m_pFreeList ≠ none := fun h =>
        absurd (hm.shape.m_pFreeList_eq.symm.trans h) (Option.some_ne_none p)
      rw [if_neg hhead]
      exact ⟨p :: used, free', hm', hstep, fun _ => List.perm_middle.symm, hpool⟩
    · have hhead : m.m_pFreeList = none := hm.shape.m_pFreeList_eq
      rw [if_pos hhead]
      exact ⟨p :: used, [], hm', hstep, fun _ => .refl _, hpool⟩
  | @use _ _ p u hp hu h =>
    obtain ⟨⟨b, c⟩, hbc⟩ := Option.isSome_iff_exists.mp hp
    obtain ⟨m'', used', free', h', hm', hlive, hperm, hpool⟩ := hm.use hbc hu hbound
    obtain rfl := Except.ok.inj (h.symm.trans h')
    exact ⟨used', free', hm', hlive ▸ .use hbc hu, hperm, hpool⟩

/-- **What a run of a pool preserves**, and that it is a run of
reference-counted allocation. -/
theorem Ok.run (hm : m.Ok used free) {es : List PoolOp} {os : List PoolEvent}
    (hr : Run BoundedStep m es os m') :
    ∃ used' free', m'.Ok used' free'
      ∧ Run (RefCounted.Step SIZE) m.live es (os.filterMap PoolEvent.handedOut?) m'.live
      ∧ (m.m_EnablePool = true →
        (used' ++ free').Perm (os.filterMap PoolEvent.created? ++ (used ++ free)))
      ∧ m'.m_EnablePool = m.m_EnablePool := by
  induction hr generalizing used free with
  | nil m => exact ⟨used, free, hm, .nil _, fun _ => .refl _, rfl⟩
  | cons hs _ ih =>
    obtain ⟨used₁, free₁, hm₁, hstep, hperm₁, hpool₁⟩ := hm.step hs.1 hs.2
    obtain ⟨used₂, free₂, hm₂, hrun, hperm₂, hpool₂⟩ := ih hm₁
    rw [List.filterMap_append, List.filterMap_append]
    refine ⟨used₂, free₂, hm₂, .cons hstep hrun, fun hon => ?_, hpool₂.trans hpool₁⟩
    refine ((hperm₂ (hpool₁.trans hon)).trans ((hperm₁ hon).append_left _)).trans ?_
    rw [← List.append_assoc]
    exact List.perm_append_comm.append_right _

end Invariant

/-! ## The two lists -/

/-- **No call that may be made fails**, so that a run goes on with any of them. -/
theorem Ok.exists_step (hm : m.Ok used free) {op : PoolOp} (hlegal : m.Legal op)
    (hbound : m.Bounded op) : ∃ os m', BoundedStep m op os m' := by
  cases op with
  | AllocDataBuff pNew fresh =>
    obtain ⟨m', p, -, -, halloc, -⟩ := hm.AllocDataBuff hlegal hbound fresh
    exact ⟨_, m', .AllocDataBuff hlegal halloc, hbound⟩
  | use p u =>
    obtain ⟨hp, hu⟩ := hlegal
    obtain ⟨⟨b, c⟩, hlive⟩ := Option.isSome_iff_exists.mp hp
    obtain ⟨m', -, -, huse, -⟩ := hm.use hlive hu hbound
    exact ⟨_, m', .use hp hu huse, hbound⟩

/-- **In every state of every run whose counters stay within their types**, the
two pointers of a pool lead to two lists that are doubly linked and share no
node; the buffers on the one have references and are as many as the pool counts,
those on the other have none and nothing in use. With pooling the two lists are,
together, the buffers that were created. Whatever call may be made there is made
without a bad access, so that the runs are not those that happen to go well:
the heap has what the code reads because the pointers lead to the two lists. -/
theorem lists_of_run {SIZE : ℕ} {pool : Bool} {es : List PoolOp} {os : List PoolEvent}
    {m : BufferPool SIZE}
    (hr : Run BoundedStep (new SIZE pool) es os m) :
    (∃ used free, m.Lists used free
      ∧ (pool = true → (os.filterMap PoolEvent.created?).Perm (used ++ free)))
    ∧ ∀ op, m.Legal op → m.Bounded op → ∃ os' m', BoundedStep m op os' m' := by
  obtain ⟨used, free, hm, -, hperm, -⟩ := (Ok.new pool).run hr
  refine ⟨⟨used, free, hm.lists, fun hon => ?_⟩, fun op => hm.exists_step⟩
  simpa using (hperm hon).symm

/-- A buffer that is released, and handed out again. -/
theorem lists_of_run_reuse :
    ∃ os m, Run BoundedStep (new 64 true)
        [.AllocDataBuff 0 (fun _ => 0), .AllocDataBuff 1 (fun _ => 0), .use 0 .Release,
          .AllocDataBuff 2 (fun _ => 0)] os m
      ∧ (∃ used free, m.Lists used free
        ∧ (true = true → (os.filterMap PoolEvent.created?).Perm (used ++ free)))
      ∧ ∀ op, m.Legal op → m.Bounded op → ∃ os' m', BoundedStep m op os' m' := by
  have hr : Run BoundedStep (new 64 true)
      [.AllocDataBuff 0 (fun _ => 0), .AllocDataBuff 1 (fun _ => 0), .use 0 .Release,
        .AllocDataBuff 2 (fun _ => 0)] _ _ :=
    .cons ⟨.AllocDataBuff rfl rfl, Nat.le_of_ble_eq_true rfl⟩ <|
    .cons ⟨.AllocDataBuff rfl rfl, Nat.le_of_ble_eq_true rfl⟩ <|
    .cons ⟨.use rfl trivial rfl, trivial⟩ <|
    .cons ⟨.AllocDataBuff rfl rfl, Nat.le_of_ble_eq_true rfl⟩ (.nil _)
  exact ⟨_, _, hr, lists_of_run hr⟩

/-! ## Where a counter wraps around -/

section Overflow

variable (SIZE : ℕ) (pool : Bool)

/-- A buffer with as many references as an `INT32` can count. -/
theorem exists_run_AddRef (fresh : ℕ → UInt8) {k : ℕ} (hk : k + 1 < 2 ^ 31) :
    ∃ os m b, Run Step (new SIZE pool)
        (.AllocDataBuff 0 fresh :: List.replicate k (.use 0 .AddRef)) os m
      ∧ m.Ok [0] [] ∧ m.live 0 = some (b, (k : ℤ) + 1) := by
  induction k with
  | zero =>
    obtain ⟨m, p, free, b, h, hm, hcases, -, hlive, -⟩ :=
      (Ok.new pool).AllocDataBuff rfl (Nat.one_lt_two_pow (by decide)) fresh
    obtain hcons | ⟨-, rfl, rfl⟩ := hcases
    · exact absurd hcons.symm (List.cons_ne_nil _ _)
    · exact ⟨_, m, b, .single (.AllocDataBuff rfl h), hm, hlive ▸ Function.update_self _ _ _⟩
  | succ k ih =>
    obtain ⟨os, m, b, hr, hm, hlive⟩ := ih (by omega)
    obtain ⟨m', h, hm', hlive', -⟩ := hm.AddRef hlive (by omega)
    have hstep : Step m (.use 0 .AddRef) [] m' := .use (hlive ▸ rfl) trivial h
    refine ⟨os ++ [], m', b, ?_, hm', ?_⟩
    · rw [List.replicate_succ', ← List.cons_append]
      exact hr.append (.single hstep)
    · rw [hlive', Function.update_self]
      rfl

/-- A buffer with one reference more than that. -/
theorem exists_run_AddRef_overflow (fresh : ℕ → UInt8) :
    ∃ os m b, Run Step (new SIZE pool)
        (.AllocDataBuff 0 fresh :: List.replicate (2 ^ 31 - 1) (.use 0 .AddRef)) os m
      ∧ m.Shape [0] [] [] ∧ m.heap.data 0 = some (b, -2 ^ 31) ∧ m.m_dwBufferCount = 1 := by
  have hmax : 2 ^ 31 - 1 = (2 ^ 31 - 2) + 1 := rfl
  obtain ⟨os, m, b, hr, hm, hlive⟩ :=
    exists_run_AddRef SIZE pool fresh (k := 2 ^ 31 - 2) (by decide)
  obtain ⟨m', h, hshape, hdata, hcount, -⟩ := AddRef_spec hm.shape (live_eq_some.mp hlive).1
  have hstep : Step m (.use 0 .AddRef) [] m' := .use (hlive ▸ rfl) trivial h
  refine ⟨os ++ [], m', b, ?_, hshape, ?_, hcount.trans hm.m_dwBufferCount_eq⟩
  · rw [hmax, List.replicate_succ', ← List.cons_append]
    exact hr.append (.single hstep)
  · rw [hdata, Function.update_self]
    exact congrArg (fun c => some (b, c)) (by decide)

/-- Buffers that are handed out one after the other. -/
theorem exists_run_AllocDataBuff (fresh : ℕ → UInt8) (k : ℕ) :
    ∃ os m, Run Step (new SIZE pool) ((List.range k).map (.AllocDataBuff · fresh)) os m
      ∧ m.Shape (List.range k).reverse [] [] ∧ (∀ p < k, (m.live p).isSome = true)
      ∧ m.m_dwBufferCount = k % 2 ^ 32 := by
  induction k with
  | zero => exact ⟨[], _, .nil _, (Ok.new pool).shape, fun p hp => absurd hp p.not_lt_zero, rfl⟩
  | succ k ih =>
    obtain ⟨os, m, hr, hshape, hlive, hcount⟩ := ih
    have hnew : m.heap k = none := by
      rw [← Option.not_isSome_iff_eq_none, hshape.isSome_iff]
      simp
    obtain ⟨m', p, free, b, h, hshape', hcases, hdata, hcount', -⟩ :=
      AllocDataBuff_spec hshape hnew (fun q hq => absurd hq List.not_mem_nil) fresh
    obtain ⟨hcons, -⟩ | ⟨-, rfl, rfl, -⟩ := hcases
    · exact absurd hcons.symm (List.cons_ne_nil _ _)
    · have hstep := Step.AllocDataBuff hnew h
      rw [List.range_succ, List.map_append, List.reverse_append]
      refine ⟨_, m', hr.append (.single hstep), hshape', fun q hq => ?_,
        by rw [hcount', hcount, Nat.mod_add_mod]⟩
      rw [live_update hdata]
      by_cases hqp : q = p
      · rw [hqp, Function.update_self]
        rfl
      · rw [Function.update_of_ne hqp]
        exact hlive q (by omega)

end Overflow

/-- **A counter that wraps around.** The reference count of a buffer is negative
once it has been added to as often as an `INT32` can count, and the number of
buffers is zero again once there are as many as a `UINT32` can count. -/
theorem not_lists_of_run :
    (∃ os m, Run Step (new 64 true)
        (.AllocDataBuff 0 (fun _ => 0) :: List.replicate (2 ^ 31 - 1) (.use 0 .AddRef)) os m
      ∧ ¬ ∃ used free, m.Lists used free)
    ∧ ∃ os m, Run Step (new 64 true)
        ((List.range (2 ^ 32)).map (.AllocDataBuff · (fun _ => 0))) os m
      ∧ ¬ ∃ used free, m.Lists used free := by
  constructor
  · obtain ⟨os, m, b, hr, hshape, hdata, -⟩ :=
      exists_run_AddRef_overflow 64 true (fun _ => 0)
    refine ⟨os, m, hr, ?_⟩
    rintro ⟨used, free, hlists⟩
    have hfollows := hlists.used_isList.follows
    rw [hshape.m_pUsedList_eq] at hfollows
    cases used with
    | nil => exact absurd hfollows (Option.some_ne_none 0)
    | cons p used =>
      obtain rfl := Option.some.inj hfollows.1
      obtain ⟨n, hn, hcount⟩ := hlists.used_counted 0 List.mem_cons_self
      rw [BufferHeap.data, hn] at hdata
      obtain ⟨-, hneg⟩ := Prod.mk.inj (Option.some.inj hdata)
      omega
  · obtain ⟨os, m, hr, hshape, -, hcount⟩ :=
      exists_run_AllocDataBuff 64 true (fun _ => 0) (2 ^ 32)
    refine ⟨os, m, hr, ?_⟩
    rintro ⟨used, free, hlists⟩
    have hlen := hlists.m_dwBufferCount_eq
    rw [hcount, Nat.mod_self] at hlen
    obtain rfl := List.length_eq_zero_iff.mp hlen.symm
    have hhead : m.m_pUsedList = none := hlists.used_isList.follows
    rw [hshape.m_pUsedList_eq, List.head?_eq_none_iff] at hhead
    have hzero := congrArg List.length hhead
    rw [List.length_reverse, List.length_range] at hzero
    exact absurd hzero (by decide)

end BufferPool
