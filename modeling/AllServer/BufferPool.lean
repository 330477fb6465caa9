import AllServer.DataBuffer
import AllServer.Util.Linked
import AllServer.Util.Run

/-!
# The buffer pool

A `CBufferManager<SIZE>` keeps the buffers that are handed out on one list and,
with pooling, those that have come back on another; the links are members of
the buffers. `AllocDataBuff` takes the first buffer of the free list, or creates
one, and `ReleaseDataBuff` puts a buffer whose last reference is gone back to
the front of it, or deletes it.

The functions are those of the source on a heap of nodes, in which every access
through a pointer is checked. Each of the four blocks they are made of has one
lemma, which says which nodes are on which list afterwards (`Shape`), and that
nothing else has changed than what the block is about. A node between two lists
is *loose*.
-/

/-- A `CDataBuffer<SIZE>` with what the pool keeps in it. -/
structure BufferNode extends CDataBuffer where
  m_pPrev : Option ℕ
  m_pNext : Option ℕ
  /-- An `INT32`. -/
  m_dwRefCount : ℤ

/-- A node as its list sees it. -/
def BufferNode.link (n : BufferNode) : Link ℕ := ⟨n.m_pPrev, n.m_pNext⟩

/-- A node as its holders see it: the buffer and the reference count. -/
def BufferNode.data (n : BufferNode) : CDataBuffer × ℤ := (n.toCDataBuffer, n.m_dwRefCount)

/-- A `CDataBuffer<SIZE>` that has just been constructed. -/
def BufferNode.new (SIZE : ℕ) (fresh : ℕ → UInt8) : BufferNode :=
  ⟨CBufferManager.AllocDataBuff SIZE fresh, none, none, 0⟩

/-- The nodes there are. -/
abbrev BufferHeap := ℕ → Option BufferNode

/-- **A `CBufferManager<SIZE>`**, with the buffers that it has created and not
deleted. -/
structure BufferPool (SIZE : ℕ) where
  heap : BufferHeap
  m_pFreeList : Option ℕ
  m_pUsedList : Option ℕ
  /-- A `UINT32`. -/
  m_dwBufferCount : ℕ
  m_EnablePool : Bool

namespace BufferHeap

/-- The heap with the node that is pointed to changed, if there is one. -/
def modify (heap : BufferHeap) (p : Option ℕ) (f : BufferNode → BufferNode) : BufferHeap :=
  fun x => if p = some x then (heap x).map f else heap x

/-- `*p`. -/
def load (heap : BufferHeap) : Option ℕ → Except Fault BufferNode
  | none => .error .null
  | some a => match heap a with
    | some n => .ok n
    | none => .error .load

/-- An assignment to a member of `*p`. -/
def store (heap : BufferHeap) (p : Option ℕ) (f : BufferNode → BufferNode) :
    Except Fault BufferHeap := do
  let _ ← heap.load p
  return heap.modify p f

/-- `if (p != NULL)`, and then the assignment. -/
def storeUnlessNull (heap : BufferHeap) (p : Option ℕ) (f : BufferNode → BufferNode) :
    Except Fault BufferHeap :=
  if p ≠ none then heap.store p f else .ok heap

end BufferHeap

namespace BufferPool

variable {SIZE : ℕ}

/-- The conversion to an `INT32`. -/
def toInt32 (n : ℤ) : ℤ := n.bmod (2 ^ 32)

/-- An assertion that fails ends the program. -/
def assert (c : Prop) [Decidable c] : Except Fault Unit := if c then .ok () else .error .thrown

/-- `CBufferManager::CBufferManager`, and `SetEnablePool`. -/
def new (SIZE : ℕ) (m_EnablePool : Bool) : BufferPool SIZE :=
  ⟨fun _ => none, none, none, 0, m_EnablePool⟩

/-! ## The code -/

/-- `AllocDataBuff`, up to the assertion: the buffer is created at `pNew`, or is
the first of the free list. -/
def take (m : BufferPool SIZE) (pNew : ℕ) (fresh : ℕ → UInt8) :
    Except Fault (BufferPool SIZE × Option ℕ) := do
  if m.m_pFreeList = none then
    return ({ m with heap := Function.update m.heap pNew (some (.new SIZE fresh)) }, some pNew)
  else
    let pDataBuffer := m.m_pFreeList
    let m_pFreeList := (← m.heap.load m.m_pFreeList).m_pNext
    let heap ← m.heap.storeUnlessNull m_pFreeList ({ · with m_pPrev := none })
    let heap ← heap.store pDataBuffer ({ · with m_pNext := none })
    let heap ← heap.store pDataBuffer ({ · with m_pPrev := none })
    return ({ m with heap, m_pFreeList }, pDataBuffer)

/-- `AllocDataBuff`, from the assertion on: the buffer becomes the first of the
used list. -/
def pushUsed (m : BufferPool SIZE) (pDataBuffer : Option ℕ) : Except Fault (BufferPool SIZE) := do
  assert ((← m.heap.load pDataBuffer).m_dwRefCount = 0)
  let heap ← m.heap.store pDataBuffer ({ · with m_dwRefCount := 1 })
  let m_dwBufferCount := (m.m_dwBufferCount + 1) % 2 ^ 32
  if m.m_pUsedList = none then
    return { m with heap, m_pUsedList := pDataBuffer, m_dwBufferCount }
  else
    let heap ← heap.store pDataBuffer ({ · with m_pNext := m.m_pUsedList })
    let heap ← heap.store m.m_pUsedList ({ · with m_pPrev := pDataBuffer })
    let heap ← heap.store pDataBuffer ({ · with m_pPrev := none })
    return { m with heap, m_pUsedList := pDataBuffer, m_dwBufferCount }

/-- `CBufferManager::AllocDataBuff`. -/
def AllocDataBuff (m : BufferPool SIZE) (pNew : ℕ) (fresh : ℕ → UInt8) :
    Except Fault (BufferPool SIZE × Option ℕ) := do
  let (m, pDataBuffer) ← m.take pNew fresh
  return (← m.pushUsed pDataBuffer, pDataBuffer)

/-- `ReleaseDataBuff`, where the buffer is taken off the used list. -/
def unlinkUsed (m : BufferPool SIZE) (pBuff : Option ℕ) : Except Fault (BufferPool SIZE) := do
  if m.m_pUsedList = pBuff then
    let m_pUsedList := (← m.heap.load pBuff).m_pNext
    let heap ← m.heap.storeUnlessNull m_pUsedList ({ · with m_pPrev := none })
    return { m with heap, m_pUsedList }
  else
    let n ← m.heap.load pBuff
    assert (n.m_pPrev ≠ none)
    let heap ← m.heap.store n.m_pPrev ({ · with m_pNext := n.m_pNext })
    let n ← heap.load pBuff
    let heap ← heap.storeUnlessNull n.m_pNext ({ · with m_pPrev := n.m_pPrev })
    return { m with heap }

/-- `ReleaseDataBuff`, where it becomes the first of the free list, or is
deleted. -/
def recycle (m : BufferPool SIZE) (pBuff : ℕ) : Except Fault (BufferPool SIZE) := do
  if m.m_EnablePool then
    let heap ← m.heap.store pBuff ({ · with m_pNext := m.m_pFreeList })
    let heap ← heap.store pBuff ({ · with m_pPrev := none })
    let heap ← heap.storeUnlessNull (← heap.load pBuff).m_pNext ({ · with m_pPrev := pBuff })
    return { m with heap, m_pFreeList := pBuff }
  else
    return { m with heap := Function.update m.heap pBuff none }

/-- `CBufferManager::ReleaseDataBuff`. -/
def ReleaseDataBuff (m : BufferPool SIZE) (pBuff : ℕ) : Except Fault (BufferPool SIZE × Bool) := do
  assert ((← m.heap.load pBuff).m_dwRefCount > 0)
  if (← m.heap.load pBuff).m_dwRefCount ≤ 0 then
    return (m, false)
  let heap ← m.heap.store pBuff
    (fun n => { n with m_dwRefCount := toInt32 (n.m_dwRefCount - 1) })
  if (← heap.load pBuff).m_dwRefCount ≤ 0 then
    let heap ← heap.store pBuff ({ · with m_nDataLen := 0 })
    let m ← ({ m with heap } : BufferPool SIZE).unlinkUsed pBuff
    let m ← m.recycle pBuff
    return ({ m with m_dwBufferCount := (m.m_dwBufferCount + 2 ^ 32 - 1) % 2 ^ 32 }, true)
  return ({ m with heap }, true)

/-- `CDataBuffer::Release`. -/
def Release (m : BufferPool SIZE) (p : ℕ) : Except Fault (BufferPool SIZE) := do
  let (m, _) ← m.ReleaseDataBuff p
  return m

/-- `CDataBuffer::AddRef`. -/
def AddRef (m : BufferPool SIZE) (p : ℕ) : Except Fault (BufferPool SIZE) := do
  let heap ← m.heap.store p (fun n => { n with m_dwRefCount := toInt32 (n.m_dwRefCount + 1) })
  return { m with heap }

end BufferPool

namespace BufferHeap

/-- The heap as its lists see it. -/
def links (heap : BufferHeap) : Links ℕ := fun x => (heap x).map BufferNode.link

/-- The heap as the holders of the buffers see it. -/
def data (heap : BufferHeap) (x : ℕ) : Option (CDataBuffer × ℤ) := (heap x).map BufferNode.data

variable {heap : BufferHeap} {p : Option ℕ} {f : BufferNode → BufferNode}

theorem load_eq_ok {a : ℕ} {n : BufferNode} (h : heap a = some n) :
    heap.load (some a) = .ok n := by
  simp only [load, h]

theorem store_eq_ok {a : ℕ} (h : (heap a).isSome = true) (f : BufferNode → BufferNode) :
    heap.store (some a) f = .ok (heap.modify (some a) f) := by
  obtain ⟨n, hn⟩ := Option.isSome_iff_exists.mp h
  exact bind_eq_ok.mpr ⟨n, load_eq_ok hn, rfl⟩

theorem storeUnlessNull_eq_ok (h : ∀ a, p = some a → (heap a).isSome = true)
    (f : BufferNode → BufferNode) : heap.storeUnlessNull p f = .ok (heap.modify p f) := by
  cases p with
  | none => rfl
  | some a => exact store_eq_ok (h a rfl) f

@[simp] theorem isSome_modify (x : ℕ) : (heap.modify p f x).isSome = (heap x).isSome := by
  unfold modify
  split_ifs
  · exact Option.isSome_map
  · rfl

/-- An assignment that is not to a link. -/
theorem links_modify (hf : ∀ n, (f n).link = n.link) : (heap.modify p f).links = heap.links := by
  funext x
  unfold links modify
  split_ifs
  · rw [Option.map_map]
    exact congrArg (Option.map · (heap x)) (funext hf)
  · rfl

/-- An assignment to a link. -/
theorem data_modify (hf : ∀ n, (f n).data = n.data) : (heap.modify p f).data = heap.data := by
  funext x
  unfold data modify
  split_ifs
  · rw [Option.map_map]
    exact congrArg (Option.map · (heap x)) (funext hf)
  · rfl

@[simp] theorem data_setPrev (v : Option ℕ) :
    (heap.modify p ({ · with m_pPrev := v })).data = heap.data :=
  data_modify (fun _ => rfl)

@[simp] theorem data_setNext (v : Option ℕ) :
    (heap.modify p ({ · with m_pNext := v })).data = heap.data :=
  data_modify (fun _ => rfl)

theorem links_setPrev (v : Option ℕ) (x : ℕ) :
    (heap.modify p ({ · with m_pPrev := v })).links x
      = (heap.links x).map (fun k => ⟨if p = some x then v else k.prev, k.next⟩) := by
  unfold links modify
  split_ifs <;> simp only [Option.map_map] <;> rfl

theorem links_setNext (v : Option ℕ) (x : ℕ) :
    (heap.modify p ({ · with m_pNext := v })).links x
      = (heap.links x).map (fun k => ⟨k.prev, if p = some x then v else k.next⟩) := by
  unfold links modify
  split_ifs <;> simp only [Option.map_map] <;> rfl

theorem modify_self {a : ℕ} {n : BufferNode} (h : heap a = some n) :
    heap.modify (some a) f a = some (f n) := by
  rw [modify, if_pos rfl, h, Option.map_some]

/-- An assignment to another node. -/
theorem modify_of_ne {x : ℕ} (h : p ≠ some x) : heap.modify p f x = heap x := if_neg h

theorem links_modify_of_ne {x : ℕ} (h : p ≠ some x) : (heap.modify p f).links x = heap.links x :=
  congrArg (Option.map BufferNode.link) (modify_of_ne h)

/-- An assignment to what the holders see. -/
theorem data_modify_of_some {a : ℕ} {n : BufferNode} (h : heap a = some n) :
    (heap.modify (some a) f).data = Function.update heap.data a (some (f n).data) := by
  funext x
  by_cases hx : x = a
  · subst hx
    rw [Function.update_self, data, modify, if_pos rfl, h]
    rfl
  · rw [Function.update_of_ne hx, data, modify, if_neg (fun heq => hx (Option.some.inj heq).symm)]
    rfl

theorem links_update_of_ne {a x : ℕ} (h : x ≠ a) (n : Option BufferNode) :
    links (Function.update heap a n) x = heap.links x := by
  unfold links
  rw [Function.update_of_ne h]

theorem data_update (heap : BufferHeap) (a : ℕ) (n : Option BufferNode) :
    data (Function.update heap a n) = Function.update heap.data a (n.map BufferNode.data) := by
  funext x
  by_cases hx : x = a
  · subst hx
    rw [Function.update_self, data, Function.update_self]
  · rw [Function.update_of_ne hx, data, Function.update_of_ne hx]
    rfl

theorem exists_of_links {x : ℕ} {k : Link ℕ} (h : heap.links x = some k) :
    ∃ n, heap x = some n ∧ n.m_pPrev = k.prev ∧ n.m_pNext = k.next := by
  obtain ⟨n, hn, rfl⟩ := Option.map_eq_some_iff.mp h
  exact ⟨n, hn, rfl, rfl⟩

end BufferHeap

namespace BufferPool

/-! ## Which nodes are on which list -/

/-- **The shape of a pool**: the nodes that there are are on the used list, on
the free list, or loose. -/
structure Shape {SIZE : ℕ} (m : BufferPool SIZE) (used free loose : List ℕ) : Prop where
  used_chain : Chain m.heap.links used
  free_chain : Chain m.heap.links free
  nodup : (used ++ (free ++ loose)).Nodup
  m_pUsedList_eq : m.m_pUsedList = used.head?
  m_pFreeList_eq : m.m_pFreeList = free.head?
  isSome_iff : ∀ p, (m.heap p).isSome = true ↔ p ∈ used ++ (free ++ loose)

/-- The same nodes, on other lists. -/
theorem Shape.of_perm {SIZE : ℕ} {m m' : BufferPool SIZE}
    {used free loose used' free' loose' : List ℕ} (hm : m.Shape used free loose)
    (hperm : (used' ++ (free' ++ loose')).Perm (used ++ (free ++ loose)))
    (hheap : ∀ x, (m'.heap x).isSome = (m.heap x).isSome)
    (hused : Chain m'.heap.links used') (hfree : Chain m'.heap.links free')
    (husedHead : m'.m_pUsedList = used'.head?) (hfreeHead : m'.m_pFreeList = free'.head?) :
    m'.Shape used' free' loose' where
  used_chain := hused
  free_chain := hfree
  nodup := hperm.nodup_iff.mpr hm.nodup
  m_pUsedList_eq := husedHead
  m_pFreeList_eq := hfreeHead
  isSome_iff p := by rw [hheap, hm.isSome_iff, hperm.mem_iff]

/-- Nothing is moved where no link is written. -/
theorem Shape.congr {SIZE : ℕ} {m m' : BufferPool SIZE} {used free loose : List ℕ}
    (hm : m.Shape used free loose) (hlinks : m'.heap.links = m.heap.links)
    (hused : m'.m_pUsedList = m.m_pUsedList) (hfree : m'.m_pFreeList = m.m_pFreeList) :
    m'.Shape used free loose := by
  have hsome : ∀ x, (m'.heap x).isSome = (m.heap x).isSome := fun x => by
    simpa [BufferHeap.links] using congrArg Option.isSome (congrFun hlinks x)
  exact hm.of_perm (.refl _) hsome (hlinks ▸ hm.used_chain) (hlinks ▸ hm.free_chain)
    (hused.trans hm.m_pUsedList_eq) (hfree.trans hm.m_pFreeList_eq)

section Blocks

variable {SIZE : ℕ} {m : BufferPool SIZE} {used free loose : List ℕ} {p : ℕ}

/-- There is a node where the free list begins. -/
theorem Shape.isSome_of_head (hm : m.Shape used free loose) :
    ∀ q, free.head? = some q → (m.heap q).isSome = true :=
  fun q hq => (hm.isSome_iff q).mpr
    (List.mem_append_right _ (List.mem_append_left _ (List.mem_of_head? hq)))

/-- Where the free list is empty, a buffer is created. -/
theorem take_nil_spec (hm : m.Shape used [] []) {pNew : ℕ} (hnew : m.heap pNew = none)
    (fresh : ℕ → UInt8) :
    ∃ m', m.take pNew fresh = .ok (m', some pNew) ∧ m'.Shape used [] [pNew]
      ∧ m'.heap.links pNew = some ⟨none, none⟩
      ∧ m'.heap.data
        = Function.update m.heap.data pNew (some (BufferNode.new SIZE fresh).data)
      ∧ m'.m_dwBufferCount = m.m_dwBufferCount ∧ m'.m_EnablePool = m.m_EnablePool := by
  have hused : ∀ q ∈ used, q ≠ pNew := by
    rintro q hq rfl
    have hsome := (hm.isSome_iff q).mpr (List.mem_append_left _ hq)
    rw [hnew] at hsome
    exact absurd hsome Bool.false_ne_true
  have hfree : m.m_pFreeList = none := hm.m_pFreeList_eq
  unfold take
  rw [if_pos hfree]
  refine ⟨_, rfl, ⟨?_, .nil _, ?_, hm.m_pUsedList_eq, hfree, fun q => ?_⟩, ?_,
    BufferHeap.data_update _ _ _, rfl, rfl⟩
  · exact hm.used_chain.congr (fun q hq => BufferHeap.links_update_of_ne (hused q hq) _)
  · rw [List.nil_append]
    exact List.nodup_append.mpr ⟨(List.nodup_append.mp hm.nodup).1, List.nodup_singleton _,
      fun q hq q' hq' => List.mem_singleton.mp hq' ▸ hused q hq⟩
  · by_cases hq : q = pNew
    · subst hq
      simp
    · have hiff := hm.isSome_iff q
      simp only [Function.update_of_ne hq, hiff, List.append_nil, List.nil_append,
        List.mem_append, List.mem_singleton, hq, or_false]
  · exact congrArg (Option.map BufferNode.link) (Function.update_self pNew _ m.heap)

/-- Where it is not, its first buffer is taken. -/
theorem take_cons_spec (hm : m.Shape used (p :: free) []) (pNew : ℕ) (fresh : ℕ → UInt8) :
    ∃ m', m.take pNew fresh = .ok (m', some p) ∧ m'.Shape used free [p]
      ∧ m'.heap.links p = some ⟨none, none⟩ ∧ m'.heap.data = m.heap.data
      ∧ m'.m_dwBufferCount = m.m_dwBufferCount ∧ m'.m_EnablePool = m.m_EnablePool := by
  have hnodup := hm.nodup
  rw [List.append_nil] at hnodup
  obtain ⟨-, hpfree, hdisjoint⟩ := List.nodup_append.mp hnodup
  obtain ⟨hp, -⟩ := List.nodup_cons.mp hpfree
  obtain ⟨n, hn, -, hnext⟩ : ∃ n, m.heap p = some n ∧ n.m_pPrev = none
    ∧ n.m_pNext = free.head? := BufferHeap.exists_of_links (hm.free_chain [] p free rfl)
  have hhead : m.m_pFreeList = some p := hm.m_pFreeList_eq
  have hsome : ∀ q, free.head? = some q → (m.heap q).isSome = true := fun q hq =>
    (hm.isSome_iff q).mpr (by simp [List.mem_of_head? hq])
  have hsomep : (m.heap p).isSome = true := hm.isSome_of_head p rfl
  unfold take
  rw [hhead, if_neg (Option.some_ne_none p), BufferHeap.load_eq_ok hn, ok_bind]
  dsimp only
  rw [hnext, BufferHeap.storeUnlessNull_eq_ok hsome, ok_bind,
    BufferHeap.store_eq_ok (by simpa), ok_bind, BufferHeap.store_eq_ok (by simpa), ok_bind]
  refine ⟨_, rfl, hm.of_perm ?_ (by simp) (hm.used_chain.congr fun q hq => ?_)
    (Chain.unlink (a := []) hm.free_chain hpfree fun q hq => ?_)
    hm.m_pUsedList_eq rfl, ?_, by simp, rfl, rfl⟩
  · exact List.Perm.append_left used (List.perm_append_comm.trans (by simp))
  · -- the used list shares no node with the free list, so no write reaches it
    have hpq : some p ≠ some q := fun heq =>
      hdisjoint q hq p List.mem_cons_self (Option.some.inj heq).symm
    have hqhead : free.head? ≠ some q := fun heq =>
      hdisjoint q hq q (List.mem_cons_of_mem p (List.mem_of_head? heq)) rfl
    rw [BufferHeap.links_modify_of_ne hpq, BufferHeap.links_modify_of_ne hpq,
      BufferHeap.links_modify_of_ne hqhead]
  · have hpq : some p ≠ some q := fun heq => hp (Option.some.inj heq ▸ hq)
    rw [BufferHeap.links_modify_of_ne hpq, BufferHeap.links_modify_of_ne hpq,
      BufferHeap.links_setPrev]
    rfl
  · have hlink : m.heap.links p = some n.link := by rw [BufferHeap.links, hn, Option.map_some]
    simp only [BufferHeap.links_setPrev, BufferHeap.links_setNext, hlink, Option.map_some,
      if_true]

/-- **The buffer becomes the first of the used list.** -/
theorem pushUsed_spec (hm : m.Shape used free [p]) (hp : m.heap.links p = some ⟨none, none⟩)
    {b : CDataBuffer} (hb : m.heap.data p = some (b, 0)) :
    ∃ m', m.pushUsed (some p) = .ok m' ∧ m'.Shape (p :: used) free []
      ∧ m'.heap.data = Function.update m.heap.data p (some (b, 1))
      ∧ m'.m_dwBufferCount = (m.m_dwBufferCount + 1) % 2 ^ 32
      ∧ m'.m_EnablePool = m.m_EnablePool := by
  obtain ⟨n, hn, hnb⟩ := Option.map_eq_some_iff.mp hb
  obtain ⟨rfl, hcount⟩ := Prod.mk.inj hnb
  have hsomep : (m.heap p).isSome = true := hn ▸ rfl
  have hdata : (m.heap.modify (some p) ({ · with m_dwRefCount := 1 })).data
      = Function.update m.heap.data p (some (n.toCDataBuffer, 1)) :=
    BufferHeap.data_modify_of_some hn
  have hlinks : (m.heap.modify (some p) ({ · with m_dwRefCount := 1 })).links = m.heap.links :=
    BufferHeap.links_modify fun _ => rfl
  have hperm : ((p :: used) ++ (free ++ [])).Perm (used ++ (free ++ [p])) := by
    rw [List.append_nil, ← List.append_assoc]
    exact (List.perm_append_singleton p (used ++ free)).symm
  -- the buffer is on neither list, so that writing to it changes neither
  obtain ⟨hnotmem, hnodup⟩ := List.nodup_cons.mp (hperm.nodup_iff.mpr hm.nodup)
  rw [List.append_nil] at hnotmem hnodup
  have hne : ∀ q ∈ used ++ free, some p ≠ some q := fun q hq heq =>
    hnotmem (Option.some.inj heq ▸ hq)
  unfold pushUsed
  rw [BufferHeap.load_eq_ok hn, ok_bind, assert, if_pos hcount, ok_bind,
    BufferHeap.store_eq_ok hsomep, ok_bind]
  cases used with
  | nil =>
    have hhead : m.m_pUsedList = none := hm.m_pUsedList_eq
    dsimp only
    rw [if_pos hhead]
    refine ⟨_, rfl, hm.of_perm hperm (by simp) (fun l x r hsplit => ?_) ?_ rfl hm.m_pFreeList_eq,
      hdata, rfl, rfl⟩
    · obtain ⟨rfl, hx⟩ | ⟨_, rfl, hx⟩ := List.cons_eq_append_iff.mp hsplit
      · obtain ⟨rfl, rfl⟩ := List.cons.inj hx
        rw [hlinks]
        exact hp
      · exact absurd hx (by simp)
    · rw [hlinks]
      exact hm.free_chain
  | cons u used =>
    have hhead : m.m_pUsedList = some u := hm.m_pUsedList_eq
    have hsomeu : (m.heap u).isSome = true := (hm.isSome_iff u).mpr (by simp)
    dsimp only
    rw [hhead, if_neg (Option.some_ne_none u), BufferHeap.store_eq_ok (by simpa), ok_bind,
      BufferHeap.store_eq_ok (by simpa), ok_bind, BufferHeap.store_eq_ok (by simpa), ok_bind]
    refine ⟨_, rfl, hm.of_perm hperm (by simp) (Chain.link hm.used_chain hnodup.of_append_left ?_
      fun q hq => ?_) (hm.free_chain.congr fun q hq => ?_) rfl hm.m_pFreeList_eq, ?_, rfl, rfl⟩
    · simp only [BufferHeap.links_setPrev, BufferHeap.links_setNext, hlinks, hp, Option.map_some,
        if_true, List.head?_cons]
    · have hpq := hne q (List.mem_append_left free hq)
      rw [BufferHeap.links_modify_of_ne hpq, BufferHeap.links_setPrev,
        BufferHeap.links_modify_of_ne hpq, hlinks]
      rfl
    · have hpq := hne q (List.mem_append_right _ hq)
      have huq : some u ≠ some q := fun heq =>
        (List.nodup_append.mp hnodup).2.2 u List.mem_cons_self q hq (Option.some.inj heq)
      rw [BufferHeap.links_modify_of_ne hpq, BufferHeap.links_modify_of_ne huq,
        BufferHeap.links_modify_of_ne hpq, hlinks]
    · rw [BufferHeap.data_setPrev, BufferHeap.data_setPrev, BufferHeap.data_setNext, hdata]

/-- **The buffer is taken off the used list.** -/
theorem unlinkUsed_spec {a b : List ℕ} (hm : m.Shape (a ++ p :: b) free []) :
    ∃ m', m.unlinkUsed (some p) = .ok m' ∧ m'.Shape (a ++ b) free [p]
      ∧ m'.heap.data = m.heap.data ∧ m'.m_dwBufferCount = m.m_dwBufferCount
      ∧ m'.m_EnablePool = m.m_EnablePool := by
  obtain ⟨n, hn, hprev, hnext⟩ : ∃ n, m.heap p = some n ∧ n.m_pPrev = a.getLast?
    ∧ n.m_pNext = b.head? := BufferHeap.exists_of_links hm.used_chain.eq_some
  have hsome : ∀ q ∈ a ++ p :: b, (m.heap q).isSome = true := fun q hq =>
    (hm.isSome_iff q).mpr (List.mem_append_left _ hq)
  have hsomeb : ∀ q, b.head? = some q → (m.heap q).isSome = true := fun q hq =>
    hsome q (List.mem_append_right a (List.mem_cons_of_mem p (List.mem_of_head? hq)))
  have hperm : (a ++ b ++ (free ++ [p])).Perm (a ++ p :: b ++ (free ++ [])) := by
    rw [List.append_nil, List.append_assoc, List.append_assoc]
    exact List.Perm.append_left a (((List.perm_append_singleton p free).append_left b).trans
      List.perm_middle)
  have hnodup := hm.nodup
  rw [List.append_nil] at hnodup
  obtain ⟨hused, -, hdisjoint⟩ := List.nodup_append.mp hnodup
  have hbfree : ∀ q ∈ free, b.head? ≠ some q := fun q hq heq => hdisjoint q
    (List.mem_append_right a (List.mem_cons_of_mem p (List.mem_of_head? heq))) q hq rfl
  unfold unlinkUsed
  cases a with
  | nil =>
    have hhead : m.m_pUsedList = some p := hm.m_pUsedList_eq
    -- the buffer is the first of the list
    rw [if_pos hhead, BufferHeap.load_eq_ok hn, ok_bind]
    dsimp only
    rw [hnext, BufferHeap.storeUnlessNull_eq_ok hsomeb, ok_bind]
    refine ⟨_, rfl, hm.of_perm hperm (by simp) (Chain.unlink hm.used_chain hused fun q _ => ?_)
      (hm.free_chain.congr fun q hq => BufferHeap.links_modify_of_ne (hbfree q hq)) rfl
      hm.m_pFreeList_eq, BufferHeap.data_setPrev none, rfl, rfl⟩
    rw [BufferHeap.links_setPrev]
    rfl
  | cons u a =>
    have hhead : m.m_pUsedList = some u := hm.m_pUsedList_eq
    have hup : some u ≠ some p := fun heq =>
      (List.nodup_cons.mp hused).1 (Option.some.inj heq ▸ by simp)
    -- a buffer is in front of it: the last of the nodes that precede it
    obtain ⟨v, hv⟩ : ∃ v, (u :: a).getLast? = some v :=
      ⟨_, List.getLast?_eq_some_getLast (List.cons_ne_nil u a)⟩
    have hvmem : v ∈ u :: a := List.mem_of_getLast? hv
    have hvp : some v ≠ some p := fun heq =>
      (List.nodup_append.mp hused).2.2 v hvmem p List.mem_cons_self (Option.some.inj heq)
    rw [hhead, if_neg hup, BufferHeap.load_eq_ok hn, ok_bind, hprev, hv, assert,
      if_pos (Option.some_ne_none v), ok_bind,
      BufferHeap.store_eq_ok (hsome v (List.mem_append_left _ hvmem)), ok_bind,
      BufferHeap.load_eq_ok ((BufferHeap.modify_of_ne hvp).trans hn), ok_bind, hnext,
      BufferHeap.storeUnlessNull_eq_ok (by simpa), ok_bind, hprev, hv]
    refine ⟨_, rfl, hm.of_perm hperm (by simp) (Chain.unlink hm.used_chain hused fun q _ => ?_)
      (hm.free_chain.congr fun q hq => ?_) rfl hm.m_pFreeList_eq, ?_, rfl, rfl⟩
    · rw [BufferHeap.links_setPrev, BufferHeap.links_setNext, Option.map_map, hv]
      rfl
    · have hvq : some v ≠ some q := fun heq =>
        hdisjoint v (List.mem_append_left _ hvmem) q hq (Option.some.inj heq)
      rw [BufferHeap.links_modify_of_ne (hbfree q hq), BufferHeap.links_modify_of_ne hvq]
    · rw [BufferHeap.data_setPrev, BufferHeap.data_setNext]

/-- **The buffer becomes the first of the free list.** -/
theorem recycle_on_spec (hm : m.Shape used free [p]) (hpool : m.m_EnablePool = true) :
    ∃ m', m.recycle p = .ok m' ∧ m'.Shape used (p :: free) [] ∧ m'.heap.data = m.heap.data
      ∧ m'.m_dwBufferCount = m.m_dwBufferCount ∧ m'.m_EnablePool = m.m_EnablePool := by
  have hsomep : (m.heap p).isSome = true := (hm.isSome_iff p).mpr (by simp)
  obtain ⟨n, hn⟩ := Option.isSome_iff_exists.mp hsomep
  have hlink : m.heap.links p = some n.link := by rw [BufferHeap.links, hn, Option.map_some]
  have hsome := hm.isSome_of_head
  have hperm : (used ++ (p :: free ++ [])).Perm (used ++ (free ++ [p])) := by
    rw [List.append_nil]
    exact (List.perm_append_singleton p free).symm.append_left used
  have hnodup := hperm.nodup_iff.mpr hm.nodup
  rw [List.append_nil] at hnodup
  obtain ⟨-, hpfree, hdisjoint⟩ := List.nodup_append.mp hnodup
  obtain ⟨hnotmem, hfree⟩ := List.nodup_cons.mp hpfree
  unfold recycle
  rw [if_pos hpool, BufferHeap.store_eq_ok hsomep, ok_bind,
    BufferHeap.store_eq_ok (by simpa), ok_bind,
    BufferHeap.load_eq_ok (BufferHeap.modify_self (BufferHeap.modify_self hn)), ok_bind]
  dsimp only
  rw [hm.m_pFreeList_eq, BufferHeap.storeUnlessNull_eq_ok (by simpa), ok_bind]
  refine ⟨_, rfl, hm.of_perm hperm (by simp) (hm.used_chain.congr fun q hq => ?_)
    (Chain.link hm.free_chain hfree ?_ fun q hq => ?_) hm.m_pUsedList_eq rfl, by simp, rfl, rfl⟩
  · have hpq : some p ≠ some q := fun heq =>
      hdisjoint q hq p List.mem_cons_self (Option.some.inj heq).symm
    have hqhead : free.head? ≠ some q := fun heq =>
      hdisjoint q hq q (List.mem_cons_of_mem p (List.mem_of_head? heq)) rfl
    rw [BufferHeap.links_modify_of_ne hqhead, BufferHeap.links_modify_of_ne hpq,
      BufferHeap.links_modify_of_ne hpq]
  · have hphead : free.head? ≠ some p := fun heq => hnotmem (List.mem_of_head? heq)
    rw [BufferHeap.links_modify_of_ne hphead]
    simp only [BufferHeap.links_setPrev, BufferHeap.links_setNext, hlink, Option.map_some, if_true]
  · have hpq : some p ≠ some q := fun heq => hnotmem (Option.some.inj heq ▸ hq)
    rw [BufferHeap.links_setPrev, BufferHeap.links_modify_of_ne hpq,
      BufferHeap.links_modify_of_ne hpq]

/-- **The buffer is deleted.** -/
theorem recycle_off_spec (hm : m.Shape used free [p]) (hpool : m.m_EnablePool = false) :
    ∃ m', m.recycle p = .ok m' ∧ m'.Shape used free []
      ∧ m'.heap.data = Function.update m.heap.data p none
      ∧ m'.m_dwBufferCount = m.m_dwBufferCount ∧ m'.m_EnablePool = m.m_EnablePool := by
  have hnodup : (used ++ free ++ [p]).Nodup := List.append_assoc used free [p] ▸ hm.nodup
  have hp : ∀ q ∈ used ++ free, q ≠ p := fun q hq =>
    (List.nodup_append.mp hnodup).2.2 q hq p (List.mem_singleton_self p)
  unfold recycle
  rw [hpool, if_neg Bool.false_ne_true]
  refine ⟨_, rfl, ⟨hm.used_chain.congr fun q hq => ?_, hm.free_chain.congr fun q hq => ?_, ?_,
    hm.m_pUsedList_eq, hm.m_pFreeList_eq, fun q => ?_⟩, BufferHeap.data_update _ _ _, rfl, rfl⟩
  · exact BufferHeap.links_update_of_ne (hp q (List.mem_append_left free hq)) none
  · exact BufferHeap.links_update_of_ne (hp q (List.mem_append_right used hq)) none
  · rw [List.append_nil]
    exact hnodup.of_append_left
  · by_cases hq : q = p
    · subst hq
      have hnotmem : q ∉ used ++ free := fun hq => hp q hq rfl
      simpa using hnotmem
    · have hiff := hm.isSome_iff q
      simp only [Function.update_of_ne hq, hiff, List.append_nil, List.mem_append,
        List.mem_singleton, hq, or_false]

/-! ## The calls -/

/-- **`AllocDataBuff`** hands out the first buffer of the free list or a new one,
with one reference. -/
theorem AllocDataBuff_spec (hm : m.Shape used free []) {pNew : ℕ} (hnew : m.heap pNew = none)
    (hfree : ∀ q ∈ free, ∃ b, m.heap.data q = some (b, 0)) (fresh : ℕ → UInt8) :
    ∃ m' p free' b, m.AllocDataBuff pNew fresh = .ok (m', some p) ∧ m'.Shape (p :: used) free' []
      ∧ (free = p :: free' ∧ m.heap.data p = some (b, 0)
        ∨ free = [] ∧ free' = [] ∧ p = pNew ∧ b = CBufferManager.AllocDataBuff SIZE fresh)
      ∧ m'.heap.data = Function.update m.heap.data p (some (b, 1))
      ∧ m'.m_dwBufferCount = (m.m_dwBufferCount + 1) % 2 ^ 32
      ∧ m'.m_EnablePool = m.m_EnablePool := by
  unfold AllocDataBuff
  cases free with
  | cons p free =>
    obtain ⟨m₁, htake, hshape, hlink, hdata, hcount, hpool⟩ := take_cons_spec hm pNew fresh
    obtain ⟨b, hb⟩ := hfree p List.mem_cons_self
    obtain ⟨m', hpush, hshape', hdata', hcount', hpool'⟩ :=
      pushUsed_spec hshape hlink ((congrFun hdata p).trans hb)
    rw [hdata] at hdata'
    rw [hcount] at hcount'
    rw [htake, ok_bind]
    exact ⟨m', p, free, b, bind_eq_ok.mpr ⟨m', hpush, rfl⟩, hshape', .inl ⟨rfl, hb⟩, hdata',
      hcount', hpool'.trans hpool⟩
  | nil =>
    obtain ⟨m₁, htake, hshape, hlink, hdata, hcount, hpool⟩ := take_nil_spec hm hnew fresh
    have hb : m₁.heap.data pNew = some (CBufferManager.AllocDataBuff SIZE fresh, 0) := by
      rw [hdata, Function.update_self]
      rfl
    obtain ⟨m', hpush, hshape', hdata', hcount', hpool'⟩ := pushUsed_spec hshape hlink hb
    rw [hdata, Function.update_idem] at hdata'
    rw [hcount] at hcount'
    rw [htake, ok_bind]
    exact ⟨m', pNew, [], _, bind_eq_ok.mpr ⟨m', hpush, rfl⟩, hshape', .inr ⟨rfl, rfl, rfl, rfl⟩,
      hdata', hcount', hpool'.trans hpool⟩

/-- **`AddRef`** counts one reference more, as far as an `INT32` can. -/
theorem AddRef_spec (hm : m.Shape used free []) {b : CDataBuffer} {c : ℤ}
    (hb : m.heap.data p = some (b, c)) :
    ∃ m', m.AddRef p = .ok m' ∧ m'.Shape used free []
      ∧ m'.heap.data = Function.update m.heap.data p (some (b, toInt32 (c + 1)))
      ∧ m'.m_dwBufferCount = m.m_dwBufferCount ∧ m'.m_EnablePool = m.m_EnablePool := by
  obtain ⟨n, hn, hnb⟩ := Option.map_eq_some_iff.mp hb
  obtain ⟨rfl, rfl⟩ := Prod.mk.inj hnb
  have hsome : (m.heap p).isSome = true := hn ▸ rfl
  refine ⟨_, bind_eq_ok.mpr ⟨_, BufferHeap.store_eq_ok hsome _, rfl⟩, ?_, ?_, rfl, rfl⟩
  · exact hm.congr (BufferHeap.links_modify fun _ => rfl) rfl rfl
  · exact BufferHeap.data_modify_of_some hn

/-- **`ReleaseDataBuff`**, where it is not the last reference. -/
theorem ReleaseDataBuff_of_pos (hm : m.Shape used free []) {b : CDataBuffer} {c : ℤ}
    (hb : m.heap.data p = some (b, c)) (hc : 0 < c) (hpos : 0 < toInt32 (c - 1)) :
    ∃ m', m.ReleaseDataBuff p = .ok (m', true) ∧ m'.Shape used free []
      ∧ m'.heap.data = Function.update m.heap.data p (some (b, toInt32 (c - 1)))
      ∧ m'.m_dwBufferCount = m.m_dwBufferCount ∧ m'.m_EnablePool = m.m_EnablePool := by
  obtain ⟨n, hn, hnb⟩ := Option.map_eq_some_iff.mp hb
  obtain ⟨rfl, rfl⟩ := Prod.mk.inj hnb
  have hsome : (m.heap p).isSome = true := hn ▸ rfl
  unfold ReleaseDataBuff
  rw [BufferHeap.load_eq_ok hn, ok_bind, assert, if_pos hc, ok_bind, ok_bind,
    if_neg (not_le.mpr hc), BufferHeap.store_eq_ok hsome, ok_bind,
    BufferHeap.load_eq_ok (BufferHeap.modify_self hn), ok_bind, if_neg (not_le.mpr hpos)]
  refine ⟨_, rfl, ?_, ?_, rfl, rfl⟩
  · exact hm.congr (BufferHeap.links_modify fun _ => rfl) rfl rfl
  · exact BufferHeap.data_modify_of_some hn

/-- **`ReleaseDataBuff`**, where it is the last reference. -/
theorem ReleaseDataBuff_last {x y : List ℕ} (hm : m.Shape (x ++ p :: y) free []) {b : CDataBuffer}
    (hb : m.heap.data p = some (b, 1)) :
    ∃ m' free', m.ReleaseDataBuff p = .ok (m', true) ∧ m'.Shape (x ++ y) free' []
      ∧ (m.m_EnablePool = true ∧ free' = p :: free
          ∧ m'.heap.data = Function.update m.heap.data p (some (b.SetTotalLenth 0, 0))
        ∨ m.m_EnablePool = false ∧ free' = free
          ∧ m'.heap.data = Function.update m.heap.data p none)
      ∧ m'.m_dwBufferCount = (m.m_dwBufferCount + 2 ^ 32 - 1) % 2 ^ 32
      ∧ m'.m_EnablePool = m.m_EnablePool := by
  obtain ⟨n, hn, hnb⟩ := Option.map_eq_some_iff.mp hb
  obtain ⟨rfl, hc⟩ := Prod.mk.inj hnb
  have hsome : (m.heap p).isSome = true := hn ▸ rfl
  have hpos : 0 < n.m_dwRefCount := by
    rw [hc]
    exact one_pos
  have hzero : toInt32 (n.m_dwRefCount - 1) = 0 := by
    rw [hc]
    decide
  unfold ReleaseDataBuff
  rw [BufferHeap.load_eq_ok hn, ok_bind, assert, if_pos hpos, ok_bind, ok_bind,
    if_neg (not_le.mpr hpos), BufferHeap.store_eq_ok hsome, ok_bind,
    BufferHeap.load_eq_ok (BufferHeap.modify_self hn), ok_bind, if_pos hzero.le,
    BufferHeap.store_eq_ok (by simpa), ok_bind]
  -- what has been written so far is the count and the length, and no link
  generalize hheap : (m.heap.modify (some p) _).modify (some p) _ = heap
  have hlinks : heap.links = m.heap.links := by
    rw [← hheap]
    refine (BufferHeap.links_modify ?_).trans (BufferHeap.links_modify ?_) <;> exact fun _ => rfl
  have hdata : heap.data
      = Function.update m.heap.data p (some (n.toCDataBuffer.SetTotalLenth 0, 0)) := by
    rw [← hheap, BufferHeap.data_modify_of_some (BufferHeap.modify_self hn),
      BufferHeap.data_modify_of_some hn, Function.update_idem, ← hzero]
    rfl
  obtain ⟨m₁, hunlink, hshape₁, hdata₁, hcount₁, hpool₁⟩ :=
    unlinkUsed_spec (m := { m with heap }) (hm.congr hlinks rfl rfl)
  rw [hunlink, ok_bind]
  cases hpool : m.m_EnablePool with
  | true =>
    obtain ⟨m₂, hrecycle, hshape₂, hdata₂, hcount₂, hpool₂⟩ :=
      recycle_on_spec hshape₁ (hpool₁.trans hpool)
    rw [hrecycle, ok_bind]
    refine ⟨_, _, rfl, hshape₂.congr rfl rfl rfl, .inl ⟨rfl, rfl, ?_⟩, ?_, ?_⟩
    · exact hdata₂.trans (hdata₁.trans hdata)
    · dsimp only
      rw [hcount₂, hcount₁]
    · exact hpool₂.trans (hpool₁.trans hpool)
  | false =>
    obtain ⟨m₂, hrecycle, hshape₂, hdata₂, hcount₂, hpool₂⟩ :=
      recycle_off_spec hshape₁ (hpool₁.trans hpool)
    rw [hrecycle, ok_bind]
    refine ⟨_, _, rfl, hshape₂.congr rfl rfl rfl, .inr ⟨rfl, rfl, ?_⟩, ?_, ?_⟩
    · refine hdata₂.trans ?_
      rw [hdata₁, hdata, Function.update_idem]
    · dsimp only
      rw [hcount₂, hcount₁]
    · exact hpool₂.trans (hpool₁.trans hpool)

end Blocks

end BufferPool
