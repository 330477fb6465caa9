import AllServer.PoolInvariant

/-!
# Walking along the lists of the buffer pool

`ReleaseAll` goes along the free list and then along the used list, and deletes
every node once it has read where the next one is. `PrintOutList` goes along a
list to its end and back again. Neither has any bound of its own: both end
because the lists do.

That they do is so in every state of every run, also where a counter has wrapped
around: then a buffer may be on the used list without references, but it is on
that list (`BufferPool.Pooled`). So `ReleaseAll` deletes what was created, and
`PrintOutList` has `2 * n - 1` turns on a list of `n` nodes
(`BufferPool.traversals_of_run`).
-/

namespace BufferHeap

/-- `delete p`. -/
def delete (heap : BufferHeap) (p : ℕ) : Except Fault BufferHeap := do
  let _ ← heap.load p
  return Function.update heap p none

/-- A turn of `PrintOutList`: the state is `dwCount`, `pBufferNode` and `bNext`, and the
node that is counted is emitted. -/
def PrintOutList.turn (heap : BufferHeap) : UInt32 × Option ℕ × Bool →
    Except Fault (ForInStep (UInt32 × Option ℕ × Bool) × List ℕ)
  | (dwCount, none, bNext) => .ok (.done (dwCount, none, bNext), [])
  | (dwCount, some pBufferNode, bNext) => do
    if bNext then
      let dwCount := dwCount + 1
      let n ← heap.load pBufferNode
      if n.m_pNext ≠ none then
        return (.yield (dwCount, n.m_pNext, bNext), [pBufferNode])
      else
        return (.yield (dwCount, n.m_pPrev, false), [pBufferNode])
    else
      let dwCount := dwCount + 1
      return (.yield (dwCount, (← heap.load pBufferNode).m_pPrev, bNext), [pBufferNode])

/-- `CBufferManager::PrintOutList`: `dwCount` at the end, and the nodes that have been
counted. -/
def PrintOutList (heap : BufferHeap) (pList : Option ℕ) (fuel : ℕ) :
    Except Fault (UInt32 × List ℕ) := do
  if pList = none then
    return (0, [])
  let ((dwCount, _), counted) ← whileTrue (PrintOutList.turn heap) fuel (0, pList, true)
  return (dwCount, counted)

/-- **`PrintOutList` ends**: on a list, it counts the nodes to the end and back again. -/
def PrintsOut (heap : BufferHeap) (pList : Option ℕ) : Prop :=
  ∃ xs, heap.IsList pList xs ∧ ∃ counted, counted = xs ++ xs.reverse.tail
    ∧ counted.length = 2 * xs.length - 1
    ∧ ∀ fuel > counted.length,
      heap.PrintOutList pList fuel = .ok (UInt32.ofNat counted.length, counted)

end BufferHeap

namespace BufferPool

variable {SIZE : ℕ}

/-- A turn of the loops of `ReleaseAll`: it emits the node that is deleted. -/
def ReleaseAll.turn : BufferHeap × Option ℕ →
    Except Fault (ForInStep (BufferHeap × Option ℕ) × List ℕ)
  | (heap, none) => .ok (.done (heap, none), [])
  | (heap, some pTempNode) => do
    let pBufferNode := (← heap.load pTempNode).m_pNext
    let heap ← heap.delete pTempNode
    return (.yield (heap, pBufferNode), [pTempNode])

/-- `CBufferManager::ReleaseAll`, with the nodes that have been deleted. -/
def ReleaseAll (m : BufferPool SIZE) (fuel : ℕ) : Except Fault (BufferPool SIZE × List ℕ) := do
  let ((heap, _), deletedFree) ← whileTrue ReleaseAll.turn fuel (m.heap, m.m_pFreeList)
  let ((heap, _), deletedUsed) ← whileTrue ReleaseAll.turn fuel (heap, m.m_pUsedList)
  return ({ m with heap }, deletedFree ++ deletedUsed)

/-- **`ReleaseAll` ends**, and deletes the given buffers, each once, and leaves none. -/
def ReleasesAll (m : BufferPool SIZE) (created : List ℕ) : Prop :=
  ∃ m' deleted, (∀ fuel > created.length, m.ReleaseAll fuel = .ok (m', deleted))
    ∧ deleted.Perm created ∧ deleted.Nodup ∧ ∀ p, m'.heap p = none

end BufferPool

/-! ## To the end and back again -/

namespace BufferHeap

namespace PrintOutList

variable {heap : BufferHeap} (dwCount : UInt32) {x : ℕ} {k : BufferNode}

theorem turn_next (hk : heap x = some k) (hnext : k.m_pNext ≠ none) :
    turn heap (dwCount, some x, true) = .ok (.yield (dwCount + 1, k.m_pNext, true), [x]) := by
  simp only [turn, load_eq_ok hk, ok_bind, if_pos hnext]
  rfl

theorem turn_last (hk : heap x = some k) (hnext : k.m_pNext = none) :
    turn heap (dwCount, some x, true) = .ok (.yield (dwCount + 1, k.m_pPrev, false), [x]) := by
  simp only [turn, load_eq_ok hk, ok_bind, if_neg (not_not_intro hnext)]
  rfl

theorem turn_prev (hk : heap x = some k) :
    turn heap (dwCount, some x, false) = .ok (.yield (dwCount + 1, k.m_pPrev, false), [x]) := by
  simp only [turn, load_eq_ok hk]
  rfl

/-- One node more has been counted. -/
theorem add_length_concat (xs : List ℕ) (x : ℕ) :
    dwCount + UInt32.ofNat xs.length + 1 = dwCount + UInt32.ofNat (xs ++ [x]).length := by
  rw [List.length_append, List.length_singleton, UInt32.ofNat_add, UInt32.add_assoc]
  rfl

/-- **The way back**, from the end of the front part of a list. -/
theorem back {l r : List ℕ} (h : Chain heap.links (l ++ r)) {n : ℕ} (hn : l.length < n) :
    whileTrue (turn heap) n (dwCount, l.getLast?, false)
      = .ok ((dwCount + UInt32.ofNat l.length, none, false), l.reverse) := by
  have hturn : ∀ xs₁ x xs₂, l.reverse = xs₁ ++ x :: xs₂ →
      turn heap (dwCount + UInt32.ofNat xs₁.length, (x :: xs₂).head?, false)
        = .ok (.yield (dwCount + UInt32.ofNat (xs₁ ++ [x]).length, xs₂.head?, false), [x]) := by
    intro xs₁ x xs₂ hxs
    obtain rfl : l = xs₂.reverse ++ x :: xs₁.reverse := by simpa using congrArg List.reverse hxs
    rw [List.append_assoc, List.cons_append] at h
    obtain ⟨k, hk, hprev, -⟩ := exists_of_links h.eq_some
    rw [List.getLast?_reverse] at hprev
    rw [List.head?_cons, turn_prev _ hk, hprev, add_length_concat]
  have hloop := whileTrue_all l.reverse
    (fun xs₁ xs₂ => (dwCount + UInt32.ofNat xs₁.length, xs₂.head?, false)) (fun x => [x]) hturn
    rfl (List.length_reverse.trans_lt hn)
  simpa using hloop

/-- **The way to the last node**, before the way back. -/
theorem forth {l : List ℕ} (h : Chain heap.links (l ++ [x])) {n : ℕ}
    {s : UInt32 × Option ℕ × Bool} {counted : List ℕ}
    (hback : whileTrue (turn heap) n (dwCount + UInt32.ofNat (l ++ [x]).length, l.getLast?, false)
      = .ok (s, counted)) :
    whileTrue (turn heap) (l.length + (n + 1)) (dwCount, (l ++ [x]).head?, true)
      = .ok (s, l ++ x :: counted) := by
  obtain ⟨k, hk, hprev, hnext⟩ := exists_of_links h.eq_some
  have hlast := turn_last (dwCount + UInt32.ofNat l.length) hk hnext
  rw [hprev, add_length_concat] at hlast
  have hturn : ∀ xs₁ y xs₂, l = xs₁ ++ y :: xs₂ →
      turn heap (dwCount + UInt32.ofNat xs₁.length, (y :: xs₂ ++ [x]).head?, true)
        = .ok (.yield (dwCount + UInt32.ofNat (xs₁ ++ [y]).length, (xs₂ ++ [x]).head?, true),
          [y]) := by
    rintro xs₁ y xs₂ rfl
    rw [List.append_assoc, List.cons_append] at h
    obtain ⟨k, hk, -, hnext⟩ := exists_of_links h.eq_some
    have hsome : k.m_pNext ≠ none := by
      rw [hnext]
      cases xs₂ <;> exact Option.some_ne_none _
    rw [List.cons_append, List.head?_cons, turn_next _ hk hsome, hnext, add_length_concat]
  have hloop := whileTrue_turns l
    (fun xs₁ xs₂ => (dwCount + UInt32.ofNat xs₁.length, (xs₂ ++ [x]).head?, true)) (fun x => [x])
    hturn (whileTrue_yield hlast hback)
  simpa using hloop

end PrintOutList

/-- **`PrintOutList` on a list.** -/
theorem printsOut_of_chain {heap : BufferHeap} {pList : Option ℕ} {xs : List ℕ}
    (h : Chain heap.links xs) (hxs : xs.Nodup) (hp : pList = xs.head?) :
    heap.PrintsOut pList := by
  have hlen : (xs ++ xs.reverse.tail).length = 2 * xs.length - 1 := by
    rw [List.length_append, List.length_tail, List.length_reverse]
    omega
  refine ⟨xs, isList_of_chain h hxs hp, _, rfl, hlen, fun fuel hfuel => ?_⟩
  subst hp
  rcases List.eq_nil_or_concat' xs with rfl | ⟨l, x, rfl⟩
  · rfl
  · have hlen' : (l ++ [x]).length = l.length + 1 := List.length_append
    obtain ⟨n, rfl⟩ : ∃ n, fuel = l.length + (n + 1) := ⟨fuel - (l.length + 1), by omega⟩
    have hn : l.length < n := by omega
    have hcounted : l ++ x :: l.reverse = (l ++ [x]) ++ (l ++ [x]).reverse.tail := by simp
    have hcount : 0 + UInt32.ofNat (l ++ [x]).length + UInt32.ofNat l.length
        = UInt32.ofNat ((l ++ [x]) ++ (l ++ [x]).reverse.tail).length := by
      rw [← hcounted, UInt32.zero_add, ← UInt32.ofNat_add]
      simp [Nat.add_right_comm, Nat.add_assoc]
    have hloop := PrintOutList.forth 0 h (PrintOutList.back _ h hn)
    rw [hcount, hcounted] at hloop
    unfold PrintOutList
    rw [if_neg (by simp), hloop]
    rfl

end BufferHeap

/-! ## Deleting a list -/

namespace BufferHeap

variable {heap : BufferHeap} {xs : List ℕ} {x : ℕ}

/-- The heap without the given nodes. -/
def without (heap : BufferHeap) (xs : List ℕ) : BufferHeap :=
  fun x => if x ∈ xs then none else heap x

theorem without_nil (heap : BufferHeap) : heap.without [] = heap :=
  funext fun _ => if_neg List.not_mem_nil

theorem without_of_not_mem (h : x ∉ xs) : heap.without xs x = heap x := if_neg h

theorem update_without (heap : BufferHeap) (xs : List ℕ) (x : ℕ) :
    Function.update (heap.without xs) x none = heap.without (xs ++ [x]) := by
  funext y
  unfold without
  by_cases hy : y = x
  · rw [hy, Function.update_self, if_pos (by simp)]
  · rw [Function.update_of_ne hy]
    simp [hy]

end BufferHeap

namespace BufferPool

/-- **A loop of `ReleaseAll`** deletes the nodes of a list. -/
theorem ReleaseAll.loop {heap : BufferHeap} {xs : List ℕ} (h : Chain heap.links xs)
    (hxs : xs.Nodup) {n : ℕ} (hn : xs.length < n) :
    whileTrue turn n (heap, xs.head?) = .ok ((heap.without xs, none), xs) := by
  have hturn : ∀ xs₁ x xs₂, xs = xs₁ ++ x :: xs₂ →
      turn (heap.without xs₁, (x :: xs₂).head?)
        = .ok (.yield (heap.without (xs₁ ++ [x]), xs₂.head?), [x]) := by
    rintro xs₁ x xs₂ rfl
    obtain ⟨k, hk, -, hnext⟩ := BufferHeap.exists_of_links h.eq_some
    have hnotmem : x ∉ xs₁ := fun hmem =>
      (List.nodup_append.mp hxs).2.2 x hmem x List.mem_cons_self rfl
    have hload : (heap.without xs₁).load x = .ok k :=
      BufferHeap.load_eq_ok ((BufferHeap.without_of_not_mem hnotmem).trans hk)
    simp only [List.head?_cons, turn, BufferHeap.delete, hload, ok_bind, hnext,
      BufferHeap.update_without]
    rfl
  have hloop := whileTrue_all xs (fun xs₁ xs₂ => (heap.without xs₁, xs₂.head?)) (fun x => [x])
    hturn rfl hn
  rw [heap.without_nil] at hloop
  simpa using hloop

section Runs

variable {SIZE : ℕ} {m m' : BufferPool SIZE} {used free used' free' created : List ℕ} {p : ℕ}

/-- **`ReleaseAll` on two lists.** -/
theorem Shape.releasesAll (hm : m.Shape used free []) (hcreated : (used ++ free).Perm created) :
    m.ReleasesAll created := by
  have hnodup := hm.nodup
  rw [List.append_nil] at hnodup
  obtain ⟨hused, hfree, hdisjoint⟩ := List.nodup_append.mp hnodup
  have hlen := hcreated.length_eq
  rw [List.length_append] at hlen
  have hchain : Chain (m.heap.without free).links used := hm.used_chain.congr fun x hx => by
    have hx' : x ∉ free := fun hmem => hdisjoint x hx x hmem rfl
    rw [BufferHeap.links, BufferHeap.without_of_not_mem hx', BufferHeap.links]
  have hswap : (free ++ used).Perm (used ++ free) := List.perm_append_comm
  refine ⟨{ m with heap := (m.heap.without free).without used }, free ++ used,
    fun fuel hfuel => ?_, hswap.trans hcreated, hswap.nodup_iff.mpr hnodup, fun x => ?_⟩
  · unfold ReleaseAll
    rw [hm.m_pFreeList_eq, hm.m_pUsedList_eq, ReleaseAll.loop hm.free_chain hfree (by omega),
      ok_bind]
    dsimp only
    rw [ReleaseAll.loop hchain hused (by omega)]
    rfl
  · have hiff := hm.isSome_iff x
    rw [List.append_nil, List.mem_append] at hiff
    show (m.heap.without free).without used x = none
    unfold BufferHeap.without
    split_ifs with hx hx'
    · rfl
    · rfl
    · rw [← Option.not_isSome_iff_eq_none, hiff]
      exact not_or_intro hx hx'

/-! ## Every run -/

/-- **What every step of a pool with pooling preserves**, whatever the counters do:
the buffers are on the two lists, and those on the free list have no references. -/
structure Pooled (m : BufferPool SIZE) (used free : List ℕ) : Prop where
  shape : m.Shape used free []
  used_data : ∀ p ∈ used, ∃ b c, m.heap.data p = some (b, c) ∧ c < 2 ^ 31
  free_data : ∀ p ∈ free, ∃ b, m.heap.data p = some (b, 0)
  m_EnablePool : m.m_EnablePool = true

theorem Pooled.new : (BufferPool.new SIZE true).Pooled [] [] where
  shape := (Ok.new true).shape
  used_data := List.forall_mem_nil _
  free_data := List.forall_mem_nil _
  m_EnablePool := rfl

/-- A step that writes one buffer. -/
theorem Pooled.of_update (hm : m.Pooled used free) (hshape : m'.Shape used' free' [])
    {b : CDataBuffer} {c : ℤ} (hdata : m'.heap.data = Function.update m.heap.data p (some (b, c)))
    (hused : ∀ q ∈ used', q ≠ p → q ∈ used) (hfree : ∀ q ∈ free', q ≠ p → q ∈ free)
    (hvused : p ∈ used' → c < 2 ^ 31) (hvfree : p ∈ free' → c = 0)
    (hpool : m'.m_EnablePool = m.m_EnablePool) : m'.Pooled used' free' where
  shape := hshape
  used_data := forall_of_update (fun v => ∃ b c, v = some (b, c) ∧ c < 2 ^ 31)
    hm.used_data hdata hused fun hp => ⟨b, c, rfl, hvused hp⟩
  free_data := forall_of_update (fun v => ∃ b, v = some (b, 0))
    hm.free_data hdata hfree fun hp => ⟨b, by rw [hvfree hp]⟩
  m_EnablePool := hpool.trans hm.m_EnablePool

theorem toInt32_lt (n : ℤ) : toInt32 n < 2 ^ 31 := by
  have hlt := Int.bmod_lt (x := n) (m := 2 ^ 32) (by decide)
  unfold toInt32
  omega

/-- A buffer that is held is on the used list. -/
theorem Pooled.mem_used (hm : m.Pooled used free) {b : CDataBuffer} {c : ℤ}
    (hp : m.live p = some (b, c)) :
    p ∈ used ∧ m.heap.data p = some (b, c) ∧ 0 < c ∧ c < 2 ^ 31 := by
  obtain ⟨hdata, hpos⟩ := live_eq_some.mp hp
  have hmem := hm.shape.mem_of_live (Option.isSome_iff_exists.mpr ⟨_, hp⟩)
  rw [List.append_nil] at hmem
  rcases List.mem_append.mp hmem with hused | hfree
  · obtain ⟨b', c', hdata', hlt⟩ := hm.used_data p hused
    obtain ⟨-, rfl⟩ := Prod.mk.inj (Option.some.inj (hdata.symm.trans hdata'))
    exact ⟨hused, hdata, hpos, hlt⟩
  · obtain ⟨b', hdata'⟩ := hm.free_data p hfree
    obtain ⟨-, rfl⟩ := Prod.mk.inj (Option.some.inj (hdata.symm.trans hdata'))
    exact absurd hpos (lt_irrefl 0)

/-- A use of a buffer that leaves it where it is. -/
theorem Pooled.of_shape (hm : m.Pooled used free) (hp : p ∈ used) (hshape : m'.Shape used free [])
    {b : CDataBuffer} {c : ℤ} (hdata : m'.heap.data = Function.update m.heap.data p (some (b, c)))
    (hc : c < 2 ^ 31) (hpool : m'.m_EnablePool = m.m_EnablePool) : m'.Pooled used free :=
  hm.of_update hshape hdata (fun _ hq _ => hq) (fun _ hq _ => hq) (fun _ => hc)
    (fun hfree => absurd hfree (hm.shape.not_mem_free hp)) hpool

/-- **A buffer that is used** stays on one of the lists. -/
theorem Pooled.use (hm : m.Pooled used free) {u : BufferUse} (hp : (m.live p).isSome = true)
    (h : m.use p u = .ok m') :
    ∃ used' free', m'.Pooled used' free' ∧ (used' ++ free').Perm (used ++ free) := by
  obtain ⟨⟨b, c⟩, hbc⟩ := Option.isSome_iff_exists.mp hp
  obtain ⟨hmem, hdata, hpos, hlt⟩ := hm.mem_used hbc
  cases u with
  | AddRef =>
    obtain ⟨m₁, hadd, hshape, hdata', -, hpool⟩ := AddRef_spec hm.shape hdata
    obtain rfl := Except.ok.inj (hadd.symm.trans h)
    exact ⟨used, free, hm.of_shape hmem hshape hdata' (toInt32_lt _) hpool, .refl _⟩
  | Release =>
    by_cases hc : c = 1
    · subst hc
      obtain ⟨x, y, rfl⟩ := List.append_of_mem hmem
      obtain ⟨m₁, free', hrelease, hshape, hcases, -, hpool⟩ := ReleaseDataBuff_last hm.shape hdata
      obtain rfl := Except.ok.inj ((Release_of_ReleaseDataBuff hrelease).symm.trans h)
      obtain ⟨-, rfl, hdata'⟩ | ⟨hoff, -⟩ := hcases
      · refine ⟨x ++ y, p :: free, hm.of_update hshape hdata' (fun q hq _ => ?_)
          (fun q hq hqp => (List.mem_cons.mp hq).resolve_left hqp) (fun _ => by decide)
          (fun _ => rfl) hpool, ?_⟩
        · simpa [or_left_comm] using Or.inr hq
        · rw [List.append_assoc, List.append_assoc]
          exact List.perm_middle.append_left x
      · exact absurd (hm.m_EnablePool.symm.trans hoff) (by decide)
    · have hc' : toInt32 (c - 1) = c - 1 := toInt32_of_lt (by omega) (by omega)
      obtain ⟨m₁, hrelease, hshape, hdata', -, hpool⟩ :=
        ReleaseDataBuff_of_pos hm.shape hdata hpos (by omega)
      obtain rfl := Except.ok.inj ((Release_of_ReleaseDataBuff hrelease).symm.trans h)
      exact ⟨used, free, hm.of_shape hmem hshape hdata' (toInt32_lt _) hpool, .refl _⟩
  | write b' =>
    obtain ⟨m₁, hwrite, hshape, hdata', -, hpool⟩ := write_spec hm.shape hdata b'
    obtain rfl := Except.ok.inj (hwrite.symm.trans h)
    exact ⟨used, free, hm.of_shape hmem hshape hdata' hlt hpool, .refl _⟩

/-- **A step of a pool** leaves the buffers on the two lists, with the one that it may
have created. -/
theorem Pooled.step (hm : m.Pooled used free) {op : PoolOp} {os : List PoolEvent}
    (hs : Step m op os m') :
    ∃ used' free', m'.Pooled used' free'
      ∧ (used' ++ free').Perm (os.filterMap PoolEvent.created? ++ (used ++ free)) := by
  cases hs with
  | @AllocDataBuff _ _ pNew p fresh hnew h =>
    obtain ⟨m₁, p', free', b, halloc, hshape, hcases, hdata, -, hpool⟩ :=
      AllocDataBuff_spec hm.shape hnew hm.free_data fresh
    obtain ⟨rfl, hp⟩ := Prod.mk.inj (Except.ok.inj (h.symm.trans halloc))
    obtain rfl := Option.some.inj hp
    have hsub : ∀ q ∈ free', q ∈ free := by
      obtain ⟨rfl, -⟩ | ⟨-, rfl, -⟩ := hcases
      · exact fun q hq => List.mem_cons_of_mem p hq
      · exact fun q hq => absurd hq List.not_mem_nil
    refine ⟨p :: used, free', hm.of_update hshape hdata
      (fun q hq hqp => (List.mem_cons.mp hq).resolve_left hqp) (fun q hq _ => hsub q hq)
      (fun _ => by decide) (fun hfree => absurd hfree (hshape.not_mem_free List.mem_cons_self))
      hpool, ?_⟩
    rw [hm.shape.m_pFreeList_eq]
    obtain ⟨rfl, -⟩ | ⟨rfl, rfl, rfl, -⟩ := hcases
    · exact List.perm_middle.symm
    · exact .refl _
  | @use _ _ p u hp hu h => exact hm.use hp h

/-- **A run of a pool** leaves the buffers that it has created on the two lists. -/
theorem Pooled.run (hm : m.Pooled used free) {es : List PoolOp} {os : List PoolEvent}
    (hr : Run Step m es os m') :
    ∃ used' free', m'.Pooled used' free'
      ∧ (used' ++ free').Perm (os.filterMap PoolEvent.created? ++ (used ++ free)) := by
  induction hr generalizing used free with
  | nil m => exact ⟨used, free, hm, .refl _⟩
  | cons hs _ ih =>
    obtain ⟨used₁, free₁, hm₁, hperm₁⟩ := hm.step hs
    obtain ⟨used₂, free₂, hm₂, hperm₂⟩ := ih hm₁
    refine ⟨used₂, free₂, hm₂, (hperm₂.trans (hperm₁.append_left _)).trans ?_⟩
    rw [List.filterMap_append, ← List.append_assoc]
    exact List.perm_append_comm.append_right _

end Runs

/-- **Walking along the lists ends**, in every state of every run with pooling:
`ReleaseAll` deletes the buffers that have been created, each once, and
`PrintOutList` counts `2 * n - 1` nodes on each of the lists. -/
theorem traversals_of_run {SIZE : ℕ} {es : List PoolOp} {os : List PoolEvent}
    {m : BufferPool SIZE} (hr : Run Step (new SIZE true) es os m) :
    m.ReleasesAll (os.filterMap PoolEvent.created?)
      ∧ m.heap.PrintsOut m.m_pFreeList ∧ m.heap.PrintsOut m.m_pUsedList := by
  obtain ⟨used, free, hm, hperm⟩ := Pooled.new.run hr
  rw [List.append_nil, List.append_nil] at hperm
  have hnodup := hm.shape.nodup
  rw [List.append_nil] at hnodup
  obtain ⟨hused, hfree, -⟩ := List.nodup_append.mp hnodup
  exact ⟨hm.shape.releasesAll hperm,
    BufferHeap.printsOut_of_chain hm.shape.free_chain hfree hm.shape.m_pFreeList_eq,
    BufferHeap.printsOut_of_chain hm.shape.used_chain hused hm.shape.m_pUsedList_eq⟩

/-- Two buffers that are handed out, and one that comes back. -/
theorem traversals_of_run_release :
    ∃ os m, Run Step (new 64 true)
        [.AllocDataBuff 0 (fun _ => 0), .AllocDataBuff 1 (fun _ => 0), .use 1 .AddRef,
          .use 0 .Release, .AllocDataBuff 2 (fun _ => 0), .AllocDataBuff 2 (fun _ => 0),
          .use 2 .Release] os m
      ∧ os.filterMap PoolEvent.created? = [0, 1, 2]
      ∧ m.m_pFreeList = some 2 ∧ m.m_pUsedList = some 0
      ∧ m.ReleasesAll (os.filterMap PoolEvent.created?)
      ∧ m.heap.PrintsOut m.m_pFreeList ∧ m.heap.PrintsOut m.m_pUsedList := by
  have hr : Run Step (new 64 true)
      [.AllocDataBuff 0 (fun _ => 0), .AllocDataBuff 1 (fun _ => 0), .use 1 .AddRef,
        .use 0 .Release, .AllocDataBuff 2 (fun _ => 0), .AllocDataBuff 2 (fun _ => 0),
        .use 2 .Release] _ _ :=
    .cons (.AllocDataBuff rfl rfl) <| .cons (.AllocDataBuff rfl rfl) <|
    .cons (.use rfl trivial rfl) <| .cons (.use rfl trivial rfl) <|
    .cons (.AllocDataBuff rfl rfl) <| .cons (.AllocDataBuff rfl rfl) <|
    .cons (.use rfl trivial rfl) (.nil _)
  exact ⟨_, _, hr, rfl, rfl, rfl, traversals_of_run hr⟩

end BufferPool
