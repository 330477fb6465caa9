import AllServer.CServiceBase
import Mathlib.Logic.Function.Basic

/-!
# Every event is delivered, once and in order

`CServiceBase` keeps its two queues behind pointers, and `Update` swaps the
pointers. This is the queue at that level: two deques on the heap, the two
pointers, and the position at which `Update` stands in the deque it drains.
The I/O thread may push between any two steps of `Update`.

That the main thread drains one deque while the I/O thread fills the other one
rests on two facts that no step gives up: the pointers differ (`NoAlias`), and
between two calls of `Update` the deque that was drained is empty (`Drained`).
The first makes the pointers invisible: the queue behind them is the one of
`AllServer.CServiceBase` (`step_abs`). The second makes the swap lose nothing,
so that what was visited and what waits is at all times what was pushed
(`run_waiting`). That an `Update` gets to its end is another matter, and rests on
a third fact: `Iter` stays inside the deque that is drained (`InRange`), which
has an end that no push moves (`exists_update`).
-/

/-- A step of the service: a locked call of the I/O thread, or a step of
`Update` on the main thread. -/
inductive QueueEvent where
  | OnNewConnect (nConnID : ℕ)
  | OnCloseConnect (nConnID : ℕ)
  | OnDataHandle (pDataBuffer : CDataBuffer) (header_size nConnID : ℕ)
  /-- `Update` begins: the swap. -/
  | swap
  /-- `Update` visits the item `Iter` points at. -/
  | visit
  /-- `Update` ends: `Iter` has reached the end. -/
  | clear

/-- **The items that a step enqueues.** -/
def QueueEvent.enqueued : QueueEvent → List NetPacket
  | .OnNewConnect nConnID => [⟨NEW_CONNECTION, nConnID, none⟩]
  | .OnCloseConnect nConnID => [⟨CLOSE_CONNECTION, nConnID, none⟩]
  | .OnDataHandle pDataBuffer _ nConnID => [⟨0, nConnID, some pDataBuffer⟩]
  | .swap | .visit | .clear => []

/-! ## The queue behind its pointers -/

/-- **The two deques and the pointers to them.** A deque is found under its
address. -/
structure EventQueue (α : Type*) where
  deques : α → List NetPacket
  m_pRecvDataQueue : α
  m_pDispathQueue : α
  /-- Within `Update`, the position of `Iter` in the deque that is drained. -/
  Iter : Option ℕ

namespace EventQueue

variable {α : Type*} [DecidableEq α]

/-- `CServiceBase::CServiceBase`: two new deques, at the addresses `p₁` and
`p₂`. -/
def new (p₁ p₂ : α) : EventQueue α := ⟨fun _ => [], p₁, p₂, none⟩

/-- `m_pRecvDataQueue->push_back(p)`. -/
def push_back (p : NetPacket) (q : EventQueue α) : EventQueue α :=
  { q with
    deques := Function.update q.deques q.m_pRecvDataQueue
      (q.deques q.m_pRecvDataQueue ++ [p]) }

/-- `CServiceBase::OnCloseConnect`. -/
def OnCloseConnect (nConnID : ℕ) : EventQueue α → EventQueue α :=
  push_back ⟨CLOSE_CONNECTION, nConnID, none⟩

/-- `CServiceBase::OnNewConnect`. -/
def OnNewConnect (nConnID : ℕ) : EventQueue α → EventQueue α :=
  push_back ⟨NEW_CONNECTION, nConnID, none⟩

/-- `CServiceBase::OnDataHandle`. -/
def OnDataHandle (pDataBuffer : CDataBuffer) (_header_size nConnID : ℕ) :
    EventQueue α → EventQueue α :=
  push_back ⟨0, nConnID, some pDataBuffer⟩

omit [DecidableEq α] in
/-- The start of `Update`: the pointers are swapped, and `Iter` is at the
beginning. -/
def swap (q : EventQueue α) : EventQueue α :=
  { q with
    m_pRecvDataQueue := q.m_pDispathQueue
    m_pDispathQueue := q.m_pRecvDataQueue
    Iter := some 0 }

/-- The end of `Update`: a deque that is not empty is cleared. -/
def clear (q : EventQueue α) : EventQueue α :=
  if (q.deques q.m_pDispathQueue).length > 0 then
    { q with deques := Function.update q.deques q.m_pDispathQueue [], Iter := none }
  else
    { q with Iter := none }

/-- **The service as a machine**, whose outputs are the items that the
`switch` of `Update` visits. -/
inductive Step : Machine (EventQueue α) QueueEvent NetPacket
  | OnNewConnect {q : EventQueue α} {nConnID : ℕ} :
      Step q (.OnNewConnect nConnID) [] (q.OnNewConnect nConnID)
  | OnCloseConnect {q : EventQueue α} {nConnID : ℕ} :
      Step q (.OnCloseConnect nConnID) [] (q.OnCloseConnect nConnID)
  | OnDataHandle {q : EventQueue α} {b : CDataBuffer} {header_size nConnID : ℕ} :
      Step q (.OnDataHandle b header_size nConnID) [] (q.OnDataHandle b header_size nConnID)
  | swap {q : EventQueue α} :
      q.Iter = none → Step q .swap [] q.swap
  | visit {q : EventQueue α} {i : ℕ} {Item : NetPacket} :
      q.Iter = some i → (q.deques q.m_pDispathQueue)[i]? = some Item →
      Step q .visit [Item] { q with Iter := some (i + 1) }
  | clear {q : EventQueue α} {i : ℕ} :
      q.Iter = some i → i = (q.deques q.m_pDispathQueue).length →
      Step q .clear [] q.clear

end EventQueue

/-! ## The queue without pointers -/

namespace CServiceBase

/-- The steps of the service on the queues themselves. -/
inductive Step : Machine CServiceBase QueueEvent NetPacket
  | OnNewConnect {q : CServiceBase} {nConnID : ℕ} :
      Step q (.OnNewConnect nConnID) [] (q.OnNewConnect nConnID)
  | OnCloseConnect {q : CServiceBase} {nConnID : ℕ} :
      Step q (.OnCloseConnect nConnID) [] (q.OnCloseConnect nConnID)
  | OnDataHandle {q : CServiceBase} {b : CDataBuffer} {header_size nConnID : ℕ} :
      Step q (.OnDataHandle b header_size nConnID) [] (q.OnDataHandle b header_size nConnID)
  | swap {q : CServiceBase} :
      q.Iter = none → Step q .swap [] q.swap
  | visit {q : CServiceBase} {Item : NetPacket} {rest : List NetPacket} :
      q.Iter = some (Item :: rest) → Step q .visit [Item] { q with Iter := some rest }
  | clear {q : CServiceBase} :
      q.Iter = some [] → Step q .clear [] q.clear

variable {q q' : CServiceBase} {e : QueueEvent} {es : List QueueEvent}
variable {outs : List NetPacket}

/-- **Between two calls of `Update` the deque that was drained is empty.** -/
def Drained (q : CServiceBase) : Prop := q.Iter = none → q.m_pDispathQueue = []

/-- **What was enqueued and is not visited yet**: the rest of what is drained,
then what was received. -/
def waiting (q : CServiceBase) : List NetPacket := q.Iter.getD [] ++ q.m_pRecvDataQueue

theorem drained_new : new.Drained := fun _ => rfl

/-- No step leaves items behind in the deque that was drained. -/
theorem step_drained (hq : q.Drained) (h : Step q e outs q') : q'.Drained := by
  cases h with
  | OnNewConnect | OnCloseConnect | OnDataHandle => exact hq
  | swap hIter => exact fun hnone => absurd hnone (Option.some_ne_none _)
  | visit hIter => exact fun hnone => absurd hnone (Option.some_ne_none _)
  | clear hIter => exact fun _ => rfl

/-- **A step visits the first of what waits**, and what it enqueues waits
behind the others. -/
theorem step_waiting (hq : q.Drained) (h : Step q e outs q') :
    q.waiting ++ e.enqueued = outs ++ q'.waiting := by
  cases h with
  | OnNewConnect | OnCloseConnect | OnDataHandle =>
    exact List.append_assoc _ _ _
  | swap hIter =>
    -- what waits is what was received, and nothing is received yet
    show q.Iter.getD [] ++ q.m_pRecvDataQueue ++ [] = q.m_pRecvDataQueue ++ q.m_pDispathQueue
    rw [hIter, hq hIter, Option.getD_none, List.nil_append]
  | visit hIter =>
    show q.Iter.getD [] ++ q.m_pRecvDataQueue ++ [] = _
    rw [hIter, List.append_nil]
    rfl
  | clear hIter =>
    show q.Iter.getD [] ++ q.m_pRecvDataQueue ++ [] = q.m_pRecvDataQueue
    rw [hIter, List.append_nil]
    rfl

/-- What a step leaves in the receive queue is the end of what was there and
was enqueued. -/
theorem step_recv (hq : q.Drained) (h : Step q e outs q') :
    q'.m_pRecvDataQueue <:+ q.m_pRecvDataQueue ++ e.enqueued := by
  cases h with
  | OnNewConnect | OnCloseConnect | OnDataHandle => exact List.suffix_refl _
  | swap hIter =>
    show q.m_pDispathQueue <:+ _
    rw [hq hIter]
    exact List.nil_suffix
  | visit | clear =>
    show q.m_pRecvDataQueue <:+ q.m_pRecvDataQueue ++ []
    rw [List.append_nil]

/-- The run of a service that starts with its queue drained goes through such
states only. -/
theorem run_where_drained (hq : q.Drained) (hr : Run Step q es outs q') :
    Run (Machine.where Step (fun q _ _ _ => q.Drained)) q es outs q' :=
  hr.where_of_invariant (fun _ _ _ _ => step_drained) hq

/-- **What was visited and what waits is what was enqueued**, in order. -/
theorem run_waiting (hq : q.Drained) (hr : Run Step q es outs q') :
    q.waiting ++ es.flatMap QueueEvent.enqueued = outs ++ q'.waiting := by
  have h : q.waiting ++ es.flatMap QueueEvent.enqueued
      = outs.flatMap (fun p => [p]) ++ q'.waiting :=
    (run_where_drained hq hr).conserved (fun s i os s' hs => by
      rw [List.flatMap_singleton']
      exact step_waiting hs.2 hs.1)
  rwa [List.flatMap_singleton'] at h

/-- What a run leaves in the receive queue is the end of what was there and
was enqueued. -/
theorem run_recv (hq : q.Drained) (hr : Run Step q es outs q') :
    q'.m_pRecvDataQueue <:+ q.m_pRecvDataQueue ++ es.flatMap QueueEvent.enqueued := by
  induction hr with
  | nil q =>
    rw [List.flatMap_nil, List.append_nil]
  | @cons q t u e es os os' hs _ ih =>
    rw [List.flatMap_cons, ← List.append_assoc]
    have hrest := ih (step_drained hq hs)
    obtain ⟨xs, hxs⟩ := step_recv hq hs
    rw [← hxs, List.append_assoc]
    exact List.suffix_append_of_suffix hrest

/-- **What is enqueued before a swap is visited before an `Update` returns
after it.** -/
theorem run_delivered {es₁ es₂ : List QueueEvent} (hq : q.Drained)
    (hq₀ : q.waiting = [])
    (hr : Run Step q (es₁ ++ .swap :: es₂ ++ [.clear]) outs q') :
    es₁.flatMap QueueEvent.enqueued <+: outs := by
  have hwaiting := run_waiting hq hr
  obtain ⟨u, ps, qs, hu, hclear, rfl⟩ := hr.exists_of_append
  obtain ⟨t, ps₁, ps₂, ht, hswap, rfl⟩ := hu.exists_of_append
  have hdrained : t.Drained := ht.invariant (fun _ _ _ _ => step_drained) hq
  have hrest : q'.m_pRecvDataQueue <:+ es₂.flatMap QueueEvent.enqueued := by
    cases hswap with
    | cons hs hes₂ =>
      cases hs with
      | swap hIter =>
        have hsuffix := run_recv (fun h => absurd h (Option.some_ne_none _)) (hes₂.append hclear)
        have hnil : t.swap.m_pRecvDataQueue = [] := hdrained hIter
        rw [hnil, List.nil_append, List.flatMap_append] at hsuffix
        simpa [QueueEvent.enqueued] using hsuffix
  have hq' : q'.waiting = q'.m_pRecvDataQueue := by
    cases hclear.step_of_single with
    | clear => rfl
  obtain ⟨xs, hxs⟩ := hrest
  refine ⟨xs, ?_⟩
  rw [hq₀, hq', List.nil_append] at hwaiting
  simp only [List.flatMap_append, List.flatMap_cons, List.flatMap_nil, QueueEvent.enqueued,
    List.nil_append, List.append_nil, ← hxs] at hwaiting
  rw [← List.append_assoc] at hwaiting
  exact List.append_cancel_right hwaiting

end CServiceBase

/-! ## The pointers do not show -/

namespace EventQueue

variable {α : Type*} [DecidableEq α] {q q' : EventQueue α} {e : QueueEvent}
variable {es : List QueueEvent} {outs : List NetPacket}

omit [DecidableEq α] in
/-- **The two pointers differ.** -/
def NoAlias (q : EventQueue α) : Prop := q.m_pRecvDataQueue ≠ q.m_pDispathQueue

omit [DecidableEq α] in
/-- The queues behind the pointers, and what is still to be visited. -/
def abs (q : EventQueue α) : CServiceBase where
  m_pRecvDataQueue := q.deques q.m_pRecvDataQueue
  m_pDispathQueue := q.deques q.m_pDispathQueue
  Iter := q.Iter.map (fun i => (q.deques q.m_pDispathQueue).drop i)

/-- No step makes the pointers meet. -/
theorem step_noAlias (hq : q.NoAlias) (h : Step q e outs q') : q'.NoAlias := by
  cases h with
  | OnNewConnect | OnCloseConnect | OnDataHandle | visit => exact hq
  | swap => exact hq.symm
  | clear =>
    unfold clear
    split_ifs <;> exact hq

/-- **A push reaches the receive queue only.** -/
theorem abs_push_back (hq : q.NoAlias) (p : NetPacket) :
    (q.push_back p).abs = q.abs.push p := by
  have hdispath : Function.update q.deques q.m_pRecvDataQueue
      (q.deques q.m_pRecvDataQueue ++ [p]) q.m_pDispathQueue = q.deques q.m_pDispathQueue :=
    Function.update_of_ne hq.symm _ _
  unfold abs push_back CServiceBase.push
  simp only [Function.update_self, hdispath]

/-- **The end of `Update` clears the other one only.** -/
theorem abs_clear (hq : q.NoAlias) : q.clear.abs = q.abs.clear := by
  unfold clear
  split_ifs with hlen
  · unfold abs CServiceBase.clear
    simp only [Function.update_self, Function.update_of_ne hq, Option.map_none]
  · have hnil : q.deques q.m_pDispathQueue = [] :=
      List.length_eq_zero_iff.mp (Nat.eq_zero_of_not_pos hlen)
    unfold abs CServiceBase.clear
    simp only [hnil, Option.map_none]

/-- **Where the pointers differ, a step is one on the queues themselves.** -/
theorem step_abs (hq : q.NoAlias) (h : Step q e outs q') :
    CServiceBase.Step q.abs e outs q'.abs := by
  cases h with
  | OnNewConnect =>
    unfold OnNewConnect
    rw [abs_push_back hq]
    exact .OnNewConnect
  | OnCloseConnect =>
    unfold OnCloseConnect
    rw [abs_push_back hq]
    exact .OnCloseConnect
  | OnDataHandle =>
    unfold OnDataHandle
    rw [abs_push_back hq]
    exact .OnDataHandle
  | swap hIter =>
    have hnone : q.abs.Iter = none := congrArg (Option.map _) hIter
    exact .swap hnone
  | visit hIter hItem =>
    obtain ⟨hlt, hget⟩ := List.getElem?_eq_some_iff.mp hItem
    have hcons : q.abs.Iter = some (_ :: (q.deques q.m_pDispathQueue).drop _) :=
      (congrArg (Option.map _) hIter).trans (congrArg some (List.drop_eq_getElem_cons hlt))
    rw [hget] at hcons
    exact .visit hcons
  | clear hIter hend =>
    have hnil : q.abs.Iter = some [] :=
      (congrArg (Option.map _) hIter).trans
        (congrArg some (List.drop_eq_nil_of_le (le_of_eq hend.symm)))
    rw [abs_clear hq]
    exact .clear hnil

/-- **A run behind the pointers is a run on the queues themselves.** -/
theorem run_abs (hq : q.NoAlias) (hr : Run Step q es outs q') :
    Run CServiceBase.Step q.abs es outs q'.abs := by
  have hpres : ∀ (s : EventQueue α) i os s', s.NoAlias → Step s i os s' → s'.NoAlias :=
    fun _ _ _ _ => step_noAlias
  have hstep : ∀ (s : EventQueue α) i os s', s.NoAlias → Step s i os s' →
      CServiceBase.Step s.abs i (os.filterMap some) s'.abs := by
    intro s i os s' hs hst
    rw [List.filterMap_some]
    exact step_abs hs hst
  have h := hr.simulate abs id some hpres hstep hq
  rwa [List.map_id, List.filterMap_some] at h

/-! ## An `Update` ends -/

/-- **`Iter` stands inside the deque that is drained**, or at its end. -/
def InRange (q : EventQueue α) : Prop :=
  ∀ i, q.Iter = some i → i ≤ (q.deques q.m_pDispathQueue).length

/-- A push leaves the deque that is drained alone. -/
theorem push_back_inRange (hne : q.NoAlias) (hq : q.InRange) (p : NetPacket) :
    (q.push_back p).InRange := by
  intro i hi
  have hdispath : (q.push_back p).deques (q.push_back p).m_pDispathQueue
      = q.deques q.m_pDispathQueue := Function.update_of_ne hne.symm _ _
  rw [hdispath]
  exact hq i hi

/-- **No step takes `Iter` out of it**: nothing is taken off that deque while it is
drained, and what is pushed goes to the other one. -/
theorem step_inRange (hne : q.NoAlias) (hq : q.InRange) (h : Step q e outs q') :
    q'.InRange := by
  cases h with
  | OnNewConnect | OnCloseConnect | OnDataHandle => exact push_back_inRange hne hq _
  | swap =>
    intro i hi
    rw [← Option.some.inj hi]
    exact Nat.zero_le _
  | visit hIter hItem =>
    intro j hj
    rw [← Option.some.inj hj]
    exact (List.getElem?_eq_some_iff.mp hItem).1
  | clear =>
    intro i hi
    have hnone : q.clear.Iter = none := by
      unfold clear
      split_ifs <;> rfl
    rw [hnone] at hi
    exact absurd hi.symm (Option.some_ne_none i)

/-- Nor does a run. -/
theorem run_inRange {p₁ p₂ : α} (hne : (new p₁ p₂).NoAlias)
    (hr : Run Step (new p₁ p₂) es outs q') : q'.InRange := by
  have hstep : ∀ (s : EventQueue α) i os s', s.NoAlias ∧ s.InRange → Step s i os s' →
      s'.NoAlias ∧ s'.InRange :=
    fun _ _ _ _ h hs => ⟨step_noAlias h.1 hs, step_inRange h.1 h.2 hs⟩
  have hnew : (new p₁ p₂).InRange := fun i hi => absurd hi.symm (Option.some_ne_none i)
  exact (hr.invariant hstep ⟨hne, hnew⟩).2

/-- **An `Update` that is under way can be finished**: it visits the items that are left,
and then it clears the deque. The induction is on how many are left, which no push
changes. -/
theorem exists_finish (n : ℕ) {i : ℕ} (hIter : q.Iter = some i)
    (hn : i + n = (q.deques q.m_pDispathQueue).length) :
    ∃ items q', Run Step q (List.replicate n .visit ++ [.clear]) items q'
      ∧ q'.Iter = none := by
  induction n generalizing q i with
  | zero =>
    refine ⟨[], q.clear, .single (.clear hIter hn), ?_⟩
    unfold clear
    split_ifs <;> rfl
  | succ n ih =>
    have hlt : i < (q.deques q.m_pDispathQueue).length := by omega
    obtain ⟨items, q', hr, hdone⟩ := ih (q := { q with Iter := some (i + 1) }) rfl
      (show i + 1 + n = (q.deques q.m_pDispathQueue).length by omega)
    exact ⟨_, q', .cons (.visit hIter (List.getElem?_eq_getElem hlt)) hr, hdone⟩

/-- **Wherever the service stands, an `Update` can be run to its end**: the one that is
under way, or one that begins now. -/
theorem exists_update (hq : q.InRange) :
    ∃ n items q', Run Step q ((if q.Iter = none then [.swap] else [])
        ++ (List.replicate n .visit ++ [.clear])) items q' ∧ q'.Iter = none := by
  cases hIter : q.Iter with
  | none =>
    obtain ⟨items, q', hr, hdone⟩ := exists_finish (q := q.swap)
      (q.deques q.m_pRecvDataQueue).length rfl (Nat.zero_add _)
    exact ⟨_, items, q', .cons (.swap hIter) hr, hdone⟩
  | some i =>
    obtain ⟨n, hn⟩ := Nat.exists_eq_add_of_le (hq i hIter)
    obtain ⟨items, q', hr, hdone⟩ := exists_finish n hIter hn.symm
    exact ⟨n, items, q', hr, hdone⟩

/-- **Events are delivered exactly once and in order.** Whatever the I/O
thread pushes between the steps of `Update`, the items visited so far are the
first ones that were enqueued; and when an `Update` returns, everything that
was enqueued before its swap has been visited. Neither says anything of an
`Update` that never gets to its end. So, whatever has happened, the `Update`
that is under way can be finished, and one that begins between two others
visits all that there is. -/
theorem events_delivered {p₁ p₂ : α} (hne : p₁ ≠ p₂)
    (hr : Run Step (new p₁ p₂) es outs q') :
    outs <+: es.flatMap QueueEvent.enqueued
      ∧ (∀ es₁ es₂, es = es₁ ++ .swap :: es₂ ++ [.clear] →
          es₁.flatMap QueueEvent.enqueued <+: outs)
      ∧ ∃ n items q'', Run Step q' ((if q'.Iter = none then [.swap] else [])
            ++ (List.replicate n .visit ++ [.clear])) items q''
          ∧ q''.Iter = none
          ∧ (q'.Iter = none → outs ++ items = es.flatMap QueueEvent.enqueued) := by
  have hnew : (new p₁ p₂).NoAlias := hne
  have hdrained : (new p₁ p₂).abs.Drained := CServiceBase.drained_new
  have hinOrder : ∀ {fs ps} {q'' : EventQueue α}, Run Step (new p₁ p₂) fs ps q'' →
      ps <+: fs.flatMap QueueEvent.enqueued :=
    fun hr => ⟨_, (CServiceBase.run_waiting hdrained (run_abs hnew hr)).symm⟩
  have hdelivered : ∀ fs₁ fs₂ {ps} {q'' : EventQueue α},
      Run Step (new p₁ p₂) (fs₁ ++ .swap :: fs₂ ++ [.clear]) ps q'' →
      fs₁.flatMap QueueEvent.enqueued <+: ps :=
    fun _ _ _ _ hr => CServiceBase.run_delivered hdrained rfl (run_abs hnew hr)
  refine ⟨hinOrder hr, ?_, ?_⟩
  · rintro es₁ es₂ rfl
    exact hdelivered es₁ es₂ hr
  · obtain ⟨n, items, q'', hr', hdone⟩ := exists_update (run_inRange hnew hr)
    refine ⟨n, items, q'', hr', hdone, fun hIter => ?_⟩
    rw [if_pos hIter, List.singleton_append] at hr'
    have hall := hr.append hr'
    -- nothing is enqueued by the `Update`, so what it leaves unvisited is nothing
    have henqueued : (es ++ .swap :: (List.replicate n .visit ++ [.clear]) : List _).flatMap
        QueueEvent.enqueued = es.flatMap QueueEvent.enqueued := by
      simp [QueueEvent.enqueued, List.flatMap_replicate]
    have hle := (hinOrder hall).length_le
    rw [henqueued] at hle
    have hge := hdelivered es (List.replicate n .visit) (by simpa using hall)
    exact (hge.eq_of_length (Nat.le_antisymm hge.length_le hle)).symm

/-- A session connects before an `Update` and closes while that `Update` is
under way. Only its connection has been visited when the `Update` returns, and
the next one visits its end. -/
theorem events_delivered_connect_close :
    ∃ q' : EventQueue Bool, Run Step (new false true)
        [.OnNewConnect 7, .swap, .OnCloseConnect 7, .visit, .clear]
        [⟨NEW_CONNECTION, 7, none⟩] q'
      ∧ ∃ n items q'', Run Step q' ([.swap] ++ (List.replicate n .visit ++ [.clear])) items q''
        ∧ [⟨NEW_CONNECTION, 7, none⟩] ++ items
          = [⟨NEW_CONNECTION, 7, none⟩, ⟨CLOSE_CONNECTION, 7, none⟩] := by
  have hnew : Step (new false true) (.OnNewConnect 7) [] _ := .OnNewConnect
  have hswap : Step ((new false true).OnNewConnect 7) .swap [] _ := .swap rfl
  have hclose : Step ((new false true).OnNewConnect 7).swap (.OnCloseConnect 7) [] _ :=
    .OnCloseConnect
  have hvisit : Step (((new false true).OnNewConnect 7).swap.OnCloseConnect 7) .visit _ _ :=
    .visit rfl rfl
  have hr : Run Step (new false true) _ _ _ :=
    .cons hnew (.cons hswap (.cons hclose (.cons hvisit (.single (.clear rfl rfl)))))
  obtain ⟨-, -, n, items, q'', hr', -, hall⟩ := events_delivered Bool.false_ne_true hr
  exact ⟨_, hr, n, items, q'', hr', hall rfl⟩

end EventQueue
