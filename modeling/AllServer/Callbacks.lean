import AllServer.EventQueue

/-!
# The callback of an event

The service gives an event its kind in `m_dwMsgID`, in the three functions that
enqueue items, and `Update` tells the kinds apart again in its `switch`.
`QueueEvent.callbacks` is what an event is to be turned into: the call of the
dispatcher that has the same name, with the same session. The case of a
connection that is closed only writes to the console, so an `Update` makes all
the calls that it owes exactly if there is no such item in the queue that it
drains.
-/

/-- **The calls that an event is owed**, of the dispatcher. -/
def QueueEvent.callbacks : QueueEvent → List DispatcherCall
  | .OnNewConnect nConnID => [.OnNewConnect nConnID]
  | .OnCloseConnect nConnID => [.OnCloseConnect nConnID]
  | .OnDataHandle pDataBuffer _ nConnID => [.DispatchPacket ⟨0, nConnID, some pDataBuffer⟩]
  | .swap | .visit | .clear => []

namespace CServiceBase

variable {q q' : CServiceBase} {e : QueueEvent} {es us : List QueueEvent}
variable {items : List NetPacket}

/-! ## What the `switch` makes of an event -/

/-- **The `switch` undoes the encoding** of every event but that a connection is
closed. -/
theorem visit_enqueued (h : ∀ nConnID, e ≠ .OnCloseConnect nConnID) :
    e.enqueued.flatMap visit = e.callbacks := by
  cases e with
  | OnCloseConnect nConnID => exact absurd rfl (h nConnID)
  | OnNewConnect | OnDataHandle | swap | visit | clear => rfl

/-- No item makes it call `OnCloseConnect`. -/
theorem OnCloseConnect_notMem_visit (nConnID : ℕ) (Item : NetPacket) :
    .OnCloseConnect nConnID ∉ visit Item := by
  unfold visit
  split_ifs <;> simp

/-- **The calls made are the calls owed** exactly if nothing is closed. -/
theorem visit_flatMap_eq_iff (es : List QueueEvent) :
    (es.flatMap QueueEvent.enqueued).flatMap visit = es.flatMap QueueEvent.callbacks
      ↔ ∀ nConnID, .OnCloseConnect nConnID ∉ es := by
  constructor
  · intro h nConnID hmem
    have howed : .OnCloseConnect nConnID ∈ es.flatMap QueueEvent.callbacks :=
      List.mem_flatMap.mpr ⟨_, hmem, List.mem_singleton_self _⟩
    rw [← h] at howed
    obtain ⟨Item, -, hcall⟩ := List.mem_flatMap.mp howed
    exact OnCloseConnect_notMem_visit nConnID Item hcall
  · intro h
    rw [List.flatMap_assoc]
    refine List.flatMap_congr fun e he => visit_enqueued ?_
    rintro nConnID rfl
    exact h nConnID he

/-! ## What one `Update` visits -/

/-- Within an `Update` that is not over, what is visited is the front of what
is drained. -/
theorem run_visits_iter (hr : Run Step q us items q') (hclear : .clear ∉ us)
    {ps : List NetPacket} (hiter : q.Iter = some ps) :
    ∃ rest, q'.Iter = some rest ∧ ps = items ++ rest := by
  induction hr generalizing ps with
  | nil q => exact ⟨ps, hiter, rfl⟩
  | cons hs _ ih =>
    have hclear' := not_or.mp (List.mem_cons.not.mp hclear)
    cases hs with
    | OnNewConnect | OnCloseConnect | OnDataHandle => exact ih hclear'.2 hiter
    | swap hnone => exact absurd (hiter.symm.trans hnone) (Option.some_ne_none ps)
    | clear => exact absurd rfl hclear'.1
    | @visit _ Item rest hItem =>
      obtain rfl := Option.some.inj (hiter.symm.trans hItem)
      obtain ⟨rest', hrest', rfl⟩ := ih hclear'.2 rfl
      exact ⟨rest', hrest', rfl⟩

/-- **An `Update` visits what was in the receive queue when it began**, whatever
is pushed while it runs. -/
theorem run_update (hr : Run Step q (.swap :: us ++ [.clear]) items q')
    (hclear : .clear ∉ us) : items = q.m_pRecvDataQueue := by
  obtain ⟨t, items₁, items₂, hvisits, hend, rfl⟩ := hr.exists_of_append
  cases hvisits with
  | cons hbegin hvisits =>
    cases hbegin with
    | swap =>
      obtain ⟨rest, hrest, heq⟩ := run_visits_iter hvisits hclear rfl
      cases hend.step_of_single with
      | clear hnil =>
        obtain rfl := Option.some.inj (hrest.symm.trans hnil)
        exact (List.append_nil _).trans ((List.append_nil _).symm.trans heq.symm)

/-- **Each event reaches its own callback** exactly if no event is that a
connection is closed: for every content of the receive queue and everything
that is pushed while `Update` runs. -/
theorem callbacks_iff (hqueue : q.m_pRecvDataQueue = es.flatMap QueueEvent.enqueued)
    (hr : Run Step q (.swap :: us ++ [.clear]) items q') (hclear : .clear ∉ us) :
    items.flatMap visit = es.flatMap QueueEvent.callbacks
      ↔ ∀ nConnID, .OnCloseConnect nConnID ∉ es := by
  rw [run_update hr hclear, hqueue]
  exact visit_flatMap_eq_iff es

/-- Two sessions connect; while `Update` runs, one of them closes. -/
theorem callbacks_iff_two : ∃ q q' : CServiceBase,
    Run Step q (.swap :: [.visit, .OnCloseConnect 7, .visit] ++ [.clear])
      [⟨NEW_CONNECTION, 7, none⟩, ⟨NEW_CONNECTION, 8, none⟩] q'
    ∧ [NetPacket.mk NEW_CONNECTION 7 none, ⟨NEW_CONNECTION, 8, none⟩].flatMap visit
      = [.OnNewConnect 7, .OnNewConnect 8] := by
  have hr : Run Step ((new.OnNewConnect 7).OnNewConnect 8)
      (.swap :: [.visit, .OnCloseConnect 7, .visit] ++ [.clear]) _ _ :=
    .cons (.swap rfl) (.cons (.visit rfl) (.cons .OnCloseConnect (.cons (.visit rfl)
      (.single (.clear rfl)))))
  have hqueue : ((new.OnNewConnect 7).OnNewConnect 8).m_pRecvDataQueue
      = [QueueEvent.OnNewConnect 7, .OnNewConnect 8].flatMap QueueEvent.enqueued := rfl
  exact ⟨_, _, hr, (callbacks_iff hqueue hr (by simp)).mpr (by simp)⟩

/-- It is not true that each event reaches its own callback: a session that has
closed is only written to the console. -/
theorem not_callbacks : ¬ ∀ (q q' : CServiceBase) (es us : List QueueEvent)
    (items : List NetPacket), q.m_pRecvDataQueue = es.flatMap QueueEvent.enqueued →
      Run Step q (.swap :: us ++ [.clear]) items q' → .clear ∉ us →
      items.flatMap visit = es.flatMap QueueEvent.callbacks := by
  intro h
  have hr : Run Step (new.OnCloseConnect 7) (.swap :: [.visit] ++ [.clear]) _ _ :=
    .cons (.swap rfl) (.cons (.visit rfl) (.single (.clear rfl)))
  have heq := h _ _ [.OnCloseConnect 7] _ _ rfl hr (by simp)
  exact absurd heq.symm (List.cons_ne_nil _ _)

end CServiceBase
