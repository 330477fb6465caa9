import AllServer.SendPath

/-!
# One write at a time

A composed write must not be started on a socket while another one is
outstanding. `HandWritedata` starts the next write when one has completed,
which would be in order; but `DoSend` is also called by whoever queues
something, and in each of its calls pops all that is there. So at most one
write is outstanding exactly on the runs in which a buffer is only ever popped
when no write is (`one_write_iff`). Nothing in the program sees to that; a
caller could, by when it queues messages (`one_write_of_keepsApart`).
-/

namespace Sender

variable {s s' t : Sender} {e : SendEvent} {outs : List SendCall}

/-- **A buffer is popped alone**: when `DoSend` pops one that it can copy to
its array, no write is outstanding. -/
def Alone (s : Sender) : SendEvent → Prop
  | .iterate => ∀ b rest, s.lockfree_queue = b :: rest → b.GetTotalLenth ≤ 1024 →
      s.writes = []
  | _ => True

/-- **At most one write stays at most one** exactly if buffers are popped
alone. -/
theorem alone_iff (hfits : ∀ b ∈ s.lockfree_queue, b.Fits) (hs : s.writes.length ≤ 1)
    (h : Step s e outs s') : s.Alone e ↔ s'.writes.length ≤ 1 := by
  cases h with
  | @SendMessageData _ m b hb =>
    rw [(s.SendMessageData_frame b).2.2.2]
    exact iff_of_true trivial hs
  | @response _ fresh buffer b hrun hlen hb =>
    show True ↔ (s.push b).1.writes.length ≤ 1
    rw [(s.push_frame b).2.2]
    exact iff_of_true trivial hs
  | run hrun hposted => exact iff_of_true trivial hs
  | @iterate _ call call' b rest size hrun hqueue hok =>
    obtain ⟨hle, -⟩ := iterate_eq_ok (hfits b (hqueue ▸ List.mem_cons_self)) hok
    have hlen : (s.writes ++ [AsyncWrite.mk b s.calls size 0]).length ≤ 1
        ↔ s.writes = [] := by
      rw [List.length_append, List.length_singleton, ← List.length_eq_zero_iff]
      omega
    show (∀ b' rest', s.lockfree_queue = b' :: rest' → _ → s.writes = []) ↔ _
    rw [hlen, hqueue]
    exact ⟨fun h => h b rest rfl hle, fun h _ _ _ _ => h⟩
  | @overrun _ call b rest f hrun hqueue herror =>
    have hlt := lt_of_iterate_eq_error (hfits b (hqueue ▸ List.mem_cons_self)) herror
    refine iff_of_true (fun b' rest' hcons hle => ?_) hs
    obtain ⟨rfl, -⟩ := List.cons.inj (hqueue.symm.trans hcons)
    omega
  | @finish _ call hrun hqueue => exact iff_of_true trivial hs
  | @write_some _ i n w hw hpos hle =>
    refine iff_of_true trivial ?_
    rw [List.length_set]
    exact hs
  | @HandWritedata _ i error w hrun hw hdone =>
    have hle : (s.writes.eraseIdx i).length ≤ 1 := (List.length_eraseIdx_le _ _).trans hs
    cases error <;> exact iff_of_true trivial hle

/-- **At most one write is outstanding in all states of a run exactly if in all
its steps buffers are popped alone.** Four steps lead to `DoSend`, and none of
them looks whether a write is outstanding; but only a pop starts one. So it is
enough to look at the pops, in whatever order the steps come. -/
theorem one_write_iff (es : List SendEvent) (outs : List SendCall) (t : Sender) :
    Run (Machine.where Step (fun s e _ _ => s.Alone e)) new es outs t
      ↔ Run (Machine.where Step (fun _ _ _ s' => s'.writes.length ≤ 1)) new es outs t := by
  have hpres : ∀ s e outs s', (∀ b ∈ s.lockfree_queue, b.Fits) ∧ s.writes.length ≤ 1 →
      Step s e outs s' → s.Alone e →
      (∀ b ∈ s'.lockfree_queue, b.Fits) ∧ s'.writes.length ≤ 1 :=
    fun s e outs s' hs h halone => ⟨step_fits hs.1 h, (alone_iff hs.1 hs.2 h).mp halone⟩
  have hnew : (∀ b ∈ new.lockfree_queue, b.Fits) ∧ new.writes.length ≤ 1 :=
    ⟨fun b hb => absurd hb List.not_mem_nil, Nat.zero_le 1⟩
  exact Run.where_congr_of hpres (fun s e outs s' hs h => alone_iff hs.1 hs.2 h) hnew

/-- It is not true that at most one write is outstanding: two messages are
queued, and one call of `DoSend` starts a write for each. -/
theorem not_forall_one_write : ¬ ∀ es outs t, Run Step new es outs t →
    t.writes.length ≤ 1 := by
  obtain ⟨b, hb⟩ := CNetManager.exists_messageBuffer (m := .empty) (by decide)
  obtain ⟨hfits, htotal, -⟩ := CNetManager.fits_of_messageBuffer hb
  have hle : b.GetTotalLenth ≤ 1024 := by
    rw [htotal]
    decide
  obtain ⟨call₁, size₁, hok₁⟩ := exists_iterate hfits hle ⟨none, MemBlock.ofFn (fun _ => 0) 1024⟩
  obtain ⟨call₂, size₂, hok₂⟩ := exists_iterate hfits hle call₁
  have hfirst : Step new (.SendMessageData .empty) _ (new.SendMessageData b) :=
    .SendMessageData hb
  have hsecond : Step (new.SendMessageData b) (.SendMessageData .empty) _
      ((new.SendMessageData b).SendMessageData b) := .SendMessageData hb
  have hrun : Step ((new.SendMessageData b).SendMessageData b) .run [] _ := .run rfl rfl
  have hpop := Step.iterate (s := { (new.SendMessageData b).SendMessageData b with
    posted := 1 }.begin) rfl rfl hok₁
  have hpop' := Step.iterate (s := ⟨[b], 1, 1, some call₁, [⟨b, 1, size₁, 0⟩]⟩) rfl rfl hok₂
  intro h
  have hlen := h _ _ _
    (.cons hfirst (.cons hsecond (.cons hrun (.cons hpop (.single hpop')))))
  exact absurd hlen (by decide : ¬ 2 ≤ 1)

/-! ## A schedule that keeps to one write -/

/-- How many of the queued buffers `DoSend` can copy to its array. -/
def sendable (s : Sender) : ℕ := s.lockfree_queue.countP (·.GetTotalLenth ≤ 1024)

/-- **The calls of `DoSend` are kept apart**: nothing is queued while one of
them is under way, and one begins only when no write is outstanding, but for
the one that has just completed, and there is no more than one buffer that it
can send. A response is such a buffer itself. -/
def KeepsApart (s : Sender) : SendEvent → Prop
  | .SendMessageData _ => s.running = none
  | .response _ _ => s.writes = [] ∧ s.sendable = 0
  | .run => s.writes = [] ∧ s.sendable ≤ 1
  | .HandWritedata _ error => error = false → s.sendable ≤ 1
  | _ => True

/-- What such a schedule keeps: a call has at most one write to start, and has
started it or finds no other outstanding. -/
structure Apart (s : Sender) : Prop where
  fits : ∀ b ∈ s.lockfree_queue, b.Fits
  writes : s.writes.length ≤ 1
  running : s.running ≠ none → s.writes.length + s.sendable ≤ 1

/-- A push adds at most one buffer. -/
theorem sendable_push_le (b : CDataBuffer) (s : Sender) :
    (s.push b).1.sendable ≤ s.sendable + 1 := by
  unfold push sendable
  split_ifs
  · dsimp only
    rw [List.countP_append]
    exact Nat.add_le_add_left List.countP_le_length _
  · exact Nat.le_succ _

/-- **A step that keeps the calls apart keeps to that.** -/
theorem Apart.step (hs : s.Apart) (h : Step s e outs s') (he : s.KeepsApart e) : s'.Apart := by
  have hfits := step_fits hs.fits h
  cases h with
  | @SendMessageData _ m b hb =>
    obtain ⟨-, -, hrunning, hwrites⟩ := s.SendMessageData_frame b
    have hnone : s.running = none := he
    exact ⟨hfits, hwrites ▸ hs.writes, fun h => absurd (hrunning.trans hnone) h⟩
  | @response _ fresh buffer b hrun hlen hb =>
    obtain ⟨hnil, hzero⟩ := he
    have hwrites : (s.push b).1.begin.writes = [] := (s.push_frame b).2.2.trans hnil
    have hsendable : (s.push b).1.begin.sendable ≤ s.sendable + 1 := sendable_push_le b s
    refine ⟨hfits, ?_, fun _ => ?_⟩
    · exact hwrites ▸ Nat.zero_le 1
    · rw [hwrites, List.length_nil]
      omega
  | run hrun hposted =>
    obtain ⟨hnil, hone⟩ := he
    refine ⟨hfits, hs.writes, fun _ => ?_⟩
    show s.writes.length + s.sendable ≤ 1
    rw [hnil, List.length_nil, Nat.zero_add]
    exact hone
  | @iterate _ call call' b rest size hrun hqueue hok =>
    obtain ⟨hle, -⟩ := iterate_eq_ok (hs.fits b (hqueue ▸ List.mem_cons_self)) hok
    have hsum := hs.running (hrun ▸ Option.some_ne_none call)
    have hcount : s.sendable = rest.countP (·.GetTotalLenth ≤ 1024) + 1 := by
      unfold sendable
      rw [hqueue]
      exact List.countP_cons_of_pos (decide_eq_true hle)
    have hlen : (s.writes ++ [AsyncWrite.mk b s.calls size 0]).length
        + rest.countP (·.GetTotalLenth ≤ 1024) ≤ 1 := by
      rw [List.length_append, List.length_singleton]
      omega
    exact ⟨hfits, (Nat.le_add_right _ _).trans hlen, fun _ => hlen⟩
  | overrun hrun hqueue herror => exact ⟨hfits, hs.writes, fun h => absurd rfl h⟩
  | finish hrun hqueue => exact ⟨hfits, hs.writes, fun h => absurd rfl h⟩
  | @write_some _ i n w hw hpos hle =>
    have hlen : (s.writes.set i { w with written := w.written + n }).length = s.writes.length :=
      List.length_set
    exact ⟨hfits, hlen ▸ hs.writes, fun h => hlen ▸ hs.running h⟩
  | @HandWritedata _ i error w hrun hw hdone =>
    have hlt := (List.getElem?_eq_some_iff.mp hw).1
    have hlen := List.length_eraseIdx_of_lt hlt
    have hone := hs.writes
    cases error with
    | true =>
      refine ⟨hfits, ?_, fun h => absurd hrun h⟩
      show (s.writes.eraseIdx i).length ≤ 1
      omega
    | false =>
      have hsum : (s.writes.eraseIdx i).length + s.sendable ≤ 1 := by
        have := he rfl
        omega
      exact ⟨hfits, (Nat.le_add_right _ _).trans hsum, fun _ => hsum⟩

/-- **At most one write is outstanding while the calls of `DoSend` are kept
apart.** The condition looks at the calls as they begin and not at every pop,
so that whoever queues messages can see to it: one message at a time, and the
next when the write of the last has completed. -/
theorem one_write_of_keepsApart {es : List SendEvent}
    (hr : Run (Machine.where Step (fun s e _ _ => s.KeepsApart e)) new es outs t) :
    t.writes.length ≤ 1 := by
  have hnew : new.Apart :=
    ⟨fun b hb => absurd hb List.not_mem_nil, Nat.zero_le 1, fun h => absurd rfl h⟩
  exact (hr.invariant (fun _ _ _ _ hs h => hs.step h.1 h.2) hnew).writes

end Sender
