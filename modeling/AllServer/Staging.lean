import AllServer.SendPath

/-!
# The array of `DoSend`

`CopyTo` compares the bytes that it is going to copy with the length of the
destination. `DoSend` tells it the length of the source instead of the size of
its array, so nothing is compared with that: a buffer with more than 1024 bytes
in use is copied over its end. The range of the write is another matter.
`boost::asio::buffer` knows the size of the array, and cuts the size class of the
buffer down to it.

What a session has queued stays inside the array, now and whenever `DoSend` comes
to it, exactly if no message that was queued had more than 1024 bytes with its
header (`inside_iff`).
-/

namespace Sender

variable {s s' t : Sender} {e : SendEvent} {es : List SendEvent} {outs : List SendCall}
variable {call : DoSendCall}

/-- **The step stays inside the array**: nothing is copied over its end, and no
write of more than there is in it is asked for. -/
def Inside (_ : Sender) (_ : SendEvent) (outs : List SendCall) (s' : Sender) : Prop :=
  (∀ b, .overrun b ∉ outs) ∧ ∀ w ∈ s'.writes, w.size ≤ 1024

/-- **The message is short**, or there is no room for it in the queue. -/
def Short (s : Sender) : SendEvent → Prop
  | .SendMessageData m =>
    s.lockfree_queue.length < QUEUE_CAPACITY → m.pData.length + HEADER_LEN ≤ 1024
  | _ => True

/-- A step of the I/O thread and of the socket. -/
def Later : SendEvent → Prop
  | .SendMessageData _ => False
  | _ => True

/-- What has been pushed has been popped, or is queued. -/
theorem pushed_eq_of_run (hr : Run Step new es outs t) :
    outs.flatMap SendCall.pushed = outs.flatMap SendCall.popped ++ t.lockfree_queue :=
  run_fifo hr

/-! ## What is popped, and what is pushed -/

/-- **No write is asked for past the array.** -/
theorem step_size_le (hs : ∀ w ∈ s.writes, w.size ≤ 1024) (h : Step s e outs s') :
    ∀ w ∈ s'.writes, w.size ≤ 1024 := by
  cases h with
  | @SendMessageData _ m b hb =>
    rw [(s.SendMessageData_frame b).2.2.2]
    exact hs
  | @response _ fresh buffer b hrun hlen hb =>
    show ∀ w ∈ (s.push b).1.writes, w.size ≤ 1024
    rw [(s.push_frame b).2.2]
    exact hs
  | @iterate _ call call' b rest size hrun hqueue hok =>
    have hsize : size = min 1024 b.m_nBufSize := by
      obtain ⟨⟨buf, n⟩, -, hok⟩ := bind_eq_ok.mp hok
      exact (Prod.mk.inj (Except.ok.inj hok)).2.symm
    exact List.forall_mem_append.mpr ⟨hs, List.forall_mem_singleton.mpr (by show size ≤ _; omega)⟩
  | @write_some _ i n w hw hpos hle =>
    intro w' hw'
    rcases List.mem_or_eq_of_mem_set hw' with hmem | rfl
    · exact hs w' hmem
    · exact hs w (List.mem_of_getElem? hw)
  | @HandWritedata _ i error w hrun hw hdone =>
    cases error <;> exact fun w hw => hs w (List.mem_of_mem_eraseIdx hw)
  | run | overrun | finish => exact hs

/-- What every step keeps: what is queued fits its buffer, and what is being
written is in the array. -/
structure Staged (s : Sender) : Prop where
  fits : ∀ b ∈ s.lockfree_queue, b.Fits
  size_le : ∀ w ∈ s.writes, w.size ≤ 1024

theorem staged_new : new.Staged := ⟨List.forall_mem_nil _, List.forall_mem_nil _⟩

theorem step_staged (hs : s.Staged) (h : Step s e outs s') : s'.Staged :=
  ⟨step_fits hs.fits h, step_size_le hs.size_le h⟩

/-- **A step stays inside the array** exactly if what it pops can be held by
it. -/
theorem inside_step_iff (hs : s.Staged) (h : Step s e outs s') :
    Inside s e outs s' ↔ ∀ o ∈ outs, ∀ b ∈ o.popped, b.GetTotalLenth ≤ 1024 := by
  have hsize := step_size_le hs.size_le h
  cases h with
  | SendMessageData | response =>
    exact iff_of_true ⟨by simp, hsize⟩ (by simp [SendCall.popped])
  | run | finish | HandWritedata => exact iff_of_true ⟨by simp, hsize⟩ (by simp)
  | write_some => exact iff_of_true ⟨by simp, hsize⟩ (by simp [SendCall.popped])
  | @iterate _ call call' b rest size hrun hqueue hok =>
    have hle := (iterate_eq_ok (hs.fits b (hqueue ▸ List.mem_cons_self)) hok).1
    exact iff_of_true ⟨by simp, hsize⟩ (by simpa [SendCall.popped] using hle)
  | @overrun _ call b rest f hrun hqueue herror =>
    have hlt := lt_of_iterate_eq_error (hs.fits b (hqueue ▸ List.mem_cons_self)) herror
    refine iff_of_false (fun h => h.1 b (by simp)) (fun h => ?_)
    have hle := h (.overrun b) (by simp) b (List.mem_singleton_self b)
    omega

/-- **A run stays inside the array** exactly if all that it pops can be held by
it. -/
theorem inside_iff_popped :
    Run (Step.where Inside) new es outs t
      ↔ Run Step new es outs t ∧ ∀ o ∈ outs, ∀ b ∈ o.popped, b.GetTotalLenth ≤ 1024 := by
  have hcongr : Run (Step.where Inside) new es outs t ↔ Run (Step.where fun _ _ outs _ =>
      ∀ o ∈ outs, ∀ b ∈ o.popped, b.GetTotalLenth ≤ 1024) new es outs t :=
    Run.where_congr (fun _ _ _ _ => step_staged) (fun _ _ _ _ => inside_step_iff) staged_new
  exact hcongr.trans Run.where_forall_outputs

/-- **A message is short** exactly if what it pushes can be held by the array. A
response always is. -/
theorem short_step_iff (h : Step s e outs s') :
    s.Short e ↔ ∀ o ∈ outs, ∀ b ∈ o.pushed, b.GetTotalLenth ≤ 1024 := by
  cases h with
  | @SendMessageData _ m b hb =>
    have htotal := (CNetManager.fits_of_messageBuffer hb).2.1
    unfold Short push
    split_ifs with hroom
    · simp [SendCall.pushed, hroom, htotal, Nat.add_comm]
    · simp [SendCall.pushed, hroom]
  | @response _ fresh buffer b hrun hlen hb =>
    refine iff_of_true trivial ?_
    obtain ⟨b', hb', hfits, hcontent⟩ := CNetSession.responseBuffer_eq_ok fresh buffer
      (show buffer.length < MAX_PKG_SIZE by rw [MAX_PKG_SIZE_eq]; omega)
    obtain rfl := Except.ok.inj (hb.symm.trans hb')
    have htotal : b.GetTotalLenth ≤ 1024 := by
      rw [← CDataBuffer.length_content hfits.le_size, hcontent]
      omega
    cases (s.push b).2 <;> simp [SendCall.pushed, htotal]
  | run | finish | HandWritedata => exact iff_of_true trivial (by simp)
  | iterate | overrun | write_some => exact iff_of_true trivial (by simp [SendCall.pushed])

/-- **All messages are short** exactly if all that is pushed can be held by the
array. -/
theorem short_iff_pushed :
    Run (Step.where (fun s e _ _ => s.Short e)) new es outs t
      ↔ Run Step new es outs t ∧ ∀ o ∈ outs, ∀ b ∈ o.pushed, b.GetTotalLenth ≤ 1024 :=
  Run.where_iff_outputs (fun _ _ _ _ => step_staged) (fun _ _ _ _ _ => short_step_iff) staged_new

/-! ## What is queued is popped -/

/-- **Someone will come for what is queued**: a call of `DoSend` is under way, or
one has been posted. -/
def Pending (s : Sender) : Prop :=
  s.lockfree_queue = [] ∨ s.running ≠ none ∨ 0 < s.posted

/-- **A step that stays inside the array leaves nothing behind** in the queue. -/
theorem step_pending (hs : s.Pending) (h : Step s e outs s') (hin : Inside s e outs s') :
    s'.Pending := by
  cases h with
  | @SendMessageData _ m b hb =>
    by_cases hroom : s.lockfree_queue.length < QUEUE_CAPACITY
    · rw [SendMessageData_of_room hroom]
      exact .inr (.inr (Nat.succ_pos _))
    · rw [SendMessageData_of_full (Nat.le_of_not_lt hroom)]
      exact hs
  | response | run => exact .inr (.inl (Option.some_ne_none _))
  | iterate => exact .inr (.inl (Option.some_ne_none _))
  | overrun => exact absurd (List.mem_cons_of_mem _ List.mem_cons_self) (hin.1 _)
  | finish hrun hqueue => exact .inl hqueue
  | write_some => exact hs
  | @HandWritedata _ i error w hrun hw hdone =>
    cases error with
    | true => exact hs
    | false => exact .inr (.inl (Option.some_ne_none _))

/-- **A call of `DoSend` that has more to copy** than its array can hold runs
over it sooner or later. -/
theorem exists_run_overrun (hrun : s.running = some call) (hfits : ∀ b ∈ s.lockfree_queue, b.Fits)
    (hlong : ∃ b ∈ s.lockfree_queue, 1024 < b.GetTotalLenth) :
    ∃ n outs t b, Run Step s (List.replicate n .iterate) outs t
      ∧ .overrun b ∈ outs ∧ 1024 < b.GetTotalLenth := by
  obtain ⟨queue, posted, calls, running, writes⟩ := s
  dsimp only at hrun hfits hlong
  subst hrun
  induction queue generalizing call writes with
  | nil => exact absurd hlong.choose_spec.1 List.not_mem_nil
  | cons b queue ih =>
    obtain ⟨hb, hfits⟩ := List.forall_mem_cons.mp hfits
    by_cases hle : b.GetTotalLenth ≤ 1024
    · obtain ⟨b', hb', hlt⟩ := hlong
      have hmem : b' ∈ queue := by
        rcases List.mem_cons.mp hb' with rfl | hmem
        · omega
        · exact hmem
      obtain ⟨call', size, hok⟩ := exists_iterate hb hle call
      obtain ⟨n, outs, t, b'', hr, ho, hlt'⟩ : ∃ n outs t b'',
          Run Step ⟨queue, posted, calls, some call', writes ++ [⟨b, calls, size, 0⟩]⟩
            (List.replicate n .iterate) outs t ∧ .overrun b'' ∈ outs ∧ 1024 < b''.GetTotalLenth :=
        ih _ hfits ⟨b', hmem, hlt⟩
      exact ⟨n + 1, _, t, b'', .cons (.iterate rfl rfl hok) hr, List.mem_append_right _ ho, hlt'⟩
    · cases hok : iterate b call with
      | ok res => exact absurd (iterate_eq_ok hb hok).1 hle
      | error f =>
        exact ⟨1, _, _, b, .single (.overrun rfl rfl hok), by simp, Nat.lt_of_not_le hle⟩

/-- So does one that begins later. -/
theorem exists_run_overrun_of_pending (hs : s.Pending) (hfits : ∀ b ∈ s.lockfree_queue, b.Fits)
    (hlong : ∃ b ∈ s.lockfree_queue, 1024 < b.GetTotalLenth) :
    ∃ is outs t b, (∀ e ∈ is, Later e) ∧ Run Step s is outs t
      ∧ .overrun b ∈ outs ∧ 1024 < b.GetTotalLenth := by
  have hlater : ∀ n, ∀ e ∈ List.replicate n SendEvent.iterate, Later e := by
    intro n e he
    rw [List.eq_of_mem_replicate he]
    trivial
  cases hrun : s.running with
  | some call =>
    obtain ⟨n, outs, t, b, hr, ho, hlt⟩ := exists_run_overrun hrun hfits hlong
    exact ⟨_, outs, t, b, hlater n, hr, ho, hlt⟩
  | none =>
    rcases hs with hnil | hsome | hposted
    · rw [hnil] at hlong
      exact absurd hlong.choose_spec.1 List.not_mem_nil
    · exact absurd hrun hsome
    · obtain ⟨k, hk⟩ := Nat.exists_eq_succ_of_ne_zero (Nat.ne_of_gt hposted)
      obtain ⟨n, outs, t, b, hr, ho, hlt⟩ :=
        exists_run_overrun (s := { s with posted := k }.begin) rfl hfits hlong
      exact ⟨.run :: List.replicate n .iterate, outs, t, b,
        List.forall_mem_cons.mpr ⟨trivial, hlater n⟩, .cons (.run hrun hk) hr, ho, hlt⟩

/-! ## Runs -/

/-- **Short messages stay inside the array**, also when `DoSend` comes to them
later. -/
theorem inside_of_short (h : Run (Step.where (fun s e _ _ => s.Short e)) new es outs s)
    {is : List SendEvent} {outs' : List SendCall} (his : ∀ e ∈ is, Later e)
    (hr : Run Step s is outs' t) : Run (Step.where Inside) new (es ++ is) (outs ++ outs') t := by
  -- what comes later sends no message, so all messages are short still
  have hlater : Run (Step.where (fun s e _ _ => s.Short e)) s is outs' t := by
    refine Run.where_of_forall (fun e he s _ _ => ?_) hr
    have he := his e he
    cases e with
    | SendMessageData m => exact he.elim
    | response | run | iterate | finish | write_some | HandWritedata => trivial
  obtain ⟨hr, hpushed⟩ := short_iff_pushed.mp (h.append hlater)
  refine inside_iff_popped.mpr ⟨hr, fun o ho b hb => ?_⟩
  have hmem : b ∈ (outs ++ outs').flatMap SendCall.pushed := by
    rw [pushed_eq_of_run hr]
    exact List.mem_append_left _ (List.mem_flatMap.mpr ⟨o, ho, hb⟩)
  obtain ⟨o', ho', hb'⟩ := List.mem_flatMap.mp hmem
  exact hpushed o' ho' b hb'

/-- **What is queued is short** if nothing that may follow leaves the array: it will
be popped. -/
theorem queue_short (hr : Run (Step.where Inside) new es outs s)
    (h : ∀ is outs' t, (∀ e ∈ is, Later e) → Run Step s is outs' t →
      Run (Step.where Inside) new (es ++ is) (outs ++ outs') t) :
    ∀ b ∈ s.lockfree_queue, b.GetTotalLenth ≤ 1024 := by
  have hstaged : s.Staged := hr.of_where.invariant (fun _ _ _ _ => step_staged) staged_new
  have hpending : s.Pending :=
    hr.invariant (fun _ _ _ _ hs hst => step_pending hs hst.1 hst.2) (.inl rfl)
  by_contra hnot
  push Not at hnot
  obtain ⟨is, outs', t, b, his, hr', ho, hlt⟩ :=
    exists_run_overrun_of_pending hpending hstaged.fits hnot
  have hpopped := (inside_iff_popped.mp (h is outs' t his hr')).2
  have hle := hpopped _ (List.mem_append_right _ ho) b (List.mem_singleton_self b)
  omega

/-- **When the send path stays inside its array.** A session has queued short
messages only, and its responses, exactly if neither the run nor anything that
may follow on what it has queued leaves the array. -/
theorem inside_iff (es : List SendEvent) (outs : List SendCall) (s : Sender) :
    Run (Step.where (fun s e _ _ => s.Short e)) new es outs s
      ↔ Run Step new es outs s ∧ ∀ is outs' t, (∀ e ∈ is, Later e) → Run Step s is outs' t →
          Run (Step.where Inside) new (es ++ is) (outs ++ outs') t := by
  constructor
  · exact fun h => ⟨h.of_where, fun is outs' t his hr => inside_of_short h his hr⟩
  · rintro ⟨hr, h⟩
    have hin : Run (Step.where Inside) new es outs s := by
      have hnil := h [] [] s (List.forall_mem_nil _) (.nil s)
      rwa [List.append_nil, List.append_nil] at hnil
    have hpopped := (inside_iff_popped.mp hin).2
    refine short_iff_pushed.mpr ⟨hr, fun o ho b hb => ?_⟩
    have hmem : b ∈ outs.flatMap SendCall.popped ++ s.lockfree_queue := by
      rw [← pushed_eq_of_run hr]
      exact List.mem_flatMap.mpr ⟨o, ho, hb⟩
    rcases List.mem_append.mp hmem with hmem | hmem
    · obtain ⟨o', ho', hb'⟩ := List.mem_flatMap.mp hmem
      exact hpopped o' ho' b hb'
    · exact queue_short hin h b hmem

/-- It is not true that every run stays inside the array: a message of 997 bytes is
queued, and popped. -/
theorem not_forall_inside : ¬ ∀ es outs t, Run Step new es outs t →
    Run (Step.where Inside) new es outs t := by
  intro h
  let m : Message := ⟨1, 0, 0, List.replicate 997 0, fun _ => 0⟩
  have hlen : m.pData.length = 997 := List.length_replicate
  obtain ⟨b, hb⟩ := CNetManager.exists_messageBuffer (m := m)
    (by rw [hlen, MAX_PKG_SIZE_eq]; decide)
  obtain ⟨hfits, htotal, -⟩ := CNetManager.fits_of_messageBuffer hb
  rw [hlen] at htotal
  have hroom : new.lockfree_queue.length < QUEUE_CAPACITY := by decide
  have hsent : new.SendMessageData b = ⟨[b], 1, 0, none, []⟩ := SendMessageData_of_room hroom
  have hstep : Step new (.SendMessageData m) _ (new.SendMessageData b) := .SendMessageData hb
  rw [hsent] at hstep
  obtain ⟨is, outs, t, b', -, hr, ho, hlt⟩ := exists_run_overrun_of_pending
    (s := ⟨[b], 1, 0, none, []⟩) (.inr (.inr Nat.one_pos)) (List.forall_mem_singleton.mpr hfits)
    ⟨b, List.mem_singleton_self b, by rw [htotal]; decide⟩
  have hin := inside_iff_popped.mp (h _ _ t (.cons hstep hr))
  have hle := hin.2 _ (List.mem_append_right _ ho) b' (List.mem_singleton_self b')
  omega

end Sender
