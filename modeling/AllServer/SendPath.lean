import AllServer.Sender

/-!
# What is written is what was queued, or not

Buffers leave `lockfree_queue` in the order in which they were pushed
(`run_fifo`). What becomes of them depends on three lengths that `DoSend` does
not compare: the bytes in use, which it copies; the size of its array, which
the copy must not exceed; and the size class of the buffer, which limits the
write. They agree on buffers with 1024 bytes in use and on no others
(`right_iff_of_iterate`).

The writes are carried out later, from an array that all buffers popped in one
call share and that is gone when the call returns. A write is carried out as
it was meant while its call still runs and the buffer popped last has the same
bytes (`written_iff`).
-/

/-- The buffer that a call pushes. -/
def SendCall.pushed : SendCall → List CDataBuffer
  | .push pBuff true => [pBuff]
  | _ => []

/-- The buffer that was popped for a call. -/
def SendCall.popped : SendCall → List CDataBuffer
  | .async_write pBuffer _ => [pBuffer]
  | .overrun pBuffer => [pBuffer]
  | _ => []

/-- **The call is as it was meant**: a write is handed exactly the bytes in
use of its buffer, and what the socket takes of it are these bytes. -/
def SendCall.Right : SendCall → Prop
  | .async_write pBuffer data => data = pBuffer.content
  | .overrun _ => False
  | .write_some w n data => data = some ((w.pBuffer.content.drop w.written).take n)
  | .AllocDataBuff _ | .push _ _ => True

namespace Sender

variable {s s' t : Sender} {e : SendEvent} {es : List SendEvent} {outs : List SendCall}
variable {b : CDataBuffer} {call call' : DoSendCall} {size : ℕ}

/-! ## First in, first out -/

/-- A push puts the buffer at the end of the queue if it succeeds. -/
theorem queue_push (b : CDataBuffer) (s : Sender) :
    (s.push b).1.lockfree_queue
      = s.lockfree_queue ++ SendCall.pushed (.push b (s.push b).2) := by
  unfold push
  split_ifs
  · rfl
  · exact (List.append_nil _).symm

/-- **One step keeps the queue in order.** -/
theorem step_fifo (h : Step s e outs s') :
    s.lockfree_queue ++ outs.flatMap SendCall.pushed
      = outs.flatMap SendCall.popped ++ s'.lockfree_queue := by
  cases h with
  | @SendMessageData _ m b hb =>
    show _ = (s.SendMessageData b).lockfree_queue
    rw [(s.SendMessageData_frame b).1, queue_push]
    exact congrArg (s.lockfree_queue ++ ·) (List.append_nil _)
  | @response _ fresh buffer b hrun hlen hb =>
    show _ = (s.push b).1.lockfree_queue
    rw [queue_push]
    exact congrArg (s.lockfree_queue ++ ·) (List.append_nil _)
  | iterate hrun hqueue hok => exact (List.append_nil _).trans hqueue
  | overrun hrun hqueue herror => exact (List.append_nil _).trans hqueue
  | @HandWritedata _ i error w hrun hw hdone =>
    cases error <;> exact List.append_nil _
  | run | finish | write_some => exact List.append_nil _

/-- **First in, first out**, over a whole run. -/
theorem run_fifo (hr : Run Step s es outs t) :
    s.lockfree_queue ++ outs.flatMap SendCall.pushed
      = outs.flatMap SendCall.popped ++ t.lockfree_queue :=
  hr.conserved_outputs (fun _ _ _ _ => step_fifo)

/-- **Whatever is pushed fits its buffer.** -/
theorem pushed_fits (h : Step s e outs s') :
    ∀ b ∈ outs.flatMap SendCall.pushed, b.Fits := by
  have hpush : ∀ {nSize : ℤ} {b : CDataBuffer} {ok : Bool}, b.Fits →
      ∀ b' ∈ [.AllocDataBuff nSize, .push b ok].flatMap SendCall.pushed, b'.Fits := by
    intro nSize b ok hb b' hb'
    cases ok with
    | true => exact List.mem_singleton.mp hb' ▸ hb
    | false => exact absurd hb' List.not_mem_nil
  cases h with
  | SendMessageData hb => exact hpush (CNetManager.fits_of_messageBuffer hb).1
  | @response _ fresh buffer b hrun hlen hb =>
    obtain ⟨b', hb', hfits, -⟩ := CNetSession.responseBuffer_eq_ok fresh buffer
      (show buffer.length < MAX_PKG_SIZE by rw [MAX_PKG_SIZE_eq]; omega)
    obtain rfl := Except.ok.inj (hb.symm.trans hb')
    exact hpush hfits
  | run | iterate | overrun | finish | write_some | HandWritedata =>
    exact fun b hb => absurd hb List.not_mem_nil

/-- So whatever is queued fits its buffer. -/
theorem step_fits (hs : ∀ b ∈ s.lockfree_queue, b.Fits) (h : Step s e outs s') :
    ∀ b ∈ s'.lockfree_queue, b.Fits := by
  intro b hb
  have hmem : b ∈ s.lockfree_queue ++ outs.flatMap SendCall.pushed := by
    rw [step_fifo h]
    exact List.mem_append_right _ hb
  exact (List.mem_append.mp hmem).elim (hs b) (pushed_fits h b)

/-! ## One turn of the loop -/

/-- **A turn that succeeds** leaves the content of its buffer at the front of
the array. -/
theorem iterate_eq_ok (hb : b.Fits) (h : iterate b call = .ok (call', size)) :
    b.GetTotalLenth ≤ 1024 ∧ call'.pBuffer = some b ∧ size = min 1024 b.m_nBufSize
      ∧ call'.buf.slice 0 b.GetTotalLenth = b.content := by
  have hlen := CDataBuffer.length_content hb.le_size
  unfold iterate at h
  rw [CDataBuffer.CopyTo_eq hb] at h
  split_ifs at h with hle
  · obtain ⟨rfl, rfl⟩ := Prod.mk.inj (Except.ok.inj h)
    have hslice := call.buf.slice_zero_patch 0 b.content hle
    rw [MemBlock.slice_zero, List.nil_append, Nat.zero_add, hlen] at hslice
    exact ⟨by omega, rfl, rfl, hslice⟩
  · cases h

/-- **A turn succeeds** on what the array can hold. -/
theorem exists_iterate (hb : b.Fits) (hle : b.GetTotalLenth ≤ 1024) (call : DoSendCall) :
    ∃ call' size, iterate b call = .ok (call', size) := by
  have hlen := CDataBuffer.length_content hb.le_size
  unfold iterate
  rw [CDataBuffer.CopyTo_eq hb, dif_pos (show 0 + b.content.length ≤ 1024 by omega)]
  exact ⟨_, _, rfl⟩

/-- **A turn that fails** has more to copy than the array can hold. -/
theorem lt_of_iterate_eq_error (hb : b.Fits) {f : Fault} (h : iterate b call = .error f) :
    1024 < b.GetTotalLenth := by
  have hlen := CDataBuffer.length_content hb.le_size
  unfold iterate at h
  rw [CDataBuffer.CopyTo_eq hb] at h
  split_ifs at h with hle
  · cases h
  · omega

/-- **The three lengths agree** where 1024 bytes are in use, and nowhere
else. -/
theorem right_iff_of_iterate (hb : b.Fits) (h : iterate b call = .ok (call', size)) :
    call'.buf.slice 0 size = b.content ↔ b.GetTotalLenth = 1024 := by
  obtain ⟨hle, -, hsize, hslice⟩ := iterate_eq_ok hb h
  have hlt := hb.lt_size (by rw [MAX_PKG_SIZE_eq]; omega)
  constructor
  · intro heq
    have hlen := congrArg List.length heq
    rw [MemBlock.length_slice _ (by omega), CDataBuffer.length_content hb.le_size] at hlen
    omega
  · intro htotal
    have hmin : size = b.GetTotalLenth := by omega
    rw [hmin, hslice]

/-! ## Filling and draining the queue -/

/-- **Messages for which there is room** are all queued. -/
theorem exists_run_fill {m : Message} (hb : CNetManager.messageBuffer m = .ok b) (k : ℕ)
    (hroom : s.lockfree_queue.length + k ≤ QUEUE_CAPACITY) :
    ∃ outs, Run Step s (List.replicate k (.SendMessageData m)) outs
      { s with
        lockfree_queue := s.lockfree_queue ++ List.replicate k b
        posted := s.posted + k } := by
  induction k generalizing s with
  | zero => exact ⟨[], by simpa using Run.nil s⟩
  | succ k ih =>
    have hstep : Step s (.SendMessageData m) _ (s.SendMessageData b) := .SendMessageData hb
    rw [SendMessageData_of_room (by omega)] at hstep
    obtain ⟨outs, hr⟩ := ih (s := { s with
      lockfree_queue := s.lockfree_queue ++ [b], posted := s.posted + 1 }) (by simp; omega)
    rw [List.append_assoc, List.singleton_append, ← List.replicate_succ, Nat.add_assoc,
      Nat.add_comm 1] at hr
    exact ⟨_, .cons hstep hr⟩

/-- **A call of `DoSend` ends**: where it can copy all that is queued, it pops one
buffer after the other and then returns. -/
theorem exists_run_drain (hrun : s.running = some call)
    (hqueue : ∀ b ∈ s.lockfree_queue, b.Fits ∧ b.GetTotalLenth ≤ 1024) :
    ∃ outs t, Run Step s (List.replicate s.lockfree_queue.length .iterate ++ [.finish]) outs t
      ∧ t.running = none := by
  obtain ⟨queue, posted, calls, running, writes⟩ := s
  dsimp only at hrun hqueue
  subst hrun
  induction queue generalizing call writes with
  | nil => exact ⟨_, _, .single (.finish rfl rfl), rfl⟩
  | cons b queue ih =>
    obtain ⟨⟨hfits, hle⟩, hrest⟩ := List.forall_mem_cons.mp hqueue
    obtain ⟨call', size, hok⟩ := exists_iterate hfits hle call
    obtain ⟨outs, t, hr, ht⟩ : ∃ outs t,
        Run Step ⟨queue, posted, calls, some call', writes ++ [⟨b, calls, size, 0⟩]⟩
          (List.replicate queue.length .iterate ++ [.finish]) outs t ∧ t.running = none :=
      ih _ hrest
    exact ⟨_, t, .cons (.iterate rfl rfl hok) hr, ht⟩

/-! ## Runs -/

/-- **The piece is still there**: the call of `DoSend` that asked for the
write is under way, and the buffer it has popped last has the same bytes. -/
def StillThere (s : Sender) (w : AsyncWrite) (n : ℕ) : Prop :=
  w.call = s.calls ∧ ∃ call b, s.running = some call ∧ call.pBuffer = some b
    ∧ (b.content.drop w.written).take n = (w.pBuffer.content.drop w.written).take n

/-- **The step is safe**: a buffer that is popped has 1024 bytes in use, and a
piece that is taken is still there. -/
def Safe (s : Sender) : SendEvent → Prop
  | .iterate => ∀ b rest, s.lockfree_queue = b :: rest → b.GetTotalLenth = 1024
  | .write_some i n => ∀ w, s.writes[i]? = some w → s.StillThere w n
  | _ => True

/-- What safe steps keep: what is queued fits its buffer, and the array of the
call that is under way holds what the buffer popped last does. -/
structure Sound (s : Sender) : Prop where
  fits : ∀ b ∈ s.lockfree_queue, b.Fits
  calls_le : ∀ w ∈ s.writes, w.call ≤ s.calls
  buf_eq : ∀ call b, s.running = some call → call.pBuffer = some b → call.buf.cells = b.content
  fresh : ∀ call, s.running = some call → call.pBuffer = none → ∀ w ∈ s.writes, w.call ≠ s.calls

theorem sound_new : new.Sound := by
  refine ⟨?_, ?_, ?_, ?_⟩ <;> simp [new]

/-- **What a piece consists of** is right exactly where it is still there. -/
theorem written_iff (hs : s.Sound) {w : AsyncWrite} (hw : w ∈ s.writes) (n : ℕ) :
    s.taken w n = some ((w.pBuffer.content.drop w.written).take n) ↔ s.StillThere w n := by
  unfold taken StillThere
  cases hrun : s.running with
  | none => simp
  | some call =>
    by_cases hcall : w.call = s.calls
    · cases hb : call.pBuffer with
      | none => exact absurd hcall (hs.fresh call hrun hb w hw)
      | some b =>
        have hbuf : call.buf.slice w.written n = (b.content.drop w.written).take n :=
          congrArg (fun cells => (List.drop w.written cells).take n) (hs.buf_eq call b hrun hb)
        simp only [if_pos hcall, hbuf, Option.some.injEq]
        exact ⟨fun h => ⟨hcall, call, b, rfl, hb, h⟩,
          fun ⟨_, _, _, hc, hb', h⟩ => by
            have hpBuffer := (congrArg DoSendCall.pBuffer hc).trans hb'
            obtain rfl := Option.some.inj (hb.symm.trans hpBuffer)
            exact h⟩
    · simp [hcall]

/-- **A step is safe exactly if its calls are right.** -/
theorem safe_iff (hs : s.Sound) (h : Step s e outs s') :
    s.Safe e ↔ ∀ o ∈ outs, o.Right := by
  cases h with
  | SendMessageData | response =>
    exact iff_of_true trivial (by simp [SendCall.Right])
  | run | finish | HandWritedata => exact iff_of_true (by simp [Safe]) (by simp)
  | @iterate _ call call' b rest size hrun hqueue hok =>
    have hb := hs.fits b (hqueue ▸ List.mem_cons_self)
    have hright : SendCall.Right (.async_write b (call'.buf.slice 0 size))
        ↔ b.GetTotalLenth = 1024 := right_iff_of_iterate hb hok
    have halloc : SendCall.Right (.AllocDataBuff RECV_BUF_SIZE) := trivial
    rw [List.forall_mem_cons, List.forall_mem_singleton, hright, and_iff_right halloc]
    show (∀ b' rest', s.lockfree_queue = b' :: rest' → b'.GetTotalLenth = 1024) ↔ _
    rw [hqueue]
    exact ⟨fun h => h b rest rfl, fun h b' _ hcons => (List.cons.inj hcons).1 ▸ h⟩
  | @overrun _ call b rest f hrun hqueue herror =>
    have hb := hs.fits b (hqueue ▸ List.mem_cons_self)
    have hlt := lt_of_iterate_eq_error hb herror
    refine iff_of_false (fun h => ?_) (fun h => h _ (List.mem_cons_of_mem _ List.mem_cons_self))
    have htotal : b.GetTotalLenth = 1024 := h b rest hqueue
    omega
  | @write_some _ i n w hw hpos hle =>
    have hmem := List.mem_of_getElem? hw
    rw [List.forall_mem_singleton]
    show (∀ w', s.writes[i]? = some w' → s.StillThere w' n) ↔ _
    rw [hw]
    exact ⟨fun h => (written_iff hs hmem n).mpr (h w rfl),
      fun h w' hw' => Option.some.inj hw' ▸ (written_iff hs hmem n).mp h⟩

/-- Soundness is about the queue and the last call. -/
theorem Sound.of_frame (hs : s.Sound) (hqueue : ∀ b ∈ s'.lockfree_queue, b.Fits)
    (hcalls : s'.calls = s.calls) (hrunning : s'.running = s.running)
    (hwrites : s'.writes = s.writes) : s'.Sound := by
  refine ⟨hqueue, ?_, ?_, ?_⟩
  · rw [hwrites, hcalls]
    exact hs.calls_le
  · rw [hrunning]
    exact hs.buf_eq
  · rw [hrunning, hwrites, hcalls]
    exact hs.fresh

/-- **A call of `DoSend` that begins** has an array of its own, which no write
was given. -/
theorem Sound.begin (hs : s.Sound) : s.begin.Sound := by
  refine ⟨hs.fits, fun w hw => Nat.le_succ_of_le (hs.calls_le w hw), ?_, ?_⟩
  · intro call b hrun hb
    rw [← Option.some.inj hrun] at hb
    exact absurd hb.symm (Option.some_ne_none b)
  · intro call _ _ w hw
    exact Nat.ne_of_lt (Nat.lt_succ_of_le (hs.calls_le w hw))

/-- The writes may be replaced by ones that were given the same arrays. -/
theorem Sound.of_writes (hs : s.Sound) {writes : List AsyncWrite}
    (h : ∀ w ∈ writes, ∃ w' ∈ s.writes, w.call = w'.call) :
    Sound { s with writes } := by
  refine ⟨hs.fits, fun w hw => ?_, hs.buf_eq, fun call hrun hnone w hw => ?_⟩ <;>
    obtain ⟨w', hw', hcall⟩ := h w hw
  · exact hcall ▸ hs.calls_le w' hw'
  · exact hcall ▸ hs.fresh call hrun hnone w' hw'

/-- **A safe step keeps the state sound.** -/
theorem step_sound (hs : s.Sound) (h : Step s e outs s') (hsafe : s.Safe e) : s'.Sound := by
  have hqueue' := step_fits hs.fits h
  cases h with
  | @SendMessageData _ m b hb =>
    obtain ⟨-, hcalls, hrunning, hwrites⟩ := s.SendMessageData_frame b
    exact hs.of_frame hqueue' hcalls hrunning hwrites
  | @response _ fresh buffer b hrun hlen hb =>
    obtain ⟨hcalls, hrunning, hwrites⟩ := s.push_frame b
    have hpush : (s.push b).1.Sound := hs.of_frame hqueue' hcalls hrunning hwrites
    exact hpush.begin
  | run hrun hposted => exact Sound.begin (hs.of_frame hs.fits rfl rfl rfl)
  | @iterate _ call call' b rest size hrun hqueue hok =>
    have hb := hs.fits b (hqueue ▸ List.mem_cons_self)
    have htotal : b.GetTotalLenth = 1024 := hsafe b rest hqueue
    obtain ⟨-, hpBuffer, -, hslice⟩ := iterate_eq_ok hb hok
    refine ⟨hqueue', ?_, ?_, ?_⟩
    · exact List.forall_mem_append.mpr ⟨hs.calls_le, List.forall_mem_singleton.mpr le_rfl⟩
    · -- 1024 bytes have been copied, which is all that the array holds
      intro call₁ b₁ hrun₁ hb₁
      obtain rfl := Option.some.inj hrun₁
      obtain rfl := Option.some.inj (hpBuffer.symm.trans hb₁)
      rw [← hslice, htotal]
      exact (List.take_of_length_le (le_of_eq call'.buf.length_cells)).symm
    · intro call₁ hrun₁ hnone
      obtain rfl := Option.some.inj hrun₁
      exact absurd (hpBuffer.symm.trans hnone) (Option.some_ne_none b)
  | @overrun _ call b rest f hrun hqueue herror =>
    -- a buffer of 1024 bytes does not overrun the array
    have hlt := lt_of_iterate_eq_error (hs.fits b (hqueue ▸ List.mem_cons_self)) herror
    have htotal : b.GetTotalLenth = 1024 := hsafe b rest hqueue
    omega
  | finish hrun hqueue =>
    exact ⟨hs.fits, hs.calls_le, fun _ _ hnone => absurd hnone.symm (Option.some_ne_none _),
      fun _ hnone => absurd hnone.symm (Option.some_ne_none _)⟩
  | @write_some _ i n w hw hpos hle =>
    refine hs.of_writes (fun w' hw' => ?_)
    rcases List.mem_or_eq_of_mem_set hw' with hmem | rfl
    · exact ⟨w', hmem, rfl⟩
    · exact ⟨w, List.mem_of_getElem? hw, rfl⟩
  | @HandWritedata _ i error w hrun hw hdone =>
    have herase : Sound { s with writes := s.writes.eraseIdx i } :=
      hs.of_writes (fun w' hw' => ⟨w', List.mem_of_mem_eraseIdx hw', rfl⟩)
    cases error
    · exact herase.begin
    · exact herase

/-- **What is queued is what is written exactly on the runs whose steps are
safe.** Buffers are popped in the order in which they were pushed in any case. A
write names an array of `DoSend`, which is filled again by the next turn and gone
when the call has returned, while asio takes the bytes later and piece by piece.
So the bytes that are taken are right as long as the array still has them. -/
theorem sent_iff (es : List SendEvent) (outs : List SendCall) (t : Sender) :
    (Run Step new es outs t →
        outs.flatMap SendCall.pushed = outs.flatMap SendCall.popped ++ t.lockfree_queue)
      ∧ (Run (Machine.where Step (fun s e _ _ => s.Safe e)) new es outs t
          ↔ Run Step new es outs t ∧ ∀ o ∈ outs, o.Right) :=
  ⟨run_fifo, Run.where_iff_outputs_of (fun _ _ _ _ => step_sound)
    (fun _ _ _ _ => safe_iff) sound_new⟩

/-- A message without a body is queued, and popped by the call of `DoSend` that is
posted for it. -/
theorem exists_steps_empty : ∃ (b : CDataBuffer) (call' : DoSendCall) (size : ℕ),
    b.Fits ∧ b.GetTotalLenth = HEADER_LEN
      ∧ iterate b ⟨none, MemBlock.ofFn (fun _ => 0) 1024⟩ = .ok (call', size)
      ∧ Step new (.SendMessageData .empty) [.AllocDataBuff (toInt HEADER_LEN), .push b true]
        (new.SendMessageData b)
      ∧ Step (new.SendMessageData b) .run [] { new.SendMessageData b with posted := 0 }.begin
      ∧ Step { new.SendMessageData b with posted := 0 }.begin .iterate
        [.AllocDataBuff RECV_BUF_SIZE, .async_write b (call'.buf.slice 0 size)]
        ⟨[], 0, 1, some call', [⟨b, 1, size, 0⟩]⟩ := by
  obtain ⟨b, hb⟩ := CNetManager.exists_messageBuffer (m := .empty) (by decide)
  obtain ⟨hfits, htotal, -⟩ := CNetManager.fits_of_messageBuffer hb
  obtain ⟨call', size, hok⟩ := exists_iterate hfits (by rw [htotal]; decide)
    ⟨none, MemBlock.ofFn (fun _ => 0) 1024⟩
  exact ⟨b, call', size, hfits, htotal, hok, .SendMessageData hb, .run rfl rfl,
    .iterate rfl rfl hok⟩

/-- A message without a body is popped, and the write of it is handed more
bytes than it has. -/
theorem exists_run_empty : ∃ b data t,
    Run Step new [.SendMessageData .empty, .run, .iterate]
        [.AllocDataBuff (toInt HEADER_LEN), .push b true, .AllocDataBuff RECV_BUF_SIZE,
          .async_write b data] t
      ∧ ¬ (SendCall.async_write b data).Right := by
  obtain ⟨b, call', size, hfits, htotal, hok, hsend, hrun, hiterate⟩ := exists_steps_empty
  refine ⟨b, _, _, .cons hsend (.cons hrun (.single hiterate)), fun hright => ?_⟩
  have hlen : b.GetTotalLenth = 1024 := (right_iff_of_iterate hfits hok).mp hright
  exact absurd (htotal.symm.trans hlen) (by decide)

/-- So it is queued and popped, first in and first out. -/
theorem sent_iff_empty : ∃ outs t, Run Step new [.SendMessageData .empty, .run, .iterate] outs t
    ∧ outs.flatMap SendCall.popped ≠ []
    ∧ outs.flatMap SendCall.pushed = outs.flatMap SendCall.popped ++ t.lockfree_queue := by
  obtain ⟨b, data, t, hr, -⟩ := exists_run_empty
  exact ⟨_, t, hr, List.cons_ne_nil b [], (sent_iff _ _ t).1 hr⟩

/-- It is not true that every write is handed the bytes in use of its
buffer. -/
theorem not_forall_right : ¬ ∀ es outs t, Run Step new es outs t →
    outs.flatMap SendCall.pushed = outs.flatMap SendCall.popped ++ t.lockfree_queue
      ∧ ∀ o ∈ outs, o.Right := by
  intro h
  obtain ⟨b, data, t, hr, hright⟩ := exists_run_empty
  exact hright ((h _ _ t hr).2 _ (by simp))

end Sender
