import AllServer.Server
import Mathlib.Order.Bounds.Basic

/-!
# The sizes of buffers

`AllocDataBuff` hands out a buffer of the first size class above the size that
it is asked for. The sizes are compared as `int`s, and the last class, which is
meant for everything up to ten megabytes, has `10 * 1024 * 1014` bytes and is
taken for any size that no other class is above. So a buffer is big enough
exactly for a size below that (`big_enough_iff`). The packets and the responses
are far below it. The length of a message is not checked.
-/

/-- The first of a sorted list with a property is the least one. -/
theorem List.find?_le_of_pairwise {l : List ℕ} (hl : l.Pairwise (· < ·)) {p : ℕ → Bool} {a b : ℕ}
    (h : l.find? p = some a) (hb : b ∈ l) (hpb : p b = true) : a ≤ b := by
  obtain ⟨-, as, bs, rfl, has⟩ := List.find?_eq_some_iff_append.mp h
  rcases List.mem_append.mp hb with hmem | hmem
  · have hnot := has b hmem
    rw [hpb] at hnot
    cases hnot
  · rcases List.mem_cons.mp hmem with rfl | hmem
    · exact Nat.le_refl _
    · exact ((List.pairwise_cons.mp (List.pairwise_append.mp hl).2.1).1 b hmem).le

/-- **The buffer is big enough** for a size that is asked for: it has room for as
many bytes, and is of the smallest class above. -/
def CDataBuffer.BigEnough (b : CDataBuffer) (nSize : ℕ) : Prop :=
  nSize ≤ b.m_nBufSize ∧ IsLeast {SIZE | SIZE ∈ Server.managers ∧ nSize < SIZE} b.m_nBufSize

/-- **The class of a size below the last one** is the smallest one above. -/
theorem isLeast_managerSize {n : ℕ} (h : n < 10 * 1024 * 1014) :
    IsLeast {SIZE | SIZE ∈ Server.managers ∧ n < SIZE} (managerSize (toInt n)) := by
  have hint : toInt n = n := toInt_of_lt (by omega)
  have hsorted : (managerSizes ++ [10 * 1024 * 1014]).Pairwise (· < ·) := by decide
  -- with the last class put behind the others, the search always succeeds
  have hfind : (managerSizes ++ [10 * 1024 * 1014]).find? (fun SIZE => decide (n < SIZE))
      = some (managerSize (toInt n)) := by
    rw [hint, managerSize, List.find?_append]
    simp only [Int.ofNat_lt]
    cases managerSizes.find? (fun SIZE => decide (n < SIZE)) with
    | some SIZE => rfl
    | none =>
      rw [Option.none_or, List.find?_cons, decide_eq_true h]
      rfl
  have hlt : n < managerSize (toInt n) := by
    simpa only [decide_eq_true_eq] using List.find?_some hfind
  refine ⟨⟨Server.managerSize_mem _, hlt⟩, fun SIZE hSIZE => ?_⟩
  have hmem : SIZE ∈ managerSizes ++ [10 * 1024 * 1014] := List.mem_toFinset.mp hSIZE.1
  exact List.find?_le_of_pairwise hsorted hfind hmem (decide_eq_true hSIZE.2)

/-- **When a buffer is big enough.** -/
theorem bigEnough_AllocDataBuff_iff (fresh : ℕ → UInt8) (n : ℕ) :
    (AllocDataBuff fresh (toInt n)).BigEnough n ↔ n < 10 * 1024 * 1014 := by
  unfold CDataBuffer.BigEnough
  rw [m_nBufSize_AllocDataBuff]
  constructor
  · rintro ⟨-, ⟨-, hlt⟩, -⟩
    exact lt_of_lt_of_le hlt (managerSize_le (toInt n))
  · intro h
    have hleast := isLeast_managerSize h
    exact ⟨le_of_lt hleast.1.2, hleast⟩

/-! ## The buffers that are there -/

/-- **The bytes in use are inside the buffer.** -/
def CDataBuffer.Inside (b : CDataBuffer) : Prop := b.m_nDataLen ≤ b.m_nBufSize

/-- The buffers of a send path: they wait to be sent, are being copied, or are
being written. -/
def Sender.Live (s : Sender) (b : CDataBuffer) : Prop :=
  b ∈ s.lockfree_queue ∨ (∃ call, s.running = some call ∧ call.pBuffer = some b)
    ∨ ∃ w ∈ s.writes, w.pBuffer = b

/-- The buffers of a call. -/
def SessionCall.Live : SessionCall → CDataBuffer → Prop
  | .OnDataHandle pDataBuffer _ _, b => pDataBuffer = b
  | _, _ => False

/-- The buffers of the service. -/
def CServiceBase.Live (q : CServiceBase) (b : CDataBuffer) : Prop :=
  ∃ p : NetPacket, p.m_pDataBuffer = some b
    ∧ (p ∈ q.m_pRecvDataQueue ∨ p ∈ q.m_pDispathQueue ∨ p ∈ q.Iter.getD [])

/-- The buffers of the gateway: a packet is collected in them, or they are handed
over or wait to be dispatched. -/
def Gateway.Live (g : Gateway) (b : CDataBuffer) : Prop :=
  (∃ n c, g.sessions n = some c ∧ c.m_pCurRecvBuffer = some b)
    ∨ (∃ call ∈ g.calls, call.Live b) ∨ g.service.Live b

/-- **The buffers that the server has hold of.** -/
def Server.Live (s : Server) (b : CDataBuffer) : Prop :=
  s.gateway.Live b ∨ ∃ n, (s.senders n).Live b

namespace Sender

variable {s s' : Sender} {e : SendEvent} {outs : List SendCall} {b : CDataBuffer}

/-- A session that has not sent anything has hold of nothing. -/
theorem not_live_new : ¬ new.Live b := by
  rintro (hb | ⟨call, hrun, -⟩ | ⟨w, hw, -⟩)
  · cases hb
  · cases hrun
  · cases hw

/-- A turn of the loop has hold of the buffer that it has popped. -/
theorem pBuffer_of_iterate {call call' : DoSendCall} {size : ℕ}
    (h : iterate b call = .ok (call', size)) : call'.pBuffer = some b := by
  obtain ⟨out, -, h⟩ := bind_eq_ok.mp h
  obtain ⟨rfl, -⟩ := Prod.mk.inj (Except.ok.inj h)
  rfl

/-- What is queued after a step was queued before, or it is a buffer that the
step has filled. -/
theorem Step.queued (h : Step s e outs s') (hb : b ∈ s'.lockfree_queue) :
    b ∈ s.lockfree_queue ∨ b.Fits := by
  have hmem : b ∈ s.lockfree_queue ++ outs.flatMap SendCall.pushed := by
    rw [step_fifo h]
    exact List.mem_append_right _ hb
  exact (List.mem_append.mp hmem).imp_right (pushed_fits h b)

/-- What is popped for a call of `DoSend` has been queued. -/
theorem Step.popped (h : Step s e outs s') {call : DoSendCall} (hrun : s'.running = some call)
    (hb : call.pBuffer = some b) : s.Live b := by
  have hbegin : ∀ {t : Sender}, t.begin.running = some call → s.Live b := by
    intro t hrun
    obtain rfl := Option.some.inj hrun
    cases hb
  cases h with
  | @SendMessageData _ m b' hb' =>
    rw [(s.SendMessageData_frame b').2.2.1] at hrun
    exact .inr (.inl ⟨call, hrun, hb⟩)
  | response | run => exact hbegin hrun
  | iterate hrun' hqueue hok =>
    obtain rfl := Option.some.inj hrun
    obtain rfl := Option.some.inj ((pBuffer_of_iterate hok).symm.trans hb)
    exact .inl (hqueue ▸ List.mem_cons_self)
  | overrun | finish => cases hrun
  | write_some => exact .inr (.inl ⟨call, hrun, hb⟩)
  | @HandWritedata _ i error w hnone hw hdone =>
    cases error with
    | false => exact hbegin hrun
    | true => exact .inr (.inl ⟨call, hrun, hb⟩)

/-- What is written has been queued. -/
theorem Step.written (h : Step s e outs s') {w : AsyncWrite} (hw : w ∈ s'.writes) :
    s.Live w.pBuffer := by
  have hold : ∀ w ∈ s.writes, s.Live w.pBuffer := fun w hw => .inr (.inr ⟨w, hw, rfl⟩)
  cases h with
  | @SendMessageData _ m b hb =>
    rw [(s.SendMessageData_frame b).2.2.2] at hw
    exact hold w hw
  | @response _ fresh buffer b hrun hlen hb =>
    have hpush := (s.push_frame b).2.2
    exact hold w (hpush ▸ hw)
  | run | overrun | finish => exact hold w hw
  | iterate hrun hqueue hok =>
    rcases List.mem_append.mp hw with hw | hw
    · exact hold w hw
    · rw [List.mem_singleton.mp hw]
      exact .inl (hqueue ▸ List.mem_cons_self)
  | @write_some _ i n w' hw' hpos hle =>
    rcases List.mem_or_eq_of_mem_set hw with hw | rfl
    · exact hold w hw
    · exact hold w' (List.mem_of_getElem? hw')
  | @HandWritedata _ i error w' hnone hw' hdone =>
    cases error <;> exact hold w (List.mem_of_mem_eraseIdx hw)

/-- **What a send path has hold of after a step** it has had hold of before, or
it is a buffer that the step has filled. -/
theorem Step.live (h : Step s e outs s') (hb : s'.Live b) : s.Live b ∨ b.Fits := by
  obtain hb | ⟨call, hrun, hb⟩ | ⟨w, hw, rfl⟩ := hb
  · exact (h.queued hb).imp_left .inl
  · exact .inl (h.popped hrun hb)
  · exact .inl (h.written hw)

end Sender

namespace Gateway

variable {CheckHttpPackkage : List UInt8 → Bool} {g g' : Gateway} {e : GatewayEvent}
variable {outs : List DispatcherCall} {b : CDataBuffer}

/-- What a call hands over has been in it. -/
theorem live_packets {c : SessionCall} {p : NetPacket} (hp : p ∈ CServiceBase.packets c)
    (hb : p.m_pDataBuffer = some b) : c.Live b := by
  cases c with
  | OnDataHandle b' header_size n =>
    obtain rfl := List.mem_singleton.mp hp
    exact Option.some.inj hb
  | OnCloseConnect n =>
    obtain rfl := List.mem_singleton.mp hp
    cases hb
  | async_read_some off n => cases hp

/-- **The calls of the handler that runs** hand over what they did before, or
buffers with their bytes inside. -/
theorem Step.live_calls (h : Step CheckHttpPackkage g e outs g')
    (hg : ∀ n c, g.sessions n = some c → c.Ready) {call : SessionCall} (hcall : call ∈ g'.calls)
    (hb : call.Live b) : g.Live b ∨ b.Inside := by
  have hold : call ∈ g.calls → g.Live b ∨ b.Inside :=
    fun hmem => .inl (.inr (.inl ⟨call, hmem, hb⟩))
  cases h with
  | accept | swap | visit | clear => exact hold hcall
  | read hcalls hc hr =>
    obtain ⟨-, -, hwhole⟩ := (hg _ _ hc).step hr
    cases call with
    | OnDataHandle b' header_size n =>
      obtain rfl : b' = b := hb
      exact .inr (hwhole _ hcall).2
    | OnCloseConnect | async_read_some => cases hb
  | call hcalls => exact hold (hcalls ▸ List.mem_cons_of_mem _ hcall)

/-- **The items of the service** have the buffers that they had, or that a call
has handed over. -/
theorem Step.live_service (h : Step CheckHttpPackkage g e outs g') (hb : g'.service.Live b) :
    g.Live b := by
  obtain ⟨p, hb, hp⟩ := hb
  have hold : p ∈ g.service.m_pRecvDataQueue ∨ p ∈ g.service.m_pDispathQueue
      ∨ p ∈ g.service.Iter.getD [] → g.Live b := fun hmem => .inr (.inr ⟨p, hb, hmem⟩)
  cases h with
  | accept =>
    obtain hp | hp := hp
    · rcases List.mem_append.mp hp with hp | hp
      · exact hold (.inl hp)
      · obtain rfl := List.mem_singleton.mp hp
        cases hb
    · exact hold (.inr hp)
  | read => exact hold hp
  | @call _ c calls hcalls =>
    rw [CServiceBase.handle_eq] at hp
    obtain hp | hp := hp
    · rcases List.mem_append.mp hp with hp | hp
      · exact hold (.inl hp)
      · exact .inr (.inl ⟨c, hcalls ▸ List.mem_cons_self, live_packets hp hb⟩)
    · exact hold (.inr hp)
  | swap hiter =>
    obtain hp | hp | hp := hp
    · exact hold (.inr (.inl hp))
    · exact hold (.inl hp)
    · exact hold (.inl hp)
  | visit hiter =>
    obtain hp | hp | hp := hp
    · exact hold (.inl hp)
    · exact hold (.inr (.inl hp))
    · exact hold (.inr (.inr (by rw [hiter]; exact List.mem_cons_of_mem _ hp)))
  | clear hiter =>
    obtain hp | hp | hp := hp
    · exact hold (.inl hp)
    · cases hp
    · cases hp

end Gateway

namespace Server

variable {CheckHttpPackkage : List UInt8 → Bool} {s s' : Server} {e : ServerEvent}
variable {es : List ServerEvent} {sizes : List ℤ} {b : CDataBuffer}

/-- **A send path of the server** takes a step of its own, or is left alone or
new. -/
theorem Step.live_sender (h : Step CheckHttpPackkage s e sizes s') {n : ℕ}
    (hb : (s'.senders n).Live b) : s.Live b ∨ b.Fits := by
  have hold : (s.senders n).Live b → s.Live b ∨ b.Fits := fun hb => .inl (.inr ⟨n, hb⟩)
  have hsent : ∀ {m : ℕ} {e : SendEvent} {outs : List SendCall} {t : Sender},
      Sender.Step (s.senders m) e outs t → (Function.update s.senders m t n).Live b →
      s.Live b ∨ b.Fits := by
    intro m e outs t ht hb
    rcases eq_or_ne n m with rfl | hne
    · rw [Function.update_self] at hb
      exact (ht.live hb).imp_left fun hb => .inr ⟨n, hb⟩
    · rw [Function.update_of_ne hne] at hb
      exact hold hb
  cases h with
  | @CreateNetSession _ m hn hnone =>
    dsimp only [Server.CreateNetSession] at hb
    rcases eq_or_ne n m with rfl | hne
    · rw [Function.update_self] at hb
      exact absurd hb Sender.not_live_new
    · rw [Function.update_of_ne hne] at hb
      exact hold hb
  | accept | read | call | update => exact hold hb
  | handshake hidle hn hc hr hfalse htrue hstep => exact hsent hstep hb
  | send hn hresponse hbegin hstep => exact hsent hstep hb

/-- **What the server has hold of after a step** it has had hold of before, or
its bytes in use are inside it. -/
theorem Step.live (h : Step CheckHttpPackkage s e sizes s') (hs : s.Ready) (hb : s'.Live b) :
    s.Live b ∨ b.Inside := by
  have hready := hs.step h
  have hgateway := h.gateway
  obtain (⟨n, c, hc, hb⟩ | hb) | ⟨n, hb⟩ := hb
  · -- a packet that is being collected has room for all of itself
    have hheld := (hready n c hc).held
    exact .inr ((hheld.cur_lt b hb).trans (hheld.cur_lt_size b hb)).le
  · cases he : e.gateway? with
    | none =>
      rw [he] at hgateway
      rw [show s'.gateway = s.gateway from hgateway] at hb
      exact .inl (.inl (.inr hb))
    | some e =>
      rw [he] at hgateway
      obtain ⟨outs, hgateway⟩ := hgateway
      obtain ⟨call, hcall, hb⟩ | hb := hb
      · exact (hgateway.live_calls hs hcall hb).imp_left .inl
      · exact .inl (.inl (hgateway.live_service hb))
  · exact (h.live_sender hb).imp_right CDataBuffer.Fits.le_size

/-- A server all of whose buffers have what is in use inside. -/
structure Bounded (s : Server) : Prop where
  ready : s.Ready
  inside : ∀ b, s.Live b → b.Inside

theorem bounded_new : new.Bounded := by
  refine ⟨ready_new, fun b hb => ?_⟩
  obtain (⟨n, c, hc, -⟩ | ⟨call, hcall, -⟩ | ⟨p, -, hp⟩) | ⟨n, hb⟩ := hb
  · cases hc
  · cases hcall
  · obtain hp | hp | hp := hp <;> cases hp
  · exact absurd hb Sender.not_live_new

theorem Bounded.step (hs : s.Bounded) (h : Step CheckHttpPackkage s e sizes s') : s'.Bounded :=
  ⟨hs.ready.step h, fun b hb => (h.live hs.ready hb).elim (hs.inside b) id⟩

/-- **The bytes in use are inside every buffer**, in every run. -/
theorem inside_of_run (hr : Run (Step CheckHttpPackkage) new es sizes s) (hb : s.Live b) :
    b.Inside :=
  Bounded.inside (hr.invariant (fun _ _ _ _ => Bounded.step) bounded_new) b hb

end Server

/-! ## What a message needs -/

/-- **Sending a message stays inside its buffer**: the buffer that is allocated
is big enough, and the header and the message are written to it. -/
def Message.Inside (m : Message) : Prop :=
  (AllocDataBuff m.fresh (toInt (m.pData.length + HEADER_LEN))).BigEnough
      (m.pData.length + HEADER_LEN)
    ∧ ∃ b, CNetManager.messageBuffer m = .ok b ∧ b.Inside

/-- **A buffer is big enough** exactly for a size below that of the last class, and
with it for a message whose packet is that long; and whatever is sent and
received then, the bytes in use are inside every buffer. -/
theorem big_enough_iff (CheckHttpPackkage : List UInt8 → Bool) :
    (∀ fresh nSize, (AllocDataBuff fresh (toInt nSize)).BigEnough nSize
        ↔ nSize < 10 * 1024 * 1014)
      ∧ (∀ m : Message, m.Inside ↔ m.pData.length + HEADER_LEN < 10 * 1024 * 1014)
      ∧ ∀ es sizes s b, Run (Server.Step CheckHttpPackkage) .new es sizes s → s.Live b →
          b.Inside := by
  refine ⟨bigEnough_AllocDataBuff_iff, fun m => ?_, fun es sizes s b => Server.inside_of_run⟩
  have hiff := bigEnough_AllocDataBuff_iff m.fresh (m.pData.length + HEADER_LEN)
  refine ⟨fun h => hiff.mp h.1, fun h => ?_⟩
  have hbig := hiff.mpr h
  have hle := hbig.1
  rw [m_nBufSize_AllocDataBuff] at hle
  obtain ⟨b, hb⟩ := CNetManager.messageBuffer_eq_ok_iff.mpr hle
  exact ⟨hbig, b, hb, (CNetManager.fits_of_messageBuffer hb).1.le_size⟩

/-- A message without a body is queued, inside its buffer. -/
theorem big_enough_iff_empty : ∃ es sizes s b, Run (Server.Step fun _ => true) .new es sizes s
    ∧ s.Live b ∧ b.Inside := by
  obtain ⟨b, hb⟩ := CNetManager.exists_messageBuffer (m := .empty) (by decide)
  have hcreate : Server.Step (fun _ => true) .new (.CreateNetSession 1) [] _ :=
    .CreateNetSession (Finset.notMem_empty 1) rfl
  have hsend : Run Sender.Step .new [.SendMessageData .empty] _ _ := .single (.SendMessageData hb)
  obtain ⟨s, hr, -, -, hs⟩ := Server.exists_run_sent (s := Server.new.CreateNetSession 1) hsend
    (by simp) rfl rfl rfl
  have hlive : s.Live b := by
    refine .inr ⟨1, .inl ?_⟩
    rw [hs]
    exact List.mem_singleton_self b
  exact ⟨_, _, s, b, .cons hcreate hr, hlive,
    (big_enough_iff _).2.2 _ _ s b (.cons hcreate hr) hlive⟩

/-- It is not true that a buffer is always big enough: a packet of ten megabytes
gets one of `10 * 1024 * 1014` bytes. -/
theorem not_big_enough : ¬ ∀ m : Message, m.pData.length < 2 ^ 32 → m.Inside := by
  intro h
  have hlen : ∀ k : ℕ, k < 2 ^ 32 → k + HEADER_LEN ≤ 10 * 1024 * 1014 := by
    intro k hk
    have hinside := h ⟨1, 0, 0, List.replicate k 0, fun _ => 0⟩ (by rwa [List.length_replicate])
    have hle := hinside.1.1
    rw [m_nBufSize_AllocDataBuff, List.length_replicate] at hle
    exact le_trans hle (managerSize_le _)
  have hten := hlen (10 * 1024 * 1024 - HEADER_LEN) (by omega)
  unfold HEADER_LEN at hten
  omega
