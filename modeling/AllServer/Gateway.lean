import AllServer.CServiceBase
import AllServer.Receive

/-!
# The gateway

The sessions, the service they report to and the game service behind it, as
one machine. The handlers of the I/O thread run one at a time: a connection is
accepted, or a session handles a read. What a session calls while it handles a
read is made step by step, so that the steps of `Update` on the main thread
may come in between.

The message body that the game service parses is the part of a packet behind
the first `HEADER_LEN` bytes. Nothing sees to it that a packet has that many:
a frame may have six. `body_inside` is what is left: if no read delivers a
packet of fewer bytes, every body that is parsed lies inside its packet.
-/

open CHttpParser

/-- **The gateway.** -/
structure Gateway where
  /-- The sessions that have been accepted, by their ids. -/
  sessions : ℕ → Option CNetSession
  /-- What the handler that runs on the I/O thread is still to call. -/
  calls : List SessionCall
  service : CServiceBase

/-- A step of the gateway. -/
inductive GatewayEvent where
  /-- `HandleAccept` or `HandleConnect` on the session with this id. -/
  | accept (nConnID : ℕ)
  /-- `HandReaddata` on it. -/
  | read (nConnID : ℕ) (r : Read)
  /-- The next call of the handler that runs. -/
  | call
  /-- `Update` begins: the swap. -/
  | swap
  /-- `Update` visits an item. -/
  | visit
  /-- `Update` ends. -/
  | clear

namespace Gateway

/-- The gateway after `Start`. -/
def new : Gateway := ⟨fun _ => none, [], .new⟩

section Step

variable (CheckHttpPackkage : List UInt8 → Bool)

/-- **The gateway as a machine.** -/
inductive Step : Machine Gateway GatewayEvent DispatcherCall
  | accept {g : Gateway} {nConnID : ℕ} :
      g.calls = [] → g.sessions nConnID = none →
      Step g (.accept nConnID) []
        { g with
          sessions := Function.update g.sessions nConnID (some (.accepted nConnID))
          service := g.service.OnNewConnect nConnID }
  | read {g : Gateway} {nConnID : ℕ} {r : Read} {s s' : CNetSession}
      {calls : List SessionCall} :
      g.calls = [] → g.sessions nConnID = some s →
      CNetSession.Receives CheckHttpPackkage s r calls s' →
      Step g (.read nConnID r) []
        { g with
          sessions := Function.update g.sessions nConnID (some s')
          calls := calls }
  | call {g : Gateway} {c : SessionCall} {calls : List SessionCall} :
      g.calls = c :: calls →
      Step g .call [] { g with calls := calls, service := g.service.handle c }
  | swap {g : Gateway} :
      g.service.Iter = none →
      Step g .swap [] { g with service := g.service.swap }
  | visit {g : Gateway} {Item : NetPacket} {rest : List NetPacket} :
      g.service.Iter = some (Item :: rest) →
      Step g .visit (CServiceBase.visit Item)
        { g with service := { g.service with Iter := some rest } }
  | clear {g : Gateway} :
      g.service.Iter = some [] →
      Step g .clear [] { g with service := g.service.clear }

end Step

end Gateway

/-! ## Packets with a header's worth of bytes -/

/-- A packet of this many bytes is not shorter than `HEADER_LEN`, and its size
is an unsigned word. -/
def Long (n : ℕ) : Prop := HEADER_LEN ≤ n ∧ n < 2 ^ 32

/-- The call hands over a long packet, if it hands over a buffer. -/
def SessionCall.HandsLong : SessionCall → Prop
  | .OnDataHandle pDataBuffer _ _ => Long pDataBuffer.GetTotalLenth
  | _ => True

/-- **A data packet has a long buffer.** -/
def NetPacket.IsLong (p : NetPacket) : Prop :=
  p.m_dwMsgID ≠ NEW_CONNECTION → p.m_dwMsgID ≠ CLOSE_CONNECTION →
    ∃ b, p.m_pDataBuffer = some b ∧ Long b.GetTotalLenth

/-- **The body that is parsed lies inside the packet**: it is all that is
behind the header, and there is a header. -/
def DispatcherCall.BodyInside : DispatcherCall → Prop
  | .OnNewConnect _ | .OnCloseConnect _ => True
  | .DispatchPacket pNetPacket =>
    ∃ b off len, pNetPacket.m_pDataBuffer = some b
      ∧ CGameService.DispatchPacket pNetPacket = .ok (off, len)
      ∧ HEADER_LEN ≤ b.GetTotalLenth ∧ off + len = b.GetTotalLenth

/-- **No packet that a read delivers is short.** A packet that it completes is
not; the one behind may be. -/
def Framer.NoShortPacket (f : Framer) (data : List UInt8) : Prop :=
  f.missing ≤ (f.front data).length →
    pkgSize (f.front data) ≤ (f.behind data).length →
      HEADER_LEN ≤ pkgSize (f.front data)

/-- **What a read delivers is long** exactly where no packet is short. -/
theorem Framer.feed_long {f : Framer} {data : List UInt8} (hf : f.Ok)
    (ho : f.Offers data) :
    (∀ d ∈ (f.feed data).2, Long d.1.length) ↔ f.NoShortPacket data := by
  have hlen := length_behind_lt ho
  rw [MAX_PKG_SIZE_eq] at hlen
  rw [forall_mem_feed ho, NoShortPacket]
  refine forall_congr' (fun hle => ?_)
  have hcompleted : ∀ c n, f.part = some (c, n) →
      Long (c ++ (f.front data).take f.missing).length := by
    intro c n hpart
    have hbig := hf.le_part c n hpart
    have hmax := hf.part_lt_max c n hpart
    rw [RECV_BUF_SIZE_eq] at hbig
    rw [MAX_PKG_SIZE_eq] at hmax
    rw [hf.length_completed hpart hle]
    unfold Long HEADER_LEN
    omega
  rw [and_iff_right hcompleted]
  refine forall_congr' (fun hsize => ?_)
  unfold Long
  rw [List.length_take, Nat.min_eq_left hsize]
  exact and_iff_left (by omega)

namespace CNetSession

variable {CheckHttpPackkage : List UInt8 → Bool} {s s' : CNetSession} {r : Read}
variable {calls : List SessionCall}

/-- **What a session hands over is long** exactly where no packet is short. A
session that is not handshaken hands nothing over. -/
theorem Ready.handsLong_iff (hs : s.Ready) (h : Receives CheckHttpPackkage s r calls s') :
    (∀ call ∈ calls, call.HandsLong)
      ↔ (s.m_IsHandler = true → s.view.NoShortPacket r.data) := by
  obtain ⟨ho, hok⟩ := h
  have ho' := hs.offers_iff.mp ho
  cases hhandler : s.m_IsHandler with
  | true =>
    obtain ⟨s₁, calls₁, hok₁, hfed⟩ :=
      HandReaddata_of_handler CheckHttpPackkage hs ho.1 hhandler ho.2.1
    obtain ⟨rfl, rfl⟩ := Prod.mk.inj (Except.ok.inj (hok.symm.trans hok₁))
    rw [imp_iff_right rfl, ← Framer.feed_long hs.ok ho', ← hfed.deliveries_eq]
    refine forall_mem_deliveries hfed.whole (fun b h n hlen => ?_) (fun _ => trivial)
      (fun _ _ => trivial)
    show Long b.GetTotalLenth ↔ Long b.content.length
    rw [hlen]
  | false =>
    obtain ⟨b, hb⟩ := HandReaddata_of_not_handler CheckHttpPackkage hs ho.1 hhandler
      ho.2.1 ho'.front_ne_nil
    refine iff_of_true ?_ (fun h => absurd h Bool.false_ne_true)
    have hcalls : calls = _ := congrArg Prod.snd (Except.ok.inj (hok.symm.trans hb))
    rw [hcalls]
    split_ifs <;> exact List.forall_mem_singleton.mpr trivial

end CNetSession

namespace Gateway

variable {CheckHttpPackkage : List UInt8 → Bool} {g g' : Gateway}
variable {es : List GatewayEvent} {outs : List DispatcherCall}

/-- **The gateway never holds a short packet**, and its sessions are ready. -/
structure Ok (g : Gateway) : Prop where
  sessions : ∀ nConnID s, g.sessions nConnID = some s → s.Ready
  calls : ∀ call ∈ g.calls, call.HandsLong
  recv : ∀ p ∈ g.service.m_pRecvDataQueue, p.IsLong
  dispath : ∀ p ∈ g.service.m_pDispathQueue, p.IsLong
  iter : ∀ ps, g.service.Iter = some ps → ∀ p ∈ ps, p.IsLong

/-- The step does not deliver a short packet: if it is a read on a session
that is handshaken, no packet is short. -/
def NoShortRead (g : Gateway) : GatewayEvent → Prop
  | .read nConnID r => ∀ s, g.sessions nConnID = some s → s.m_IsHandler = true →
    s.view.NoShortPacket r.data
  | _ => True

theorem ok_new : new.Ok := by
  refine ⟨?_, ?_, ?_, ?_, ?_⟩ <;> simp [new, CServiceBase.new]

/-- What is pushed is long if what is handed over is. -/
theorem packets_isLong {c : SessionCall} (hc : c.HandsLong) :
    ∀ p ∈ CServiceBase.packets c, p.IsLong := by
  cases c with
  | OnDataHandle b h n => exact List.forall_mem_singleton.mpr (fun _ _ => ⟨b, rfl, hc⟩)
  | OnCloseConnect n => exact List.forall_mem_singleton.mpr (fun _ h => absurd rfl h)
  | async_read_some off n => exact fun _ hmem => absurd hmem List.not_mem_nil

/-- The sessions stay ready when one of them is replaced by a ready one. -/
theorem ready_update {sessions : ℕ → Option CNetSession} {nConnID : ℕ} {s : CNetSession}
    (hs : s.Ready) (h : ∀ nConnID s, sessions nConnID = some s → s.Ready) :
    ∀ n t, Function.update sessions nConnID (some s) n = some t → t.Ready := by
  intro n t ht
  rcases eq_or_ne n nConnID with rfl | hne
  · rw [Function.update_self] at ht
    exact Option.some.inj ht ▸ hs
  · rw [Function.update_of_ne hne] at ht
    exact h n t ht

/-- What `Update` calls on a long packet. -/
theorem visit_bodyInside {Item : NetPacket} (h : Item.IsLong) :
    ∀ out ∈ CServiceBase.visit Item, out.BodyInside := by
  unfold CServiceBase.visit
  split_ifs with hnew hclose
  · exact List.forall_mem_singleton.mpr trivial
  · exact fun _ hmem => absurd hmem List.not_mem_nil
  · obtain ⟨b, hb, hlong⟩ := h hnew hclose
    refine List.forall_mem_singleton.mpr ⟨b, b.GetData, b.GetBodyLenth, hb, ?_, hlong.1, ?_⟩
    · unfold CGameService.DispatchPacket
      rw [hb]
    · exact (CDataBuffer.GetBodyLenth_eq_iff hlong.2).mpr hlong.1

/-- **A step that delivers no short packet** keeps the gateway free of them,
and every body that it parses lies inside its packet. -/
theorem Step.ok {e : GatewayEvent} (h : Step CheckHttpPackkage g e outs g') (hg : g.Ok)
    (hshort : g.NoShortRead e) : g'.Ok ∧ ∀ out ∈ outs, out.BodyInside := by
  have hnil : ∀ out ∈ ([] : List DispatcherCall), out.BodyInside :=
    fun _ hmem => absurd hmem List.not_mem_nil
  cases h with
  | @accept _ nConnID hcalls hnew =>
    refine ⟨⟨ready_update (CNetSession.blank_accepted nConnID).ready hg.sessions, hg.calls,
      ?_, hg.dispath, hg.iter⟩, hnil⟩
    exact List.forall_mem_append.mpr
      ⟨hg.recv, List.forall_mem_singleton.mpr (fun h _ => absurd rfl h)⟩
  | @read _ nConnID r s s' calls hcalls hs hread =>
    have hready := hg.sessions nConnID s hs
    have hlong := (hready.handsLong_iff hread).mpr (hshort s hs)
    exact ⟨⟨ready_update (hready.step hread).1 hg.sessions, hlong, hg.recv, hg.dispath,
      hg.iter⟩, hnil⟩
  | @call _ c calls hcalls =>
    obtain ⟨hc, hrest⟩ := List.forall_mem_cons.mp (hcalls ▸ hg.calls)
    rw [CServiceBase.handle_eq]
    exact ⟨⟨hg.sessions, hrest, List.forall_mem_append.mpr ⟨hg.recv, packets_isLong hc⟩,
      hg.dispath, hg.iter⟩, hnil⟩
  | swap hiter =>
    refine ⟨⟨hg.sessions, hg.calls, hg.dispath, hg.recv, ?_⟩, hnil⟩
    rintro ps ⟨⟩
    exact hg.recv
  | @visit _ Item rest hiter =>
    obtain ⟨hItem, hrest⟩ := List.forall_mem_cons.mp (hg.iter _ hiter)
    refine ⟨⟨hg.sessions, hg.calls, hg.recv, hg.dispath, ?_⟩, visit_bodyInside hItem⟩
    rintro ps ⟨⟩
    exact hrest
  | clear hiter =>
    refine ⟨⟨hg.sessions, hg.calls, hg.recv, fun _ hmem => absurd hmem List.not_mem_nil, ?_⟩,
      hnil⟩
    rintro ps ⟨⟩

/-- **When every body that is parsed lies inside its packet**: in every run no
read of which delivers a short packet. -/
theorem body_inside
    (hr : Run ((Step CheckHttpPackkage).where (fun g e _ _ => g.NoShortRead e))
      new es outs g) :
    ∀ out ∈ outs, out.BodyInside :=
  hr.forall_outputs (fun _ _ _ _ hg h => h.1.ok hg h.2) ok_new

/-! ## From a read to the parser -/

section Pipeline

variable {D : Gateway → GatewayEvent → Prop}

/-- The handler that runs makes all its calls. -/
theorem run_calls (hD : ∀ g, D g .call) (g : Gateway) :
    Run ((Step CheckHttpPackkage).where (fun g e _ _ => D g e)) g
      (List.replicate g.calls.length .call) []
      { g with
        calls := []
        service := g.calls.foldl (fun q c => q.handle c) g.service } := by
  obtain ⟨sessions, calls, service⟩ := g
  induction calls generalizing service with
  | nil => exact .nil _
  | cons c calls ih =>
    have hcall : Step CheckHttpPackkage ⟨sessions, c :: calls, service⟩ .call []
        ⟨sessions, calls, service.handle c⟩ := .call rfl
    exact .cons ⟨hcall, hD _⟩ (ih (service.handle c))

/-- `Update` visits all the items that are left, in order. -/
theorem run_visits (hD : ∀ g, D g .visit) {ps : List NetPacket} (g : Gateway)
    (h : g.service.Iter = some ps) :
    Run ((Step CheckHttpPackkage).where (fun g e _ _ => D g e)) g
      (List.replicate ps.length .visit) (ps.flatMap CServiceBase.visit)
      { g with service := { g.service with Iter := some [] } } := by
  obtain ⟨sessions, calls, ⟨recv, dispath, iter⟩⟩ := g
  induction ps generalizing iter with
  | nil =>
    obtain rfl : iter = some [] := h
    exact .nil _
  | cons Item rest ih =>
    have hvisit : Step CheckHttpPackkage ⟨sessions, calls, ⟨recv, dispath, iter⟩⟩ .visit
        (CServiceBase.visit Item) ⟨sessions, calls, ⟨recv, dispath, some rest⟩⟩ := .visit h
    exact .cons ⟨hvisit, hD _⟩ (ih (some rest) rfl)

/-- **Everything that a read delivers reaches the parser**: from a session that
has just been handshaken, in a gateway whose `Update` is not running. -/
theorem exists_run_dispatch (hD : ∀ g e, (∀ nConnID r, e ≠ .read nConnID r) → D g e)
    {g : Gateway} {s : CNetSession} (hcalls : g.calls = []) (hiter : g.service.Iter = none)
    (hs : g.sessions 1 = some s) (hblank : s.Blank) (hhandler : s.m_IsHandler = true)
    {r : Read} (ho : Framer.idle.Offers r.data) (hread : D g (.read 1 r)) :
    ∃ es outs g', Run ((Step CheckHttpPackkage).where (fun g e _ _ => D g e)) g
        (.read 1 r :: es) outs g'
      ∧ ∀ d ∈ (Framer.idle.feed r.data).2, ∃ b nConnID,
        b.content = d.1 ∧ b.GetTotalLenth = d.1.length
          ∧ .DispatchPacket ⟨0, nConnID, some b⟩ ∈ outs := by
  have hready := hblank.ready
  have ho' : s.Offers r := hready.offers_iff.mpr (hblank.view_eq ▸ ho)
  obtain ⟨s', calls, hok, hfed⟩ := CNetSession.HandReaddata_of_handler CheckHttpPackkage hready
    hblank.isOpen hhandler ho'.2.1
  set g₁ : Gateway := { g with
    sessions := Function.update g.sessions 1 (some s'), calls := calls } with hg₁
  have hstep : Step CheckHttpPackkage g (.read 1 r) [] g₁ := .read hcalls hs ⟨ho', hok⟩
  have hrun : Run ((Step CheckHttpPackkage).where (fun g e _ _ => D g e)) g₁ _ [] _ :=
    run_calls (fun g => hD g .call (fun _ _ h => by cases h)) g₁
  rw [CServiceBase.foldl_handle] at hrun
  set queue := g₁.service.m_pRecvDataQueue ++ g₁.calls.flatMap CServiceBase.packets with hqueue
  have hvisits : Run ((Step CheckHttpPackkage).where (fun g e _ _ => D g e))
      { g₁ with
        calls := []
        service := ({ g₁.service with m_pRecvDataQueue := queue } : CServiceBase).swap }
      _ (queue.flatMap CServiceBase.visit) _ :=
    run_visits (fun g => hD g .visit (fun _ _ h => by cases h)) _ rfl
  refine ⟨_, _, _, .cons ⟨hstep, hread⟩ (hrun.append (.cons ⟨.swap hiter, ?_⟩ hvisits)), ?_⟩
  · exact hD _ .swap (fun _ _ h => by cases h)
  · intro d hd
    rw [← hblank.view_eq, ← hfed.deliveries_eq] at hd
    obtain ⟨call, hcall, hd⟩ := List.mem_filterMap.mp hd
    cases call with
    | OnDataHandle b h n =>
      obtain rfl := Option.some.inj hd
      refine ⟨b, n, rfl, (CDataBuffer.length_content (hfed.whole _ hcall).2).symm, ?_⟩
      refine List.mem_flatMap.mpr ⟨⟨0, n, some b⟩, ?_, List.mem_singleton_self _⟩
      exact List.mem_append_right _ (List.mem_flatMap.mpr ⟨_, hcall, List.mem_singleton_self _⟩)
    | OnCloseConnect n => cases hd
    | async_read_some off n => cases hd

end Pipeline

/-- **A connection that is accepted and handshaken**, whatever the request is,
if the handshake parser accepts it. -/
theorem exists_run_handshake {D : Gateway → GatewayEvent → Prop}
    (hD : ∀ g e, (∀ nConnID r, e ≠ .read nConnID r) → D g e) {r : Read}
    (hne : r.data ≠ []) (hroom : r.data.length ≤ RECV_BUF_SIZE)
    (hread : ∀ g, g.sessions 1 = some (.accepted 1) → D g (.read 1 r)) :
    ∃ es g s, Run ((Step (fun _ => true)).where (fun g e _ _ => D g e)) new es [] g
      ∧ g.calls = [] ∧ g.service.Iter = none ∧ g.sessions 1 = some s ∧ s.Blank
      ∧ s.m_IsHandler = true := by
  have hblank := CNetSession.blank_accepted 1
  have hne' : (CNetSession.accepted 1).buffered ++ r.data ≠ [] :=
    fun h => hne (List.append_eq_nil_iff.mp h).2
  obtain ⟨b, hb⟩ := CNetSession.HandReaddata_of_not_handler (fun _ => true) hblank.ready
    rfl rfl hroom hne'
  rw [if_pos rfl] at hb
  set s : CNetSession := { CNetSession.accepted 1 with
    m_pRecvBuf := b, m_dwDataLen := 0, m_IsHandler := true }
  set g₁ : Gateway := { new with
    sessions := Function.update new.sessions 1 (some (.accepted 1))
    service := new.service.OnNewConnect 1 } with hg₁
  set g₂ : Gateway := { g₁ with sessions := Function.update g₁.sessions 1 (some s) } with hg₂
  have hsession : g₁.sessions 1 = some (.accepted 1) := by simp [hg₁]
  have hsession' : g₂.sessions 1 = some s := by simp [hg₂]
  have haccept : (Step (fun _ => true)).where (fun g e _ _ => D g e) new (.accept 1) [] g₁ :=
    ⟨.accept rfl rfl, hD _ _ (fun _ _ h => by cases h)⟩
  have hstep : (Step (fun _ => true)).where (fun g e _ _ => D g e) g₁ (.read 1 r) []
      { g₂ with calls := [.async_read_some 0 RECV_BUF_SIZE] } :=
    ⟨.read rfl hsession ⟨⟨rfl, hroom, fun h => absurd h hne⟩, hb⟩, hread g₁ hsession⟩
  have hcall : (Step (fun _ => true)).where (fun g e _ _ => D g e)
      { g₂ with calls := [.async_read_some 0 RECV_BUF_SIZE] } .call [] g₂ :=
    ⟨.call (g := { g₂ with calls := [.async_read_some 0 RECV_BUF_SIZE] }) rfl,
      hD _ _ (fun _ _ h => by cases h)⟩
  exact ⟨_, g₂, s, Run.cons haccept (Run.cons hstep (Run.cons hcall (Run.nil g₂))), rfl, rfl,
    hsession', ⟨rfl, rfl, rfl, rfl, rfl⟩, rfl⟩

/-- A frame of 28 bytes. -/
theorem body_inside_28 :
    ∃ es outs g, Run (Step (fun _ => true)) new es outs g
      ∧ (∃ b nConnID, b.GetTotalLenth = 28 ∧ .DispatchPacket ⟨0, nConnID, some b⟩ ∈ outs)
      ∧ ∀ out ∈ outs, out.BodyInside := by
  set data : List UInt8 := [0x82, 0x96, 1, 2, 3, 4] ++ List.replicate 22 0 with hdata
  have hD : ∀ g e, (∀ nConnID r, e ≠ .read nConnID r) → NoShortRead g e := by
    intro g e he
    cases e with
    | read nConnID r => exact absurd rfl (he nConnID r)
    | accept | call | swap | visit | clear => trivial
  have hfeed : Framer.idle.feed data = (Framer.idle, [(data, 6)]) := rfl
  have hdata' : Framer.idle.NoShortPacket data := fun _ _ => by decide
  obtain ⟨es, g, s, hr, hcalls, hiter, hs, hblank, hhandler⟩ :=
    exists_run_handshake (r := ⟨[0], fun _ => 0⟩) hD (by decide) (by decide) (by
      intro g hg s hs hhandler
      rw [hg] at hs
      rw [← Option.some.inj hs] at hhandler
      exact absurd hhandler Bool.false_ne_true)
  have hread : NoShortRead g (.read 1 ⟨data, fun _ => 0⟩) := by
    intro s' hs' _
    rw [hs] at hs'
    rwa [← Option.some.inj hs', hblank.view_eq]
  obtain ⟨es', outs, g', hr', hds⟩ := exists_run_dispatch hD hcalls hiter hs hblank hhandler
    (r := ⟨data, fun _ => 0⟩) (by decide) hread
  have hrun := hr.append hr'
  rw [hfeed] at hds
  obtain ⟨b, n, -, hb, hmem⟩ := hds (data, 6) (List.mem_singleton_self _)
  exact ⟨_, _, g', hrun.of_where, ⟨b, n, hb, hmem⟩, body_inside hrun⟩

/-- **A frame of eight bytes**: the length of its body is `2 ^ 32 - 20`. -/
theorem body_outside :
    ∃ es outs g, Run (Step (fun _ => true)) new es outs g
      ∧ .read 1 ⟨[0x82, 0x82, 1, 2, 3, 4, 5, 6], fun _ => 0⟩ ∈ es
      ∧ ∃ b nConnID, b.content = [0x82, 0x82, 1, 2, 3, 4, 5, 6]
        ∧ .DispatchPacket ⟨0, nConnID, some b⟩ ∈ outs
        ∧ b.GetTotalLenth = 8 ∧ b.GetBodyLenth = 2 ^ 32 - 20 := by
  set data : List UInt8 := [0x82, 0x82, 1, 2, 3, 4, 5, 6] with hdata
  have hD : ∀ (g : Gateway) (e : GatewayEvent),
      (∀ nConnID r, e ≠ .read nConnID r) → (fun _ _ => True : Gateway → GatewayEvent → Prop) g e :=
    fun _ _ _ => trivial
  have hfeed : Framer.idle.feed data = (Framer.idle, [(data, 6)]) := rfl
  obtain ⟨es, g, s, hr, hcalls, hiter, hs, hblank, hhandler⟩ :=
    exists_run_handshake (r := ⟨[0], fun _ => 0⟩) hD (by decide) (by decide) (fun _ _ => trivial)
  obtain ⟨es', outs, g', hr', hds⟩ := exists_run_dispatch hD hcalls hiter hs hblank hhandler
    (r := ⟨data, fun _ => 0⟩) (by decide) trivial
  rw [hfeed] at hds
  obtain ⟨b, n, hcontent, hb, hmem⟩ := hds (data, 6) (List.mem_singleton_self _)
  refine ⟨_, _, g', (hr.append hr').of_where, List.mem_append_right _ List.mem_cons_self, b, n,
    hcontent, hmem, hb, ?_⟩
  have hb' : b.m_nDataLen = 8 := hb
  unfold CDataBuffer.GetBodyLenth
  rw [hb']
  rfl

end Gateway
