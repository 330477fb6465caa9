import AllServer.EventTrace

/-!
# What is asked of a socket after it has been closed

A session closes its socket in two places: when a request is refused, and when
a frame is too large. After the first one `HandleRecvEvent` returns; after the
second one it goes on, and asks the closed socket for the next read. Neither
takes the session out of the table, so `SendMessageData` still finds it, and
`DoSend` asks the socket for a write without looking whether it is open.

Nothing is asked of the socket of a session any more (`NothingAfterClose`) in
every run in which none of this happens: the frames of the session are not too
large, its queue is empty when its request is refused, and no message is sent
to it when it is closed (`Server.nothing_after_close`).
-/

open CHttpParser

/-- What a session asks of its socket. -/
inductive SocketOp where
  | async_read_some
  | async_write
  | Close

/-- **Nothing is asked of a socket after it has been closed**, in a sequence of
operations. -/
def NothingAfterClose (ops : List SocketOp) : Prop :=
  ops.Pairwise fun op op' => op = .Close → op' = .Close

/-- What a session asks of its socket with a call. `Close` tells the handler of
the session in the end. -/
def SessionCall.socketOp? : SessionCall → Option SocketOp
  | .OnDataHandle _ _ _ => none
  | .OnCloseConnect _ => some .Close
  | .async_read_some _ _ => some .async_read_some

namespace Framer

/-- **The read finds a packet that is too large**: at the cursor, by the header
that is parsed there. -/
def FindsTooLarge (f : Framer) (data : List UInt8) : Prop :=
  f.missing ≤ (f.front data).length ∧ MAX_PKG_SIZE ≤ pkgSize (f.front data)

/-- **A session stays open** if no packet is too large. -/
theorem isOpen_feed {f : Framer} {data : List UInt8} (ho : f.Offers data)
    (hsize : ¬ f.FindsTooLarge data) : (f.feed data).1.isOpen = true := by
  rcases Nat.lt_or_ge (f.front data).length f.missing with hlt | hle
  · obtain ⟨c, n, -, hfeed⟩ := feed_of_lt_missing hlt
    rw [hfeed]
    exact ho.1
  · rw [feed_of_missing_le ho.front_ne_nil hle]
    cases hv : f.decision data with
    | close => exact absurd ⟨hle, verdict_eq_close.mp hv⟩ hsize
    | wait | deliver | collect => exact ho.1

/-- It is closed if one is. -/
theorem isOpen_feed_of_tooLarge {f : Framer} {data : List UInt8} (ho : f.Offers data)
    (hsize : f.FindsTooLarge data) : (f.feed data).1.isOpen = false := by
  rw [feed_of_missing_le ho.front_ne_nil hsize.1,
    show f.decision data = .close from verdict_eq_close.mpr hsize.2]
  rfl

end Framer

namespace CNetSession

variable {CheckHttpPackkage : List UInt8 → Bool} {c c' : CNetSession} {r : Read}
variable {calls : List SessionCall}

/-- **A socket that is open after a read** has not been closed by it. -/
theorem Ready.close_notMem (hc : c.Ready) (h : Receives CheckHttpPackkage c r calls c')
    (hopen : c'.m_hSocket = true) : .Close ∉ calls.filterMap SessionCall.socketOp? := by
  intro hmem
  obtain ⟨call, hcall, hop⟩ := List.mem_filterMap.mp hmem
  obtain ⟨k, hk, -⟩ := hc.reports h
  rw [closing, if_pos hopen, List.append_nil] at hk
  cases call with
  | OnCloseConnect nConnID =>
    have hclose : CLOSE_CONNECTION ∈ SessionCall.msgIDs calls :=
      List.mem_map.mpr ⟨_, List.mem_flatMap.mpr ⟨_, hcall, List.mem_singleton_self _⟩, rfl⟩
    rw [hk] at hclose
    exact absurd (List.eq_of_mem_replicate hclose) (by decide)
  | OnDataHandle | async_read_some => cases hop

/-- A session whose handshake is done stays open if no packet is too large. -/
theorem Ready.isOpen_of_handler (hc : c.Ready) (h : Receives CheckHttpPackkage c r calls c')
    (hhandler : c.m_IsHandler = true) (hsize : ¬ c.view.FindsTooLarge r.data) :
    c'.m_hSocket = true := by
  have hest : c.Established := ⟨hc, hhandler.trans h.1.1.symm⟩
  have hview := congrArg Framer.isOpen (hest.fed h).view_eq
  exact hview.trans (Framer.isOpen_feed (hc.offers_iff.mp h.1) hsize)

/-- **A read before the handshake** is the last thing that is asked of the
socket, or closes it and asks for nothing else. -/
theorem Ready.socketOps_of_not_handler (hc : c.Ready)
    (h : Receives CheckHttpPackkage c r calls c') (hhandler : c.m_IsHandler = false) :
    c'.m_hSocket = true
      ∨ CheckHttpPackkage (c.buffered ++ r.data) = false
        ∧ calls.filterMap SessionCall.socketOp? = [.Close] := by
  obtain ⟨ho, hok⟩ := h
  obtain ⟨b, hb⟩ := HandReaddata_of_not_handler CheckHttpPackkage hc ho.1 hhandler ho.2.1
    (hc.offers_iff.mp ho).front_ne_nil
  have heq := Except.ok.inj (hok.symm.trans hb)
  split_ifs at heq with hverdict
  · obtain ⟨rfl, -⟩ := Prod.mk.inj heq
    exact .inl ho.1
  · obtain ⟨-, rfl⟩ := Prod.mk.inj heq
    exact .inr ⟨Bool.eq_false_of_not_eq_true hverdict, rfl⟩

/-- **A read that finds a packet that is too large** closes the socket, and asks
it for the next read afterwards. -/
theorem Ready.socketOps_of_tooLarge (hc : c.Ready) (h : Receives CheckHttpPackkage c r calls c')
    (hhandler : c.m_IsHandler = true) (hsize : c.view.FindsTooLarge r.data) :
    ∃ ops, calls.filterMap SessionCall.socketOp? = ops ++ [.async_read_some] ∧ .Close ∈ ops := by
  have hest : c.Established := ⟨hc, hhandler.trans h.1.1.symm⟩
  have hclosed : c'.m_hSocket = false :=
    (congrArg Framer.isOpen (hest.fed h).view_eq).trans
      (Framer.isOpen_feed_of_tooLarge (hc.offers_iff.mp h.1) hsize)
  obtain ⟨k, hk, -⟩ := hc.reports h
  rw [closing, hclosed, if_neg Bool.false_ne_true] at hk
  have hmem : CLOSE_CONNECTION ∈ SessionCall.msgIDs calls := by
    rw [hk]
    exact List.mem_append_right _ (List.mem_singleton_self _)
  obtain ⟨p, hp, hid⟩ := List.mem_map.mp hmem
  obtain ⟨call, hcall, hp⟩ := List.mem_flatMap.mp hp
  obtain ⟨m_pRecvBuf, -, hok⟩ := bind_eq_ok.mp h.2
  unfold HandleRecvEvent at hok
  dsimp only at hok
  rw [if_neg (not_not.mpr hhandler)] at hok
  split_ifs at hok
  · obtain ⟨rfl, -⟩ := Prod.mk.inj (Except.ok.inj hok)
    exact absurd (h.1.1.symm.trans hclosed) Bool.noConfusion
  · obtain ⟨⟨s₁, calls₁⟩, -, hok⟩ := bind_eq_ok.mp hok
    obtain ⟨calls₂, hreceive, hok⟩ := bind_eq_ok.mp hok
    obtain ⟨-, rfl⟩ := Prod.mk.inj (Except.ok.inj hok)
    obtain ⟨size, rfl⟩ := DoReceive_eq_ok hreceive
    refine ⟨calls₁.filterMap SessionCall.socketOp?, List.filterMap_append, ?_⟩
    cases call with
    | OnCloseConnect nConnID =>
      have hcall₁ := (List.mem_append.mp hcall).resolve_right (by simp)
      exact List.mem_filterMap.mpr ⟨_, hcall₁, rfl⟩
    | OnDataHandle b header_size nConnID =>
      obtain rfl := List.mem_singleton.mp hp
      have hzero : (0 : ℕ) = CLOSE_CONNECTION := hid
      exact absurd hzero (by decide)
    | async_read_some => exact absurd hp List.not_mem_nil

end CNetSession

/-- **Nothing gets into an empty queue** but messages and responses, and nothing
is popped from it. -/
theorem Sender.step_of_queue_nil {t t' : Sender} {e : SendEvent} {outs : List SendCall}
    (h : Step t e outs t') (hqueue : t.lockfree_queue = []) (hmessage : ∀ m, e ≠ .SendMessageData m)
    (hresponse : ∀ fresh buffer, e ≠ .response fresh buffer) :
    t'.lockfree_queue = [] ∧ e ≠ .iterate := by
  cases h with
  | SendMessageData => exact absurd rfl (hmessage _)
  | response => exact absurd rfl (hresponse _ _)
  | run | finish | write_some => exact ⟨hqueue, by simp⟩
  | iterate hrun hcons => exact absurd (hqueue.symm.trans hcons) (List.cons_ne_nil _ _).symm
  | overrun hrun hcons => exact absurd (hqueue.symm.trans hcons) (List.cons_ne_nil _ _).symm
  | @HandWritedata _ i error w hrun hw hdone => cases error <;> exact ⟨hqueue, by simp⟩

namespace Server

/-- **What a step asks of the socket of a session.** -/
def socketOps (nConnID : ℕ) (s s' : Server) : ServerEvent → List SocketOp
  | .gateway (.accept n) => if n = nConnID then [.async_read_some] else []
  | .gateway (.read n _) =>
    if n = nConnID then s'.gateway.calls.filterMap SessionCall.socketOp? else []
  | .send n .iterate =>
    if n = nConnID ∧ (s.senders n).writes.length < (s'.senders n).writes.length then
      [.async_write]
    else []
  | _ => []

@[simp] theorem socketOps_accept_self (nConnID : ℕ) (s s' : Server) :
    s.socketOps nConnID s' (.gateway (.accept nConnID)) = [.async_read_some] :=
  if_pos rfl

@[simp] theorem socketOps_read_self (nConnID : ℕ) (s s' : Server) (r : Read) :
    s.socketOps nConnID s' (.gateway (.read nConnID r))
      = s'.gateway.calls.filterMap SessionCall.socketOp? :=
  if_pos rfl

theorem socketOps_accept_of_ne {n nConnID : ℕ} (h : n ≠ nConnID) (s s' : Server) :
    s.socketOps nConnID s' (.gateway (.accept n)) = [] :=
  if_neg h

theorem socketOps_read_of_ne {n nConnID : ℕ} (h : n ≠ nConnID) (s s' : Server) (r : Read) :
    s.socketOps nConnID s' (.gateway (.read n r)) = [] :=
  if_neg h

theorem socketOps_send_of_ne {n nConnID : ℕ} (h : n ≠ nConnID) (s s' : Server) (e : SendEvent) :
    s.socketOps nConnID s' (.send n e) = [] := by
  cases e with
  | iterate => exact if_neg fun hself => h hself.1
  | SendMessageData | response | run | finish | write_some | HandWritedata => rfl

/-- **The server as the socket of a session sees it.** -/
def SocketStep (CheckHttpPackkage : List UInt8 → Bool) (nConnID : ℕ) :
    Machine Server ServerEvent SocketOp :=
  fun s e ops s' =>
    (∃ sizes, Step CheckHttpPackkage s e sizes s') ∧ ops = s.socketOps nConnID s' e

/-- **Nothing is left to ask of the socket of a session** where it is closed: a
read of a session whose handshake is done finds no packet that is too large, the
queue is empty when a request is refused, and a message is sent to a session
only as long as it is open. -/
def ClosesLast (CheckHttpPackkage : List UInt8 → Bool) (nConnID : ℕ) (s : Server) :
    ServerEvent → Prop
  | .gateway (.read n r) => n = nConnID → ∀ c, s.gateway.sessions n = some c →
    (c.m_IsHandler = true → ¬ c.view.FindsTooLarge r.data)
      ∧ (c.m_IsHandler = false → CheckHttpPackkage (c.buffered ++ r.data) = false →
        (s.senders n).lockfree_queue = [])
  | .send n (.SendMessageData _) => n = nConnID → ∀ c, s.gateway.sessions n = some c →
    c.m_hSocket = true
  | _ => True

/-- **What steps that close last keep**: a session that has closed its socket is
closed, and has nothing queued. -/
structure AtRest (nConnID : ℕ) (ops : List SocketOp) (s : Server) : Prop where
  ready : s.Ready
  after : NothingAfterClose ops
  closed : .Close ∈ ops → ∃ c, s.gateway.sessions nConnID = some c ∧ c.m_hSocket = false
  empty : ∀ c, s.gateway.sessions nConnID = some c → c.m_hSocket = false →
    (s.senders nConnID).lockfree_queue = []

variable {CheckHttpPackkage : List UInt8 → Bool} {nConnID : ℕ} {s s' : Server} {e : ServerEvent}
variable {es : List ServerEvent} {ops os : List SocketOp} {sizes : List ℤ}

/-- What is asked of a socket that has not been closed comes in order if it does
by itself. -/
theorem AtRest.append (hs : AtRest nConnID ops s) (hos : NothingAfterClose os)
    (h : os = [] ∨ ∀ c, s.gateway.sessions nConnID = some c → c.m_hSocket = true) :
    NothingAfterClose (ops ++ os) := by
  refine List.pairwise_append.mpr ⟨hs.after, hos, fun op hop op' hop' hclose => ?_⟩
  rcases h with rfl | hopen
  · exact absurd hop' List.not_mem_nil
  · obtain ⟨c, hc, hclosed⟩ := hs.closed (hclose ▸ hop)
    exact absurd ((hopen c hc).symm.trans hclosed) Bool.noConfusion

/-- A step that does not concern the session. -/
theorem AtRest.silent (hs : AtRest nConnID ops s) (hready : s'.Ready)
    (hsessions : s'.gateway.sessions nConnID = s.gateway.sessions nConnID)
    (hsenders : s'.senders nConnID = s.senders nConnID) : AtRest nConnID (ops ++ []) s' := by
  rw [List.append_nil]
  refine ⟨hready, hs.after, fun h => ?_, fun c hc hclosed => ?_⟩
  · rw [hsessions]
    exact hs.closed h
  · rw [hsenders]
    exact hs.empty c (hsessions ▸ hc) hclosed

/-- Operations of which none is `Close`. -/
theorem nothingAfterClose_of_notMem (h : .Close ∉ os) : NothingAfterClose os :=
  List.pairwise_of_forall_mem_list fun _ hop _ _ hclose => absurd (hclose ▸ hop) h

/-- **The session handles a read.** -/
theorem AtRest.received (hs : AtRest nConnID ops s) {c c' : CNetSession} {r : Read}
    {calls : List SessionCall} (hc : s.gateway.sessions nConnID = some c)
    (hr : CNetSession.Receives CheckHttpPackkage c r calls c')
    (hlast : s.ClosesLast CheckHttpPackkage nConnID (.gateway (.read nConnID r)))
    (hready : s'.Ready) (hc' : s'.gateway.sessions nConnID = some c')
    (hsenders : c'.m_hSocket = false → s'.senders nConnID = s.senders nConnID) :
    AtRest nConnID (ops ++ calls.filterMap SessionCall.socketOp?) s' := by
  have hcready := hs.ready nConnID c hc
  have hopen : ∀ c₁, s.gateway.sessions nConnID = some c₁ → c₁.m_hSocket = true :=
    fun c₁ hc₁ => Option.some.inj (hc.symm.trans hc₁) ▸ hr.1.1
  obtain ⟨hsize, hqueue⟩ := hlast rfl c hc
  cases hopen' : c'.m_hSocket with
  | true =>
    have hnot := hcready.close_notMem hr hopen'
    refine ⟨hready, hs.append (nothingAfterClose_of_notMem hnot) (.inr hopen), fun hclose => ?_,
      fun c₁ hc₁ hclosed => ?_⟩
    · obtain ⟨c₁, hc₁, hclosed⟩ := hs.closed ((List.mem_append.mp hclose).resolve_right hnot)
      exact absurd ((hopen c₁ hc₁).symm.trans hclosed) Bool.noConfusion
    · obtain rfl := Option.some.inj (hc'.symm.trans hc₁)
      exact absurd (hopen'.symm.trans hclosed) Bool.noConfusion
  | false =>
    -- only a request that is refused closes the socket
    have hhandler : c.m_IsHandler = false := by
      by_contra htrue
      rw [Bool.not_eq_false] at htrue
      rw [hcready.isOpen_of_handler hr htrue (hsize htrue)] at hopen'
      cases hopen'
    obtain hopen'' | ⟨hverdict, hos⟩ := hcready.socketOps_of_not_handler hr hhandler
    · exact absurd (hopen''.symm.trans hopen') Bool.noConfusion
    · rw [hos]
      refine ⟨hready, hs.append (List.pairwise_singleton _ _) (.inr hopen),
        fun _ => ⟨c', hc', hopen'⟩, fun _ _ _ => ?_⟩
      rw [hsenders hopen']
      exact hqueue hhandler hverdict

/-- **The send path of the session takes a step.** -/
theorem AtRest.sent (hs : AtRest nConnID ops s) {e : SendEvent} {outs : List SendCall} {t : Sender}
    (hstep : Sender.Step (s.senders nConnID) e outs t)
    (hresponse : ∀ fresh buffer, e ≠ .response fresh buffer)
    (hlast : s.ClosesLast CheckHttpPackkage nConnID (.send nConnID e)) (hready : s'.Ready)
    (hsessions : s'.gateway.sessions nConnID = s.gateway.sessions nConnID)
    (hsenders : s'.senders nConnID = t) :
    AtRest nConnID (ops ++ s.socketOps nConnID s' (.send nConnID e)) s' := by
  have hclosed : ∀ c, s.gateway.sessions nConnID = some c → c.m_hSocket = false →
      t.lockfree_queue = [] ∧ e ≠ .iterate := by
    intro c hc hclosed
    refine Sender.step_of_queue_nil hstep (hs.empty c hc hclosed) ?_ hresponse
    rintro m rfl
    exact absurd ((hlast rfl c hc).symm.trans hclosed) Bool.noConfusion
  have hos : s.socketOps nConnID s' (.send nConnID e) = []
      ∨ e = .iterate ∧ s.socketOps nConnID s' (.send nConnID e) = [.async_write] := by
    cases e with
    | iterate =>
      unfold socketOps
      dsimp only
      split_ifs
      · exact .inr ⟨rfl, rfl⟩
      · exact .inl rfl
    | SendMessageData | response | run | finish | write_some | HandWritedata => exact .inl rfl
  have hopen : s.socketOps nConnID s' (.send nConnID e) = []
      ∨ ∀ c, s.gateway.sessions nConnID = some c → c.m_hSocket = true := by
    refine hos.imp_right fun ⟨he, _⟩ c hc => ?_
    by_contra hnot
    exact (hclosed c hc (Bool.eq_false_of_not_eq_true hnot)).2 he
  have hnot : .Close ∉ s.socketOps nConnID s' (.send nConnID e) := by
    rcases hos with hnil | ⟨-, hwrite⟩
    · simp [hnil]
    · simp [hwrite]
  refine ⟨hready, hs.append (nothingAfterClose_of_notMem hnot) hopen, fun hclose => ?_,
    fun c hc hfalse => ?_⟩
  · rw [hsessions]
    exact hs.closed ((List.mem_append.mp hclose).resolve_right hnot)
  · rw [hsenders]
    exact (hclosed c (hsessions ▸ hc) hfalse).1

/-- **The session is given its connection.** -/
theorem AtRest.accepted (hs : AtRest nConnID ops s) (hready : s'.Ready)
    (hnone : s.gateway.sessions nConnID = none)
    (hself : s'.gateway.sessions nConnID = some (.accepted nConnID)) :
    AtRest nConnID (ops ++ [.async_read_some]) s' := by
  have hopen : ∀ c, s.gateway.sessions nConnID = some c → c.m_hSocket = true :=
    fun c hc => absurd (hnone.symm.trans hc) (Option.some_ne_none c).symm
  refine ⟨hready, hs.append (List.pairwise_singleton _ _) (.inr hopen), fun hclose => ?_,
    fun c hc hclosed => ?_⟩
  · obtain ⟨c, hc, -⟩ := hs.closed (by simpa using hclose)
    exact absurd (hnone.symm.trans hc) (Option.some_ne_none c).symm
  · obtain rfl := Option.some.inj (hself.symm.trans hc)
    exact absurd hclosed Bool.noConfusion

/-- **A step that closes last** leaves the session so that nothing is asked of a
socket that has been closed. -/
theorem AtRest.step (hs : AtRest nConnID ops s)
    (h : SocketStep CheckHttpPackkage nConnID s e os s')
    (hlast : s.ClosesLast CheckHttpPackkage nConnID e) : AtRest nConnID (ops ++ os) s' := by
  obtain ⟨⟨sizes, h⟩, rfl⟩ := h
  have hready := hs.ready.step h
  cases h with
  | @CreateNetSession _ n hn hnone =>
    by_cases heq : n = nConnID
    · subst heq
      have hopsnil : s.socketOps n (s.CreateNetSession n) (.CreateNetSession n) = [] := rfl
      rw [hopsnil, List.append_nil]
      exact ⟨hready, hs.after, hs.closed,
        fun c hc => absurd (hnone.symm.trans hc) (Option.some_ne_none c).symm⟩
    · exact hs.silent hready rfl (Function.update_of_ne (Ne.symm heq) _ _)
  | @accept _ n g hidle hn hg =>
    cases hg with
    | accept hcalls hnone =>
      by_cases heq : n = nConnID
      · subst heq
        rw [socketOps_accept_self]
        exact hs.accepted hready hnone (Function.update_self _ _ _)
      · rw [socketOps_accept_of_ne heq]
        exact hs.silent hready (Function.update_of_ne (Ne.symm heq) _ _) rfl
  | @read _ n r c c' calls sizes hidle hn hc hr hflip hsizes =>
    by_cases heq : n = nConnID
    · subst heq
      rw [socketOps_read_self]
      exact hs.received hc hr hlast hready (Function.update_self _ _ _) fun _ => rfl
    · rw [socketOps_read_of_ne heq]
      exact hs.silent hready (Function.update_of_ne (Ne.symm heq) _ _) rfl
  | @handshake _ n r c c' calls buffer outs t hidle hn hc hr hfalse htrue hstep =>
    by_cases heq : n = nConnID
    · subst heq
      rw [socketOps_read_self]
      refine hs.received hc hr hlast hready (Function.update_self _ _ _) fun hclosed => ?_
      -- a session that has done its handshake is open
      have hverdict := (handshake_iff (hs.ready n c hc) hr hfalse).1.mp htrue
      obtain hopen | ⟨hrefused, -⟩ := (hs.ready n c hc).socketOps_of_not_handler hr hfalse
      · exact absurd (hopen.symm.trans hclosed) Bool.noConfusion
      · exact absurd (hverdict.symm.trans hrefused) Bool.noConfusion
    · rw [socketOps_read_of_ne heq]
      exact hs.silent hready (Function.update_of_ne (Ne.symm heq) _ _)
        (Function.update_of_ne (Ne.symm heq) _ _)
  | @call _ g hnot hg =>
    cases hg with
    | call hcalls => exact hs.silent hready rfl rfl
  | @update _ e outs g he hg =>
    rcases he with rfl | rfl | rfl <;> cases hg <;> exact hs.silent hready rfl rfl
  | @send _ n e outs t hn hresponse hbegin hstep =>
    by_cases heq : n = nConnID
    · subst heq
      exact hs.sent hstep hresponse hlast hready rfl (Function.update_self _ _ _)
    · rw [socketOps_send_of_ne heq]
      exact hs.silent hready rfl (Function.update_of_ne (Ne.symm heq) _ _)

/-- **No operation is started on a socket after it has been closed** in every run
whose steps close last, whatever the sessions are sent and read. A read that
finds a packet that is too large starts one while it is handled. -/
theorem nothing_after_close (nConnID : ℕ) :
    (Run ((SocketStep CheckHttpPackkage nConnID).where
        fun s e _ _ => s.ClosesLast CheckHttpPackkage nConnID e) new es ops s →
      NothingAfterClose ops)
    ∧ ∀ r c os s', Run (SocketStep CheckHttpPackkage nConnID) new es ops s →
      s.gateway.sessions nConnID = some c → c.m_IsHandler = true →
      c.view.FindsTooLarge r.data →
      SocketStep CheckHttpPackkage nConnID s (.gateway (.read nConnID r)) os s' →
      ¬ NothingAfterClose (ops ++ os) := by
  refine ⟨fun hr => ?_, fun r c os s' hr hc hhandler hsize h hnothing => ?_⟩
  · have hnil : AtRest nConnID [] new :=
      ⟨ready_new, List.Pairwise.nil, fun h => absurd h List.not_mem_nil, fun c hc => by cases hc⟩
    exact (Run.invariant_history (fun _ ops s => AtRest nConnID ops s)
      (fun _ _ _ _ _ _ hs h => hs.step h.1 h.2) hnil hr).after
  · have hready : s.Ready :=
      hr.invariant (fun _ _ _ _ hs h => hs.step h.1.choose_spec) ready_new
    obtain ⟨⟨sizes, h⟩, rfl⟩ := h
    have hreads : ∃ c' calls, CNetSession.Receives CheckHttpPackkage c r calls c'
        ∧ s'.gateway.calls = calls := by
      cases h with
      | read hidle hn hc₁ hr => exact ⟨_, _, Option.some.inj (hc.symm.trans hc₁) ▸ hr, rfl⟩
      | handshake hidle hn hc₁ hr => exact ⟨_, _, Option.some.inj (hc.symm.trans hc₁) ▸ hr, rfl⟩
      | update he => exact absurd he (by simp)
    obtain ⟨c', calls, hreceives, hcalls⟩ := hreads
    obtain ⟨pre, hpre, hclose⟩ :=
      (hready nConnID c hc).socketOps_of_tooLarge hreceives hhandler hsize
    rw [socketOps_read_self, hcalls, hpre, ← List.append_assoc] at hnothing
    have hlast := (List.pairwise_append.mp hnothing).2.2 .Close (List.mem_append_right _ hclose)
      .async_read_some (List.mem_singleton_self _) rfl
    cases hlast

/-- The only session is created and given its connection. -/
theorem exists_run_only (CheckHttpPackkage : List UInt8 → Bool) : ∃ s,
    Run ((SocketStep CheckHttpPackkage 1).where
        fun s e _ _ => s.ClosesLast CheckHttpPackkage 1 e) new
        [.CreateNetSession 1, .gateway (.accept 1)] [.async_read_some] s
      ∧ s.Idle ∧ s.gateway.sessions 1 = some (.accepted 1)
      ∧ s.m_OnlineNetSessionVector = {1} ∧ s.senders 1 = .new := by
  have hsenders : (new.CreateNetSession 1).senders 1 = .new := rfl
  have hidle : (new.CreateNetSession 1).Idle := by
    refine ⟨rfl, fun n hn => ?_⟩
    rw [Finset.mem_singleton.mp hn, hsenders]
    rfl
  have hcreate : SocketStep CheckHttpPackkage 1 new (.CreateNetSession 1) [] _ :=
    ⟨⟨_, .CreateNetSession (Finset.notMem_empty 1) rfl⟩, rfl⟩
  have haccept : SocketStep CheckHttpPackkage 1 (new.CreateNetSession 1) (.gateway (.accept 1))
      [.async_read_some] _ :=
    ⟨⟨_, .accept hidle (Finset.mem_singleton_self 1) (.accept rfl rfl)⟩, rfl⟩
  have hr : Run ((SocketStep CheckHttpPackkage 1).where
      fun s e _ _ => s.ClosesLast CheckHttpPackkage 1 e) new _ ([] ++ [.async_read_some]) _ :=
    .cons ⟨hcreate, trivial⟩ (.single ⟨haccept, trivial⟩)
  exact ⟨_, hr, hidle, rfl, rfl, hsenders⟩

/-- A request that is refused: the socket is closed, in a run whose steps close
last. -/
theorem exists_run_refused : ∃ s,
    Run ((SocketStep (fun _ => false) 1).where fun s e _ _ => s.ClosesLast (fun _ => false) 1 e) new
        [.CreateNetSession 1, .gateway (.accept 1), .gateway (.read 1 ⟨[0], fun _ => 0⟩),
          .gateway .call] [.async_read_some, .Close] s
      ∧ s.gateway.calls = [] ∧ s.m_OnlineNetSessionVector = {1} ∧ s.senders 1 = .new := by
  obtain ⟨s, hr, hidle, hc, honline, hsenders⟩ := exists_run_only (fun _ => false)
  -- the request is refused, whatever it is
  have hblank := CNetSession.blank_accepted 1
  obtain ⟨b, hok⟩ := CNetSession.HandReaddata_of_not_handler (fun _ => false) hblank.ready
    (r := ⟨[0], fun _ => 0⟩) rfl rfl (by decide) (by simp)
  rw [if_neg Bool.false_ne_true] at hok
  obtain ⟨sizes, hsizes, -⟩ := CNetSession.HandReaddata_allocs hok
  have hread : SocketStep (fun _ => false) 1 s (.gateway (.read 1 ⟨[0], fun _ => 0⟩)) [.Close] _ :=
    ⟨⟨_, .read hidle (honline ▸ Finset.mem_singleton_self 1) hc
      ⟨⟨rfl, by decide, by simp⟩, hok⟩ (by simp [CNetSession.accepted]) hsizes⟩, rfl⟩
  have hlast : s.ClosesLast (fun _ => false) 1 (.gateway (.read 1 ⟨[0], fun _ => 0⟩)) := by
    rintro - c hc'
    obtain rfl := Option.some.inj (hc.symm.trans hc')
    exact ⟨fun htrue => absurd htrue Bool.false_ne_true,
      fun _ _ => congrArg Sender.lockfree_queue hsenders⟩
  have hr' : Run ((SocketStep (fun _ => false) 1).where
      fun s e _ _ => s.ClosesLast (fun _ => false) 1 e) s _ ([.Close] ++ ([] ++ [])) _ :=
    .cons ⟨hread, hlast⟩ (.cons ⟨⟨⟨_, .call hidle.2 (.call rfl)⟩, rfl⟩, trivial⟩ (.nil _))
  exact ⟨_, hr.append hr', rfl, honline, hsenders⟩

/-- Nothing is asked of the socket of a session whose request has been
refused. -/
theorem nothing_after_close_refused : ∃ s,
    Run ((SocketStep (fun _ => false) 1).where fun s e _ _ => s.ClosesLast (fun _ => false) 1 e) new
        [.CreateNetSession 1, .gateway (.accept 1), .gateway (.read 1 ⟨[0], fun _ => 0⟩),
          .gateway .call] [.async_read_some, .Close] s
      ∧ NothingAfterClose [.async_read_some, .Close] := by
  obtain ⟨s, hr, -⟩ := exists_run_refused
  exact ⟨s, hr, (nothing_after_close 1).1 hr⟩

/-- The only session takes a step of its send path. -/
theorem exists_step_sent {e : SendEvent} {t u : Sender} {outs : List SendCall}
    (ht : s.senders nConnID = t) (honline : s.m_OnlineNetSessionVector = {nConnID})
    (hcalls : s.gateway.calls = []) (hresponse : ∀ fresh buffer, e ≠ .response fresh buffer)
    (hstep : Sender.Step t e outs u) :
    ∃ s', SocketStep CheckHttpPackkage nConnID s (.send nConnID e)
        (s.socketOps nConnID s' (.send nConnID e)) s'
      ∧ s'.senders nConnID = u ∧ s'.m_OnlineNetSessionVector = {nConnID}
      ∧ s'.gateway.calls = [] := by
  have hidle : e = .run ∨ (∃ i error, e = .HandWritedata i error) → s.Idle := by
    intro hbegin
    refine ⟨hcalls, fun m hm => ?_⟩
    rw [honline, Finset.mem_singleton] at hm
    rw [hm, ht]
    obtain rfl | ⟨i, error, rfl⟩ := hbegin <;> cases hstep <;> assumption
  exact ⟨_, ⟨⟨_, .send (honline ▸ Finset.mem_singleton_self nConnID) hresponse hidle (ht ▸ hstep)⟩,
    rfl⟩, Function.update_self _ _ _, honline, hcalls⟩

/-- It is not true that nothing is asked of a socket that has been closed: a
message is sent to a session whose request has been refused. -/
theorem not_nothing_after_close : ¬ ∀ (CheckHttpPackkage : List UInt8 → Bool) (nConnID : ℕ)
    (es : List ServerEvent) (ops : List SocketOp) (s : Server),
    Run (SocketStep CheckHttpPackkage nConnID) new es ops s → NothingAfterClose ops := by
  intro h
  obtain ⟨s, hr, hcalls, honline, hsenders⟩ := exists_run_refused
  obtain ⟨b, call', size, -, -, -, hsend, hrun, hiterate⟩ := Sender.exists_steps_empty
  obtain ⟨s₁, hr₁, hs₁⟩ := exists_step_sent hsenders honline hcalls (by simp) hsend
  obtain ⟨s₂, hr₂, hs₂⟩ := exists_step_sent hs₁.1 hs₁.2.1 hs₁.2.2 (by simp) hrun
  obtain ⟨s₃, hr₃, hs₃, -⟩ := exists_step_sent hs₂.1 hs₂.2.1 hs₂.2.2 (by simp) hiterate
  have hnothing := h _ 1 _ _ s₃ (hr.of_where.append (.cons hr₁ (.cons hr₂ (.single hr₃))))
  have hwrites : (s₂.senders 1).writes.length < (s₃.senders 1).writes.length := by
    rw [hs₂.1, hs₃]
    exact Nat.zero_lt_one
  have hlast := (List.pairwise_append.mp hnothing).2.2 .Close (by simp) .async_write
    (by simp [socketOps, hwrites]) rfl
  cases hlast

end Server
