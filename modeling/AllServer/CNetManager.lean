import AllServer.CNetSessionMrg
import AllServer.Server

/-!
# The network manager

`CNetManager` puts sessions to use: it takes one from the session manager for
the next connection that is to be accepted (`WaitForConnet`) and one for each
connection that is to be made (`ConnectTo_Async`), and it looks up the session
that a message is for (`SendMessageData`).

The functions are those of the source. The sessions themselves are those of
`Server`, where they go by their ids. A function has no value where a lock that
it takes is never released.

What the callers of these functions are told is not always what has happened:
the lookup of an id calls through a null pointer (`lookup_safe_iff`), the lock
is held from the first session that there was not (`lock_free_iff`), and
`SendMsgProtoBuf` has returned `true` for messages that nobody will send
(`send_honest_iff`).
-/

/-- **The network manager**, with the sessions and what it has asked `asio`
for. -/
structure CNetManager where
  /-- `CNetSessionMrg::GetInstancePtr()`. -/
  mrg : CNetSessionMrg
  server : Server
  /-- The session that the outstanding `async_accept` is for, if there is one. -/
  accepting : Option ℕ
  /-- The sessions that the outstanding `async_connect`s are for. -/
  connecting : List ℕ
  /-- The ids of the sessions that have a read outstanding. -/
  reading : Finset ℕ

namespace CNetManager

/-- The manager as its constructor leaves it. -/
def new : CNetManager := ⟨.new, .new, none, [], ∅⟩

/-- The id of a session, by which it goes in the server. -/
def connID (s : CNetManager) (CNetSession_ : ℕ) : ℕ := (s.mrg.GetSessionID CNetSession_).toNat

/-- The manager when the session manager has returned a session, or none. -/
def created (mrg : CNetSessionMrg) (CNetSession_ : Option ℕ) (s : CNetManager) : CNetManager :=
  match CNetSession_ with
  | none => { s with mrg }
  | some p => { s with mrg, server := s.server.CreateNetSession (s.connID p) }

/-- A call of `CNetSessionMrg::CreateNetSession`. -/
def CreateNetSession (s : CNetManager) : Option (CNetManager × Option ℕ) := do
  let (mrg, CNetSession_) ← s.mrg.CreateNetSession
  return (s.created mrg CNetSession_, CNetSession_)

/-- `CNetManager::WaitForConnet`. -/
def WaitForConnet (s : CNetManager) : Option (CNetManager × Bool) := do
  let (s, CNetSession_) ← s.CreateNetSession
  match CNetSession_ with
  | none => return (s, false)
  | some p => return ({ s with accepting := some p }, true)

/-- `CNetManager::ConnectTo_Async`. The session is used without a check. -/
def ConnectTo_Async (s : CNetManager) : Option (CNetManager × Except Fault ℕ) := do
  let (s, pNetSession) ← s.CreateNetSession
  match pNetSession with
  | none => return (s, .error .null)
  | some p => return ({ s with connecting := p :: s.connecting }, .ok p)

/-- `CNetManager::Start`. -/
def Start (nMaxConn : UInt32) (s : CNetManager) : Option CNetManager := do
  let s := { s with mrg := s.mrg.InitConnectionList nMaxConn }
  let (s, _) ← s.WaitForConnet
  return s

/-- `OnNewConnect` and `DoReceive`, for a session whose connection is there. -/
def connected (nConnID : ℕ) (s : CNetManager) : CNetManager :=
  { s with
    server := { s.server with gateway := { s.server.gateway with
      sessions := Function.update s.server.gateway.sessions nConnID (some (.accepted nConnID))
      service := s.server.gateway.service.OnNewConnect nConnID } }
    reading := insert nConnID s.reading }

/-- `CNetManager::HandleAccept`. -/
def HandleAccept (NetSession_ : ℕ) (e : Bool) (s : CNetManager) : Option CNetManager := do
  if e then
    return s
  let (s, _) ← (s.connected (s.connID NetSession_)).WaitForConnet
  return s

/-- `CNetManager::HandleConnect`. -/
def HandleConnect (pNetSession : ℕ) (e : Bool) (s : CNetManager) : CNetManager :=
  if e then s else s.connected (s.connID pNetSession)

/-- The manager when a buffer has been allocated for a message and been sent to a
session. -/
def sent (pConn : ℕ) (nSize : ℤ) (pDataBuffer : CDataBuffer) (s : CNetManager) : CNetManager :=
  { s with server := Server.alloc [nSize] (s.server.sent (s.connID pConn)
    ((s.server.senders (s.connID pConn)).SendMessageData pDataBuffer)) }

/-- `CNetManager::SendMessageData`. -/
def SendMessageData (dwConnID : UInt32) (m : Message) (s : CNetManager) :
    Except Fault (CNetManager × Bool) := do
  match ← s.mrg.GetNetSessionByID dwConnID with
  | none => return (s, false)
  | some pConn =>
    let pDataBuffer ← messageBuffer m
    return (s.sent pConn (toInt (m.pData.length + HEADER_LEN)) pDataBuffer, true)

end CNetManager

/-- The message that `SendMessageData` is given: its length is passed as a
`UINT32`. -/
def Message.truncated (m : Message) : Message :=
  { m with pData := m.pData.take (m.pData.length % 2 ^ 32) }

/-- `CServiceBase::SendMsgProtoBuf`. -/
def CServiceBase.SendMsgProtoBuf (dwConnID : UInt32) (m : Message) (s : CNetManager) :
    Except Fault (CNetManager × Bool) := do
  let (s, _) ← s.SendMessageData dwConnID m.truncated
  return (s, true)

namespace CNetManager

variable {s s' : CNetManager}

/-! ## Taking a session -/

/-- **A call of `CreateNetSession`** returns what that of the session manager
does. -/
theorem CreateNetSession_eq_some {CNetSession_ : Option ℕ} :
    s.CreateNetSession = some (s', CNetSession_)
      ↔ ∃ mrg, s.mrg.CreateNetSession = some (mrg, CNetSession_)
        ∧ s' = s.created mrg CNetSession_ := by
  unfold CreateNetSession
  constructor
  · intro h
    obtain ⟨⟨mrg, r⟩, hmrg, h⟩ := Option.bind_eq_some_iff.mp h
    cases h
    exact ⟨mrg, hmrg, rfl⟩
  · rintro ⟨mrg, hmrg, rfl⟩
    rw [hmrg]
    rfl

/-- A call of `WaitForConnet` that gets a session. -/
theorem WaitForConnet_of_some {p : ℕ} (h : s.CreateNetSession = some (s', some p)) :
    s.WaitForConnet = some ({ s' with accepting := some p }, true) := by
  unfold WaitForConnet
  rw [h]
  rfl

/-- A call of `ConnectTo_Async` that gets a session. -/
theorem ConnectTo_Async_of_some {p : ℕ} (h : s.CreateNetSession = some (s', some p)) :
    s.ConnectTo_Async = some ({ s' with connecting := p :: s'.connecting }, .ok p) := by
  unfold ConnectTo_Async
  rw [h]
  rfl

/-- A call of `WaitForConnet` that returns. -/
theorem WaitForConnet_eq_some {ok : Bool} (h : s.WaitForConnet = some (s', ok)) :
    ∃ t CNetSession_, s.CreateNetSession = some (t, CNetSession_)
      ∧ (CNetSession_ = none ∧ s' = t ∧ ok = false
        ∨ ∃ p, CNetSession_ = some p ∧ s' = { t with accepting := some p } ∧ ok = true) := by
  unfold WaitForConnet at h
  obtain ⟨⟨t, r⟩, ht, h⟩ := Option.bind_eq_some_iff.mp h
  cases r with
  | none =>
    cases h
    exact ⟨_, none, ht, .inl ⟨rfl, rfl, rfl⟩⟩
  | some p =>
    cases h
    exact ⟨t, some p, ht, .inr ⟨p, rfl, rfl, rfl⟩⟩

/-- A call of `ConnectTo_Async` that returns, or that faults. -/
theorem ConnectTo_Async_eq_some {r : Except Fault ℕ} (h : s.ConnectTo_Async = some (s', r)) :
    ∃ t pNetSession, s.CreateNetSession = some (t, pNetSession)
      ∧ (pNetSession = none ∧ s' = t ∧ r = .error .null
        ∨ ∃ p, pNetSession = some p ∧ s' = { t with connecting := p :: t.connecting }
          ∧ r = .ok p) := by
  unfold ConnectTo_Async at h
  obtain ⟨⟨t, r'⟩, ht, h⟩ := Option.bind_eq_some_iff.mp h
  cases r' with
  | none =>
    cases h
    exact ⟨_, none, ht, .inl ⟨rfl, rfl, rfl⟩⟩
  | some p =>
    cases h
    exact ⟨t, some p, ht, .inr ⟨p, rfl, rfl, rfl⟩⟩

end CNetManager

/-! ## The lock of the session pool -/

/-- The callers of `CreateNetSession`. -/
inductive Caller where
  | WaitForConnet
  | ConnectTo_Async

namespace CNetManager

variable {s s' : CNetManager}

/-- **Calls of `CreateNetSession`**, and the faults that its callers run into
with what it returns. -/
inductive Calls : Machine CNetManager Caller Fault
  | WaitForConnet {s s' : CNetManager} {ok : Bool} :
      s.WaitForConnet = some (s', ok) → Calls s .WaitForConnet [] s'
  | ConnectTo_Async {s s' : CNetManager} {p : ℕ} :
      s.ConnectTo_Async = some (s', .ok p) → Calls s .ConnectTo_Async [] s'
  | fault {s s' : CNetManager} {f : Fault} :
      s.ConnectTo_Async = some (s', .error f) → Calls s .ConnectTo_Async [f] s'

/-- The manager whose sessions have been created. -/
def initialized (nMaxConn : UInt32) : CNetManager :=
  { new with mrg := CNetSessionMrg.new.InitConnectionList nMaxConn }

/-- **The call has left the pool in order**: the lock is free, and the caller has
not run into a fault. -/
def InOrder (outs : List Fault) (s' : CNetManager) : Prop :=
  s'.mrg.m_GetSessionMutex = false ∧ outs = []

/-- A call on a pool with a session leaves it in order. -/
theorem exists_call {rest : List ℕ} {p : ℕ} (hlock : s.mrg.m_GetSessionMutex = false)
    (hvector : s.mrg.m_NetSessionVector = rest ++ [p]) (caller : Caller) :
    ∃ s', Calls s caller [] s' ∧ s'.mrg.m_GetSessionMutex = false
      ∧ s'.mrg.m_NetSessionVector = rest := by
  have hcreate := CreateNetSession_eq_some.mpr
    ⟨_, CNetSessionMrg.CreateNetSession_of_concat hlock hvector, rfl⟩
  cases caller with
  | WaitForConnet => exact ⟨_, .WaitForConnet (WaitForConnet_of_some hcreate), rfl, rfl⟩
  | ConnectTo_Async => exact ⟨_, .ConnectTo_Async (ConnectTo_Async_of_some hcreate), rfl, rfl⟩

/-- **A call that leaves the pool in order** has taken a session, from a pool
whose lock was free. -/
theorem Calls.of_inOrder {caller : Caller} {outs : List Fault} (h : Calls s caller outs s')
    (horder : InOrder outs s') :
    ∃ rest p, s.mrg.m_NetSessionVector = rest ++ [p] ∧ s'.mrg.m_NetSessionVector = rest := by
  -- whatever has been taken, the lock is free again
  have htaken : ∀ {t : CNetManager} {r : Option ℕ}, s.CreateNetSession = some (t, r) →
      t.mrg.m_GetSessionMutex = false →
      ∃ rest p, s.mrg.m_NetSessionVector = rest ++ [p] ∧ t.mrg.m_NetSessionVector = rest := by
    intro t r ht hfree
    obtain ⟨mrg, hmrg, rfl⟩ := CreateNetSession_eq_some.mp ht
    obtain ⟨-, ⟨-, rfl, rfl⟩ | ⟨rest, p, hvector, rfl, rfl⟩⟩ :=
      CNetSessionMrg.CreateNetSession_eq_some hmrg
    · cases hfree
    · exact ⟨rest, p, hvector, rfl⟩
  cases h with
  | WaitForConnet h =>
    obtain ⟨t, r, ht, ⟨-, rfl, -⟩ | ⟨p, -, rfl, -⟩⟩ := WaitForConnet_eq_some h
    · exact htaken ht horder.1
    · obtain ⟨rest, q, hvector, hvector'⟩ := htaken ht horder.1
      exact ⟨rest, q, hvector, hvector'⟩
  | ConnectTo_Async h =>
    obtain ⟨t, r, ht, ⟨-, -, hnull⟩ | ⟨p, -, rfl, -⟩⟩ := ConnectTo_Async_eq_some h
    · cases hnull
    · obtain ⟨rest, q, hvector, hvector'⟩ := htaken ht horder.1
      exact ⟨rest, q, hvector, hvector'⟩
  | fault h => cases horder.2

/-- From a pool whose lock is free, as many calls leave it in order as there are
sessions. -/
theorem exists_calls_iff (callers : List Caller) (hlock : s.mrg.m_GetSessionMutex = false) :
    (∃ outs t, Run (Calls.where fun _ _ outs s' => InOrder outs s') s callers outs t)
      ↔ callers.length ≤ s.mrg.m_NetSessionVector.length := by
  induction callers generalizing s with
  | nil => exact iff_of_true ⟨[], s, .nil s⟩ (Nat.zero_le _)
  | cons caller callers ih =>
    rw [List.length_cons]
    constructor
    · rintro ⟨_, t, hr⟩
      cases hr with
      | cons hcall hrest =>
        obtain ⟨rest, p, hvector, hvector'⟩ := hcall.1.of_inOrder hcall.2
        have hle := (ih hcall.2.1).mp ⟨_, t, hrest⟩
        rw [hvector, List.length_append, List.length_singleton, ← hvector']
        omega
    · intro hle
      rcases s.mrg.m_NetSessionVector.eq_nil_or_concat with hnil | ⟨rest, p, hvector⟩
      · rw [hnil, List.length_nil] at hle
        omega
      · rw [List.concat_eq_append] at hvector
        obtain ⟨s', hcall, hlock', hvector'⟩ := exists_call hlock hvector caller
        rw [hvector, List.length_append, List.length_singleton, ← hvector'] at hle
        obtain ⟨outs, t, hrest⟩ := (ih hlock').mpr (by omega)
        exact ⟨_, t, .cons ⟨hcall, hlock', rfl⟩ hrest⟩

/-- **The pool stays in order as long as there is a session for each call**, and
not longer: for any number of sessions and any sequence of calls. A call that
finds no session returns with the mutex locked, and the next one waits for it. -/
theorem lock_free_iff (nMaxCons : UInt32) (callers : List Caller) :
    (∃ outs s, Run (Calls.where fun _ _ outs s' => InOrder outs s') (initialized nMaxCons)
        callers outs s)
      ↔ callers.length ≤ nMaxCons.toNat := by
  obtain ⟨hlock, hvector, -⟩ := CNetSessionMrg.init_spec nMaxCons
  have hlen : (initialized nMaxCons).mrg.m_NetSessionVector.length = nMaxCons.toNat :=
    (congrArg List.length hvector).trans List.length_range
  rw [exists_calls_iff (s := initialized nMaxCons) callers hlock, hlen]

/-- It is not true that the lock is never left held: with one session, the first
accept that succeeds asks for a second one. -/
theorem not_lock_free : ¬ ∀ (nMaxCons : UInt32) (callers : List Caller), ∃ outs s,
    Run (Calls.where fun _ _ outs s' => InOrder outs s') (initialized nMaxCons)
      callers outs s := by
  intro h
  have hle := (exists_calls_iff _ rfl).mp (h 1 [.WaitForConnet, .WaitForConnet])
  exact absurd hle (by decide)

/-! ## Looking a session up -/

/-- **The lookup is safe**: it returns the session that is online and has this
id, if there is one, and a message for an id without one is refused, with
nothing allocated. -/
def LookupSafe (dwConnID : UInt32) (s : CNetManager) : Prop :=
  ∃ NetSession, s.mrg.GetNetSessionByID dwConnID = .ok NetSession
    ∧ (∀ p, NetSession = some p
      ↔ (∃ key, s.mrg.m_OnlineNetSessionVector key = some p) ∧ s.mrg.GetSessionID p = dwConnID)
    ∧ (NetSession = none → ∀ m, s.SendMessageData dwConnID m = .ok (s, false))

section Reachable

variable {nMaxCons : UInt32} {cs : List Unit} {outs : List (Option ℕ)}
variable (hr : Run CNetSessionMrg.Creates (CNetSessionMrg.new.InitConnectionList nMaxCons)
  cs outs s.mrg)
include hr

/-- **The lookup is safe for 0 and for the ids of sessions that are online**, and
for no other id: whatever sessions have been put to use. Where the map has no
session under the id, the code goes on with a null pointer and asks it for its id. -/
theorem lookup_safe_iff (dwConnID : UInt32) :
    s.LookupSafe dwConnID
      ↔ dwConnID = 0 ∨ ∃ p, s.mrg.m_OnlineNetSessionVector dwConnID = some p := by
  have htable := (CNetSessionMrg.creates_history hr).1
  cases hkey : s.mrg.m_OnlineNetSessionVector dwConnID with
  | some p =>
    refine iff_of_true ⟨some p, htable.GetNetSessionByID_of_some hkey, fun q => ?_, ?_⟩
      (.inr ⟨p, rfl⟩)
    · rw [Option.some.injEq]
      constructor
      · rintro rfl
        exact ⟨⟨dwConnID, hkey⟩, htable.key_eq dwConnID p hkey⟩
      · rintro ⟨⟨key, hq⟩, hid⟩
        rw [← htable.key_eq key q hq, hid, hkey] at hq
        exact Option.some.inj hq
    · exact fun hnone => absurd hnone (Option.some_ne_none p)
  | none =>
    have hlookup := CNetSessionMrg.GetNetSessionByID_of_none hkey
    by_cases hzero : 0 = dwConnID
    · rw [if_pos hzero] at hlookup
      refine iff_of_true ⟨none, hlookup, fun q => ?_, fun _ m => ?_⟩ (.inl hzero.symm)
      · refine iff_of_false (Option.some_ne_none q).symm ?_
        rintro ⟨⟨key, hq⟩, hid⟩
        rw [← htable.key_eq key q hq, hid, hkey] at hq
        exact absurd hq (Option.some_ne_none q).symm
      · unfold SendMessageData
        rw [hlookup]
        rfl
    · rw [if_neg hzero] at hlookup
      refine iff_of_false ?_ ?_
      · rintro ⟨NetSession, hok, -⟩
        cases hlookup.symm.trans hok
      · rintro (rfl | ⟨p, hp⟩)
        · exact hzero rfl
        · cases hp

end Reachable

/-- Of two sessions the one that waits for a connection is found, and a lookup
of the other one is not safe. -/
theorem lookup_safe_iff_two : ∃ s : CNetManager,
    Run CNetSessionMrg.Creates (CNetSessionMrg.new.InitConnectionList 2) [()] [some 1] s.mrg
      ∧ s.LookupSafe 2 ∧ ¬ s.LookupSafe 1 := by
  have hr : Run CNetSessionMrg.Creates (CNetSessionMrg.new.InitConnectionList 2) [()] [some 1] _ :=
    .single (.of_eq rfl)
  refine ⟨{ new with mrg := _ }, hr, (lookup_safe_iff hr 2).mpr (.inr ⟨1, rfl⟩), fun h => ?_⟩
  rcases (lookup_safe_iff hr 1).mp h with hzero | ⟨p, hp⟩
  · exact absurd hzero (by decide)
  · cases hp

/-- It is not true that every lookup is safe: before any session is online, that
of the id 1 calls through a null pointer. -/
theorem not_lookup_safe : ¬ ∀ (nMaxCons : UInt32) (cs : List Unit) (outs : List (Option ℕ))
    (s : CNetManager), Run CNetSessionMrg.Creates (CNetSessionMrg.new.InitConnectionList nMaxCons)
      cs outs s.mrg → ∀ dwConnID, s.LookupSafe dwConnID := by
  intro h
  obtain ⟨NetSession, hok, -⟩ := h 1 [] [] (initialized 1) (.nil _) 1
  cases hok

/-! ## Sending a message -/

/-- **The message has been queued**: the session with this id is online, the
packet has been pushed to its queue, and `DoSend` has been posted. -/
def Queued (dwConnID : UInt32) (m : Message) (s s' : CNetManager) : Prop :=
  ∃ p b, s.mrg.m_OnlineNetSessionVector dwConnID = some p ∧ messageBuffer m = .ok b
    ∧ (s'.server.senders (s.connID p)).lockfree_queue
      = (s.server.senders (s.connID p)).lockfree_queue ++ [b]
    ∧ (s'.server.senders (s.connID p)).posted = (s.server.senders (s.connID p)).posted + 1

/-- **`SendMsgProtoBuf` says what has happened**: it returns `true` exactly if the
message has been queued, and if it returns `false` nothing has changed. -/
def Honest (dwConnID : UInt32) (m : Message) (s : CNetManager) : Prop :=
  ∃ s' ok, CServiceBase.SendMsgProtoBuf dwConnID m s = .ok (s', ok)
    ∧ (ok = true ↔ Queued dwConnID m.truncated s s') ∧ (ok = false → s' = s)

/-- **`SendMessageData` to a session that is online**, of a packet that fits its
buffer. -/
theorem SendMessageData_of_some {nMaxCons : UInt32} (htable : s.mrg.Table nMaxCons)
    {dwConnID : UInt32} {p : ℕ} (hkey : s.mrg.m_OnlineNetSessionVector dwConnID = some p)
    {m : Message} {b : CDataBuffer} (hb : messageBuffer m = .ok b) :
    s.SendMessageData dwConnID m
      = .ok (s.sent p (toInt (m.pData.length + HEADER_LEN)) b, true) := by
  unfold SendMessageData
  rw [htable.GetNetSessionByID_of_some hkey, ok_bind]
  dsimp only
  rw [hb, ok_bind]
  rfl

/-- The send path of the session afterwards. -/
theorem senders_sent (p : ℕ) (nSize : ℤ) (b : CDataBuffer) (s : CNetManager) :
    (s.sent p nSize b).server.senders (s.connID p)
      = (s.server.senders (s.connID p)).SendMessageData b :=
  Function.update_self _ _ _

section Reachable

variable {nMaxCons : UInt32} {cs : List Unit} {outs : List (Option ℕ)}
variable (hr : Run CNetSessionMrg.Creates (CNetSessionMrg.new.InitConnectionList nMaxCons)
  cs outs s.mrg)
include hr

/-- **`SendMsgProtoBuf` says what has happened** exactly where it has queued the
message: the session is online, its queue has room, and the packet fits its
buffer. It drops the result of `SendMessageData`, which is itself true where the
push has failed. -/
theorem send_honest_iff (dwConnID : UInt32) (m : Message) :
    Honest dwConnID m s
      ↔ (∃ p, s.mrg.m_OnlineNetSessionVector dwConnID = some p
          ∧ (s.server.senders (s.connID p)).lockfree_queue.length < QUEUE_CAPACITY)
        ∧ m.truncated.pData.length + HEADER_LEN
          ≤ managerSize (toInt (m.truncated.pData.length + HEADER_LEN)) := by
  have htable := (CNetSessionMrg.creates_history hr).1
  rw [← messageBuffer_eq_ok_iff]
  constructor
  · rintro ⟨s', ok, hsend, hqueued, -⟩
    obtain ⟨⟨t, r⟩, hdata, hsend⟩ := bind_eq_ok.mp hsend
    obtain ⟨rfl, rfl⟩ := Prod.mk.inj (Except.ok.inj hsend)
    obtain ⟨p, b, hkey, hb, hqueue, -⟩ := hqueued.mp rfl
    refine ⟨⟨p, hkey, Nat.lt_of_not_le fun hfull => ?_⟩, b, hb⟩
    -- what is pushed to a full queue is not in it afterwards
    rw [SendMessageData_of_some htable hkey hb] at hdata
    obtain ⟨rfl, -⟩ := Prod.mk.inj (Except.ok.inj hdata)
    rw [senders_sent, Sender.SendMessageData_of_full hfull] at hqueue
    exact List.cons_ne_nil b [] (List.self_eq_append_right.mp hqueue)
  · rintro ⟨⟨p, hkey, hroom⟩, b, hb⟩
    refine ⟨_, true, bind_eq_ok.mpr ⟨_, SendMessageData_of_some htable hkey hb, rfl⟩,
      iff_of_true rfl ⟨p, b, hkey, hb, ?_⟩, fun hfalse => absurd hfalse Bool.noConfusion⟩
    rw [senders_sent, Sender.SendMessageData_of_room hroom]
    exact ⟨rfl, rfl⟩

end Reachable

/-- A message to the session that waits for a connection is queued. -/
theorem send_honest_iff_empty : ∃ s : CNetManager,
    Run CNetSessionMrg.Creates (CNetSessionMrg.new.InitConnectionList 2) [()] [some 1] s.mrg
      ∧ Honest 2 .empty s := by
  have hr : Run CNetSessionMrg.Creates (CNetSessionMrg.new.InitConnectionList 2) [()] [some 1] _ :=
    .single (.of_eq rfl)
  refine ⟨{ new with mrg := _ }, hr, (send_honest_iff hr 2 .empty).mpr ⟨⟨1, rfl, ?_⟩, ?_⟩⟩
  · exact (by decide : 0 < QUEUE_CAPACITY)
  · decide

/-- It is not true that `SendMsgProtoBuf` always says what has happened: there is
no session with the id 0, and it returns `true`. -/
theorem not_send_honest : ¬ ∀ (nMaxCons : UInt32) (cs : List Unit) (outs : List (Option ℕ))
    (s : CNetManager), Run CNetSessionMrg.Creates (CNetSessionMrg.new.InitConnectionList nMaxCons)
      cs outs s.mrg → ∀ dwConnID m, Honest dwConnID m s := by
  intro h
  obtain ⟨s', ok, hsend, hqueued, -⟩ := h 1 [] [] (initialized 1) (.nil _) 0 .empty
  have hok : ok = true := by
    obtain ⟨-, -, hsend⟩ := bind_eq_ok.mp hsend
    exact (congrArg Prod.snd (Except.ok.inj hsend)).symm
  obtain ⟨p, b, hkey, -⟩ := hqueued.mp hok
  cases hkey

end CNetManager
