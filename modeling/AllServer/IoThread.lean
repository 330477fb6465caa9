import AllServer.Handshake
import AllServer.Receive

/-!
# Handshakes of many sessions

The I/O thread handles the reads of all sessions one after the other, and the
static variables of the handshake go from each to the next. Here they are
passed along: `IoThread.HandReaddata` is `CNetSession::HandReaddata` with the
handshake of `AllServer.Handshake` in it.

A handshake leaves the statics changed, and finds them as the last one has left
them, which may have stopped halfway. It makes no difference: on whatever
statics, the read does what `CNetSession.HandReaddata` does with a verdict that
only looks at the request, and the response is the answer to the request
(`HandReaddata_of_not_handler`). So a run of the thread, looked at from one
session, is a run of a machine in which that session is alone (`run_alone`),
and all of that machine's runs are such (`exists_run_of_alone`). It leaves no
choice.
-/

/-- **A handshake that has been tried**: what `CheckHttpPackkage` was given and
said, and what `RetHttpHandlerPackkage` queued if it was called. -/
structure Attempt where
  request : List UInt8
  remote_endpoint : Endpoint
  ok : Bool
  response : Option Response

/-- What has been hashed and queued, without the bytes of the buffer that are
not in use. -/
def Attempt.queued (a : Attempt) : Option (List UInt8 × List UInt8) :=
  a.response.map (fun response => (response.hashed, response.pwebDataBuffer.content))

/-- **The I/O thread**: the sessions that have been accepted, with their remote
endpoints, and the static variables. -/
structure IoThread where
  sessions : ℕ → Option (CNetSession × Endpoint)
  statics : Statics

/-- What the I/O thread runs a handler for. -/
inductive IoEvent where
  | accept (nConnID : ℕ) (remote_endpoint : Endpoint)
  | read (nConnID : ℕ) (r : Read)

namespace IoThread

section Code

variable (http_parser_execute : List UInt8 → List HttpCallback)
variable (crypt_sha1 : List UInt8 → MemBlock UInt8 20)

/-- `CNetSession::HandleRecvEvent` on a session with this remote endpoint. -/
def HandleRecvEvent (fresh : ℕ → UInt8) (dwBytes : ℕ) (e : Endpoint) (st : Statics)
    (s : CNetSession) :
    Except Fault (CNetSession × Statics × List SessionCall × Option Attempt) := do
  let s := { s with m_dwDataLen := (s.m_dwDataLen + dwBytes) % 2 ^ 32 }
  if 0 = s.m_dwDataLen then
    return (s, st, [], none)
  if ¬ s.m_IsHandler then
    let request ← s.m_pRecvBuf.load s.m_pBufPos s.m_dwDataLen
    let (st, ok) ← Handshake.CheckHttpPackkage http_parser_execute request st
    if ¬ ok then
      let (s, calls) ← s.Close
      return (s, st, calls, some ⟨request, e, ok, none⟩)
    -- `remote_endpoint` of a socket that is closed throws
    let _ ← s.RetHttpHandlerPackkage
    let (st, _, response) ← Handshake.HttpHandlerPackkage crypt_sha1 e fresh st
    let s := { s with m_dwDataLen := 0, m_IsHandler := true }
    return (s, st, ← s.DoReceive, some ⟨request, e, ok, some response⟩)
  else
    let (s, calls) ← CNetSession.ExtractBuffer fresh s
    return (s, st, calls ++ (← s.DoReceive), none)

/-- `CNetSession::HandReaddata` without an error. -/
def HandReaddata (r : Read) (e : Endpoint) (st : Statics) (s : CNetSession) :
    Except Fault (CNetSession × Statics × List SessionCall × Option Attempt) := do
  let m_pRecvBuf ← s.m_pRecvBuf.store s.m_dwDataLen r.data
  HandleRecvEvent http_parser_execute crypt_sha1 r.fresh r.data.length e st
    { s with m_pRecvBuf }

/-- **The I/O thread as a machine.** Of what a session calls only the handshake
is kept, under the id of the session. -/
inductive Step : Machine IoThread IoEvent (ℕ × Attempt)
  | accept {g : IoThread} {nConnID : ℕ} {e : Endpoint} :
      g.sessions nConnID = none →
      Step g (.accept nConnID e) []
        { g with sessions := Function.update g.sessions nConnID (some (.accepted nConnID, e)) }
  | read {g : IoThread} {nConnID : ℕ} {r : Read} {s s' : CNetSession} {e : Endpoint}
      {st : Statics} {calls : List SessionCall} {attempt : Option Attempt} :
      g.sessions nConnID = some (s, e) → s.Offers r →
      HandReaddata http_parser_execute crypt_sha1 r e g.statics s
        = .ok (s', st, calls, attempt) →
      Step g (.read nConnID r) (attempt.toList.map (nConnID, ·))
        ⟨Function.update g.sessions nConnID (some (s', e)), st⟩

end Code

end IoThread

/-! ## One read -/

namespace Handshake

variable (http_parser_execute : List UInt8 → List HttpCallback)
variable (crypt_sha1 : List UInt8 → MemBlock UInt8 20)

/-- Whether a request has a key. -/
def verdict (request : List UInt8) : Bool := (heard (http_parser_execute request)).key.isSome

/-- **The answer to a request**, if there is one: what is hashed, and the
response. -/
def answer (request : List UInt8) (e : Endpoint) : Option (List UInt8 × List UInt8) :=
  (heard (http_parser_execute request)).key.map
    (fun key => (key ++ migic, acceptText (accept crypt_sha1 key) e))

end Handshake

namespace IoThread

variable {http_parser_execute : List UInt8 → List HttpCallback}
variable {crypt_sha1 : List UInt8 → MemBlock UInt8 20} {s s' : CNetSession} {r : Read}
variable {e : Endpoint} {st st' : Statics} {calls : List SessionCall} {attempt : Option Attempt}

/-- After the handshake the statics are not looked at. -/
theorem HandReaddata_of_handler (hhandler : s.m_IsHandler = true)
    (h : CNetSession.HandReaddata (Handshake.verdict http_parser_execute) r s
      = .ok (s', calls)) :
    HandReaddata http_parser_execute crypt_sha1 r e st s = .ok (s', st, calls, none) := by
  obtain ⟨b, hb, hrecv⟩ := bind_eq_ok.mp h
  refine bind_eq_ok.mpr ⟨b, hb, ?_⟩
  unfold CNetSession.HandleRecvEvent at hrecv
  unfold HandleRecvEvent
  dsimp only at hrecv ⊢
  rw [if_neg (not_not.mpr hhandler)] at hrecv ⊢
  by_cases hzero : 0 = (s.m_dwDataLen + r.data.length) % 2 ^ 32
  · rw [if_pos hzero] at hrecv ⊢
    obtain ⟨rfl, rfl⟩ := Prod.mk.inj (Except.ok.inj hrecv)
    rfl
  · rw [if_neg hzero] at hrecv ⊢
    obtain ⟨⟨s₁, calls₁⟩, hextract, hrest⟩ := bind_eq_ok.mp hrecv
    obtain ⟨calls₂, hreceive, hret⟩ := bind_eq_ok.mp hrest
    obtain ⟨rfl, rfl⟩ := Prod.mk.inj (Except.ok.inj hret)
    exact bind_eq_ok.mpr ⟨_, hextract, bind_eq_ok.mpr ⟨_, hreceive, rfl⟩⟩

/-- Before the handshake a session has an open socket and some bytes. -/
theorem view_of_not_handler (hs : s.Ready) (hopen : s.m_hSocket = true)
    (hhandler : s.m_IsHandler = false) : s.view = ⟨true, none, s.buffered⟩ := by
  unfold CNetSession.view
  rw [hopen, hs.cur_eq hopen hhandler]
  rfl

/-- **A read before the handshake, on any statics**: the session does what it
does with the verdict on the request, and what is queued is the answer. -/
theorem HandReaddata_of_not_handler (hfirst : ∀ data, NameFirst (http_parser_execute data))
    (crypt_sha1 : List UInt8 → MemBlock UInt8 20) (hs : s.Ready) (hho : s.Offers r)
    (hhandler : s.m_IsHandler = false) (e : Endpoint) (st : Statics) :
    ∃ s' calls st' response,
      CNetSession.HandReaddata (Handshake.verdict http_parser_execute) r s = .ok (s', calls)
      ∧ HandReaddata http_parser_execute crypt_sha1 r e st s
        = .ok (s', st', calls, some ⟨s.buffered ++ r.data, e,
            Handshake.verdict http_parser_execute (s.buffered ++ r.data), response⟩)
      ∧ response.map (fun response => (response.hashed, response.pwebDataBuffer.content))
        = Handshake.answer http_parser_execute crypt_sha1 (s.buffered ++ r.data) e
      ∧ s'.view = (if Handshake.verdict http_parser_execute (s.buffered ++ r.data) then
          Framer.idle else ⟨false, none, s.buffered ++ r.data⟩)
      ∧ s'.m_IsHandler = s'.m_hSocket := by
  obtain ⟨hopen, hroom, -⟩ := id hho
  have hne : s.buffered ++ r.data ≠ [] := (hs.offers_iff.mp hho).front_ne_nil
  have hlen := hs.held.length_buffered
  obtain ⟨b, hb, hslice, hfits, hmod⟩ := hs.exists_store hroom
  have hzero : ¬ 0 = s.m_dwDataLen + r.data.length := by
    intro h
    refine hne (List.length_eq_zero_iff.mp ?_)
    rw [List.length_append, hlen, h]
  have hload : b.load s.m_pBufPos (s.m_dwDataLen + r.data.length) = .ok (s.buffered ++ r.data) := by
    rw [hs.pos_eq, b.load_eq_ok (by rwa [Nat.zero_add]), hslice]
  -- what the callbacks leave in the statics depends on the request only
  obtain ⟨st', hcheck, hin⟩ :=
    Handshake.CheckHttpPackkage_eq (hfirst (s.buffered ++ r.data)) st
  have hnot : ¬ s.m_IsHandler = true := by simp [hhandler]
  have hcur := hs.cur_eq hopen hhandler
  unfold CNetSession.HandReaddata HandReaddata
  rw [hb, ok_bind, ok_bind]
  unfold CNetSession.HandleRecvEvent HandleRecvEvent
  dsimp only
  rw [hmod, if_neg hzero, if_neg hzero, if_pos hnot, if_pos hnot, hload, ok_bind, ok_bind, hcheck,
    ok_bind]
  unfold Handshake.verdict Handshake.answer
  cases hkey : (heard (http_parser_execute (s.buffered ++ r.data))).key with
  | none =>
    -- no key has been reported: the session closes
    rw [Option.isSome_none, if_pos Bool.false_ne_true, if_pos Bool.false_ne_true]
    refine ⟨_, _, st', none, CNetSession.Close_eq hopen hs.held.handler,
      bind_eq_ok.mpr ⟨_, CNetSession.Close_eq hopen hs.held.handler, rfl⟩, rfl, ?_, rfl⟩
    rw [if_neg Bool.false_ne_true]
    show Framer.mk false (s.m_pCurRecvBuffer.map _) (b.slice s.m_pBufPos _) = _
    rw [hcur, hs.pos_eq, hslice]
    rfl
  | some key =>
    -- the response is made from the key, and the socket is open to be read again
    obtain ⟨st'', arrays, response, hret, -, hcontent, -⟩ :=
      Handshake.HttpHandlerPackkage_eq crypt_sha1 e r.fresh (hin.key key hkey)
    rw [Option.isSome_some, if_neg (not_not.mpr rfl), if_neg (not_not.mpr rfl)]
    refine ⟨_, _, st'', some ⟨key ++ migic, response⟩, bind_eq_ok.mpr ⟨true, if_pos hopen, rfl⟩,
      bind_eq_ok.mpr ⟨true, if_pos hopen, bind_eq_ok.mpr ⟨_, hret, rfl⟩⟩,
      congrArg (fun text => some (key ++ migic, text)) hcontent, ?_, hopen.symm⟩
    show Framer.mk s.m_hSocket (s.m_pCurRecvBuffer.map _) (b.slice s.m_pBufPos 0) = _
    rw [hcur, hopen, MemBlock.slice_zero]
    rfl

end IoThread

/-! ## One session among the others -/

namespace IoThread

/-- **What is seen of a handshake.** -/
structure Seen where
  request : List UInt8
  remote_endpoint : Endpoint
  ok : Bool
  queued : Option (List UInt8 × List UInt8)

/-- What is seen of one that has been tried. -/
def seen (a : Attempt) : Seen := ⟨a.request, a.remote_endpoint, a.ok, a.queued⟩

/-- What happens to one session: it is accepted, or receives bytes. -/
inductive Own where
  | accept (remote_endpoint : Endpoint)
  | read (data : List UInt8)

/-- **The session's own part of an event.** -/
def own (nConnID : ℕ) : IoEvent → Option Own
  | .accept n e => if n = nConnID then some (.accept e) else none
  | .read n r => if n = nConnID then some (.read r.data) else none

/-- **What is seen of the session's own handshakes.** -/
def ownSeen (nConnID : ℕ) (out : ℕ × Attempt) : Option Seen :=
  if out.1 = nConnID then some (seen out.2) else none

/-- **How far a session has come**: its handshake is still to be done, or is
past and the session as the byte stream sees it. -/
inductive Progress where
  | absent
  | pending (buffered : List UInt8) (remote_endpoint : Endpoint)
  | past (f : Framer)

/-- How far a session of the thread has come. -/
def progress : Option (CNetSession × Endpoint) → Progress
  | none => .absent
  | some (s, e) =>
    if s.m_hSocket = true ∧ s.m_IsHandler = false then .pending s.buffered e else .past s.view

theorem progress_pending {s : CNetSession} (hopen : s.m_hSocket = true)
    (hhandler : s.m_IsHandler = false) (e : Endpoint) :
    progress (some (s, e)) = .pending s.buffered e :=
  if_pos ⟨hopen, hhandler⟩

theorem progress_past {s : CNetSession} (h : s.m_IsHandler = s.m_hSocket) (e : Endpoint) :
    progress (some (s, e)) = .past s.view :=
  if_neg (by simp [h])

section Alone

variable (http_parser_execute : List UInt8 → List HttpCallback)
variable (crypt_sha1 : List UInt8 → MemBlock UInt8 20)

/-- **A session alone.** -/
inductive Alone : Machine Progress Own Seen
  | accept (e : Endpoint) : Alone .absent (.accept e) [] (.pending [] e)
  | handshake {buffered data : List UInt8} (e : Endpoint) :
      (⟨true, none, buffered⟩ : Framer).Offers data →
      Alone (.pending buffered e) (.read data)
        [⟨buffered ++ data, e, Handshake.verdict http_parser_execute (buffered ++ data),
          Handshake.answer http_parser_execute crypt_sha1 (buffered ++ data) e⟩]
        (.past (if Handshake.verdict http_parser_execute (buffered ++ data) then
          Framer.idle else ⟨false, none, buffered ++ data⟩))
  | read {f : Framer} {data : List UInt8} :
      f.Offers data → Alone (.past f) (.read data) [] (.past (f.feed data).1)

/-- Every session is ready for its next read. -/
def Ok (g : IoThread) : Prop := ∀ n s e, g.sessions n = some (s, e) → s.Ready

end Alone

variable {http_parser_execute : List UInt8 → List HttpCallback}
variable {crypt_sha1 : List UInt8 → MemBlock UInt8 20}

/-- A session alone leaves no choice. -/
theorem Alone.deterministic {x y z : Progress} {i : Own} {os ps : List Seen}
    (h : Alone http_parser_execute crypt_sha1 x i os y)
    (h' : Alone http_parser_execute crypt_sha1 x i ps z) : os = ps ∧ y = z := by
  cases h with
  | accept | handshake | read =>
    cases h'
    exact ⟨rfl, rfl⟩

/-- A session that is accepted and reads. -/
theorem Alone.run_accept (http_parser_execute : List UInt8 → List HttpCallback)
    (crypt_sha1 : List UInt8 → MemBlock UInt8 20) (data : List UInt8) (hne : data ≠ [])
    (hroom : data.length ≤ RECV_BUF_SIZE) (e : Endpoint) :
    Run (Alone http_parser_execute crypt_sha1) .absent [.accept e, .read data]
      [⟨data, e, Handshake.verdict http_parser_execute data,
        Handshake.answer http_parser_execute crypt_sha1 data e⟩]
      (.past (if Handshake.verdict http_parser_execute data then
        Framer.idle else ⟨false, none, data⟩)) :=
  .cons (Alone.accept e) (.single (Alone.handshake e ⟨rfl, hroom, fun hnil => absurd hnil hne⟩))

section Read

variable {s s' : CNetSession} {r : Read} {e : Endpoint} {st st' : Statics}
variable {calls : List SessionCall} {attempt : Option Attempt}

/-- **Every read that a session can be given is handled**, whatever the
statics, and is one of the session alone. -/
theorem exists_read (hfirst : ∀ data, NameFirst (http_parser_execute data))
    (crypt_sha1 : List UInt8 → MemBlock UInt8 20) (hs : s.Ready) (ho : s.Offers r) (e : Endpoint)
    (st : Statics) :
    ∃ s' st' calls attempt,
      HandReaddata http_parser_execute crypt_sha1 r e st s = .ok (s', st', calls, attempt)
      ∧ CNetSession.Receives (Handshake.verdict http_parser_execute) s r calls s'
      ∧ Alone http_parser_execute crypt_sha1 (progress (some (s, e))) (.read r.data)
        (attempt.toList.map seen) (progress (some (s', e))) := by
  have ho' := hs.offers_iff.mp ho
  cases hhandler : s.m_IsHandler with
  | true =>
    obtain ⟨s', calls, hok, hfed⟩ := CNetSession.HandReaddata_of_handler
      (Handshake.verdict http_parser_execute) hs ho.1 hhandler ho.2.1
    refine ⟨s', st, calls, none, HandReaddata_of_handler hhandler hok, ⟨ho, hok⟩, ?_⟩
    rw [progress_past (hhandler.trans ho.1.symm), progress_past hfed.isHandler_eq, hfed.view_eq]
    exact .read ho'
  | false =>
    obtain ⟨s', calls, st', response, hok, hread, hqueued, hview, hhandler'⟩ :=
      HandReaddata_of_not_handler hfirst crypt_sha1 hs ho hhandler e st
    refine ⟨s', st', calls, _, hread, ⟨ho, hok⟩, ?_⟩
    rw [view_of_not_handler hs ho.1 hhandler] at ho'
    have hstep : Alone http_parser_execute crypt_sha1 _ _ _ _ := .handshake e ho'
    rw [← hqueued, ← hview] at hstep
    rw [progress_pending ho.1 hhandler, progress_past hhandler']
    exact hstep

/-- What a read does is known, since the code leaves no choice. -/
theorem read_spec (hfirst : ∀ data, NameFirst (http_parser_execute data)) (hs : s.Ready)
    (ho : s.Offers r)
    (h : HandReaddata http_parser_execute crypt_sha1 r e st s = .ok (s', st', calls, attempt)) :
    CNetSession.Receives (Handshake.verdict http_parser_execute) s r calls s'
      ∧ Alone http_parser_execute crypt_sha1 (progress (some (s, e))) (.read r.data)
        (attempt.toList.map seen) (progress (some (s', e))) := by
  obtain ⟨s₁, st₁, calls₁, attempt₁, hread, hspec⟩ := exists_read hfirst crypt_sha1 hs ho e st
  cases hread.symm.trans h
  exact hspec

end Read

variable {g g' : IoThread} {i : IoEvent} {os : List (ℕ × Attempt)}

/-- A step keeps every session ready. -/
theorem Step.ok (hfirst : ∀ data, NameFirst (http_parser_execute data)) (hg : g.Ok)
    (h : Step http_parser_execute crypt_sha1 g i os g') : g'.Ok := by
  intro n s e hn
  cases h with
  | @accept _ nConnID e' _ =>
    by_cases heq : n = nConnID
    · subst heq
      dsimp only at hn
      rw [Function.update_self] at hn
      cases hn
      exact (CNetSession.blank_accepted n).ready
    · dsimp only at hn
      rw [Function.update_of_ne heq] at hn
      exact hg n s e hn
  | @read _ nConnID r s₀ s₁ e' st calls attempt hget ho hread =>
    by_cases heq : n = nConnID
    · subst heq
      dsimp only at hn
      rw [Function.update_self] at hn
      cases hn
      exact ((hg n s₀ e hget).step (read_spec hfirst (hg n s₀ e hget) ho hread).1).1
    · dsimp only at hn
      rw [Function.update_of_ne heq] at hn
      exact hg n s e hn

/-- **A step that is not the session's own** leaves the session as it is. -/
theorem Step.others {nConnID : ℕ} (h : Step http_parser_execute crypt_sha1 g i os g')
    (hown : own nConnID i = none) :
    g'.sessions nConnID = g.sessions nConnID ∧ os.filterMap (ownSeen nConnID) = [] := by
  cases h with
  | @accept _ n e _ =>
    have hne : nConnID ≠ n := by
      rintro rfl
      exact absurd hown (by simp [own])
    exact ⟨Function.update_of_ne hne _ _, rfl⟩
  | @read _ n r s s' e st calls attempt hget ho hread =>
    have hne : nConnID ≠ n := by
      rintro rfl
      exact absurd hown (by simp [own])
    refine ⟨Function.update_of_ne hne _ _, ?_⟩
    rw [List.filterMap_map, List.filterMap_eq_nil_iff]
    exact fun a _ => if_neg hne.symm

/-- **A step of its own** is one of the session alone. -/
theorem Step.alone (hfirst : ∀ data, NameFirst (http_parser_execute data)) (hg : g.Ok)
    {nConnID : ℕ} {o : Own} (h : Step http_parser_execute crypt_sha1 g i os g')
    (hown : own nConnID i = some o) :
    Alone http_parser_execute crypt_sha1 (progress (g.sessions nConnID)) o
      (os.filterMap (ownSeen nConnID)) (progress (g'.sessions nConnID)) := by
  cases h with
  | @accept _ n e hget =>
    obtain ⟨rfl, ho⟩ := Option.ite_none_right_eq_some.mp hown
    cases ho
    have hnew : progress (some (.accepted n, e)) = .pending [] e := by
      have hbuf : (CNetSession.accepted n).buffered = [] := MemBlock.slice_zero _ _
      rw [← hbuf]
      exact progress_pending rfl rfl e
    dsimp only
    rw [hget, Function.update_self, hnew]
    exact .accept e
  | @read _ n r s s' e st calls attempt hget ho hread =>
    obtain ⟨rfl, ho'⟩ := Option.ite_none_right_eq_some.mp hown
    cases ho'
    have hseen : (attempt.toList.map (n, ·)).filterMap (ownSeen n) = attempt.toList.map seen := by
      rw [List.filterMap_map, ← List.filterMap_eq_map]
      exact List.filterMap_congr (fun a _ => if_pos rfl)
    dsimp only
    rw [hseen, hget, Function.update_self]
    exact (read_spec hfirst (hg n s e hget) ho hread).2

/-! ## Any order of the reads -/

section Runs

variable {is : List IoEvent}

/-- Before any session is accepted. -/
theorem ok_nil (st : Statics) : (⟨fun _ => none, st⟩ : IoThread).Ok :=
  fun _ _ _ h => absurd h (by simp)

/-- Every session stays ready for its next read. -/
theorem run_ok (hfirst : ∀ data, NameFirst (http_parser_execute data)) (hg : g.Ok)
    (hr : Run (Step http_parser_execute crypt_sha1) g is os g') : g'.Ok :=
  hr.invariant (fun _ _ _ _ hg h => h.ok hfirst hg) hg

/-- **A run of the thread is, for each session, a run of that session
alone.** -/
theorem run_alone (hfirst : ∀ data, NameFirst (http_parser_execute data)) (hg : g.Ok)
    (nConnID : ℕ) (hr : Run (Step http_parser_execute crypt_sha1) g is os g') :
    Run (Alone http_parser_execute crypt_sha1) (progress (g.sessions nConnID))
      (is.filterMap (own nConnID)) (os.filterMap (ownSeen nConnID))
      (progress (g'.sessions nConnID)) :=
  hr.project (fun g => progress (g.sessions nConnID)) (own nConnID) (ownSeen nConnID)
    (fun _ _ _ _ hg h => h.ok hfirst hg)
    (fun _ _ _ _ _ h hown => (h.others hown).imp_left (congrArg progress))
    (fun _ _ _ _ _ hg h hown => h.alone hfirst hg hown) hg

/-- The event that something happens to this session. -/
def event (nConnID : ℕ) (fresh : ℕ → UInt8) : Own → IoEvent
  | .accept e => .accept nConnID e
  | .read data => .read nConnID ⟨data, fresh⟩

theorem own_event (nConnID : ℕ) (fresh : ℕ → UInt8) (o : Own) :
    own nConnID (event nConnID fresh o) = some o := by
  cases o <;> exact if_pos rfl

/-- They are all its own. -/
theorem filterMap_own_event (nConnID : ℕ) (fresh : ℕ → UInt8) (owns : List Own) :
    (owns.map (event nConnID fresh)).filterMap (own nConnID) = owns := by
  rw [List.filterMap_map]
  exact (List.filterMap_congr (fun o _ => own_event nConnID fresh o)).trans List.filterMap_some

/-- A session that can be given a read, seen from outside. -/
theorem exists_of_alone_read {nConnID : ℕ} {data : List UInt8} {ps : List Seen} {x : Progress}
    (hg : g.Ok)
    (h : Alone http_parser_execute crypt_sha1 (progress (g.sessions nConnID)) (.read data) ps x)
    (fresh : ℕ → UInt8) : ∃ s e, g.sessions nConnID = some (s, e) ∧ s.Offers ⟨data, fresh⟩ := by
  cases hget : g.sessions nConnID with
  | none =>
    rw [hget] at h
    cases h
  | some se =>
    obtain ⟨s, e⟩ := se
    have hs := hg nConnID s e hget
    refine ⟨s, e, rfl, hs.offers_iff.mpr ?_⟩
    rw [hget] at h
    by_cases hpending : s.m_hSocket = true ∧ s.m_IsHandler = false
    · rw [progress_pending hpending.1 hpending.2] at h
      cases h with
      | handshake _ ho => rwa [view_of_not_handler hs hpending.1 hpending.2]
    · have hpast : progress (some (s, e)) = .past s.view := if_neg hpending
      rw [hpast] at h
      cases h with
      | read ho => exact ho

/-- **A run of a session alone is one of the thread**, whatever the statics
are and whatever the other sessions have come to. -/
theorem exists_run_of_alone (hfirst : ∀ data, NameFirst (http_parser_execute data)) (hg : g.Ok)
    (nConnID : ℕ) {owns : List Own} {ps : List Seen} {x : Progress}
    (hr : Run (Alone http_parser_execute crypt_sha1) (progress (g.sessions nConnID)) owns ps x)
    (fresh : ℕ → UInt8) :
    ∃ os g', Run (Step http_parser_execute crypt_sha1) g (owns.map (event nConnID fresh)) os g'
      ∧ os.filterMap (ownSeen nConnID) = ps ∧ progress (g'.sessions nConnID) = x := by
  have hpres : ∀ g i os g', Ok g → Step http_parser_execute crypt_sha1 g i os g' → Ok g' :=
    fun _ _ _ _ hg h => h.ok hfirst hg
  -- the thread can take the step that the session takes, and has no choice in it
  refine Run.lift (fun g : IoThread => progress (g.sessions nConnID)) (event nConnID fresh)
    (ownSeen nConnID) hpres ?_ hg hr
  intro g o ps x hg h
  have hstep : ∃ os g', Step http_parser_execute crypt_sha1 g (event nConnID fresh o) os g' := by
    cases o with
    | accept e =>
      cases hget : g.sessions nConnID with
      | none => exact ⟨_, _, .accept hget⟩
      | some se =>
        rw [hget] at h
        unfold progress at h
        dsimp only at h
        split_ifs at h <;> cases h
    | read data =>
      obtain ⟨s, e, hget, ho⟩ := exists_of_alone_read hg h fresh
      obtain ⟨s', st', calls, attempt, hread, -⟩ :=
        exists_read hfirst crypt_sha1 (hg nConnID s e hget) ho e g.statics
      exact ⟨_, _, .read hget ho hread⟩
  obtain ⟨os, g', hstep⟩ := hstep
  exact ⟨os, g', hstep, (hstep.alone hfirst hg (own_event nConnID fresh o)).deterministic h⟩

end Runs

/-- **Handshakes do not leak into each other**: whatever the other sessions have
sent, and in whatever order, what is seen of a session's handshake is the same,
and the verdict and the response are those on its own request. -/
theorem handshakes_independent (http_parser_execute : List UInt8 → List HttpCallback)
    (crypt_sha1 : List UInt8 → MemBlock UInt8 20)
    (hfirst : ∀ data, NameFirst (http_parser_execute data)) {st₁ st₂ : Statics}
    {is₁ is₂ : List IoEvent} {os₁ os₂ : List (ℕ × Attempt)} {g₁ g₂ : IoThread}
    (hr₁ : Run (Step http_parser_execute crypt_sha1) ⟨fun _ => none, st₁⟩ is₁ os₁ g₁)
    (hr₂ : Run (Step http_parser_execute crypt_sha1) ⟨fun _ => none, st₂⟩ is₂ os₂ g₂)
    (nConnID : ℕ) (hown : is₁.filterMap (own nConnID) = is₂.filterMap (own nConnID)) :
    os₁.filterMap (ownSeen nConnID) = os₂.filterMap (ownSeen nConnID)
      ∧ ∀ a, (nConnID, a) ∈ os₁ → a.ok = Handshake.verdict http_parser_execute a.request
        ∧ a.queued = Handshake.answer http_parser_execute crypt_sha1 a.request
          a.remote_endpoint := by
  have hr := run_alone hfirst (ok_nil st₁) nConnID hr₁
  have hr' := run_alone hfirst (ok_nil st₂) nConnID hr₂
  rw [← hown] at hr'
  refine ⟨(hr.deterministic (fun _ _ _ _ _ _ h h' => h.deterministic h') hr').1,
    fun a ha => ?_⟩
  have hmem : seen a ∈ os₁.filterMap (ownSeen nConnID) :=
    List.mem_filterMap.mpr ⟨_, ha, if_pos rfl⟩
  -- every handshake of a session alone is the answer to its own request
  have hstep : ∀ x i os y, True → Alone http_parser_execute crypt_sha1 x i os y →
      True ∧ ∀ o ∈ os, o.ok = Handshake.verdict http_parser_execute o.request
        ∧ o.queued = Handshake.answer http_parser_execute crypt_sha1 o.request
          o.remote_endpoint := by
    intro x i os y _ h
    refine ⟨trivial, ?_⟩
    cases h with
    | handshake e _ => exact List.forall_mem_singleton.mpr ⟨rfl, rfl⟩
    | accept | read => exact fun o ho => absurd ho List.not_mem_nil
  exact hr.forall_outputs hstep trivial _ hmem

/-- Alone, and after a session that has stopped behind the name of a header. -/
theorem handshakes_independent_stopped :
    ∃ http_parser_execute : List UInt8 → List HttpCallback,
      http_parser_execute (ascii "GET / HTTP/1.1\r\nSec-WebSocket-Key")
        = [.on_header_field SEC_WEBSOCKET_KEY]
      ∧ http_parser_execute (ascii "GET / HTTP/1.1\r\nSec-WebSocket-Key: abc\r\n\r\n")
        = report [(SEC_WEBSOCKET_KEY, ascii "abc")]
      ∧ ∃ os₁ g₁ os₂ g₂,
        Run (Step http_parser_execute (fun _ => MemBlock.zeros 20)) ⟨fun _ => none, Statics.init⟩
          [.accept 1 ⟨(127, 0, 0, 1), 80⟩,
            .read 1 ⟨ascii "GET / HTTP/1.1\r\nSec-WebSocket-Key: abc\r\n\r\n", fun _ => 0⟩]
          os₁ g₁
        ∧ Run (Step http_parser_execute (fun _ => MemBlock.zeros 20)) ⟨fun _ => none, Statics.init⟩
          ([.accept 2 ⟨(127, 0, 0, 1), 81⟩,
              .read 2 ⟨ascii "GET / HTTP/1.1\r\nSec-WebSocket-Key", fun _ => 0⟩]
            ++ [.accept 1 ⟨(127, 0, 0, 1), 80⟩,
              .read 1 ⟨ascii "GET / HTTP/1.1\r\nSec-WebSocket-Key: abc\r\n\r\n", fun _ => 1⟩])
          os₂ g₂
        ∧ os₁.filterMap (ownSeen 1) = os₂.filterMap (ownSeen 1) := by
  have hparser : ∃ http_parser_execute : List UInt8 → List HttpCallback,
      http_parser_execute (ascii "GET / HTTP/1.1\r\nSec-WebSocket-Key")
        = [.on_header_field SEC_WEBSOCKET_KEY]
      ∧ http_parser_execute (ascii "GET / HTTP/1.1\r\nSec-WebSocket-Key: abc\r\n\r\n")
        = report [(SEC_WEBSOCKET_KEY, ascii "abc")]
      ∧ ∀ data, NameFirst (http_parser_execute data) := by
    refine ⟨fun data => if data = ascii "GET / HTTP/1.1\r\nSec-WebSocket-Key" then
      [.on_header_field SEC_WEBSOCKET_KEY] else report [(SEC_WEBSOCKET_KEY, ascii "abc")],
      if_pos rfl, if_neg (by decide), fun data => ?_⟩
    dsimp only
    split_ifs
    · exact fun value h => absurd h (by simp)
    · exact nameFirst_report _
  obtain ⟨http_parser_execute, hstopped, hwhole, hfirst⟩ := hparser
  have halone := Alone.run_accept http_parser_execute (fun _ => MemBlock.zeros 20)
  have hroom : ∀ data : List UInt8, data.length ≤ 100 → data.length ≤ RECV_BUF_SIZE :=
    fun data h => h.trans (by decide)
  have hkey := halone (ascii "GET / HTTP/1.1\r\nSec-WebSocket-Key: abc\r\n\r\n") (by decide)
    (hroom _ (by decide)) ⟨(127, 0, 0, 1), 80⟩
  have hother := halone (ascii "GET / HTTP/1.1\r\nSec-WebSocket-Key") (by decide)
    (hroom _ (by decide)) ⟨(127, 0, 0, 1), 81⟩
  have hok := ok_nil Statics.init
  obtain ⟨os₁, g₁, hr₁, -⟩ := exists_run_of_alone hfirst hok 1 hkey (fun _ => 0)
  obtain ⟨os, g, hr, -⟩ := exists_run_of_alone hfirst hok 2 hother (fun _ => 0)
  have habsent : Run (Alone http_parser_execute (fun _ => MemBlock.zeros 20)) .absent []
      (os.filterMap (ownSeen 1)) (progress (g.sessions 1)) := run_alone hfirst hok 1 hr
  generalize os.filterMap (ownSeen 1) = ps, hx : progress (g.sessions 1) = x at habsent
  cases habsent
  rw [← hx] at hkey
  obtain ⟨os₂, g₂, hr₂, -⟩ := exists_run_of_alone hfirst (run_ok hfirst hok hr) 1 hkey (fun _ => 1)
  exact ⟨_, hstopped, hwhole, os₁, g₁, _, g₂, hr₁, hr.append hr₂,
    (handshakes_independent _ _ hfirst hr₁ (hr.append hr₂) 1 rfl).1⟩

end IoThread
