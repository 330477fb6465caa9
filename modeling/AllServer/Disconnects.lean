import AllServer.EventTrace

/-!
# Which connections are reported closed

A connection ends when the server closes its socket, or when a read or a write
on it completes with an error, as it does when the peer disconnects. The first
is reported to the service by `Close`. The handlers of reads and writes return
on an error without a call of `Close`, so the second is never reported: the
service is told of all connections that have ended exactly as long as there are
errors on sockets only that the server has closed itself (`closes_reported`).
-/

/-- **The connection has ended**: a read or a write has completed with an error,
or the server has closed the socket. -/
def Ended (outs : List Occurrence) (s : CNetManager) (nConnID : ℕ) : Prop :=
  .error nConnID ∈ outs
    ∨ ∃ c, s.server.gateway.sessions nConnID = some c ∧ c.m_hSocket = false

/-- **Every connection that has ended is reported**, once, when the handler that
has observed it has nothing left to report. -/
def Reported (outs : List Occurrence) (s : CNetManager) : Prop :=
  ∀ nConnID, NEW_CONNECTION ∈ eventIDs nConnID (pushed outs) → Ended outs s nConnID →
    eventIDs nConnID (s.server.gateway.calls.flatMap CServiceBase.packets) = [] →
    (eventIDs nConnID (pushed outs)).count CLOSE_CONNECTION = 1

/-- An error of the server is one of a write, on a connection that is there. -/
theorem Server.error_mem_occurrences {s s' : Server} {e : ServerEvent} {n : ℕ}
    (h : .error n ∈ s.occurrences s' e) :
    (∃ i, e = .send n (.HandWritedata i true)) ∧ ∃ c, s.gateway.sessions n = some c := by
  unfold occurrences at h
  split at h
  · split_ifs at h <;> simp at h
  · simp at h
  · split_ifs at h with hsome
    · obtain rfl := Occurrence.error.inj (List.mem_singleton.mp h)
      exact ⟨⟨_, rfl⟩, Option.isSome_iff_exists.mp hsome⟩
    · exact absurd h List.not_mem_nil
  · exact absurd h List.not_mem_nil

namespace CNetManager

/-- **The server has closed the socket first**, if the step is a read or a write
that completes with an error. -/
def ClosedFirst (s : CNetManager) : ManagerEvent → Prop
  | .HandReaddata nConnID | .server (.send nConnID (.HandWritedata _ true)) =>
    ∀ c, s.server.gateway.sessions nConnID = some c → c.m_hSocket = false
  | _ => True

variable {CheckHttpPackkage : List UInt8 → Bool} {nMaxConn : UInt32} {s s' s₀ : CNetManager}
variable {e : ManagerEvent} {es : List ManagerEvent} {outs os : List Occurrence}

/-- **An error is on a connection that is there**, and on a socket that is closed
if the server has closed it first. -/
theorem Linked.error_mem (hs : s.Linked nMaxConn) (h : Step CheckHttpPackkage s e os s') {n : ℕ}
    (hn : .error n ∈ os) :
    ∃ c, s.server.gateway.sessions n = some c ∧ (s.ClosedFirst e → c.m_hSocket = false) := by
  obtain ⟨m, q, -, -, rfl, -⟩ | ⟨-, hos⟩ | ⟨e, sizes, rfl, -, -, rfl⟩ := hs.cases h
  · simp at hn
  · obtain rfl | ⟨m, rfl, hreading, rfl⟩ := hos
    · exact absurd hn List.not_mem_nil
    · obtain rfl := Occurrence.error.inj (List.mem_singleton.mp hn)
      obtain ⟨c, hc⟩ := hs.reading n hreading
      exact ⟨c, hc, fun hfirst => hfirst c hc⟩
  · obtain ⟨⟨i, rfl⟩, c, hc⟩ := Server.error_mem_occurrences hn
    exact ⟨c, hc, fun hfirst => hfirst c hc⟩

/-- **A socket that is closed stays so.** -/
theorem Linked.closed_step (hs : s.Linked nMaxConn) (h : Step CheckHttpPackkage s e os s') {n : ℕ}
    {c : CNetSession} (hc : s.server.gateway.sessions n = some c) (hclosed : c.m_hSocket = false) :
    ∃ c', s'.server.gateway.sessions n = some c' ∧ c'.m_hSocket = false := by
  obtain ⟨m, q, -, hnone, -, hgateway⟩ | ⟨hgateway, -⟩ | ⟨e, sizes, -, he, hserver, -⟩ := hs.cases h
  · have hne : n ≠ m := by
      rintro rfl
      exact absurd (hnone.symm.trans hc) (Option.some_ne_none c).symm
    rw [hgateway]
    exact ⟨c, (Function.update_of_ne hne _ _).trans hc, hclosed⟩
  · rw [hgateway]
    exact ⟨c, hc, hclosed⟩
  · have hcontinues := hserver.continues he hs.ready n
    rw [hc] at hcontinues
    generalize s'.server.gateway.sessions n = d at hcontinues
    cases hcontinues with
    | some hrel => exact ⟨_, rfl, hrel.closed hclosed⟩

/-- **What is reported of a socket that is closed**, when nothing is left to
report: that it is closed, once. -/
theorem count_of_closed (htraced : s.server.gateway.Traced outs) {n : ℕ} {c : CNetSession}
    (hc : s.server.gateway.sessions n = some c) (hclosed : c.m_hSocket = false)
    (hreturned : eventIDs n (s.server.gateway.calls.flatMap CServiceBase.packets) = []) :
    (eventIDs n (pushed outs)).count CLOSE_CONNECTION = 1 := by
  have hn := htraced n
  unfold Gateway.events at hn
  rw [hc, hreturned, List.append_nil] at hn
  obtain ⟨k, hk, -⟩ := hn
  rw [hk, hclosed, List.count_cons, List.count_append, List.count_replicate]
  rfl

/-- **What is reported of a socket that is open**: not that it is closed. -/
theorem count_of_open (htraced : s.server.gateway.Traced outs) {n : ℕ} {c : CNetSession}
    (hc : s.server.gateway.sessions n = some c) (hopen : c.m_hSocket = true) :
    NEW_CONNECTION ∈ s.server.gateway.events outs n
      ∧ CLOSE_CONNECTION ∉ s.server.gateway.events outs n := by
  have hn := htraced n
  rw [hc] at hn
  obtain ⟨k, hk, -⟩ := hn
  rw [hk, closing, if_pos hopen, List.append_nil]
  refine ⟨List.mem_cons_self, fun hmem => ?_⟩
  rcases List.mem_cons.mp hmem with heq | hdata
  · exact absurd heq (by decide)
  · exact absurd (List.eq_of_mem_replicate hdata) (by decide)

/-- **An error on a socket that is open** changes nothing for the session. -/
theorem error_of_not_closedFirst (h : Step CheckHttpPackkage s e os s') (hnot : ¬ s.ClosedFirst e) :
    ∃ n c, s.server.gateway.sessions n = some c ∧ c.m_hSocket = true ∧ os = [.error n]
      ∧ s.server.gateway.calls = [] ∧ s'.server.gateway = s.server.gateway := by
  unfold ClosedFirst at hnot
  split at hnot
  · simp only [not_forall, Bool.not_eq_false] at hnot
    obtain ⟨c, hc, hopen⟩ := hnot
    cases h with
    | HandReaddata hidle hn => exact ⟨_, c, hc, hopen, rfl, hidle.1, rfl⟩
  · simp only [not_forall, Bool.not_eq_false] at hnot
    obtain ⟨c, hc, hopen⟩ := hnot
    cases h with
    | server he hread h =>
      cases h with
      | send hn hresponse hbegin hstep =>
        have hidle := hbegin (.inr ⟨_, _, rfl⟩)
        refine ⟨_, c, hc, hopen, if_pos ?_, hidle.1, rfl⟩
        rw [hc]
        rfl
  · exact absurd trivial hnot

/-- **Where there has been an error the socket is closed**, if the server has always
closed it first. -/
theorem closed_of_run (hstart : new.Start nMaxConn = some s₀)
    (hr : Run ((Step CheckHttpPackkage).where fun s e _ _ => s.ClosedFirst e) s₀ es outs s) :
    s.Linked nMaxConn ∧ ∀ n, .error n ∈ outs →
      ∃ c, s.server.gateway.sessions n = some c ∧ c.m_hSocket = false := by
  refine Run.invariant_history (fun _ outs s => s.Linked nMaxConn ∧ ∀ n, .error n ∈ outs →
    ∃ c, s.server.gateway.sessions n = some c ∧ c.m_hSocket = false) ?_ ?_ hr
  · rintro _ outs s e os s' ⟨hs, herror⟩ ⟨h, hfirst⟩
    refine ⟨hs.step h, fun n hn => ?_⟩
    rcases List.mem_append.mp hn with hold | hnew
    · obtain ⟨c, hc, hclosed⟩ := herror n hold
      exact hs.closed_step h hc hclosed
    · obtain ⟨c, hc, hclosed⟩ := hs.error_mem h hnew
      exact hs.closed_step h hc (hclosed hfirst)
  · exact ⟨Linked.start hstart, fun n hn => absurd hn List.not_mem_nil⟩

/-- **Every connection that has ended is reported** in every run in which reads
and writes complete with errors only on sockets that the server has closed. On any
other socket an error is not reported. The handlers of errors return at once: that
a connection has ended is pushed only by `Close`, which the session calls itself. -/
theorem closes_reported (hstart : new.Start nMaxConn = some s₀) (es : List ManagerEvent)
    (outs : List Occurrence) (s : CNetManager) :
    (Run ((Step CheckHttpPackkage).where fun s e _ _ => s.ClosedFirst e) s₀ es outs s →
        Reported outs s)
      ∧ ∀ e os s', Run (Step CheckHttpPackkage) s₀ es outs s → Step CheckHttpPackkage s e os s' →
          ¬ s.ClosedFirst e → ¬ Reported (outs ++ os) s' := by
  refine ⟨fun hr => ?_, fun e os s' hr h hnot hreported => ?_⟩
  · have htraced := (traced_of_run hstart hr.of_where).2
    rintro n - (herror | ⟨c, hc, hsocket⟩) hreturned
    · obtain ⟨c, hc, hsocket⟩ := (closed_of_run hstart hr).2 n herror
      exact count_of_closed htraced hc hsocket hreturned
    · exact count_of_closed htraced hc hsocket hreturned
  · obtain ⟨hs, htraced⟩ := traced_of_run hstart hr
    obtain ⟨n, c, hc, hopen, rfl, hcalls, hgateway⟩ := error_of_not_closedFirst h hnot
    have hreturned : eventIDs n (s.server.gateway.calls.flatMap CServiceBase.packets) = [] := by
      rw [hcalls]
      rfl
    obtain ⟨hnew, hclose⟩ := count_of_open htraced hc hopen
    unfold Gateway.events at hnew hclose
    rw [hreturned, List.append_nil] at hnew hclose
    have hpushed : pushed (outs ++ [.error n]) = pushed outs :=
      (pushed_append _ _).trans (List.append_nil _)
    have hone := hreported n (by rwa [hpushed])
      (.inl (List.mem_append_right _ (List.mem_singleton_self _))) (by rwa [hgateway])
    rw [hpushed, List.count_eq_zero_of_not_mem hclose] at hone
    exact absurd hone (by decide)

/-- A request that is refused: the connection is closed, and reported. -/
theorem closes_reported_refused : ∃ s₀ es outs s, new.Start 1 = some s₀
    ∧ Run ((Step fun _ => false).where fun s e _ _ => s.ClosedFirst e) s₀ es outs s
    ∧ Ended outs s 1 ∧ Reported outs s := by
  obtain ⟨s₀, s, hstart, hr, hidle, hc, honline, -, hreading, -⟩ :=
    exists_run_accepted fun _ => false
  have hblank := CNetSession.blank_accepted 1
  obtain ⟨b, hok⟩ := CNetSession.HandReaddata_of_not_handler (fun _ => false) hblank.ready
    (r := ⟨[0], fun _ => 0⟩) rfl rfl (by decide) (by simp)
  rw [if_neg Bool.false_ne_true] at hok
  obtain ⟨s', hr', hsessions, -⟩ := exists_run_read (fun _ => false) hidle (by simp [honline])
    (by simp [hreading]) hc ⟨⟨rfl, by decide, by simp⟩, hok⟩ (by simp)
  have hrun := (hr.append hr').where_of_forall (C := fun s e _ _ => s.ClosedFirst e)
    (by simp [ClosedFirst])
  refine ⟨s₀, _, _, s', hstart, hrun, .inr ?_, (closes_reported hstart _ _ s').1 hrun⟩
  rw [hsessions, Function.update_self]
  exact ⟨_, rfl, rfl⟩

/-- It is not true that every connection that has ended is reported: the peer of
the only one disconnects. -/
theorem not_closes_reported : ¬ ∀ (CheckHttpPackkage : List UInt8 → Bool) (nMaxConn : UInt32)
    (s₀ : CNetManager), new.Start nMaxConn = some s₀ → ∀ es outs s,
      Run (Step CheckHttpPackkage) s₀ es outs s → Reported outs s := by
  intro h
  obtain ⟨s₀, s, hstart, hr, hidle, -, -, -, hreading, -⟩ := exists_run_accepted fun _ => true
  have hstep : Step (fun _ => true) s (.HandReaddata 1) [.error 1] _ :=
    .HandReaddata hidle (by rw [hreading]; exact Finset.mem_singleton_self 1)
  have hone := h _ 1 s₀ hstart _ _ _ (hr.append (.single hstep)) 1 (by decide)
    (.inl (List.mem_append_right _ (List.mem_singleton_self _))) (by rw [hidle.1]; rfl)
  exact absurd hone (by decide)

end CNetManager
