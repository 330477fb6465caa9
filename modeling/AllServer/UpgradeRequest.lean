import AllServer.IoThread

/-!
# An upgrade request in two reads

The handshake takes what the first read has brought for the whole request. So
it depends on where the request is cut: if the first part has the whole of the
key, the response is the right one, and the second part is taken for the
beginning of the frames; if it ends in front of the key, the session is closed;
and if it ends inside, the response is computed from a piece of the key.

`UpgradeRequest.report` is what the HTTP parser reports of the first bytes of
a request: every name and every value as soon as it has ended, and one that
has begun, as far as it goes. What is heard of that is the key as far as it
goes (`key_heard_report`).
-/

open CHttpParser

/-- A header line of a request. -/
structure Header where
  name : List UInt8
  /-- The blanks between the colon and the value. -/
  blanks : List UInt8
  value : List UInt8
  name_ne_nil : name ≠ []
  /-- The name is of visible characters that are not colons. -/
  name_token : ∀ c ∈ name, 32 < c ∧ c < 127 ∧ c ≠ 58
  blanks_blank : ∀ c ∈ blanks, c = 32 ∨ c = 9
  /-- The value does not begin with a blank. -/
  value_head : ∀ c ∈ value.head?, c ≠ 32 ∧ c ≠ 9
  /-- It does not go over the end of the line. -/
  value_line : ∀ c ∈ value, c ≠ 0 ∧ c ≠ 10 ∧ c ≠ 13

/-- **An upgrade request**: one of its headers is the key. -/
structure UpgradeRequest where
  /-- The request line, with its end. -/
  line : List UInt8
  before : List Header
  key : Header
  after : List Header
  key_name : key.name = SEC_WEBSOCKET_KEY
  other_names : ∀ h ∈ before ++ after, h.name ≠ SEC_WEBSOCKET_KEY

namespace Header

variable (h : Header)

/-- The line as it is sent. -/
def bytes : List UInt8 := h.name ++ 58 :: (h.blanks ++ (h.value ++ [13, 10]))

/-- Where in the line the value is. -/
def valuePos : ℕ := h.name.length + 1 + h.blanks.length

/-- **What the parser reports of the line** when `n` bytes from its start on
have come in. A value is empty if the next line does not continue it, which the
parser has to see. -/
def report (n : ℕ) : List HttpCallback :=
  if n = 0 then []
  else if n ≤ h.name.length then [.on_header_field (h.name.take n)]
  else .on_header_field h.name ::
    if h.value = [] then
      if n ≤ h.bytes.length then [] else [.on_header_value []]
    else
      if n ≤ h.valuePos then [] else [.on_header_value (h.value.take (n - h.valuePos))]

/-- From which byte of the line on the value is reported in full. -/
def valueEnd : ℕ :=
  if h.value = [] then h.bytes.length + 1 else h.valuePos + h.value.length

theorem length_bytes : h.bytes.length = h.valuePos + h.value.length + 2 := by
  unfold bytes valuePos
  simp only [List.length_append, List.length_cons, List.length_nil]
  omega

theorem nulFree_name : NulFree h.name := fun hmem => absurd (h.name_token 0 hmem).1 (by decide)

theorem nulFree_value : NulFree h.value := fun hmem => (h.value_line 0 hmem).1 rfl

variable {h}

@[simp] theorem report_zero : h.report 0 = [] := if_pos rfl

/-- A line is reported with its name first. -/
theorem exists_report_eq_cons {n : ℕ} (hn : n ≠ 0) :
    ∃ name calls, h.report n = .on_header_field name :: calls := by
  unfold report
  rw [if_neg hn]
  split_ifs <;> exact ⟨_, _, rfl⟩

/-- **A line with another name** says nothing about the key. -/
theorem key_foldl_report_of_ne (hname : h.name ≠ SEC_WEBSOCKET_KEY) (x : Heard) (n : ℕ) :
    ((h.report n).foldl Heard.next x).key = x.key := by
  have hne : ¬ h.name.take 63 = SEC_WEBSOCKET_KEY := take_eq_SEC_WEBSOCKET_KEY.not.mpr hname
  unfold report
  split_ifs <;> simp [Heard.next, cstr_of_nulFree h.nulFree_name, hne]

/-- **The line of the key** says as much of it as has come in. -/
theorem key_foldl_report (hname : h.name = SEC_WEBSOCKET_KEY) (x : Heard) (n : ℕ) :
    ((h.report n).foldl Heard.next x).key
      = if h.value = [] then
          if n ≤ h.bytes.length then x.key else some []
        else
          if n ≤ h.valuePos then x.key else some ((h.value.take (n - h.valuePos)).take 127) := by
  have hpos : h.name.length < h.valuePos := by
    unfold valuePos
    omega
  have hlen := h.length_bytes
  have htake := take_eq_SEC_WEBSOCKET_KEY.mpr hname
  have hcstr : ∀ m, cstr (h.value.take m) = h.value.take m :=
    fun m => cstr_of_nulFree (h.nulFree_value.take m)
  have hnil : cstr [] = [] := rfl
  unfold report
  split_ifs <;> first
    | omega
    | simp [Heard.next, cstr_of_nulFree h.nulFree_name, htake, hcstr, hnil]

end Header

/-- What the parser reports of lines, `n` bytes of which have come in. -/
def reportHeaders : List Header → ℕ → List HttpCallback
  | [], _ => []
  | h :: hs, n => h.report n ++ reportHeaders hs (n - h.bytes.length)

@[simp] theorem reportHeaders_zero (hs : List Header) : reportHeaders hs 0 = [] := by
  induction hs with
  | nil => rfl
  | cons h hs ih =>
    show h.report 0 ++ reportHeaders hs (0 - h.bytes.length) = []
    rw [Nat.zero_sub, ih, Header.report_zero]
    rfl

theorem nameFirst_reportHeaders (hs : List Header) (n : ℕ) : NameFirst (reportHeaders hs n) := by
  intro data
  cases hs with
  | nil => simp [reportHeaders]
  | cons h hs =>
    by_cases hn : n = 0
    · rw [hn, reportHeaders_zero]
      simp
    · obtain ⟨name, calls, hreport⟩ := h.exists_report_eq_cons hn
      rw [reportHeaders, hreport]
      simp

theorem reportHeaders_append (hs hs' : List Header) (n : ℕ) :
    reportHeaders (hs ++ hs') n
      = reportHeaders hs n ++ reportHeaders hs' (n - (hs.flatMap Header.bytes).length) := by
  induction hs generalizing n with
  | nil => simp [reportHeaders]
  | cons h hs ih =>
    rw [List.cons_append, reportHeaders, ih, reportHeaders, List.flatMap_cons,
      List.length_append, Nat.sub_sub, List.append_assoc]

/-- Lines with other names say nothing about the key. -/
theorem key_foldl_reportHeaders {hs : List Header}
    (hnames : ∀ h ∈ hs, h.name ≠ SEC_WEBSOCKET_KEY) (x : Heard) (n : ℕ) :
    ((reportHeaders hs n).foldl Heard.next x).key = x.key := by
  induction hs generalizing x n with
  | nil => rfl
  | cons h hs ih =>
    obtain ⟨hname, hrest⟩ := List.forall_mem_cons.mp hnames
    rw [reportHeaders, List.foldl_append, ih hrest, h.key_foldl_report_of_ne hname]

namespace UpgradeRequest

variable (R : UpgradeRequest)

/-- The request as it is sent. -/
def bytes : List UInt8 :=
  R.line ++ ((R.before ++ R.key :: R.after).flatMap Header.bytes ++ [13, 10])

/-- Where the line of the key is. -/
def keyPos : ℕ := R.line.length + (R.before.flatMap Header.bytes).length

/-- **What the parser reports of the first `n` bytes.** -/
def report (n : ℕ) : List HttpCallback :=
  reportHeaders (R.before ++ R.key :: R.after) (n - R.line.length)

/-- **How many bytes of the request have the whole key.** -/
def keyEnd : ℕ := R.keyPos + R.key.valueEnd

theorem nameFirst_report (n : ℕ) : NameFirst (R.report n) := nameFirst_reportHeaders _ _

/-- **The key as far as it goes.** -/
theorem key_heard_report (n : ℕ) :
    (heard (R.report n)).key
      = if R.key.value = [] then
          if n ≤ R.keyPos + R.key.bytes.length then none else some []
        else
          if n ≤ R.keyPos + R.key.valuePos then none
          else some ((R.key.value.take (n - (R.keyPos + R.key.valuePos))).take 127) := by
  have hbefore : ∀ h ∈ R.before, h.name ≠ SEC_WEBSOCKET_KEY :=
    fun h hmem => R.other_names h (List.mem_append_left _ hmem)
  have hafter : ∀ h ∈ R.after, h.name ≠ SEC_WEBSOCKET_KEY :=
    fun h hmem => R.other_names h (List.mem_append_right _ hmem)
  unfold heard report
  rw [reportHeaders_append, reportHeaders, List.foldl_append, List.foldl_append,
    key_foldl_reportHeaders hafter, R.key.key_foldl_report R.key_name,
    key_foldl_reportHeaders hbefore, Nat.sub_sub, ← keyPos, Nat.sub_sub]
  simp only [Nat.sub_le_iff_le_add, Nat.add_comm _ R.keyPos]

/-- **The whole key is heard** from its last byte on. -/
theorem key_heard_report_eq_iff (hlen : R.key.value.length ≤ 127) (n : ℕ) :
    (heard (R.report n)).key = some R.key.value ↔ R.keyEnd ≤ n := by
  rw [key_heard_report]
  unfold keyEnd Header.valueEnd
  split_ifs with hnil hn hn
  · simp
    omega
  · simp [hnil]
    omega
  · have hpos := List.length_pos_of_ne_nil hnil
    simp
    omega
  · have hpos := List.length_pos_of_ne_nil hnil
    rw [Option.some.injEq, List.take_take, List.take_eq_self_iff]
    omega

theorem keyEnd_pos : 0 < R.keyEnd := by
  unfold keyEnd Header.valueEnd Header.valuePos
  split_ifs <;> omega

theorem keyEnd_le : R.keyEnd ≤ R.bytes.length := by
  have hlen := R.key.length_bytes
  unfold keyEnd keyPos bytes Header.valueEnd
  simp only [List.length_append, List.flatMap_append, List.flatMap_cons, List.length_cons,
    List.length_nil]
  split_ifs <;> omega

end UpgradeRequest

/-! ## What the second read does -/

namespace Framer

/-- **An idle session stays open** unless the bytes begin a packet that is too
large. -/
theorem isOpen_feed_idle_iff {data : List UInt8} (hne : data ≠ []) :
    (idle.feed data).1.isOpen = true ↔ pkgSize data < MAX_PKG_SIZE := by
  rw [feed_idle, if_neg hne]
  cases hv : ownVerdict data with
  | close => exact iff_of_false Bool.false_ne_true (Nat.not_lt.mpr (verdict_eq_close.mp hv))
  | wait | deliver | collect =>
    refine iff_of_true rfl (Nat.lt_of_not_le (fun hle => ?_))
    exact absurd ((verdict_eq_close.mpr hle : ownVerdict data = .close).symm.trans hv) (by simp)

/-- **It holds nothing afterwards** exactly if the bytes are taken for one
packet. -/
theorem feed_idle_eq_idle_iff {data : List UInt8} (hne : data ≠ [])
    (hroom : data.length ≤ RECV_BUF_SIZE) :
    (idle.feed data).1 = idle ↔ pkgSize data = data.length := by
  have hmax := lt_of_le_of_lt hroom RECV_BUF_SIZE_lt
  rw [feed_idle, if_neg hne]
  cases hv : ownVerdict data with
  | close =>
    have hle := verdict_eq_close.mp hv
    exact iff_of_false (by simp [act, idle]) (by omega)
  | wait =>
    obtain ⟨hlt, -⟩ := verdict_eq_wait.mp hv
    exact iff_of_false (by simp [act, idle, hne]) (by omega)
  | deliver n h =>
    obtain ⟨hle, rfl, -⟩ := (verdict_eq_deliver hmax).mp hv
    simp only [act, idle, mk.injEq, true_and, List.drop_eq_nil_iff]
    omega
  | collect n =>
    obtain ⟨hlt, -⟩ := verdict_eq_collect.mp hv
    exact iff_of_false (by simp [act, idle]) (by omega)

end Framer

namespace IoThread

variable {http_parser_execute : List UInt8 → List HttpCallback}
variable {crypt_sha1 : List UInt8 → MemBlock UInt8 20}

/-- **A session alone that is given two reads**: the second one can only come
if the first one has been taken for the request. -/
theorem Alone.run_two_iff {A B : List UInt8} (hA : A ≠ []) (hB : B ≠ [])
    (hroomA : A.length ≤ RECV_BUF_SIZE) (hroomB : B.length ≤ RECV_BUF_SIZE) (e : Endpoint)
    {ps : List Seen} {x : Progress} :
    Run (Alone http_parser_execute crypt_sha1) .absent [.accept e, .read A, .read B] ps x
      ↔ Handshake.verdict http_parser_execute A = true
        ∧ ps = [⟨A, e, true, Handshake.answer http_parser_execute crypt_sha1 A e⟩]
        ∧ x = .past (Framer.idle.feed B).1 := by
  have hfirst := Alone.run_accept http_parser_execute crypt_sha1 A hA hroomA e
  constructor
  · intro hr
    have hcut : Run (Alone http_parser_execute crypt_sha1) .absent
        ([.accept e, .read A] ++ [.read B]) ps x := hr
    obtain ⟨y, ps₁, ps₂, hr₁, hr₂, rfl⟩ := hcut.exists_of_append
    obtain ⟨rfl, rfl⟩ := hr₁.deterministic (fun _ _ _ _ _ _ h h' => h.deterministic h') hfirst
    cases hverdict : Handshake.verdict http_parser_execute A with
    | false =>
      rw [hverdict] at hr₂
      cases hr₂.step_of_single with
      | read ho => exact absurd ho.1 Bool.false_ne_true
    | true =>
      rw [hverdict] at hr₂
      cases hr₂.step_of_single with
      | read ho => exact ⟨rfl, rfl, rfl⟩
  · rintro ⟨hverdict, rfl, rfl⟩
    rw [hverdict] at hfirst
    exact hfirst.append (.single (.read ⟨rfl, hroomB, fun hnil => absurd hnil hB⟩))

end IoThread

/-! ## The two reads -/

namespace IoThread

variable {http_parser_execute : List UInt8 → List HttpCallback}
variable {crypt_sha1 : List UInt8 → MemBlock UInt8 20}

/-- **The session has done its handshake with this key**: it is open, the byte
stream has come to `f`, and it has queued exactly one response, which is
computed from the whole of the key. -/
structure Handshaken (nConnID : ℕ) (k : List UInt8) (f : Framer) (os : List (ℕ × Attempt))
    (g : IoThread) : Prop where
  session : ∃ s e, g.sessions nConnID = some (s, e) ∧ s.m_IsHandler = true ∧ s.view = f
  isOpen : f.isOpen = true
  response : (os.filterMap (ownSeen nConnID)).filterMap (fun a => a.queued.map Prod.fst)
    = [k ++ migic]

/-- Of how far the session has come this is a property. -/
theorem handshaken_iff {nConnID : ℕ} {k : List UInt8} {f : Framer} {os : List (ℕ × Attempt)}
    {g : IoThread} :
    Handshaken nConnID k f os g ↔ progress (g.sessions nConnID) = .past f ∧ f.isOpen = true
      ∧ (os.filterMap (ownSeen nConnID)).filterMap (fun a => a.queued.map Prod.fst)
        = [k ++ migic] := by
  constructor
  · rintro ⟨⟨s, e, hget, hhandler, rfl⟩, hopen, hresponse⟩
    refine ⟨?_, hopen, hresponse⟩
    rw [hget]
    exact progress_past (hhandler.trans hopen.symm) e
  · rintro ⟨hpast, hopen, hresponse⟩
    refine ⟨?_, hopen, hresponse⟩
    cases hget : g.sessions nConnID with
    | none =>
      rw [hget] at hpast
      exact absurd hpast (by simp [progress])
    | some se =>
      obtain ⟨s, e⟩ := se
      rw [hget] at hpast
      unfold progress at hpast
      dsimp only at hpast
      split_ifs at hpast with hpending
      obtain rfl := Progress.past.inj hpast
      have hsocket : s.m_hSocket = true := hopen
      exact ⟨s, e, rfl, by simpa [hsocket] using hpending, rfl⟩

/-- **Whether a session can come to do its handshake** is decided by what it
does alone. -/
theorem exists_handshaken_iff (hfirst : ∀ data, NameFirst (http_parser_execute data))
    {g₀ : IoThread} (hg₀ : g₀.Ok) {nConnID : ℕ} (habsent : g₀.sessions nConnID = none)
    (owns : List Own) (k : List UInt8) (f : Framer) (fresh : ℕ → UInt8) :
    (∃ os g, Run (Step http_parser_execute crypt_sha1) g₀ (owns.map (event nConnID fresh)) os g
        ∧ Handshaken nConnID k f os g)
      ↔ ∃ ps, Run (Alone http_parser_execute crypt_sha1) .absent owns ps (.past f)
        ∧ f.isOpen = true ∧ ps.filterMap (fun a => a.queued.map Prod.fst) = [k ++ migic] := by
  have hstart : progress (g₀.sessions nConnID) = .absent := congrArg progress habsent
  constructor
  · rintro ⟨os, g, hr, hdone⟩
    obtain ⟨hpast, hopen, hresponse⟩ := handshaken_iff.mp hdone
    have halone := run_alone hfirst hg₀ nConnID hr
    rw [filterMap_own_event, hstart, hpast] at halone
    exact ⟨_, halone, hopen, hresponse⟩
  · rintro ⟨ps, hr, hopen, hresponse⟩
    rw [← hstart] at hr
    obtain ⟨os, g, hr', rfl, hpast⟩ := exists_run_of_alone hfirst hg₀ nConnID hr fresh
    exact ⟨os, g, hr', handshaken_iff.mpr ⟨hpast, hopen, hresponse⟩⟩

/-- The response to a request is the one to this key exactly if that is what is
heard of it. -/
theorem response_iff (request : List UInt8) (e : Endpoint) (ok : Bool) (k : List UInt8) :
    [(⟨request, e, ok, Handshake.answer http_parser_execute crypt_sha1 request e⟩ : Seen)].filterMap
        (fun a => a.queued.map Prod.fst) = [k ++ migic]
      ↔ (heard (http_parser_execute request)).key = some k := by
  unfold Handshake.answer
  cases hkey : (heard (http_parser_execute request)).key with
  | none => simp
  | some key =>
    simp only [Option.map_some, List.filterMap_cons_some, List.filterMap_nil,
      List.cons.injEq, and_true, Option.some.injEq]
    exact List.append_cancel_right_eq key migic k ▸ Iff.rfl

/-- **One read** does the handshake exactly if the key is heard. -/
theorem alone_one_iff {data : List UInt8} (hne : data ≠ [])
    (hroom : data.length ≤ RECV_BUF_SIZE) (e : Endpoint) (k : List UInt8) :
    (∃ ps, Run (Alone http_parser_execute crypt_sha1) .absent [.accept e, .read data] ps
          (.past Framer.idle)
        ∧ Framer.idle.isOpen = true
        ∧ ps.filterMap (fun a => a.queued.map Prod.fst) = [k ++ migic])
      ↔ (heard (http_parser_execute data)).key = some k := by
  have hfirst := Alone.run_accept http_parser_execute crypt_sha1 data hne hroom e
  constructor
  · rintro ⟨ps, hr, -, hresponse⟩
    obtain ⟨rfl, -⟩ := hr.deterministic (fun _ _ _ _ _ _ h h' => h.deterministic h') hfirst
    exact (response_iff data e _ k).mp hresponse
  · intro hkey
    have hverdict : Handshake.verdict http_parser_execute data = true :=
      (congrArg Option.isSome hkey).trans rfl
    rw [hverdict] at hfirst
    exact ⟨_, hfirst, rfl, (response_iff data e true k).mpr hkey⟩

/-- **Two reads** do it exactly if the key is heard of the first one, and the
second one leaves the session open. -/
theorem alone_two_iff {A B : List UInt8} (hA : A ≠ []) (hB : B ≠ [])
    (hroomA : A.length ≤ RECV_BUF_SIZE) (hroomB : B.length ≤ RECV_BUF_SIZE) (e : Endpoint)
    (k : List UInt8) (f : Framer) :
    (∃ ps, Run (Alone http_parser_execute crypt_sha1) .absent [.accept e, .read A, .read B] ps
          (.past f)
        ∧ f.isOpen = true ∧ ps.filterMap (fun a => a.queued.map Prod.fst) = [k ++ migic])
      ↔ (heard (http_parser_execute A)).key = some k ∧ f = (Framer.idle.feed B).1
        ∧ f.isOpen = true := by
  constructor
  · rintro ⟨ps, hr, hopen, hresponse⟩
    obtain ⟨-, rfl, hpast⟩ := (Alone.run_two_iff hA hB hroomA hroomB e).mp hr
    exact ⟨(response_iff A e true k).mp hresponse, Progress.past.inj hpast, hopen⟩
  · rintro ⟨hkey, rfl, hopen⟩
    have hverdict : Handshake.verdict http_parser_execute A = true :=
      (congrArg Option.isSome hkey).trans rfl
    exact ⟨_, (Alone.run_two_iff hA hB hroomA hroomB e).mpr ⟨hverdict, rfl, rfl⟩, hopen,
      (response_iff A e true k).mpr hkey⟩

end IoThread

namespace UpgradeRequest

section Split

variable (R : UpgradeRequest) (hkey : R.key.value.length ≤ 127)
variable {http_parser_execute : List UInt8 → List HttpCallback}
variable (hparser : ∀ p, p <+: R.bytes → http_parser_execute p = R.report p.length)
include hkey hparser

/-- The key is heard of the part that has it. -/
theorem key_heard_eq_iff {p : List UInt8} (hp : p <+: R.bytes) :
    (heard (http_parser_execute p)).key = some R.key.value ↔ R.keyEnd ≤ p.length := by
  rw [hparser p hp]
  exact R.key_heard_report_eq_iff hkey p.length

/-- **One read** has all of it. -/
theorem exists_handshaken_one (hfits : R.bytes.length ≤ RECV_BUF_SIZE)
    (hfirst : ∀ data, NameFirst (http_parser_execute data))
    (crypt_sha1 : List UInt8 → MemBlock UInt8 20) {g₀ : IoThread} (hg₀ : g₀.Ok) {nConnID : ℕ}
    (habsent : g₀.sessions nConnID = none) (e : Endpoint) (fresh : ℕ → UInt8) :
    ∃ os g, Run (IoThread.Step http_parser_execute crypt_sha1) g₀
        [.accept nConnID e, .read nConnID ⟨R.bytes, fresh⟩] os g
      ∧ IoThread.Handshaken nConnID R.key.value Framer.idle os g := by
  have hne : R.bytes ≠ [] :=
    List.ne_nil_of_length_pos (Nat.lt_of_lt_of_le R.keyEnd_pos R.keyEnd_le)
  have hheard := (R.key_heard_eq_iff hkey hparser (List.prefix_refl _)).mpr R.keyEnd_le
  exact (IoThread.exists_handshaken_iff hfirst hg₀ habsent [.accept e, .read R.bytes] _ _
    fresh).mpr ((IoThread.alone_one_iff hne hfits e R.key.value).mpr hheard)

/-- **Two reads** come to this: the first one has the whole key, and the second
one is fed to the byte stream. -/
theorem exists_handshaken_two_iff (hfits : R.bytes.length ≤ RECV_BUF_SIZE)
    (hfirst : ∀ data, NameFirst (http_parser_execute data))
    (crypt_sha1 : List UInt8 → MemBlock UInt8 20) {A B : List UInt8} (hsplit : A ++ B = R.bytes)
    (hA : A ≠ []) (hB : B ≠ []) {g₀ : IoThread} (hg₀ : g₀.Ok) {nConnID : ℕ}
    (habsent : g₀.sessions nConnID = none) (e : Endpoint) (fresh : ℕ → UInt8) (f : Framer) :
    (∃ os g, Run (IoThread.Step http_parser_execute crypt_sha1) g₀
          [.accept nConnID e, .read nConnID ⟨A, fresh⟩, .read nConnID ⟨B, fresh⟩] os g
        ∧ IoThread.Handshaken nConnID R.key.value f os g)
      ↔ R.keyEnd ≤ A.length ∧ f = (Framer.idle.feed B).1 ∧ f.isOpen = true := by
  have hlen : A.length + B.length = R.bytes.length := by rw [← hsplit, List.length_append]
  have hprefix : A <+: R.bytes := hsplit ▸ List.prefix_append A B
  rw [← R.key_heard_eq_iff hkey hparser hprefix, ← IoThread.alone_two_iff hA hB
    (show A.length ≤ RECV_BUF_SIZE by omega) (show B.length ≤ RECV_BUF_SIZE by omega) e]
  exact IoThread.exists_handshaken_iff hfirst hg₀ habsent [.accept e, .read A, .read B] _ f fresh

end Split

/-- **The handshake depends on where the request is cut**, whatever the other
sessions have come to (`g₀`). In one read it is done. In two reads it is done
exactly if the first one has the whole of the key and the second one does not
look like the beginning of a packet that is too large; and the session is left
as after one read exactly if what the second one looks like is one packet. -/
theorem handshaken_split_iff (R : UpgradeRequest) (hkey : R.key.value.length ≤ 127)
    (hfits : R.bytes.length ≤ RECV_BUF_SIZE)
    (http_parser_execute : List UInt8 → List HttpCallback)
    (hparser : ∀ p, p <+: R.bytes → http_parser_execute p = R.report p.length)
    (hfirst : ∀ data, NameFirst (http_parser_execute data))
    (crypt_sha1 : List UInt8 → MemBlock UInt8 20) (A B : List UInt8) (hsplit : A ++ B = R.bytes)
    (hA : A ≠ []) (hB : B ≠ []) {st : Statics} {is₀ : List IoEvent}
    {os₀ : List (ℕ × Attempt)} {g₀ : IoThread}
    (hr₀ : Run (IoThread.Step http_parser_execute crypt_sha1) ⟨fun _ => none, st⟩ is₀ os₀ g₀)
    (nConnID : ℕ) (habsent : g₀.sessions nConnID = none) (e : Endpoint) (fresh : ℕ → UInt8) :
    (∃ os g, Run (IoThread.Step http_parser_execute crypt_sha1) g₀
          [.accept nConnID e, .read nConnID ⟨R.bytes, fresh⟩] os g
        ∧ IoThread.Handshaken nConnID R.key.value Framer.idle os g)
      ∧ ((∃ f os g, Run (IoThread.Step http_parser_execute crypt_sha1) g₀
            [.accept nConnID e, .read nConnID ⟨A, fresh⟩, .read nConnID ⟨B, fresh⟩] os g
          ∧ IoThread.Handshaken nConnID R.key.value f os g)
        ↔ R.keyEnd ≤ A.length ∧ pkgSize B < MAX_PKG_SIZE)
      ∧ ((∃ os g, Run (IoThread.Step http_parser_execute crypt_sha1) g₀
            [.accept nConnID e, .read nConnID ⟨A, fresh⟩, .read nConnID ⟨B, fresh⟩] os g
          ∧ IoThread.Handshaken nConnID R.key.value Framer.idle os g)
        ↔ R.keyEnd ≤ A.length ∧ pkgSize B = B.length) := by
  have hlen : A.length + B.length = R.bytes.length := by rw [← hsplit, List.length_append]
  have hg₀ := IoThread.run_ok hfirst (IoThread.ok_nil st) hr₀
  have htwo := R.exists_handshaken_two_iff hkey hparser hfits hfirst crypt_sha1 hsplit hA hB hg₀
    habsent e fresh
  refine ⟨R.exists_handshaken_one hkey hparser hfits hfirst crypt_sha1 hg₀ habsent e fresh,
    (exists_congr htwo).trans ?_, (htwo Framer.idle).trans ?_⟩
  · rw [← Framer.isOpen_feed_idle_iff hB]
    constructor
    · rintro ⟨f, hend, rfl, hopen⟩
      exact ⟨hend, hopen⟩
    · rintro ⟨hend, hopen⟩
      exact ⟨_, hend, rfl, hopen⟩
  · rw [← Framer.feed_idle_eq_idle_iff hB (show B.length ≤ RECV_BUF_SIZE by omega)]
    exact and_congr_right' ⟨fun h => h.1.symm, fun h => ⟨h.symm, rfl⟩⟩

/-- A request whose key has two characters. -/
def two : UpgradeRequest where
  line := ascii "GET / HTTP/1.1\r\n"
  before := []
  key := ⟨SEC_WEBSOCKET_KEY, [32], ascii "ab", by decide, by decide +kernel, by decide +kernel,
    by decide +kernel, by decide +kernel⟩
  after := []
  key_name := rfl
  other_names := by simp

/-- It is cut behind the line of the key. -/
theorem handshaken_split_iff_two : ∃ f os g,
    Run (IoThread.Step (fun p => two.report p.length) (fun _ => MemBlock.zeros 20))
      ⟨fun _ => none, Statics.init⟩
      [.accept 1 ⟨(127, 0, 0, 1), 80⟩, .read 1 ⟨two.line ++ two.key.bytes, fun _ => 0⟩,
        .read 1 ⟨[13, 10], fun _ => 0⟩] os g
    ∧ IoThread.Handshaken 1 (ascii "ab") f os g :=
  (two.handshaken_split_iff (by decide) (by decide) (fun p => two.report p.length)
    (fun _ _ => rfl) (fun data => two.nameFirst_report data.length) (fun _ => MemBlock.zeros 20)
    (two.line ++ two.key.bytes) [13, 10] (by decide) (by decide) (by decide)
    (.nil (IoThread.mk (fun _ => none) Statics.init)) 1 rfl ⟨(127, 0, 0, 1), 80⟩
    (fun _ => 0)).2.1.mpr ⟨by decide, by decide⟩

/-- **It is not true that the handshake does not depend on where the request is
cut**: here it is cut behind the first character of the key. -/
theorem not_forall_handshaken : ¬ ∀ (R : UpgradeRequest)
    (http_parser_execute : List UInt8 → List HttpCallback)
    (crypt_sha1 : List UInt8 → MemBlock UInt8 20) (A B : List UInt8),
    R.key.value.length ≤ 127 → R.bytes.length ≤ RECV_BUF_SIZE →
    (∀ p, p <+: R.bytes → http_parser_execute p = R.report p.length) →
    (∀ data, NameFirst (http_parser_execute data)) →
    A ++ B = R.bytes → A ≠ [] → B ≠ [] →
    ∀ (st : Statics) (nConnID : ℕ) (e : Endpoint) (fresh : ℕ → UInt8), ∃ f os g,
      Run (IoThread.Step http_parser_execute crypt_sha1) ⟨fun _ => none, st⟩
        [.accept nConnID e, .read nConnID ⟨A, fresh⟩, .read nConnID ⟨B, fresh⟩] os g
      ∧ IoThread.Handshaken nConnID R.key.value f os g := by
  intro h
  obtain ⟨f, hdone⟩ := h two (fun p => two.report p.length) (fun _ => MemBlock.zeros 20)
    (two.line ++ SEC_WEBSOCKET_KEY ++ [58, 32, 97]) [98, 13, 10, 13, 10] (by decide) (by decide)
    (fun _ _ => rfl) (fun data => two.nameFirst_report data.length) (by decide) (by decide)
    (by decide) Statics.init 1 ⟨(127, 0, 0, 1), 80⟩ (fun _ => 0)
  have hend := ((two.exists_handshaken_two_iff (by decide) (fun _ _ => rfl) (by decide)
    (fun data => two.nameFirst_report data.length) _ (by decide) (by decide) (by decide)
    (IoThread.ok_nil Statics.init) rfl _ _ f).mp hdone).1
  exact absurd hend (by decide)

end UpgradeRequest
