import AllServer.DataBuffer
import AllServer.Util.Run
import AllServer.WsFrame

/-!
# The framer: what the receive path does to the byte stream

Without its buffers and cursors, a session holds two things: a packet that is
being collected, with the size it is to have, and the bytes that were received
behind it. A `Framer` is that, and `Framer.feed` is what a read does to it:
what is delivered and what is held afterwards. `AllServer.SessionSpec` proves
that this is what `HandReaddata` does.

The framer keeps a feature of the loop that its correctness hangs on. What is
done about the bytes behind a packet that has just been completed is decided
by a size parsed *before* it was completed, at a cursor inside its payload
(`Framer.extract`). `Framer.verdict` is that decision, and it is a function of
a size and of the number of bytes alone.
-/

open CHttpParser

/-- A delivered packet: its bytes and the header length passed with it. -/
abbrev Delivery := List UInt8 × ℕ

/-- What is done about the bytes at the cursor. -/
inductive Verdict where
  /-- The session is closed. -/
  | close
  /-- The bytes are left for the next read. -/
  | wait
  /-- A packet of this size is delivered, with this header length. -/
  | deliver (size headerSize : ℕ)
  /-- A packet of this size is begun with all of the bytes. -/
  | collect (size : ℕ)
  deriving DecidableEq

/-- **The session as the byte stream sees it.** -/
structure Framer where
  /-- Whether the socket is open. -/
  isOpen : Bool
  /-- The packet being collected: its bytes so far and the size it is to
  have. -/
  part : Option (List UInt8 × ℕ)
  /-- The bytes behind it that wait in the receive buffer. -/
  buf : List UInt8

namespace Framer

/-- **The decision of `ExtractBuffer`** about `avail` bytes at the cursor, for
a packet of a given size. -/
def verdict (size headerSize avail : ℕ) : Verdict :=
  if MAX_PKG_SIZE ≤ size then .close
  else if avail < size ∧ size < RECV_BUF_SIZE then .wait
  else if size ≤ avail then .deliver size headerSize
  else .collect size

/-- The verdict on some bytes by the header at their own front. -/
def ownVerdict (bytes : List UInt8) : Verdict :=
  verdict (pkgSize bytes) (headerSize bytes) bytes.length

/-- Carrying out a verdict on the bytes at the cursor, with no packet being
collected. -/
def act (isOpen : Bool) (rest : List UInt8) : Verdict → Framer × List Delivery
  | .close => (⟨false, none, rest⟩, [])
  | .wait => (⟨isOpen, none, rest⟩, [])
  | .deliver size headerSize =>
    (⟨isOpen, none, rest.drop size⟩, [(rest.take size, headerSize)])
  | .collect size => (⟨isOpen, some (rest, size), []⟩, [])

/-- How many bytes complete the packet that is being collected. -/
def missing (f : Framer) : ℕ :=
  match f.part with
  | none => 0
  | some (c, n) => n - c.length

/-- **What `ExtractBuffer` does to the bytes that are held.** -/
def extract (f : Framer) : Framer × List Delivery :=
  match f.part with
  | none => act f.isOpen f.buf (ownVerdict f.buf)
  | some (c, n) =>
    if c.length + f.buf.length < n then
      (⟨f.isOpen, some (c ++ f.buf, n), []⟩, [])
    else
      let rest := f.buf.drop (n - c.length)
      -- the size and the header length are those parsed in front of `rest`
      let out := act f.isOpen rest
        (verdict (pkgSize f.buf) (headerSize f.buf) rest.length)
      (out.1, (c ++ f.buf.take (n - c.length), headerSize f.buf) :: out.2)

/-- The bytes at the cursor when some more have been received. -/
def front (f : Framer) (data : List UInt8) : List UInt8 := f.buf ++ data

/-- The framer with some more bytes received. -/
def push (f : Framer) (data : List UInt8) : Framer := { f with buf := f.front data }

/-- **What a read does.** -/
def feed (f : Framer) (data : List UInt8) : Framer × List Delivery :=
  if f.front data = [] then (f, []) else (f.push data).extract

/-- **The reads a framer can be given**, as long as it is open: some bytes that
fit the window, or none where the window is empty. -/
def Offers (f : Framer) (data : List UInt8) : Prop :=
  f.isOpen = true ∧ data.length ≤ RECV_BUF_SIZE - f.buf.length
    ∧ (data = [] → f.buf.length = RECV_BUF_SIZE)

instance (f : Framer) (data : List UInt8) : Decidable (f.Offers data) :=
  inferInstanceAs (Decidable (_ ∧ _ ∧ (_ → _)))

theorem Offers.length_front_le {f : Framer} {data : List UInt8} (h : f.Offers data) :
    (f.front data).length ≤ RECV_BUF_SIZE := by
  obtain ⟨-, hroom, hnil⟩ := h
  unfold front
  rw [List.length_append]
  by_cases hle : f.buf.length ≤ RECV_BUF_SIZE
  · omega
  · have hdata : data.length = 0 := by omega
    exact absurd (hnil (List.length_eq_zero_iff.mp hdata)).le hle

/-- There is always something at the cursor after a read. -/
theorem Offers.front_ne_nil {f : Framer} {data : List UInt8} (h : f.Offers data) :
    f.front data ≠ [] := by
  intro hfront
  obtain ⟨hbuf, hdata⟩ := List.append_eq_nil_iff.mp hfront
  have hfull := h.2.2 hdata
  rw [hbuf] at hfull
  exact absurd hfull RECV_BUF_SIZE_pos.ne

/-- **The framer as a machine**: it is fed reads and makes deliveries. -/
def Feeds : Machine Framer (List UInt8) Delivery :=
  fun f data ds f' => f.Offers data ∧ f.feed data = (f', ds)

theorem Offers.feeds {f : Framer} {data : List UInt8} (h : f.Offers data) :
    Feeds f data (f.feed data).2 (f.feed data).1 :=
  ⟨h, rfl⟩

/-- **The framers a session can be**: a packet that is being collected is not
complete and too large for the receive buffer, and then no bytes wait. -/
structure Ok (f : Framer) : Prop where
  length_buf : f.buf.length ≤ RECV_BUF_SIZE
  part_lt : ∀ c n, f.part = some (c, n) → c.length < n
  le_part : ∀ c n, f.part = some (c, n) → RECV_BUF_SIZE ≤ n
  part_lt_max : ∀ c n, f.part = some (c, n) → n < MAX_PKG_SIZE
  buf_eq : ∀ c n, f.part = some (c, n) → f.buf = []

/-- The framer of an open session that holds nothing. -/
def idle : Framer := ⟨true, none, []⟩

/-! ## What a verdict says -/

theorem verdict_eq_close {size headerSize avail : ℕ} :
    verdict size headerSize avail = .close ↔ MAX_PKG_SIZE ≤ size := by
  unfold verdict
  split_ifs with h₁ h₂ h₃ <;> simp [h₁]

theorem verdict_eq_wait {size headerSize avail : ℕ} :
    verdict size headerSize avail = .wait ↔ avail < size ∧ size < RECV_BUF_SIZE := by
  have hlt := RECV_BUF_SIZE_lt
  unfold verdict
  split_ifs with h₁ h₂ h₃
  · simp; omega
  · simp [h₂]
  · simp [h₂]
  · simp [h₂]

theorem verdict_eq_deliver {size headerSize avail n h : ℕ} (ha : avail < MAX_PKG_SIZE) :
    verdict size headerSize avail = .deliver n h
      ↔ size ≤ avail ∧ n = size ∧ h = headerSize := by
  unfold verdict
  split_ifs with h₁ h₂ h₃
  · simp; omega
  · simp; omega
  · simp [h₃, eq_comm]
  · simp [h₃]

theorem verdict_eq_collect {size headerSize avail n : ℕ} :
    verdict size headerSize avail = .collect n
      ↔ avail < size ∧ RECV_BUF_SIZE ≤ size ∧ size < MAX_PKG_SIZE ∧ n = size := by
  unfold verdict
  split_ifs with h₁ h₂ h₃
  · simp; omega
  · simp; omega
  · simp; omega
  · simp only [Verdict.collect.injEq]
    omega

/-! ## What a read does

A read either leaves the packet that is being collected incomplete
(`feed_of_lt_missing`), or it completes it, if there is one, and a verdict is
carried out on the bytes behind it (`feed_of_missing_le`). -/

/-- The bytes at the cursor after a read that are behind the packet being
collected. -/
def behind (f : Framer) (data : List UInt8) : List UInt8 := (f.front data).drop f.missing

/-- The delivery of the packet that a read completes, if it completes one. -/
def completed (f : Framer) (data : List UInt8) : List Delivery :=
  match f.part with
  | none => []
  | some (c, _) => [(c ++ (f.front data).take f.missing, headerSize (f.front data))]

/-- **The verdict on the bytes behind**: on their number, but by the header
parsed in front of them. -/
def decision (f : Framer) (data : List UInt8) : Verdict :=
  verdict (pkgSize (f.front data)) (headerSize (f.front data)) (f.behind data).length

variable {f : Framer} {data : List UInt8}

theorem missing_of_part_eq_some {c : List UInt8} {n : ℕ} (h : f.part = some (c, n)) :
    f.missing = n - c.length := by
  unfold missing
  rw [h]

theorem behind_of_part_eq_none (h : f.part = none) : f.behind data = f.front data := by
  unfold behind missing
  rw [h]
  exact List.drop_zero

theorem completed_of_part_eq_none (h : f.part = none) : f.completed data = [] := by
  unfold completed
  rw [h]

/-- **With no packet being collected the verdict is the bytes' own.** -/
theorem decision_of_part_eq_none (h : f.part = none) :
    f.decision data = ownVerdict (f.front data) := by
  unfold decision ownVerdict
  rw [behind_of_part_eq_none h]

/-- A read that leaves the packet incomplete. -/
theorem feed_of_lt_missing (h : (f.front data).length < f.missing) :
    ∃ c n, f.part = some (c, n)
      ∧ f.feed data = (⟨f.isOpen, some (c ++ f.front data, n), []⟩, []) := by
  obtain ⟨isOpen, part, buf⟩ := f
  cases part with
  | none => exact absurd h (Nat.not_lt_zero _)
  | some cn =>
    obtain ⟨c, n⟩ := cn
    have hlt : (buf ++ data).length < n - c.length := h
    refine ⟨c, n, rfl, ?_⟩
    unfold feed front
    dsimp only
    by_cases hnil : buf ++ data = []
    · rw [if_pos hnil, hnil, List.append_nil]
      exact congrArg (fun bytes => (Framer.mk isOpen _ bytes, []))
        (List.append_eq_nil_iff.mp hnil).1
    · rw [if_neg hnil]
      exact if_pos (show c.length + (buf ++ data).length < n by omega)

/-- **A read that completes it**, or that finds none. -/
theorem feed_of_missing_le (hne : f.front data ≠ [])
    (h : f.missing ≤ (f.front data).length) :
    f.feed data = ((act f.isOpen (f.behind data) (f.decision data)).1,
      f.completed data ++ (act f.isOpen (f.behind data) (f.decision data)).2) := by
  rw [feed, if_neg hne]
  cases hpart : f.part with
  | none =>
    rw [decision_of_part_eq_none hpart, behind_of_part_eq_none hpart,
      completed_of_part_eq_none hpart, extract, push]
    simp only [hpart]
    rfl
  | some cn =>
    obtain ⟨c, n⟩ := cn
    have hmissing := missing_of_part_eq_some hpart
    have hle : ¬ c.length + (f.front data).length < n := by omega
    rw [extract, push]
    simp only [hpart, if_neg hle, completed, decision, behind, hmissing]
    rfl

/-- **With no packet being collected** the bytes' own verdict is carried out
on all of them. -/
theorem feed_of_part_eq_none (hpart : f.part = none) (hne : f.front data ≠ []) :
    f.feed data = act f.isOpen (f.front data) (ownVerdict (f.front data)) := by
  have hle : f.missing ≤ (f.front data).length := by
    unfold missing
    rw [hpart]
    exact Nat.zero_le _
  rw [feed_of_missing_le hne hle, behind_of_part_eq_none hpart,
    decision_of_part_eq_none hpart, completed_of_part_eq_none hpart]
  rfl

/-- A read that arrives alone in an idle session. -/
theorem feed_idle (data : List UInt8) :
    idle.feed data = if data = [] then (idle, []) else act true data (ownVerdict data) := by
  split_ifs with hnil
  · exact if_pos hnil
  · exact feed_of_part_eq_none rfl hnil

/-- **A frame that fits is delivered**, if it arrives alone in an idle
session. -/
theorem feeds_frame {F : WsFrame} (hfits : F.header.total ≤ RECV_BUF_SIZE) :
    Feeds idle F.bytes [(F.bytes, F.header.size)] idle := by
  have hmax : F.header.total < MAX_PKG_SIZE := lt_of_le_of_lt hfits RECV_BUF_SIZE_lt
  have hword := hmax.trans MAX_PKG_SIZE_lt
  have hheader : header F.bytes = some (F.header.total, F.header.size) :=
    WsFrame.header_of_prefix hword (List.prefix_refl _) (WsFrame.isFrame hword).le_length
  have hverdict : ownVerdict F.bytes = .deliver F.header.total F.header.size := by
    unfold ownVerdict
    rw [pkgSize_of_header hheader, headerSize_of_header hheader, F.length_bytes]
    exact (verdict_eq_deliver hmax).mpr ⟨le_rfl, rfl, rfl⟩
  refine ⟨⟨rfl, ?_, fun hnil => absurd hnil F.bytes_ne_nil⟩, ?_⟩
  · show F.bytes.length ≤ RECV_BUF_SIZE
    rwa [F.length_bytes]
  · rw [feed_idle, if_neg F.bytes_ne_nil, hverdict, ← F.length_bytes]
    show (Framer.mk true none (F.bytes.drop F.bytes.length),
      [(F.bytes.take F.bytes.length, F.header.size)]) = _
    rw [List.take_length, List.drop_length]
    rfl

theorem length_behind_lt (ho : f.Offers data) : (f.behind data).length < MAX_PKG_SIZE := by
  have hmax := RECV_BUF_SIZE_lt
  have hlen := ho.length_front_le
  unfold behind
  rw [List.length_drop]
  omega

/-- The packet that a read completes has the size it is to have. -/
theorem Ok.length_completed (hf : f.Ok) {c : List UInt8} {n : ℕ}
    (hpart : f.part = some (c, n)) (hle : f.missing ≤ (f.front data).length) :
    (c ++ (f.front data).take f.missing).length = n := by
  have hlt := hf.part_lt c n hpart
  have hmissing := missing_of_part_eq_some hpart
  rw [List.length_append, List.length_take]
  omega

/-- What holds of everything that carrying out the verdict delivers. -/
theorem forall_mem_act {P : Delivery → Prop} (ho : f.Offers data) :
    (∀ d ∈ (act f.isOpen (f.behind data) (f.decision data)).2, P d)
      ↔ (pkgSize (f.front data) ≤ (f.behind data).length →
        P ((f.behind data).take (pkgSize (f.front data)), headerSize (f.front data))) := by
  have hlen := length_behind_lt ho
  cases hv : f.decision data with
  | deliver n h =>
    obtain ⟨hle, rfl, rfl⟩ := (verdict_eq_deliver hlen).mp hv
    rw [imp_iff_right hle, act]
    exact List.forall_mem_singleton
  | close | wait | collect =>
    -- nothing is delivered, and there are not as many bytes
    refine iff_of_true (fun d hd => absurd hd List.not_mem_nil) (fun hle => ?_)
    have hdeliver : f.decision data
        = .deliver (pkgSize (f.front data)) (headerSize (f.front data)) :=
      (verdict_eq_deliver hlen).mpr ⟨hle, rfl, rfl⟩
    exact absurd (hdeliver.symm.trans hv) (by simp)

/-- **What holds of everything that a read delivers**: of the packet that it
completes and of the one it delivers behind. -/
theorem forall_mem_feed {P : Delivery → Prop} (ho : f.Offers data) :
    (∀ d ∈ (f.feed data).2, P d)
      ↔ (f.missing ≤ (f.front data).length →
        (∀ c n, f.part = some (c, n) →
          P (c ++ (f.front data).take f.missing, headerSize (f.front data)))
        ∧ (pkgSize (f.front data) ≤ (f.behind data).length →
          P ((f.behind data).take (pkgSize (f.front data)), headerSize (f.front data)))) := by
  have hcompleted : (∀ d ∈ f.completed data, P d) ↔ ∀ c n, f.part = some (c, n) →
      P (c ++ (f.front data).take f.missing, headerSize (f.front data)) := by
    unfold completed
    cases hpart : f.part with
    | none => simp
    | some cn => simp [Prod.ext_iff]
  rcases Nat.lt_or_ge (f.front data).length f.missing with hlt | hle
  · obtain ⟨c, n, -, hfeed⟩ := feed_of_lt_missing hlt
    rw [hfeed]
    exact iff_of_true (fun d hd => absurd hd List.not_mem_nil)
      (fun h => absurd hlt (Nat.not_lt.mpr h))
  · rw [feed_of_missing_le ho.front_ne_nil hle, List.forall_mem_append, imp_iff_right hle,
      hcompleted, forall_mem_act ho]

end Framer
