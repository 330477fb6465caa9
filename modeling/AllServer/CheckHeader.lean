import AllServer.Sender

/-!
# The numbers of packets

A packet is numbered: what is left of `dwPacketNo` without `dwMsgID ^ dwSize` is
its index, which goes up by one from packet to packet. `CheckHeader` keeps the
index that it expects next in `m_nCheckNo`, where 0 stands for none.

`m_nCheckNo` is not a member of the session, as its name has it, but a variable
of the program. So sessions are numbered together: packets that are numbered
session by session are all accepted exactly if they are numbered throughout
(`CNetSession.numbered_by_session_iff`). And an index that comes round to 0 is
taken for none, after which every packet is accepted: the indices of the
accepted packets go up by one exactly if the packet that is accepted then has
the index 0 (`CNetSession.no_replay_iff`).
-/

/-- `CODE_VALUE`. -/
def CODE_VALUE : UInt32 := 0x88

namespace PacketHeader

/-- **The index of a packet.** -/
def index (h : PacketHeader) : UInt32 := h.dwPacketNo - (h.dwMsgID ^^^ h.dwSize)

/-- **A packet within the limits** that do not depend on its number. -/
structure Within (h : PacketHeader) : Prop where
  CheckCode : h.CheckCode = CODE_VALUE
  dwSize : h.dwSize ≤ 1024 * 1024
  dwMsgID : h.dwMsgID ≤ 4999999

end PacketHeader

namespace CNetSession

/-- `CNetSession::CheckHeader` on the header at the cursor, with what it leaves in
`m_nCheckNo`. -/
def CheckHeader (pHeader : PacketHeader) (m_nCheckNo : UInt32) : UInt32 × Bool :=
  if pHeader.CheckCode ≠ CODE_VALUE then (m_nCheckNo, false)
  else if pHeader.dwSize > 1024 * 1024 then (m_nCheckNo, false)
  else if pHeader.dwMsgID > 4999999 then (m_nCheckNo, false)
  else if m_nCheckNo = 0 then
    (pHeader.dwPacketNo - (pHeader.dwMsgID ^^^ pHeader.dwSize) + 1, true)
  else if pHeader.dwPacketNo = (pHeader.dwMsgID ^^^ pHeader.dwSize) + m_nCheckNo then
    (m_nCheckNo + 1, true)
  else (m_nCheckNo, false)

variable {h : PacketHeader} {hs : List PacketHeader} {m_nCheckNo : UInt32}

/-- **What `CheckHeader` accepts**: a packet within the limits that has the index
that is expected, if one is. The next one is expected then. -/
theorem CheckHeader_of_accepts (hw : h.Within) (hindex : m_nCheckNo = 0 ∨ h.index = m_nCheckNo) :
    CheckHeader h m_nCheckNo = (h.index + 1, true) := by
  have hsize : ¬ h.dwSize > 1024 * 1024 := UInt32.not_lt.mpr hw.dwSize
  have hid : ¬ h.dwMsgID > 4999999 := UInt32.not_lt.mpr hw.dwMsgID
  unfold CheckHeader
  rw [if_neg (not_not.mpr hw.CheckCode), if_neg hsize, if_neg hid]
  split_ifs with hzero heq
  · rfl
  · rw [hindex.resolve_left hzero]
  · refine absurd ?_ heq
    rw [← hindex.resolve_left hzero, PacketHeader.index, UInt32.add_comm, UInt32.sub_add_cancel]

/-- It changes nothing when it accepts none. -/
theorem CheckHeader_of_rejects (hrejects : ¬ (h.Within ∧ (m_nCheckNo = 0 ∨ h.index = m_nCheckNo))) :
    CheckHeader h m_nCheckNo = (m_nCheckNo, false) := by
  unfold CheckHeader
  split_ifs with hcode hsize hid hzero heq
  · rfl
  · rfl
  · rfl
  · exact absurd ⟨⟨not_not.mp hcode, UInt32.not_lt.mp hsize, UInt32.not_lt.mp hid⟩, .inl hzero⟩
      hrejects
  · refine absurd ⟨⟨not_not.mp hcode, UInt32.not_lt.mp hsize, UInt32.not_lt.mp hid⟩, .inr ?_⟩
      hrejects
    rw [PacketHeader.index, heq, UInt32.add_comm, UInt32.add_sub_cancel]
  · rfl

/-- **What is accepted.** -/
theorem CheckHeader_accepts_iff :
    (CheckHeader h m_nCheckNo).2 = true ↔ h.Within ∧ (m_nCheckNo = 0 ∨ h.index = m_nCheckNo) := by
  by_cases haccepts : h.Within ∧ (m_nCheckNo = 0 ∨ h.index = m_nCheckNo)
  · rw [CheckHeader_of_accepts haccepts.1 haccepts.2]
    exact iff_of_true rfl haccepts
  · rw [CheckHeader_of_rejects haccepts]
    exact iff_of_false Bool.false_ne_true haccepts

/-- When a packet has been accepted, the next one is expected. -/
theorem CheckHeader_fst (haccepts : (CheckHeader h m_nCheckNo).2 = true) :
    (CheckHeader h m_nCheckNo).1 = h.index + 1 := by
  obtain ⟨hw, hindex⟩ := CheckHeader_accepts_iff.mp haccepts
  rw [CheckHeader_of_accepts hw hindex]

/-! ## One numbering for all sessions -/

/-- The verdicts on the packets of all sessions, in the order in which they come
in. -/
def checkAll : List (ℕ × PacketHeader) → UInt32 → List (ℕ × Bool)
  | [], _ => []
  | (nConnID, h) :: ps, m_nCheckNo =>
    (nConnID, (CheckHeader h m_nCheckNo).2) :: checkAll ps (CheckHeader h m_nCheckNo).1

/-- What is one session's. -/
def ofSession {α : Type*} (nConnID : ℕ) (xs : List (ℕ × α)) : List α :=
  (xs.filter (fun x => x.1 = nConnID)).map Prod.snd

/-- **The packets of every session are numbered**, from an index of its own on. -/
def NumberedBySession (ps : List (ℕ × PacketHeader)) : Prop :=
  ∀ nConnID, ∃ start : ℕ, ∀ i h, (ofSession nConnID ps)[i]? = some h →
    h.Within ∧ h.index = UInt32.ofNat (start + i) ∧ start + i < 2 ^ 32 - 1

/-- **Numbers are checked session by session**: all packets are accepted, and a
session's get the verdicts that they get without those of the others. -/
def ChecksBySession (ps : List (ℕ × PacketHeader)) : Prop :=
  (∀ v ∈ checkAll ps 0, v.2 = true)
    ∧ ∀ nConnID, ofSession nConnID (checkAll ps 0)
      = (checkAll (ps.filter (fun p => p.1 = nConnID)) 0).map Prod.snd

/-- One packet's index follows the other's. -/
def Follows (h h' : PacketHeader) : Prop := h'.index = h.index + 1

variable {ps : List (ℕ × PacketHeader)}

theorem map_fst_checkAll (ps : List (ℕ × PacketHeader)) (m_nCheckNo : UInt32) :
    (checkAll ps m_nCheckNo).map Prod.fst = ps.map Prod.fst := by
  induction ps generalizing m_nCheckNo with
  | nil => rfl
  | cons p ps ih => exact congrArg (p.1 :: ·) (ih _)

/-- **All packets are accepted** if they are numbered throughout, beginning with
the index that is expected, and only then. -/
theorem checkAll_iff (hps : ∀ p ∈ ps, p.2.Within ∧ p.2.index + 1 ≠ 0) :
    (∀ v ∈ checkAll ps m_nCheckNo, v.2 = true)
      ↔ (∀ h ∈ (ps.map Prod.snd).head?, m_nCheckNo = 0 ∨ h.index = m_nCheckNo)
        ∧ (ps.map Prod.snd).IsChain Follows := by
  induction ps generalizing m_nCheckNo with
  | nil => simp [checkAll]
  | cons p ps ih =>
    obtain ⟨⟨hw, hne⟩, hrest⟩ := List.forall_mem_cons.mp hps
    rw [checkAll, List.forall_mem_cons, List.map_cons, List.isChain_cons, List.head?_cons]
    simp only [Option.mem_some_iff, forall_eq', CheckHeader_accepts_iff, hw, true_and]
    refine and_congr_right fun hindex => ?_
    rw [CheckHeader_of_accepts hw hindex, ih hrest]
    simp only [hne, false_or]
    rfl

/-- What is one session's is as much before and after the check. -/
theorem length_ofSession_checkAll (nConnID : ℕ) (ps : List (ℕ × PacketHeader))
    (m_nCheckNo : UInt32) :
    (ofSession nConnID (checkAll ps m_nCheckNo)).length = (ofSession nConnID ps).length := by
  have hcount : ∀ {α : Type} (xs : List (ℕ × α)),
      (ofSession nConnID xs).length = (xs.map Prod.fst).countP (fun n => n = nConnID) := by
    intro α xs
    rw [ofSession, List.length_map, List.countP_map, List.countP_eq_length_filter]
    rfl
  rw [hcount, hcount, map_fst_checkAll]

/-- **The index of a packet that is numbered** does not come round. -/
theorem NumberedBySession.within (hps : NumberedBySession ps) :
    ∀ p ∈ ps, p.2.Within ∧ p.2.index + 1 ≠ 0 := by
  intro p hp
  obtain ⟨start, hstart⟩ := hps p.1
  have hmem : p.2 ∈ ofSession p.1 ps :=
    List.mem_map.mpr ⟨p, List.mem_filter.mpr ⟨hp, decide_eq_true rfl⟩, rfl⟩
  obtain ⟨i, hi⟩ := List.mem_iff_getElem?.mp hmem
  obtain ⟨hw, hindex, hlt⟩ := hstart i p.2 hi
  refine ⟨hw, fun hzero => ?_⟩
  rw [hindex] at hzero
  have hsucc : start + i + 1 < UInt32.size := by
    rw [UInt32.size]
    omega
  have htoNat : (UInt32.ofNat (start + i + 1)).toNat = 0 := by
    rw [UInt32.ofNat_add]
    exact congrArg UInt32.toNat hzero
  rw [UInt32.toNat_ofNat_of_lt' hsucc] at htoNat
  exact absurd htoNat (Nat.succ_ne_zero _)

/-- The packets of one session follow each other. -/
theorem NumberedBySession.isChain (hps : NumberedBySession ps) (nConnID : ℕ) :
    (ofSession nConnID ps).IsChain Follows := by
  obtain ⟨start, hstart⟩ := hps nConnID
  refine List.isChain_iff_getElem.mpr fun i hi => ?_
  have h₀ := (hstart i _ (List.getElem?_eq_getElem (Nat.lt_of_succ_lt hi))).2.1
  have h₁ := (hstart (i + 1) _ (List.getElem?_eq_getElem hi)).2.1
  rw [Follows, h₀, h₁, ← Nat.add_assoc, UInt32.ofNat_add _ 1]
  rfl

/-- **Numbers are checked session by session** exactly if they go on from packet
to packet, whichever sessions these are of. The number that is expected is a
variable of the module and not of a session, so that a packet of one session moves
what is expected of all others. -/
theorem numbered_by_session_iff (ps : List (ℕ × PacketHeader)) (hps : NumberedBySession ps) :
    ChecksBySession ps ↔ (ps.map Prod.snd).IsChain Follows := by
  have hall : (∀ v ∈ checkAll ps 0, v.2 = true) ↔ _ := checkAll_iff hps.within
  simp only [true_or, implies_true, true_and] at hall
  refine ⟨fun hchecks => hall.mp hchecks.1, fun hchain => ⟨hall.mpr hchain, fun nConnID => ?_⟩⟩
  -- by itself, each session is numbered throughout
  have halone : ∀ v ∈ checkAll (ps.filter (fun p => p.1 = nConnID)) 0, v.2 = true :=
    (checkAll_iff fun p hp => hps.within p (List.mem_of_mem_filter hp)).mpr
      ⟨fun _ _ => .inl rfl, hps.isChain nConnID⟩
  have hlength : (checkAll (ps.filter (fun p => p.1 = nConnID)) 0).length
      = (ofSession nConnID ps).length := by
    have hmap := congrArg List.length (map_fst_checkAll (ps.filter (fun p => p.1 = nConnID)) 0)
    rw [List.length_map, List.length_map] at hmap
    rw [hmap, ofSession, List.length_map]
  have htrue : ∀ v ∈ ofSession nConnID (checkAll ps 0), v = true := by
    intro v hv
    obtain ⟨x, hx, rfl⟩ := List.mem_map.mp hv
    exact hall.mpr hchain x (List.mem_of_mem_filter hx)
  rw [List.eq_replicate_of_mem htrue, length_ofSession_checkAll, ← hlength, ← List.map_const]
  exact List.map_congr_left fun v hv => (halone v hv).symm

/-- Two sessions with a packet each are numbered. -/
theorem numberedBySession_pair {h h' : PacketHeader} (start start' : ℕ) (hw : h.Within)
    (hw' : h'.Within) (hindex : h.index = UInt32.ofNat start)
    (hindex' : h'.index = UInt32.ofNat start') (hlt : start < 2 ^ 32 - 1)
    (hlt' : start' < 2 ^ 32 - 1) : NumberedBySession [(1, h), (2, h')] := by
  have hsingle : ∀ {p q : PacketHeader} {i : ℕ}, [q][i]? = some p → i = 0 ∧ p = q := by
    intro p q i hp
    cases i with
    | zero => exact ⟨rfl, (Option.some.inj hp).symm⟩
    | succ i => cases hp
  intro nConnID
  obtain rfl | hone := eq_or_ne 1 nConnID
  · refine ⟨start, fun i p hp => ?_⟩
    obtain ⟨rfl, rfl⟩ := hsingle hp
    exact ⟨hw, hindex, hlt⟩
  · refine ⟨start', fun i p hp => ?_⟩
    rw [ofSession, List.filter_cons_of_neg (by simpa using hone)] at hp
    obtain rfl | htwo := eq_or_ne 2 nConnID
    · obtain ⟨rfl, rfl⟩ := hsingle hp
      exact ⟨hw', hindex', hlt'⟩
    · rw [List.filter_cons_of_neg (by simpa using htwo)] at hp
      cases hp

/-- Two sessions with a packet each, of which the second one's has the next
index. -/
theorem numbered_by_session_iff_next :
    ChecksBySession [(1, ⟨0x88, 1, 32, 38, 0, 0⟩), (2, ⟨0x88, 1, 32, 39, 0, 0⟩)] :=
  (numbered_by_session_iff _ (numberedBySession_pair 5 6
    ⟨rfl, by decide, by decide⟩ ⟨rfl, by decide, by decide⟩ (by decide) (by decide) (by decide)
    (by decide))).mpr (.cons_cons (by unfold Follows; decide) (.singleton _))

/-- It is not true that numbers are checked session by session: two sessions both
begin with the index 5. -/
theorem not_numbered_by_session : ¬ ∀ ps, NumberedBySession ps → ChecksBySession ps := by
  intro h
  have hchecks := h [(1, ⟨0x88, 1, 32, 38, 0, 0⟩), (2, ⟨0x88, 1, 32, 38, 0, 0⟩)]
    (numberedBySession_pair 5 5 ⟨rfl, by decide, by decide⟩
      ⟨rfl, by decide, by decide⟩ (by decide) (by decide) (by decide) (by decide))
  exact absurd (hchecks.1 (2, false) (by decide)) Bool.false_ne_true

/-! ## Numbers that come round -/

/-- `m_nCheckNo` after a sequence of packets. -/
def checkNo (hs : List PacketHeader) (m_nCheckNo : UInt32) : UInt32 :=
  hs.foldl (fun m_nCheckNo h => (CheckHeader h m_nCheckNo).1) m_nCheckNo

/-- The packets of a sequence that are accepted. -/
def acceptedPackets : List PacketHeader → UInt32 → List PacketHeader
  | [], _ => []
  | h :: hs, m_nCheckNo =>
    if (CheckHeader h m_nCheckNo).2 then h :: acceptedPackets hs (CheckHeader h m_nCheckNo).1
    else acceptedPackets hs (CheckHeader h m_nCheckNo).1

/-- **The indices go up by one**, from `k` on. -/
def CountsFrom (k : UInt32) (hs : List PacketHeader) : Prop :=
  ∀ (j : ℕ) h, hs[j]? = some h → h.index = k + UInt32.ofNat j

/-- **No packet is replayed** in a sequence: what is accepted is numbered, from
the index of the first on, and a packet that has just been accepted is
rejected. -/
structure NoReplay (hs : List PacketHeader) : Prop where
  counts : ∀ first rest, acceptedPackets hs 0 = first :: rest → CountsFrom (first.index + 1) rest
  rejects : ∀ pre h post, hs = pre ++ h :: h :: post → (CheckHeader h (checkNo pre 0)).2 = true →
    (CheckHeader h (checkNo (pre ++ [h]) 0)).2 = false

/-- **The numbering goes on** where `m_nCheckNo` is 0. -/
def GoesOn (m_nCheckNo : UInt32) (hs : List PacketHeader) : Prop :=
  ∀ pre h post, hs = pre ++ h :: post → checkNo pre m_nCheckNo = 0 → h.Within → h.index = 0

/-- **The numbering goes on when it has come round**: where `m_nCheckNo` is 0 again
after a packet within the limits, the next one has the index 0. -/
def ComesRound (hs : List PacketHeader) : Prop :=
  ∀ pre h post, hs = pre ++ h :: post → (∃ p ∈ pre, p.Within) → checkNo pre 0 = 0 → h.Within →
    h.index = 0

theorem countsFrom_cons {k : UInt32} :
    CountsFrom k (h :: hs) ↔ h.index = k ∧ CountsFrom (k + 1) hs := by
  have hsucc : ∀ j : ℕ, k + UInt32.ofNat (j + 1) = k + 1 + UInt32.ofNat j := by
    intro j
    rw [UInt32.ofNat_add, UInt32.add_comm (UInt32.ofNat j), ← UInt32.add_assoc]
    rfl
  constructor
  · intro hcounts
    refine ⟨(hcounts 0 h rfl).trans (UInt32.add_zero k), fun j p hp => ?_⟩
    rw [hcounts (j + 1) p hp, hsucc]
  · rintro ⟨hindex, hcounts⟩ (_ | j) p hp
    · obtain rfl := Option.some.inj hp
      exact hindex.trans (UInt32.add_zero k).symm
    · rw [hcounts j p hp, hsucc]

theorem goesOn_cons : GoesOn m_nCheckNo (h :: hs)
    ↔ (m_nCheckNo = 0 → h.Within → h.index = 0) ∧ GoesOn (CheckHeader h m_nCheckNo).1 hs := by
  constructor
  · intro hgoes
    refine ⟨hgoes [] h hs rfl, fun pre p post heq => hgoes (h :: pre) p post ?_⟩
    rw [heq]
    rfl
  · rintro ⟨hfirst, hrest⟩ (_ | ⟨q, pre⟩) p post heq
    · obtain ⟨rfl, -⟩ := List.cons.inj heq
      exact hfirst
    · obtain ⟨rfl, hrest'⟩ := List.cons.inj heq
      exact hrest pre p post hrest'

/-- **What is accepted is numbered** exactly if the numbering goes on where
`m_nCheckNo` is 0, whatever index is expected. -/
theorem countsFrom_acceptedPackets_iff :
    CountsFrom m_nCheckNo (acceptedPackets hs m_nCheckNo) ↔ GoesOn m_nCheckNo hs := by
  induction hs generalizing m_nCheckNo with
  | nil => exact iff_of_true (by simp [CountsFrom, acceptedPackets]) (by simp [GoesOn])
  | cons h hs ih =>
    rw [acceptedPackets, goesOn_cons]
    by_cases haccepts : (CheckHeader h m_nCheckNo).2 = true
    · obtain ⟨hw, hindex⟩ := CheckHeader_accepts_iff.mp haccepts
      have hfirst : h.index = m_nCheckNo ↔ (m_nCheckNo = 0 → h.Within → h.index = 0) :=
        ⟨fun heq hzero _ => heq.trans hzero,
          fun hzero => hindex.elim (fun h₀ => (hzero h₀ hw).trans h₀.symm) id⟩
      rw [if_pos haccepts, countsFrom_cons, CheckHeader_fst haccepts, ← ih, ← hfirst]
      exact and_congr_right fun heq => by rw [heq]
    · have hrejects := CheckHeader_accepts_iff.not.mp haccepts
      rw [if_neg haccepts, CheckHeader_of_rejects hrejects, ih]
      exact (and_iff_right fun hzero hw => absurd ⟨hw, .inl hzero⟩ hrejects).symm

/-- The first packet within the limits is accepted with the index that it has. -/
theorem comesRound_cons_of_within (hw : h.Within) :
    ComesRound (h :: hs) ↔ GoesOn (h.index + 1) hs := by
  have hno : ∀ pre, checkNo (h :: pre) 0 = checkNo pre (h.index + 1) := by
    intro pre
    rw [checkNo, List.foldl_cons, CheckHeader_of_accepts hw (.inl rfl)]
    rfl
  constructor
  · intro hround pre p post heq
    rw [← hno]
    exact hround (h :: pre) p post (congrArg (h :: ·) heq) ⟨h, List.mem_cons_self, hw⟩
  · rintro hgoes (_ | ⟨q, pre⟩) p post heq ⟨p', hp', -⟩
    · exact absurd hp' List.not_mem_nil
    · obtain ⟨rfl, hrest⟩ := List.cons.inj heq
      rw [hno]
      exact hgoes pre p post hrest

/-- A packet that is not counts for nothing. -/
theorem comesRound_cons_of_not_within (hw : ¬ h.Within) :
    ComesRound (h :: hs) ↔ ComesRound hs := by
  have hno : ∀ pre, checkNo (h :: pre) 0 = checkNo pre 0 := by
    intro pre
    rw [checkNo, List.foldl_cons, CheckHeader_of_rejects fun haccepts => hw haccepts.1]
    rfl
  constructor
  · rintro hround pre p post heq ⟨p', hp', hw'⟩
    rw [← hno]
    exact hround (h :: pre) p post (congrArg (h :: ·) heq) ⟨p', List.mem_cons_of_mem h hp', hw'⟩
  · rintro hround (_ | ⟨q, pre⟩) p post heq ⟨p', hp', hw'⟩
    · exact absurd hp' List.not_mem_nil
    · obtain ⟨rfl, hrest⟩ := List.cons.inj heq
      rw [hno]
      refine hround pre p post hrest ⟨p', ?_, hw'⟩
      exact (List.mem_cons.mp hp').resolve_left fun heq' => hw (heq' ▸ hw')

/-- **What is accepted from the beginning is numbered** exactly if the numbering
goes on when it has come round. -/
theorem counts_iff : (∀ first rest, acceptedPackets hs 0 = first :: rest →
    CountsFrom (first.index + 1) rest) ↔ ComesRound hs := by
  induction hs with
  | nil => exact iff_of_true (by simp [acceptedPackets]) (by simp [ComesRound])
  | cons h hs ih =>
    by_cases hw : h.Within
    · rw [comesRound_cons_of_within hw, ← countsFrom_acceptedPackets_iff,
        acceptedPackets, CheckHeader_of_accepts hw (.inl rfl), if_pos rfl]
      constructor
      · exact fun hcounts => hcounts h _ rfl
      · rintro hcounts first rest heq
        obtain ⟨rfl, rfl⟩ := List.cons.inj heq
        exact hcounts
    · rw [comesRound_cons_of_not_within hw, ← ih, acceptedPackets,
        CheckHeader_of_rejects fun haccepts => hw haccepts.1, if_neg Bool.false_ne_true]

/-- **No packet is replayed** exactly if the numbering goes on when it has come
round. Behind the largest number there is 0, and 0 is what the code has where no
packet has been seen yet, so that anything is accepted then. -/
theorem no_replay_iff (hs : List PacketHeader) : NoReplay hs ↔ ComesRound hs := by
  refine ⟨fun hreplay => counts_iff.mp hreplay.counts, fun hround => ⟨counts_iff.mpr hround, ?_⟩⟩
  intro pre h post heq haccepts
  have hno : checkNo (pre ++ [h]) 0 = h.index + 1 := by
    rw [checkNo, List.foldl_append]
    exact CheckHeader_fst haccepts
  by_contra hagain
  obtain ⟨hw, hzero | hindex⟩ := CheckHeader_accepts_iff.mp (Bool.eq_true_of_not_eq_false hagain)
  · have hindex := hround (pre ++ [h]) h post (by rw [heq]; simp) ⟨h, by simp, hw⟩ hzero hw
    rw [hno, hindex] at hzero
    exact absurd hzero (by decide)
  · rw [hno] at hindex
    have hone : (0 : UInt32) = 1 := by
      have hsub := congrArg (· - h.index) hindex
      rwa [UInt32.sub_self, UInt32.add_comm, UInt32.add_sub_cancel] at hsub
    exact absurd hone (by decide)

/-- It is not true that no packet is replayed: one with the last index is
accepted a second time. -/
theorem not_no_replay : ¬ ∀ hs, NoReplay hs := by
  intro h
  have hrejects := (h [⟨0x88, 1, 32, 32, 0, 0⟩, ⟨0x88, 1, 32, 32, 0, 0⟩]).rejects [] _ [] rfl
    (by decide)
  exact absurd hrejects (by decide)

end CNetSession
