import AllServer.Util.CString
import AllServer.Util.Fill

/-!
# Dispatching a message

A request names the type of a message and has the bytes of one. `Parse` makes a
message of that type and lets it parse the bytes, and `OnceDispatch` hands the
message to the callback that is registered for its type.

`Parse` does not look at what parsing the bytes has returned. So a callback sees
parsed messages only, exactly if the bytes do parse whenever the request does and
names a type (`CMsgDispatcher.once_dispatch_iff`).

Protobuf is a parameter, with what it documents of its messages
(`Protobuf.Lawful`).
-/

/-- `rpc::Request`. -/
structure Request where
  method : List UInt8
  serialized_request : Option (List UInt8)

/-- **What the dispatcher uses of protobuf.** -/
structure Protobuf (Descriptor Message : Type) where
  /-- `rpc::Request::ParseFromArray` on a request that is empty, if it returns
  true. -/
  ParseRequest : List UInt8 → Option Request
  /-- `DescriptorPool::FindMessageTypeByName`. -/
  FindMessageTypeByName : List UInt8 → Option Descriptor
  /-- `MessageFactory::GetPrototype`. -/
  GetPrototype : Descriptor → Option Message
  /-- `Message::New`. -/
  New : Message → Message
  /-- `Message::ParseFromArray`: what it leaves in the message, and whether that is
  all of the bytes and has all that is required. -/
  ParseFromArray : Message → List UInt8 → Message × Bool
  /-- `Message::GetDescriptor`. -/
  GetDescriptor : Message → Descriptor

/-- **What protobuf documents of it**: there is a prototype of every type, a message
keeps its type, and a request has two bytes in front of its method. No type has
a name of one character. -/
structure Protobuf.Lawful {Descriptor Message : Type} (pb : Protobuf Descriptor Message) :
    Prop where
  GetPrototype : ∀ name d, pb.FindMessageTypeByName name = some d →
    ∃ m, pb.GetPrototype d = some m ∧ pb.GetDescriptor m = d
  New : ∀ m, pb.GetDescriptor (pb.New m) = pb.GetDescriptor m
  ParseFromArray : ∀ m data, pb.GetDescriptor (pb.ParseFromArray m data).1 = pb.GetDescriptor m
  ParseRequest : ∀ pData req, pb.ParseRequest pData = some req →
    req.method.length + 2 ≤ pData.length
  FindMessageTypeByName : ∀ name d, pb.FindMessageTypeByName name = some d → 2 ≤ name.length

/-- **A call of a callback.** -/
structure Invocation (Message Callback : Type) where
  callback : Callback
  lClientId : UInt32
  message : Message

/-- **The table of the dispatcher.** -/
structure CMsgDispatcher (Descriptor Callback : Type) where
  m_callbacks : Descriptor → Option Callback
  m_defaultCallback : Callback

namespace CMsgDispatcher

variable {Descriptor Message Callback : Type}

/-! ## The code -/

section Code

variable (pb : Protobuf Descriptor Message)

/-- `CMsgDispatcher::createMessage`. -/
def createMessage (type_name : List UInt8) : Option Message := do
  let descriptor ← pb.FindMessageTypeByName type_name
  let prototype ← pb.GetPrototype descriptor
  return pb.New prototype

/-- `CMsgDispatcher::Parse`. -/
def Parse (pData : List UInt8) : Option Message := do
  if pData.length < 4 then none
  let req ← pb.ParseRequest pData
  let message ← createMessage pb req.method
  return (pb.ParseFromArray message (req.serialized_request.getD [])).1

/-- `CMsgDispatcher::OnceDispatch`: the calls it makes, and what it returns. -/
def OnceDispatch (lClientId : UInt32) (pData : List UInt8)
    (s : CMsgDispatcher Descriptor Callback) : List (Invocation Message Callback) × Bool :=
  match Parse pb pData with
  | some message =>
    match s.m_callbacks (pb.GetDescriptor message) with
    | some callback => ([⟨callback, lClientId, message⟩], true)
    | none => ([⟨s.m_defaultCallback, lClientId, message⟩], true)
  | none => ([], false)

end Code

/-- `CMsgDispatcher::registerMessageCallback`. -/
def registerMessageCallback [DecidableEq Descriptor] (descriptor : Descriptor) (d : Callback)
    (s : CMsgDispatcher Descriptor Callback) : CMsgDispatcher Descriptor Callback :=
  { s with m_callbacks := Function.update s.m_callbacks descriptor (some d) }

/-- The dispatcher after some callbacks have been registered. -/
def registered [DecidableEq Descriptor] (regs : List (Descriptor × Callback))
    (m_defaultCallback : Callback) : CMsgDispatcher Descriptor Callback :=
  regs.foldl (fun s r => s.registerMessageCallback r.1 r.2) ⟨fun _ => none, m_defaultCallback⟩

/-! ## What a callback sees -/

section Spec

variable (pb : Protobuf Descriptor Message)

/-- **The bytes are a request for a message** of a known type, and the message
parses. -/
def Complete (pData : List UInt8) (d : Descriptor) (m : Message) : Prop :=
  ∃ req prototype, pb.ParseRequest pData = some req
    ∧ pb.FindMessageTypeByName req.method = some d ∧ pb.GetPrototype d = some prototype
    ∧ pb.ParseFromArray (pb.New prototype) (req.serialized_request.getD []) = (m, true)

variable [DecidableEq Descriptor]

/-- The callback that has been registered last for a type, or else the default
one. -/
def callbackFor (regs : List (Descriptor × Callback)) (m_defaultCallback : Callback)
    (d : Descriptor) : Callback :=
  ((regs.reverse.find? (fun r => r.1 = d)).map Prod.snd).getD m_defaultCallback

/-- **A callback sees a message that has been parsed**, once, and else none
does. -/
structure SeesParsed (regs : List (Descriptor × Callback)) (m_defaultCallback : Callback)
    (lClientId : UInt32) (pData : List UInt8) : Prop where
  dispatched : ∀ d m, Complete pb pData d m →
    (registered regs m_defaultCallback).OnceDispatch pb lClientId pData
      = ([⟨callbackFor regs m_defaultCallback d, lClientId, m⟩], true)
  refused : (∀ d m, ¬ Complete pb pData d m) →
    (registered regs m_defaultCallback).OnceDispatch pb lClientId pData = ([], false)

end Spec

variable [DecidableEq Descriptor] {pb : Protobuf Descriptor Message}
variable {regs : List (Descriptor × Callback)} {m_defaultCallback : Callback}
variable {lClientId : UInt32} {pData : List UInt8} {req : Request} {d : Descriptor} {m : Message}

/-- **The table** is filled with what is registered. -/
theorem registered_eq (regs : List (Descriptor × Callback)) (m_defaultCallback : Callback) :
    registered regs m_defaultCallback
      = ⟨fill Prod.fst Prod.snd regs (fun _ => none), m_defaultCallback⟩ := by
  have hfold : ∀ s : CMsgDispatcher Descriptor Callback,
      regs.foldl (fun s r => s.registerMessageCallback r.1 r.2) s
        = { s with m_callbacks := fill Prod.fst Prod.snd regs s.m_callbacks } := by
    intro s
    induction regs generalizing s with
    | nil => rfl
    | cons r regs ih => exact ih _
  exact hfold _

/-- **A message is handed to the callback for its type.** -/
theorem OnceDispatch_of_parse (h : Parse pb pData = some m) :
    (registered regs m_defaultCallback).OnceDispatch pb lClientId pData
      = ([⟨callbackFor regs m_defaultCallback (pb.GetDescriptor m), lClientId, m⟩], true) := by
  unfold OnceDispatch callbackFor
  rw [h, registered_eq]
  dsimp only
  rw [fill_apply, Option.or_none]
  cases (regs.reverse.find? (fun r => r.1 = pb.GetDescriptor m)).map Prod.snd <;> rfl

omit [DecidableEq Descriptor] in
/-- **What `Parse` returns** is the message that the request names, whatever has
become of its bytes. -/
theorem Parse_eq_some_iff (hpb : pb.Lawful) :
    Parse pb pData = some m ↔ ∃ req d prototype, pb.ParseRequest pData = some req
      ∧ pb.FindMessageTypeByName req.method = some d ∧ pb.GetPrototype d = some prototype
      ∧ (pb.ParseFromArray (pb.New prototype) (req.serialized_request.getD [])).1 = m := by
  unfold Parse createMessage
  constructor
  · intro h
    split_ifs at h with hlen
    · cases h
    · simp only [Option.pure_def, Option.bind_eq_bind, Option.bind_eq_some_iff,
        Option.some.injEq] at h
      obtain ⟨req, hreq, _, ⟨d, hd, prototype, hprototype, rfl⟩, hm⟩ := h
      exact ⟨req, d, prototype, hreq, hd, hprototype, hm⟩
  · rintro ⟨req, d, prototype, hreq, hd, hprototype, rfl⟩
    have hlen := hpb.ParseRequest pData req hreq
    have hname := hpb.FindMessageTypeByName _ d hd
    rw [if_neg (show ¬ pData.length < 4 by omega)]
    simp [hreq, hd, hprototype]

omit [DecidableEq Descriptor] in
/-- A message that a request names has the type that it names. -/
theorem GetDescriptor_of_find (hpb : pb.Lawful) {name : List UInt8} {prototype : Message}
    (hd : pb.FindMessageTypeByName name = some d) (hprototype : pb.GetPrototype d = some prototype)
    (data : List UInt8) :
    pb.GetDescriptor (pb.ParseFromArray (pb.New prototype) data).1 = d := by
  obtain ⟨m, hm, hdescriptor⟩ := hpb.GetPrototype name d hd
  obtain rfl := Option.some.inj (hm.symm.trans hprototype)
  rw [hpb.ParseFromArray, hpb.New, hdescriptor]

/-- **Callbacks see parsed messages only** exactly if the bytes in the request
parse, when it is one and names a type that is known. The result of parsing the
message inside of the request is dropped, while that of the outer one is looked
at. -/
theorem once_dispatch_iff (hpb : pb.Lawful) (regs : List (Descriptor × Callback))
    (m_defaultCallback : Callback) (lClientId : UInt32) (pData : List UInt8) :
    SeesParsed pb regs m_defaultCallback lClientId pData
      ↔ ∀ req d prototype, pb.ParseRequest pData = some req →
        pb.FindMessageTypeByName req.method = some d → pb.GetPrototype d = some prototype →
        (pb.ParseFromArray (pb.New prototype) (req.serialized_request.getD [])).2 = true := by
  constructor
  · intro hsees req d prototype hreq hd hprototype
    by_contra hfails
    have hparse := (Parse_eq_some_iff hpb).mpr ⟨req, d, prototype, hreq, hd, hprototype, rfl⟩
    -- the message is dispatched although nothing is complete
    have hnone : ∀ d m, ¬ Complete pb pData d m := by
      rintro d' m ⟨req', prototype', hreq', hd', hprototype', hm⟩
      obtain rfl := Option.some.inj (hreq.symm.trans hreq')
      obtain rfl := Option.some.inj (hd.symm.trans hd')
      obtain rfl := Option.some.inj (hprototype.symm.trans hprototype')
      exact hfails (congrArg Prod.snd hm)
    have hrefused := hsees.refused hnone
    rw [OnceDispatch_of_parse hparse] at hrefused
    cases hrefused
  · intro hparses
    refine ⟨?_, fun hnone => ?_⟩
    · rintro d m ⟨req, prototype, hreq, hd, hprototype, hm⟩
      have hparse := (Parse_eq_some_iff hpb).mpr ⟨req, d, prototype, hreq, hd, hprototype, rfl⟩
      rw [OnceDispatch_of_parse hparse, GetDescriptor_of_find hpb hd hprototype, hm]
    · have hparse : Parse pb pData = none := by
        refine Option.eq_none_iff_forall_ne_some.mpr fun m hm => ?_
        obtain ⟨req, d, prototype, hreq, hd, hprototype, rfl⟩ := (Parse_eq_some_iff hpb).mp hm
        have htrue := hparses req d prototype hreq hd hprototype
        exact hnone d _ ⟨req, prototype, hreq, hd, hprototype, Prod.ext rfl htrue⟩
      unfold OnceDispatch
      rw [hparse]

/-- Protobuf on a request for a message `rpc.LoginInfo`, and on the same with only
the first byte of the message. -/
def loginInfo : Protobuf (List UInt8) (List UInt8 × List UInt8) where
  ParseRequest pData :=
    if pData = [10, 13] ++ ascii "rpc.LoginInfo" ++ [18, 13, 10, 3] ++ ascii "123" ++ [18, 6]
        ++ ascii "123456" then
      some ⟨ascii "rpc.LoginInfo", some ([10, 3] ++ ascii "123" ++ [18, 6] ++ ascii "123456")⟩
    else if pData = [10, 13] ++ ascii "rpc.LoginInfo" ++ [18, 1, 10] then
      some ⟨ascii "rpc.LoginInfo", some [10]⟩
    else none
  FindMessageTypeByName name := if name = ascii "rpc.LoginInfo" then some name else none
  GetPrototype d := some (d, [])
  New m := m
  ParseFromArray m data :=
    ((m.1, data), decide (data = [10, 3] ++ ascii "123" ++ [18, 6] ++ ascii "123456"))
  GetDescriptor := Prod.fst

theorem lawful_loginInfo : loginInfo.Lawful where
  GetPrototype name d _ := ⟨(d, []), rfl, rfl⟩
  New _ := rfl
  ParseFromArray _ _ := rfl
  ParseRequest pData req h := by
    unfold loginInfo at h
    dsimp only at h
    split_ifs at h with hwhole hpart
    · obtain rfl := Option.some.inj h
      rw [hwhole]
      decide
    · obtain rfl := Option.some.inj h
      rw [hpart]
      decide
  FindMessageTypeByName name d h := by
    unfold loginInfo at h
    dsimp only at h
    split_ifs at h with hname
    rw [hname]
    decide

/-- The message parses, and is handed to the first of two callbacks. -/
theorem once_dispatch_iff_login_info :
    SeesParsed loginInfo [(ascii "rpc.LoginInfo", 1), (ascii "rpc.LoginOut", 2)] 0 1
      ([10, 13] ++ ascii "rpc.LoginInfo" ++ [18, 13, 10, 3] ++ ascii "123" ++ [18, 6]
        ++ ascii "123456") := by
  refine (once_dispatch_iff lawful_loginInfo _ _ _ _).mpr fun req d prototype hreq _ _ => ?_
  have hrequest : loginInfo.ParseRequest ([10, 13] ++ ascii "rpc.LoginInfo" ++ [18, 13, 10, 3]
      ++ ascii "123" ++ [18, 6] ++ ascii "123456") = some ⟨ascii "rpc.LoginInfo",
        some ([10, 3] ++ ascii "123" ++ [18, 6] ++ ascii "123456")⟩ := rfl
  obtain rfl := Option.some.inj (hrequest.symm.trans hreq)
  rfl

/-- It is not true that callbacks see parsed messages only: of the message there
is one byte. -/
theorem not_once_dispatch : ¬ ∀ (pb : Protobuf (List UInt8) (List UInt8 × List UInt8)),
    pb.Lawful → ∀ (regs : List (List UInt8 × ℕ)) (m_defaultCallback : ℕ) (lClientId : UInt32)
      (pData : List UInt8), SeesParsed pb regs m_defaultCallback lClientId pData := by
  intro h
  have hsees := h loginInfo lawful_loginInfo [(ascii "rpc.LoginInfo", 1)] 0 1
    ([10, 13] ++ ascii "rpc.LoginInfo" ++ [18, 1, 10])
  have hrequest : loginInfo.ParseRequest ([10, 13] ++ ascii "rpc.LoginInfo" ++ [18, 1, 10])
      = some ⟨ascii "rpc.LoginInfo", some [10]⟩ := rfl
  have hrefused := hsees.refused fun d m ⟨req, prototype, hreq, _, _, hm⟩ => by
    obtain rfl := Option.some.inj (hrequest.symm.trans hreq)
    have hfails : (loginInfo.ParseFromArray (loginInfo.New prototype) [10]).2 = false := rfl
    exact Bool.false_ne_true (hfails.symm.trans (congrArg Prod.snd hm))
  exact absurd (congrArg Prod.snd hrefused) (by decide)

end CMsgDispatcher
