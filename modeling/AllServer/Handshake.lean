import AllServer.Base64Encoder
import AllServer.SendPath

/-!
# The handshake

`CheckHttpPackkage` runs the HTTP parser over the received bytes with two
callbacks, which keep the name of the last header and the value of the last
header that is named `Sec-WebSocket-Key`. `RetHttpHandlerPackkage` appends the
magic string to that value, hashes it, encodes the digest, writes it into the
response and pushes that to the queue of the session. It does not look at what
`push` says, so the response to a correct request is lost where the queue is
full, and queued exactly where it has room (`Handshake.response_of_headers`).

All of this goes through fixed arrays, most of them static and shared by all
sessions: the two names and values, the digest, the chunk that `base64_encode`
writes to. The functions here are those of the source on these arrays, every
copy checked. `Heard` is what the callbacks know of a request. What they leave
in the arrays is that, and depends on nothing that the arrays held before, if
the first thing the parser reports is a name (`CheckHttpPackkage_eq`); and the
longest response fits (`length_acceptText_le`).

The parser and the hash are vendored; they are parameters.
-/

/-- A call of the HTTP parser on its settings. -/
inductive HttpCallback where
  | on_header_field (data : List UInt8)
  | on_header_value (data : List UInt8)

/-- **The static variables** of `CHttpParser`, `crypt_sha1` and
`base64_encode`. -/
structure Statics where
  header_key : MemBlock UInt8 64
  client_ws_key : MemBlock UInt8 128
  has_client_key : ℤ
  digest : MemBlock UInt8 20
  small_chunk_encode : MemBlock UInt8 SMALL_CHUNK

/-- The static variables when the program starts. -/
def Statics.init : Statics where
  header_key := MemBlock.zeros 64
  client_ws_key := MemBlock.zeros 128
  has_client_key := 0
  digest := MemBlock.zeros 20
  small_chunk_encode := MemBlock.zeros SMALL_CHUNK

/-- The arrays of a session. -/
structure HandshakeArrays where
  key_migic : MemBlock UInt8 256
  accept_buffer : MemBlock UInt8 256

/-- The remote endpoint of a socket, with an IPv4 address. -/
structure Endpoint where
  address : UInt8 × UInt8 × UInt8 × UInt8
  port : UInt16

/-- The address in dotted decimal. -/
def Endpoint.to_string : Endpoint → List UInt8
  | ⟨(a, b, c, d), _⟩ =>
    decimal a.toNat ++ ascii "." ++ decimal b.toNat ++ ascii "." ++ decimal c.toNat
      ++ ascii "." ++ decimal d.toNat

/-- `migic`. -/
def migic : List UInt8 := ascii "258EAFA5-E914-47DA-95CA-C5AB0DC85B11"

/-- `wb_accept`. -/
def wb_accept : List UInt8 :=
  ascii "HTTP/1.1 101 Switching Protocols\r\n" ++
  (ascii "Upgrade:websocket\r\n" ++
  (ascii "Connection: Upgrade\r\n" ++
  (ascii "Sec-WebSocket-Accept: %s\r\n" ++
  (ascii "WebSocket-Location: ws://%s:%d/chat\r\n" ++
  ascii "WebSocket-Protocol:chat\r\n\r\n"))))

/-- The name that `on_header_value` asks for. -/
def SEC_WEBSOCKET_KEY : List UInt8 := ascii "Sec-WebSocket-Key"

/-- **What is pushed as the response**, with the bytes that were hashed for
it. -/
structure Response where
  hashed : List UInt8
  pwebDataBuffer : CDataBuffer

/-! ## The code -/

namespace CHttpParser

/-- `CHttpParser::on_header_field`. -/
def on_header_field (data : List UInt8) (st : Statics) : Except Fault Statics := do
  let length := if data.length < 63 then data.length else 63
  let header_key ← st.header_key.strncpy data length
  let header_key ← header_key.store length [0]
  return { st with header_key }

/-- `CHttpParser::on_header_value`. -/
def on_header_value (data : List UInt8) (st : Statics) : Except Fault Statics := do
  if ¬ (← st.header_key.strcmp SEC_WEBSOCKET_KEY) then
    return st
  let length := if data.length < 127 then data.length else 127
  let client_ws_key ← st.client_ws_key.strncpy data length
  let client_ws_key ← client_ws_key.store length [0]
  return { st with client_ws_key, has_client_key := 1 }

end CHttpParser

/-- The callback that is called. -/
def HttpCallback.run (st : Statics) : HttpCallback → Except Fault Statics
  | .on_header_field data => CHttpParser.on_header_field data st
  | .on_header_value data => CHttpParser.on_header_value data st

namespace Handshake

/-- `CNetSession::CheckHttpPackkage`. -/
def CheckHttpPackkage (http_parser_execute : List UInt8 → List HttpCallback)
    (request : List UInt8) (st : Statics) : Except Fault (Statics × Bool) := do
  let st ← (http_parser_execute request).foldlM HttpCallback.run { st with has_client_key := 0 }
  return (st, decide (st.has_client_key ≠ 0))

/-- `CNetSession::RetHttpHandlerPackkage`, up to the push: the response in its
buffer. -/
def HttpHandlerPackkage (crypt_sha1 : List UInt8 → MemBlock UInt8 20)
    (remote_endpoint : Endpoint) (fresh : ℕ → UInt8) (st : Statics) :
    Except Fault (Statics × HandshakeArrays × Response) := do
  let key_migic ← (MemBlock.zeros 256).sprintf (ascii "%s%s")
    [.s (← st.client_ws_key.str), .s migic]
  let hashed ← key_migic.str
  let digest := crypt_sha1 hashed
  let (b64_str, base64_len, small_chunk_encode) ←
    base64_encode fresh digest.cells st.small_chunk_encode
  let key_migic ← key_migic.strncpy b64_str base64_len
  let key_migic ← key_migic.store base64_len [0]
  let accept_buffer ← (MemBlock.zeros 256).sprintf wb_accept
    [.s (← key_migic.str), .s remote_endpoint.to_string, .d remote_endpoint.port.toNat]
  let buffer ← accept_buffer.str
  let pwebDataBuffer ← CNetSession.responseBuffer fresh buffer
  return ({ st with digest, small_chunk_encode }, ⟨key_migic, accept_buffer⟩,
    ⟨hashed, pwebDataBuffer⟩)

/-- `CNetSession::RetHttpHandlerPackkage` of the session with this queue: the
response is pushed, what `push` returns is dropped, and `DoSend` is called.
Whoever queues a message may do so between two turns of its loop, so these are
steps of their own (`Sender.Step`); here it begins. -/
def RetHttpHandlerPackkage (crypt_sha1 : List UInt8 → MemBlock UInt8 20)
    (remote_endpoint : Endpoint) (fresh : ℕ → UInt8) (st : Statics) (q : Sender) :
    Except Fault (Statics × HandshakeArrays × Response × Sender) := do
  let (st, arrays, response) ← HttpHandlerPackkage crypt_sha1 remote_endpoint fresh st
  let (q, _) := q.push response.pwebDataBuffer
  return (st, arrays, response, q.begin)

end Handshake

/-! ## The response -/

/-- **The response** with this accept value. -/
def acceptText (accept : List UInt8) (e : Endpoint) : List UInt8 :=
  ascii "HTTP/1.1 101 Switching Protocols\r\n" ++
  (ascii "Upgrade:websocket\r\n" ++
  (ascii "Connection: Upgrade\r\n" ++
  (ascii "Sec-WebSocket-Accept: " ++ (accept ++ (ascii "\r\n" ++
  (ascii "WebSocket-Location: ws://" ++ (e.to_string ++ (ascii ":" ++
    (decimal e.port.toNat ++ (ascii "/chat\r\n" ++
  ascii "WebSocket-Protocol:chat\r\n\r\n"))))))))))

theorem nulFree_to_string (e : Endpoint) : NulFree e.to_string := by
  unfold Endpoint.to_string
  have hdot : NulFree (ascii ".") := by decide
  exact ((((((nulFree_decimal _).append hdot).append (nulFree_decimal _)).append
    hdot).append (nulFree_decimal _)).append hdot).append (nulFree_decimal _)

/-- An address has at most 15 characters. -/
theorem length_to_string_le (e : Endpoint) : e.to_string.length ≤ 15 := by
  have hbyte : ∀ b : UInt8, (decimal b.toNat).length ≤ 3 :=
    fun b => length_decimal_le (b.toNat_lt.trans (by decide))
  have hdot : (ascii ".").length = 1 := by decide
  obtain ⟨⟨a, b, c, d⟩, port⟩ := e
  have h₀ := hbyte a
  have h₁ := hbyte b
  have h₂ := hbyte c
  have h₃ := hbyte d
  unfold Endpoint.to_string
  simp only [List.length_append, hdot]
  omega

/-- **What `sprintf` makes of `wb_accept`.** -/
theorem format_wb_accept (accept : List UInt8) (e : Endpoint) :
    format wb_accept [.s accept, .s e.to_string, .d e.port.toNat] = acceptText accept e := by
  have hkey : ascii "Sec-WebSocket-Accept: %s\r\n"
      = ascii "Sec-WebSocket-Accept: " ++ 37 :: 115 :: ascii "\r\n" := by decide
  have hlocation : ascii "WebSocket-Location: ws://%s:%d/chat\r\n"
      = ascii "WebSocket-Location: ws://" ++ 37 :: 115 :: (ascii ":"
        ++ 37 :: 100 :: ascii "/chat\r\n") := by decide
  unfold wb_accept acceptText
  rw [hkey, hlocation, format_append (by decide), format_append (by decide),
    format_append (by decide), List.append_assoc, format_append (by decide)]
  simp only [List.cons_append, List.append_assoc, format]
  rw [format_append (by decide), format_append (by decide), format, format_append (by decide),
    format, format_append (by decide)]
  have hend : format (ascii "WebSocket-Protocol:chat\r\n\r\n") []
      = ascii "WebSocket-Protocol:chat\r\n\r\n" := by decide
  rw [hend]

/-- The response is a C string. -/
theorem nulFree_acceptText {accept : List UInt8} (h : NulFree accept) (e : Endpoint) :
    NulFree (acceptText accept e) := by
  have haddress := nulFree_to_string e
  have hport := nulFree_decimal e.port.toNat
  unfold acceptText
  exact NulFree.append (by decide) (NulFree.append (by decide) (NulFree.append (by decide)
    (NulFree.append (by decide) (h.append (NulFree.append (by decide)
      (NulFree.append (by decide) (haddress.append (NulFree.append (by decide)
        (hport.append (NulFree.append (by decide) (by decide)))))))))))

/-- **The longest response fits `accept_buffer`**: 158 bytes of text, 28 of the
key, 15 of the address and 5 of the port. -/
theorem length_acceptText_le {accept : List UInt8} (h : accept.length = 28) (e : Endpoint) :
    (acceptText accept e).length ≤ 206 := by
  have haddress := length_to_string_le e
  have hport : (decimal e.port.toNat).length ≤ 5 :=
    length_decimal_le (e.port.toNat_lt.trans (by decide))
  have h₁ : (ascii "HTTP/1.1 101 Switching Protocols\r\n").length = 34 := by decide
  have h₂ : (ascii "Upgrade:websocket\r\n").length = 19 := by decide
  have h₃ : (ascii "Connection: Upgrade\r\n").length = 21 := by decide
  have h₄ : (ascii "Sec-WebSocket-Accept: ").length = 22 := by decide
  have h₅ : (ascii "\r\n").length = 2 := by decide
  have h₆ : (ascii "WebSocket-Location: ws://").length = 25 := by decide
  have h₇ : (ascii ":").length = 1 := by decide
  have h₈ : (ascii "/chat\r\n").length = 7 := by decide
  have h₉ : (ascii "WebSocket-Protocol:chat\r\n\r\n").length = 27 := by decide
  unfold acceptText
  simp only [List.length_append, h, h₁, h₂, h₃, h₄, h₅, h₆, h₇, h₈, h₉]
  omega

namespace Handshake

variable {crypt_sha1 : List UInt8 → MemBlock UInt8 20} {st : Statics} {key : List UInt8}

/-- The accept value of a key. -/
def accept (crypt_sha1 : List UInt8 → MemBlock UInt8 20) (key : List UInt8) : List UInt8 :=
  Base64.encode (crypt_sha1 (key ++ migic)).cells

/-- A digest is written in 28 characters. -/
theorem length_accept (crypt_sha1 : List UInt8 → MemBlock UInt8 20) (key : List UInt8) :
    (accept crypt_sha1 key).length = 28 := by
  unfold accept
  rw [Base64.length_encode, (crypt_sha1 (key ++ migic)).length_cells]

/-- **The response to a key**: it is computed from the string that is in
`client_ws_key`, and from nothing else that is in the arrays. -/
theorem HttpHandlerPackkage_eq (crypt_sha1 : List UInt8 → MemBlock UInt8 20) (e : Endpoint)
    (fresh : ℕ → UInt8) (hkey : st.client_ws_key.str = .ok key) :
    ∃ st' arrays b, HttpHandlerPackkage crypt_sha1 e fresh st
        = .ok (st', arrays, ⟨key ++ migic, b⟩)
      ∧ CNetSession.responseBuffer fresh (acceptText (accept crypt_sha1 key) e) = .ok b
      ∧ b.content = acceptText (accept crypt_sha1 key) e
      ∧ arrays.key_migic.str = .ok (accept crypt_sha1 key)
      ∧ arrays.accept_buffer.str = .ok (acceptText (accept crypt_sha1 key) e) := by
  obtain ⟨hnul, hlt⟩ := MemBlock.nulFree_of_str hkey
  -- the key and the magic string are put together
  have hmigic : migic.length = 36 := by decide
  have hformat : format (ascii "%s%s") [.s key, .s migic] = key ++ migic := by
    have hfmt : ascii "%s%s" = [37, 115, 37, 115] := by decide
    rw [hfmt]
    simp only [format, List.append_nil]
  have hhashed : NulFree (key ++ migic) := hnul.append (by decide)
  obtain ⟨key_migic, hkm, hkms⟩ := (MemBlock.zeros 256).exists_sprintf
    (ascii "%s%s") [.s key, .s migic] (by rwa [hformat])
    (by rw [hformat, List.length_append]; omega)
  rw [hformat] at hkms
  -- the digest of them is written over them, in base64
  obtain ⟨b64_str, chunk, hb64, hcstr⟩ :=
    base64_encode_eq fresh (crypt_sha1 (key ++ migic)).cells st.small_chunk_encode
  rw [show Base64.encode (crypt_sha1 (key ++ migic)).cells = accept crypt_sha1 key from rfl]
    at hb64 hcstr
  have hlen := length_accept crypt_sha1 key
  have hstrncpy := key_migic.exists_strncpy b64_str (show (accept crypt_sha1 key).length < 256 by
    rw [hlen]
    decide)
  obtain ⟨key₁, key₂, hkey₁, hkey₂, hkey₂s⟩ := hstrncpy
  rw [hcstr, List.take_length] at hkey₂s
  -- the text of the response has room in its array
  have htext := length_acceptText_le hlen e
  have hnultext : NulFree (acceptText (accept crypt_sha1 key) e) :=
    nulFree_acceptText (Base64.nulFree_encode _) e
  have hfmt := format_wb_accept (accept crypt_sha1 key) e
  obtain ⟨accept_buffer, hab, habs⟩ := (MemBlock.zeros 256).exists_sprintf
    wb_accept [.s (accept crypt_sha1 key), .s e.to_string, .d e.port.toNat]
    (by rwa [hfmt]) (by rw [hfmt]; omega)
  rw [hfmt] at habs
  obtain ⟨b, hb, -, hcontent⟩ := CNetSession.responseBuffer_eq_ok fresh
    (acceptText (accept crypt_sha1 key) e) (by rw [MAX_PKG_SIZE_eq]; omega)
  refine ⟨{ st with digest := crypt_sha1 (key ++ migic), small_chunk_encode := chunk },
    ⟨key₂, accept_buffer⟩, b, ?_, hb, hcontent, hkey₂s, habs⟩
  exact bind_eq_ok.mpr ⟨key, hkey, bind_eq_ok.mpr ⟨key_migic, hkm,
    bind_eq_ok.mpr ⟨key ++ migic, hkms, bind_eq_ok.mpr ⟨_, hb64,
      bind_eq_ok.mpr ⟨key₁, hkey₁, bind_eq_ok.mpr ⟨key₂, hkey₂, bind_eq_ok.mpr ⟨_, hkey₂s,
        bind_eq_ok.mpr ⟨accept_buffer, hab, bind_eq_ok.mpr ⟨_, habs,
          bind_eq_ok.mpr ⟨b, hb, rfl⟩⟩⟩⟩⟩⟩⟩⟩⟩⟩

end Handshake

/-! ## What the callbacks leave -/

/-- **What has been heard of a request**: the name of the last header, and the
value of the last one that is named `Sec-WebSocket-Key`, both as they are
cut. -/
structure Heard where
  name : Option (List UInt8)
  key : Option (List UInt8)

namespace Heard

/-- What is known after one more call. -/
def next (h : Heard) : HttpCallback → Heard
  | .on_header_field data => { h with name := some ((cstr data).take 63) }
  | .on_header_value data =>
    if h.name = some SEC_WEBSOCKET_KEY then { h with key := some ((cstr data).take 127) } else h

/-- The arrays hold what has been heard; what they held before is only in those
that nothing has been heard for. -/
structure In (h : Heard) (st : Statics) : Prop where
  name : ∀ name, h.name = some name → st.header_key.str = .ok name
  key : ∀ key, h.key = some key → st.client_ws_key.str = .ok key
  has_client_key : st.has_client_key ≠ 0 ↔ h.key.isSome = true

variable {h : Heard} {st : Statics}

/-- A cut at `n` is one at the shorter of the two. -/
theorem take_cstr_min (data : List UInt8) (n : ℕ) :
    (cstr data).take (if data.length < n then data.length else n) = (cstr data).take n := by
  have hle : (cstr data).length ≤ data.length := (List.takeWhile_prefix _).length_le
  split_ifs with hlt
  · rw [List.take_of_length_le hle, List.take_of_length_le (by omega)]
  · rfl

theorem In.on_header_field (hin : h.In st) (data : List UInt8) :
    ∃ st', CHttpParser.on_header_field data st = .ok st'
      ∧ (h.next (.on_header_field data)).In st' := by
  obtain ⟨b₁, b₂, hb₁, hb₂, hstr⟩ := st.header_key.exists_strncpy data
    (show (if data.length < 63 then data.length else 63) < 64 by split_ifs <;> omega)
  rw [take_cstr_min] at hstr
  refine ⟨{ st with header_key := b₂ },
    bind_eq_ok.mpr ⟨b₁, hb₁, bind_eq_ok.mpr ⟨b₂, hb₂, rfl⟩⟩, ?_, hin.key, hin.has_client_key⟩
  intro name hname
  obtain rfl := Option.some.inj hname
  exact hstr

/-- A value is looked at when a name has been heard in front of it. -/
theorem In.on_header_value (hin : h.In st) (hname : h.name.isSome = true) (data : List UInt8) :
    ∃ st', CHttpParser.on_header_value data st = .ok st'
      ∧ (h.next (.on_header_value data)).In st' := by
  obtain ⟨name, hname⟩ := Option.isSome_iff_exists.mp hname
  have hstrcmp : st.header_key.strcmp SEC_WEBSOCKET_KEY
      = .ok (decide (name = SEC_WEBSOCKET_KEY)) :=
    bind_eq_ok.mpr ⟨name, hin.name name hname, rfl⟩
  by_cases hkey : name = SEC_WEBSOCKET_KEY
  · obtain ⟨b₁, b₂, hb₁, hb₂, hstr⟩ := st.client_ws_key.exists_strncpy data
      (show (if data.length < 127 then data.length else 127) < 128 by split_ifs <;> omega)
    rw [take_cstr_min] at hstr
    rw [decide_eq_true hkey] at hstrcmp
    refine ⟨{ st with client_ws_key := b₂, has_client_key := 1 },
      bind_eq_ok.mpr ⟨true, hstrcmp, bind_eq_ok.mpr ⟨b₁, hb₁, bind_eq_ok.mpr ⟨b₂, hb₂, rfl⟩⟩⟩, ?_⟩
    rw [next, if_pos (hname.trans (congrArg some hkey))]
    refine ⟨hin.name, fun key heq => ?_, by simp⟩
    obtain rfl := Option.some.inj heq
    exact hstr
  · rw [decide_eq_false hkey] at hstrcmp
    refine ⟨st, bind_eq_ok.mpr ⟨false, hstrcmp, rfl⟩, ?_⟩
    rwa [next, if_neg (fun heq => hkey (Option.some.inj (hname.symm.trans heq)))]

/-- **One call leaves in the arrays what has been heard with it.** -/
theorem In.run (hin : h.In st) (c : HttpCallback)
    (hname : h.name.isSome = true ∨ ∃ data, c = .on_header_field data) :
    ∃ st', c.run st = .ok st' ∧ (h.next c).In st' := by
  cases c with
  | on_header_field data => exact hin.on_header_field data
  | on_header_value data =>
    rcases hname with hname | ⟨_, hc⟩
    · exact hin.on_header_value hname data
    · exact absurd hc (by simp)

/-- A name that has been heard is not forgotten. -/
theorem isSome_name_next (hname : h.name.isSome = true) (c : HttpCallback) :
    (h.next c).name.isSome = true := by
  cases c with
  | on_header_field data => rfl
  | on_header_value data =>
    unfold next
    dsimp only
    split_ifs
    · exact hname
    · exact hname

/-- So do all calls after a name. -/
theorem In.foldlM (hin : h.In st) (hname : h.name.isSome = true) (calls : List HttpCallback) :
    ∃ st', calls.foldlM HttpCallback.run st = .ok st' ∧ (calls.foldl next h).In st' := by
  induction calls generalizing h st with
  | nil => exact ⟨st, rfl, hin⟩
  | cons c calls ih =>
    obtain ⟨st₁, hst₁, hin₁⟩ := hin.run c (.inl hname)
    obtain ⟨st₂, hst₂, hin₂⟩ := ih hin₁ (isSome_name_next hname c)
    exact ⟨st₂, bind_eq_ok.mpr ⟨st₁, hst₁, hst₂⟩, hin₂⟩

end Heard

/-- **What is heard of a request.** -/
def heard (calls : List HttpCallback) : Heard := calls.foldl Heard.next ⟨none, none⟩

/-- **The parser reports a name first**: no value comes in front of all
names. -/
def NameFirst (calls : List HttpCallback) : Prop :=
  ∀ data, calls.head? ≠ some (.on_header_value data)

namespace Handshake

/-- **`CheckHttpPackkage` on any arrays**: the verdict is whether a key has been
heard, and the arrays hold what has. -/
theorem CheckHttpPackkage_eq {http_parser_execute : List UInt8 → List HttpCallback}
    {request : List UInt8} (hfirst : NameFirst (http_parser_execute request)) (st : Statics) :
    ∃ st', CheckHttpPackkage http_parser_execute request st
        = .ok (st', (heard (http_parser_execute request)).key.isSome)
      ∧ (heard (http_parser_execute request)).In st' := by
  have hstart : (⟨none, none⟩ : Heard).In { st with has_client_key := 0 } :=
    ⟨by simp, by simp, by simp⟩
  have hfold : ∃ st', (http_parser_execute request).foldlM HttpCallback.run
        { st with has_client_key := 0 } = .ok st'
      ∧ (heard (http_parser_execute request)).In st' := by
    unfold heard
    cases hcalls : http_parser_execute request with
    | nil => exact ⟨_, rfl, hstart⟩
    | cons c calls =>
      rw [hcalls] at hfirst
      cases c with
      | on_header_value data => exact absurd rfl (hfirst data)
      | on_header_field data =>
        obtain ⟨st₁, hst₁, hin₁⟩ := hstart.on_header_field data
        obtain ⟨st₂, hst₂, hin₂⟩ := hin₁.foldlM rfl calls
        exact ⟨st₂, bind_eq_ok.mpr ⟨st₁, hst₁, hst₂⟩, hin₂⟩
  obtain ⟨st', hst', hin⟩ := hfold
  refine ⟨st', bind_eq_ok.mpr ⟨st', hst', ?_⟩, hin⟩
  rw [Bool.eq_iff_iff.mpr (decide_eq_true_iff.trans hin.has_client_key)]
  rfl

end Handshake

/-! ## A complete request -/

/-- What the parser reports of a list of headers. -/
def report (headers : List (List UInt8 × List UInt8)) : List HttpCallback :=
  headers.flatMap (fun h => [.on_header_field h.1, .on_header_value h.2])

theorem nameFirst_report (headers : List (List UInt8 × List UInt8)) :
    NameFirst (report headers) := by
  cases headers with
  | nil => intro data hdata; exact absurd hdata (by simp [report])
  | cons h headers => intro data hdata; exact absurd hdata (by simp [report])

/-- A name that is cut is not mistaken for the key's. -/
theorem take_eq_SEC_WEBSOCKET_KEY {name : List UInt8} :
    name.take 63 = SEC_WEBSOCKET_KEY ↔ name = SEC_WEBSOCKET_KEY := by
  have hlen : SEC_WEBSOCKET_KEY.length = 17 := by decide
  constructor
  · intro h
    have hmin := congrArg List.length h
    rw [List.length_take, hlen] at hmin
    rwa [List.take_of_length_le (by omega)] at h
  · rintro rfl
    exact List.take_of_length_le (by omega)

/-- **The key of a request is the value of the last header of that name**, cut
to 127 bytes. -/
theorem key_heard_report {headers : List (List UInt8 × List UInt8)}
    (hnul : ∀ h ∈ headers, NulFree h.1 ∧ NulFree h.2) :
    (heard (report headers)).key
      = (headers.reverse.find? (fun h => h.1 = SEC_WEBSOCKET_KEY)).map (fun h => h.2.take 127) := by
  induction headers using List.reverseRecOn with
  | nil => rfl
  | append_singleton headers h ih =>
    obtain ⟨hname, hvalue⟩ := hnul h (by simp)
    have hlast : heard (report (headers ++ [h]))
        = ((heard (report headers)).next (.on_header_field h.1)).next (.on_header_value h.2) := by
      simp [heard, report]
    have hrest := ih (fun h' hmem => hnul h' (List.mem_append_left [h] hmem))
    rw [hlast, List.reverse_append, List.reverse_singleton, List.singleton_append]
    simp only [Heard.next, cstr_of_nulFree hname, cstr_of_nulFree hvalue, Option.some.injEq,
      take_eq_SEC_WEBSOCKET_KEY]
    split_ifs with hkey
    · rw [List.find?_cons_of_pos (by simpa using hkey)]
      rfl
    · rw [List.find?_cons_of_neg (by simpa using hkey)]
      exact hrest

namespace Handshake

/-- **The response is queued**: behind what was queued before there is one
buffer more, and it holds this text and nothing else. -/
def Queues (q q' : Sender) (text : List UInt8) : Prop :=
  ∃ b : CDataBuffer, q'.lockfree_queue = q.lockfree_queue ++ [b] ∧ b.content = text

/-- **A response is queued exactly where there is room for it.** -/
theorem queues_push_iff {b : CDataBuffer} {text : List UInt8} (h : b.content = text)
    (q : Sender) :
    Queues q (q.push b).1.begin text ↔ q.lockfree_queue.length < QUEUE_CAPACITY := by
  unfold Queues Sender.push
  split_ifs with hroom
  · exact iff_of_true ⟨b, rfl, h⟩ hroom
  · refine iff_of_false ?_ hroom
    rintro ⟨b', hqueue, -⟩
    have hlen := congrArg List.length hqueue
    rw [List.length_append, List.length_singleton] at hlen
    exact absurd hlen (Nat.succ_ne_self _).symm

/-- **What `RetHttpHandlerPackkage` does to the queue is the step of the send
path** that is called a response there: the I/O thread is not in `DoSend` when
it handles a read. -/
theorem RetHttpHandlerPackkage_step {e : Endpoint} {fresh : ℕ → UInt8} {st' : Statics}
    {arrays : HandshakeArrays} {response : Response} {q q' : Sender}
    (hidle : q.running = none) (hkey : st.client_ws_key.str = .ok key)
    (h : RetHttpHandlerPackkage crypt_sha1 e fresh st q = .ok (st', arrays, response, q')) :
    ∃ calls, Sender.Step q (.response fresh (acceptText (accept crypt_sha1 key) e)) calls q' := by
  obtain ⟨st₁, arrays₁, b, hret, hb, -⟩ := HttpHandlerPackkage_eq crypt_sha1 e fresh hkey
  obtain ⟨⟨st₂, arrays₂, response₂⟩, hret₂, h⟩ := bind_eq_ok.mp h
  obtain ⟨rfl, hrest⟩ := Prod.mk.inj (Except.ok.inj (hret.symm.trans hret₂))
  obtain ⟨rfl, rfl⟩ := Prod.mk.inj hrest
  obtain ⟨-, h⟩ := Prod.mk.inj (Except.ok.inj h)
  obtain ⟨-, h⟩ := Prod.mk.inj h
  obtain ⟨-, rfl⟩ := Prod.mk.inj h
  have hlen := length_acceptText_le (length_accept crypt_sha1 key) e
  exact ⟨_, .response hidle (by omega) hb⟩

/-- **The handshake**: a complete request is taken exactly if it has a header
named `Sec-WebSocket-Key`, and the response is the one to the value of the last
such header, cut to 127 bytes. No write runs over an array, whatever the arrays
held before, and what is written ends in a NUL. All of this holds of every
queue; but the response gets into the queue only if `push` finds room there,
since nothing is done where it does not. -/
theorem response_of_headers (http_parser_execute : List UInt8 → List HttpCallback)
    (crypt_sha1 : List UInt8 → MemBlock UInt8 20) (request : List UInt8)
    (headers : List (List UInt8 × List UInt8))
    (hnul : ∀ h ∈ headers, NulFree h.1 ∧ NulFree h.2)
    (hreport : http_parser_execute request = report headers)
    (e : Endpoint) (fresh : ℕ → UInt8) (st : Statics) (q : Sender) :
    ∃ st' ok, CheckHttpPackkage http_parser_execute request st = .ok (st', ok)
      ∧ (ok = true ↔ ∃ h ∈ headers, h.1 = SEC_WEBSOCKET_KEY)
      ∧ ∀ pre k post, headers = pre ++ (SEC_WEBSOCKET_KEY, k) :: post →
        (∀ h ∈ post, h.1 ≠ SEC_WEBSOCKET_KEY) →
        st'.client_ws_key.str = .ok (k.take 127)
        ∧ ∃ st'' arrays b q', RetHttpHandlerPackkage crypt_sha1 e fresh st' q
            = .ok (st'', arrays, ⟨k.take 127 ++ migic, b⟩, q')
          ∧ arrays.key_migic.str = .ok (accept crypt_sha1 (k.take 127))
          ∧ arrays.accept_buffer.str = .ok (acceptText (accept crypt_sha1 (k.take 127)) e)
          ∧ b.content = acceptText (accept crypt_sha1 (k.take 127)) e
          ∧ (Queues q q' (acceptText (accept crypt_sha1 (k.take 127)) e)
            ↔ q.lockfree_queue.length < QUEUE_CAPACITY) := by
  have hfirst : NameFirst (http_parser_execute request) := hreport ▸ nameFirst_report headers
  obtain ⟨st', hst', hin⟩ := CheckHttpPackkage_eq hfirst st
  have hkey := key_heard_report hnul
  rw [hreport] at hst' hin
  refine ⟨st', _, hst', ?_, fun pre k post hheaders hpost => ?_⟩
  · rw [hkey, Option.isSome_map, List.find?_isSome]
    simp
  · have hlast : headers.reverse.find? (fun h => h.1 = SEC_WEBSOCKET_KEY)
        = some (SEC_WEBSOCKET_KEY, k) := by
      rw [hheaders, List.reverse_append, List.reverse_cons, List.append_assoc, List.find?_append,
        List.find?_eq_none.mpr (by simpa using hpost)]
      rfl
    rw [hlast] at hkey
    have hstr := hin.key _ hkey
    obtain ⟨st'', arrays, b, hret, -, hcontent, hmigic, haccept⟩ :=
      HttpHandlerPackkage_eq crypt_sha1 e fresh hstr
    exact ⟨hstr, st'', arrays, b, _, bind_eq_ok.mpr ⟨_, hret, rfl⟩, hmigic, haccept, hcontent,
      queues_push_iff hcontent q⟩

/-- A request with two keys, of which the last one counts, on a session that has
not sent anything. -/
theorem response_of_headers_two :
    ∃ st' st'' arrays b q',
      CheckHttpPackkage (fun _ => report [(SEC_WEBSOCKET_KEY, ascii "old"),
        (SEC_WEBSOCKET_KEY, ascii "dGhlIHNhbXBsZSBub25jZQ==")])
        (ascii "GET /chat HTTP/1.1\r\nSec-WebSocket-Key: old\r\n"
          ++ ascii "Sec-WebSocket-Key: dGhlIHNhbXBsZSBub25jZQ==\r\n\r\n") Statics.init
        = .ok (st', true)
      ∧ RetHttpHandlerPackkage (fun _ => ⟨[179, 122, 79, 44, 192, 98, 79, 22, 144, 246, 70, 6, 207,
          56, 89, 69, 178, 190, 196, 234], rfl⟩) ⟨(127, 0, 0, 1), 80⟩ (fun _ => 205) st' .new
        = .ok (st'', arrays, b, q')
      ∧ Queues .new q' (acceptText (ascii "s3pPLMBiTxaQ9kYGzzhZRbK+xOo=")
        ⟨(127, 0, 0, 1), 80⟩) := by
  obtain ⟨st', ok, hst', hok, hlast⟩ := response_of_headers
    (fun _ => report [(SEC_WEBSOCKET_KEY, ascii "old"),
      (SEC_WEBSOCKET_KEY, ascii "dGhlIHNhbXBsZSBub25jZQ==")])
    (fun _ => ⟨[179, 122, 79, 44, 192, 98, 79, 22, 144, 246, 70, 6, 207, 56, 89, 69, 178, 190,
      196, 234], rfl⟩)
    (ascii "GET /chat HTTP/1.1\r\nSec-WebSocket-Key: old\r\n"
      ++ ascii "Sec-WebSocket-Key: dGhlIHNhbXBsZSBub25jZQ==\r\n\r\n")
    [(SEC_WEBSOCKET_KEY, ascii "old"), (SEC_WEBSOCKET_KEY, ascii "dGhlIHNhbXBsZSBub25jZQ==")]
    (by decide) rfl ⟨(127, 0, 0, 1), 80⟩ (fun _ => 205) Statics.init .new
  obtain rfl := hok.mpr ⟨_, List.mem_cons_self, rfl⟩
  obtain ⟨-, st'', arrays, b, q', hret, -, -, -, hqueues⟩ :=
    hlast [(SEC_WEBSOCKET_KEY, ascii "old")] (ascii "dGhlIHNhbXBsZSBub25jZQ==") [] rfl (by simp)
  refine ⟨st', st'', arrays, _, q', hst', hret, ?_⟩
  have haccept : accept (fun _ => ⟨[179, 122, 79, 44, 192, 98, 79, 22, 144, 246, 70, 6, 207, 56,
      89, 69, 178, 190, 196, 234], rfl⟩) ((ascii "dGhlIHNhbXBsZSBub25jZQ==").take 127)
      = ascii "s3pPLMBiTxaQ9kYGzzhZRbK+xOo=" := by decide
  rw [← haccept]
  exact hqueues.mpr (by decide)

/-- **The response is lost** where 40000 messages have been queued for the session
before its request is read. -/
theorem response_of_headers_full :
    ∃ es outs q st' st'' arrays b q', Run Sender.Step .new es outs q
      ∧ CheckHttpPackkage (fun _ => report [(SEC_WEBSOCKET_KEY,
          ascii "dGhlIHNhbXBsZSBub25jZQ==")])
        (ascii "GET /chat HTTP/1.1\r\nSec-WebSocket-Key: dGhlIHNhbXBsZSBub25jZQ==\r\n\r\n")
        Statics.init = .ok (st', true)
      ∧ RetHttpHandlerPackkage (fun _ => MemBlock.zeros 20) ⟨(127, 0, 0, 1), 80⟩ (fun _ => 205)
          st' q = .ok (st'', arrays, b, q')
      ∧ ¬ Queues q q' (acceptText (accept (fun _ => MemBlock.zeros 20)
          (ascii "dGhlIHNhbXBsZSBub25jZQ==")) ⟨(127, 0, 0, 1), 80⟩) := by
  obtain ⟨m, hm⟩ := CNetManager.exists_messageBuffer (m := .empty) (by decide)
  obtain ⟨outs, q, hfill, hfull⟩ : ∃ outs q, Run Sender.Step .new
      (List.replicate QUEUE_CAPACITY (.SendMessageData .empty)) outs q
      ∧ q.lockfree_queue.length = QUEUE_CAPACITY := by
    obtain ⟨outs, hfill⟩ := Sender.exists_run_fill (s := .new) hm QUEUE_CAPACITY
      (by simp [Sender.new])
    exact ⟨outs, _, hfill, List.length_replicate⟩
  obtain ⟨st', hst', hin⟩ : ∃ st', CheckHttpPackkage (fun _ => report [(SEC_WEBSOCKET_KEY,
        ascii "dGhlIHNhbXBsZSBub25jZQ==")])
      (ascii "GET /chat HTTP/1.1\r\nSec-WebSocket-Key: dGhlIHNhbXBsZSBub25jZQ==\r\n\r\n")
      Statics.init = .ok (st', true)
      ∧ (heard (report [(SEC_WEBSOCKET_KEY, ascii "dGhlIHNhbXBsZSBub25jZQ==")])).In st' :=
    CheckHttpPackkage_eq (nameFirst_report _) Statics.init
  have hstr := hin.key (ascii "dGhlIHNhbXBsZSBub25jZQ==") (by decide)
  obtain ⟨st'', arrays, b, hret, -, hcontent, -⟩ := HttpHandlerPackkage_eq
    (fun _ => MemBlock.zeros 20) ⟨(127, 0, 0, 1), 80⟩ (fun _ => 205) hstr
  refine ⟨_, outs, q, st', st'', arrays, _, _, hfill, hst', bind_eq_ok.mpr ⟨_, hret, rfl⟩,
    fun hqueues => ?_⟩
  exact absurd ((queues_push_iff hcontent q).mp hqueues) (by omega)

end Handshake
