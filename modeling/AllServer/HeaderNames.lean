import AllServer.Handshake
import Mathlib.Data.List.Forall2

/-!
# The case of header names

The names of HTTP headers are the same whatever the case of their letters.
`on_header_value` compares them with `strcmp`, so a key is heard under one
spelling only. Two requests that differ in the case of header names are
answered alike exactly if, as far as headers with that very spelling go, they
have the same key (`Handshake.same_response_iff`).
-/

/-- A letter in lower case. -/
def lower (c : UInt8) : UInt8 := if 65 ≤ c ∧ c ≤ 90 then c + 32 else c

/-- **Two headers are the same** but for the case of the letters of their
names. -/
structure SameHeader (h h' : List UInt8 × List UInt8) : Prop where
  name : h.1.map lower = h'.1.map lower
  value : h.2 = h'.2

/-- **The key under its usual spelling**: the value of the last header that is
spelled so. -/
def spelledKey (headers : List (List UInt8 × List UInt8)) : Option (List UInt8) :=
  (headers.reverse.find? (fun h => h.1 = SEC_WEBSOCKET_KEY)).map Prod.snd

/-- The case of a letter does not make it a NUL. -/
theorem lower_eq_zero {c : UInt8} : lower c = 0 ↔ c = 0 := by
  unfold lower
  split_ifs with hc
  · have hle : c.toNat ≤ 90 := UInt8.le_iff_toNat_le.mp hc.2
    have hge : 65 ≤ c.toNat := UInt8.le_iff_toNat_le.mp hc.1
    refine iff_of_false (fun h => ?_) (fun h => ?_)
    · have h' := congrArg UInt8.toNat h
      rw [UInt8.toNat_add, Nat.mod_eq_of_lt (show c.toNat + (32 : UInt8).toNat < 2 ^ 8 from
        Nat.lt_of_le_of_lt (Nat.add_le_add_right hle 32) (by decide))] at h'
      exact absurd (show c.toNat + 32 = 0 from h') (by omega)
    · rw [h] at hge
      exact absurd hge (by decide)
  · rfl

theorem nulFree_map_lower {s : List UInt8} : NulFree (s.map lower) ↔ NulFree s := by
  unfold NulFree
  simp only [List.mem_map, lower_eq_zero, exists_eq_right]

/-- **The headers are C strings** whatever the case of their names. -/
theorem nulFree_of_forall₂ {headers headers' : List (List UInt8 × List UInt8)}
    (hcase : List.Forall₂ SameHeader headers headers')
    (hnul : ∀ h ∈ headers, NulFree h.1 ∧ NulFree h.2) :
    ∀ h ∈ headers', NulFree h.1 ∧ NulFree h.2 := by
  induction hcase with
  | nil => exact hnul
  | cons hsame _ ih =>
    obtain ⟨⟨hname, hvalue⟩, hrest⟩ := List.forall_mem_cons.mp hnul
    rw [← nulFree_map_lower, hsame.name, nulFree_map_lower] at hname
    exact List.forall_mem_cons.mpr ⟨⟨hname, hsame.value ▸ hvalue⟩, ih hrest⟩

namespace Handshake

variable (http_parser_execute : List UInt8 → List HttpCallback)
variable (crypt_sha1 : List UInt8 → MemBlock UInt8 20)

/-- **Two requests are answered alike**, whatever the arrays held before: the
verdict is the same, and if they are taken, so are the key and the response. -/
def SameResponse (request request' : List UInt8) : Prop :=
  ∀ (st st' : Statics) (e : Endpoint) (fresh fresh' : ℕ → UInt8), ∃ st₁ st₁' ok,
    CheckHttpPackkage http_parser_execute request st = .ok (st₁, ok)
      ∧ CheckHttpPackkage http_parser_execute request' st' = .ok (st₁', ok)
      ∧ (ok = true → ∃ key st₂ st₂' arrays arrays' b b',
        st₁.client_ws_key.str = .ok key ∧ st₁'.client_ws_key.str = .ok key
          ∧ HttpHandlerPackkage crypt_sha1 e fresh st₁ = .ok (st₂, arrays, b)
          ∧ HttpHandlerPackkage crypt_sha1 e fresh' st₁' = .ok (st₂', arrays', b')
          ∧ b.pwebDataBuffer.content = b'.pwebDataBuffer.content)

variable {http_parser_execute crypt_sha1} {request request' : List UInt8}
variable {headers headers' : List (List UInt8 × List UInt8)}

/-- What `CheckHttpPackkage` makes of a list of headers: the key it keeps is the
one that is spelled as usual, cut to 127 bytes. -/
theorem CheckHttpPackkage_report (hnul : ∀ h ∈ headers, NulFree h.1 ∧ NulFree h.2)
    (hreport : http_parser_execute request = report headers) (st : Statics) :
    ∃ st', CheckHttpPackkage http_parser_execute request st
        = .ok (st', (spelledKey headers).isSome)
      ∧ ∀ key, spelledKey headers = some key → st'.client_ws_key.str = .ok (key.take 127) := by
  have hfirst : NameFirst (http_parser_execute request) := hreport ▸ nameFirst_report headers
  obtain ⟨st', hst', hin⟩ := CheckHttpPackkage_eq hfirst st
  have hkey : (heard (report headers)).key = (spelledKey headers).map (List.take 127) := by
    rw [key_heard_report hnul, spelledKey, Option.map_map]
    rfl
  rw [hreport] at hst' hin
  rw [hkey, Option.isSome_map] at hst'
  refine ⟨st', hst', fun key hsome => hin.key _ ?_⟩
  rw [hkey, hsome]
  rfl

/-- **Requests that are answered alike** have the same key under its usual
spelling, as far as it is kept. -/
theorem SameResponse.take_spelledKey (hnul : ∀ h ∈ headers, NulFree h.1 ∧ NulFree h.2)
    (hnul' : ∀ h ∈ headers', NulFree h.1 ∧ NulFree h.2)
    (hreport : http_parser_execute request = report headers)
    (hreport' : http_parser_execute request' = report headers')
    (hsame : SameResponse http_parser_execute crypt_sha1 request request') :
    (spelledKey headers).map (List.take 127) = (spelledKey headers').map (List.take 127) := by
  obtain ⟨st₁, st₁', ok, hst₁, hst₁', hkeys⟩ :=
    hsame .init .init ⟨(127, 0, 0, 1), 80⟩ (fun _ => 0) (fun _ => 0)
  obtain ⟨st, hst, hkey⟩ := CheckHttpPackkage_report hnul hreport .init
  obtain ⟨st', hst', hkey'⟩ := CheckHttpPackkage_report hnul' hreport' .init
  obtain ⟨rfl, rfl⟩ := Prod.mk.inj (Except.ok.inj (hst₁.symm.trans hst))
  obtain ⟨rfl, hok⟩ := Prod.mk.inj (Except.ok.inj (hst₁'.symm.trans hst'))
  cases hsome : spelledKey headers with
  | none =>
    rw [hsome] at hok
    have hnone : spelledKey headers' = none :=
      Option.not_isSome_iff_eq_none.mp (hok ▸ Bool.false_ne_true)
    rw [hnone]
  | some key =>
    rw [hsome] at hok
    obtain ⟨key', hsome'⟩ := Option.isSome_iff_exists.mp hok.symm
    obtain ⟨k, -, -, -, -, -, -, hk, hk', -⟩ := hkeys (by rw [hsome]; rfl)
    have hcut := Except.ok.inj ((hkey key hsome).symm.trans hk)
    have hcut' := Except.ok.inj ((hkey' key' hsome').symm.trans hk')
    rw [hsome', Option.map_some, Option.map_some, hcut, hcut']

/-- **Requests that differ in the case of header names are answered alike**
exactly if neither has a header that is spelled `Sec-WebSocket-Key`, or both do
and the last ones that are have the same value, as far as its first 127 bytes
go. -/
theorem same_response_iff (http_parser_execute : List UInt8 → List HttpCallback)
    (crypt_sha1 : List UInt8 → MemBlock UInt8 20) (request request' : List UInt8)
    (headers headers' : List (List UInt8 × List UInt8))
    (hreport : http_parser_execute request = report headers)
    (hreport' : http_parser_execute request' = report headers')
    (hnul : ∀ h ∈ headers, NulFree h.1 ∧ NulFree h.2)
    (hcase : List.Forall₂ SameHeader headers headers') :
    SameResponse http_parser_execute crypt_sha1 request request'
      ↔ (spelledKey headers).map (List.take 127) = (spelledKey headers').map (List.take 127) := by
  have hnul' := nulFree_of_forall₂ hcase hnul
  refine ⟨SameResponse.take_spelledKey hnul hnul' hreport hreport', fun hcut => ?_⟩
  intro st st' e fresh fresh'
  obtain ⟨st₁, hst₁, hkey⟩ := CheckHttpPackkage_report hnul hreport st
  obtain ⟨st₁', hst₁', hkey'⟩ := CheckHttpPackkage_report hnul' hreport' st'
  have hok : (spelledKey headers').isSome = (spelledKey headers).isSome := by
    have h := congrArg Option.isSome hcut
    rw [Option.isSome_map, Option.isSome_map] at h
    exact h.symm
  rw [hok] at hst₁'
  refine ⟨st₁, st₁', _, hst₁, hst₁', fun hsome => ?_⟩
  obtain ⟨key, hk⟩ := Option.isSome_iff_exists.mp hsome
  obtain ⟨key', hk'⟩ := Option.isSome_iff_exists.mp (hok.trans hsome)
  rw [hk, hk', Option.map_some, Option.map_some, Option.some.injEq] at hcut
  have hstr := hkey key hk
  have hstr' := hkey' key' hk'
  rw [← hcut] at hstr'
  -- the response depends on the key only
  obtain ⟨st₂, arrays, b, hret, -, hcontent, -⟩ :=
    HttpHandlerPackkage_eq crypt_sha1 e fresh hstr
  obtain ⟨st₂', arrays', b', hret', -, hcontent', -⟩ :=
    HttpHandlerPackkage_eq crypt_sha1 e fresh' hstr'
  exact ⟨_, st₂, st₂', arrays, arrays', _, _, hstr, hstr', hret, hret',
    hcontent.trans hcontent'.symm⟩

/-- A parser of two requests. -/
theorem exists_http_parser_execute (hne : request' ≠ request)
    (headers headers' : List (List UInt8 × List UInt8)) :
    ∃ http_parser_execute : List UInt8 → List HttpCallback,
      http_parser_execute request = report headers
        ∧ http_parser_execute request' = report headers' :=
  ⟨fun r => if r = request then _ else _, if_pos rfl, if_neg hne⟩

/-- Two requests that spell another name differently. -/
theorem same_response_iff_upgrade : ∃ http_parser_execute request request',
    http_parser_execute request
        = report [(ascii "Upgrade", ascii "websocket"),
          (SEC_WEBSOCKET_KEY, ascii "dGhlIHNhbXBsZSBub25jZQ==")]
      ∧ http_parser_execute request'
        = report [(ascii "upgrade", ascii "websocket"),
          (SEC_WEBSOCKET_KEY, ascii "dGhlIHNhbXBsZSBub25jZQ==")]
      ∧ SameResponse http_parser_execute (fun _ => ⟨[179, 122, 79, 44, 192, 98, 79, 22, 144, 246,
        70, 6, 207, 56, 89, 69, 178, 190, 196, 234], rfl⟩) request request' := by
  have hne : ascii "GET / HTTP/1.1\r\nupgrade: websocket\r\n"
        ++ ascii "Sec-WebSocket-Key: dGhlIHNhbXBsZSBub25jZQ==\r\n\r\n"
      ≠ ascii "GET / HTTP/1.1\r\nUpgrade: websocket\r\n"
        ++ ascii "Sec-WebSocket-Key: dGhlIHNhbXBsZSBub25jZQ==\r\n\r\n" := by decide
  obtain ⟨http_parser_execute, hreport, hreport'⟩ := exists_http_parser_execute hne
    [(ascii "Upgrade", ascii "websocket"), (SEC_WEBSOCKET_KEY, ascii "dGhlIHNhbXBsZSBub25jZQ==")]
    [(ascii "upgrade", ascii "websocket"), (SEC_WEBSOCKET_KEY, ascii "dGhlIHNhbXBsZSBub25jZQ==")]
  exact ⟨http_parser_execute, _, _, hreport, hreport',
    (same_response_iff _ _ _ _ _ _ hreport hreport' (by decide)
      (.cons ⟨by decide, rfl⟩ (.cons ⟨rfl, rfl⟩ .nil))).mpr (by decide)⟩

/-- It is not true that header names are matched without regard to case: the
name of the key is in lower case. -/
theorem not_same_response : ¬ ∀ (http_parser_execute : List UInt8 → List HttpCallback)
    (crypt_sha1 : List UInt8 → MemBlock UInt8 20) (request request' : List UInt8)
    (headers headers' : List (List UInt8 × List UInt8)),
    http_parser_execute request = report headers → http_parser_execute request' = report headers' →
    (∀ h ∈ headers, NulFree h.1 ∧ NulFree h.2) → List.Forall₂ SameHeader headers headers' →
    SameResponse http_parser_execute crypt_sha1 request request' := by
  intro h
  have hne : ascii "GET / HTTP/1.1\r\nsec-websocket-key: dGhlIHNhbXBsZSBub25jZQ==\r\n\r\n"
      ≠ ascii "GET / HTTP/1.1\r\nSec-WebSocket-Key: dGhlIHNhbXBsZSBub25jZQ==\r\n\r\n" := by
    decide
  obtain ⟨http_parser_execute, hreport, hreport'⟩ := exists_http_parser_execute hne
    [(SEC_WEBSOCKET_KEY, ascii "dGhlIHNhbXBsZSBub25jZQ==")]
    [(ascii "sec-websocket-key", ascii "dGhlIHNhbXBsZSBub25jZQ==")]
  have hsame := h http_parser_execute (fun _ => MemBlock.zeros 20) _ _ _ _ hreport hreport'
    (by decide) (.cons ⟨by decide, rfl⟩ .nil)
  exact absurd (hsame.take_spelledKey (by decide) (by decide) hreport hreport') (by decide)

end Handshake
