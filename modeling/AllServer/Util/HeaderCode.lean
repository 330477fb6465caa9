import Mathlib.Data.List.Basic
import Mathlib.Tactic.Common

/-!
# Header codes

A byte stream is cut into frames by headers: the front of the stream is read
as a header, which says how long the frame it belongs to is. A `HeaderCode`
is such a reading. Its one law is that a header is decided by its own bytes:
what is behind it does not matter, and no shorter piece of the stream decides
it differently. That law is what makes framing independent of how the stream
happens to be cut into reads, since two readings of the same stream at the
same place can only agree (`HeaderCode.eq_of_prefix`).
-/

variable {α : Type*}

/-- **A header code**: how the front of a stream is read as a header. -/
structure HeaderCode (α : Type*) where
  /-- The size of the whole frame and the length of its header, if the front
  of the stream holds a complete header that is not rejected. -/
  decode : List α → Option (ℕ × ℕ)
  /-- A header that was read is there. -/
  le_length : ∀ {p : List α} {n h : ℕ}, decode p = some (n, h) → h ≤ p.length
  /-- A header that was read is read whatever follows. -/
  decode_append : ∀ {p : List α} {r : ℕ × ℕ} (q : List α),
    decode p = some r → decode (p ++ q) = some r
  /-- A header that was read is read from its own bytes. -/
  decode_take : ∀ {p : List α} {n h : ℕ},
    decode p = some (n, h) → decode (p.take h) = some (n, h)

namespace HeaderCode

variable (C : HeaderCode α) {p p' : List α} {r r' : ℕ × ℕ} {n h k : ℕ}

/-- A header is read from every piece of the stream that contains it. -/
theorem decode_take_of_le (hp : C.decode p = some (n, h)) (hk : h ≤ k) :
    C.decode (p.take k) = some (n, h) := by
  have hsplit : p.take h ++ (p.take k).drop h = p.take k := by
    have h' := List.take_append_drop h (p.take k)
    rwa [List.take_take, Nat.min_eq_left hk] at h'
  rw [← hsplit]
  exact C.decode_append _ (C.decode_take hp)

/-- **Two pieces of one stream are read alike.** -/
theorem eq_of_prefix (hpp : p <+: p') (hp : C.decode p = some r)
    (hp' : C.decode p' = some r') : r = r' := by
  obtain ⟨q, rfl⟩ := hpp
  exact Option.some.inj ((C.decode_append q hp).symm.trans hp')

/-- **A frame**: a header that is read, with the size it declares. -/
def IsFrame (f : List α) (h : ℕ) : Prop :=
  C.decode f = some (f.length, h)

variable {C} {f : List α}

/-- The header of a frame is inside it. -/
theorem IsFrame.le_length (hf : C.IsFrame f h) : h ≤ f.length :=
  C.le_length hf

/-- **What the front of a stream of frames is read as** can only be the first
frame's own size and header length, however little of the stream is there. -/
theorem IsFrame.eq_of_decode (hf : C.IsFrame f h) {q : List α}
    (hp : p <+: f ++ q) (hr : C.decode p = some r) : r = (f.length, h) :=
  C.eq_of_prefix hp hr (C.decode_append q hf)

end HeaderCode
