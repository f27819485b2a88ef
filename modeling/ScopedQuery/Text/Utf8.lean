namespace ScopedQuery.Text

/-!
# Reading UTF-8

Bytes that are no UTF-8 are refused with the place and the nature of their first fault.

* `Utf8Fault` — the first fault of a byte sequence, and its wording.
* `firstFault?` — how it is found: the longest start of a well-formed sequence is what is reported.
* `decodeUtf8` — the text that the bytes encode, or their first fault.
-/

/-- Why no character can be read at some place. -/
inductive Utf8Cause
  /-- The byte begins no sequence. -/
  | invalidStart
  /-- The byte behind the reported ones does not continue their sequence. -/
  | invalidContinuation
  /-- The bytes end inside a sequence. -/
  | unexpectedEnd
deriving DecidableEq

/-- The first fault of a byte sequence: `bytes` from `position` on are read and refused. -/
structure Utf8Fault where
  cause : Utf8Cause
  position : Nat
  bytes : List UInt8
deriving DecidableEq

/-- The wording of a cause. -/
def Utf8Cause.reason : Utf8Cause → String
  | invalidStart => "invalid start byte"
  | invalidContinuation => "invalid continuation byte"
  | unexpectedEnd => "unexpected end of data"

/-- A byte as two hexadecimal digits. -/
def hexByte (b : UInt8) : String :=
  String.ofList [Nat.digitChar (b.toNat / 16), Nat.digitChar (b.toNat % 16)]

/-- The fault as it is reported to the user. -/
def Utf8Fault.message (fault : Utf8Fault) : String :=
  let subject :=
    match fault.bytes with
    | [b] => s!"byte 0x{hexByte b} in position {fault.position}"
    | bytes => s!"bytes in position {fault.position}-{fault.position + bytes.length - 1}"
  s!"'utf-8' codec can't decode {subject}: {fault.cause.reason}"

/-- The bounds of the second byte behind `lead`, which keep out longer spellings of a shorter
    sequence, surrogates, and numbers beyond the last code point. -/
def secondBounds (lead : UInt8) : UInt8 × UInt8 :=
  if lead == 0xE0 then (0xA0, 0xBF)
  else if lead == 0xED then (0x80, 0x9F)
  else if lead == 0xF0 then (0x90, 0xBF)
  else if lead == 0xF4 then (0x80, 0x8F)
  else (0x80, 0xBF)

/-- The bounds of the bytes that continue the sequence begun by `lead`; none if it begins none. -/
def continuationBounds? (lead : UInt8) : Option (List (UInt8 × UInt8)) :=
  if lead < 0x80 then some []
  else if lead < 0xC2 then none
  else if lead < 0xE0 then some [secondBounds lead]
  else if lead < 0xF0 then some [secondBounds lead, (0x80, 0xBF)]
  else if lead < 0xF5 then some [secondBounds lead, (0x80, 0xBF), (0x80, 0xBF)]
  else none

/-- Reads continuation bytes within `bounds`, `taken` being the bytes of the sequence before them;
    gives the bytes behind the sequence, or the cause and the bytes that were read. -/
def continuation (bounds : List (UInt8 × UInt8)) (taken bytes : List UInt8) :
    Except (Utf8Cause × List UInt8) (List UInt8) :=
  match bounds, bytes with
  | [], rest => .ok rest
  | _ :: _, [] => .error (.unexpectedEnd, taken)
  | (low, high) :: bounds, b :: rest =>
    if low ≤ b && b ≤ high then continuation bounds (taken ++ [b]) rest
    else .error (.invalidContinuation, taken)

/-- What continues a code point is taken from the front of the bytes. -/
theorem length_continuation_le {bounds : List (UInt8 × UInt8)} {taken bytes rest : List UInt8}
    (h : continuation bounds taken bytes = .ok rest) : rest.length ≤ bytes.length := by
  fun_induction continuation bounds taken bytes with
  | case1 taken bytes => simp_all
  | case2 => simp at h
  | case3 taken low high bounds b bytes _ ih => have := ih h; simp; omega
  | case4 => simp at h

/-- The first fault of `bytes`, the first of which stands at `position`. -/
def firstFault? (position : Nat) : List UInt8 → Option Utf8Fault
  | [] => none
  | lead :: bytes =>
    match continuationBounds? lead with
    | none => some ⟨.invalidStart, position, [lead]⟩
    | some bounds =>
      match h : continuation bounds [lead] bytes with
      | .error (cause, taken) => some ⟨cause, position, taken⟩
      | .ok rest => firstFault? (position + 1 + bounds.length) rest
termination_by bytes => bytes.length
decreasing_by
  have := length_continuation_le h
  simp; omega

/-- The text that `bytes` encode, or their first fault. -/
def decodeUtf8 (bytes : ByteArray) : Except Utf8Fault String :=
  match String.fromUTF8? bytes with
  | some text => .ok text
  | none => .error ((firstFault? 0 bytes.toList).getD ⟨.unexpectedEnd, bytes.size, []⟩)

end ScopedQuery.Text
