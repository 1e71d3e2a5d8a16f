/-!
# Limited writers

A `Sink` takes text as UTF-8 and may have room for a limited number of bytes. A text that does
not fit is cut where the room ends, and the write has failed.
-/

namespace CommandLine

/-- The bytes of a text in UTF-8. -/
def utf8Bytes (text : String) : List UInt8 := text.toList.flatMap String.utf8EncodeChar

/-- A writer with the bytes it has kept, and the number of bytes it can hold. -/
structure Sink where
  /-- How many bytes fit, or no limit. -/
  limit : Option Nat := none
  kept : List UInt8 := []
deriving DecidableEq, Repr

namespace Sink

/-- Whether there is room for all of `text`. -/
def fits (s : Sink) (text : String) : Bool :=
  match s.limit with
  | none => true
  | some n => s.kept.length + (utf8Bytes text).length ≤ n

/-- Keeps as much of `text` as there is room for. -/
def write (s : Sink) (text : String) : Sink :=
  let bytes := s.kept ++ utf8Bytes text
  { s with
    kept := match s.limit with
      | none => bytes
      | some n => bytes.take n }

/-- What the I/O error of a failed write says. -/
def overflowMessage : String := "write limit reached"

/-- The bytes without the last `n`, read as UTF-8. -/
def decodeWithout? (bytes : List UInt8) (n : Nat) : Option String :=
  String.fromUTF8? ⟨(bytes.take (bytes.length - n)).toArray⟩

/-- The kept bytes as text. A character that was cut in the middle, which leaves at most three
of its bytes, is shown as one replacement character. -/
def text (s : Sink) : String :=
  match decodeWithout? s.kept 0 with
  | some whole => whole
  | none =>
    match [1, 2, 3].findSome? (decodeWithout? s.kept) with
    | some whole => whole ++ "\uFFFD"
    | none => "\uFFFD"

@[simp] theorem limit_write (s : Sink) (text : String) : (s.write text).limit = s.limit := rfl

@[simp] theorem fits_of_limit_none {s : Sink} (h : s.limit = none) (text : String) :
    s.fits text = true := by
  simp [fits, h]

theorem kept_write_of_limit_none {s : Sink} (h : s.limit = none) (text : String) :
    (s.write text).kept = s.kept ++ utf8Bytes text := by
  simp [write, h]

/-- A text that fits is kept whole. -/
theorem kept_write_of_fits {s : Sink} {text : String} (h : s.fits text = true) :
    (s.write text).kept = s.kept ++ utf8Bytes text := by
  unfold fits at h
  unfold write
  split at h
  · simp_all
  · rw [decide_eq_true_eq, ← List.length_append] at h
    simp [List.take_of_length_le h]

end Sink

end CommandLine
