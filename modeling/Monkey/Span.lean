/-!
# Source spans

A span is a range of byte offsets into a source text.  Offsets are kept in thirty-two bits, so an
offset past the largest one is recorded as the largest one.

## Main definitions

* `Span` — a start and an end offset.
* `Span.ofRange` — the span of a range, with large offsets clamped.
-/

namespace Monkey

/-- A range of byte offsets, the end not included. -/
structure Span where
  /-- The offset of the first byte. -/
  start : Nat
  /-- The offset just past the last byte. -/
  stop : Nat
  deriving DecidableEq, Repr, Inhabited

namespace Span

/-- The largest offset that a span records. -/
def maxOffset : Nat := UInt32.size - 1

/-- The span of a range of offsets; an offset beyond `maxOffset` is recorded as `maxOffset`. -/
def ofRange (start stop : Nat) : Span :=
  ⟨min start maxOffset, min stop maxOffset⟩

/-- The empty span at an offset. -/
def point (offset : Nat) : Span := ⟨offset, offset⟩

/-- The number of bytes covered; a span that ends before it starts covers none. -/
def length (s : Span) : Nat := s.stop - s.start

/-- Whether no byte is covered. -/
def isEmpty (s : Span) : Bool := s.stop ≤ s.start

/-- The two offsets with two dots between them. -/
def describe (s : Span) : String := s!"{s.start}..{s.stop}"

/-- The span moved towards the end of the text. -/
def shift (s : Span) (distance : Nat) : Span :=
  ⟨s.start + distance, s.stop + distance⟩

theorem ofRange_of_le {a b : Nat} (ha : a ≤ maxOffset) (hb : b ≤ maxOffset) :
    ofRange a b = ⟨a, b⟩ := by
  simp [ofRange, ha, hb]

@[simp] theorem length_point (n : Nat) : (point n).length = 0 := by simp [point, length]

@[simp] theorem isEmpty_point (n : Nat) : (point n).isEmpty = true := by simp [point, isEmpty]

theorem isEmpty_iff (s : Span) : s.isEmpty = true ↔ s.length = 0 := by
  simp [isEmpty, length]; omega

end Span

end Monkey
