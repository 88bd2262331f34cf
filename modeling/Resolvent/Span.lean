/-!
# Spans

A span is a stretch of a source text, given by the byte offsets of its two ends in UTF-8. Offsets
count bytes while the library works on lists of characters, so the cuts below go through the encoded
size of each character. The lexer keeps offsets in 32 bits: in a text of 4 GiB or more they wrap
around.
-/

namespace Resolvent

/-- A stretch of source text: the bytes from `start` up to, not including, `stop`. -/
structure Span where
  start : Nat
  stop : Nat
  deriving DecidableEq, Repr, Inhabited

/-- The number of bytes of a text in UTF-8. -/
def byteLength : List Char → Nat
  | [] => 0
  | c :: cs => c.utf8Size + byteLength cs

/-- What is left after the first `n` bytes; nothing if the cut falls inside a character or past the
end. -/
def dropBytes : Nat → List Char → Option (List Char)
  | 0, cs => some cs
  | _ + 1, [] => none
  | n + 1, c :: cs => if c.utf8Size ≤ n + 1 then dropBytes (n + 1 - c.utf8Size) cs else none

/-- The first `n` bytes; nothing if the cut falls inside a character or past the end. -/
def takeBytes : Nat → List Char → Option (List Char)
  | 0, _ => some []
  | _ + 1, [] => none
  | n + 1, c :: cs =>
    if c.utf8Size ≤ n + 1 then (takeBytes (n + 1 - c.utf8Size) cs).map (c :: ·) else none

namespace Span

/-- The span with each offset cut to 32 bits. -/
def wrap (s : Span) : Span := ⟨s.start % UInt32.size, s.stop % UInt32.size⟩

/-- The smallest span that covers both. -/
def merge (a b : Span) : Span := ⟨min a.start b.start, max a.stop b.stop⟩

/-- The text under a span, empty if the span does not cut `source` between characters. -/
def slice (s : Span) (source : List Char) : List Char :=
  if s.start ≤ s.stop then
    ((dropBytes s.start source).bind (takeBytes (s.stop - s.start))).getD []
  else []

/-- Written as the two offsets with a colon between them. -/
def text (s : Span) : String := s!"{s.start}:{s.stop}"

@[simp] theorem merge_start (a b : Span) : (a.merge b).start = min a.start b.start := rfl

@[simp] theorem merge_stop (a b : Span) : (a.merge b).stop = max a.stop b.stop := rfl

end Span

end Resolvent
