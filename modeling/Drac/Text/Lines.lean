/-!
# Counting lines

## Main definitions

* `lineCount` — the number of lines of a text; a line break at the end starts no further line.
-/

namespace Drac.Text

/-- The number of line breaks, and whether anything stands after the last one. -/
def lineStep (state : Nat × Bool) (c : Char) : Nat × Bool :=
  if c = '\n' then (state.1 + 1, false) else (state.1, true)

/-- The number of lines of a text.  A line ends with a line break or with the text, and the empty
text has none. -/
def lineCount (s : String) : Nat :=
  let (breaks, tail) := s.foldl lineStep (0, false)
  if tail then breaks + 1 else breaks

end Drac.Text
