/-!
# Lines

A text is a sequence of lines, each ended by a line feed; a carriage return right before the line
feed belongs to the ending. A last line need not be ended, and then keeps a carriage return it ends
in.
-/

namespace CallSites.Text

/-- `line` without the carriage return it may end in. -/
def stripReturn (line : List Char) : List Char :=
  if line.getLast? = some '\r' then line.dropLast else line

/-- The lines of a text, without their endings. -/
def lines (cs : List Char) : List (List Char) :=
  if cs = [] then []
  else
    match _h : cs.dropWhile (· != '\n') with
    | [] => [cs]
    | _ :: rest => stripReturn (cs.takeWhile (· != '\n')) :: lines rest
termination_by cs.length
decreasing_by
  have hle := (List.dropWhile_suffix (l := cs) (· != '\n')).length_le
  rw [_h, List.length_cons] at hle
  omega

@[simp]
theorem lines_nil : lines [] = [] := by
  rw [lines, if_pos rfl]

end CallSites.Text
