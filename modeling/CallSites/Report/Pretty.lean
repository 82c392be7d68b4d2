import CallSites.Report

/-!
# Reports for reading

The report for people: a section for internal and one for external calls, each name on a line of its
own above its locations, and the counts. On a terminal, headings, names and counts are painted, one
colour to a side.
-/

namespace CallSites

/-- The two sides of a report. -/
inductive Side where
  | internal
  | external
  deriving Repr, DecidableEq

/-- The sequence that switches a side's colour on: blue for internal calls, yellow for external. -/
def Side.colour : Side → List Char
  | .internal => ['\x1b', '[', '3', '4', 'm']
  | .external => ['\x1b', '[', '3', '3', 'm']

/-- The sequence that ends a colour. -/
def plainColour : List Char :=
  ['\x1b', '[', '0', 'm']

/-- `text` with `colour` again behind everything in it that ends a colour. -/
def recolour (colour : List Char) (text : List Char) : List Char :=
  match text with
  | [] => []
  | c :: cs =>
    if plainColour.isPrefixOf (c :: cs) then
      plainColour ++ colour ++ recolour colour (cs.drop 3)
    else c :: recolour colour cs
termination_by text.length
decreasing_by
  · rw [List.length_drop, List.length_cons]
    omega
  · exact Nat.lt_succ_self _

/-- A text in the colour of a side, or as it is when nothing is painted. -/
def Side.paint (painted : Bool) (side : Side) (text : String) : String :=
  if painted then
    String.ofList (side.colour ++ recolour side.colour text.toList ++ plainColour)
  else text

/-- What a section is headed, and what its count is called. -/
def Side.title : Side → String
  | .internal => "Internal function calls:"
  | .external => "External function calls:"

/-- A name above its locations. -/
def Entry.pretty (painted : Bool) (side : Side) (e : Entry) : String :=
  "\n" ++ side.paint painted (e.name ++ ":") ++ "\n" ++
    String.join (e.locations.toList.map fun l ↦ "  " ++ l.shown ++ "\n")

/-- A heading above its entries. -/
def prettySection (painted : Bool) (side : Side) (entries : List Entry) : String :=
  "\n" ++ side.paint painted side.title ++ "\n" ++
    String.join (entries.map (Entry.pretty painted side))

/-- A count, under the name of its side. -/
def prettyCount (painted : Bool) (side : Side) (count : Nat) : String :=
  side.paint painted (side.title ++ " " ++ Nat.repr count) ++ "\n"

/-- The text of a report, painted or plain. -/
def Report.pretty (painted : Bool) (r : Report) : String :=
  "\nFunction call locations:\n" ++
    prettySection painted .internal r.internal ++
    prettySection painted .external r.external ++
    "\nSummary:\nTotal function calls: " ++ Nat.repr r.total ++ "\n" ++
    prettyCount painted .internal r.internalCount ++
    prettyCount painted .external r.externalCount

end CallSites
