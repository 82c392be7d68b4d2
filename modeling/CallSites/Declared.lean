import CallSites.Invocation
import CallSites.NameSet
import CallSites.Vocabulary

/-!
# Declared names

A definition is an invocation with an opening brace behind it, blanks and line ends apart. What
stands between the parentheses of a definition is not searched; what stands between those of
anything else is, so a definition inside a macro call is found. This is a reading of shapes and not
of C: a control construct whose word is not excluded, or a matching shape in a comment, counts as a
definition.
-/

namespace CallSites

/-- The invocations from `origin` on that have a brace behind them, without those inside another of
them. -/
def Index.definitionsFrom (ix : Index) (origin : Nat) : List Invocation :=
  match h : ix.next origin ix.size with
  | none => []
  | some i =>
    if ix.followedBy i '\x7b' then i :: ix.definitionsFrom i.stop
    else ix.definitionsFrom (i.lparen + 1)
termination_by ix.size - origin
decreasing_by
  all_goals
    have hstart := Index.le_start_of_next h
    have hstop := Index.stop_le_of_next h
    have hlt := i.lparen_lt
    have hlt' := i.start_lt
    omega

/-- The names that a text defines. -/
def declared (keywords : Keywords) (text : List Char) : NameSet :=
  .ofList ((((Index.ofText text).definitionsFrom 0).map (·.name)).filter
    fun name ↦ !keywords.contains name)

end CallSites
