import CallSites.Invocation
import CallSites.Record
import CallSites.Text.Lines
import CallSites.Vocabulary

/-!
# Calls of a text

Each line is read by itself. A *statement* is an invocation with a semicolon behind it on its line;
it is a call, and so is every invocation nested in it. An invocation that is no statement may hold
one, so the search goes on between its parentheses. A parenthesis that is not closed on its own line
makes no call.

Type names and the operators on types have the shape of calls in casts and size expressions; they
and the excluded names are passed over, while what is nested in them is not.
-/

namespace CallSites

/-- The statements from `origin` on, each with all that is nested in it, in order of their starts.
-/
def Index.statementsFrom (ix : Index) (origin : Nat) : List Invocation :=
  match h : ix.next origin ix.size with
  | none => []
  | some i =>
    if ix.followedBy i ';' then i :: ((ix.inside i).preorder ++ ix.statementsFrom i.stop)
    else ix.statementsFrom (i.lparen + 1)
termination_by ix.size - origin
decreasing_by
  all_goals
    have hstart := Index.le_start_of_next h
    have hstop := Index.stop_le_of_next h
    have hlt := i.lparen_lt
    have hlt' := i.start_lt
    omega

/-- Whether an invocation of `name` counts as a call. -/
def isCallable (keywords : Keywords) (name : String) : Bool :=
  !keywords.contains name && !isTypeOperator name

/-- The names called on a line, in order. -/
def calledOn (keywords : Keywords) (line : List Char) : List String :=
  (((Index.ofText line).statementsFrom 0).map (·.name)).filter (isCallable keywords)

/-- The calls of a text that is the contents of `file`, in order. -/
def calls (keywords : Keywords) (file : String) (text : List Char) : List Call :=
  ((Text.lines text).zipIdx 1).flatMap fun (line, number) ↦
    (calledOn keywords line).map fun name ↦ { name, location := { file, line := number } }

end CallSites
