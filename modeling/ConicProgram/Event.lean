import ConicProgram.Session.Error
import ConicProgram.Warm.Ineligible

namespace ConicProgram

inductive Event (α : Type) where
  | loaded (rows columns entries : Nat)
  | branched (node column : Nat) (value : α)
  | improved (node : Nat) (objective : α)
  | searched (nodes : Nat) (status : Int)
  | coldLoaded (columns auxiliary linearRows cones : Nat)
  | coldStart (name : String) (reason : Ineligible)
  | warmStart (name : String) (objective matrix rhs kinds : Nat)
  | dropped (name : String) (error : SolveError α)
  | ignoredOption (name : String)
  | finished (optimizer : String) (status : SolveStatus) (code : Int)

inductive Event.Level where
  | trace
  | debug
  | info
  | warn

namespace Event

def level {α : Type} : Event α → Level
  | branched .. => .trace
  | coldStart _ reason => if reason.isColdStart then .debug else .warn
  | dropped .. => .warn
  | finished .. => .info
  | loaded .. | improved .. | searched .. => .debug
  | coldLoaded .. | warmStart .. | ignoredOption .. => .debug

def number (x : Float) : String :=
  String.ofList (Decimal.Layout.plain.float x)

def message : Event Float → String
  | loaded rows columns entries => s!"loaded {rows} rows, {columns} columns, {entries} nonzeros"
  | branched node column value => s!"node {node}: branch on x[{column}] = " ++ number value
  | improved node objective => s!"node {node}: new incumbent with objective " ++ number objective
  | searched nodes status =>
    s!"branch and bound finished after {nodes} nodes with status {status}"
  | coldLoaded columns auxiliary linearRows cones =>
    s!"cold load: {columns} columns ({auxiliary} auxiliary), " ++
      s!"{linearRows} linear rows, {cones} cones"
  | coldStart name reason =>
    if reason.isColdStart then name ++ ": cold start (" ++ reason.message ++ ")"
    else name ++ ": warm start declined, " ++ reason.message
  | warmStart name objective matrix rhs kinds =>
    name ++ s!": warm start with {objective} objective, {matrix} matrix, {rhs} rhs and " ++
      s!"{kinds} column type changes"
  | dropped name error => name ++ ": dropping cached instance, revert failed: " ++ error.message
  | ignoredOption name => "ignoring option " ++ name
  | finished optimizer status code =>
    optimizer ++ " finished with status " ++ status.text ++ s!" ({code})"

end Event
end ConicProgram
