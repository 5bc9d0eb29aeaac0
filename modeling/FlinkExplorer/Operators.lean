import FlinkExplorer.Export.StateRows

namespace FlinkExplorer

open Lib

/-!
# `operators.rs` — what a savepoint says of an operator

Apart from its keyed state: its metadata, and its operator states, decoded element by element.
-/

/-- An element of an operator state: what is shown of it, and its bytes when they could be read. -/
structure OperatorElement where
  label : Text
  bytes : Option Bytes
  deriving DecidableEq

/-- An operator state. -/
structure OperatorState where
  name : Text
  stateType : Text
  elements : List OperatorElement
  deriving DecidableEq

/-- An operator, without its keyed state. -/
structure OperatorSummary where
  id : Bytes
  displayName : Text
  identifierName : Text
  parallelism : Int
  maxParallelism : Int
  subtaskCount : Nat
  keyedStateSize : Nat
  fullyFinished : Bool
  hasCoordinatorState : Bool
  coordinatorInfo : Option Text
  states : List OperatorState

/-- What is known so far of the keyed state of an operator. -/
structure KeyedInfo where
  keyType : Text
  stateNames : List Text
  keys : Text
  errors : List Text
  malformed : List Text

namespace OperatorSummary

variable (op : OperatorSummary)

/-- `operator_id_hex`. -/
def operatorIdHex : Text := hexId op.id

/-- What the metadata says of an operator. -/
def metadataLines : List (Text × Text) :=
  let unknown := "(not in this savepoint's metadata)".toList
  [("OperatorID (uuid)".toList, op.operatorIdHex),
    ("Name".toList,
      if op.displayName ≠ op.operatorIdHex ∧ op.displayName ≠ [] then op.displayName else unknown),
    ("uid / identifier".toList, if op.identifierName = [] then unknown else op.identifierName),
    ("Parallelism".toList, intText op.parallelism),
    ("Max parallelism".toList, intText op.maxParallelism),
    ("Subtasks".toList, natText op.subtaskCount),
    ("Coordinator state".toList, if op.hasCoordinatorState then "yes".toList else "no".toList),
    ("Fully finished".toList, boolText op.fullyFinished),
    ("Keyed state size".toList, natText op.keyedStateSize ++ " bytes".toList)]

/-- What could not be loaded of its keyed state. -/
def errorLines (k : KeyedInfo) : List (Text × Text) :=
  if k.errors = [] then []
  else [("Load errors".toList, natText k.errors.length
    ++ " state file(s) or key-group(s) could not be read, their keys are missing: ".toList
    ++ summarize k.errors 3)]

/-- What is known of its keys. -/
def keyedLines (k : KeyedInfo) : List (Text × Text) :=
  if k.stateNames = [] ∧ k.keyType = [] then []
  else [("Key type".toList, k.keyType), ("Keys".toList, k.keys),
      ("Keyed states".toList, natText k.stateNames.length ++ " [".toList
        ++ (k.stateNames.intersperse ", ".toList).flatten ++ "]".toList)]
    ++ match k.malformed with
      | [] => []
      | first :: _ => [("Malformed key-groups".toList, natText k.malformed.length
          ++ " — entries past the defect were not read (first: ".toList ++ first ++ ")".toList)]

/-- All that can be said of an operator, as labels and values. -/
def infoLines (keyed : Option KeyedInfo) : List (Text × Text) :=
  op.metadataLines
    ++ keyed.elim [] errorLines
    ++ op.coordinatorInfo.elim [] (fun info => [("Source enumerator".toList, info)])
    ++ keyed.elim [] keyedLines
    ++ if op.states = [] then []
      else [("Operator states".toList,
        ((op.states.map fun s => s.name ++ " (".toList ++ s.stateType ++ ")".toList).intersperse
          ", ".toList).flatten)]

end OperatorSummary

end FlinkExplorer
