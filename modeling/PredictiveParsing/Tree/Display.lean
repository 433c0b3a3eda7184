import PredictiveParsing.Tree.Basic
import PredictiveParsing.Vocabulary.Display

/-!
# Trees as JSON
-/

namespace PredictiveParsing

def Location.toJson (l : Location) : Json :=
  .record [
    ("start_offset", .nat l.startOffset),
    ("end_offset", .ofOption Json.nat l.stopOffset),
    ("start", .ofOption LineCol.toJson l.start),
    ("end", .ofOption LineCol.toJson l.stop)]

namespace Tree

mutual

def toJson : Tree → Json
  | .leaf t => t.toJson
  | .node ⟨name, children, location, recovered⟩ =>
    .record [
      ("name", .text name),
      ("children", .record ((groupByLabel (childrenToJson children)).map fun (label, group) =>
        (label, .array group))),
      ("location", .ofOption Location.toJson location),
      ("recovered", .bool recovered)]

def childrenToJson : List (String × Tree) → List (String × Json)
  | [] => []
  | (label, t) :: rest => (label, toJson t) :: childrenToJson rest

end

end Tree

def NodeOf.toJson (n : Node) : Json := (Tree.node n).toJson

end PredictiveParsing
