/-
YAML documents as trees.

An anchor gives a node a number, and an alias stands for the node with its number.
-/
import DeviceScript.Yaml.Symbol

namespace DeviceScript

inductive Yaml where
  | alias (number : Nat)
  | anchored (number : Nat) (node : Yaml)
  | scalar (style : Yaml.Style) (tag : Option String) (text : String)
  | sequence (elements : List Yaml)
  | mapping (fields : List (Yaml × Yaml))

namespace Yaml

/-- What stands where nothing is written. -/
def empty : Yaml := .scalar .plain none ""

mutual

/-- The nodes with anchors inside a node, in the order of the document. -/
def anchors : Yaml → List (Nat × Yaml)
  | .alias _ => []
  | .anchored number node => (number, node) :: node.anchors
  | .scalar _ _ _ => []
  | .sequence elements => elementAnchors elements
  | .mapping fields => fieldAnchors fields

def elementAnchors : List Yaml → List (Nat × Yaml)
  | [] => []
  | element :: rest => element.anchors ++ elementAnchors rest

def fieldAnchors : List (Yaml × Yaml) → List (Nat × Yaml)
  | [] => []
  | (key, value) :: rest => key.anchors ++ value.anchors ++ fieldAnchors rest

end

/-- A node without its anchor, or the node that an alias stands for: the last one
with its number. -/
def resolve (anchored : List (Nat × Yaml)) : Yaml → Yaml
  | .anchored _ node => node
  | .alias number => ((anchored.filter fun p => p.1 == number).getLast?.map Prod.snd).getD empty
  | node => node

end Yaml
end DeviceScript
