set_option autoImplicit false

/-!
# Nodes of a YAML document

A document is a tree of scalars, sequences and mappings.  Every node knows the line on which it
starts, counted from one.
-/

namespace RegisterTransfer.Yaml

/-- A node of a document.  A scalar is `quoted` if it is written in quotes or as a block, and then
its text is taken as it is; keys of a mapping are nodes too. -/
inductive Node
  | scalar (line : Nat) (quoted : Bool) (text : String)
  | seq (line : Nat) (items : List Node)
  | map (line : Nat) (entries : List (Node × Node))
  deriving Repr, Inhabited

namespace Node

/-- The line on which the node starts. -/
def line : Node → Nat
  | .scalar line .. => line
  | .seq line _ => line
  | .map line _ => line

/-- The text of a scalar; other nodes have none. -/
def text : Node → String
  | .scalar _ _ text => text
  | _ => ""

/-- The node that stands where nothing is written. -/
def empty (line : Nat) : Node := .scalar line false ""

/-- Whether two keys of a mapping count as one: both are scalars of one text, whatever their
quotes, or both are sequences, or both are mappings. -/
def sameKey : Node → Node → Bool
  | .scalar _ _ s, .scalar _ _ t => s == t
  | .seq .., .seq .. => true
  | .map .., .map .. => true
  | _, _ => false

end Node

/-! ## Tags -/

/-- What a node is, by the form of its text. -/
inductive Tag
  | null
  | bool
  | int
  | float
  | str
  | timestamp
  | seq
  | map
  deriving DecidableEq, Repr, Inhabited

/-- The short form of a tag. -/
def Tag.text : Tag → String
  | .null => "!!null"
  | .bool => "!!bool"
  | .int => "!!int"
  | .float => "!!float"
  | .str => "!!str"
  | .timestamp => "!!timestamp"
  | .seq => "!!seq"
  | .map => "!!map"

end RegisterTransfer.Yaml
