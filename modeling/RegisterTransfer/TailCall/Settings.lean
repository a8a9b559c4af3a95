import RegisterTransfer.TailCall.Config
import RegisterTransfer.Text.Quoted
import RegisterTransfer.Text.Utf8
import RegisterTransfer.Yaml.Reader
import RegisterTransfer.Yaml.Scalar
set_option autoImplicit false

/-!
# Settings from a document

The settings are read from a mapping with one integer for each of them.  A setting that is left
out, or left empty, keeps its standard value, and entries of other names are ignored.  All values
of a wrong type are reported together, before any negative one.
-/

namespace RegisterTransfer

/-- Why a document does not give settings. -/
inductive SettingsError
  /-- The text is no document. -/
  | unreadable
  /-- Some nodes have a wrong type, each described by a line. -/
  | mistyped (lines : List String)
  /-- A setting has a value that it may not have. -/
  | refused (error : ConfigError)
  deriving DecidableEq, Repr

/-- The error in words. -/
def SettingsError.message : SettingsError → String
  | .unreadable => "yaml: not a document"
  | .mistyped lines => "yaml: unmarshal errors:" ++ String.join (lines.map ("\n  " ++ ·))
  | .refused error => error.message

namespace Settings

open Yaml

/-- The text of a node as an error shows it: whole up to ten bytes, and else the first seven.
Nodes other than scalars show none. -/
def excerpt : Node → String
  | .scalar _ _ text =>
    let bytes := Utf8.encode text
    if bytes.length ≤ 10 then " `" ++ text ++ "`"
    else " `" ++ String.ofList (Utf8.decodeLossy (bytes.take 7)) ++ "...`"
  | _ => ""

/-- The line that says that a node is not of the wanted type. -/
def mistyped (node : Node) (wanted : String) : String :=
  "line " ++ toString node.line ++ ": cannot unmarshal " ++ node.tag.text ++ excerpt node
    ++ " into " ++ wanted

/-- The lines that name the pairs of keys that count as one. -/
def repeated : List Node → List String
  | [] => []
  | key :: keys =>
    (keys.filter key.sameKey).map (fun other =>
      "line " ++ toString other.line ++ ": mapping key " ++ Text.quoted other.text
        ++ " already defined at line " ++ toString key.line)
      ++ repeated keys

/-- The name that a key stands for, if it stands for one; a key that is no scalar is of a wrong
type. -/
def name (key : Node) : Except String (Option String) :=
  match key with
  | .scalar _ quoted text =>
    .ok (if Scalar.ofText quoted text = .null then none else some text)
  | _ => .error (mistyped key "string")

/-- The integer at a node, if there is one. -/
def integer (node : Node) : Except String (Option Int) :=
  match node with
  | .scalar _ quoted text =>
    match Scalar.ofText quoted text with
    | .null => .ok none
    | value =>
      match value.toInt? with
      | some n => .ok (some n)
      | none => .error (mistyped node "int")
  | _ => .error (mistyped node "int")

/-- The settings with the value of one name changed; other names change nothing. -/
def assign (c : Config) (name : String) (n : Int) : Config :=
  if name = "bound" then { c with bound := n }
  else if name = "max_reg_args" then { c with maxRegArgs := n }
  else if name = "workers" then { c with workers := n }
  else c

/-- The names of the settings. -/
def names : List String := ["bound", "max_reg_args", "workers"]

/-- One entry of the document read into the settings. -/
def entry (c : Config) (key value : Node) : Except String Config := do
  match ← name key with
  | none => return c
  | some s =>
    if names.contains s then
      match ← integer value with
      | none => return c
      | some n => return assign c s n
    else
      return c

/-- The entries of the document read one after another, with the lines of those that are of a
wrong type. -/
def entries (c : Config) : List (Node × Node) → Config × List String
  | [] => (c, [])
  | (key, value) :: rest =>
    match entry c key value with
    | .ok c' => entries c' rest
    | .error line =>
      let (c', lines) := entries c rest
      (c', line :: lines)

/-- The settings of a document's root, read on a machine with a number of processors. -/
def ofNode (processors : Int) (node : Node) : Except SettingsError Config :=
  match node with
  | .map _ content =>
    match repeated (content.map Prod.fst) with
    | [] =>
      match entries (Config.standard processors) content with
      | (c, []) => .ok c
      | (_, lines) => .error (.mistyped lines)
    | lines => .error (.mistyped lines)
  | .scalar _ quoted text =>
    if Scalar.ofText quoted text = .null then .ok (Config.standard processors)
    else .error (.mistyped [mistyped node "tailcall.Config"])
  | .seq .. => .error (.mistyped [mistyped node "tailcall.Config"])

end Settings

/-- Reads settings from a document. -/
def Config.parse (text : String) (processors : Int := usualProcessors) : Except SettingsError Config := do
  match Yaml.Node.parse? text with
  | none => throw .unreadable
  | some node =>
    let c ← Settings.ofNode processors node
    match c.error? with
    | some error => throw (.refused error)
    | none => return c

end RegisterTransfer
