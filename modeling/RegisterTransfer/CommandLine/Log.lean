import RegisterTransfer.Text.Quoted
set_option autoImplicit false

/-!
# The log

Lines of the log have a level, a message, and named fields.
-/

namespace RegisterTransfer

/-- How much a line of the log matters. -/
inductive LogLevel
  | debug
  | info
  | error
  deriving DecidableEq, Repr, Inhabited

/-- The level as a word. -/
def LogLevel.text : LogLevel → String
  | .debug => "debug"
  | .info => "info"
  | .error => "error"

/-- The value of a field. -/
inductive LogValue
  | text (s : String)
  | number (n : Int)
  deriving DecidableEq, Repr, Inhabited

/-- A line of the log. -/
structure LogLine where
  level : LogLevel
  message : String
  fields : List (String × LogValue)
  deriving DecidableEq, Repr, Inhabited

namespace LogLine

/-- A character as it stands in a string of JSON. -/
def jsonChar (c : Char) : String :=
  if c = '"' then "\\\""
  else if c = '\\' then "\\\\"
  else if c = '\n' then "\\n"
  else if c = '\r' then "\\r"
  else if c = '\t' then "\\t"
  else if c.toNat < 0x20 then "\\u" ++ Text.hexadecimal 4 c.toNat
  else c.toString

/-- A string of JSON. -/
def jsonString (s : String) : String := "\"" ++ String.join (s.toList.map jsonChar) ++ "\""

/-- A value in JSON. -/
def jsonValue : LogValue → String
  | .text s => jsonString s
  | .number n => toString n

/-- An object of JSON. -/
def jsonObject (fields : List (String × LogValue)) : String :=
  "\x7b" ++ ",".intercalate (fields.map fun (name, value) => jsonString name ++ ":" ++ jsonValue value)
    ++ "\x7d"

/-- The line as an object of JSON. -/
def json (l : LogLine) : String :=
  jsonObject ([("level", .text l.level.text), ("msg", .text l.message)] ++ l.fields)

/-- The line for a reader at a terminal: level, message and fields, separated by tabs. -/
def columns (l : LogLine) : String :=
  let head := l.level.text.toUpper ++ "\t" ++ l.message
  if l.fields.isEmpty then head else head ++ "\t" ++ jsonObject l.fields

end LogLine

end RegisterTransfer
