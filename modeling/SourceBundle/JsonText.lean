/-!
# JSON text

Values whose records keep the order of their fields, and their layout over several lines, indented
by two spaces a level.
-/

namespace SourceBundle

inductive JsonValue where
  | text (s : String)
  | flag (b : Bool)
  | list (values : List JsonValue)
  | record (fields : List (String × JsonValue))
  deriving Repr

namespace JsonValue

def hexDigit (n : Nat) : Char :=
  (Nat.toDigits 16 n).getLastD '0'

/-- Controls, quotation marks and backslashes are escaped; all else stands for itself. -/
def escapeChar (c : Char) : List Char :=
  if c == '"' || c == '\\' then ['\\', c]
  else if c == '\x08' then ['\\', 'b']
  else if c == '\x0c' then ['\\', 'f']
  else if c == '\n' then ['\\', 'n']
  else if c == '\r' then ['\\', 'r']
  else if c == '\t' then ['\\', 't']
  else if c.toNat < 0x20 then ['\\', 'u', '0', '0', hexDigit (c.toNat / 16), hexDigit (c.toNat % 16)]
  else [c]

def quote (s : String) : List Char :=
  '"' :: s.toList.flatMap escapeChar ++ ['"']

def newline (depth : Nat) : List Char :=
  '\n' :: List.replicate (2 * depth) ' '

mutual

/-- The layout of a value whose lines are `depth` levels deep. -/
def layout (depth : Nat) : JsonValue → List Char
  | .text s => quote s
  | .flag b => if b then "true".toList else "false".toList
  | .list [] => ['[', ']']
  | .list (v :: vs) =>
    '[' :: newline (depth + 1) ++ layout (depth + 1) v ++ layoutValues (depth + 1) vs ++
      newline depth ++ [']']
  | .record [] => ['\x7b', '\x7d']
  | .record ((name, v) :: fields) =>
    '\x7b' :: newline (depth + 1) ++ quote name ++ ": ".toList ++ layout (depth + 1) v ++
      layoutFields (depth + 1) fields ++ newline depth ++ ['\x7d']
termination_by structural v => v

/-- The values after the first one, each behind a comma. -/
def layoutValues (depth : Nat) : List JsonValue → List Char
  | [] => []
  | v :: vs => ',' :: newline depth ++ layout depth v ++ layoutValues depth vs
termination_by structural vs => vs

def layoutFields (depth : Nat) : List (String × JsonValue) → List Char
  | [] => []
  | (name, v) :: fields =>
    ',' :: newline depth ++ quote name ++ ": ".toList ++ layout depth v ++
      layoutFields depth fields
termination_by structural fields => fields

end

def pretty (v : JsonValue) : String :=
  String.ofList (v.layout 0)

end JsonValue

end SourceBundle
