import Workflow.Number

namespace Workflow

/-- A JSON value. The fields of an object keep their order. -/
inductive Json
  | null
  | bool (value : Bool)
  | number (value : Number)
  | string (value : String)
  | array (items : List Json)
  | object (fields : List (String × Json))
deriving Inhabited

namespace Json

def get? (name : String) : Json → Option Json
  | object fields => fields.lookup name
  | _ => none

def int (n : Int) : Json :=
  number (.int n)

/-- A text, or null where there is none. -/
def ofText? : Option String → Json
  | some s => string s
  | none => null

def ofTexts (texts : List String) : Json :=
  array (texts.map string)

def hexDigit (n : Nat) : Char :=
  if n < 10 then Char.ofNat (48 + n) else Char.ofNat (87 + n)

def escapeChar (c : Char) : List Char :=
  if c = '"' then ['\\', '"']
  else if c = '\\' then ['\\', '\\']
  else if c = '\n' then ['\\', 'n']
  else if c = '\r' then ['\\', 'r']
  else if c = '\t' then ['\\', 't']
  else if c.toNat = 8 then ['\\', 'b']
  else if c.toNat = 12 then ['\\', 'f']
  else if c.toNat < 32 then ['\\', 'u', '0', '0', hexDigit (c.toNat / 16), hexDigit (c.toNat % 16)]
  else [c]

def quoted (s : String) : List Char :=
  '"' :: (s.toList.flatMap escapeChar ++ ['"'])

mutual

def write : Json → List Char
  | null => "null".toList
  | bool b => if b then "true".toList else "false".toList
  | number n => n.text.toList
  | string s => quoted s
  | array items => '[' :: (writeItems items ++ [']'])
  | object fields => '\x7b' :: (writeFields fields ++ ['\x7d'])

def writeItems : List Json → List Char
  | [] => []
  | [item] => item.write
  | item :: items => item.write ++ ',' :: writeItems items

def writeFields : List (String × Json) → List Char
  | [] => []
  | [(name, value)] => quoted name ++ ':' :: value.write
  | (name, value) :: fields => quoted name ++ ':' :: (value.write ++ ',' :: writeFields fields)

end

def compact (j : Json) : String :=
  String.ofList j.write

def newLine (level : Nat) : List Char :=
  '\n' :: List.replicate (2 * level) ' '

mutual

/-- The indented form: each item or field on a line of its own, an empty container closed at
once. -/
def layOut (level : Nat) : Json → List Char
  | array [] => ['[', ']']
  | array (item :: items) =>
    '[' :: (newLine (level + 1) ++ item.layOut (level + 1) ++ layOutItems (level + 1) items ++
      newLine level ++ [']'])
  | object [] => ['\x7b', '\x7d']
  | object ((name, value) :: fields) =>
    '\x7b' :: (newLine (level + 1) ++ quoted name ++ ':' :: ' ' :: value.layOut (level + 1) ++
      layOutFields (level + 1) fields ++ newLine level ++ ['\x7d'])
  | null => write null
  | bool b => write (bool b)
  | number n => write (number n)
  | string s => write (string s)

/-- The items after the first, each after a comma. -/
def layOutItems (level : Nat) : List Json → List Char
  | [] => []
  | item :: items => ',' :: (newLine level ++ item.layOut level ++ layOutItems level items)

def layOutFields (level : Nat) : List (String × Json) → List Char
  | [] => []
  | (name, value) :: fields =>
    ',' :: (newLine level ++ quoted name ++ ':' :: ' ' :: value.layOut level ++
      layOutFields level fields)

end

def pretty (j : Json) : String :=
  String.ofList (j.layOut 0)

end Json

end Workflow
