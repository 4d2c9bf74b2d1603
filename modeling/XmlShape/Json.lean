import XmlShape.Text.Hex

/-! # JSON values and their text

An object keeps its fields in the order in which their keys were first put. -/

namespace XmlShape

inductive Json where
  | string (s : String)
  | integer (n : Int)
  | boolean (b : Bool)
  | array (items : List Json)
  | object (fields : List (String × Json))

namespace Json

/-- Sets a field; a new one comes last, an old one keeps its place. -/
def put (key : String) (value : Json) : List (String × Json) → List (String × Json)
  | [] => [(key, value)]
  | f :: fs => if f.1 = key then (key, value) :: fs else f :: put key value fs

/-- The object that putting the fields one after the other gives. -/
def putAll (fields more : List (String × Json)) : List (String × Json) :=
  more.foldl (fun fs f => put f.1 f.2 fs) fields

def get? (key : String) (fields : List (String × Json)) : Option Json :=
  (fields.find? fun f => f.1 == key).map (·.2)

def escapeChar (c : Char) : List Char :=
  if c = '"' then ['\\', '"']
  else if c = '\\' then ['\\', '\\']
  else if c = '\n' then ['\\', 'n']
  else if c = '\r' then ['\\', 'r']
  else if c = '\t' then ['\\', 't']
  else if c = '\x08' then ['\\', 'b']
  else if c = '\x0c' then ['\\', 'f']
  else if c.toNat < 0x20 then '\\' :: 'u' :: Text.hexDigits 4 c.toNat
  else [c]

/-- A text between quotation marks; only quotation marks, backslashes and control characters are
escaped. -/
def quote (s : String) : String :=
  String.ofList ('"' :: s.toList.flatMap escapeChar ++ ['"'])

def newline (level : Nat) : String :=
  "\n" ++ String.ofList (List.replicate (2 * level) ' ')

/-- Items between brackets, each on a line of its own one level further in. -/
def enclose (level : Nat) (opening closing : String) (items : List String) : String :=
  if items.isEmpty then opening ++ closing
  else
    opening ++ newline (level + 1) ++ ("," ++ newline (level + 1)).intercalate items ++
      newline level ++ closing

mutual
/-- The text of a value that stands on nesting level `level`: one item to a line, two spaces to a
level. -/
def render (level : Nat) : Json → String
  | string s => quote s
  | integer n => toString n
  | boolean b => if b then "true" else "false"
  | array items => enclose level "[" "]" (renderItems (level + 1) items)
  | object fields => enclose level "\x7b" "\x7d" (renderFields (level + 1) fields)

def renderItems (level : Nat) : List Json → List String
  | [] => []
  | v :: vs => render level v :: renderItems level vs

def renderFields (level : Nat) : List (String × Json) → List String
  | [] => []
  | (key, v) :: fs => (quote key ++ ": " ++ render level v) :: renderFields level fs
end

def text (v : Json) : String :=
  render 0 v

end Json

end XmlShape
