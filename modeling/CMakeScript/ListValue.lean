import CMakeScript.Text.Basic
/-! Lists inside a text: elements separated by semicolons. A backslash before a semicolon keeps it
in the element, and a semicolon between square brackets does not separate. -/
namespace CMakeScript.ListValue

def finished (keepEmpty : Bool) (element : List Char) : List (List Char) :=
  if keepEmpty || !element.isEmpty then [element.reverse] else []

/-- The elements of the text, given the element read so far (last character first) and the number
of open brackets. -/
def scan (keepEmpty : Bool) (element : List Char) (depth : Nat) : List Char → List (List Char)
  | [] => finished keepEmpty element
  | ['\\'] => finished keepEmpty ('\\' :: element)
  | '\\' :: c :: cs =>
    if c = ';' then scan keepEmpty (';' :: element) depth cs
    else scan keepEmpty (c :: '\\' :: element) depth cs
  | c :: cs =>
    if c = '[' then scan keepEmpty (c :: element) (depth + 1) cs
    else if c = ']' then scan keepEmpty (c :: element) (depth - 1) cs
    else if c = ';' ∧ depth = 0 then finished keepEmpty element ++ scan keepEmpty [] 0 cs
    else scan keepEmpty (c :: element) depth cs

def isSpecial (c : Char) : Bool := c == ';' || c == '[' || c == ']' || c == '\\'

def elements (keepEmpty : Bool) (value : String) : List String :=
  if value.isEmpty then (if keepEmpty then [""] else [])
  else if !value.toList.any isSpecial then [value]
  else (scan keepEmpty [] 0 value.toList).map String.ofList

def splitAll (value : String) : List String := elements true value

def split (value : String) : List String := elements false value

def join (items : List String) : String := Text.join ";" items

def isOff (value : String) : Bool :=
  let word := Text.upper value
  value.isEmpty || ["0", "OFF", "NO", "FALSE", "N", "IGNORE", "NOTFOUND"].contains word ||
    Text.endsWith word "-NOTFOUND"

def isOn (value : String) : Bool :=
  ["1", "ON", "YES", "TRUE", "Y"].contains (Text.upper value)

end CMakeScript.ListValue
