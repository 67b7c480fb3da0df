/-! Text as lists of characters. Lengths and offsets count UTF-8 bytes, case mapping touches
ASCII letters only, and blanks are the characters with the Unicode property White_Space. -/
namespace CMakeScript.Text

def byteLength : List Char → Nat
  | [] => 0
  | c :: cs => c.utf8Size + byteLength cs

def isBlank (c : Char) : Bool :=
  let n := c.toNat
  (9 ≤ n && n ≤ 13) || n == 0x20 || n == 0x85 || n == 0xA0 || n == 0x1680 ||
    (0x2000 ≤ n && n ≤ 0x200A) || n == 0x2028 || n == 0x2029 || n == 0x202F ||
    n == 0x205F || n == 0x3000

def isDigit (c : Char) : Bool := '0' ≤ c && c ≤ '9'

def isLetter (c : Char) : Bool := ('a' ≤ c && c ≤ 'z') || ('A' ≤ c && c ≤ 'Z')

def isAlphanumeric (c : Char) : Bool := isLetter c || isDigit c

def isHexDigit (c : Char) : Bool :=
  isDigit c || ('a' ≤ c && c ≤ 'f') || ('A' ≤ c && c ≤ 'F')

def isAscii (c : Char) : Bool := c.toNat < 128

def lower (s : String) : String := String.ofList (s.toList.map Char.toLower)

def upper (s : String) : String := String.ofList (s.toList.map Char.toUpper)

def splitOn (sep : Char) : List Char → List (List Char)
  | [] => [[]]
  | c :: cs =>
    if c = sep then [] :: splitOn sep cs
    else match splitOn sep cs with
      | [] => [[c]]
      | piece :: pieces => (c :: piece) :: pieces

def split (sep : Char) (s : String) : List String :=
  (splitOn sep s.toList).map String.ofList

def cutAt (mark : List Char) : List Char → Option (List Char × List Char)
  | [] => if mark.isEmpty then some ([], []) else none
  | c :: cs =>
    if mark.isPrefixOf (c :: cs) then some ([], (c :: cs).drop mark.length)
    else (cutAt mark cs).map fun (before, after) => (c :: before, after)

def startsWith (s mark : String) : Bool := mark.toList.isPrefixOf s.toList

def endsWith (s mark : String) : Bool := mark.toList.isSuffixOf s.toList

def stripStart? (s mark : String) : Option String :=
  if startsWith s mark then some (String.ofList (s.toList.drop mark.toList.length)) else none

def stripEnd? (s mark : String) : Option String :=
  if endsWith s mark then
    some (String.ofList (s.toList.take (s.toList.length - mark.toList.length)))
  else none

def dropWhileEnd (p : Char → Bool) (cs : List Char) : List Char :=
  (cs.reverse.dropWhile p).reverse

def replaceChar (c : Char) (new : List Char) (cs : List Char) : List Char :=
  cs.flatMap fun d => if d = c then new else [d]

def position? (mark text : List Char) : Option Nat :=
  (cutAt mark text).map fun (before, _) => byteLength before

def lastPosition? (mark text : List Char) : Option Nat :=
  (cutAt mark.reverse text.reverse).map fun (_, before) => byteLength before

def replaceFrom (old new : List Char) : Nat → List Char → List Char
  | _, [] => []
  | skipped + 1, _ :: cs => replaceFrom old new skipped cs
  | 0, c :: cs =>
    if old.isPrefixOf (c :: cs) then new ++ replaceFrom old new (old.length - 1) cs
    else c :: replaceFrom old new 0 cs

def replaceAll (old new text : String) : String :=
  if old.isEmpty then text
  else String.ofList (replaceFrom old.toList new.toList 0 text.toList)

def cutChar (c : Char) (first stop : Nat) : List Char :=
  let stop := min stop c.utf8Size
  if first = 0 then
    if stop = c.utf8Size then [c] else if stop = 0 then [] else ['\uFFFD']
  else List.replicate (stop - first) '\uFFFD'

def cutBytes : Nat → Nat → List Char → List Char
  | _, _, [] => []
  | first, stop, c :: cs =>
    cutChar c first stop ++ cutBytes (first - c.utf8Size) (stop - c.utf8Size) cs

def join (sep : String) (parts : List String) : String := sep.intercalate parts

end CMakeScript.Text
