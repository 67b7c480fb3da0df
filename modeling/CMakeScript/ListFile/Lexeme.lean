import CMakeScript.Text.Basic
/-! The smallest pieces of a list file. Each scanner cuts a piece off the front of a text; what it
takes and what it leaves make up the text again. -/
namespace CMakeScript.Lexeme

def isSpace (c : Char) : Bool := c == ' ' || c == '\t'

def isNameStart (c : Char) : Bool := Text.isLetter c || c == '_'

def isNameRest (c : Char) : Bool := Text.isAlphanumeric c || c == '_'

def isLineEnd (c : Char) : Bool := c == '\n' || c == '\r'

def endsUnquoted (c : Char) : Bool :=
  Text.isBlank c || c == '(' || c == ')' || c == '#'

def name? : List Char → Option (List Char × List Char)
  | c :: cs =>
    if isNameStart c then some (c :: cs.takeWhile isNameRest, cs.dropWhile isNameRest) else none
  | [] => none

def newline? : List Char → Option (List Char × List Char)
  | '\r' :: '\n' :: cs => some (['\r', '\n'], cs)
  | '\n' :: cs => some (['\n'], cs)
  | '\r' :: cs => some (['\r'], cs)
  | _ => none

def bracketOpen? : List Char → Option (Nat × List Char)
  | '[' :: cs =>
    match cs.dropWhile (· == '=') with
    | '[' :: rest => some ((cs.takeWhile (· == '=')).length, rest)
    | _ => none
  | _ => none

def bracketMark (mark : Char) (level : Nat) : List Char :=
  mark :: List.replicate level '=' ++ [mark]

def quotedBody? : List Char → Option (List Char × List Char)
  | [] => none
  | '"' :: cs => some ([], cs)
  | '\\' :: c :: cs => (quotedBody? cs).map fun (body, rest) => ('\\' :: c :: body, rest)
  | ['\\'] => none
  | c :: cs => (quotedBody? cs).map fun (body, rest) => (c :: body, rest)

def joinLines : List Char → List Char
  | '\\' :: '\r' :: '\n' :: cs => joinLines cs
  | '\\' :: '\r' :: cs => joinLines cs
  | '\\' :: '\n' :: cs => joinLines cs
  | '\\' :: c :: cs => '\\' :: c :: joinLines cs
  | c :: cs => c :: joinLines cs
  | [] => []

/-- An unquoted argument as written and the text after it; `none` when a quote inside it is never
closed. The flag says whether such a quote is open. -/
def unquoted? (inQuote : Bool) : List Char → Option (List Char × List Char)
  | [] => if inQuote then none else some ([], [])
  | ['\\'] => if inQuote then none else some (['\\'], [])
  | '\\' :: c :: cs =>
    (unquoted? inQuote cs).map fun (body, rest) => ('\\' :: c :: body, rest)
  | c :: cs =>
    if c = '"' then (unquoted? (!inQuote) cs).map fun (body, rest) => (c :: body, rest)
    else if !inQuote && endsUnquoted c then some ([], c :: cs)
    else (unquoted? inQuote cs).map fun (body, rest) => (c :: body, rest)

def dropFirstNewline : List Char → List Char
  | '\r' :: '\n' :: cs => cs
  | '\n' :: cs => cs
  | cs => cs

def describe (cs : List Char) : String :=
  match cs with
  | [] => "end of file"
  | c :: rest =>
    if c = '(' then "left paren with text \"(\""
    else if c = ')' then "right paren with text \")\""
    else if isLineEnd c then "newline"
    else if c = '"' then "quoted argument"
    else if (bracketOpen? cs).isSome then "bracket argument"
    else
      let stops := fun d => Text.isBlank d || d == '(' || d == ')'
      let word := if stops c then [c] else c :: rest.takeWhile (!stops ·)
      let kind :=
        if (name? word).any (·.2.isEmpty) then "identifier" else "unquoted argument"
      kind ++ " with text \"" ++ String.ofList word ++ "\""

end CMakeScript.Lexeme
