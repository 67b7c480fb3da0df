import CMakeScript.Text.Basic
/-! Lexical paths: joining, removal of `.` and `..`, parents, and display relative to a directory.
Nothing here looks at a file system. -/
namespace CMakeScript.Path

def isAbsolute (path : List Char) : Bool := path.head? == some '/'

def pushComponent (absolute : Bool) (stack : List (List Char)) (part : List Char) :
    List (List Char) :=
  if part = [] ∨ part = ['.'] then stack
  else if part = ['.', '.'] then
    match stack with
    | [] => if absolute then [] else [part]
    | top :: below =>
      if top ≠ ['.', '.'] then below else if absolute then stack else part :: stack
  else part :: stack

def joinComponents (parts : List (List Char)) : List Char := ['/'].intercalate parts

def normalize (path : List Char) : List Char :=
  let absolute := isAbsolute path
  let body := joinComponents
    ((Text.splitOn '/' path).foldl (pushComponent absolute) []).reverse
  if absolute then '/' :: body
  else if body.isEmpty then ['.'] else body

def resolve (path base : List Char) : List Char :=
  if isAbsolute path || base.isEmpty then path
  else Text.dropWhileEnd (· == '/') base ++ '/' :: path

def full (path base : String) : String :=
  String.ofList (normalize (resolve path.toList base.toList))

def parent (path : String) : String :=
  let cs := path.toList
  if !cs.contains '/' then ""
  else
    let before := ((cs.reverse.dropWhile (· != '/')).drop 1).reverse
    if before.isEmpty then "/" else String.ofList before

inductive Component where
  | root
  | here
  | name (text : List Char)
  deriving DecidableEq, Repr

def isSilent (piece : List Char) : Bool := piece.isEmpty || piece == ['.']

def components (path : List Char) : List Component :=
  let pieces := Text.splitOn '/' path
  let names := fun (ps : List (List Char)) => (ps.filter (!isSilent ·)).map Component.name
  match pieces with
  | [] :: rest => if rest.isEmpty then [] else .root :: names rest
  | ['.'] :: rest => .here :: names rest
  | _ => names pieces

def trimSilentEnd (pieces : List (List Char)) : List (List Char) :=
  (pieces.reverse.dropWhile isSilent).reverse

def dropNamed : Nat → List (List Char) → List (List Char)
  | 0, pieces => pieces
  | _ + 1, [] => []
  | n + 1, piece :: pieces =>
    if isSilent piece then dropNamed (n + 1) pieces else dropNamed n pieces

def below? (path top : List Char) : Option (List Char) :=
  let goal := components top
  let own := components path
  if !goal.isPrefixOf own then none
  else
    let pieces := Text.splitOn '/' path
    match own.head?, goal with
    | some .root, [] => some ('/' :: joinComponents (trimSilentEnd (pieces.drop 1)))
    | some .here, [] => some (joinComponents (['.'] :: trimSilentEnd (pieces.drop 1)))
    | _, [] => some (joinComponents (trimSilentEnd pieces))
    | some .root, _ :: rest | some .here, _ :: rest =>
      some (joinComponents
        (trimSilentEnd ((dropNamed rest.length (pieces.drop 1)).dropWhile isSilent)))
    | _, _ =>
      some (joinComponents
        (trimSilentEnd ((dropNamed goal.length pieces).dropWhile isSilent)))

def display (path : String) (top : Option String) : String :=
  match top.bind fun t => below? path.toList t.toList with
  | some short => String.ofList short
  | none => path

end CMakeScript.Path
