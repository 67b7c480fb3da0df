import CMakeScript.Engine.Messages
import CMakeScript.NaturalOrder
import CMakeScript.Text.Decimal
/-! Operations on lists that variables hold. An operation reads variables and answers either with
the reason why it fails, or with the variables that it writes; nothing is written before all of its
arguments were checked. -/
namespace CMakeScript.Command.ListOperation

structure Write where
  name : String
  value : Option String
  deriving DecidableEq, Repr

abbrev Answer := Except String (List Write)

def write (name value : String) : Answer := .ok [⟨name, some value⟩]

def writeList (name : String) (items : List String) : Answer := write name (ListValue.join items)

def itemsOf? (lookup : String → Option String) (name : String) : Option (List String) :=
  (lookup name).map fun value => if value.isEmpty then [] else ListValue.splitAll value

def index? (text : String) : Except String Int :=
  match Text.trimmedInt? text with
  | some i => .ok i
  | none => .error ("index: " ++ text ++ " is not a valid index")

def outOfRange (i : Int) (low high : String) : String :=
  "index: " ++ Text.signedDecimal i ++ " out of range (" ++ low ++ ", " ++ high ++ ")"

def elementIndex (i : Int) (size : Nat) : Except String Nat :=
  if 0 ≤ i ∧ i < size then .ok i.toNat
  else if i < 0 ∧ -i ≤ size then .ok (size + i).toNat
  else .error (outOfRange i ("-" ++ Text.decimal size) (Text.signedDecimal (size - 1)))

def insertIndex (i : Int) (size : Nat) : Except String Nat :=
  if 0 ≤ i ∧ i ≤ size then .ok i.toNat
  else if i < 0 ∧ -i ≤ size then .ok (size + i).toNat
  else .error (outOfRange i ("-" ++ Text.decimal size) (Text.decimal size))

def positions (size : Nat) (texts : List String) : Except String (List Nat) :=
  texts.mapM fun text => do elementIndex (← index? text) size

def length (lookup : String → Option String) : List String → Answer
  | [name, output] =>
    write output (Text.decimal ((itemsOf? lookup name).getD []).length)
  | _ => .error "sub-command LENGTH requires two arguments."

def get (lookup : String → Option String) : List String → Answer
  | name :: first :: second :: more =>
    let rest := first :: second :: more
    let output := rest.getLastD ""
    match itemsOf? lookup name with
    | none => write output "NOTFOUND"
    | some [] => .error "GET given empty list"
    | some items => do
      let found ← positions items.length rest.dropLast
      writeList output (found.map fun i => items[i]?.getD "")
  | _ => .error "sub-command GET requires at least three arguments."

def append (lookup : String → Option String) (front : Bool) : List String → Answer
  | name :: item :: more =>
    let added := ListValue.join (item :: more)
    let current := (lookup name).getD ""
    write name (if current.isEmpty then added
      else if front then added ++ ";" ++ current else current ++ ";" ++ added)
  | _ => .ok []

def handOut : List String → List String → List Write × List String
  | [], items => ([], items)
  | output :: outputs, [] =>
    let (writes, items) := handOut outputs []
    (⟨output, none⟩ :: writes, items)
  | output :: outputs, item :: items =>
    let (writes, items) := handOut outputs items
    (⟨output, some item⟩ :: writes, items)

def pop (lookup : String → Option String) (back : Bool) : List String → Answer
  | name :: outputs =>
    match itemsOf? lookup name with
    | none | some [] => .ok (outputs.map (⟨·, none⟩))
    | some items =>
      let queue := if back then items.reverse else items
      let (writes, rest) := if outputs.isEmpty then ([], queue.tail) else handOut outputs queue
      let kept := if back then rest.reverse else rest
      .ok (writes ++ [⟨name, some (ListValue.join kept)⟩])
  | [] => .ok []

def find (lookup : String → Option String) : List String → Answer
  | [name, item, output] =>
    let found := ((itemsOf? lookup name).getD []).findIdx? (· == item)
    write output (match found with
      | some i => Text.decimal i
      | none => "-1")
  | _ => .error "sub-command FIND requires three arguments."

def insert (lookup : String → Option String) : List String → Answer
  | name :: position :: item :: more => do
    let i ← index? position
    let items := (itemsOf? lookup name).getD []
    let place ←
      if items.isEmpty then
        if i = 0 ∨ i = -1 then .ok 0 else .error (outOfRange i "0" "0")
      else insertIndex i items.length
    writeList name (items.take place ++ (item :: more) ++ items.drop place)
  | _ => .error "sub-command INSERT requires at least three arguments."

def join (lookup : String → Option String) (arguments : List String) : Answer :=
  match arguments with
  | [name, glue, output] => write output (Text.join glue ((itemsOf? lookup name).getD []))
  | _ =>
    .error ("sub-command JOIN requires three arguments (" ++ Text.decimal arguments.length ++
      " found).")

def removeAt (lookup : String → Option String) : List String → Answer
  | name :: first :: more =>
    match itemsOf? lookup name with
    | none => .error ("index: " ++ first ++ " out of range (0, 0)")
    | some items => do
      let removed ← positions items.length (first :: more)
      writeList name ((items.zipIdx.filter fun (_, i) => !removed.contains i).map Prod.fst)
  | _ => .error "sub-command REMOVE_AT requires at least two arguments."

def removeItem (lookup : String → Option String) : List String → Answer
  | name :: first :: more =>
    match itemsOf? lookup name with
    | none => .ok []
    | some items => writeList name (items.filter fun item => !(first :: more).contains item)
  | _ => .error "sub-command REMOVE_ITEM requires two or more arguments."

def distinct : List String → List String
  | [] => []
  | item :: items => item :: (distinct items).filter (· != item)

def rearrange (lookup : String → Option String) (word : String)
    (f : List String → List String) : List String → Answer
  | [name] =>
    match itemsOf? lookup name with
    | none => .ok []
    | some items => writeList name (f items)
  | _ => .error ("sub-command " ++ word ++ " only takes one argument.")

inductive SortKey where
  | text
  | fileName
  | natural
  deriving DecidableEq, Repr

structure SortOptions where
  key : Option SortKey := none
  foldCase : Option Bool := none
  descending : Option Bool := none
  deriving DecidableEq, Repr

def SortOptions.take? (o : SortOptions) (name value : String) : Option SortOptions :=
  match name, value with
  | "COMPARE", "STRING" => some { o with key := some .text }
  | "COMPARE", "FILE_BASENAME" => some { o with key := some .fileName }
  | "COMPARE", "NATURAL" => some { o with key := some .natural }
  | "CASE", "SENSITIVE" => some { o with foldCase := some false }
  | "CASE", "INSENSITIVE" => some { o with foldCase := some true }
  | "ORDER", "ASCENDING" => some { o with descending := some false }
  | "ORDER", "DESCENDING" => some { o with descending := some true }
  | _, _ => none

def SortOptions.isGiven (o : SortOptions) (name : String) : Bool :=
  if name = "COMPARE" then o.key.isSome
  else if name = "CASE" then o.foldCase.isSome
  else o.descending.isSome

def sortKeywords : List String := ["COMPARE", "CASE", "ORDER"]

def SortOptions.read (o : SortOptions) : List String → Except String SortOptions
  | [] => .ok o
  | name :: rest =>
    let option := "sub-command SORT option \"" ++ name ++ "\""
    if !sortKeywords.contains name then .error (option ++ " is unknown.")
    else if o.isGiven name then .error (option ++ " has been specified multiple times.")
    else match rest with
      | [] => .error ("sub-command SORT missing argument for option \"" ++ name ++ "\".")
      | value :: rest =>
        match o.take? name value with
        | some o => o.read rest
        | none =>
          .error ("sub-command SORT value \"" ++ value ++ "\" for option \"" ++ name ++
            "\" is invalid.")

def SortOptions.keyOf (o : SortOptions) (item : String) : String :=
  let text :=
    if o.key = some .fileName then ((Text.split '/' item).getLast?).getD item else item
  if o.foldCase = some true then Text.lower text else text

def SortOptions.compare (o : SortOptions) (a b : String) : Ordering :=
  if o.key = some .natural then NaturalOrder.compare (o.keyOf a) (o.keyOf b)
  else Ord.compare (o.keyOf a) (o.keyOf b)

def SortOptions.sort (o : SortOptions) (items : List String) : List String :=
  let sorted := items.mergeSort fun a b => o.compare a b != .gt
  if o.descending = some true then sorted.reverse else sorted

def sort (lookup : String → Option String) : List String → Answer
  | [] => .ok []
  | name :: options => do
    let o ← SortOptions.read {} options
    match itemsOf? lookup name with
    | none => .ok []
    | some items => writeList name (o.sort items)

def sublist (lookup : String → Option String) (arguments : List String) : Answer :=
  match arguments with
  | [name, start, length, output] =>
    match itemsOf? lookup name with
    | none | some [] => write output ""
    | some items => do
      let start ← index? start
      let length ← index? length
      if start < 0 ∨ items.length ≤ start then
        .error ("begin index: " ++ Text.signedDecimal start ++ " is out of range 0 - " ++
          Text.decimal (items.length - 1))
      else if length < -1 then
        .error ("length: " ++ Text.signedDecimal length ++ " should be -1 or greater")
      else
        let rest := items.drop start.toNat
        writeList output (if length = -1 then rest else rest.take length.toNat)
  | _ =>
    .error ("sub-command SUBLIST requires four arguments (" ++ Text.decimal arguments.length ++
      " found).")

def answer (lookup : String → Option String) (word : String) (arguments : List String) :
    Answer :=
  match word with
  | "LENGTH" => length lookup arguments
  | "GET" => get lookup arguments
  | "APPEND" => append lookup false arguments
  | "PREPEND" => append lookup true arguments
  | "POP_BACK" => pop lookup true arguments
  | "POP_FRONT" => pop lookup false arguments
  | "FIND" => find lookup arguments
  | "INSERT" => insert lookup arguments
  | "JOIN" => join lookup arguments
  | "REMOVE_AT" => removeAt lookup arguments
  | "REMOVE_ITEM" => removeItem lookup arguments
  | "REMOVE_DUPLICATES" => rearrange lookup word distinct arguments
  | "REVERSE" => rearrange lookup word List.reverse arguments
  | "SORT" => sort lookup arguments
  | "SUBLIST" => sublist lookup arguments
  | _ => .error ("does not recognize sub-command " ++ word)

end ListOperation

def list : List String → Step Verdict
  | word :: name :: rest => do
    match ListOperation.answer (← get).definition? word (name :: rest) with
    | .ok writes => do
      modify fun e => writes.foldl (fun e w => e.assign w.name w.value) e
      Step.done
    | .error text => Step.fail text
  | _ => Step.fail "must be called with at least two arguments."

end CMakeScript.Command
