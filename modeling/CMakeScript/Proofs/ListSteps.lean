import CMakeScript.Command.List
import CMakeScript.Proofs.CurrentScope
/-! The operations on lists step by step. Variables are read, arguments are checked and variables
are written in turn, and an argument that is wrong ends the operation where it is met. As nothing is
written before the last check, this comes to the same as to write the answer of the operation. -/
namespace CMakeScript.Command

abbrev ListTask := ExceptT String Step

namespace ListTask

open ListOperation

def items? (name : String) : ListTask (Option (List String)) := do
  return itemsOf? (← MonadState.get).definition? name

def store (name value : String) : ListTask Unit := Step.define name value

def remove (name : String) : ListTask Unit := modify (·.undefine name)

def storeItems (name : String) (items : List String) : ListTask Unit :=
  store name (ListValue.join items)

def length : List String → ListTask Unit
  | [name, output] => do
    let items := (← items? name).getD []
    store output (Text.decimal items.length)
  | _ => throw "sub-command LENGTH requires two arguments."

def get : List String → ListTask Unit
  | name :: first :: second :: more => do
    let rest := first :: second :: more
    let output := rest.getLastD ""
    match ← items? name with
    | none => store output "NOTFOUND"
    | some [] => throw "GET given empty list"
    | some items =>
      let found ← ofExcept (positions items.length rest.dropLast)
      storeItems output (found.map fun i => items[i]?.getD "")
  | _ => throw "sub-command GET requires at least three arguments."

def append (front : Bool) : List String → ListTask Unit
  | name :: item :: more => do
    let current := (← MonadState.get).value name
    let added := ListValue.join (item :: more)
    store name (if current.isEmpty then added
      else if front then added ++ ";" ++ current else current ++ ";" ++ added)
  | _ => return

def take? (back : Bool) (items : List String) : Option (String × List String) :=
  if back then items.getLast?.map (·, items.dropLast) else items.head?.map (·, items.tail)

def handOut (back : Bool) : List String → List String → ListTask (List String)
  | [], items => return items
  | output :: outputs, items => do
    match take? back items with
    | some (item, rest) =>
      store output item
      handOut back outputs rest
    | none =>
      remove output
      handOut back outputs items

def pop (back : Bool) : List String → ListTask Unit
  | name :: outputs => do
    match ← items? name with
    | none | some [] => outputs.forM remove
    | some items =>
      if outputs.isEmpty then storeItems name (((take? back items).map Prod.snd).getD [])
      else storeItems name (← handOut back outputs items)
  | [] => return

def find : List String → ListTask Unit
  | [name, item, output] => do
    let items := (← items? name).getD []
    store output (match items.findIdx? (· == item) with
      | some i => Text.decimal i
      | none => "-1")
  | _ => throw "sub-command FIND requires three arguments."

def insert : List String → ListTask Unit
  | name :: position :: item :: more => do
    let i ← ofExcept (index? position)
    let items := (← items? name).getD []
    let place ←
      if items.isEmpty then
        if i = 0 ∨ i = -1 then pure 0 else throw (outOfRange i "0" "0")
      else ofExcept (insertIndex i items.length)
    storeItems name (items.take place ++ (item :: more) ++ items.drop place)
  | _ => throw "sub-command INSERT requires at least three arguments."

def join (arguments : List String) : ListTask Unit :=
  match arguments with
  | [name, glue, output] => do
    let items := (← items? name).getD []
    store output (Text.join glue items)
  | _ =>
    throw ("sub-command JOIN requires three arguments (" ++ Text.decimal arguments.length ++
      " found).")

def removeAt : List String → ListTask Unit
  | name :: first :: more => do
    match ← items? name with
    | none => throw ("index: " ++ first ++ " out of range (0, 0)")
    | some items =>
      let removed ← ofExcept (positions items.length (first :: more))
      storeItems name ((items.zipIdx.filter fun (_, i) => !removed.contains i).map Prod.fst)
  | _ => throw "sub-command REMOVE_AT requires at least two arguments."

def change (name : String) (f : List String → List String) : ListTask Unit := do
  match ← items? name with
  | none => return
  | some items => storeItems name (f items)

def removeItem : List String → ListTask Unit
  | name :: first :: more => change name (·.filter fun item => !(first :: more).contains item)
  | _ => throw "sub-command REMOVE_ITEM requires two or more arguments."

def rearrange (word : String) (f : List String → List String) : List String → ListTask Unit
  | [name] => change name f
  | _ => throw ("sub-command " ++ word ++ " only takes one argument.")

def sort : List String → ListTask Unit
  | [] => return
  | name :: options => do
    let o ← ofExcept (SortOptions.read {} options)
    change name o.sort

def sublist (arguments : List String) : ListTask Unit :=
  match arguments with
  | [name, start, length, output] => do
    match ← items? name with
    | none | some [] => store output ""
    | some items =>
      let start ← ofExcept (index? start)
      let length ← ofExcept (index? length)
      if start < 0 ∨ items.length ≤ start then
        throw ("begin index: " ++ Text.signedDecimal start ++ " is out of range 0 - " ++
          Text.decimal (items.length - 1))
      else if length < -1 then
        throw ("length: " ++ Text.signedDecimal length ++ " should be -1 or greater")
      else
        let rest := items.drop start.toNat
        storeItems output (if length = -1 then rest else rest.take length.toNat)
  | _ =>
    throw ("sub-command SUBLIST requires four arguments (" ++ Text.decimal arguments.length ++
      " found).")

def perform (word : String) (arguments : List String) : ListTask Unit :=
  match word with
  | "LENGTH" => length arguments
  | "GET" => get arguments
  | "APPEND" => append false arguments
  | "PREPEND" => append true arguments
  | "POP_BACK" => pop true arguments
  | "POP_FRONT" => pop false arguments
  | "FIND" => find arguments
  | "INSERT" => insert arguments
  | "JOIN" => join arguments
  | "REMOVE_AT" => removeAt arguments
  | "REMOVE_ITEM" => removeItem arguments
  | "REMOVE_DUPLICATES" => rearrange word distinct arguments
  | "REVERSE" => rearrange word List.reverse arguments
  | "SORT" => sort arguments
  | "SUBLIST" => sublist arguments
  | _ => throw ("does not recognize sub-command " ++ word)

def verdict : List String → Step Verdict
  | word :: name :: rest => do
    match ← (perform word (name :: rest)).run with
    | .ok () => Step.done
    | .error text => Step.fail text
  | _ => Step.fail "must be called with at least two arguments."

def outputs (word : String) (arguments : List String) : List String :=
  match word with
  | "LENGTH" | "GET" | "FIND" | "JOIN" | "SUBLIST" => arguments.getLast?.toList
  | "POP_BACK" | "POP_FRONT" => arguments
  | _ => arguments.head?.toList

def writeAll (writes : List Write) (e : Engine) : Engine :=
  writes.foldl (fun e w => e.assign w.name w.value) e

theorem writeAllAppend (writes : List Write) (w : Write) (e : Engine) :
    writeAll (writes ++ [w]) e = (writeAll writes e).assign w.name w.value :=
  List.foldl_append ..

/-- The task does what its answer says: it fails where it starts, or it writes all, and to these
names only. -/
structure Answers (names : List String) (task : ListTask Unit) (e : Engine) (answer : Answer) :
    Prop where
  ran : task e = match answer with
    | .ok writes => (.ok (), writeAll writes e)
    | .error text => (.error text, e)
  named : ∀ writes, answer = .ok writes → ∀ w ∈ writes, w.name ∈ names

variable {e e' : Engine} {α β : Type} {answer : Answer} {names : List String} {name : String}

theorem answersThrow (text : String) : Answers names (throw text) e (.error text) := ⟨rfl, nofun⟩

theorem answersNothing : Answers names (pure ()) e (.ok []) := ⟨rfl, by rintro _ ⟨⟩ w ⟨⟩⟩

theorem answersStore (member : name ∈ names) (value : String) :
    Answers names (store name value) e (write name value) :=
  ⟨rfl, by rintro _ ⟨⟩ w ⟨⟩; exacts [member, by contradiction]⟩

theorem answersRead {k : Engine → ListTask Unit} (next : Answers names (k e) e answer) :
    Answers names (MonadState.get >>= k) e answer :=
  ⟨next.ran, next.named⟩

theorem answersItems {k : Option (List String) → ListTask Unit}
    (next : Answers names (k (itemsOf? e.definition? name)) e answer) :
    Answers names (items? name >>= k) e answer :=
  ⟨next.ran, next.named⟩

theorem answersCheck {check : Except String α} {k : α → ListTask Unit} {next : α → Answer}
    (passes : ∀ a, Answers names (k a) e (next a)) :
    Answers names (ofExcept check >>= k) e (check >>= next) := by
  cases check with
  | ok a => exact ⟨(passes a).ran, (passes a).named⟩
  | error text => exact ⟨rfl, nofun⟩

theorem bindRan {task : ListTask α} {k : α → ListTask β} {a : α}
    (ran : task e = (.ok a, e')) : (task >>= k) e = k a e' :=
  Step.bindRan (s := task) (k := ExceptT.bindCont k) ran

theorem answersLength :
    ∀ arguments, Answers arguments.getLast?.toList (length arguments) e
      (ListOperation.length e.definition? arguments)
  | [_, _] => answersItems (answersStore List.mem_cons_self _)
  | [] | [_] | _ :: _ :: _ :: _ => answersThrow _

theorem answersGet :
    ∀ arguments, Answers arguments.getLast?.toList (get arguments) e
      (ListOperation.get e.definition? arguments)
  | name :: first :: second :: more => by
    have last : (first :: second :: more).getLastD "" ∈
        (name :: first :: second :: more).getLast?.toList := by
      simp [List.getLastD_eq_getLast?, List.getLast?_cons]
    unfold get ListOperation.get
    dsimp only
    refine answersItems ?_
    cases itemsOf? e.definition? name with
    | none => exact answersStore last _
    | some items =>
      cases items with
      | nil => exact answersThrow _
      | cons item items => exact answersCheck fun _ => answersStore last _
  | [] | [_] | [_, _] => answersThrow _

theorem answersAppend (front : Bool) :
    ∀ arguments, Answers arguments.head?.toList (append front arguments) e
      (ListOperation.append e.definition? front arguments)
  | name :: _ :: _ => by
    unfold append ListOperation.append
    exact answersRead (answersStore List.mem_cons_self _)
  | [] | [_] => answersNothing

def queue (back : Bool) (items : List String) : List String :=
  if back then items.reverse else items

theorem queueTwice (back : Bool) (items : List String) : queue back (queue back items) = items := by
  cases back with
  | false => rfl
  | true => exact items.reverse_reverse

theorem takeQueue (back : Bool) (items : List String) :
    take? back (queue back items) = items.head?.map (·, queue back items.tail) := by
  cases back with
  | false => rfl
  | true => cases items <;> simp [take?, queue]

theorem restQueue (back : Bool) (items : List String) :
    ((take? back items).map Prod.snd).getD [] = queue back (queue back items).tail := by
  have taken := takeQueue back (queue back items)
  rw [queueTwice] at taken
  rw [taken]
  cases queue back items with
  | nil => cases back <;> rfl
  | cons => rfl

theorem handOutQueue (back : Bool) (outputs items : List String) (e : Engine) :
    handOut back outputs (queue back items) e =
      (.ok (queue back (ListOperation.handOut outputs items).2),
        writeAll (ListOperation.handOut outputs items).1 e) := by
  induction outputs generalizing items e with
  | nil => rfl
  | cons output outputs ih =>
    unfold handOut
    rw [takeQueue]
    cases items with
    | nil => exact ih [] (e.undefine output)
    | cons item items => exact ih items (e.define output item)

theorem handOutNames (outputs items : List String) :
    (ListOperation.handOut outputs items).1.map Write.name = outputs := by
  induction outputs generalizing items with
  | nil => rfl
  | cons output outputs ih =>
    cases items with
    | nil => exact congrArg (output :: ·) (ih [])
    | cons item items => exact congrArg (output :: ·) (ih items)

theorem answersHandOut (back : Bool) (name : String) (outputs items : List String) :
    let handed := ListOperation.handOut outputs (queue back items)
    Answers (name :: outputs) (handOut back outputs items >>= storeItems name) e
      (.ok (handed.1 ++ [⟨name, some (ListValue.join (queue back handed.2))⟩])) := by
  intro handed
  have ran := handOutQueue back outputs (queue back items) e
  rw [queueTwice] at ran
  constructor
  case ran =>
    refine (bindRan ran).trans ?_
    exact congrArg (Prod.mk _) (writeAllAppend handed.1 ⟨name, some _⟩ e).symm
  case named =>
    rintro _ ⟨⟩ w member
    rcases List.mem_append.mp member with given | last
    · rw [← handOutNames outputs (queue back items)]
      exact List.mem_cons_of_mem _ (List.mem_map_of_mem given)
    · rw [List.mem_singleton.mp last]
      exact List.mem_cons_self

theorem answersRemove (name : String) (outputs : List String) :
    Answers (name :: outputs) (outputs.forM remove) e (.ok (outputs.map (⟨·, none⟩))) := by
  constructor
  case ran =>
    induction outputs generalizing e with
    | nil => rfl
    | cons output outputs ih => exact ih
  case named =>
    rintro _ ⟨⟩ w member
    obtain ⟨output, inside, rfl⟩ := List.mem_map.mp member
    exact List.mem_cons_of_mem _ inside

theorem answersPop (back : Bool) :
    ∀ arguments, Answers arguments (pop back arguments) e
      (ListOperation.pop e.definition? back arguments)
  | name :: outputs => by
    unfold pop ListOperation.pop
    dsimp only
    refine answersItems ?_
    cases itemsOf? e.definition? name with
    | none => exact answersRemove name outputs
    | some items =>
      cases items with
      | nil => exact answersRemove name outputs
      | cons item more =>
        cases outputs with
        | nil =>
          have stored {rest kept : List String} (same : rest = kept) :
              Answers [name] (storeItems name rest) e (writeList name kept) := by
            subst same
            exact answersStore List.mem_cons_self _
          exact stored (restQueue back (item :: more))
        | cons output outputs =>
          exact answersHandOut back name (output :: outputs) (item :: more)
  | [] => answersNothing

theorem answersFind :
    ∀ arguments, Answers arguments.getLast?.toList (find arguments) e
      (ListOperation.find e.definition? arguments)
  | [_, _, _] => answersItems (answersStore List.mem_cons_self _)
  | [] | [_] | [_, _] | _ :: _ :: _ :: _ :: _ => answersThrow _

theorem answersInsert :
    ∀ arguments, Answers arguments.head?.toList (insert arguments) e
      (ListOperation.insert e.definition? arguments)
  | name :: position :: item :: more => by
    unfold insert ListOperation.insert
    refine answersCheck fun i => answersItems ?_
    dsimp only
    split
    · split
      · exact answersStore List.mem_cons_self _
      · exact answersThrow _
    · exact answersCheck fun _ => answersStore List.mem_cons_self _
  | [] | [_] | [_, _] => answersThrow _

theorem answersJoin :
    ∀ arguments, Answers arguments.getLast?.toList (join arguments) e
      (ListOperation.join e.definition? arguments)
  | [_, _, _] => answersItems (answersStore List.mem_cons_self _)
  | [] | [_] | [_, _] | _ :: _ :: _ :: _ :: _ => answersThrow _

theorem answersRemoveAt :
    ∀ arguments, Answers arguments.head?.toList (removeAt arguments) e
      (ListOperation.removeAt e.definition? arguments)
  | name :: first :: more => by
    unfold removeAt ListOperation.removeAt
    dsimp only
    refine answersItems ?_
    cases itemsOf? e.definition? name with
    | none => exact answersThrow _
    | some items => exact answersCheck fun _ => answersStore List.mem_cons_self _
  | [] | [_] => answersThrow _

theorem answersChange (member : name ∈ names) (f : List String → List String) :
    Answers names (change name f) e (match itemsOf? e.definition? name with
      | none => .ok []
      | some items => writeList name (f items)) := by
  refine answersItems ?_
  cases itemsOf? e.definition? name with
  | none => exact answersNothing
  | some items => exact answersStore member _

theorem answersRemoveItem :
    ∀ arguments, Answers arguments.head?.toList (removeItem arguments) e
      (ListOperation.removeItem e.definition? arguments)
  | _ :: _ :: _ => answersChange List.mem_cons_self _
  | [] | [_] => answersThrow _

theorem answersRearrange (word : String) (f : List String → List String) :
    ∀ arguments, Answers arguments.head?.toList (rearrange word f arguments) e
      (ListOperation.rearrange e.definition? word f arguments)
  | [_] => answersChange List.mem_cons_self f
  | [] | _ :: _ :: _ => answersThrow _

theorem answersSort :
    ∀ arguments, Answers arguments.head?.toList (sort arguments) e
      (ListOperation.sort e.definition? arguments)
  | _ :: _ => answersCheck fun o => answersChange List.mem_cons_self o.sort
  | [] => answersNothing

theorem answersSublist :
    ∀ arguments, Answers arguments.getLast?.toList (sublist arguments) e
      (ListOperation.sublist e.definition? arguments)
  | [name, start, length, output] => by
    unfold sublist ListOperation.sublist
    dsimp only
    refine answersItems ?_
    cases itemsOf? e.definition? name with
    | none => exact answersStore List.mem_cons_self _
    | some items =>
      cases items with
      | nil => exact answersStore List.mem_cons_self _
      | cons item items =>
        refine answersCheck fun first => answersCheck fun count => ?_
        split
        · exact answersThrow _
        · split
          · exact answersThrow _
          · exact answersStore List.mem_cons_self _
  | [] | [_] | [_, _] | [_, _, _] | _ :: _ :: _ :: _ :: _ :: _ => answersThrow _

theorem answersPerform (word : String) (arguments : List String) :
    Answers (outputs word arguments) (perform word arguments) e
      (ListOperation.answer e.definition? word arguments) := by
  unfold perform
  split
  · exact answersLength arguments
  · exact answersGet arguments
  · exact answersAppend false arguments
  · exact answersAppend true arguments
  · exact answersPop true arguments
  · exact answersPop false arguments
  · exact answersFind arguments
  · exact answersInsert arguments
  · exact answersJoin arguments
  · exact answersRemoveAt arguments
  · exact answersRemoveItem arguments
  · exact answersRearrange "REMOVE_DUPLICATES" distinct arguments
  · exact answersRearrange "REVERSE" List.reverse arguments
  · exact answersSort arguments
  · exact answersSublist arguments
  · have unknown : ListOperation.answer e.definition? word arguments =
        .error ("does not recognize sub-command " ++ word) := by
      unfold ListOperation.answer
      split <;> first | contradiction | rfl
    exact unknown ▸ answersThrow _

theorem verdictList (words : List String) : verdict words = Command.list words := by
  match words with
  | [] | [_] => rfl
  | word :: name :: rest =>
    funext e
    have performed := (answersPerform (e := e) word (name :: rest)).ran
    refine (Step.bindRan performed).trans ?_
    change _ = (match ListOperation.answer e.definition? word (name :: rest) with
      | .ok writes => (do
        modify (writeAll writes)
        Step.done : Step Verdict)
      | .error text => Step.fail text) e
    cases ListOperation.answer e.definition? word (name :: rest) <;> rfl

end ListTask
end CMakeScript.Command
