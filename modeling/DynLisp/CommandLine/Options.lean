import DynLisp.Text.Integer
import DynLisp.Text.Quoted

/-!
# Options

What the arguments of the command line ask for.

An argument that starts with a dash is an option; the other arguments are operands, and so are a
lone dash, a negative number and an argument with a space in it that names no option.  After `--`
every argument is an operand.  A long option may be shortened as long as it can be told apart from
the others.  A value stands after an equals sign, directly after a short option, or is the next
argument if that is an operand.  What stands in this way at a short option that takes no value are
the letters of more short options.

The separator `--` is dropped from every value, also from one that consists of nothing else.  An
option may therefore be given and yet be set to nothing.

The arguments are read in two passes.  `Word.classify` says what each argument is, and
`Reading.read` takes the words in order.  Of several mistakes the first is refused; options that do
not exist and operands that are too many count as one mistake at the end.  Asking for help ends the
reading.
-/

namespace DynLisp

/-- What an option that was given is set to. -/
inductive Setting (α : Type) where
  /-- The separator stood where the value should have been. -/
  | nothing
  | value (a : α)
  deriving DecidableEq, Repr, Inhabited

/-- The recursion limit of a run that sets none. -/
def standardLimit : Int := 10000

/-- What is to be done, and how. -/
structure Options where
  file : Option String := none
  expr : Option (Setting String) := none
  debug : Bool := false
  recursionLimit : Setting Int := .value standardLimit
  deriving DecidableEq, Repr, Inhabited

/-- What arguments ask for. -/
inductive Request where
  | run (options : Options)
  | help
  /-- The arguments are refused, for the reason that `message` gives. -/
  | refuse (message : String)
  deriving DecidableEq, Repr, Inhabited

/-- The options that exist. -/
inductive Switch where
  | help
  | expr
  | debug
  | recursionLimit
  deriving DecidableEq, Repr, Inhabited

namespace Switch

/-- The ways in which options are written. -/
def spellings : List (String × Switch) :=
  [("-h", help), ("--help", help), ("-e", expr), ("--expr", expr), ("--debug", debug),
    ("--recursion-limit", recursionLimit)]

/-- An option as messages call it. -/
def title : Switch → String
  | help => "-h/--help"
  | expr => "-e/--expr"
  | debug => "--debug"
  | recursionLimit => "--recursion-limit"

/-- Whether an option needs a value. -/
def takesValue : Switch → Bool
  | help | debug => false
  | expr | recursionLimit => true

/-- The refusal of an option for a reason. -/
def refuse (s : Switch) (reason : String) : Request :=
  .refuse ("argument " ++ s.title ++ ": " ++ reason)

/-- The refusal of an option that needs a value and has none. -/
def refuseMissing (s : Switch) : Request := s.refuse "expected one argument"

/-- The refusal of an option that takes no value and has one. -/
def refuseExtra (s : Switch) (value : List Char) : Request :=
  s.refuse ("ignored explicit argument " ++ Quoted.write (String.ofList value))

end Switch

/-! ## Words -/

/-- What an argument is. -/
inductive Word where
  | operand (s : String)
  /-- The argument `--`. -/
  | separator
  /-- An option, whether it is written with one dash, and the value in the same argument. -/
  | switch (s : Switch) (short : Bool) (attached : Option (List Char))
  /-- An option that does not exist. -/
  | unknown (s : String)
  deriving DecidableEq, Repr, Inhabited

namespace Word

/-- The argument after which there are only operands. -/
def separatorText : String := "--"

/-- Whether an argument is a negative number, with or without a decimal point. -/
def isNegativeNumber : List Char → Bool
  | '-' :: cs =>
    let whole := cs.takeWhile fun c => (digitValue? c).isSome
    let isRun (ds : List Char) : Bool := !ds.isEmpty && ds.all fun c => (digitValue? c).isSome
    match cs.drop whole.length with
    | [] => isRun whole
    | ['\n'] => isRun whole
    | '.' :: fraction =>
      isRun fraction || (fraction.getLast? == some '\n' && isRun fraction.dropLast)
    | _ => false
  | _ => false

/-- What an argument after the dash is when it names no option in full: an option that it is short
for, or with which it starts. -/
def candidates (name : List Char) (attached : Option (List Char)) : List (String × Word) :=
  match name with
  | '-' :: '-' :: _ =>
    (Switch.spellings.filter fun spelling => name.isPrefixOf spelling.1.toList).map fun spelling =>
      (spelling.1, .switch spelling.2 false attached)
  | _ => []

/-- An option of one letter with its value directly after it. -/
def clustered : List Char → List (String × Word)
  | '-' :: c :: value =>
    if c = '-' then []
    else
      (Switch.spellings.filter fun spelling => spelling.1.toList = ['-', c]).map fun spelling =>
        (spelling.1, .switch spelling.2 true (some value))
  | _ => []

/-- Whether an option is written with one dash. -/
def isShort (name : List Char) : Bool := name.length == 2

/-- What an argument that starts with a dash is, or why it is refused. -/
def ofDashed (s : String) : Except String Word :=
  let cs := s.toList
  let name := cs.takeWhile (· != '=')
  let attached : Option (List Char) := match cs.drop name.length with
    | [] => none
    | _ :: value => some value
  match Switch.spellings.lookup s, Switch.spellings.lookup (String.ofList name) with
  | some found, _ => .ok (.switch found (isShort cs) none)
  | none, some found => .ok (.switch found (isShort name) attached)
  | none, none =>
    match candidates name attached ++ clustered cs with
    | [(_, word)] => .ok word
    | [] =>
      if cs.length = 1 || isNegativeNumber cs || cs.contains ' ' then .ok (.operand s)
      else .ok (.unknown s)
    | several =>
      .error ("ambiguous option: " ++ s ++ " could match " ++
        ", ".intercalate (several.map Prod.fst))

/-- What an argument before `--` is, or why it is refused. -/
def ofArgument (s : String) : Except String Word :=
  if s.toList.head? = some '-' then ofDashed s else .ok (.operand s)

/-- What the arguments are, or why the first of them that is refused is. -/
def classify : List String → Except String (List Word)
  | [] => .ok []
  | s :: ss =>
    if s = separatorText then
      .ok (separator :: ss.map operand)
    else do
      let word ← ofArgument s
      return word :: (← classify ss)

end Word

/-! ## Reading -/

/-- How far arguments have been read: what they asked for, whether the operand that names a file
was met, and what is left over. -/
structure Reading where
  options : Options := {}
  settled : Bool := false
  extras : List String := []
  deriving DecidableEq, Repr, Inhabited

namespace Reading

/-- A reading with one more argument left over. -/
def leave (r : Reading) (s : String) : Reading := { r with extras := r.extras ++ [s] }

/-- A reading that has met the operand that names a file, or its absence. -/
def settle (r : Reading) (file : Option String) : Reading :=
  { r with options := { r.options with file }, settled := true }

/-- What an option is set to by a value that `read?` can read, if it can. -/
def setting? {α : Type} (read? : String → Option α) (value : String) : Option (Setting α) :=
  if value = Word.separatorText then some .nothing else (read? value).map .value

/-- A reading that has met an option without a value or with the value that belongs to it, or the
refusal of that value. -/
def take (r : Reading) (s : Switch) (value : String) : Except Request Reading :=
  match s with
  | .help => .error .help
  | .debug => .ok { r with options := { r.options with debug := true } }
  | .expr => .ok { r with options := { r.options with expr := setting? some value } }
  | .recursionLimit =>
    match setting? Integer.read? value with
    | some recursionLimit => .ok { r with options := { r.options with recursionLimit } }
    | none => .error (s.refuse ("invalid int value: " ++ Quoted.write value))

/-- What the help option asks for when more short options stand in the same argument.  Help is given
once all of them are known to be options, and the last of them has the value that it needs:
`hasOperand` says whether an operand follows the argument. -/
def readCluster (hasOperand : Bool) : List Char → Request
  | [] => .help
  | c :: cs =>
    match Switch.spellings.lookup (String.ofList ['-', c]) with
    | none => Switch.help.refuseExtra (c :: cs)
    | some s =>
      if !s.takesValue then readCluster hasOperand cs
      else if cs.isEmpty && !hasOperand then s.refuseMissing
      else .help

/-- What an option that takes no value asks for when something stands where its value would. -/
def readExtra (s : Switch) (short : Bool) (attached : List Char) (words : List Word) : Request :=
  if short && !attached.isEmpty then
    let hasOperand := match words with
      | .operand _ :: _ => true
      | _ => false
    readCluster hasOperand attached
  else
    s.refuseExtra attached

/-- What words ask for, after some others have been read. -/
def read (r : Reading) : List Word → Request
  | [] =>
    if r.extras = [] then .run r.options
    else .refuse ("unrecognized arguments: " ++ " ".intercalate r.extras)
  | .unknown s :: words => read (r.leave s) words
  | .separator :: .operand s :: words =>
    if r.settled then read ((r.leave Word.separatorText).leave s) words
    else read (r.settle (some s)) words
  | .separator :: words =>
    if r.settled then read (r.leave Word.separatorText) words else read (r.settle none) words
  | .operand s :: .separator :: words =>
    if r.settled then read ((r.leave s).leave Word.separatorText) words
    else read (r.settle (some s)) words
  | .operand s :: words =>
    if r.settled then read (r.leave s) words else read (r.settle (some s)) words
  | .switch s short (some attached) :: words =>
    if s.takesValue then
      match r.take s (String.ofList attached) with
      | .ok r => read r words
      | .error request => request
    else
      readExtra s short attached words
  | .switch s _ none :: .operand value :: words =>
    if s.takesValue then
      match r.take s value with
      | .ok r => read r words
      | .error request => request
    else
      match r.take s "" with
      | .ok r => read r (.operand value :: words)
      | .error request => request
  | .switch s _ none :: words =>
    if s.takesValue then s.refuseMissing
    else
      match r.take s "" with
      | .ok r => read r words
      | .error request => request

end Reading

/-- What the arguments of the command line ask for. -/
def Request.ofArguments (args : List String) : Request :=
  match Word.classify args with
  | .error message => .refuse message
  | .ok words => Reading.read {} words

end DynLisp
