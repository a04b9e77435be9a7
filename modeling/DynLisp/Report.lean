import DynLisp.Diagnostic
import DynLisp.Text.Line
import DynLisp.Text.Style

/-!
# Reports

How the end of a computation is reported.  A report is a line that says where the error lies, of
which kind it is and what is wrong; if the error lies in a text, and is not internal, the line of
the text follows with the part in question underlined.

A `Reporter` looks at how a guarded computation ended.  What ended well, or was asked to stop the
program, is not reported.  Every other ending is, and what is no error of the language at all is
reported as an internal one.  A fatal reporter stops the program after a report; otherwise the
error counts as dealt with, except that an ending that is no error of the language goes on.
-/

namespace DynLisp

/-! ## Diagnosis -/

/-- A line of a text and below it an underline from its character `first` to the one before
`stop`. -/
def underlined (style : Style) (line : List Char) (first stop : Nat) : String :=
  "  " ++ String.ofList (line.take first) ++
    style.alarm (String.ofList ((line.drop first).take (stop - first))) ++
    String.ofList (line.drop stop) ++ "\n" ++
    "  " ++ String.ofList (List.replicate first ' ') ++
    style.alarm (String.ofList ('^' :: List.replicate (stop - first - 1) '~'))

/-- Where an underline ends that begins `first` characters into a line: as far after that as stop
is after start, but not beyond the line, and at least one character after its beginning. -/
def underlineEnd (start : Nat) (stop : Int) (lineLength first : Nat) : Int :=
  min (max (stop - start) 1 + first) (max lineLength (first + 1))

/-- The line of a text that `start` lies on, with the part from there to `stop` underlined. -/
def diagnosis (style : Style) (source : String) (start : Nat) (stop : Int) : String :=
  let position := LinePosition.of source start
  let first := position.column - 1
  let stop := underlineEnd start stop position.line.length first
  underlined style position.line.toList first stop.toNat

/-! ## Reporters -/

/-- How a guarded computation ended. -/
inductive Ending where
  | done
  | error (d : Diagnostic)
  | depthExceeded
  | interrupted
  /-- The program was asked to stop with a status. -/
  | exit (status : Int)
  /-- Something that is no error of the language, by name and text. -/
  | unknown (name text : String)
  deriving DecidableEq, Repr, Inhabited

/-- What goes on beyond a reporter. -/
inductive Escape where
  | exit (status : Int)
  | unknown (name text : String)
  deriving DecidableEq, Repr, Inhabited

/-- How errors are reported: under which name of the text, in which style, and whether a report
stops the program. -/
structure Reporter where
  path : String
  style : Style
  fatal : Bool
  deriving Inhabited

/-- What a reporter makes of an ending: the lines of its report, and what goes on beyond it. -/
structure Verdict where
  output : String
  escape : Option Escape
  deriving DecidableEq, Repr, Inhabited

namespace Reporter

/-- A diagnostic without a location. -/
def unlocated (message : Message) (internal : Bool) : Diagnostic :=
  { kind := .general, message, snippets := message.snippets, location := .unknown, internal }

/-- The lines that report a diagnostic. -/
def lines (r : Reporter) (d : Diagnostic) : String :=
  let mark := if d.internal then r.style.alarm "[internal] " else ""
  let rest := mark ++ r.style.alarm (d.kind.label ++ ": ") ++ d.message.write r.style.bold ++ "\n"
  match d.location.source, d.location.start with
  | some source, some start =>
    let position := LinePosition.of source start
    let place := r.style.bold (r.path ++ ":" ++ Decimal.write position.number ++ ":" ++
      Decimal.write position.column ++ ": ")
    let shown :=
      if d.internal then ""
      else diagnosis r.style source start (d.location.stop.getD (start + 1)) ++ "\n"
    place ++ rest ++ shown
  | _, _ => rest

/-- What becomes of an ending that was reported. -/
def afterReport (r : Reporter) (escape : Option Escape) : Option Escape :=
  if r.fatal then some (.exit 1) else escape

/-- What a reporter makes of an ending. -/
def judge (r : Reporter) : Ending → Verdict
  | .done => ⟨"", none⟩
  | .error d => ⟨r.lines d, r.afterReport none⟩
  | .depthExceeded =>
    ⟨r.lines (unlocated [.text "maximum recursion depth exceeded"] false), r.afterReport none⟩
  | .interrupted => ⟨r.lines (unlocated [.text "keyboard interrupt"] false), r.afterReport none⟩
  | .exit status => ⟨"", some (.exit status)⟩
  | .unknown name text =>
    let message : Message := [.text "unknown error: '", .snippet (name ++ ": " ++ text), .text "'"]
    ⟨r.lines (unlocated message true), r.afterReport (some (.unknown name text))⟩

end Reporter

/-- What is said of a literal number that has more digits than are converted. -/
def tooManyDigits (digits : Nat) : String :=
  "Exceeds the limit (" ++ Decimal.write Decimal.maxDigits ++
    " digits) for integer string conversion: value has " ++ Decimal.write digits ++
    " digits; use sys.set_int_max_str_digits() to increase the limit"

/-- The ending of a computation that failed. -/
def Failure.ending : Failure → Ending
  | error fault location => .error (.ofFault fault location)
  | depthExceeded => .depthExceeded
  | oversized digits => .unknown "ValueError" (tooManyDigits digits)
  | emptyStack => .unknown "IndexError" "pop from empty list"
  | cannotDisplay e => .unknown "TypeError" ("cannot display " ++ e.inspect)
  | unusablePath => .unknown "ValueError" "embedded null byte"
  | undecodable fault => .unknown "UnicodeDecodeError" fault.text

end DynLisp
