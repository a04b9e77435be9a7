import DynLisp.CommandLine.Options
import DynLisp.CommandLine.Usage
import DynLisp.Shell

/-!
# The command line

What a run of the program does, given its arguments and what it finds outside: the value of an
expression, the value of a program in a file, or a shell on the lines of the standard input.

A run is a function from these to an `Outcome`.  Only the files that the arguments name are looked
at.
-/

namespace DynLisp

/-! ## Levels of notices -/

/-- A letter as a capital.  Two letters outside ASCII have capitals in ASCII. -/
def capital (c : Char) : Char :=
  if c = 'ı' then 'I' else if c = 'ſ' then 'S' else c.toUpper

/-- The levels of notices that a setting may name. -/
def levelNames : List (String × Nat) :=
  [("CRITICAL", 50), ("FATAL", 50), ("ERROR", 40), ("WARN", 30), ("WARNING", 30), ("INFO", 20),
    ("DEBUG", 10), ("NOTSET", 0)]

/-- The level of the notices that the interpreter gives about its work. -/
def debugLevel : Nat := 10

/-- The level from which on notices are shown: that of debugging if it is asked for, else the one
that a setting names in letters of any case, else that of warnings. -/
def noticeLevel (debug : Bool) (setting : Option String) : Nat :=
  if debug then debugLevel
  else
    let name := String.ofList ((setting.getD "").toList.map capital)
    (levelNames.lookup name).getD 30

/-! ## Runs -/

/-- Why a recursion limit cannot be set. -/
inductive LimitFault where
  /-- The option is set to nothing. -/
  | missing
  | notPositive
  /-- The limit is no number of 32 bits. -/
  | outOfRange
  deriving DecidableEq, Repr, Inhabited

/-- The recursion limit that an option sets, if it can be set. -/
def checkLimit : Setting Int → Except LimitFault Int
  | .nothing => .error .missing
  | .value limit =>
    if !inRange limit then .error .outOfRange
    else if limit < 1 then .error .notPositive
    else .ok limit

/-- How a run ends. -/
inductive Exit where
  | status (code : Int)
  /-- The run breaks off without a report, because its recursion limit cannot be set. -/
  | crash (fault : LimitFault)
  deriving DecidableEq, Repr, Inhabited

/-- What a run shows on its output, what it reports, and how it ends, with the recursion limit that
holds then. -/
structure Outcome where
  exit : Exit
  recursionLimit : Int
  output : String
  report : String
  deriving DecidableEq, Repr, Inhabited

/-- What a run depends on besides its arguments: the bytes of the files that can be read, the
standard input, the setting for notices, the style of reports, and the machine that there is under
some recursion limit. -/
structure Surroundings where
  file : String → Option (List UInt8)
  input : String
  noticeSetting : Option String
  style : Style
  machine : Int → Machine

/-- What a part of a run shows and reports, and what goes on beyond it. -/
structure Transcript where
  output : String
  report : String
  escape : Option Escape
  deriving DecidableEq, Repr, Inhabited

namespace Transcript

/-- A part of a run after which nothing goes on. -/
def silent : Transcript := ⟨"", "", none⟩

/-- A part of a run and the part that follows it. -/
def followedBy (first second : Transcript) : Transcript :=
  ⟨first.output ++ second.output, first.report ++ second.report, second.escape⟩

/-- How a run ends with some part.  What goes on beyond every reporter ends it like an error. -/
def exit (t : Transcript) : Exit :=
  match t.escape with
  | none => .status 0
  | some (.exit status) => .status status
  | some (.unknown _ _) => .status 1

end Transcript

namespace CommandLine

/-- The name under which reports mention an expression of the command line. -/
def exprPath : String := "<expr>"

/-- The lines that show notices, if they are to be shown. -/
def told (verbose : Bool) (notices : List Notice) : String :=
  if verbose then String.join (notices.map fun notice => notice.line ++ "\n") else ""

/-- The report of a part of a run that ended without a result, after some notices. -/
def reported (reporter : Reporter) (notices : String) (ending : Ending) : Transcript :=
  let verdict := reporter.judge ending
  ⟨"", notices ++ verdict.output, verdict.escape⟩

/-- Prints the value of a computation. -/
def printValue (reporter : Reporter) (verbose : Bool) (action : Action Value) : Transcript :=
  match action .empty with
  | .ok v env => ⟨v.text ++ "\n", told verbose env.notices.reverse, none⟩
  | .error failure env => reported reporter (told verbose env.notices.reverse) failure.ending

/-- What becomes of an expression that is set to nothing: it is no text that could be read. -/
def noExpression : Ending := .unknown "AttributeError" "'list' object has no attribute 'rstrip'"

/-- The prompt of a shell and its answer to a line. -/
def exchange (verbose : Bool) (s : Shell) (reply : Reply) : Transcript :=
  ⟨s.prompt ++ reply.output, told verbose reply.notices ++ reply.report, reply.escape⟩

/-- Feeds a shell with lines, up to the one that stops it. -/
def converse [Machine] (verbose : Bool) (s : Shell) : List String → Transcript
  | [] => .silent
  | line :: lines =>
    let (next, reply) := s.feed line
    let answered := exchange verbose s reply
    if reply.stop || reply.escape.isSome then answered
    else answered.followedBy (converse verbose next lines)

/-- Runs a shell on the lines of a text and the end of the input after them. -/
def runShell [Machine] (reporter : Reporter) (verbose : Bool) (input : String) : Transcript :=
  let shell := Shell.start (Session.new Session.standardPath) reporter
  let lines := Newline.lines input ++ [Command.endWord]
  let shown : Transcript := ⟨Shell.intro, "", none⟩
  let conversation := shown.followedBy (converse verbose shell lines)
  match conversation.escape with
  | some (.unknown name text) =>
    conversation.followedBy (reported reporter "" (.unknown name text))
  | _ => conversation

/-- Does what options ask for, on some machine. -/
def perform [Machine] (s : Surroundings) (options : Options) : Transcript :=
  let verbose := noticeLevel options.debug s.noticeSetting ≤ debugLevel
  let reporter (path : String) : Reporter := ⟨path, s.style, true⟩
  match options.expr, options.file with
  | some (.value expr), _ => printValue (reporter exprPath) verbose (runSnippet expr)
  | some .nothing, _ => reported (reporter exprPath) "" noExpression
  | none, some path =>
    printValue (reporter path) verbose do
      Session.loadFile path (s.file path)
      Session.run
  | none, none => runShell (reporter Session.standardPath) verbose s.input

/-- A run with some arguments. -/
def run (s : Surroundings) (args : List String) : Outcome :=
  match Request.ofArguments args with
  | .help => ⟨.status 0, standardLimit, Usage.help, ""⟩
  | .refuse message => ⟨.status 2, standardLimit, "", Usage.refusal message⟩
  | .run options =>
    match checkLimit options.recursionLimit with
    | .error fault => ⟨.crash fault, standardLimit, "", ""⟩
    | .ok limit =>
      let transcript := @perform (s.machine limit) s options
      ⟨transcript.exit, limit, transcript.output, transcript.report⟩

end CommandLine

end DynLisp
