import DynLisp.CommandLine

/-!
# The program

The outer layer: it gathers what a run depends on, and shows what the run yields.  A shell is fed
line by line, so that each answer is shown before the next line is read.
-/

namespace DynLisp

/-- The bytes of a file, if it can be read. -/
def fileBytes (path : String) : IO (Option (List UInt8)) := do
  match ← (IO.FS.readBinFile path).toBaseIO with
  | .ok bytes => return some bytes.toList
  | .error _ => return none

/-- The control sequences that switch a terminal to bold, or to bold and red, and back. -/
def colouredStyle : Style where
  bold s := "\x1b[1m" ++ s ++ "\x1b[0m"
  alarm s := "\x1b[1m\x1b[31m" ++ s ++ "\x1b[0m"

/-- The style in which a terminal shows reports. -/
def terminalStyle : IO Style := do
  if (← IO.getEnv "NO_COLOR").isSome then
    return .plain
  else if (← IO.getEnv "FORCE_COLOR").isSome then
    return colouredStyle
  else
    return if ← (← IO.getStdout).isTty then colouredStyle else .plain

/-- The machine under a recursion limit.  The limit counts steps of the interpreter that are nested
in each other, and a call takes about five of them. -/
abbrev machineOf (limit : Int) : Machine := .ofCalls (limit.toNat / 5)

/-- The lines of the next piece of the standard input, up to a newline, or the word that stands for
its end. -/
def nextLines : IO (List String) := do
  let piece ← (← IO.getStdin).getLine
  return if piece = "" then [Command.endWord] else Newline.lines piece

/-- Feeds a shell with lines until one stops it, and returns the code of the run.  `lines` were read
already. -/
partial def attend [Machine] (verbose : Bool) (s : Shell) (lines : List String) : IO UInt32 := do
  IO.print s.prompt
  (← IO.getStdout).flush
  match ← (if lines.isEmpty then nextLines else return lines) with
  | [] => return 0
  | line :: lines =>
    let (next, reply) := s.feed line
    IO.print reply.output
    IO.eprint (CommandLine.told verbose reply.notices ++ reply.report)
    if reply.stop then return 0
    else if reply.escape.isSome then return 1
    else attend verbose next lines

/-- The code with which a run ends. -/
def Exit.code : Exit → UInt32
  | .status code => code.toNat.toUInt32
  | .crash _ => 1

/-- A run with some arguments. -/
def runProcess (args : List String) : IO UInt32 := do
  let style ← terminalStyle
  let noticeSetting ← IO.getEnv "LOGLEVEL"
  match Request.ofArguments args with
  | .run ⟨none, none, debug, limit⟩ =>
    match checkLimit limit with
    | .error _ => return 1
    | .ok limit =>
      let reporter : Reporter := ⟨Session.standardPath, style, true⟩
      IO.print Shell.intro
      @attend (machineOf limit) (noticeLevel debug noticeSetting ≤ debugLevel)
        (Shell.start (Session.new Session.standardPath) reporter) []
  | request =>
    let bytes ← match request with
      | .run ⟨some path, none, _, _⟩ => fileBytes path
      | _ => pure none
    let outcome := CommandLine.run ⟨fun _ => bytes, "", noticeSetting, style, machineOf⟩ args
    IO.print outcome.output
    IO.eprint outcome.report
    return outcome.exit.code

end DynLisp

def main (args : List String) : IO UInt32 := DynLisp.runProcess args
