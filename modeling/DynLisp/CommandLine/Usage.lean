/-!
# Usage

What the command line says about itself: how it is used, and on demand what its options do.
-/

namespace DynLisp.Usage

/-- How the command line is used. -/
def summary : String :=
  "usage: tinylisp [-h] [-e EXPR] [--debug] [--recursion-limit RECURSION_LIMIT]\n" ++
  "                [file]\n"

/-- How the command line is used, and what its options do. -/
def help : String :=
  summary ++
  "\nRun tinylisp programs.\n" ++
  "\npositional arguments:\n" ++
  "  file                  file to interpret and run (if empty, goes to command-\n" ++
  "                        line mode)\n" ++
  "\noptions:\n" ++
  "  -h, --help            show this help message and exit\n" ++
  "  -e EXPR, --expr EXPR  evaluate a single expression and print its value\n" ++
  "  --debug               log tokens, trees and function calls\n" ++
  "  --recursion-limit RECURSION_LIMIT\n" ++
  "                        python recursion limit, bounds how deep programs can\n" ++
  "                        recurse (default 10000)\n"

/-- What is said when the arguments are refused. -/
def refusal (message : String) : String := summary ++ "tinylisp: error: " ++ message ++ "\n"

end DynLisp.Usage
