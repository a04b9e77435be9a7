import DynLisp.Arithmetic
import DynLisp.Expr.Canonical
import DynLisp.Inspect
import DynLisp.Text.Message

/-!
# Faults

Everything that the language refuses, by cause.  A fault holds what was found and what was wanted;
its wording is in `Fault.message` and nowhere else, and `Fault.kind` files it under one of the
kinds of error that a report names.

Faults of the grammar are a type of their own, because reading tokens fails in no other way.
-/

namespace DynLisp

/-- The two kinds of value. -/
inductive ValueKind where
  | number
  | boolean
  deriving DecidableEq, Repr, Inhabited

namespace ValueKind

/-- A kind of value as messages call it. -/
def noun : ValueKind → String
  | number => "a number"
  | boolean => "a boolean"

end ValueKind

/-- The kind of a value. -/
def Value.kind : Value → ValueKind
  | number _ => .number
  | boolean _ => .boolean

/-- Why tokens do not read as an expression. -/
inductive GrammarFault where
  /-- There are no tokens at all. -/
  | emptyProgram
  /-- A token stands after the end of the expression. -/
  | trailingToken (text : String)
  /-- The tokens end where one more is needed. -/
  | endOfInput
  /-- The tokens end where `wanted` is needed. -/
  | endOfInputFor (wanted : String)
  /-- The tokens end where an expression of some kind of value is needed. -/
  | endOfInputForValue (kind : ValueKind)
  /-- A token stands where `wanted` is needed. -/
  | unexpected (text wanted : String)
  /-- A token starts no expression of the kind of value that is needed. -/
  | misfit (kind : ValueKind) (text : String)
  /-- A keyword of list processing. -/
  | unsupported (text : String)
  /-- A token starts no expression. -/
  | cannotStart (text : String)
  /-- A token after an opening delimiter starts no form. -/
  | cannotStartForm (text : String)
  /-- A sign without a number after it. -/
  | signWithoutNumber (sign : String)
  /-- A literal that is no number of 32 bits. -/
  | literalOutOfRange (literal : String)
  /-- A token is no operator of the family that is needed. -/
  | unknownOperator (family text : String)
  /-- A conditional without cases. -/
  | emptyCond (keyword : String)
  /-- A parameter that the definition has already. -/
  | duplicateParameter (parameter function : String)
  deriving DecidableEq, Repr, Inhabited

/-- Why a text, a program, an evaluation or a command is refused. -/
inductive Fault where
  /-- A character starts no token. -/
  | illegalCharacter (char : Char)
  | grammar (fault : GrammarFault)
  /-- A form of a program that is to hold definitions only. -/
  | notDefinition (found : Expr)
  /-- A tree that is to be added to the functions and is no definition. -/
  | definitionExpected (found : Expr)
  | alreadyDefined (name : String)
  /-- A program without the function that it starts at. -/
  | noEntry (name : String)
  /-- The function that a program starts at has parameters. -/
  | entryTakesArguments (name : String) (count : Nat)
  | unboundVariable (name : String)
  | undefinedFunction (name : String)
  /-- A call with a number of arguments that is not the number of parameters. -/
  | wrongArity (name : String) (expected given : Nat)
  | arithmetic (fault : ArithmeticFault)
  /-- An operand of `parent` has a value of the other kind. -/
  | wrongKind (expected : ValueKind) (found : Value) (parent : Expr)
  /-- No case of a conditional has a true condition. -/
  | noMatchingCase (cond : Expr)
  /-- A definition stands where a value is needed. -/
  | definitionEvaluated (name : String)
  /-- A tree without a value. -/
  | notEvaluable (found : Expr)
  | unreadableFile (path : String)
  /-- A word after a command that takes none. -/
  | unrecognized (argument : String)
  deriving DecidableEq, Repr, Inhabited

/-- The kinds of error that reports name. -/
inductive ErrorKind where
  | general
  | lexical
  | grammar
  | arity
  | unboundName
  | arithmetic
  | valueKind
  | noMatchingCase
  | internal
  deriving DecidableEq, Repr, Inhabited

namespace ErrorKind

/-- A kind of error as reports name it. -/
def label : ErrorKind → String
  | general => "error"
  | lexical => "lex error"
  | grammar => "parse error"
  | arity => "arity error"
  | unboundName => "unbound name"
  | arithmetic => "arithmetic error"
  | valueKind => "type error"
  | noMatchingCase => "no matching case"
  | internal => "internal error"

end ErrorKind

namespace GrammarFault

/-- The wording of a fault of the grammar. -/
def message : GrammarFault → Message
  | emptyProgram => [.text "empty program"]
  | trailingToken t =>
    [.text "malformed program, unexpected token '", .snippet t, .text "' after end of expression"]
  | endOfInput => [.text "unexpected end of input"]
  | endOfInputFor wanted => [.text "unexpected end of input, expected ", .snippet wanted]
  | endOfInputForValue kind => [.text "unexpected end of input, expected ", .text kind.noun]
  | unexpected t wanted =>
    [.text "unexpected token '", .snippet t, .text "', expected ", .snippet wanted]
  | misfit kind t =>
    [.text "expected ", .text kind.noun, .text ", got '", .snippet t, .text "'"]
  | unsupported t => [.text "'", .snippet t, .text "' is not supported"]
  | cannotStart t =>
    [.text "unexpected token '", .snippet t, .text "' at start of expression"]
  | cannotStartForm t =>
    [.text "invalid expression starting with '(' followed by '", .snippet t, .text "'"]
  | signWithoutNumber sign => [.text "expected number after '", .snippet sign, .text "'"]
  | literalOutOfRange literal =>
    [.text "integer literal '", .snippet literal, .text "' out of 32-bit range"]
  | unknownOperator family t =>
    [.text "unknown ", .snippet family, .text " '", .snippet t, .text "'"]
  | emptyCond keyword => [.text "'", .snippet keyword, .text "' must have at least one case"]
  | duplicateParameter parameter function =>
    [.text "duplicate parameter '", .snippet parameter, .text "' in function '",
      .snippet function, .text "'"]

end GrammarFault

namespace ArithmeticFault

/-- The wording of a refused operation. -/
def message (fault : ArithmeticFault) : Message :=
  let lead := match fault with
    | overflow _ => "integer overflow in '"
    | divisionByZero _ => "division by zero in '"
    | remainderByZero _ => "modulo by zero in '"
  [.text lead, .snippet fault.subject, .text "'"]

end ArithmeticFault

namespace Fault

/-- The kind of error that a fault is. -/
def kind : Fault → ErrorKind
  | illegalCharacter _ => .lexical
  | grammar _ => .grammar
  | notDefinition _ => .grammar
  | definitionExpected _ => .grammar
  | alreadyDefined _ => .grammar
  | noEntry _ => .grammar
  | entryTakesArguments .. => .grammar
  | unboundVariable _ => .unboundName
  | undefinedFunction _ => .unboundName
  | wrongArity .. => .arity
  | arithmetic _ => .arithmetic
  | wrongKind .. => .valueKind
  | noMatchingCase _ => .noMatchingCase
  | definitionEvaluated _ => .internal
  | notEvaluable _ => .internal
  | unreadableFile _ => .general
  | unrecognized _ => .general

/-- The wording of a fault. -/
def message : Fault → Message
  | illegalCharacter c => [.text "illegal character '", .snippet (String.ofList [c]), .text "'"]
  | grammar fault => fault.message
  | notDefinition e =>
    [.text "cannot parse functions, '", .snippet e.text, .text "' is not a function definition"]
  | definitionExpected e =>
    [.text "expected a function definition, got '", .snippet e.text, .text "'"]
  | alreadyDefined name => [.text "function '", .snippet name, .text "' is already defined"]
  | noEntry name => [.text "no '", .snippet name, .text "' function defined"]
  | entryTakesArguments name count =>
    [.text "'", .snippet name, .text "' must take no arguments, but takes ",
      .snippet (Decimal.write count)]
  | unboundVariable name => [.text "unbound variable '", .snippet name, .text "'"]
  | undefinedFunction name => [.text "undefined function '", .snippet name, .text "'"]
  | wrongArity name expected given =>
    [.text "'", .snippet name, .text "' takes ", .snippet (Decimal.write expected),
      .text " argument(s) but ", .snippet (Decimal.write given), .text " were given"]
  | arithmetic fault => fault.message
  | wrongKind expected found parent =>
    [.text "expected ", .text expected.noun, .text ", got '", .snippet found.text, .text "' in '",
      .snippet parent.text, .text "'"]
  | noMatchingCase e => [.text "no case of '", .snippet e.text, .text "' matched"]
  | definitionEvaluated name =>
    [.text "function definition '", .snippet name, .text "' reached the evaluator"]
  | notEvaluable e => [.text "cannot evaluate '", .snippet e.inspect, .text "'"]
  | unreadableFile path => [.text "'", .snippet path, .text "' could not be opened"]
  | unrecognized argument => [.text "unrecognized token '", .snippet argument, .text "'"]

end Fault

end DynLisp
