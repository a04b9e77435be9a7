import DynLisp.Failure

/-!
# Diagnostics

What a report says about one error: its kind, its message, the snippets that belong to it, where
it lies, and whether it is a defect of the interpreter rather than of the program.

Most diagnostics describe a fault.  Others are made from a template and snippets, and then a
snippet may be left over that the message does not show; the first snippet is the offending one in
either case.  Where the stop of a location is not given, it is counted from the start by the length
of the offending snippet.
-/

namespace DynLisp

/-- What a report says about an error. -/
structure Diagnostic where
  kind : ErrorKind
  message : Message
  snippets : List String
  location : Location
  internal : Bool
  deriving DecidableEq, Repr, Inhabited

/-- How many characters the offending snippet of some snippets covers, at least one. -/
def snippetWidth (snippets : List String) : Nat :=
  max (snippets.head?.getD "").length 1

/-- A location whose stop, where it is missing, is `width` characters after the start. -/
def Location.completed (location : Location) (width : Nat) : Location :=
  match location.stop, location.start with
  | none, some start => { location with stop := some (start + width) }
  | _, _ => location

namespace Diagnostic

/-- The diagnostic of a fault that lies at a location. -/
def ofFault (fault : Fault) (location : Location) : Diagnostic where
  kind := fault.kind
  message := fault.message
  snippets := fault.message.snippets
  location := location
  internal := fault.kind == .internal

/-- The diagnostic whose message a template makes of some snippets, or the number of the first hole
that they leave empty.  An error is internal when that is said, or else when its kind is. -/
def ofTemplate (kind : ErrorKind) (template : Template) (snippets : List String)
    (location : Location) (internal : Option Bool) : Except Nat Diagnostic :=
  (template.fill snippets).map fun message =>
    { kind, message, snippets
      location := location.completed (snippetWidth snippets)
      internal := internal.getD (kind == .internal) }

/-- The offending snippet, if there is one. -/
def offending (d : Diagnostic) : String := d.snippets.head?.getD ""

/-- A diagnostic that lies at `start` in a text, unless it lies in some text already. -/
def locate (d : Diagnostic) (source : String) (start : Option Nat) (stop : Option Int) :
    Diagnostic :=
  if d.location.source.isNone && start.isSome then
    let location : Location := ⟨some source, start, stop⟩
    { d with location := location.completed (snippetWidth d.snippets) }
  else
    d

end Diagnostic

/-- A fault that lies at `start` in a text, as far as its offending snippet is long. -/
def Fault.failureAt (fault : Fault) (source : String) (start : Nat) : Failure :=
  .error fault (Location.completed ⟨some source, some start, none⟩
    (snippetWidth fault.message.snippets))

end DynLisp
