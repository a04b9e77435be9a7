/-!
# Messages

A message is text with snippets of a program set into it.  The two are kept apart so that a report
may emphasise the snippets: `Message.write` takes the way in which a snippet is shown, and the
text around it stays as it is.

A template is a message whose snippets are still to be given.  In writing, an opening brace
directly followed by a closing one is a hole, and a brace that is meant as a brace is written
twice.  `Template.fill` puts one snippet into each hole, from the left, and leaves over what is
more; what a snippet holds is never read as a template again.
-/

namespace DynLisp

/-- A piece of a message. -/
inductive MessagePart where
  | text (s : String)
  | snippet (s : String)
  deriving DecidableEq, Repr, Inhabited

/-- Text with snippets set into it. -/
abbrev Message := List MessagePart

namespace Message

/-- A message as one text, with each snippet shown by `emphasise`. -/
def write (emphasise : String → String) (message : Message) : String :=
  String.join (message.map fun
    | .text s => s
    | .snippet s => emphasise s)

/-- A message as one text, with the snippets as they are. -/
def plain (message : Message) : String := message.write id

/-- The snippets of a message, in order. -/
def snippets (message : Message) : List String :=
  message.filterMap fun
    | .text _ => none
    | .snippet s => some s

end Message

/-- A piece of a template. -/
inductive TemplatePart where
  | text (s : String)
  | hole
  deriving DecidableEq, Repr, Inhabited

/-- A message whose snippets are still to be given. -/
abbrev Template := List TemplatePart

namespace Template

/-- The template that a text writes. -/
def ofChars : List Char → Template
  | '\x7b' :: '\x7d' :: rest => .hole :: ofChars rest
  | '\x7b' :: '\x7b' :: rest => .text "\x7b" :: ofChars rest
  | '\x7d' :: '\x7d' :: rest => .text "\x7d" :: ofChars rest
  | c :: rest => .text (String.ofList [c]) :: ofChars rest
  | [] => []

/-- The template that a text writes. -/
def ofString (s : String) : Template := ofChars s.toList

/-- The message that a template makes of some snippets, when `filled` of its holes have been
filled already.  Where the snippets run out it is the number of the first hole left empty. -/
def fillFrom (filled : Nat) : Template → List String → Except Nat Message
  | [], _ => .ok []
  | .text s :: parts, snippets => (fillFrom filled parts snippets).map (.text s :: ·)
  | .hole :: _, [] => .error filled
  | .hole :: parts, snippet :: snippets =>
    (fillFrom (filled + 1) parts snippets).map (.snippet snippet :: ·)

/-- The message that a template makes of some snippets, or the number, from zero, of the first
hole that they leave empty. -/
def fill (template : Template) (snippets : List String) : Except Nat Message :=
  fillFrom 0 template snippets

end Template

end DynLisp
