import DynLisp.Text.Blank
import DynLisp.Token

/-!
# Cutting a text into tokens

A text is read from the left.  Blanks are skipped; at any other character one token starts:

* a digit starts a number, which goes on over all the digits that follow;
* a letter or an underscore starts a word, which goes on over all the letters, digits and the
  signs `?`, `!`, `:`, `_` and `-` that follow, and is a keyword or a name;
* a sign of punctuation is a token by itself.

Letters and digits are those of ASCII.  A character that starts no token is refused, and nothing
is returned of what stands before it.  Since a run goes as far as it can, `-` and `!` are part of
a word that they follow directly, while `?` and `:` stand nowhere else.

`lex` works on the characters from some offset on, and `tokenize` on a whole text.  The recursion
drops the token just read, so it is well-founded on the number of characters left.
-/

namespace DynLisp

/-- A character that starts no token, and the offset it stands at. -/
structure IllegalCharacter where
  char : Char
  offset : Nat
  deriving DecidableEq, Repr, Inhabited

/-- A character that starts a word. -/
def isWordStart (c : Char) : Bool := c.isAlpha || c == '_'

/-- A character that a word goes on over. -/
def isWordChar (c : Char) : Bool :=
  c.isAlphanum || c == '?' || c == '!' || c == '-' || c == ':' || c == '_'

/-- The first token of a text that starts with `c` and goes on with `rest`: its kind and its
characters. -/
def firstLexeme? (c : Char) (rest : List Char) : Option (TokenKind × List Char) :=
  if c.isDigit then
    some (.number, c :: rest.takeWhile Char.isDigit)
  else if isWordStart c then
    let word := c :: rest.takeWhile isWordChar
    some (TokenKind.ofWord (String.ofList word), word)
  else
    (TokenKind.ofPunctuation? c).map fun kind => (kind, [c])

/-- The tokens of the characters that stand from `offset` on. -/
def lex (offset : Nat) : List Char → Except IllegalCharacter (List Token)
  | [] => .ok []
  | c :: rest =>
    if isBlank c then
      lex (offset + 1) rest
    else
      match firstLexeme? c rest with
      | none => .error ⟨c, offset⟩
      | some (kind, word) =>
        (lex (offset + word.length) (rest.drop (word.length - 1))).map fun tokens =>
          ⟨kind, String.ofList word, offset⟩ :: tokens
termination_by cs => cs.length
decreasing_by
  · simp
  · simp only [List.length_drop, List.length_cons]; omega

/-- The tokens of a text, or the first character that starts none. -/
def tokenize (source : String) : Except IllegalCharacter (List Token) :=
  lex 0 source.toList

end DynLisp
