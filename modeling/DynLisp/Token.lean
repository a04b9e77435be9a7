/-!
# Tokens

The words that a text is made of.  A token has a kind, the text that was written for it, and the
offset of its first character, counted in characters.

* Every kind has a `symbol`, the text by which messages name it.  For a kind that is written in
  one way only, the symbol is that way.
* `Token.lexeme` forgets the offset: two tokens are the same word when their lexemes agree,
  wherever they stand.
* `Token.stop` is the offset just after the token, so that the token covers the offsets from
  `offset` up to and without `stop`.
-/

namespace DynLisp

/-- What a token is: a literal, a keyword, a name, a delimiter or an operator. -/
inductive TokenKind where
  | number
  | boolean
  | cond
  | define
  | list
  | cons
  | empty
  | car
  | cdr
  | isEmpty
  | isList
  | identifier
  | opening
  | closing
  | plus
  | minus
  | slash
  | star
  | percent
  | ampersand
  | pipe
  | bang
  | lessThan
  | equal
  | greaterThan
  deriving DecidableEq, Repr, Inhabited

namespace TokenKind

/-- The text by which messages name a kind. -/
def symbol : TokenKind → String
  | number => "number"
  | boolean => "boolean"
  | cond => "cond"
  | define => "define"
  | list => "list"
  | cons => "cons"
  | empty => "empty"
  | car => "car"
  | cdr => "cdr"
  | isEmpty => "empty?"
  | isList => "list?"
  | identifier => "identifier"
  | opening => "("
  | closing => ")"
  | plus => "+"
  | minus => "-"
  | slash => "/"
  | star => "*"
  | percent => "%"
  | ampersand => "&"
  | pipe => "|"
  | bang => "!"
  | lessThan => "<"
  | equal => "="
  | greaterThan => ">"

/-- The words that are not names. -/
def keywords : List (String × TokenKind) :=
  [("true", boolean), ("false", boolean), ("cond", cond), ("define", define), ("list", list),
    ("cons", cons), ("empty", empty), ("car", car), ("cdr", cdr), ("empty?", isEmpty),
    ("list?", isList)]

/-- The kind of a word: what the keywords say, and otherwise a name. -/
def ofWord (word : String) : TokenKind :=
  (keywords.lookup word).getD identifier

/-- The kind of a token that is one character of punctuation.  Round and square brackets are the
same delimiters. -/
def ofPunctuation? : Char → Option TokenKind
  | '(' => some opening
  | '[' => some opening
  | ')' => some closing
  | ']' => some closing
  | '+' => some plus
  | '-' => some minus
  | '/' => some slash
  | '*' => some star
  | '%' => some percent
  | '&' => some ampersand
  | '|' => some pipe
  | '!' => some bang
  | '<' => some lessThan
  | '=' => some equal
  | '>' => some greaterThan
  | _ => none

/-- The keywords of list processing.  They are reserved, and no expression may hold them. -/
def isReserved : TokenKind → Bool
  | list | cons | empty | car | cdr | isEmpty | isList => true
  | _ => false

end TokenKind

/-- A word of a text, and the offset it starts at. -/
structure Token where
  kind : TokenKind
  text : String
  offset : Nat
  deriving DecidableEq, Repr, Inhabited

namespace Token

/-- What a token is, wherever it stands. -/
def lexeme (t : Token) : TokenKind × String := (t.kind, t.text)

/-- The offset just after a token. -/
def stop (t : Token) : Nat := t.offset + t.text.length

/-- Whether two lists of tokens are the same words in the same order. -/
def sameWords (ts us : List Token) : Bool := ts.map lexeme == us.map lexeme

end Token

end DynLisp
