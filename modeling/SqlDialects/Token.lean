import SqlDialects.Position
import SqlDialects.Text.Ascii

/-!
# Tokens

* `Token.Kind` : the lexical categories; comments and blanks are the trivia among them;
* `Token` : a token with its text, its place, and whether trivia stood before it;
* `Token.isWord`, `Token.isSymbol` : the two tests by which the grammar looks at a token.
-/

namespace SqlDialects

/-- The lexical category of a token. -/
inductive Token.Kind where
  /-- A word that the dialect reserves. -/
  | keyword
  /-- Any other bare word. -/
  | word
  | quotedName
  | string
  | number
  /-- A bind parameter. -/
  | param
  | operator
  | punctuation
  | comment
  | blank
  /-- A character that starts no token. -/
  | unknown
  /-- The end of the text. -/
  | finish
deriving DecidableEq, Repr

/-- Whether tokens of this kind carry no meaning. -/
def Token.Kind.isTrivia : Token.Kind → Bool
  | .comment | .blank => true
  | _ => false

/-- A token. Its text is the spelling in the source, but the contents of a string or of a quoted
name. -/
structure Token where
  kind : Token.Kind
  text : String
  position : Position
  /-- Whether a blank or a comment stands right before it. -/
  spaced : Bool
deriving DecidableEq, Repr

namespace Token

/-- Whether `t` is a bare word, reserved or not. -/
def isBareWord (t : Token) : Bool :=
  match t.kind with
  | .keyword | .word => true
  | _ => false

/-- Whether `t` is the bare word `word`, in any case. -/
def isWord (t : Token) (word : String) : Bool :=
  t.isBareWord && Text.sameWord t.text word

/-- Whether `t` is the operator or the punctuation mark `symbol`. -/
def isSymbol (t : Token) (symbol : String) : Bool :=
  match t.kind with
  | .operator | .punctuation => t.text == symbol
  | _ => false

/-- Whether `t` can name something: a quoted name or an unreserved word. -/
def isName (t : Token) : Bool :=
  match t.kind with
  | .word | .quotedName => true
  | _ => false

/-- How `t` is named in messages. -/
def describe (t : Token) : String :=
  match t.kind with
  | .finish => "end of input"
  | .string => s!"string '{t.text}'"
  | .quotedName => s!"quoted identifier \"{t.text}\""
  | _ => s!"'{t.text}'"

end Token

end SqlDialects
