namespace TraitCoherence

/-- The kinds of token, in the code-point order of their grammar names, the end of the text among them. -/
inductive Terminal where
  | bang
  | plus
  | comma
  | minus
  | colon
  | semicolon
  | less
  | finish
  | greater
  | forWord
  | implWord
  | structWord
  | traitWord
  | name
  | openBrace
  | closeBrace
deriving DecidableEq, Repr

/-- Every terminal once, in order. -/
def Terminal.all : List Terminal :=
  [.bang, .plus, .comma, .minus, .colon, .semicolon, .less, .finish, .greater, .forWord, .implWord,
    .structWord, .traitWord, .name, .openBrace, .closeBrace]

/-- The reserved words and what they are read as. -/
def Terminal.reserved : List (String × Terminal) :=
  [("for", .forWord), ("impl", .implWord), ("struct", .structWord), ("trait", .traitWord)]

/-- The punctuation marks and what they are read as. -/
def Terminal.punctuation : List (Char × Terminal) :=
  [('!', .bang), ('+', .plus), (',', .comma), ('-', .minus), (':', .colon), (';', .semicolon),
    ('<', .less), ('>', .greater), ('\x7b', .openBrace), ('\x7d', .closeBrace)]

/-- Reserved words are all in lower case; every other word is a name. -/
def Terminal.ofWord (word : String) : Terminal :=
  (Terminal.reserved.lookup word).getD .name

def Terminal.ofMark? (mark : Char) : Option Terminal :=
  Terminal.punctuation.lookup mark

/-- The reserved word that a terminal stands for. -/
def Terminal.word? : Terminal → Option String
  | .forWord => some "for"
  | .implWord => some "impl"
  | .structWord => some "struct"
  | .traitWord => some "trait"
  | _ => none

/-- A terminal in words, as a hint mentions it. -/
def Terminal.describe : Terminal → String
  | .bang => "'!'"
  | .plus => "'+'"
  | .comma => "','"
  | .minus => "'-'"
  | .colon => "':'"
  | .semicolon => "';'"
  | .less => "'<'"
  | .finish => "the end of the text"
  | .greater => "'>'"
  | .forWord => "'for'"
  | .implWord => "'impl'"
  | .structWord => "'struct'"
  | .traitWord => "'trait'"
  | .name => "a name"
  | .openBrace => "'\x7b'"
  | .closeBrace => "'\x7d'"

/-- Advice for a reader who left a terminal out. -/
def Terminal.advice? : Terminal → Option String
  | .structWord => some "Every declaration starts with struct, trait, or impl."
  | .openBrace => some "Traits and impls end with an empty body: \x7b\x7d"
  | .closeBrace => some "Bodies are always empty here: \x7b\x7d"
  | .semicolon => some "A struct declaration ends with a semicolon."
  | .forWord => some "An impl names a trait, then 'for', then the type it applies to."
  | .name => some "A name belongs here."
  | .greater => some "Perhaps a missing comma, or an unbalanced '<'."
  | .comma => some "Separate generic parameters with commas."
  | _ => none

end TraitCoherence
