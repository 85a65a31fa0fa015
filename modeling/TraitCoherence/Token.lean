import TraitCoherence.Phrase
import TraitCoherence.Terminal

namespace TraitCoherence

/-- A word or a punctuation mark of the source. -/
structure Token where
  terminal : Terminal
  text : String
  span : Span
deriving DecidableEq, Repr

/-- The token as a phrase, which for a name token is the name it spells. -/
def Token.phrase (token : Token) : Phrase := ⟨token.text, some token.span⟩

/-- The whitespace between tokens: tab, the four line characters, and the blank. -/
def isLayout (c : Char) : Bool := c == ' ' || ('\t' ≤ c && c ≤ '\r')

/-- A comment runs up to the first of the code points 10 to 13. -/
def inComment (c : Char) : Bool := !('\n' ≤ c && c ≤ '\r')

/-- Words are made of ASCII letters, digits and underscores. -/
def isWordChar (c : Char) : Bool := c.isAlphanum || c == '_'

/-- The token for a whole word that starts at `start`. -/
def Token.ofWord (start : Nat) (word : List Char) : Token :=
  ⟨.ofWord (.ofList word), .ofList word, ⟨start, start + word.length⟩⟩

/-- The token for a punctuation mark at `start`. -/
def Token.ofMark (start : Nat) (mark : Char) (terminal : Terminal) : Token :=
  ⟨terminal, .singleton mark, ⟨start, start + 1⟩⟩

/-- What a text scans to: its tokens, and the character where scanning got stuck, if any. -/
structure Scan where
  tokens : List Token
  stuck : Option Phrase
deriving DecidableEq, Repr

/-- Puts a token in front. -/
def Scan.cons (token : Token) (scan : Scan) : Scan := ⟨token :: scan.tokens, scan.stuck⟩

/-- Scans from position `start` on. Words and comments are taken as long as possible; a character
that begins no token, layout or comment ends the scan. -/
def scanFrom (start : Nat) (text : List Char) : Scan :=
  match text with
  | [] => ⟨[], none⟩
  | c :: rest =>
    if isLayout c then scanFrom (start + 1) rest
    else if isWordChar c then
      let word := c :: rest.takeWhile isWordChar
      .cons (.ofWord start word) (scanFrom (start + word.length) (rest.dropWhile isWordChar))
    else if c == '/' && rest.head? == some '/' then
      scanFrom (start + 1 + (rest.takeWhile inComment).length) (rest.dropWhile inComment)
    else
      match Terminal.ofMark? c with
      | some terminal => .cons (.ofMark start c terminal) (scanFrom (start + 1) rest)
      | none => ⟨[], some ⟨.singleton c, some ⟨start, start + 1⟩⟩⟩
termination_by text.length
decreasing_by
  · simp
  · have shorter := (List.dropWhile_suffix isWordChar (l := rest)).length_le
    simp only [List.length_cons]
    omega
  · have shorter := (List.dropWhile_suffix inComment (l := rest)).length_le
    simp only [List.length_cons]
    omega
  · simp

/-- The tokens of a whole text. -/
def scan (text : String) : Scan := scanFrom 0 text.toList

end TraitCoherence
