import TraitCoherence.Parse.State

namespace TraitCoherence

/-- A token of which only the terminal counts. -/
def Token.bare (terminal : Terminal) : Token := ⟨terminal, "", ⟨0, 0⟩⟩

/-- Whether a terminal can come next. The text may end between declarations only. -/
def ParseState.admits (state : ParseState) (terminal : Terminal) : Bool :=
  match terminal with
  | .finish => state.progress = .between
  | _ => (state.progress.advance (.bare terminal)).isSome

/-- The terminals that can come next, in order. -/
def ParseState.expected (state : ParseState) : List Terminal :=
  Terminal.all.filter state.admits

/-- Why a text is no program: a character that begins no token, a token out of place, or an end too
early. The last two come with the terminals that could have stood there. -/
inductive ParseError where
  | stuck (character : Phrase)
  | unexpected (token : Token) (expected : List Terminal)
  | ranOut (expected : List Terminal)
deriving DecidableEq, Repr

/-- Reads tokens as long as the grammar admits them, and blames the first one that it does not. -/
def ParseState.read (state : ParseState) : List Token → Except ParseError ParseState
  | [] => .ok state
  | token :: rest =>
    match state.advance token with
    | some next => next.read rest
    | none => .error (.unexpected token state.expected)

theorem ParseState.read_append (state : ParseState) (first second : List Token) :
    state.read (first ++ second) = (state.read first).bind fun next => next.read second := by
  induction first generalizing state with
  | nil => rfl
  | cons token first ih =>
    simp only [List.cons_append, ParseState.read]
    cases state.advance token with
    | none => rfl
    | some next => exact ih next

/-- Reads what was scanned. A stuck character is blamed only if all tokens before it fit. -/
def Scan.parse (scan : Scan) : Except ParseError Program :=
  match ParseState.start.read scan.tokens with
  | .error error => .error error
  | .ok state =>
    match scan.stuck with
    | some character => .error (.stuck character)
    | none => if state.admits .finish then .ok ⟨state.decls⟩ else .error (.ranOut state.expected)

/-- Reads a program from its text. -/
def parse (text : String) : Except ParseError Program := (scan text).parse

end TraitCoherence
