import TraitCoherence.Declaration
import TraitCoherence.Token

namespace TraitCoherence

/-- The start of a declaration, up to where its parameter list may stand. -/
inductive Header where
  | struct (name : Name)
  | trait (name : Name)
  | impl
deriving DecidableEq, Repr

/-- What the bound being read constrains: a parameter, after those before it, or a trait. -/
inductive BoundSite where
  | param (header : Header) (before : List Param) (name : Name)
  | supertraits (name : Name) (params : List Param)
deriving DecidableEq, Repr

/-- Where the type expression being read stands. -/
inductive ExprSite where
  | term (site : BoundSite) (sofar : BoundExpr) (negated : Bool)
  | head (params : List Param)
  | target (params : List Param) (trait : TypeExpr)
deriving DecidableEq, Repr

/-- An argument list still open, with the arguments read so far. -/
structure OpenArgs where
  name : Name
  before : List TypeExpr
deriving DecidableEq, Repr

/-- How far into a declaration the tokens read so far have come. Argument lists are kept
innermost first. -/
inductive Progress where
  /-- Between declarations. -/
  | between
  /-- After the word `struct`. -/
  | structName
  /-- After the word `trait`. -/
  | traitName
  /-- After the part of a declaration that a parameter list may follow. -/
  | header (header : Header)
  /-- After the `<` or a `,` of a parameter list. -/
  | listOpen (header : Header) (before : List Param)
  /-- After the name of a parameter. -/
  | paramName (header : Header) (before : List Param) (name : Name)
  /-- After the `>` of a parameter list. -/
  | listClosed (header : Header) (params : List Param)
  /-- Before a term of a bound that may carry its own sign. -/
  | termStart (site : BoundSite) (sofar : BoundExpr)
  /-- Before a type expression. -/
  | exprStart (site : ExprSite) (outer : List OpenArgs)
  /-- After a name that may yet take arguments. -/
  | exprName (site : ExprSite) (outer : List OpenArgs) (name : Name)
  /-- After the `>` of an argument list. -/
  | exprClosed (site : ExprSite) (outer : List OpenArgs) (expr : TypeExpr)
  /-- Inside the body of a declaration that is otherwise complete. -/
  | body (decl : Decl)
deriving DecidableEq, Repr

/-- The declarations read in full, and the progress of the next one. -/
structure ParseState where
  decls : List Decl
  progress : Progress
deriving DecidableEq, Repr

/-- Before the first token. -/
def ParseState.start : ParseState := ⟨[], .between⟩

/-- Adds a term to the side of the bound that its sign says. -/
def BoundExpr.extend (bound : BoundExpr) (negated : Bool) (term : TypeExpr) : BoundExpr :=
  if negated then ⟨bound.positive, bound.negative ++ [term]⟩
  else ⟨bound.positive ++ [term], bound.negative⟩

/-- Moves on from a complete bound. -/
def BoundSite.advance (site : BoundSite) (bound : BoundExpr) (terminal : Terminal) :
    Option Progress :=
  match site, terminal with
  | .param header before name, .comma => some (.listOpen header (before ++ [⟨name, some bound⟩]))
  | .param header before name, .greater =>
    some (.listClosed header (before ++ [⟨name, some bound⟩]))
  | .supertraits name params, .openBrace => some (.body (.trait ⟨name, params, some bound⟩))
  | _, _ => none

/-- Moves on from a complete type expression that is no argument of another. -/
def ExprSite.advance (site : ExprSite) (expr : TypeExpr) (terminal : Terminal) :
    Option Progress :=
  match site with
  | .term site sofar negated =>
    let bound := sofar.extend negated expr
    match terminal with
    | .plus => some (.termStart site bound)
    | .minus => some (.exprStart (.term site bound true) [])
    | _ => site.advance bound terminal
  | .head params =>
    match terminal with
    | .forWord => some (.exprStart (.target params expr) [])
    | _ => none
  | .target params trait =>
    match terminal with
    | .openBrace => some (.body (.impl ⟨params, trait, expr⟩))
    | _ => none

/-- Moves on from a complete type expression, which may close or lengthen an argument list. -/
def ExprSite.advanceIn (site : ExprSite) (outer : List OpenArgs) (expr : TypeExpr)
    (terminal : Terminal) : Option Progress :=
  match outer with
  | [] => site.advance expr terminal
  | inner :: outer =>
    match terminal with
    | .comma => some (.exprStart site (⟨inner.name, inner.before ++ [expr]⟩ :: outer))
    | .greater => some (.exprClosed site outer (.apply inner.name (inner.before ++ [expr])))
    | _ => none

/-- What a token does: it moves a declaration on, or it completes one. -/
inductive Move where
  | go (progress : Progress)
  | complete (decl : Decl)
deriving DecidableEq, Repr

/-- Moves on from a header whose parameters are known. -/
def Header.advance (header : Header) (params : List Param) (token : Token) : Option Move :=
  match header, token.terminal with
  | .struct name, .semicolon => some (.complete (.struct ⟨name, params⟩))
  | .trait name, .colon => some (.go (.termStart (.supertraits name params) ⟨[], []⟩))
  | .trait name, .openBrace => some (.go (.body (.trait ⟨name, params, none⟩)))
  | .impl, .name => some (.go (.exprName (.head params) [] token.phrase))
  | _, _ => none

/-- Takes one token, if the grammar lets it come next. -/
def Progress.advance (progress : Progress) (token : Token) : Option Move :=
  match progress with
  | .between =>
    match token.terminal with
    | .structWord => some (.go .structName)
    | .traitWord => some (.go .traitName)
    | .implWord => some (.go (.header .impl))
    | _ => none
  | .structName =>
    match token.terminal with
    | .name => some (.go (.header (.struct token.phrase)))
    | _ => none
  | .traitName =>
    match token.terminal with
    | .name => some (.go (.header (.trait token.phrase)))
    | _ => none
  | .header owner =>
    match token.terminal with
    | .less => some (.go (.listOpen owner []))
    | _ => owner.advance [] token
  | .listOpen owner before =>
    match token.terminal with
    | .greater => some (.go (.listClosed owner before))
    | .name => some (.go (.paramName owner before token.phrase))
    | _ => none
  | .paramName owner before name =>
    match token.terminal with
    | .colon => some (.go (.termStart (.param owner before name) ⟨[], []⟩))
    | .comma => some (.go (.listOpen owner (before ++ [⟨name, none⟩])))
    | .greater => some (.go (.listClosed owner (before ++ [⟨name, none⟩])))
    | _ => none
  | .listClosed owner params => owner.advance params token
  | .termStart site sofar =>
    match token.terminal with
    | .bang | .minus => some (.go (.exprStart (.term site sofar true) []))
    | .name => some (.go (.exprName (.term site sofar false) [] token.phrase))
    | _ => none
  | .exprStart site outer =>
    match token.terminal with
    | .name => some (.go (.exprName site outer token.phrase))
    | _ => none
  | .exprName site outer name =>
    match token.terminal with
    | .less => some (.go (.exprStart site (⟨name, []⟩ :: outer)))
    | terminal => (site.advanceIn outer (.apply name []) terminal).map .go
  | .exprClosed site outer expr => (site.advanceIn outer expr token.terminal).map .go
  | .body decl =>
    match token.terminal with
    | .closeBrace => some (.complete decl)
    | _ => none

/-- The state after a move. -/
def ParseState.follow (state : ParseState) : Move → ParseState
  | .go progress => ⟨state.decls, progress⟩
  | .complete decl => ⟨state.decls ++ [decl], .between⟩

/-- Takes one token, if the grammar lets it come next. -/
def ParseState.advance (state : ParseState) (token : Token) : Option ParseState :=
  (state.progress.advance token).map state.follow

end TraitCoherence
