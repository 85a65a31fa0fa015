import TraitCoherence.Proofs.Reading

namespace TraitCoherence

/-- No item yet, or items that a comma follows. -/
inductive CommaPrefix {α : Type} (Item : List Token → α → Prop) : List Token → List α → Prop
  | none : CommaPrefix Item [] []
  | comma {tokens : List Token} {items : List α} {comma : Token} :
      CommaList Item tokens items → comma.terminal = .comma →
      CommaPrefix Item (tokens ++ [comma]) items

theorem CommaPrefix.concat {α : Type} {Item : List Token → α → Prop} {before tokens : List Token}
    {items : List α} {item : α} (sofar : CommaPrefix Item before items) (last : Item tokens item) :
    CommaList Item (before ++ tokens) (items ++ [item]) := by
  cases sofar with
  | none => exact .first last
  | comma list isComma =>
    have whole := CommaList.more list isComma last
    rwa [List.append_assoc]

/-- The tokens up to where a parameter list may stand. -/
inductive Header.Reached : List Token → Header → Prop
  | struct {word name : Token} : word.terminal = .structWord → name.terminal = .name →
      Header.Reached [word, name] (.struct name.phrase)
  | trait {word name : Token} : word.terminal = .traitWord → name.terminal = .name →
      Header.Reached [word, name] (.trait name.phrase)
  | impl {word : Token} : word.terminal = .implWord → Header.Reached [word] .impl

/-- The tokens up to a place where a parameter may stand, the parameters before it included. -/
inductive ListReached : List Token → Header → List Param → Prop
  | mk {start list : List Token} {less : Token} {header : Header} {before : List Param} :
      Header.Reached start header → less.terminal = .less →
      CommaPrefix Param.Derived list before → ListReached (start ++ less :: list) header before

/-- The tokens up to the colon in front of a bound. -/
inductive BoundSite.Reached : List Token → BoundSite → Prop
  | param {tokens : List Token} {header : Header} {before : List Param} {name colon : Token} :
      ListReached tokens header before → name.terminal = .name → colon.terminal = .colon →
      BoundSite.Reached (tokens ++ [name, colon]) (.param header before name.phrase)
  | supertraits {start list : List Token} {name : Name} {params : List Param} {colon : Token} :
      Header.Reached start (.trait name) → ParamList list params → colon.terminal = .colon →
      BoundSite.Reached (start ++ (list ++ [colon])) (.supertraits name params)

/-- The terms of a bound up to a term that may carry its own sign. -/
inductive TermsReached : List Token → BoundExpr → Prop
  | first : TermsReached [] ⟨[], []⟩
  | plus {tokens : List Token} {bound : BoundExpr} {plus : Token} :
      BoundExpr.Derived tokens bound → plus.terminal = .plus → TermsReached (tokens ++ [plus]) bound

/-- The terms of a bound up to the type expression of the next, its sign included. -/
inductive SignReached : List Token → BoundExpr → Bool → Prop
  | positive {tokens : List Token} {sofar : BoundExpr} :
      TermsReached tokens sofar → SignReached tokens sofar false
  | negative {tokens : List Token} {sofar : BoundExpr} {sign : Token} :
      TermsReached tokens sofar → sign.terminal = .minus ∨ sign.terminal = .bang →
      SignReached (tokens ++ [sign]) sofar true
  | without {tokens : List Token} {sofar : BoundExpr} {minus : Token} :
      BoundExpr.Derived tokens sofar → minus.terminal = .minus →
      SignReached (tokens ++ [minus]) sofar true

theorem TermsReached.concat {before tokens : List Token} {sofar : BoundExpr} {term : SignedTerm}
    (reached : TermsReached before sofar) (derived : SignedTerm.Derived tokens term) :
    BoundExpr.Derived (before ++ tokens) (sofar.extend term.negated term.expr) := by
  cases reached with
  | first => exact ⟨[term], .term derived, (BoundExpr.ofTerms_concat [] term).symm⟩
  | plus bound isPlus =>
    obtain ⟨terms, chain, rfl⟩ := bound
    refine ⟨terms ++ [term], ?_, (BoundExpr.ofTerms_concat terms term).symm⟩
    have whole := BoundChain.join chain isPlus derived
    rwa [List.append_assoc]

theorem SignReached.concat {before tokens : List Token} {sofar : BoundExpr} {negated : Bool}
    {expr : TypeExpr} (reached : SignReached before sofar negated)
    (derived : TypeExpr.Derived tokens expr) :
    BoundExpr.Derived (before ++ tokens) (sofar.extend negated expr) := by
  cases reached with
  | positive terms => exact terms.concat (.positive derived)
  | negative terms signed =>
    have whole := terms.concat (.negative signed derived)
    rwa [List.append_assoc]
  | without bound isMinus =>
    obtain ⟨terms, chain, rfl⟩ := bound
    refine ⟨terms ++ [⟨true, expr⟩], ?_, (BoundExpr.ofTerms_concat terms ⟨true, expr⟩).symm⟩
    have whole := BoundChain.without chain isMinus derived
    rwa [List.append_assoc]

/-- The tokens up to a type expression that is no argument of another. -/
inductive ExprSite.Reached : List Token → ExprSite → Prop
  | term {start terms : List Token} {site : BoundSite} {sofar : BoundExpr} {negated : Bool} :
      BoundSite.Reached start site → SignReached terms sofar negated →
      ExprSite.Reached (start ++ terms) (.term site sofar negated)
  | head {start list : List Token} {params : List Param} :
      Header.Reached start .impl → ParamList list params →
      ExprSite.Reached (start ++ list) (.head params)
  | target {start list front : List Token} {params : List Param} {trait : TypeExpr} {link : Token} :
      Header.Reached start .impl → ParamList list params → TypeExpr.Derived front trait →
      link.terminal = .forWord →
      ExprSite.Reached (start ++ (list ++ (front ++ [link]))) (.target params trait)

/-- The tokens of the argument lists that are still open. -/
inductive ArgsReached : List Token → List OpenArgs → Prop
  | none : ArgsReached [] []
  | more {start list : List Token} {outer : List OpenArgs} {name less : Token}
      {before : List TypeExpr} :
      ArgsReached start outer → name.terminal = .name → less.terminal = .less →
      CommaPrefix TypeExpr.Derived list before →
      ArgsReached (start ++ name :: less :: list) (⟨name.phrase, before⟩ :: outer)

/-- The tokens since the last complete declaration that lead to where the next one stands. -/
inductive Progress.Reached : List Token → Progress → Prop
  | between : Progress.Reached [] .between
  | structName {word : Token} : word.terminal = .structWord → Progress.Reached [word] .structName
  | traitName {word : Token} : word.terminal = .traitWord → Progress.Reached [word] .traitName
  | header {start : List Token} {header : Header} :
      Header.Reached start header → Progress.Reached start (.header header)
  | listOpen {tokens : List Token} {header : Header} {before : List Param} :
      ListReached tokens header before → Progress.Reached tokens (.listOpen header before)
  | paramName {tokens : List Token} {header : Header} {before : List Param} {name : Token} :
      ListReached tokens header before → name.terminal = .name →
      Progress.Reached (tokens ++ [name]) (.paramName header before name.phrase)
  | listClosed {start list : List Token} {header : Header} {params : List Param} :
      Header.Reached start header → ParamList list params →
      Progress.Reached (start ++ list) (.listClosed header params)
  | termStart {start terms : List Token} {site : BoundSite} {sofar : BoundExpr} :
      BoundSite.Reached start site → TermsReached terms sofar →
      Progress.Reached (start ++ terms) (.termStart site sofar)
  | exprStart {start args : List Token} {site : ExprSite} {outer : List OpenArgs} :
      ExprSite.Reached start site → ArgsReached args outer →
      Progress.Reached (start ++ args) (.exprStart site outer)
  | exprName {start args : List Token} {site : ExprSite} {outer : List OpenArgs} {name : Token} :
      ExprSite.Reached start site → ArgsReached args outer → name.terminal = .name →
      Progress.Reached (start ++ (args ++ [name])) (.exprName site outer name.phrase)
  | exprClosed {start args tokens : List Token} {site : ExprSite} {outer : List OpenArgs}
      {expr : TypeExpr} :
      ExprSite.Reached start site → ArgsReached args outer → TypeExpr.Derived tokens expr →
      Progress.Reached (start ++ (args ++ tokens)) (.exprClosed site outer expr)
  | body {tokens : List Token} {decl : Decl} :
      (∀ closing : Token, closing.terminal = .closeBrace →
        Decl.Derived (tokens ++ [closing]) decl) → Progress.Reached tokens (.body decl)

/-- What a token has moved is reached by the tokens up to it. -/
def Move.Reached (tokens : List Token) : Move → Prop
  | .go progress => progress.Reached tokens
  | .complete decl => Decl.Derived tokens decl

theorem ListReached.comma {tokens last : List Token} {header : Header} {before : List Param}
    {param : Param} {comma : Token} (reached : ListReached tokens header before)
    (derived : Param.Derived last param) (isComma : comma.terminal = .comma) :
    ListReached (tokens ++ (last ++ [comma])) header (before ++ [param]) := by
  obtain ⟨start, isLess, list⟩ := reached
  have whole := ListReached.mk start isLess (.comma (list.concat derived) isComma)
  simpa only [List.append_assoc, List.cons_append] using whole

theorem ListReached.greater {tokens last : List Token} {header : Header} {before : List Param}
    {param : Param} {greater : Token} (reached : ListReached tokens header before)
    (derived : Param.Derived last param) (isGreater : greater.terminal = .greater) :
    Progress.Reached (tokens ++ (last ++ [greater])) (.listClosed header (before ++ [param])) := by
  obtain ⟨start, isLess, list⟩ := reached
  have whole := Progress.Reached.listClosed start
    (.listed isLess (list.concat derived) isGreater)
  simpa only [List.append_assoc, List.cons_append] using whole

/-- A list may also end before the next parameter: at once or after a comma. -/
theorem ListReached.close {tokens : List Token} {header : Header} {before : List Param}
    {greater : Token} (reached : ListReached tokens header before)
    (isGreater : greater.terminal = .greater) :
    Progress.Reached (tokens ++ [greater]) (.listClosed header before) := by
  obtain ⟨start, isLess, list⟩ := reached
  cases list with
  | none =>
    have whole := Progress.Reached.listClosed start (.empty isLess isGreater)
    simpa only [List.append_assoc, List.cons_append, List.nil_append] using whole
  | comma list isComma =>
    have whole := Progress.Reached.listClosed start (.trailing isLess list isComma isGreater)
    simpa only [List.append_assoc, List.cons_append, List.nil_append] using whole

theorem BoundSite.Reached.advance {start terms : List Token} {site : BoundSite} {bound : BoundExpr}
    {token : Token} {next : Progress} (reached : BoundSite.Reached start site)
    (derived : BoundExpr.Derived terms bound)
    (moved : site.advance bound token.terminal = some next) :
    next.Reached (start ++ (terms ++ [token])) := by
  unfold BoundSite.advance at moved
  split at moved
  · rename_i isComma
    cases moved
    cases reached with
    | param list isName isColon =>
      have whole := Progress.Reached.listOpen (list.comma (.bounded isName isColon derived) isComma)
      simpa only [List.append_assoc, List.cons_append, List.nil_append] using whole
  · rename_i isGreater
    cases moved
    cases reached with
    | param list isName isColon =>
      have whole := list.greater (.bounded isName isColon derived) isGreater
      simpa only [List.append_assoc, List.cons_append, List.nil_append] using whole
  · rename_i isOpening
    cases moved
    cases reached with
    | supertraits header list isColon =>
      refine .body fun closing isClosing => ?_
      cases header with
      | trait isWord isName =>
        have whole := Decl.Derived.trait isWord isName list (.listed isColon derived) isOpening
          isClosing
        simpa only [List.append_assoc, List.cons_append, List.nil_append] using whole
  · cases moved

theorem ExprSite.Reached.advance {start tokens : List Token} {site : ExprSite} {expr : TypeExpr}
    {token : Token} {next : Progress} (reached : ExprSite.Reached start site)
    (derived : TypeExpr.Derived tokens expr)
    (moved : site.advance expr token.terminal = some next) :
    next.Reached (start ++ (tokens ++ [token])) := by
  cases reached with
  | term site terms =>
    have bound := terms.concat derived
    unfold ExprSite.advance at moved
    dsimp only at moved
    split at moved
    · rename_i isPlus
      cases moved
      have whole := Progress.Reached.termStart site (.plus bound isPlus)
      simpa only [List.append_assoc] using whole
    · rename_i isMinus
      cases moved
      have whole := Progress.Reached.exprStart (.term site (.without bound isMinus)) .none
      simpa only [List.append_assoc, List.append_nil] using whole
    · have whole := site.advance bound moved
      simpa only [List.append_assoc] using whole
  | head header list =>
    unfold ExprSite.advance at moved
    dsimp only at moved
    split at moved
    · rename_i isLink
      cases moved
      have whole := Progress.Reached.exprStart (.target header list derived isLink) .none
      simpa only [List.append_assoc, List.append_nil] using whole
    · cases moved
  | target header list front isLink =>
    unfold ExprSite.advance at moved
    dsimp only at moved
    split at moved
    · rename_i isOpening
      cases moved
      refine .body fun closing isClosing => ?_
      cases header with
      | impl isWord =>
        have whole := Decl.Derived.impl isWord list front isLink derived isOpening isClosing
        simpa only [List.append_assoc, List.cons_append, List.nil_append] using whole
    · cases moved

theorem ExprSite.Reached.advanceIn {start args tokens : List Token} {site : ExprSite}
    {outer : List OpenArgs} {expr : TypeExpr} {token : Token} {next : Progress}
    (reached : ExprSite.Reached start site) (opened : ArgsReached args outer)
    (derived : TypeExpr.Derived tokens expr)
    (moved : site.advanceIn outer expr token.terminal = some next) :
    next.Reached (start ++ (args ++ (tokens ++ [token]))) := by
  unfold ExprSite.advanceIn at moved
  cases opened with
  | none => exact reached.advance derived moved
  | more opened isName isLess list =>
    have longer := list.concat derived
    dsimp only at moved
    split at moved
    · rename_i isComma
      cases moved
      have whole := Progress.Reached.exprStart reached
        (.more opened isName isLess (.comma longer isComma))
      simpa only [List.append_assoc, List.cons_append] using whole
    · rename_i isGreater
      cases moved
      have whole := Progress.Reached.exprClosed reached opened
        (.applied isName isLess longer isGreater)
      simpa only [List.append_assoc, List.cons_append] using whole
    · cases moved

theorem Header.Reached.advance {start list : List Token} {header : Header} {params : List Param}
    {token : Token} {move : Move} (reached : Header.Reached start header)
    (paramList : ParamList list params) (moved : header.advance params token = some move) :
    move.Reached (start ++ (list ++ [token])) := by
  unfold Header.advance at moved
  split at moved
  · rename_i isSemicolon
    cases moved
    cases reached with
    | struct isWord isName => exact .struct isWord isName paramList isSemicolon
  · rename_i isColon
    cases moved
    have whole := Progress.Reached.termStart (.supertraits reached paramList isColon) .first
    rwa [List.append_nil] at whole
  · rename_i isOpening
    cases moved
    refine .body fun closing isClosing => ?_
    cases reached with
    | trait isWord isName =>
      have whole := Decl.Derived.trait isWord isName paramList .nothing isOpening isClosing
      simpa only [List.append_assoc, List.cons_append, List.nil_append] using whole
  · rename_i isName
    cases moved
    have whole := Progress.Reached.exprName (.head reached paramList) .none isName
    simpa only [Move.Reached, List.append_assoc, List.nil_append] using whole
  · cases moved

/-- One token lengthens the prefix that a declaration has reached by itself, and nothing else. -/
theorem Progress.Reached.advance {tokens : List Token} {progress : Progress} {token : Token}
    {move : Move} (reached : Progress.Reached tokens progress)
    (moved : progress.advance token = some move) : move.Reached (tokens ++ [token]) := by
  unfold Progress.advance at moved
  -- One case for each place in a declaration, and in it one for each terminal that is taken there.
  cases reached with
  | between =>
    dsimp only at moved
    split at moved
    · rename_i isWord
      cases moved
      exact .structName isWord
    · rename_i isWord
      cases moved
      exact .traitName isWord
    · rename_i isWord
      cases moved
      exact .header (.impl isWord)
    · cases moved
  | structName isWord =>
    dsimp only at moved
    split at moved
    · rename_i isName
      cases moved
      exact .header (.struct isWord isName)
    · cases moved
  | traitName isWord =>
    dsimp only at moved
    split at moved
    · rename_i isName
      cases moved
      exact .header (.trait isWord isName)
    · cases moved
  | header header =>
    dsimp only at moved
    split at moved
    · rename_i isLess
      cases moved
      exact .listOpen (.mk header isLess .none)
    · exact header.advance .absent moved
  | listOpen list =>
    dsimp only at moved
    split at moved
    · rename_i isGreater
      cases moved
      exact list.close isGreater
    · rename_i isName
      cases moved
      exact .paramName list isName
    · cases moved
  | paramName list isName =>
    dsimp only at moved
    rw [List.append_assoc]
    split at moved
    · rename_i isColon
      cases moved
      have whole := Progress.Reached.termStart (.param list isName isColon) .first
      rwa [List.append_nil] at whole
    · rename_i isComma
      cases moved
      exact .listOpen (list.comma (.plain isName) isComma)
    · rename_i isGreater
      cases moved
      exact list.greater (.plain isName) isGreater
    · cases moved
  | listClosed header list =>
    rw [List.append_assoc]
    exact header.advance list moved
  | termStart site terms =>
    dsimp only at moved
    rw [List.append_assoc]
    split at moved
    · rename_i isBang
      cases moved
      have whole := Progress.Reached.exprStart (.term site (.negative terms (.inr isBang))) .none
      rwa [List.append_nil] at whole
    · rename_i isMinus
      cases moved
      have whole := Progress.Reached.exprStart (.term site (.negative terms (.inl isMinus))) .none
      rwa [List.append_nil] at whole
    · rename_i isName
      cases moved
      have whole := Progress.Reached.exprName (.term site (.positive terms)) .none isName
      simpa only [Move.Reached, List.append_assoc, List.nil_append] using whole
    · cases moved
  | exprStart site args =>
    dsimp only at moved
    rw [List.append_assoc]
    split at moved
    · rename_i isName
      cases moved
      exact .exprName site args isName
    · cases moved
  | exprName site args isName =>
    dsimp only at moved
    rw [List.append_assoc, List.append_assoc]
    split at moved
    · rename_i isLess
      cases moved
      exact .exprStart site (.more args isName isLess .none)
    · obtain ⟨next, advanced, rfl⟩ := Option.map_eq_some_iff.mp moved
      exact site.advanceIn args (.name isName) advanced
  | exprClosed site args derived =>
    rw [List.append_assoc, List.append_assoc]
    obtain ⟨next, advanced, rfl⟩ := Option.map_eq_some_iff.mp moved
    exact site.advanceIn args derived advanced
  | body completed =>
    dsimp only at moved
    split at moved
    · rename_i isClosing
      cases moved
      exact completed token isClosing
    · cases moved

/-- The tokens of the complete declarations, and those of the next one so far. -/
inductive ParseState.Reached : List Token → ParseState → Prop
  | mk {before tokens : List Token} {decls : List Decl} {progress : Progress} :
      DeclSeries before decls → Progress.Reached tokens progress →
      ParseState.Reached (before ++ tokens) ⟨decls, progress⟩

theorem ParseState.Reached.advance {tokens : List Token} {state next : ParseState} {token : Token}
    (reached : ParseState.Reached tokens state) (moved : state.advance token = some next) :
    next.Reached (tokens ++ [token]) := by
  obtain ⟨series, progress⟩ := reached
  obtain ⟨move, advanced, rfl⟩ := Option.map_eq_some_iff.mp moved
  have after := progress.advance advanced
  rw [List.append_assoc]
  cases move with
  | go progress => exact .mk series after
  | complete decl =>
    have whole := ParseState.Reached.mk (series.more after) .between
    rwa [List.append_nil] at whole

/-- Reading only ever gets to states that the tokens read so far derive. -/
theorem ParseState.Reached.read {before tokens : List Token} {state after : ParseState}
    (reached : ParseState.Reached before state) (read : state.read tokens = .ok after) :
    after.Reached (before ++ tokens) := by
  -- The prefix read so far grows by each token, so it is generalized with the state.
  induction tokens generalizing before state with
  | nil =>
    cases read
    rwa [List.append_nil]
  | cons token tokens ih =>
    rw [ParseState.read] at read
    split at read
    · rename_i next moved
      have whole := ih (reached.advance moved) read
      rwa [List.append_assoc] at whole
    · cases read

theorem ParseState.Reached.start : ParseState.start.Reached [] := .mk .empty .between

end TraitCoherence
