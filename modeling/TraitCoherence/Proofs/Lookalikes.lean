import TraitCoherence.Proofs.Restoration
import TraitCoherence.Proofs.SyntaxErrors

namespace TraitCoherence

section

variable {token other : Token} (same : other.lexeme = token.lexeme)

include same

theorem Token.terminal_of_same {terminal : Terminal} (said : token.terminal = terminal) :
    other.terminal = terminal :=
  (Token.terminal_of_lexeme same).trans said

theorem Token.unplaced_of_same : other.phrase.unplaced = token.phrase.unplaced :=
  Token.unplaced_phrase same

end

/-- Where tokens are split at one of them, others that say the same can be split as well. -/
theorem exists_split_of_same {others front back : List Token} {token : Token}
    (said : others.map Token.lexeme = (front ++ token :: back).map Token.lexeme) :
    ∃ first again second, others = first ++ again :: second ∧
      first.map Token.lexeme = front.map Token.lexeme ∧ again.lexeme = token.lexeme ∧
      second.map Token.lexeme = back.map Token.lexeme := by
  rw [List.map_append, List.map_cons] at said
  obtain ⟨first, rest, rfl, saidFront, saidRest⟩ := List.map_eq_append_iff.mp said
  obtain ⟨again, second, rfl, same, saidBack⟩ := List.map_eq_cons_iff.mp saidRest
  exact ⟨first, again, second, rfl, saidFront, same, saidBack⟩

/-- Other tokens that say the same derive an item that differs from this one in its places only. -/
def Recurs {α : Type} (Item : List Token → α → Prop) (forget : α → α) (tokens : List Token)
    (item : α) : Prop :=
  ∀ others : List Token, others.map Token.lexeme = tokens.map Token.lexeme →
    ∃ again, Item others again ∧ forget again = forget item

theorem CommaList.imp {α : Type} {Item Other : List Token → α → Prop}
    (each : ∀ tokens item, Item tokens item → Other tokens item) {tokens : List Token} {items : List α}
    (list : CommaList Item tokens items) : CommaList Other tokens items := by
  induction list with
  | first derived => exact .first (each _ _ derived)
  | more _ isComma derived ih => exact .more ih isComma (each _ _ derived)

theorem CommaList.recurs {α : Type} {Item : List Token → α → Prop} {forget : α → α}
    {tokens : List Token} {items : List α} (list : CommaList (Recurs Item forget) tokens items) :
    Recurs (CommaList Item) (List.map forget) tokens items := by
  induction list with
  | first recurs =>
    intro others said
    obtain ⟨again, derived, alike⟩ := recurs others said
    exact ⟨[again], .first derived, by rw [List.map_singleton, alike, List.map_singleton]⟩
  | more _ isComma recurs ih =>
    intro others said
    obtain ⟨front, comma, rest, rfl, saidFront, sameComma, saidRest⟩ := exists_split_of_same said
    obtain ⟨items, derived, alike⟩ := ih front saidFront
    obtain ⟨item, derivedItem, alikeItem⟩ := recurs rest saidRest
    refine ⟨items ++ [item], .more derived (Token.terminal_of_same sameComma isComma) derivedItem, ?_⟩
    rw [List.map_append, alike, List.map_singleton, alikeItem, List.map_append, List.map_singleton]

theorem TypeExpr.Derived.recurs {tokens : List Token} {expr : TypeExpr}
    (derived : TypeExpr.Derived tokens expr) :
    Recurs TypeExpr.Derived TypeExpr.unplaced tokens expr := by
  refine TypeExpr.Derived.ind (motive := Recurs TypeExpr.Derived TypeExpr.unplaced)
    (fun isName => ?_) (fun isName isLess list isGreater => ?_) derived
  · intro others said
    obtain ⟨name, rfl, same⟩ := List.map_eq_singleton_iff.mp said
    refine ⟨_, .name (Token.terminal_of_same same isName), ?_⟩
    rw [TypeExpr.unplaced_apply, TypeExpr.unplaced_apply, Token.unplaced_of_same same]
  · intro others said
    obtain ⟨name, others, rfl, sameName, said⟩ := List.map_eq_cons_iff.mp said
    obtain ⟨less, others, rfl, sameLess, said⟩ := List.map_eq_cons_iff.mp said
    rw [List.map_append] at said
    obtain ⟨inner, closing, rfl, saidInner, saidClosing⟩ := List.map_eq_append_iff.mp said
    obtain ⟨greater, rfl, sameGreater⟩ := List.map_eq_singleton_iff.mp saidClosing
    obtain ⟨args, derivedArgs, alike⟩ := list.recurs inner saidInner
    refine ⟨_, .applied (Token.terminal_of_same sameName isName)
      (Token.terminal_of_same sameLess isLess) derivedArgs
      (Token.terminal_of_same sameGreater isGreater), ?_⟩
    rw [TypeExpr.unplaced_apply, TypeExpr.unplaced_apply, Token.unplaced_of_same sameName, alike]

def SignedTerm.unplaced (term : SignedTerm) : SignedTerm := ⟨term.negated, term.expr.unplaced⟩

theorem SignedTerm.Derived.recurs {tokens : List Token} {term : SignedTerm}
    (derived : SignedTerm.Derived tokens term) :
    Recurs SignedTerm.Derived SignedTerm.unplaced tokens term := by
  intro others said
  cases derived with
  | positive derived =>
    obtain ⟨again, derivedAgain, alike⟩ := derived.recurs others said
    exact ⟨_, .positive derivedAgain, congrArg (SignedTerm.mk false) alike⟩
  | negative isSign derived =>
    obtain ⟨sign, others, rfl, sameSign, said⟩ := List.map_eq_cons_iff.mp said
    obtain ⟨again, derivedAgain, alike⟩ := derived.recurs others said
    have isSignToo := isSign.imp (Token.terminal_of_same sameSign) (Token.terminal_of_same sameSign)
    exact ⟨_, .negative isSignToo derivedAgain, congrArg (SignedTerm.mk true) alike⟩

theorem BoundChain.recurs {tokens : List Token} {terms : List SignedTerm}
    (chain : BoundChain tokens terms) :
    Recurs BoundChain (List.map SignedTerm.unplaced) tokens terms := by
  induction chain with
  | term derived =>
    intro others said
    obtain ⟨again, derivedAgain, alike⟩ := derived.recurs others said
    exact ⟨[again], .term derivedAgain, by rw [List.map_singleton, alike, List.map_singleton]⟩
  | join _ isPlus derived ih =>
    intro others said
    obtain ⟨front, plus, rest, rfl, saidFront, samePlus, saidRest⟩ := exists_split_of_same said
    obtain ⟨terms, chain, alike⟩ := ih front saidFront
    obtain ⟨again, derivedAgain, alikeAgain⟩ := derived.recurs rest saidRest
    refine ⟨_, .join chain (Token.terminal_of_same samePlus isPlus) derivedAgain, ?_⟩
    rw [List.map_append, alike, List.map_singleton, alikeAgain, List.map_append, List.map_singleton]
  | without _ isMinus derived ih =>
    intro others said
    obtain ⟨front, minus, rest, rfl, saidFront, sameMinus, saidRest⟩ := exists_split_of_same said
    obtain ⟨terms, chain, alike⟩ := ih front saidFront
    obtain ⟨again, derivedAgain, alikeAgain⟩ := derived.recurs rest saidRest
    refine ⟨_, .without chain (Token.terminal_of_same sameMinus isMinus) derivedAgain, ?_⟩
    have sameTerm : SignedTerm.unplaced ⟨true, again⟩ = SignedTerm.unplaced ⟨true, _⟩ :=
      congrArg (SignedTerm.mk true) alikeAgain
    rw [List.map_append, alike, List.map_singleton, sameTerm, List.map_append, List.map_singleton]

theorem BoundExpr.unplaced_ofTerms (terms : List SignedTerm) :
    (BoundExpr.ofTerms terms).unplaced = .ofTerms (terms.map SignedTerm.unplaced) := by
  simp [BoundExpr.unplaced, BoundExpr.ofTerms, List.filter_map, Function.comp_def, SignedTerm.unplaced]

theorem BoundExpr.Derived.recurs {tokens : List Token} {bound : BoundExpr}
    (derived : BoundExpr.Derived tokens bound) :
    Recurs BoundExpr.Derived BoundExpr.unplaced tokens bound := by
  intro others said
  obtain ⟨terms, chain, rfl⟩ := derived
  obtain ⟨again, chainAgain, alike⟩ := chain.recurs others said
  refine ⟨_, ⟨again, chainAgain, rfl⟩, ?_⟩
  rw [BoundExpr.unplaced_ofTerms, alike, BoundExpr.unplaced_ofTerms]

theorem Param.Derived.recurs {tokens : List Token} {param : Param}
    (derived : Param.Derived tokens param) : Recurs Param.Derived Param.unplaced tokens param := by
  intro others said
  cases derived with
  | plain isName =>
    obtain ⟨name, rfl, same⟩ := List.map_eq_singleton_iff.mp said
    refine ⟨_, .plain (Token.terminal_of_same same isName), ?_⟩
    simp only [Param.unplaced, Token.unplaced_of_same same]
  | bounded isName isColon derived =>
    obtain ⟨name, others, rfl, sameName, said⟩ := List.map_eq_cons_iff.mp said
    obtain ⟨colon, others, rfl, sameColon, said⟩ := List.map_eq_cons_iff.mp said
    obtain ⟨again, derivedAgain, alike⟩ := derived.recurs others said
    refine ⟨_, .bounded (Token.terminal_of_same sameName isName)
      (Token.terminal_of_same sameColon isColon) derivedAgain, ?_⟩
    simp only [Param.unplaced, Token.unplaced_of_same sameName, Option.map_some, alike]

theorem ParamList.recurs {tokens : List Token} {params : List Param}
    (list : ParamList tokens params) :
    Recurs ParamList (List.map Param.unplaced) tokens params := by
  have inner {tokens : List Token} (list : CommaList Param.Derived tokens params) :=
    (list.imp fun _ _ derived => derived.recurs).recurs
  intro others said
  cases list with
  | absent =>
    rw [List.map_eq_nil_iff.mp said]
    exact ⟨[], .absent, rfl⟩
  | empty isLess isGreater =>
    obtain ⟨less, others, rfl, sameLess, said⟩ := List.map_eq_cons_iff.mp said
    obtain ⟨greater, rfl, sameGreater⟩ := List.map_eq_singleton_iff.mp said
    exact ⟨[], .empty (Token.terminal_of_same sameLess isLess)
      (Token.terminal_of_same sameGreater isGreater), rfl⟩
  | listed isLess list isGreater =>
    obtain ⟨less, others, rfl, sameLess, said⟩ := List.map_eq_cons_iff.mp said
    rw [List.map_append] at said
    obtain ⟨front, closing, rfl, saidFront, saidClosing⟩ := List.map_eq_append_iff.mp said
    obtain ⟨greater, rfl, sameGreater⟩ := List.map_eq_singleton_iff.mp saidClosing
    obtain ⟨again, derived, alike⟩ := inner list front saidFront
    exact ⟨again, .listed (Token.terminal_of_same sameLess isLess) derived
      (Token.terminal_of_same sameGreater isGreater), alike⟩
  | trailing isLess list isComma isGreater =>
    obtain ⟨less, others, rfl, sameLess, said⟩ := List.map_eq_cons_iff.mp said
    rw [List.map_append] at said
    obtain ⟨front, closing, rfl, saidFront, saidClosing⟩ := List.map_eq_append_iff.mp said
    obtain ⟨comma, closing, rfl, sameComma, saidClosing⟩ := List.map_eq_cons_iff.mp saidClosing
    obtain ⟨greater, rfl, sameGreater⟩ := List.map_eq_singleton_iff.mp saidClosing
    obtain ⟨again, derived, alike⟩ := inner list front saidFront
    exact ⟨again, .trailing (Token.terminal_of_same sameLess isLess) derived
      (Token.terminal_of_same sameComma isComma) (Token.terminal_of_same sameGreater isGreater), alike⟩

theorem SupertraitList.recurs {tokens : List Token} {supertraits : Option BoundExpr}
    (list : SupertraitList tokens supertraits) :
    Recurs SupertraitList (Option.map BoundExpr.unplaced) tokens supertraits := by
  intro others said
  cases list with
  | nothing =>
    rw [List.map_eq_nil_iff.mp said]
    exact ⟨none, .nothing, rfl⟩
  | listed isColon derived =>
    obtain ⟨colon, others, rfl, sameColon, said⟩ := List.map_eq_cons_iff.mp said
    obtain ⟨again, derivedAgain, alike⟩ := derived.recurs others said
    exact ⟨some again, .listed (Token.terminal_of_same sameColon isColon) derivedAgain,
      congrArg some alike⟩

/-- The braces of a body are there again. -/
theorem exists_braces_of_same {others : List Token} {opening closing : Token}
    (said : others.map Token.lexeme = [opening, closing].map Token.lexeme)
    (isOpening : opening.terminal = .openBrace) (isClosing : closing.terminal = .closeBrace) :
    ∃ first last, others = [first, last] ∧ first.terminal = .openBrace ∧
      last.terminal = .closeBrace := by
  obtain ⟨first, others, rfl, sameFirst, said⟩ := List.map_eq_cons_iff.mp said
  obtain ⟨last, rfl, sameLast⟩ := List.map_eq_singleton_iff.mp said
  exact ⟨first, last, rfl, Token.terminal_of_same sameFirst isOpening,
    Token.terminal_of_same sameLast isClosing⟩

theorem Decl.Derived.recurs {tokens : List Token} {decl : Decl} (derived : Decl.Derived tokens decl) :
    Recurs Decl.Derived Decl.unplaced tokens decl := by
  intro others said
  cases derived with
  | struct isWord isName list isSemicolon =>
    obtain ⟨word, others, rfl, sameWord, said⟩ := List.map_eq_cons_iff.mp said
    obtain ⟨name, others, rfl, sameName, said⟩ := List.map_eq_cons_iff.mp said
    rw [List.map_append] at said
    obtain ⟨front, closing, rfl, saidFront, saidClosing⟩ := List.map_eq_append_iff.mp said
    obtain ⟨semicolon, rfl, sameSemicolon⟩ := List.map_eq_singleton_iff.mp saidClosing
    obtain ⟨params, derivedParams, alike⟩ := list.recurs front saidFront
    refine ⟨_, .struct (Token.terminal_of_same sameWord isWord) (Token.terminal_of_same sameName isName)
      derivedParams (Token.terminal_of_same sameSemicolon isSemicolon), ?_⟩
    simp only [Decl.unplaced, Token.unplaced_of_same sameName, alike]
  | trait isWord isName list demands isOpening isClosing =>
    obtain ⟨word, others, rfl, sameWord, said⟩ := List.map_eq_cons_iff.mp said
    obtain ⟨name, others, rfl, sameName, said⟩ := List.map_eq_cons_iff.mp said
    rw [List.map_append, List.map_append] at said
    obtain ⟨front, others, rfl, saidFront, said⟩ := List.map_eq_append_iff.mp said
    obtain ⟨middle, braces, rfl, saidMiddle, saidBraces⟩ := List.map_eq_append_iff.mp said
    obtain ⟨first, last, rfl, isFirst, isLast⟩ := exists_braces_of_same saidBraces isOpening isClosing
    obtain ⟨params, derivedParams, alike⟩ := list.recurs front saidFront
    obtain ⟨supertraits, derivedDemands, alikeDemands⟩ := demands.recurs middle saidMiddle
    refine ⟨_, .trait (Token.terminal_of_same sameWord isWord) (Token.terminal_of_same sameName isName)
      derivedParams derivedDemands isFirst isLast, ?_⟩
    simp only [Decl.unplaced, Token.unplaced_of_same sameName, alike, alikeDemands]
  | impl isWord list head isFor target isOpening isClosing =>
    obtain ⟨word, others, rfl, sameWord, said⟩ := List.map_eq_cons_iff.mp said
    rw [List.map_append, List.map_append, List.map_cons, List.map_append] at said
    obtain ⟨front, others, rfl, saidFront, said⟩ := List.map_eq_append_iff.mp said
    obtain ⟨middle, others, rfl, saidMiddle, said⟩ := List.map_eq_append_iff.mp said
    obtain ⟨link, others, rfl, sameLink, said⟩ := List.map_eq_cons_iff.mp said
    obtain ⟨back, braces, rfl, saidBack, saidBraces⟩ := List.map_eq_append_iff.mp said
    obtain ⟨first, last, rfl, isFirst, isLast⟩ := exists_braces_of_same saidBraces isOpening isClosing
    obtain ⟨params, derivedParams, alike⟩ := list.recurs front saidFront
    obtain ⟨headAgain, derivedHead, alikeHead⟩ := head.recurs middle saidMiddle
    obtain ⟨targetAgain, derivedTarget, alikeTarget⟩ := target.recurs back saidBack
    refine ⟨_, .impl (Token.terminal_of_same sameWord isWord) derivedParams derivedHead
      (Token.terminal_of_same sameLink isFor) derivedTarget isFirst isLast, ?_⟩
    simp only [Decl.unplaced, alike, alikeHead, alikeTarget]

theorem DeclSeries.recurs {tokens : List Token} {decls : List Decl}
    (series : DeclSeries tokens decls) :
    Recurs DeclSeries (List.map Decl.unplaced) tokens decls := by
  induction series with
  | empty =>
    intro others said
    rw [List.map_eq_nil_iff.mp said]
    exact ⟨[], .empty, rfl⟩
  | more _ derived ih =>
    intro others said
    rw [List.map_append] at said
    obtain ⟨front, back, rfl, saidFront, saidBack⟩ := List.map_eq_append_iff.mp said
    obtain ⟨decls, series, alike⟩ := ih front saidFront
    obtain ⟨decl, derivedAgain, alikeDecl⟩ := derived.recurs back saidBack
    refine ⟨_, .more series derivedAgain, ?_⟩
    rw [List.map_append, alike, List.map_singleton, alikeDecl, List.map_append, List.map_singleton]

/-- What tokens derive depends on what they say alone, places aside. -/
theorem Program.Derived.recurs {tokens : List Token} {program : Program}
    (derived : Program.Derived tokens program) :
    Recurs Program.Derived Program.unplaced tokens program := by
  intro others said
  obtain ⟨decls, series, alike⟩ := DeclSeries.recurs derived others said
  exact ⟨⟨decls⟩, series, congrArg Program.mk alike⟩

section

variable {tokens others : List Token} (said : others.map Token.lexeme = tokens.map Token.lexeme)

include said

theorem Viable.of_same (viable : Viable tokens) : Viable others := by
  obtain ⟨rest, program, derived⟩ := viable
  have whole : (others ++ rest).map Token.lexeme = (tokens ++ rest).map Token.lexeme := by
    rw [List.map_append, said, List.map_append]
  obtain ⟨again, derivedAgain, _⟩ := derived.recurs _ whole
  exact ⟨rest, again, derivedAgain⟩

theorem exists_derived_of_same (derives : ∃ program, Program.Derived tokens program) :
    ∃ program, Program.Derived others program := by
  obtain ⟨program, derived⟩ := derives
  obtain ⟨again, derivedAgain, _⟩ := derived.recurs others said
  exact ⟨again, derivedAgain⟩

/-- After tokens that say the same, the same terminals can come next. -/
theorem ParseState.expected_of_same {state other : ParseState}
    (read : ParseState.start.read tokens = .ok state)
    (readToo : ParseState.start.read others = .ok other) : other.expected = state.expected := by
  refine List.filter_congr fun terminal _ => ?_
  rw [Bool.eq_iff_iff, ← ParseState.mem_expected, ← ParseState.mem_expected]
  by_cases atEnd : terminal = .finish
  · rw [atEnd, ParseState.finish_mem_expected_iff read, ParseState.finish_mem_expected_iff readToo]
    exact ⟨exists_derived_of_same said.symm, exists_derived_of_same said⟩
  · have next (first second : List Token) (same : first.map Token.lexeme = second.map Token.lexeme)
        (viable : Viable (second ++ [.bare terminal])) : Viable (first ++ [.bare terminal]) :=
      viable.of_same (by rw [List.map_append, same, List.map_append])
    have notEnd : (Token.bare terminal).terminal ≠ .finish := atEnd
    have here := ParseState.mem_expected_iff_viable read notEnd
    have there := ParseState.mem_expected_iff_viable readToo notEnd
    exact there.trans (Iff.trans ⟨next _ _ said.symm, next _ _ said⟩ here.symm)

end

/-- What a scan says, wherever it says it: the lexemes in order, and the character it got stuck on. -/
def Scan.content (scan : Scan) : List Lexeme × Option String :=
  (scan.tokens.map Token.lexeme, scan.stuck.map Phrase.text)

def Token.unplaced (token : Token) : Token := ⟨token.terminal, token.text, ⟨0, 0⟩⟩

theorem Token.lexeme_unplaced (token : Token) : token.unplaced.lexeme = token.lexeme := rfl

def Item.unplaced : Item → Item
  | .token read => .token read.unplaced
  | .stuck character => .stuck character.unplaced
  | .finish => .finish

/-- Forgets where in the text an error is. What it blames and what it expects there stay. -/
def ParseError.unplaced : ParseError → ParseError
  | .stuck character => .stuck character.unplaced
  | .unexpected token expected => .unexpected token.unplaced expected
  | .ranOut expected => .ranOut expected

/-- What is read from a text, with the places in it forgotten. -/
def unplacedReading : Except ParseError Program → Except ParseError Program
  | .ok program => .ok program.unplaced
  | .error error => .error error.unplaced

theorem Item.Fits.of_same {tokens others : List Token} {item again : Item}
    (said : others.map Token.lexeme = tokens.map Token.lexeme)
    (alike : again.unplaced = item.unplaced) (fits : item.Fits tokens) : again.Fits others := by
  cases item with
  | token read =>
    cases again with
    | token reread =>
      have tokenAlike : reread.unplaced = read.unplaced := Item.token.inj alike
      have same : reread.lexeme = read.lexeme := by
        rw [← reread.lexeme_unplaced, tokenAlike, read.lexeme_unplaced]
      refine Viable.of_same ?_ fits
      rw [List.map_append, said, List.map_singleton, same, List.map_append, List.map_singleton]
    | stuck character => cases alike
    | finish => cases alike
  | stuck character => exact fits.elim
  | finish =>
    cases again with
    | token reread => cases alike
    | stuck character => cases alike
    | finish => exact exists_derived_of_same said fits

theorem Item.unplaced_blame (item : Item) (expected : List Terminal) :
    (item.blame expected).unplaced = item.unplaced.blame expected := by
  cases item <;> rfl

section

variable {scan other : Scan} (same : other.content = scan.content)

include same

/-- Two scans that say the same come to the same items, one after the other. -/
theorem Scan.items_of_same {before : List Token} {item : Item} {after : List Item}
    (split : scan.items = before.map .token ++ item :: after) :
    ∃ (others : List Token) (again : Item) (rest : List Item),
      other.items = others.map .token ++ again :: rest ∧
      others.map Token.lexeme = before.map Token.lexeme ∧ again.unplaced = item.unplaced := by
  obtain ⟨sameTokens, sameStuck⟩ := Prod.mk.inj same
  have found := Scan.of_items split
  cases item with
  | token read =>
    obtain ⟨rest, tokens⟩ := found
    rw [tokens] at sameTokens
    obtain ⟨front, again, behind, whole, saidFront, sameToken, _⟩ := exists_split_of_same sameTokens
    refine ⟨front, .token again, behind.map .token ++ [other.last], ?_, saidFront, ?_⟩
    · rw [Scan.items, whole, List.map_append, List.map_cons, List.append_assoc, List.cons_append]
    · obtain ⟨sameTerminal, sameText⟩ := Prod.mk.inj sameToken
      rw [Item.unplaced, Token.unplaced, sameTerminal, sameText]
      rfl
  | stuck character =>
    rw [found.2] at sameStuck
    obtain ⟨stuckOn, isStuck, sameText⟩ := Option.map_eq_some_iff.mp sameStuck
    refine ⟨other.tokens, .stuck stuckOn, [], ?_, found.1 ▸ sameTokens, ?_⟩
    · rw [Scan.items, Scan.last, isStuck]
    · exact congrArg (fun text => Item.stuck (.placeless text)) sameText
  | finish =>
    rw [found.2] at sameStuck
    refine ⟨other.tokens, .finish, [], ?_, found.1 ▸ sameTokens, rfl⟩
    rw [Scan.items, Scan.last, Option.map_eq_none_iff.mp sameStuck]

theorem Scan.parse_error_of_same {error : ParseError} (failed : scan.parse = .error error) :
    ∃ again, other.parse = .error again ∧ again.unplaced = error.unplaced := by
  obtain ⟨before, item, after, state, split, read, misfit, rfl⟩ := Scan.parse_error failed
  obtain ⟨others, again, rest, splitToo, said, alike⟩ := Scan.items_of_same same split
  obtain ⟨stateToo, readToo⟩ := viable_iff_read.mp ((viable_iff_read.mpr ⟨state, read⟩).of_same said)
  have misfitToo : ¬ again.Fits others := mt (Item.Fits.of_same said.symm alike.symm) misfit
  refine ⟨_, Scan.parse_of_misfit readToo splitToo misfitToo, ?_⟩
  rw [Item.unplaced_blame, alike, ParseState.expected_of_same said read readToo, Item.unplaced_blame]

end

/-- What is read from a scan depends on what it says alone, places aside. -/
theorem Scan.parse_of_same {scan other : Scan} (same : other.content = scan.content) :
    unplacedReading other.parse = unplacedReading scan.parse := by
  cases outcome : scan.parse with
  | ok program =>
    obtain ⟨notStuck, derived⟩ := Scan.parse_eq_ok_iff.mp outcome
    obtain ⟨sameTokens, sameStuck⟩ := Prod.mk.inj same
    rw [notStuck, Option.map_none, Option.map_eq_none_iff] at sameStuck
    obtain ⟨again, derivedAgain, alike⟩ := derived.recurs other.tokens sameTokens
    rw [Scan.parse_eq_ok_iff.mpr ⟨sameStuck, derivedAgain⟩]
    exact congrArg Except.ok alike
  | error error =>
    obtain ⟨again, failed, alike⟩ := Scan.parse_error_of_same same outcome
    rw [failed]
    exact congrArg Except.error alike

end TraitCoherence
