import TraitCoherence.Declaration.Likeness
import TraitCoherence.Proofs.Grammar
import TraitCoherence.Proofs.Lexemes

namespace TraitCoherence

theorem Token.unplaced_phrase {token : Token} {terminal : Terminal} {name : Name}
    (said : token.lexeme = (terminal, name.text)) : token.phrase.unplaced = name.unplaced :=
  congrArg Phrase.placeless (congrArg Prod.snd said)

theorem Token.terminal_of_lexeme {token : Token} {terminal : Terminal} {text : String}
    (said : token.lexeme = (terminal, text)) : token.terminal = terminal :=
  congrArg Prod.fst said

section

variable {α : Type} {Item : List Token → α → Prop} {forget : α → α} {lexemes : α → List Lexeme}

/-- Tokens that say what the item says derive an item that differs in its places only. -/
def Restores (Item : List Token → α → Prop) (forget : α → α) (lexemes : α → List Lexeme)
    (item : α) : Prop :=
  ∀ tokens : List Token, tokens.map Token.lexeme = lexemes item →
    ∃ again, Item tokens again ∧ forget again = forget item

/-- Items that each follow a mark are restored one after the other, whatever the chain is that
takes them up. -/
theorem Restores.chain (Chain : List Token → List α → Prop) {mark : Lexeme}
    (grow : ∀ {before tokens : List Token} {items : List α} {token : Token} {item : α},
      Chain before items → token.terminal = mark.1 → Item tokens item →
        Chain (before ++ token :: tokens) (items ++ [item]))
    {items : List α} (each : ∀ item ∈ items, Restores Item forget lexemes item)
    {before tokens : List Token} {sofar : List α} (chain : Chain before sofar)
    (said : tokens.map Token.lexeme = (items.map lexemes).flatMap (mark :: ·)) :
    ∃ again, Chain (before ++ tokens) (sofar ++ again) ∧ again.map forget = items.map forget := by
  induction items generalizing before tokens sofar with
  | nil =>
    rw [List.map_eq_nil_iff.mp said, List.append_nil]
    exact ⟨[], by rwa [List.append_nil], rfl⟩
  | cons item items ih =>
    rw [List.map_cons, List.flatMap_cons, List.cons_append, List.map_eq_cons_iff] at said
    obtain ⟨token, tokens, rfl, isMark, said⟩ := said
    obtain ⟨here, rest, rfl, saidHere, saidRest⟩ := List.map_eq_append_iff.mp said
    obtain ⟨first, derived, same⟩ := each item List.mem_cons_self here saidHere
    have next := grow chain (Token.terminal_of_lexeme isMark) derived
    obtain ⟨again, whole, alike⟩ :=
      ih (fun other member => each other (List.mem_cons_of_mem _ member)) next saidRest
    refine ⟨first :: again, ?_, by rw [List.map_cons, List.map_cons, same, alike]⟩
    simpa only [List.append_assoc, List.cons_append, List.nil_append] using whole

theorem Restores.commaList {first : α} {others : List α}
    (each : ∀ item ∈ first :: others, Restores Item forget lexemes item) {tokens : List Token}
    (said : tokens.map Token.lexeme =
      separated (.comma, ",") ((first :: others).map lexemes)) :
    ∃ again, CommaList Item tokens again ∧ again.map forget = (first :: others).map forget := by
  rw [List.map_cons, separated, List.map_eq_append_iff] at said
  obtain ⟨here, rest, rfl, saidHere, saidRest⟩ := said
  obtain ⟨item, derived, same⟩ := each first List.mem_cons_self here saidHere
  obtain ⟨again, list, alike⟩ := Restores.chain (CommaList Item) .more
    (fun other member => each other (List.mem_cons_of_mem _ member)) (.first derived) saidRest
  exact ⟨item :: again, list, by rw [List.map_cons, List.map_cons, same, alike]⟩

theorem Restores.angled {first : α} {others : List α}
    (each : ∀ item ∈ first :: others, Restores Item forget lexemes item) {tokens : List Token}
    (said : tokens.map Token.lexeme = angledLexemes ((first :: others).map lexemes)) :
    ∃ less inner greater again, tokens = less :: (inner ++ [greater]) ∧ less.terminal = .less ∧
      greater.terminal = .greater ∧ CommaList Item inner again ∧
      again.map forget = (first :: others).map forget := by
  rw [List.map_cons, angledLexemes_cons, List.map_eq_cons_iff] at said
  obtain ⟨less, tokens, rfl, isLess, saidTokens⟩ := said
  obtain ⟨inner, closing, rfl, saidInner, saidClosing⟩ := List.map_eq_append_iff.mp saidTokens
  obtain ⟨greater, rfl, isGreater⟩ := List.map_eq_singleton_iff.mp saidClosing
  obtain ⟨again, list, alike⟩ := Restores.commaList each saidInner
  exact ⟨less, inner, greater, again, rfl, Token.terminal_of_lexeme isLess,
    Token.terminal_of_lexeme isGreater, list, alike⟩

end

theorem TypeExpr.unplaced_apply (name : Name) (args : List TypeExpr) :
    (TypeExpr.apply name args).unplaced = .apply name.unplaced (args.map TypeExpr.unplaced) := by
  rw [TypeExpr.unplaced, TypeExpr.unplacedAll_eq_map]

theorem TypeExpr.Writable.restores {expr : TypeExpr} (writable : expr.Writable) :
    Restores TypeExpr.Derived TypeExpr.unplaced TypeExpr.lexemes expr := by
  induction writable with
  | @apply name args _ _ ih =>
    intro tokens said
    rw [TypeExpr.lexemes, TypeExpr.lexemesAll_eq_map, List.map_eq_cons_iff] at said
    obtain ⟨token, tokens, rfl, isName, said⟩ := said
    have named := Token.terminal_of_lexeme isName
    cases args with
    | nil =>
      rw [List.map_eq_nil_iff.mp said]
      refine ⟨_, .name named, ?_⟩
      rw [TypeExpr.unplaced_apply, TypeExpr.unplaced_apply, Token.unplaced_phrase isName]
    | cons first others =>
      obtain ⟨less, inner, greater, again, rfl, isLess, isGreater, list, alike⟩ := Restores.angled ih said
      refine ⟨_, .applied named isLess list isGreater, ?_⟩
      rw [TypeExpr.unplaced_apply, TypeExpr.unplaced_apply, Token.unplaced_phrase isName, alike]

/-- The chain that a printed bound is read as: all that is demanded, then all that is forbidden. -/
def BoundExpr.terms (bound : BoundExpr) : List SignedTerm :=
  bound.positive.map (.mk false) ++ bound.negative.map (.mk true)

theorem BoundExpr.ofTerms_terms (bound : BoundExpr) : BoundExpr.ofTerms bound.terms = bound := by
  have all (exprs : List TypeExpr) : exprs.filter (fun _ => true) = exprs :=
    List.filter_eq_self.mpr fun _ _ => rfl
  have nothing (exprs : List TypeExpr) : exprs.filter (fun _ => false) = [] :=
    List.filter_eq_nil_iff.mpr fun _ _ => Bool.false_ne_true
  simp [BoundExpr.ofTerms, BoundExpr.terms, List.filter_map, Function.comp_def, all, nothing]

theorem BoundExpr.terms_demand (positive : List TypeExpr) (expr : TypeExpr) :
    BoundExpr.terms ⟨positive ++ [expr], []⟩ = BoundExpr.terms ⟨positive, []⟩ ++ [⟨false, expr⟩] := by
  simp [BoundExpr.terms]

theorem BoundExpr.terms_forbid (positive negative : List TypeExpr) (expr : TypeExpr) :
    BoundExpr.terms ⟨positive, negative ++ [expr]⟩ =
      BoundExpr.terms ⟨positive, negative⟩ ++ [⟨true, expr⟩] := by
  simp [BoundExpr.terms]

section

variable {exprs : List TypeExpr}
  (each : ∀ expr ∈ exprs, Restores TypeExpr.Derived TypeExpr.unplaced TypeExpr.lexemes expr)
include each

theorem BoundChain.demand {before tokens : List Token} {positive : List TypeExpr}
    (chain : BoundChain before (BoundExpr.terms ⟨positive, []⟩))
    (said : tokens.map Token.lexeme = (exprs.map TypeExpr.lexemes).flatMap ((.plus, "+") :: ·)) :
    ∃ again, BoundChain (before ++ tokens) (BoundExpr.terms ⟨positive ++ again, []⟩) ∧
      again.map TypeExpr.unplaced = exprs.map TypeExpr.unplaced := by
  refine Restores.chain (fun tokens positive => BoundChain tokens (BoundExpr.terms ⟨positive, []⟩))
    (fun chain isPlus derived => ?_) each chain said
  rw [BoundExpr.terms_demand]
  exact .join chain isPlus (.positive derived)

theorem BoundChain.forbid {before tokens : List Token} {positive negative : List TypeExpr}
    (chain : BoundChain before (BoundExpr.terms ⟨positive, negative⟩))
    (said : tokens.map Token.lexeme = (exprs.map TypeExpr.lexemes).flatMap ((.minus, "-") :: ·)) :
    ∃ again, BoundChain (before ++ tokens) (BoundExpr.terms ⟨positive, negative ++ again⟩) ∧
      again.map TypeExpr.unplaced = exprs.map TypeExpr.unplaced := by
  refine Restores.chain (fun tokens negative => BoundChain tokens (BoundExpr.terms ⟨positive, negative⟩))
    (fun chain isMinus derived => ?_) each chain said
  rw [BoundExpr.terms_forbid]
  exact .without chain isMinus derived

end

theorem BoundExpr.Writable.restores {bound : BoundExpr} (writable : bound.Writable) :
    Restores BoundExpr.Derived BoundExpr.unplaced BoundExpr.lexemes bound := by
  intro tokens said
  obtain ⟨positive, negative⟩ := bound
  have demanded (expr : TypeExpr) (member : expr ∈ positive) :=
    (writable.terms expr (List.mem_append_left _ member)).restores
  have forbidden (expr : TypeExpr) (member : expr ∈ negative) :=
    (writable.terms expr (List.mem_append_right _ member)).restores
  suffices found : ∃ again : BoundExpr, BoundChain tokens again.terms ∧
      again.unplaced = BoundExpr.unplaced ⟨positive, negative⟩ by
    obtain ⟨again, chain, alike⟩ := found
    exact ⟨again, ⟨_, chain, again.ofTerms_terms.symm⟩, alike⟩
  obtain ⟨front, back, rfl, saidFront, saidBack⟩ := List.map_eq_append_iff.mp said
  cases positive with
  | nil =>
    rw [List.map_eq_nil_iff.mp saidFront, List.nil_append]
    cases negative with
    | nil => exact absurd rfl writable.nonempty
    | cons first others =>
      -- With nothing demanded in front of it, the first sign is a sign of a term.
      rw [List.map_cons, List.flatMap_cons, List.cons_append, List.map_eq_cons_iff] at saidBack
      obtain ⟨minus, tokens, rfl, isMinus, saidTokens⟩ := saidBack
      obtain ⟨here, rest, rfl, saidHere, saidRest⟩ := List.map_eq_append_iff.mp saidTokens
      obtain ⟨expr, derived, same⟩ := forbidden first List.mem_cons_self here saidHere
      have start : BoundChain (minus :: here) (BoundExpr.terms ⟨[], [expr]⟩) :=
        .term (.negative (Or.inl (Token.terminal_of_lexeme isMinus)) derived)
      obtain ⟨again, chain, alike⟩ := BoundChain.forbid
        (fun other member => forbidden other (List.mem_cons_of_mem _ member)) start saidRest
      refine ⟨⟨[], expr :: again⟩, chain, ?_⟩
      simp only [BoundExpr.unplaced, List.map_cons, same, alike]
  | cons first others =>
    obtain ⟨here, rest, rfl, saidHere, saidRest⟩ := List.map_eq_append_iff.mp saidFront
    obtain ⟨expr, derived, same⟩ := demanded first List.mem_cons_self here saidHere
    have start : BoundChain here (BoundExpr.terms ⟨[expr], []⟩) := .term (.positive derived)
    obtain ⟨again, middle, alike⟩ := BoundChain.demand
      (fun other member => demanded other (List.mem_cons_of_mem _ member)) start saidRest
    obtain ⟨againToo, chain, alikeToo⟩ := BoundChain.forbid forbidden middle saidBack
    refine ⟨⟨expr :: again, againToo⟩, chain, ?_⟩
    simp only [BoundExpr.unplaced, List.map_cons, same, alike, alikeToo]

theorem Param.Writable.restores {param : Param} (writable : param.Writable) :
    Restores Param.Derived Param.unplaced Param.lexemes param := by
  intro tokens said
  obtain ⟨name, bound⟩ := param
  cases bound with
  | none =>
    obtain ⟨token, rfl, isName⟩ := List.map_eq_singleton_iff.mp said
    refine ⟨_, .plain (Token.terminal_of_lexeme isName), ?_⟩
    rw [Param.unplaced, Token.unplaced_phrase isName]
    rfl
  | some bound =>
    obtain ⟨token, tokens, rfl, isName, said⟩ := List.map_eq_cons_iff.mp said
    obtain ⟨colon, tokens, rfl, isColon, said⟩ := List.map_eq_cons_iff.mp said
    obtain ⟨again, derived, alike⟩ := (writable.bound bound rfl).restores tokens said
    refine ⟨_, .bounded (Token.terminal_of_lexeme isName) (Token.terminal_of_lexeme isColon) derived, ?_⟩
    simp only [Param.unplaced, Token.unplaced_phrase isName, Option.map_some, alike]

theorem ParamList.restores {params : List Param} (writable : ∀ param ∈ params, param.Writable)
    {tokens : List Token}
    (said : tokens.map Token.lexeme = angledLexemes (params.map Param.lexemes)) :
    ∃ again, ParamList tokens again ∧ again.map Param.unplaced = params.map Param.unplaced := by
  cases params with
  | nil =>
    rw [List.map_eq_nil_iff.mp said]
    exact ⟨[], .absent, rfl⟩
  | cons first others =>
    obtain ⟨less, inner, greater, again, rfl, isLess, isGreater, list, alike⟩ :=
      Restores.angled (fun param member => (writable param member).restores) said
    exact ⟨again, .listed isLess list isGreater, alike⟩

theorem SupertraitList.restores {supertraits : Option BoundExpr}
    (writable : ∀ bound, supertraits = some bound → bound.Writable) {tokens : List Token}
    (said : tokens.map Token.lexeme = supertraitLexemes supertraits) :
    ∃ again, SupertraitList tokens again ∧
      again.map BoundExpr.unplaced = supertraits.map BoundExpr.unplaced := by
  cases supertraits with
  | none =>
    rw [List.map_eq_nil_iff.mp said]
    exact ⟨none, .nothing, rfl⟩
  | some bound =>
    obtain ⟨colon, tokens, rfl, isColon, said⟩ := List.map_eq_cons_iff.mp said
    obtain ⟨again, derived, alike⟩ := (writable bound rfl).restores tokens said
    exact ⟨some again, .listed (Token.terminal_of_lexeme isColon) derived, congrArg some alike⟩

theorem Token.exists_pair_of_lexemes {tokens : List Token} {first second : Lexeme}
    (said : tokens.map Token.lexeme = [first, second]) :
    ∃ opening closing, tokens = [opening, closing] ∧ opening.terminal = first.1 ∧
      closing.terminal = second.1 := by
  obtain ⟨opening, rest, rfl, rfl, saidRest⟩ := List.map_eq_cons_iff.mp said
  obtain ⟨closing, rfl, rfl⟩ := List.map_eq_singleton_iff.mp saidRest
  exact ⟨opening, closing, rfl, rfl, rfl⟩

theorem Decl.Writable.restores {decl : Decl} (writable : decl.Writable) :
    Restores Decl.Derived Decl.unplaced Decl.lexemes decl := by
  intro tokens said
  cases decl with
  | struct decl =>
    obtain ⟨_, params⟩ := writable
    obtain ⟨word, tokens, rfl, isWord, said⟩ := List.map_eq_cons_iff.mp said
    obtain ⟨name, tokens, rfl, isName, said⟩ := List.map_eq_cons_iff.mp said
    obtain ⟨list, closing, rfl, saidList, saidClosing⟩ := List.map_eq_append_iff.mp said
    obtain ⟨semicolon, rfl, isSemicolon⟩ := List.map_eq_singleton_iff.mp saidClosing
    obtain ⟨again, derived, alike⟩ := ParamList.restores params saidList
    refine ⟨_, .struct (Token.terminal_of_lexeme isWord) (Token.terminal_of_lexeme isName) derived
      (Token.terminal_of_lexeme isSemicolon), ?_⟩
    simp only [Decl.unplaced, Token.unplaced_phrase isName, alike]
  | trait decl =>
    obtain ⟨_, params, demands⟩ := writable
    obtain ⟨word, tokens, rfl, isWord, said⟩ := List.map_eq_cons_iff.mp said
    obtain ⟨name, tokens, rfl, isName, said⟩ := List.map_eq_cons_iff.mp said
    obtain ⟨list, tokens, rfl, saidList, said⟩ := List.map_eq_append_iff.mp said
    obtain ⟨bound, braces, rfl, saidBound, saidBraces⟩ := List.map_eq_append_iff.mp said
    obtain ⟨opening, closing, rfl, isOpening, isClosing⟩ := Token.exists_pair_of_lexemes saidBraces
    obtain ⟨again, derived, alike⟩ := ParamList.restores params saidList
    obtain ⟨againToo, derivedToo, alikeToo⟩ := SupertraitList.restores demands saidBound
    refine ⟨_, .trait (Token.terminal_of_lexeme isWord) (Token.terminal_of_lexeme isName) derived
      derivedToo isOpening isClosing, ?_⟩
    simp only [Decl.unplaced, Token.unplaced_phrase isName, alike, alikeToo]
  | impl decl =>
    obtain ⟨params, head, target⟩ := writable
    obtain ⟨word, tokens, rfl, isWord, said⟩ := List.map_eq_cons_iff.mp said
    obtain ⟨list, tokens, rfl, saidList, said⟩ := List.map_eq_append_iff.mp said
    obtain ⟨front, tokens, rfl, saidFront, said⟩ := List.map_eq_append_iff.mp said
    obtain ⟨link, tokens, rfl, isLink, said⟩ := List.map_eq_cons_iff.mp said
    obtain ⟨back, braces, rfl, saidBack, saidBraces⟩ := List.map_eq_append_iff.mp said
    obtain ⟨opening, closing, rfl, isOpening, isClosing⟩ := Token.exists_pair_of_lexemes saidBraces
    obtain ⟨again, derived, alike⟩ := ParamList.restores params saidList
    obtain ⟨headAgain, derivedHead, alikeHead⟩ := head.restores front saidFront
    obtain ⟨targetAgain, derivedTarget, alikeTarget⟩ := target.restores back saidBack
    refine ⟨_, .impl (Token.terminal_of_lexeme isWord) derived derivedHead
      (Token.terminal_of_lexeme isLink) derivedTarget isOpening isClosing, ?_⟩
    simp only [Decl.unplaced, alike, alikeHead, alikeTarget]

/-- Tokens that say a program derive it, up to places. -/
theorem Program.Writable.restores {program : Program} (writable : program.Writable) :
    Restores Program.Derived Program.unplaced Program.lexemes program := by
  obtain ⟨decls⟩ := program
  -- A series grows at its end, so what is in front of these declarations may be any series.
  suffices series : ∀ {before tokens : List Token} {sofar : List Decl}, DeclSeries before sofar →
      tokens.map Token.lexeme = decls.flatMap Decl.lexemes →
      ∃ again, DeclSeries (before ++ tokens) (sofar ++ again) ∧
        again.map Decl.unplaced = decls.map Decl.unplaced by
    intro tokens said
    obtain ⟨again, derived, alike⟩ := series .empty said
    exact ⟨⟨again⟩, derived, congrArg Program.mk alike⟩
  rw [Program.Writable] at writable
  induction decls with
  | nil =>
    intro before tokens sofar derived said
    rw [List.map_eq_nil_iff.mp said, List.append_nil]
    exact ⟨[], by rwa [List.append_nil], rfl⟩
  | cons decl decls ih =>
    intro before tokens sofar derived said
    rw [List.flatMap_cons, List.map_eq_append_iff] at said
    obtain ⟨here, rest, rfl, saidHere, saidRest⟩ := said
    obtain ⟨first, derivedFirst, same⟩ := (writable decl List.mem_cons_self).restores here saidHere
    obtain ⟨again, whole, alike⟩ :=
      ih (fun other member => writable other (List.mem_cons_of_mem _ member))
        (.more derived derivedFirst) saidRest
    refine ⟨first :: again, ?_, by rw [List.map_cons, List.map_cons, same, alike]⟩
    simpa only [List.append_assoc, List.cons_append, List.nil_append] using whole

end TraitCoherence
