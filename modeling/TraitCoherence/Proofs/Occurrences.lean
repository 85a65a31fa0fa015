import TraitCoherence.Proofs.Acceptance
import TraitCoherence.Proofs.ScanLocality

namespace TraitCoherence

mutual

/-- Every name in a type expression, where it stands. -/
def TypeExpr.occurrences : TypeExpr → List Name
  | .apply name args => name :: TypeExpr.occurrencesAll args

def TypeExpr.occurrencesAll : List TypeExpr → List Name
  | [] => []
  | expr :: exprs => expr.occurrences ++ TypeExpr.occurrencesAll exprs

end

theorem TypeExpr.occurrencesAll_eq_flatMap (exprs : List TypeExpr) :
    TypeExpr.occurrencesAll exprs = exprs.flatMap TypeExpr.occurrences := by
  induction exprs with
  | nil => rfl
  | cons expr exprs ih => rw [TypeExpr.occurrencesAll, ih, List.flatMap_cons]

def BoundExpr.occurrences (bound : BoundExpr) : List Name :=
  (bound.positive ++ bound.negative).flatMap TypeExpr.occurrences

def Param.occurrences (param : Param) : List Name :=
  param.name :: param.bound.elim [] BoundExpr.occurrences

/-- Every name in a declaration: the one it declares, those of its parameters, and those in its type
expressions. -/
def Decl.occurrences : Decl → List Name
  | .struct decl => decl.name :: decl.params.flatMap Param.occurrences
  | .trait decl =>
    decl.name :: (decl.params.flatMap Param.occurrences ++
      decl.supertraits.elim [] BoundExpr.occurrences)
  | .impl decl =>
    decl.params.flatMap Param.occurrences ++ (decl.head.occurrences ++ decl.target.occurrences)

def Program.occurrences (program : Program) : List Name := program.decls.flatMap Decl.occurrences

/-- The names that tokens spell, in order. -/
def spelledNames (tokens : List Token) : List Name :=
  (tokens.filter (·.terminal = .name)).map Token.phrase

theorem spelledNames_nil : spelledNames [] = [] := rfl

theorem spelledNames_append (first second : List Token) :
    spelledNames (first ++ second) = spelledNames first ++ spelledNames second := by
  rw [spelledNames, List.filter_append, List.map_append]
  rfl

theorem spelledNames_name {token : Token} (isName : token.terminal = .name) (tokens : List Token) :
    spelledNames (token :: tokens) = token.phrase :: spelledNames tokens := by
  rw [spelledNames, List.filter_cons_of_pos (by simpa using isName), List.map_cons]
  rfl

theorem spelledNames_other {token : Token} {terminal : Terminal} (same : token.terminal = terminal)
    (other : terminal ≠ .name) (tokens : List Token) :
    spelledNames (token :: tokens) = spelledNames tokens := by
  rw [spelledNames, List.filter_cons_of_neg (by simpa [same] using other)]
  rfl

/-- The names of an item are those that its tokens spell, perhaps in another order. -/
def Preserves {α : Type} (Item : List Token → α → Prop) (names : α → List Name) : Prop :=
  ∀ tokens item, Item tokens item → (names item).Perm (spelledNames tokens)

theorem Preserves.commaList {α : Type} {Item : List Token → α → Prop} {names : α → List Name}
    (each : Preserves Item names) : Preserves (CommaList Item) (List.flatMap names) := by
  intro tokens items list
  induction list with
  | first derived =>
    rw [List.flatMap_singleton]
    exact each _ _ derived
  | more _ isComma derived ih =>
    rw [List.flatMap_append, List.flatMap_singleton, spelledNames_append,
      spelledNames_other isComma nofun]
    exact ih.append (each _ _ derived)

theorem TypeExpr.preserves : Preserves TypeExpr.Derived TypeExpr.occurrences := by
  intro tokens expr derived
  refine TypeExpr.Derived.ind
    (motive := fun tokens expr => expr.occurrences.Perm (spelledNames tokens))
    (fun isName => ?_) (fun isName isLess list isGreater => ?_) derived
  · rw [spelledNames_name isName]
    exact .refl _
  · have args := Preserves.commaList (fun _ _ perm => perm) _ _ list
    rw [TypeExpr.occurrences, TypeExpr.occurrencesAll_eq_flatMap, spelledNames_name isName,
      spelledNames_other isLess nofun, spelledNames_append, spelledNames_other isGreater nofun,
      spelledNames_nil, List.append_nil]
    exact args.cons _

theorem SignedTerm.preserves : Preserves SignedTerm.Derived (·.expr.occurrences) := by
  intro tokens term derived
  cases derived with
  | positive derived => exact TypeExpr.preserves _ _ derived
  | negative sign derived =>
    rcases sign with isMinus | isBang
    · rw [spelledNames_other isMinus nofun]
      exact TypeExpr.preserves _ _ derived
    · rw [spelledNames_other isBang nofun]
      exact TypeExpr.preserves _ _ derived

theorem BoundChain.preserves : Preserves BoundChain (List.flatMap (·.expr.occurrences)) := by
  intro tokens terms chain
  induction chain with
  | term derived =>
    rw [List.flatMap_singleton]
    exact SignedTerm.preserves _ _ derived
  | join _ isPlus derived ih =>
    rw [List.flatMap_append, List.flatMap_singleton, spelledNames_append,
      spelledNames_other isPlus nofun]
    exact ih.append (SignedTerm.preserves _ _ derived)
  | without _ isMinus derived ih =>
    rw [List.flatMap_append, List.flatMap_singleton, spelledNames_append,
      spelledNames_other isMinus nofun]
    exact ih.append (TypeExpr.preserves _ _ derived)

/-- What is demanded comes before what is forbidden, in whatever order the terms were written. -/
theorem BoundExpr.occurrences_ofTerms (terms : List SignedTerm) :
    (BoundExpr.ofTerms terms).occurrences.Perm (terms.flatMap (·.expr.occurrences)) := by
  have sorted : (terms.filter (fun term => !term.negated) ++ terms.filter (·.negated)).Perm terms := by
    have halves := List.filter_append_perm (fun term : SignedTerm => !term.negated) terms
    simpa only [Bool.not_not] using halves
  rw [BoundExpr.occurrences, BoundExpr.ofTerms, ← List.map_append, List.flatMap_map]
  exact sorted.flatMap_right _

theorem BoundExpr.preserves : Preserves BoundExpr.Derived BoundExpr.occurrences := by
  rintro tokens bound ⟨terms, chain, rfl⟩
  exact (BoundExpr.occurrences_ofTerms terms).trans (BoundChain.preserves _ _ chain)

theorem Param.preserves : Preserves Param.Derived Param.occurrences := by
  intro tokens param derived
  cases derived with
  | plain isName =>
    rw [spelledNames_name isName]
    exact .refl _
  | bounded isName isColon derived =>
    rw [spelledNames_name isName, spelledNames_other isColon nofun]
    exact (BoundExpr.preserves _ _ derived).cons _

theorem ParamList.preserves : Preserves ParamList (List.flatMap Param.occurrences) := by
  intro tokens params list
  cases list with
  | absent => exact .refl _
  | empty isLess isGreater =>
    rw [spelledNames_other isLess nofun, spelledNames_other isGreater nofun]
    exact .refl _
  | listed isLess list isGreater =>
    rw [spelledNames_other isLess nofun, spelledNames_append, spelledNames_other isGreater nofun,
      spelledNames_nil, List.append_nil]
    exact Param.preserves.commaList _ _ list
  | trailing isLess list isComma isGreater =>
    rw [spelledNames_other isLess nofun, spelledNames_append, spelledNames_other isComma nofun,
      spelledNames_other isGreater nofun, spelledNames_nil, List.append_nil]
    exact Param.preserves.commaList _ _ list

theorem SupertraitList.preserves :
    Preserves SupertraitList fun supertraits => supertraits.elim [] BoundExpr.occurrences := by
  intro tokens supertraits list
  cases list with
  | nothing => exact .refl _
  | listed isColon derived =>
    rw [spelledNames_other isColon nofun]
    exact BoundExpr.preserves _ _ derived

theorem Decl.preserves : Preserves Decl.Derived Decl.occurrences := by
  intro tokens decl derived
  cases derived with
  | struct isWord isName list isSemicolon =>
    rw [spelledNames_other isWord nofun, spelledNames_name isName, spelledNames_append,
      spelledNames_other isSemicolon nofun, spelledNames_nil, List.append_nil]
    exact (ParamList.preserves _ _ list).cons _
  | trait isWord isName list demands isOpening isClosing =>
    rw [spelledNames_other isWord nofun, spelledNames_name isName, spelledNames_append,
      spelledNames_append, spelledNames_other isOpening nofun, spelledNames_other isClosing nofun,
      spelledNames_nil, List.append_nil]
    exact ((ParamList.preserves _ _ list).append (SupertraitList.preserves _ _ demands)).cons _
  | impl isWord list head isFor target isOpening isClosing =>
    rw [spelledNames_other isWord nofun, spelledNames_append, spelledNames_append,
      spelledNames_other isFor nofun, spelledNames_append, spelledNames_other isOpening nofun,
      spelledNames_other isClosing nofun, spelledNames_nil, List.append_nil]
    exact (ParamList.preserves _ _ list).append
      ((TypeExpr.preserves _ _ head).append (TypeExpr.preserves _ _ target))

theorem DeclSeries.preserves : Preserves DeclSeries (List.flatMap Decl.occurrences) := by
  intro tokens decls series
  induction series with
  | empty => exact .refl _
  | more _ derived ih =>
    rw [List.flatMap_append, List.flatMap_singleton, spelledNames_append]
    exact ih.append (Decl.preserves _ _ derived)

/-- The names in a program are those that its tokens spell, each as often. -/
theorem Program.preserves : Preserves Program.Derived Program.occurrences :=
  fun _ program => DeclSeries.preserves _ program.decls

/-- The characters of a text at a span. -/
def Span.cut (span : Span) (text : String) : String :=
  .ofList ((text.toList.drop span.start).take (span.stop - span.start))

theorem Token.stands {text : String} {token : Token} (member : token ∈ (scan text).tokens) :
    ∃ front rest, text.toList = front ++ (token.text.toList ++ rest) ∧
      token.span = ⟨front.length, front.length + token.text.toList.length⟩ := by
  obtain ⟨before, after, split⟩ := List.append_of_mem member
  have items : (scan text).items =
      before.map .token ++ .token token :: (after.map .token ++ [(scan text).last]) := by
    rw [Scan.items, split, List.map_append, List.map_cons, List.append_assoc, List.cons_append]
  obtain ⟨front, lexeme, rest, whole, _, covers, _⟩ := scanFrom_located items
  obtain ⟨said, place⟩ := Phrase.mk.inj covers
  refine ⟨front, rest, ?_, ?_⟩
  · rw [said, String.toList_ofList, whole]
  · rw [Option.some.inj place, said, String.toList_ofList, Nat.zero_add]

theorem Token.cut_span {text : String} {token : Token} (member : token ∈ (scan text).tokens) :
    token.span.cut text = token.text := by
  obtain ⟨front, rest, whole, place⟩ := Token.stands member
  rw [Span.cut, place, whole, List.drop_left, Nat.add_sub_cancel_left, List.take_left,
    String.ofList_toList]

/-- Every name in a program that was read stands in the text, at its place. -/
theorem Program.cut_of_mem_occurrences {text : String} {program : Program}
    (read : parse text = .ok program) {name : Name} (member : name ∈ program.occurrences) :
    ∃ token ∈ (scan text).tokens, token.terminal = .name ∧ token.phrase = name ∧
      token.span.cut text = name.text := by
  obtain ⟨_, derived⟩ := Scan.parse_eq_ok_iff.mp read
  rw [(Program.preserves _ _ derived).mem_iff, spelledNames, List.mem_map] at member
  obtain ⟨token, inside, rfl⟩ := member
  rw [List.mem_filter, decide_eq_true_eq] at inside
  exact ⟨token, inside.1, inside.2, rfl, Token.cut_span inside.1⟩

end TraitCoherence
