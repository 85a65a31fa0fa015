import TraitCoherence.Parse

namespace TraitCoherence

/-- `comma_list(x) -> x | _ ',' x`, with the meanings of the items in order. -/
inductive CommaList {α : Type} (Item : List Token → α → Prop) : List Token → List α → Prop
  | first {tokens : List Token} {item : α} : Item tokens item → CommaList Item tokens [item]
  | more {before tokens : List Token} {items : List α} {comma : Token} {item : α} :
      CommaList Item before items → comma.terminal = .comma → Item tokens item →
      CommaList Item (before ++ comma :: tokens) (items ++ [item])

/-- `type_expr -> name | name '<' comma_list(type_expr) '>'`. -/
inductive TypeExpr.Derived : List Token → TypeExpr → Prop
  | name {name : Token} : name.terminal = .name → TypeExpr.Derived [name] (.apply name.phrase [])
  | applied {name less greater : Token} {tokens : List Token} {args : List TypeExpr} :
      name.terminal = .name → less.terminal = .less → CommaList TypeExpr.Derived tokens args →
      greater.terminal = .greater →
      TypeExpr.Derived (name :: less :: (tokens ++ [greater])) (.apply name.phrase args)

/-- A trait of a bound, and whether it is forbidden. -/
structure SignedTerm where
  negated : Bool
  expr : TypeExpr

/-- `term -> type_expr | [ '-' '!' ] type_expr`. -/
inductive SignedTerm.Derived : List Token → SignedTerm → Prop
  | positive {tokens : List Token} {expr : TypeExpr} :
      TypeExpr.Derived tokens expr → SignedTerm.Derived tokens ⟨false, expr⟩
  | negative {sign : Token} {tokens : List Token} {expr : TypeExpr} :
      sign.terminal = .minus ∨ sign.terminal = .bang → TypeExpr.Derived tokens expr →
      SignedTerm.Derived (sign :: tokens) ⟨true, expr⟩

/-- `bound -> term | _ '+' term | _ '-' type_expr`, with its terms in source order. -/
inductive BoundChain : List Token → List SignedTerm → Prop
  | term {tokens : List Token} {term : SignedTerm} :
      SignedTerm.Derived tokens term → BoundChain tokens [term]
  | join {before tokens : List Token} {terms : List SignedTerm} {plus : Token} {term : SignedTerm} :
      BoundChain before terms → plus.terminal = .plus → SignedTerm.Derived tokens term →
      BoundChain (before ++ plus :: tokens) (terms ++ [term])
  | without {before tokens : List Token} {terms : List SignedTerm} {minus : Token}
      {expr : TypeExpr} :
      BoundChain before terms → minus.terminal = .minus → TypeExpr.Derived tokens expr →
      BoundChain (before ++ minus :: tokens) (terms ++ [⟨true, expr⟩])

/-- The bound that a chain means: the terms without a sign are demanded and the others forbidden,
each kind in source order. -/
def BoundExpr.ofTerms (terms : List SignedTerm) : BoundExpr :=
  ⟨(terms.filter fun term => !term.negated).map (·.expr), (terms.filter (·.negated)).map (·.expr)⟩

theorem BoundExpr.ofTerms_concat (terms : List SignedTerm) (term : SignedTerm) :
    BoundExpr.ofTerms (terms ++ [term]) = (BoundExpr.ofTerms terms).extend term.negated term.expr := by
  obtain ⟨negated, expr⟩ := term
  cases negated <;> simp [BoundExpr.ofTerms, BoundExpr.extend]

def BoundExpr.Derived (tokens : List Token) (bound : BoundExpr) : Prop :=
  ∃ terms, BoundChain tokens terms ∧ bound = .ofTerms terms

/-- `param -> name | name ':' bound`. -/
inductive Param.Derived : List Token → Param → Prop
  | plain {name : Token} : name.terminal = .name → Param.Derived [name] ⟨name.phrase, none⟩
  | bounded {name colon : Token} {tokens : List Token} {bound : BoundExpr} :
      name.terminal = .name → colon.terminal = .colon → BoundExpr.Derived tokens bound →
      Param.Derived (name :: colon :: tokens) ⟨name.phrase, some bound⟩

/-- `params -> | '<' '>' | '<' comma_list(param) '>' | '<' comma_list(param) ',' '>'`. -/
inductive ParamList : List Token → List Param → Prop
  | absent : ParamList [] []
  | empty {less greater : Token} : less.terminal = .less → greater.terminal = .greater →
      ParamList [less, greater] []
  | listed {less greater : Token} {tokens : List Token} {params : List Param} :
      less.terminal = .less → CommaList Param.Derived tokens params →
      greater.terminal = .greater → ParamList (less :: (tokens ++ [greater])) params
  | trailing {less comma greater : Token} {tokens : List Token} {params : List Param} :
      less.terminal = .less → CommaList Param.Derived tokens params →
      comma.terminal = .comma → greater.terminal = .greater →
      ParamList (less :: (tokens ++ [comma, greater])) params

/-- `supertraits -> | ':' bound`. -/
inductive SupertraitList : List Token → Option BoundExpr → Prop
  | nothing : SupertraitList [] none
  | listed {colon : Token} {tokens : List Token} {bound : BoundExpr} :
      colon.terminal = .colon → BoundExpr.Derived tokens bound →
      SupertraitList (colon :: tokens) (some bound)

/-- `struct_decl -> STRUCT name params ';'`,
`trait_decl -> TRAIT name params supertraits '{' '}'` and
`impl_decl -> IMPL params type_expr FOR type_expr '{' '}'`. -/
inductive Decl.Derived : List Token → Decl → Prop
  | struct {word name semicolon : Token} {list : List Token} {params : List Param} :
      word.terminal = .structWord → name.terminal = .name → ParamList list params →
      semicolon.terminal = .semicolon →
      Decl.Derived (word :: name :: (list ++ [semicolon])) (.struct ⟨name.phrase, params⟩)
  | trait {word name opening closing : Token} {list demands : List Token} {params : List Param}
      {supertraits : Option BoundExpr} :
      word.terminal = .traitWord → name.terminal = .name → ParamList list params →
      SupertraitList demands supertraits → opening.terminal = .openBrace →
      closing.terminal = .closeBrace →
      Decl.Derived (word :: name :: (list ++ (demands ++ [opening, closing])))
        (.trait ⟨name.phrase, params, supertraits⟩)
  | impl {word link opening closing : Token} {list front back : List Token} {params : List Param}
      {head target : TypeExpr} :
      word.terminal = .implWord → ParamList list params → TypeExpr.Derived front head →
      link.terminal = .forWord → TypeExpr.Derived back target → opening.terminal = .openBrace →
      closing.terminal = .closeBrace →
      Decl.Derived (word :: (list ++ (front ++ link :: (back ++ [opening, closing]))))
        (.impl ⟨params, head, target⟩)

/-- `series(decl) -> | _ decl`. -/
inductive DeclSeries : List Token → List Decl → Prop
  | empty : DeclSeries [] []
  | more {before tokens : List Token} {decls : List Decl} {decl : Decl} :
      DeclSeries before decls → Decl.Derived tokens decl →
      DeclSeries (before ++ tokens) (decls ++ [decl])

/-- `program -> series(decl)`: the tokens derive from the grammar, and `program` is what they mean. -/
def Program.Derived (tokens : List Token) (program : Program) : Prop :=
  DeclSeries tokens program.decls

/-- Induction over the derivation of a type expression and those of all its arguments. -/
theorem TypeExpr.Derived.ind {motive : List Token → TypeExpr → Prop}
    (name : ∀ {name : Token}, name.terminal = .name → motive [name] (.apply name.phrase []))
    (applied : ∀ {name less greater : Token} {tokens : List Token} {args : List TypeExpr},
      name.terminal = .name → less.terminal = .less → CommaList motive tokens args →
      greater.terminal = .greater →
      motive (name :: less :: (tokens ++ [greater])) (.apply name.phrase args))
    {tokens : List Token} {expr : TypeExpr} (derived : TypeExpr.Derived tokens expr) :
    motive tokens expr :=
  @TypeExpr.Derived.rec (fun tokens expr _ => motive tokens expr)
    (fun tokens args _ => CommaList motive tokens args) name
    (fun isName isLess _ isGreater list => applied isName isLess list isGreater)
    (fun _ holds => .first holds) (fun _ isComma _ list holds => .more list isComma holds) _ _ derived

end TraitCoherence
