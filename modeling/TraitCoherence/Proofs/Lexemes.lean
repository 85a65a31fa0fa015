import TraitCoherence.Proofs.Spelling

namespace TraitCoherence

/-- Items with a mark between any two. -/
def separated (mark : Lexeme) : List (List Lexeme) → List Lexeme
  | [] => []
  | first :: others => first ++ others.flatMap (mark :: ·)

def angledLexemes : List (List Lexeme) → List Lexeme
  | [] => []
  | items => (.less, "<") :: (separated (.comma, ",") items ++ [(.greater, ">")])

theorem angledLexemes_cons (first : List Lexeme) (others : List (List Lexeme)) :
    angledLexemes (first :: others) =
      (.less, "<") :: (separated (.comma, ",") (first :: others) ++ [(.greater, ">")]) := rfl

mutual

/-- What the tokens of a printed type expression say. -/
def TypeExpr.lexemes : TypeExpr → List Lexeme
  | .apply name args => (.name, name.text) :: angledLexemes (TypeExpr.lexemesAll args)

def TypeExpr.lexemesAll : List TypeExpr → List (List Lexeme)
  | [] => []
  | arg :: args => arg.lexemes :: TypeExpr.lexemesAll args

end

theorem TypeExpr.lexemesAll_eq_map (exprs : List TypeExpr) :
    TypeExpr.lexemesAll exprs = exprs.map TypeExpr.lexemes := by
  induction exprs with
  | nil => rfl
  | cons expr exprs ih => rw [TypeExpr.lexemesAll, ih, List.map_cons]

def BoundExpr.lexemes (bound : BoundExpr) : List Lexeme :=
  separated (.plus, "+") (bound.positive.map TypeExpr.lexemes) ++
    (bound.negative.map TypeExpr.lexemes).flatMap ((.minus, "-") :: ·)

def Param.lexemes (param : Param) : List Lexeme :=
  match param.bound with
  | none => [(.name, param.name.text)]
  | some bound => (.name, param.name.text) :: (.colon, ":") :: bound.lexemes

def supertraitLexemes : Option BoundExpr → List Lexeme
  | none => []
  | some bound => (.colon, ":") :: bound.lexemes

def Decl.lexemes : Decl → List Lexeme
  | .struct decl =>
    (.structWord, "struct") :: (.name, decl.name.text) ::
      (angledLexemes (decl.params.map Param.lexemes) ++ [(.semicolon, ";")])
  | .trait decl =>
    (.traitWord, "trait") :: (.name, decl.name.text) ::
      (angledLexemes (decl.params.map Param.lexemes) ++ (supertraitLexemes decl.supertraits ++
        [(.openBrace, "\x7b"), (.closeBrace, "\x7d")]))
  | .impl decl =>
    (.implWord, "impl") :: (angledLexemes (decl.params.map Param.lexemes) ++
      (decl.head.lexemes ++ (.forWord, "for") :: (decl.target.lexemes ++
        [(.openBrace, "\x7b"), (.closeBrace, "\x7d")])))

/-- What the tokens of a printed program say. -/
def Program.lexemes (program : Program) : List Lexeme := program.decls.flatMap Decl.lexemes

/-- Every name in the expression can be read as one. -/
inductive TypeExpr.Writable : TypeExpr → Prop
  | apply {name : Name} {args : List TypeExpr} :
      IsName name.text → (∀ arg ∈ args, arg.Writable) → TypeExpr.Writable (.apply name args)

/-- A bound that is written down has a term. -/
structure BoundExpr.Writable (bound : BoundExpr) : Prop where
  nonempty : bound.positive ++ bound.negative ≠ []
  terms : ∀ term ∈ bound.positive ++ bound.negative, term.Writable

structure Param.Writable (param : Param) : Prop where
  name : IsName param.name.text
  bound : ∀ bound, param.bound = some bound → bound.Writable

def Decl.Writable : Decl → Prop
  | .struct decl => IsName decl.name.text ∧ ∀ param ∈ decl.params, param.Writable
  | .trait decl => IsName decl.name.text ∧ (∀ param ∈ decl.params, param.Writable) ∧
      ∀ bound, decl.supertraits = some bound → bound.Writable
  | .impl decl => (∀ param ∈ decl.params, param.Writable) ∧ decl.head.Writable ∧ decl.target.Writable

/-- Every name can be read as one, and every bound and every list of supertraits has a term. -/
def Program.Writable (program : Program) : Prop := ∀ decl ∈ program.decls, decl.Writable

theorem intercalate_cons (mark first : String) (others : List String) :
    mark.intercalate (first :: others) =
      others.foldl (fun text item => text ++ (mark ++ item)) first := by
  induction others generalizing first with
  | nil => rfl
  | cons other others ih =>
    rw [List.foldl_cons, ← String.append_assoc]
    exact ih (first ++ mark ++ other)

theorem BreaksWord.mark {mark : String}
    (apart : mark.toList.head?.any (fun c => !isWordChar c) = true) (item : String) :
    BreaksWord (mark ++ item).toList := by
  rw [String.toList_append]
  cases letters : mark.toList with
  | nil =>
    rw [letters] at apart
    cases apart
  | cons c rest =>
    rw [letters] at apart
    exact apart

theorem spelledApart_less : SpelledApart "<" [(.less, "<")] := fun _ _ spells => .mark rfl spells

theorem spelled_greater : Spelled ">" [(.greater, ">")] := fun _ _ _ spells => .mark rfl spells

theorem spelled_semicolon : Spelled ";" [(.semicolon, ";")] := fun _ _ _ spells => .mark rfl spells

theorem spelled_braces : Spelled " \x7b\x7d" [(.openBrace, "\x7b"), (.closeBrace, "\x7d")] :=
  fun _ _ _ spells => .layout rfl (.mark rfl (.mark rfl spells))

theorem spelledApart_comma : SpelledApart ", " [(.comma, ",")] :=
  fun _ _ spells => .mark rfl (.layout rfl spells)

theorem spelledApart_colon : SpelledApart ": " [(.colon, ":")] :=
  fun _ _ spells => .mark rfl (.layout rfl spells)

theorem spelledApart_plus : SpelledApart " + " [(.plus, "+")] :=
  fun _ _ spells => .layout rfl (.mark rfl (.layout rfl spells))

theorem spelledApart_minus : SpelledApart " - " [(.minus, "-")] :=
  fun _ _ spells => .layout rfl (.mark rfl (.layout rfl spells))

theorem spelledApart_sign : SpelledApart "-" [(.minus, "-")] := fun _ _ spells => .mark rfl spells

theorem spelledApart_blank : SpelledApart " " [] := fun _ _ spells => .layout rfl spells

theorem spelledApart_newline : SpelledApart "\n" [] := fun _ _ spells => .layout rfl spells

theorem spelledApart_struct : SpelledApart "struct " [(.structWord, "struct")] := by
  intro rest others spells
  have blank : Spells (' ' :: rest) others := .layout rfl spells
  exact Spells.word "struct".toList (by decide) (by decide) rfl blank

theorem spelledApart_trait : SpelledApart "trait " [(.traitWord, "trait")] := by
  intro rest others spells
  have blank : Spells (' ' :: rest) others := .layout rfl spells
  exact Spells.word "trait".toList (by decide) (by decide) rfl blank

theorem spelledApart_for : SpelledApart " for " [(.forWord, "for")] := by
  intro rest others spells
  have blank : Spells (' ' :: rest) others := .layout rfl spells
  exact .layout rfl (Spells.word "for".toList (by decide) (by decide) rfl blank)

theorem spelled_impl : Spelled "impl" [(.implWord, "impl")] :=
  fun _ _ breaks spells => Spells.word "impl".toList (by decide) (by decide) breaks spells

section

variable {α : Type} {render : α → String} {lexemes : α → List Lexeme}

/-- More items, each after a mark, lengthen what is spelled by their lexemes. -/
theorem Spelled.foldl {mark : String} {between : List Lexeme} (apart : SpelledApart mark between)
    (breaks : ∀ item, BreaksWord (mark ++ item).toList) {items : List α}
    (each : ∀ item ∈ items, Spelled (render item) (lexemes item)) {text : String}
    {sofar : List Lexeme} (spelled : Spelled text sofar) :
    Spelled ((items.map render).foldl (fun text item => text ++ (mark ++ item)) text)
      (sofar ++ (items.map lexemes).flatMap (between ++ ·)) := by
  induction items generalizing text sofar with
  | nil => simpa using spelled
  | cons item items ih =>
    have next := spelled.append (apart.append (each item List.mem_cons_self)) (breaks _)
    have rest := ih (fun other member => each other (List.mem_cons_of_mem _ member)) next
    simpa only [List.map_cons, List.foldl_cons, List.flatMap_cons, List.append_assoc] using rest

theorem Spelled.intercalate {mark : String} {between : Lexeme} (apart : SpelledApart mark [between])
    (breaks : ∀ item, BreaksWord (mark ++ item).toList) {items : List α}
    (each : ∀ item ∈ items, Spelled (render item) (lexemes item)) :
    Spelled (mark.intercalate (items.map render)) (separated between (items.map lexemes)) := by
  cases items with
  | nil => exact .empty
  | cons first others =>
    rw [List.map_cons, List.map_cons, intercalate_cons]
    exact Spelled.foldl apart breaks
      (fun other member => each other (List.mem_cons_of_mem _ member)) (each first List.mem_cons_self)

theorem Spelled.angled {items : List α}
    (each : ∀ item ∈ items, Spelled (render item) (lexemes item)) :
    Spelled (angled (items.map render)) (angledLexemes (items.map lexemes)) := by
  cases items with
  | nil => exact .empty
  | cons first others =>
    have list := Spelled.intercalate spelledApart_comma (.mark rfl) each
    have whole := spelledApart_less.append (list.append spelled_greater rfl)
    rwa [← String.append_assoc] at whole

/-- A first term that is forbidden has no blank in front of its sign. -/
theorem Spelled.signed {positive negative : List α}
    (demanded : ∀ term ∈ positive, Spelled (render term) (lexemes term))
    (forbidden : ∀ term ∈ negative, Spelled (render term) (lexemes term)) :
    Spelled (signedTerms (positive.map render) (negative.map render))
      (separated (.plus, "+") (positive.map lexemes) ++
        (negative.map lexemes).flatMap ((.minus, "-") :: ·)) := by
  have start := Spelled.intercalate spelledApart_plus (.mark rfl) demanded
  rw [signedTerms]
  generalize " + ".intercalate (positive.map render) = text at start
  generalize separated (.plus, "+") (positive.map lexemes) = sofar at start
  induction negative generalizing text sofar with
  | nil => simpa using start
  | cons term negative ih =>
    have here := forbidden term List.mem_cons_self
    have next : Spelled (if text.isEmpty then "-" ++ render term else text ++ " - " ++ render term)
        (sofar ++ (.minus, "-") :: lexemes term) := by
      split
      · rename_i isEmpty
        rw [String.isEmpty_iff.mp isEmpty] at start
        rw [start.eq_nil]
        exact spelledApart_sign.append here
      · rw [String.append_assoc]
        exact start.append (spelledApart_minus.append here) (.mark rfl _)
    have rest := ih (fun other member => forbidden other (List.mem_cons_of_mem _ member)) _ _ next
    simpa only [List.map_cons, List.foldl_cons, List.flatMap_cons, List.append_assoc,
      List.cons_append] using rest

end

theorem breaksWord_angled (items : List String) : BreaksWord (angled items).toList := by
  cases items with
  | nil => rfl
  | cons first others =>
    rw [angled, String.append_assoc]
    · exact .mark rfl _
    · simp

theorem TypeExpr.Writable.spelled {expr : TypeExpr} (writable : expr.Writable) :
    Spelled expr.render expr.lexemes := by
  induction writable with
  | apply isName _ ih =>
    rw [TypeExpr.render, TypeExpr.lexemes, TypeExpr.renderAll_eq_map, TypeExpr.lexemesAll_eq_map]
    exact isName.spelled.append (.angled ih) (breaksWord_angled _)

theorem BoundExpr.Writable.spelled {bound : BoundExpr} (writable : bound.Writable) :
    Spelled bound.render bound.lexemes :=
  .signed (fun term member => (writable.terms term (List.mem_append_left _ member)).spelled)
    fun term member => (writable.terms term (List.mem_append_right _ member)).spelled

theorem Param.Writable.spelled {param : Param} (writable : param.Writable) :
    Spelled param.render param.lexemes := by
  obtain ⟨name, bound⟩ := param
  have named := writable.name.spelled
  cases bound with
  | none => exact named
  | some bound =>
    have bounded := spelledApart_colon.append (writable.bound bound rfl).spelled
    have whole := named.append bounded (.mark rfl _)
    rwa [← String.append_assoc] at whole

theorem Decl.Writable.spelled {decl : Decl} (writable : decl.Writable) :
    Spelled decl.render decl.lexemes := by
  -- No word goes on into an angled list, not even into one that is left out.
  have breaks (items : List String) {rest : String} (after : BreaksWord rest.toList) :
      BreaksWord (angled items ++ rest).toList := by
    rw [String.toList_append]
    exact (breaksWord_angled items).append after
  cases decl with
  | struct decl =>
    obtain ⟨isName, params⟩ := writable
    have list := Spelled.angled fun param member => (params param member).spelled
    have front := isName.spelled.append (list.append spelled_semicolon rfl) (breaks _ rfl)
    rw [Decl.render, StructDecl.render, String.append_assoc, String.append_assoc]
    exact spelledApart_struct.append front
  | trait decl =>
    obtain ⟨isName, params, demands⟩ := writable
    have list := Spelled.angled fun param member => (params param member).spelled
    obtain ⟨name, params, supertraits⟩ := decl
    rw [Decl.render, TraitDecl.render]
    cases supertraits with
    | none =>
      have front := isName.spelled.append (list.append spelled_braces rfl) (breaks _ rfl)
      have whole := spelledApart_trait.append front
      simp only [← String.append_assoc] at whole
      rw [String.append_empty]
      exact whole
    | some bound =>
      have bounded := spelledApart_colon.append
        ((demands bound rfl).spelled.append spelled_braces rfl)
      have front := isName.spelled.append (list.append bounded (.mark rfl _)) (breaks _ (.mark rfl _))
      have whole := spelledApart_trait.append front
      simp only [← String.append_assoc] at whole ⊢
      exact whole
  | impl decl =>
    obtain ⟨params, head, target⟩ := writable
    have list := Spelled.angled fun param member => (params param member).spelled
    have back := spelledApart_for.append (target.spelled.append spelled_braces rfl)
    have middle := spelledApart_blank.append (head.spelled.append back (.mark rfl _))
    have front := list.append middle (.mark rfl _)
    have whole := spelled_impl.append front (breaks _ (.mark rfl _))
    simp only [← String.append_assoc] at whole
    exact whole

/-- The printed text of a program scans to the end, and to the lexemes of the program. -/
theorem Program.Writable.spells {program : Program} (writable : program.Writable) :
    Spells program.render.toList program.lexemes := by
  have spelled : Spelled program.render program.lexemes := by
    rw [Program.render, Program.lexemes]
    cases decls : program.decls with
    | nil => exact .empty
    | cons first others =>
      rw [Program.Writable, decls] at writable
      have whole := Spelled.foldl spelledApart_newline (.mark rfl)
        (fun decl member => (writable decl (List.mem_cons_of_mem _ member)).spelled)
        (writable first List.mem_cons_self).spelled
      simp only [List.nil_append, List.flatMap_map] at whole
      rw [List.map_cons, intercalate_cons, List.flatMap_cons]
      exact whole
  have whole := spelled [] [] rfl .nil
  rwa [List.append_nil, List.append_nil] at whole

end TraitCoherence
