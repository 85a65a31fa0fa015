import TraitCoherence.Proofs.Grammar

namespace TraitCoherence

/-- Tokens that move a declaration on and leave it incomplete. -/
inductive Progress.Goes : Progress → List Token → Progress → Prop
  | stay (progress : Progress) : Progress.Goes progress [] progress
  | step {progress next after : Progress} {token : Token} {rest : List Token} :
      progress.advance token = some (.go next) → Progress.Goes next rest after →
      Progress.Goes progress (token :: rest) after

theorem Progress.Goes.trans {progress middle after : Progress} {first second : List Token}
    (start : progress.Goes first middle) (rest : middle.Goes second after) :
    progress.Goes (first ++ second) after := by
  induction start with
  | stay => exact rest
  | step moved _ ih => exact .step moved (ih rest)

theorem Progress.Goes.concat {progress middle after : Progress} {tokens : List Token} {token : Token}
    (start : progress.Goes tokens middle) (moved : middle.advance token = some (.go after)) :
    progress.Goes (tokens ++ [token]) after :=
  start.trans (.step moved (.stay after))

theorem ParseState.read_cons {state next : ParseState} {token : Token}
    (moved : state.advance token = some next) (rest : List Token) :
    state.read (token :: rest) = next.read rest := by
  rw [ParseState.read, moved]

theorem Progress.Goes.read {progress after : Progress} {tokens : List Token}
    (goes : progress.Goes tokens after) (decls : List Decl) (rest : List Token) :
    (ParseState.mk decls progress).read (tokens ++ rest) = (ParseState.mk decls after).read rest := by
  induction goes with
  | stay => rfl
  | step moved _ ih =>
    rw [List.cons_append, ParseState.read_cons, ih]
    rw [ParseState.advance, moved]
    rfl

/-- A type expression has just been read in full, although a name may yet take arguments. -/
inductive Progress.HasRead (site : ExprSite) (outer : List OpenArgs) : TypeExpr → Progress → Prop
  | name (name : Name) :
      Progress.HasRead site outer (.apply name []) (.exprName site outer name)
  | closed (expr : TypeExpr) : Progress.HasRead site outer expr (.exprClosed site outer expr)

theorem Progress.HasRead.advance {site : ExprSite} {outer : List OpenArgs} {expr : TypeExpr}
    {progress : Progress} (hasRead : Progress.HasRead site outer expr progress) {token : Token}
    (ends : token.terminal ≠ .less) :
    progress.advance token = (site.advanceIn outer expr token.terminal).map .go := by
  cases hasRead with
  | closed => rfl
  | name name =>
    rw [Progress.advance]
    split
    · rename_i isLess
      exact absurd isLess ends
    · rfl

/-- Reading starts with a name, which is taken alike wherever an expression may stand, and goes on
to the end of the expression. -/
def ReadsExpr (tokens : List Token) (expr : TypeExpr) : Prop :=
  ∃ name rest, tokens = name :: rest ∧ name.terminal = .name ∧ ∀ site outer,
    ∃ after, Progress.HasRead site outer expr after ∧
      (Progress.exprName site outer name.phrase).Goes rest after

theorem ReadsExpr.goes {tokens : List Token} {expr : TypeExpr} (reads : ReadsExpr tokens expr)
    (site : ExprSite) (outer : List OpenArgs) : ∃ after, Progress.HasRead site outer expr after ∧
      (Progress.exprStart site outer).Goes tokens after := by
  obtain ⟨name, rest, rfl, isName, goes⟩ := reads
  obtain ⟨after, hasRead, goesOn⟩ := goes site outer
  refine ⟨after, hasRead, .step ?_ goesOn⟩
  rw [Progress.advance, isName]

/-- After all but the last argument the last one is read in full. -/
theorem CommaList.readsArgs {tokens : List Token} {args : List TypeExpr}
    (list : CommaList ReadsExpr tokens args) (site : ExprSite) (outer : List OpenArgs) (name : Name) :
    ∃ before last after, args = before ++ [last] ∧
      Progress.HasRead site (⟨name, before⟩ :: outer) last after ∧
      (Progress.exprStart site (⟨name, []⟩ :: outer)).Goes tokens after := by
  induction list with
  | first reads =>
    obtain ⟨after, hasRead, goes⟩ := reads.goes site (⟨name, []⟩ :: outer)
    exact ⟨[], _, after, rfl, hasRead, goes⟩
  | @more _ _ _ comma _ _ isComma reads ih =>
    obtain ⟨before, last, middle, rfl, hasRead, goes⟩ := ih
    -- The comma puts the last argument with those before it.
    obtain ⟨after, hasReadToo, goesOn⟩ := reads.goes site (⟨name, before ++ [last]⟩ :: outer)
    have moved : middle.advance comma =
        some (.go (.exprStart site (⟨name, before ++ [last]⟩ :: outer))) := by
      rw [hasRead.advance (by simp [isComma]), isComma]
      rfl
    exact ⟨before ++ [last], _, after, rfl, hasReadToo, goes.trans (.step moved goesOn)⟩

theorem TypeExpr.Derived.reads {tokens : List Token} {expr : TypeExpr}
    (derived : TypeExpr.Derived tokens expr) : ReadsExpr tokens expr := by
  refine TypeExpr.Derived.ind (fun {name} isName => ?_)
    (fun {name less greater _ _} isName isLess list isGreater => ?_) derived
  · exact ⟨name, [], rfl, isName, fun site outer => ⟨_, .name name.phrase, .stay _⟩⟩
  · refine ⟨name, _, rfl, isName, fun site outer => ?_⟩
    obtain ⟨before, last, middle, rfl, hasRead, goes⟩ := list.readsArgs site outer name.phrase
    have opened : (Progress.exprName site outer name.phrase).advance less =
        some (.go (.exprStart site (⟨name.phrase, []⟩ :: outer))) := by
      rw [Progress.advance, isLess]
    have closed : middle.advance greater =
        some (.go (.exprClosed site outer (.apply name.phrase (before ++ [last])))) := by
      rw [hasRead.advance (by simp [isGreater]), isGreater]
      rfl
    exact ⟨_, .closed _, .step opened (goes.concat closed)⟩

theorem SignedTerm.Derived.goes {tokens : List Token} {term : SignedTerm}
    (derived : SignedTerm.Derived tokens term) (site : BoundSite) (sofar : BoundExpr) :
    ∃ after, Progress.HasRead (.term site sofar term.negated) [] term.expr after ∧
      (Progress.termStart site sofar).Goes tokens after := by
  cases derived with
  | positive derived =>
    obtain ⟨name, rest, rfl, isName, goes⟩ := derived.reads
    obtain ⟨after, hasRead, goesOn⟩ := goes (.term site sofar false) []
    refine ⟨after, hasRead, .step ?_ goesOn⟩
    rw [Progress.advance, isName]
  | negative signed derived =>
    obtain ⟨after, hasRead, goes⟩ := derived.reads.goes (.term site sofar true) []
    refine ⟨after, hasRead, .step ?_ goes⟩
    rw [Progress.advance]
    rcases signed with isMinus | isBang
    · rw [isMinus]
    · rw [isBang]

/-- The last term of a chain is read in full, and those before it make up the bound so far. -/
theorem BoundChain.goes {tokens : List Token} {terms : List SignedTerm}
    (chain : BoundChain tokens terms) (site : BoundSite) :
    ∃ sofar negated last after, BoundExpr.ofTerms terms = sofar.extend negated last ∧
      Progress.HasRead (.term site sofar negated) [] last after ∧
      (Progress.termStart site ⟨[], []⟩).Goes tokens after := by
  induction chain with
  | term derived =>
    obtain ⟨after, hasRead, goes⟩ := derived.goes site ⟨[], []⟩
    exact ⟨_, _, _, after, BoundExpr.ofTerms_concat [] _, hasRead, goes⟩
  | @join _ _ terms plus term _ isPlus derived ih =>
    obtain ⟨sofar, negated, last, middle, whole, hasRead, goes⟩ := ih
    obtain ⟨after, hasReadToo, goesOn⟩ := derived.goes site (.ofTerms terms)
    have moved : middle.advance plus = some (.go (.termStart site (.ofTerms terms))) := by
      rw [hasRead.advance (by simp [isPlus]), isPlus, whole]
      rfl
    exact ⟨_, _, _, after, BoundExpr.ofTerms_concat terms term, hasReadToo,
      goes.trans (.step moved goesOn)⟩
  | @without _ _ terms minus expr _ isMinus derived ih =>
    obtain ⟨sofar, negated, last, middle, whole, hasRead, goes⟩ := ih
    obtain ⟨after, hasReadToo, goesOn⟩ := derived.reads.goes (.term site (.ofTerms terms) true) []
    have moved : middle.advance minus =
        some (.go (.exprStart (.term site (.ofTerms terms) true) [])) := by
      rw [hasRead.advance (by simp [isMinus]), isMinus, whole]
      rfl
    exact ⟨_, _, _, after, BoundExpr.ofTerms_concat terms ⟨true, expr⟩, hasReadToo,
      goes.trans (.step moved goesOn)⟩

/-- A bound has been read once whatever may follow it in its place is taken with the whole bound. -/
theorem BoundExpr.Derived.goes {tokens : List Token} {bound : BoundExpr}
    (derived : BoundExpr.Derived tokens bound) (site : BoundSite) :
    ∃ after, (Progress.termStart site ⟨[], []⟩).Goes tokens after ∧ ∀ token : Token,
      token.terminal ∉ [.less, .plus, .minus] →
        after.advance token = (site.advance bound token.terminal).map .go := by
  obtain ⟨terms, chain, rfl⟩ := derived
  obtain ⟨sofar, negated, last, after, whole, hasRead, goes⟩ := chain.goes site
  refine ⟨after, goes, fun token ends => ?_⟩
  simp only [List.mem_cons, List.not_mem_nil, or_false, not_or] at ends
  rw [hasRead.advance ends.1, whole, ExprSite.advanceIn]
  unfold ExprSite.advance
  dsimp only
  split
  · rename_i isPlus
    exact absurd isPlus ends.2.1
  · rename_i isMinus
    exact absurd isMinus ends.2.2
  · rfl

/-- A comma or a `>` ends the last of some parameters. -/
structure Progress.EndsParam (header : Header) (params : List Param) (progress : Progress) : Prop where
  comma : ∀ token : Token, token.terminal = .comma →
    progress.advance token = some (.go (.listOpen header params))
  greater : ∀ token : Token, token.terminal = .greater →
    progress.advance token = some (.go (.listClosed header params))

theorem Param.Derived.goes {tokens : List Token} {param : Param} (derived : Param.Derived tokens param)
    (header : Header) (before : List Param) :
    ∃ after, after.EndsParam header (before ++ [param]) ∧
      (Progress.listOpen header before).Goes tokens after := by
  cases derived with
  | @plain name isName =>
    refine ⟨.paramName header before name.phrase, ⟨fun token isComma => ?_, fun token isGreater => ?_⟩,
      .step ?_ (.stay _)⟩
    · rw [Progress.advance, isComma]
    · rw [Progress.advance, isGreater]
    · rw [Progress.advance, isName]
  | @bounded name colon _ bound isName isColon derived =>
    obtain ⟨after, goes, ends⟩ := derived.goes (.param header before name.phrase)
    have named : (Progress.listOpen header before).advance name =
        some (.go (.paramName header before name.phrase)) := by
      rw [Progress.advance, isName]
    have bounded : (Progress.paramName header before name.phrase).advance colon =
        some (.go (.termStart (.param header before name.phrase) ⟨[], []⟩)) := by
      rw [Progress.advance, isColon]
    refine ⟨after, ⟨fun token isComma => ?_, fun token isGreater => ?_⟩,
      .step named (.step bounded goes)⟩
    · rw [ends token (by simp [isComma]), isComma]
      rfl
    · rw [ends token (by simp [isGreater]), isGreater]
      rfl

theorem CommaList.readsParams {tokens : List Token} {params : List Param}
    (list : CommaList Param.Derived tokens params) (header : Header) :
    ∃ after, after.EndsParam header params ∧ (Progress.listOpen header []).Goes tokens after := by
  induction list with
  | first derived => exact derived.goes header []
  | @more _ _ items comma _ _ isComma derived ih =>
    obtain ⟨middle, ends, goes⟩ := ih
    obtain ⟨after, endsToo, goesOn⟩ := derived.goes header items
    exact ⟨after, endsToo, goes.trans (.step (ends.comma comma isComma) goesOn)⟩

/-- After a parameter list, or in its absence, the declaration goes on with its parameters known. -/
theorem ParamList.goes {tokens : List Token} {params : List Param} (list : ParamList tokens params)
    (header : Header) :
    ∃ after, (Progress.header header).Goes tokens after ∧ ∀ token : Token,
      token.terminal ≠ .less → after.advance token = header.advance params token := by
  have opened {less : Token} (isLess : less.terminal = .less) :
      (Progress.header header).advance less = some (.go (.listOpen header [])) := by
    rw [Progress.advance, isLess]
  have closed (before : List Param) {greater : Token} (isGreater : greater.terminal = .greater) :
      (Progress.listOpen header before).advance greater =
        some (.go (.listClosed header before)) := by
    rw [Progress.advance, isGreater]
  cases list with
  | absent =>
    refine ⟨_, .stay _, fun token ends => ?_⟩
    rw [Progress.advance]
    split
    · rename_i isLess
      exact absurd isLess ends
    · rfl
  | empty isLess isGreater =>
    exact ⟨_, .step (opened isLess) (.step (closed [] isGreater) (.stay _)), fun _ _ => rfl⟩
  | listed isLess list isGreater =>
    obtain ⟨middle, ends, goes⟩ := list.readsParams header
    exact ⟨_, .step (opened isLess) (goes.concat (ends.greater _ isGreater)), fun _ _ => rfl⟩
  | trailing isLess list isComma isGreater =>
    obtain ⟨middle, ends, goes⟩ := list.readsParams header
    have last := Progress.Goes.step (closed params isGreater) (.stay _)
    exact ⟨_, .step (opened isLess) (goes.trans (.step (ends.comma _ isComma) last)),
      fun _ _ => rfl⟩

/-- The tokens of a declaration lead up to its last one, which completes it. -/
theorem Decl.Derived.goes {tokens : List Token} {decl : Decl} (derived : Decl.Derived tokens decl) :
    ∃ front last before, tokens = front ++ [last] ∧ Progress.between.Goes front before ∧
      before.advance last = some (.complete decl) := by
  cases derived with
  | @struct word name semicolon list params isWord isName paramList isSemicolon =>
    obtain ⟨after, goes, ends⟩ := paramList.goes (.struct name.phrase)
    have started : Progress.between.advance word = some (.go .structName) := by
      rw [Progress.advance, isWord]
    have named : Progress.structName.advance name =
        some (.go (.header (.struct name.phrase))) := by
      rw [Progress.advance, isName]
    refine ⟨word :: name :: list, semicolon, after, rfl, .step started (.step named goes), ?_⟩
    rw [ends semicolon (by simp [isSemicolon])]
    simp only [Header.advance, isSemicolon]
  | @trait word name opening closing list demands params supertraits isWord isName paramList
      supertraitList isOpening isClosing =>
    obtain ⟨after, goes, ends⟩ := paramList.goes (.trait name.phrase)
    have started : Progress.between.advance word = some (.go .traitName) := by
      rw [Progress.advance, isWord]
    have named : Progress.traitName.advance name = some (.go (.header (.trait name.phrase))) := by
      rw [Progress.advance, isName]
    have closed (decl : Decl) : (Progress.body decl).advance closing = some (.complete decl) := by
      rw [Progress.advance, isClosing]
    have start := Progress.Goes.step started (.step named goes)
    cases supertraitList with
    | nothing =>
      have opened : after.advance opening =
          some (.go (.body (.trait ⟨name.phrase, params, none⟩))) := by
        rw [ends opening (by simp [isOpening])]
        simp only [Header.advance, isOpening]
      exact ⟨_, closing, _, by simp, start.concat opened, closed _⟩
    | @listed colon demands bound isColon derived =>
      obtain ⟨last, goesOn, endsToo⟩ := derived.goes (.supertraits name.phrase params)
      have moved : after.advance colon =
          some (.go (.termStart (.supertraits name.phrase params) ⟨[], []⟩)) := by
        rw [ends colon (by simp [isColon])]
        simp only [Header.advance, isColon]
      have opened : last.advance opening =
          some (.go (.body (.trait ⟨name.phrase, params, some bound⟩))) := by
        rw [endsToo opening (by simp [isOpening]), isOpening]
        rfl
      exact ⟨_, closing, _, by simp, start.trans (.step moved (goesOn.concat opened)), closed _⟩
  | @impl word link opening closing list front back params head target isWord paramList headDerived
      isLink targetDerived isOpening isClosing =>
    obtain ⟨after, goes, ends⟩ := paramList.goes .impl
    obtain ⟨name, rest, rfl, isName, goesOn⟩ := headDerived.reads
    obtain ⟨middle, hasRead, headGoes⟩ := goesOn (.head params) []
    obtain ⟨last, hasReadToo, targetGoes⟩ := targetDerived.reads.goes (.target params head) []
    have started : Progress.between.advance word = some (.go (.header .impl)) := by
      rw [Progress.advance, isWord]
    have named : after.advance name = some (.go (.exprName (.head params) [] name.phrase)) := by
      rw [ends name (by simp [isName])]
      simp only [Header.advance, isName]
    have linked : middle.advance link = some (.go (.exprStart (.target params head) [])) := by
      rw [hasRead.advance (by simp [isLink]), isLink]
      rfl
    have opened : last.advance opening = some (.go (.body (.impl ⟨params, head, target⟩))) := by
      rw [hasReadToo.advance (by simp [isOpening]), isOpening]
      rfl
    have closed : (Progress.body (.impl ⟨params, head, target⟩)).advance closing =
        some (.complete (.impl ⟨params, head, target⟩)) := by
      rw [Progress.advance, isClosing]
    have start := (Progress.Goes.step started goes).trans (.step named headGoes)
    exact ⟨_, closing, _, by simp, start.trans (.step linked (targetGoes.concat opened)), closed⟩

theorem Decl.Derived.read {tokens : List Token} {decl : Decl} (derived : Decl.Derived tokens decl)
    (decls : List Decl) :
    (ParseState.mk decls .between).read tokens = .ok ⟨decls ++ [decl], .between⟩ := by
  obtain ⟨front, last, before, rfl, goes, completed⟩ := derived.goes
  have moved : (ParseState.mk decls before).advance last = some ⟨decls ++ [decl], .between⟩ := by
    rw [ParseState.advance, completed]
    rfl
  rw [goes.read, ParseState.read_cons moved]
  rfl

/-- Every sentence of the grammar is read to its end, and gives the declarations that it means. -/
theorem DeclSeries.read {tokens : List Token} {decls : List Decl} (series : DeclSeries tokens decls) :
    ParseState.start.read tokens = .ok ⟨decls, .between⟩ := by
  induction series with
  | empty => rfl
  | more _ derived ih =>
    rw [ParseState.read_append, ih]
    exact derived.read _

end TraitCoherence
