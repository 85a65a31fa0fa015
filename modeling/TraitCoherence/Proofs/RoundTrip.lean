import TraitCoherence.Proofs.Acceptance
import TraitCoherence.Proofs.Restoration

namespace TraitCoherence

/-- Every token that stands for a name has the text of one. -/
def Named (tokens : List Token) : Prop :=
  ∀ token ∈ tokens, token.terminal = .name → IsName token.text

theorem Named.head {token : Token} {tokens : List Token} (named : Named (token :: tokens))
    (isName : token.terminal = .name) : IsName token.text := named token List.mem_cons_self isName

theorem Named.tail {token : Token} {tokens : List Token} (named : Named (token :: tokens)) :
    Named tokens := fun other member => named other (List.mem_cons_of_mem _ member)

theorem Named.left {first second : List Token} (named : Named (first ++ second)) : Named first :=
  fun token member => named token (List.mem_append_left _ member)

theorem Named.right {first second : List Token} (named : Named (first ++ second)) : Named second :=
  fun token member => named token (List.mem_append_right _ member)

theorem CommaList.forall_of_named {α : Type} {Item : List Token → α → Prop} {Fine : α → Prop}
    (each : ∀ tokens item, Item tokens item → Named tokens → Fine item) {tokens : List Token}
    {items : List α} (list : CommaList Item tokens items) (named : Named tokens) :
    ∀ item ∈ items, Fine item := by
  induction list with
  | first derived =>
    rw [List.forall_mem_singleton]
    exact each _ _ derived named
  | more _ _ derived ih =>
    rw [List.forall_mem_append, List.forall_mem_singleton]
    exact ⟨ih named.left, each _ _ derived named.right.tail⟩

theorem TypeExpr.Derived.writable {tokens : List Token} {expr : TypeExpr}
    (derived : TypeExpr.Derived tokens expr) : Named tokens → expr.Writable := by
  refine TypeExpr.Derived.ind (motive := fun tokens expr => Named tokens → expr.Writable)
    (fun isName named => ?_) (fun isName _ list _ named => ?_) derived
  · exact .apply (named.head isName) fun _ member => absurd member List.not_mem_nil
  · exact .apply (named.head isName) (list.forall_of_named (fun _ _ holds => holds) named.tail.tail.left)

theorem SignedTerm.Derived.writable {tokens : List Token} {term : SignedTerm}
    (derived : SignedTerm.Derived tokens term) (named : Named tokens) : term.expr.Writable := by
  cases derived with
  | positive derived => exact derived.writable named
  | negative _ derived => exact derived.writable named.tail

theorem BoundChain.writable {tokens : List Token} {terms : List SignedTerm}
    (chain : BoundChain tokens terms) (named : Named tokens) :
    terms ≠ [] ∧ ∀ term ∈ terms, term.expr.Writable := by
  induction chain with
  | term derived =>
    rw [List.forall_mem_singleton]
    exact ⟨List.cons_ne_nil _ _, derived.writable named⟩
  | join _ _ derived ih =>
    rw [List.forall_mem_append, List.forall_mem_singleton]
    exact ⟨List.concat_ne_nil _ _, (ih named.left).2, derived.writable named.right.tail⟩
  | without _ _ derived ih =>
    rw [List.forall_mem_append, List.forall_mem_singleton]
    exact ⟨List.concat_ne_nil _ _, (ih named.left).2, derived.writable named.right.tail⟩

/-- A bound has the terms of its chain and no others. -/
theorem BoundExpr.mem_ofTerms {terms : List SignedTerm} {expr : TypeExpr} :
    expr ∈ (BoundExpr.ofTerms terms).positive ++ (BoundExpr.ofTerms terms).negative ↔
      ∃ term ∈ terms, term.expr = expr := by
  simp only [BoundExpr.ofTerms, List.mem_append, List.mem_map, List.mem_filter]
  constructor
  · rintro (⟨term, ⟨member, _⟩, same⟩ | ⟨term, ⟨member, _⟩, same⟩) <;> exact ⟨term, member, same⟩
  · rintro ⟨term, member, same⟩
    cases sign : term.negated with
    | false => exact Or.inl ⟨term, ⟨member, by rw [sign]; rfl⟩, same⟩
    | true => exact Or.inr ⟨term, ⟨member, sign⟩, same⟩

theorem BoundExpr.Derived.writable {tokens : List Token} {bound : BoundExpr}
    (derived : BoundExpr.Derived tokens bound) (named : Named tokens) : bound.Writable := by
  obtain ⟨terms, chain, rfl⟩ := derived
  obtain ⟨nonempty, each⟩ := chain.writable named
  constructor
  · obtain ⟨term, member⟩ := List.exists_mem_of_ne_nil terms nonempty
    exact List.ne_nil_of_mem (BoundExpr.mem_ofTerms.mpr ⟨term, member, rfl⟩)
  · intro expr member
    obtain ⟨term, inside, rfl⟩ := BoundExpr.mem_ofTerms.mp member
    exact each term inside

theorem Param.Derived.writable {tokens : List Token} {param : Param}
    (derived : Param.Derived tokens param) (named : Named tokens) : param.Writable := by
  cases derived with
  | plain isName =>
    refine ⟨named.head isName, fun _ found => ?_⟩
    cases found
  | bounded isName _ derived =>
    refine ⟨named.head isName, fun bound found => ?_⟩
    cases found
    exact derived.writable named.tail.tail

theorem ParamList.writable {tokens : List Token} {params : List Param}
    (list : ParamList tokens params) (named : Named tokens) : ∀ param ∈ params, param.Writable := by
  have each (tokens : List Token) (param : Param) (derived : Param.Derived tokens param) :=
    derived.writable
  cases list with
  | absent => exact fun _ member => absurd member List.not_mem_nil
  | empty => exact fun _ member => absurd member List.not_mem_nil
  | listed _ list _ => exact list.forall_of_named each named.tail.left
  | trailing _ list _ _ => exact list.forall_of_named each named.tail.left

theorem Decl.Derived.writable {tokens : List Token} {decl : Decl} (derived : Decl.Derived tokens decl)
    (named : Named tokens) : decl.Writable := by
  cases derived with
  | struct _ isName list _ =>
    exact ⟨named.tail.head isName, list.writable named.tail.tail.left⟩
  | trait _ isName list demands _ _ =>
    refine ⟨named.tail.head isName, list.writable named.tail.tail.left, fun bound found => ?_⟩
    cases demands with
    | nothing => cases found
    | listed _ derived =>
      cases found
      exact derived.writable named.tail.tail.right.left.tail
  | impl _ list head _ target _ _ =>
    exact ⟨list.writable named.tail.left, head.writable named.tail.right.left,
      target.writable named.tail.right.right.tail.left⟩

theorem DeclSeries.writable {tokens : List Token} {decls : List Decl}
    (series : DeclSeries tokens decls) (named : Named tokens) : ∀ decl ∈ decls, decl.Writable := by
  induction series with
  | empty => exact fun _ member => absurd member List.not_mem_nil
  | more _ derived ih =>
    rw [List.forall_mem_append, List.forall_mem_singleton]
    exact ⟨ih named.left, derived.writable named.right⟩

theorem Program.Writable.parse_render {program : Program} (writable : program.Writable) :
    ∃ again, parse program.render = .ok again ∧ program.Alike again := by
  obtain ⟨tokens, scanned, said⟩ := writable.spells 0
  obtain ⟨again, derived, alike⟩ := writable.restores tokens said
  have whole : scan program.render = ⟨tokens, none⟩ := scanned
  refine ⟨again, ?_, alike.symm⟩
  rw [parse, whole]
  exact Scan.parse_eq_ok_iff.mpr ⟨rfl, derived⟩

theorem writable_of_parse {text : String} {program : Program} (read : parse text = .ok program) :
    program.Writable := by
  obtain ⟨_, derived⟩ := Scan.parse_eq_ok_iff.mp read
  exact DeclSeries.writable derived fun token member => isName_of_mem_scanFrom member

/-- Printing, then reading, gives back every program whose names are names and whose bounds are not
empty. Every program that was read is one of them. -/
theorem parse_render_alike_and_image_writable :
    (∀ program : Program, program.Writable →
      ∃ again, parse program.render = .ok again ∧ program.Alike again) ∧
    (∀ text program, parse text = .ok program → program.Writable) ∧
    ∀ text program, parse text = .ok program →
      ∃ again, parse program.render = .ok again ∧ program.Alike again :=
  ⟨fun _ writable => writable.parse_render, fun _ _ read => writable_of_parse read,
    fun _ _ read => (writable_of_parse read).parse_render⟩

/-- `trait Keyed<K: -Zero> {}`. -/
def keyedTrait : TraitDecl :=
  ⟨.placeless "Keyed", [.ofTerms "K" [] [.apply (.placeless "Zero") []]], none⟩

/-- A bound that only forbids, in a program that was built and in one that was read. -/
theorem forbidding_bounds_restored : Program.Writable ⟨[.trait keyedTrait]⟩ ∧
    (∃ again, parse (Program.render ⟨[.trait keyedTrait]⟩) = .ok again ∧
      Program.Alike ⟨[.trait keyedTrait]⟩ again) ∧
    ∃ program, parse mixedSigns = .ok program ∧ program.Writable ∧
      ∃ again, parse program.render = .ok again ∧ program.Alike again := by
  obtain ⟨restored, image, restoredToo⟩ := parse_render_alike_and_image_writable
  have zero : TypeExpr.Writable (.apply (.placeless "Zero") []) :=
    .apply (by decide) fun _ member => absurd member List.not_mem_nil
  have writable : Program.Writable ⟨[.trait keyedTrait]⟩ := by
    rw [Program.Writable, List.forall_mem_singleton]
    refine ⟨by decide, List.forall_mem_singleton.mpr ?_, fun _ found => ?_⟩
    · refine ⟨by decide, fun bound found => ?_⟩
      cases found
      exact ⟨List.cons_ne_nil _ _, List.forall_mem_singleton.mpr zero⟩
    · cases found
  refine ⟨writable, restored _ writable, ?_⟩
  have accepted : (parse mixedSigns).toOption.isSome = true := by decide +kernel
  cases read : parse mixedSigns with
  | error error =>
    rw [read] at accepted
    cases accepted
  | ok program => exact ⟨program, rfl, image _ _ read, restoredToo _ _ read⟩

end TraitCoherence
