import TraitCoherence.Proofs.Acceptance

namespace TraitCoherence

/-- The tokens are the beginning of a sentence of the grammar. -/
def Viable (tokens : List Token) : Prop :=
  ∃ rest program, Program.Derived (tokens ++ rest) program

theorem Viable.of_append {first second : List Token} (viable : Viable (first ++ second)) :
    Viable first := by
  obtain ⟨rest, program, derived⟩ := viable
  exact ⟨second ++ rest, program, List.append_assoc first second rest ▸ derived⟩

/-- Some tokens bring the declaration that is being read to its end. -/
def ParseState.CanFinish (state : ParseState) : Prop :=
  ∃ rest decls, state.read rest = .ok ⟨decls, .between⟩

theorem ParseState.CanFinish.between (decls : List Decl) :
    (ParseState.mk decls .between).CanFinish :=
  ⟨[], decls, rfl⟩

theorem ParseState.CanFinish.before {state next : ParseState} (token : Token)
    (finishes : next.CanFinish) (moved : state.advance token = some next) : state.CanFinish := by
  obtain ⟨rest, decls, read⟩ := finishes
  exact ⟨token :: rest, decls, (ParseState.read_cons moved rest).trans read⟩

theorem ParseState.CanFinish.body (decls : List Decl) (decl : Decl) :
    (ParseState.mk decls (.body decl)).CanFinish :=
  (CanFinish.between _).before (.bare .closeBrace) rfl

section

variable {decls : List Decl}

theorem Progress.HasRead.advance_go {site : ExprSite} {outer : List OpenArgs} {expr : TypeExpr}
    {progress next : Progress} (hasRead : Progress.HasRead site outer expr progress)
    {terminal : Terminal} (ends : terminal ≠ .less)
    (moved : site.advanceIn outer expr terminal = some next) :
    (ParseState.mk decls progress).advance (.bare terminal) = some ⟨decls, next⟩ := by
  have same : progress.advance (.bare terminal) = (site.advanceIn outer expr terminal).map .go :=
    hasRead.advance ends
  rw [ParseState.advance, same, moved]
  rfl

/-- Open argument lists can be closed one after the other, so what counts is the site. -/
theorem Progress.HasRead.canFinish_of {site : ExprSite}
    (ends : ∀ expr progress, Progress.HasRead site [] expr progress →
      (ParseState.mk decls progress).CanFinish)
    {outer : List OpenArgs} {expr : TypeExpr} {progress : Progress}
    (hasRead : Progress.HasRead site outer expr progress) :
    (ParseState.mk decls progress).CanFinish := by
  induction outer generalizing expr progress with
  | nil => exact ends expr progress hasRead
  | cons inner outer ih =>
    exact (ih (.closed _)).before (.bare .greater) (hasRead.advance_go nofun rfl)

theorem Progress.HasRead.canFinish_target {params : List Param} {trait expr : TypeExpr}
    {outer : List OpenArgs} {progress : Progress}
    (hasRead : Progress.HasRead (.target params trait) outer expr progress) :
    (ParseState.mk decls progress).CanFinish :=
  hasRead.canFinish_of fun _ _ hasRead =>
    (ParseState.CanFinish.body decls _).before (.bare .openBrace) (hasRead.advance_go nofun rfl)

theorem Progress.HasRead.canFinish_head {params : List Param} {expr : TypeExpr}
    {outer : List OpenArgs} {progress : Progress}
    (hasRead : Progress.HasRead (.head params) outer expr progress) :
    (ParseState.mk decls progress).CanFinish := by
  refine hasRead.canFinish_of fun trait _ hasRead => ?_
  have target : (ParseState.mk decls (.exprStart (.target params trait) [])).CanFinish :=
    (Progress.HasRead.name _).canFinish_target.before (.bare .name) rfl
  exact target.before (.bare .forWord) (hasRead.advance_go nofun rfl)

theorem canFinish_listClosed (header : Header) (params : List Param) :
    (ParseState.mk decls (.listClosed header params)).CanFinish := by
  cases header with
  | struct name => exact (ParseState.CanFinish.between _).before (.bare .semicolon) rfl
  | trait name => exact (ParseState.CanFinish.body decls _).before (.bare .openBrace) rfl
  | impl => exact (Progress.HasRead.name _).canFinish_head.before (.bare .name) rfl

theorem Progress.HasRead.canFinish_term {site : BoundSite} {sofar : BoundExpr} {negated : Bool}
    {outer : List OpenArgs} {expr : TypeExpr} {progress : Progress}
    (hasRead : Progress.HasRead (.term site sofar negated) outer expr progress) :
    (ParseState.mk decls progress).CanFinish := by
  refine hasRead.canFinish_of fun _ _ hasRead => ?_
  cases site with
  | param header before name =>
    exact (canFinish_listClosed header _).before (.bare .greater) (hasRead.advance_go nofun rfl)
  | supertraits name params =>
    exact (ParseState.CanFinish.body decls _).before (.bare .openBrace)
      (hasRead.advance_go nofun rfl)

theorem Progress.HasRead.canFinish {site : ExprSite} {outer : List OpenArgs} {expr : TypeExpr}
    {progress : Progress} (hasRead : Progress.HasRead site outer expr progress) :
    (ParseState.mk decls progress).CanFinish := by
  cases site with
  | term site sofar negated => exact hasRead.canFinish_term
  | head params => exact hasRead.canFinish_head
  | target params trait => exact hasRead.canFinish_target

theorem canFinish_header (header : Header) :
    (ParseState.mk decls (.header header)).CanFinish := by
  have opened : (ParseState.mk decls (.listOpen header [])).CanFinish :=
    (canFinish_listClosed header []).before (.bare .greater) rfl
  exact opened.before (.bare .less) rfl

end

/-- Reading never gets where no sentence goes on. -/
theorem ParseState.canFinish (state : ParseState) : state.CanFinish := by
  obtain ⟨decls, progress⟩ := state
  cases progress with
  | between => exact .between decls
  | structName => exact (canFinish_header _).before (.bare .name) rfl
  | traitName => exact (canFinish_header _).before (.bare .name) rfl
  | header header => exact canFinish_header header
  | listOpen header before => exact (canFinish_listClosed header before).before (.bare .greater) rfl
  | paramName header before name => exact (canFinish_listClosed header _).before (.bare .greater) rfl
  | listClosed header params => exact canFinish_listClosed header params
  | termStart site sofar => exact (Progress.HasRead.name _).canFinish.before (.bare .name) rfl
  | exprStart site outer => exact (Progress.HasRead.name _).canFinish.before (.bare .name) rfl
  | exprName site outer name => exact (Progress.HasRead.name name).canFinish
  | exprClosed site outer expr => exact (Progress.HasRead.closed expr).canFinish
  | body decl => exact .body decls decl

/-- Exactly the beginnings of sentences can be read. -/
theorem viable_iff_read {tokens : List Token} :
    Viable tokens ↔ ∃ state, ParseState.start.read tokens = .ok state := by
  constructor
  · rintro ⟨rest, program, derived⟩
    have read := Program.derived_iff_read.mp derived
    rw [ParseState.read_append] at read
    cases first : ParseState.start.read tokens with
    | error error =>
      rw [first] at read
      cases read
    | ok state => exact ⟨state, rfl⟩
  · rintro ⟨state, read⟩
    obtain ⟨rest, decls, readRest⟩ := state.canFinish
    refine ⟨rest, ⟨decls⟩, Program.derived_iff_read.mpr ?_⟩
    rw [ParseState.read_append, read]
    exact readRest

section

variable {tokens : List Token} {state : ParseState} (read : ParseState.start.read tokens = .ok state)

include read

theorem viable_concat_iff {token : Token} :
    Viable (tokens ++ [token]) ↔ (state.progress.advance token).isSome = true := by
  have last : ParseState.start.read (tokens ++ [token]) = state.read [token] := by
    rw [ParseState.read_append, read]
    rfl
  rw [viable_iff_read, last, ParseState.read, ParseState.advance]
  cases state.progress.advance token with
  | none => simp
  | some move => simp [ParseState.read]

theorem derived_iff_between :
    (∃ program, Program.Derived tokens program) ↔ state.progress = .between := by
  simp only [Program.derived_iff_read, read, Except.ok.injEq]
  constructor
  · rintro ⟨program, rfl⟩
    rfl
  · intro finished
    obtain ⟨decls, progress⟩ := state
    exact ⟨⟨decls⟩, by rw [show progress = .between from finished]⟩

end

/-- Whether a token can come next is a question of its terminal. -/
theorem Progress.advance_isSome_congr (progress : Progress) {token other : Token}
    (same : token.terminal = other.terminal) :
    (progress.advance token).isSome = (progress.advance other).isSome := by
  have header (owner : Header) (params : List Param) :
      (owner.advance params token).isSome = (owner.advance params other).isSome := by
    unfold Header.advance
    rw [same]
    split <;> rfl
  cases progress with
  | header owner =>
    rw [Progress.advance, Progress.advance, same]
    split
    · rfl
    · exact header owner []
  | listClosed owner params => exact header owner params
  | _ =>
    rw [Progress.advance, Progress.advance, same]
    try split <;> rfl

theorem Progress.advance_bare_isSome (progress : Progress) (token : Token) :
    (progress.advance (.bare token.terminal)).isSome = (progress.advance token).isSome :=
  progress.advance_isSome_congr rfl

theorem Terminal.mem_all (terminal : Terminal) : terminal ∈ Terminal.all := by
  cases terminal <;> decide

theorem ParseState.mem_expected {state : ParseState} {terminal : Terminal} :
    terminal ∈ state.expected ↔ state.admits terminal = true := by
  rw [ParseState.expected, List.mem_filter, and_iff_right (Terminal.mem_all terminal)]

/-- The terminals that are expected are those that lead from beginnings of sentences to others. -/
theorem ParseState.mem_expected_iff_viable {tokens : List Token} {state : ParseState}
    (read : ParseState.start.read tokens = .ok state) {token : Token}
    (notEnd : token.terminal ≠ .finish) :
    token.terminal ∈ state.expected ↔ Viable (tokens ++ [token]) := by
  rw [ParseState.mem_expected, viable_concat_iff read, ← state.progress.advance_bare_isSome token,
    ParseState.admits]
  exact notEnd

theorem ParseState.finish_mem_expected_iff {tokens : List Token} {state : ParseState}
    (read : ParseState.start.read tokens = .ok state) :
    .finish ∈ state.expected ↔ ∃ program, Program.Derived tokens program := by
  rw [ParseState.mem_expected, derived_iff_between read, ParseState.admits, decide_eq_true_iff]

/-- No declaration goes on with the end of the text. -/
theorem Progress.advance_finish (progress : Progress) :
    progress.advance (.bare .finish) = none := by
  have atSite (site : ExprSite) (expr : TypeExpr) : site.advance expr .finish = none := by
    cases site with
    | term site sofar negated => cases site <;> rfl
    | head params => rfl
    | target params trait => rfl
  have inside (site : ExprSite) (outer : List OpenArgs) (expr : TypeExpr) :
      (site.advanceIn outer expr .finish).map Move.go = none := by
    cases outer with
    | nil => rw [ExprSite.advanceIn, atSite, Option.map_none]
    | cons inner outer => rfl
  cases progress with
  | header owner => cases owner <;> rfl
  | listClosed owner params => cases owner <;> rfl
  | exprName site outer name => exact inside site outer _
  | exprClosed site outer expr => exact inside site outer expr
  | _ => rfl

/-- Something can always come next: the end between declarations, and elsewhere the first of the
tokens that bring the declaration to its end. -/
theorem ParseState.expected_ne_nil (state : ParseState) : state.expected ≠ [] := by
  obtain ⟨rest, decls, read⟩ := state.canFinish
  cases rest with
  | nil =>
    cases read
    have admitted : (ParseState.mk decls .between).admits .finish = true := rfl
    exact List.ne_nil_of_mem (ParseState.mem_expected.mpr admitted)
  | cons token rest =>
    have moved : (state.progress.advance (.bare token.terminal)).isSome = true := by
      rw [state.progress.advance_bare_isSome]
      rw [ParseState.read, ParseState.advance] at read
      cases moved : state.progress.advance token with
      | some move => rfl
      | none =>
        rw [moved] at read
        cases read
    have notEnd : token.terminal ≠ .finish := by
      intro isEnd
      rw [isEnd, state.progress.advance_finish] at moved
      cases moved
    have admitted : state.admits token.terminal = true := by
      rw [ParseState.admits, moved]
      exact notEnd
    exact List.ne_nil_of_mem (ParseState.mem_expected.mpr admitted)

/-- What the grammar calls a terminal. -/
def Terminal.grammarName : Terminal → String
  | .bang => "!"
  | .plus => "+"
  | .comma => ","
  | .minus => "-"
  | .colon => ":"
  | .semicolon => ";"
  | .less => "<"
  | .finish => "<END>"
  | .greater => ">"
  | .forWord => "FOR"
  | .implWord => "IMPL"
  | .structWord => "STRUCT"
  | .traitWord => "TRAIT"
  | .name => "name"
  | .openBrace => "\x7b"
  | .closeBrace => "\x7d"

theorem ParseState.pairwise_expected (state : ParseState) :
    state.expected.Pairwise fun a b => a.grammarName < b.grammarName := by
  have all : Terminal.all.Pairwise fun a b => a.grammarName < b.grammarName := by decide
  exact all.sublist List.filter_sublist

end TraitCoherence
