import TraitCoherence.Proofs.ClosureQueries
import TraitCoherence.Proofs.Separation

namespace TraitCoherence

/-- The places that a comparison passes through, each with the data it has there: a pair of impls, an
impl, its parameters, a trait or a type to be elaborated in a scope, equations to be solved, the
solution before its variables are classified, classes to be judged, members whose bounds are joined,
a bound to be asked about, traits whose closures are gathered, and a trait to be closed. -/
inductive Stage where
  | compare (first second : ImplDecl)
  | impl (next : Int) (decl : ImplDecl)
  | params (scope : Scope) (next : Int) (params : List Param)
  | trait (scope : Scope) (expr : TypeExpr)
  | type (scope : Scope) (expr : TypeExpr)
  | solve (σ : Substitution) (equations : List Equation)
  | classify (bounds : BoundTable) (σ : Substitution)
  | judge (bounds : BoundTable) (memo : Memo) (classes : List VarClass)
  | join (bounds : BoundTable) (sofar : Bound) (members : List Int)
  | ask (memo : Memo) (bound : Bound)
  | gather (memo : Memo) (sofar : TraitSet) (traits : List TraitRef)
  | close (memo : Memo) (trait : TraitRef)

/-- What the parameters of a trait stand for in its declaration. -/
def TraitDecl.scope (decl : TraitDecl) (trait : TraitRef) : Scope :=
  ((decl.params.map (·.name.text)).zip trait.args).reverse

/-- One place leads to another, with the data that it hands on. Of several expressions in a row each
can be next, as if those before it had been elaborated. -/
inductive Catalog.Enters (catalog : Catalog) : Stage → Stage → Prop
  | first {first second : ImplDecl} : Enters catalog (.compare first second) (.impl 0 first)
  | second {first second : ImplDecl} {next : Int} {left : ImplScheme} :
      catalog.elaborateImpl 0 first = (next, .ok left) →
      Enters catalog (.compare first second) (.impl next second)
  | heads {first second : ImplDecl} {left right : ImplScheme} :
      catalog.elaboratePair first second = .ok (left, right) → left.trait.name = right.trait.name →
      Enters catalog (.compare first second)
        (.solve .empty (List.zipWith Equation.mk left.trait.args right.trait.args))
  | targets {first second : ImplDecl} {left right : ImplScheme} {σ : Substitution} :
      catalog.elaboratePair first second = .ok (left, right) →
      Substitution.empty.unifyTraits left.trait right.trait = (σ, true) →
      Enters catalog (.compare first second) (.solve σ [⟨left.target, right.target⟩])
  | unified {first second : ImplDecl} {left right : ImplScheme} {σ : Substitution} :
      catalog.elaboratePair first second = .ok (left, right) → unifySchemes left right = some σ →
      Enters catalog (.compare first second) (.classify (left.bounds ++ right.bounds) σ)
  | params {next : Int} {decl : ImplDecl} :
      Enters catalog (.impl next decl) (.params [] next decl.params)
  | head {next after : Int} {decl : ImplDecl} {scope : Scope} {bounds : BoundTable} :
      catalog.elaborateParams [] next decl.params = (after, .ok (scope, bounds)) →
      Enters catalog (.impl next decl) (.trait scope decl.head)
  | target {next after : Int} {decl : ImplDecl} {scope : Scope} {bounds : BoundTable} :
      catalog.elaborateParams [] next decl.params = (after, .ok (scope, bounds)) →
      Enters catalog (.impl next decl) (.type scope decl.target)
  | term {scope : Scope} {next : Int} {param : Param} {params : List Param} {bound : BoundExpr}
      {expr : TypeExpr} : param.bound = some bound → expr ∈ bound.positive ++ bound.negative →
      Enters catalog (.params scope next (param :: params)) (.trait scope expr)
  | param {scope : Scope} {next : Int} {param : Param} {params : List Param}
      {bound : Option Bound} : catalog.elaborateParam scope param = .ok bound →
      Enters catalog (.params scope next (param :: params))
        (.params ((param.name.text, .var next param.name.text) :: scope) (next + 1) params)
  | argument {scope : Scope} {expr arg : TypeExpr} : arg ∈ expr.args →
      Enters catalog (.trait scope expr) (.type scope arg)
  | part {scope : Scope} {name : Name} {args : List TypeExpr} {decl : StructDecl} {arg : TypeExpr} :
      scope.lookup name.text = none → catalog.structs.get? name.text = some decl →
      decl.arity = args.length → arg ∈ args →
      Enters catalog (.type scope (.apply name args)) (.type scope arg)
  | bind {σ : Substitution} {equations others : List Equation} {equation : Equation} {x : Int}
      {value : Ty} : σ.next? equations = some (equation, others) →
      equation.binding? = some (x, value) → x ∉ value.vars →
      Enters catalog (.solve σ equations) (.solve (σ.bind x value) others)
  | classes {bounds : BoundTable} {σ : Substitution} :
      Enters catalog (.classify bounds σ) (.judge bounds [] σ.classes)
  | anchored {bounds : BoundTable} {memo : Memo} {members : List Int} {anchor : Ty}
      {classes : List VarClass} :
      Enters catalog (.judge bounds memo (⟨members, some anchor⟩ :: classes))
        (.judge bounds memo classes)
  | members {bounds : BoundTable} {memo : Memo} {members : List Int} {classes : List VarClass} :
      Enters catalog (.judge bounds memo (⟨members, none⟩ :: classes)) (.join bounds .empty members)
  | unbounded {bounds : BoundTable} {memo : Memo} {members : List Int} {classes : List VarClass} :
      joinBounds bounds .empty members = .unbounded →
      Enters catalog (.judge bounds memo (⟨members, none⟩ :: classes)) (.judge bounds memo classes)
  | joined {bounds : BoundTable} {memo : Memo} {members : List Int} {classes : List VarClass}
      {bound : Bound} : joinBounds bounds .empty members = .bound bound →
      Enters catalog (.judge bounds memo (⟨members, none⟩ :: classes)) (.ask memo bound)
  | satisfiable {bounds : BoundTable} {memo after : Memo} {members : List Int}
      {classes : List VarClass} {bound : Bound} :
      joinBounds bounds .empty members = .bound bound →
      catalog.unsatisfiable memo bound = (after, .ok false) →
      Enters catalog (.judge bounds memo (⟨members, none⟩ :: classes)) (.judge bounds after classes)
  | member {bounds : BoundTable} {sofar bound : Bound} {x : Int} {members : List Int} :
      bounds.lookup x = some (some bound) →
      Enters catalog (.join bounds sofar (x :: members)) (.join bounds (sofar.join bound) members)
  | implied {memo : Memo} {bound : Bound} :
      Enters catalog (.ask memo bound) (.gather memo .empty bound.positive.members)
  | close {memo : Memo} {sofar : TraitSet} {trait : TraitRef} {traits : List TraitRef} :
      Enters catalog (.gather memo sofar (trait :: traits)) (.close memo trait)
  | closed {memo after : Memo} {sofar closure : TraitSet} {trait : TraitRef}
      {traits : List TraitRef} : catalog.closure memo trait = (after, .ok closure) →
      Enters catalog (.gather memo sofar (trait :: traits))
        (.gather after (sofar.union closure) traits)
  | demand {memo : Memo} {trait : TraitRef} {decl : TraitDecl} {expr : TypeExpr} :
      memo.get? trait = none → catalog.traits.get? trait.name = some decl → expr ∈ decl.demands →
      Enters catalog (.close memo trait) (.trait (decl.scope trait) expr)
  | supertraits {memo : Memo} {trait : TraitRef} {supertraits : List TraitRef} :
      memo.get? trait = none → catalog.supertraits trait = .ok supertraits →
      Enters catalog (.close memo trait) (.gather memo (.singleton trait) supertraits)

/-- What a comparison of two impls passes through. -/
def Catalog.Reaches (catalog : Catalog) (first second : ImplDecl) : Stage → Prop :=
  Relation.ReflTransGen catalog.Enters (.compare first second)

/-- A stage leads to one of a kind, or is one. -/
def Catalog.ComesTo (catalog : Catalog) (stage : Stage) (kind : Stage → Prop) : Prop :=
  ∃ last, Relation.ReflTransGen catalog.Enters stage last ∧ kind last

theorem Catalog.comesTo_self {catalog : Catalog} {stage : Stage} {kind : Stage → Prop}
    (holds : kind stage) : catalog.ComesTo stage kind :=
  ⟨stage, .refl, holds⟩

theorem Catalog.ComesTo.enter {catalog : Catalog} {stage next : Stage} {kind : Stage → Prop}
    (comes : catalog.ComesTo next kind) (enters : catalog.Enters stage next) :
    catalog.ComesTo stage kind := by
  obtain ⟨last, rest, holds⟩ := comes
  exact ⟨last, .head enters rest, holds⟩

def Scope.Sized (sizes : String → Nat) (scope : Scope) : Prop := ∀ entry ∈ scope, entry.2.Sized sizes

/-- Everything at hand fits `sizes`, bindings are in order, what is remembered is right, and every
variable that is to be looked up in a table of bounds has an entry there. -/
def Stage.Fit (catalog : Catalog) (sizes : String → Nat) : Stage → Prop
  | .compare _ _ => True
  | .impl _ _ => True
  | .params scope _ _ => scope.Sized sizes
  | .trait scope _ => scope.Sized sizes
  | .type scope _ => scope.Sized sizes
  | .solve σ equations =>
    σ.Triangular ∧ σ.Sized sizes ∧ ∀ equation ∈ equations, equation.Sized sizes
  | .classify bounds σ =>
    bounds.Sized sizes ∧ σ.Triangular ∧ σ.Sized sizes ∧
      ∀ varClass ∈ σ.classes, bounds.Covers varClass.members
  | .judge bounds memo classes =>
    bounds.Sized sizes ∧ memo.Sound catalog sizes ∧
      (∀ varClass ∈ classes, ∀ anchor, varClass.anchor = some anchor → anchor.Sized sizes) ∧
      ∀ varClass ∈ classes, bounds.Covers varClass.members
  | .join bounds sofar members => bounds.Sized sizes ∧ sofar.Sized sizes ∧ bounds.Covers members
  | .ask memo bound => memo.Sound catalog sizes ∧ bound.Sized sizes
  | .gather memo sofar traits =>
    memo.Sound catalog sizes ∧ sofar.Sized sizes ∧ ∀ trait ∈ traits, trait.Sized sizes
  | .close memo closing => memo.Sound catalog sizes ∧ closing.Sized sizes

theorem ImplScheme.WellFormed.unifySchemes_sized {sizes : String → Nat} {left right : ImplScheme}
    {next other : Int} {count countToo : Nat} (wellFormed : left.WellFormed sizes next count)
    (wellFormedToo : right.WellFormed sizes other countToo) {σ : Substitution}
    (done : unifySchemes left right = some σ) : σ.Sized sizes := by
  have start : Substitution.empty.Triangular := .empty
  have sized := start.serveAll_sized (fun _ member => absurd member List.not_mem_nil)
    (wellFormed.demands_sized wellFormedToo)
  rwa [unifySchemes_eq_some done] at sized

theorem Substitution.Sized.anchor {sizes : String → Nat} {σ : Substitution} (sized : σ.Sized sizes)
    {varClass : VarClass} (member : varClass ∈ σ.classes) {anchor : Ty}
    (anchored : varClass.anchor = some anchor) : anchor.Sized sizes := by
  rw [(Substitution.mem_classes.mp member).2, Substitution.anchor?] at anchored
  obtain ⟨x, _, found⟩ := List.exists_of_findSome?_eq_some anchored
  split at found
  · rename_i bound
    cases found
    exact sized _ (mem_of_lookup_eq_some bound)
  · cases found

theorem TraitRef.Sized.scope {sizes : String → Nat} {trait : TraitRef} (small : trait.Sized sizes)
    (decl : TraitDecl) : (decl.scope trait).Sized sizes := by
  intro entry member
  exact small entry.2 (List.of_mem_zip (List.mem_reverse.mp member)).2

theorem Catalog.elaborateParams_sized {catalog : Catalog} {sizes : String → Nat}
    {scope inner : Scope} {next after : Int} {params : List Param} {bounds : BoundTable}
    (inScope : scope.Sized sizes)
    (elaborated : catalog.elaborateParams scope next params = (after, .ok (inner, bounds))) :
    inner.Sized sizes := by
  intro entry member
  rcases Catalog.elaborateParams_scope elaborated entry member with outer | ⟨x, _, label, same⟩
  · exact inScope entry outer
  · exact same ▸ .var x label

theorem Stage.Fit.later {catalog : Catalog} {sizes : String → Nat} {bounds : BoundTable}
    {memo after : Memo} {varClass : VarClass} {classes : List VarClass}
    (fit : (Stage.judge bounds memo (varClass :: classes)).Fit catalog sizes)
    (next : after.Sound catalog sizes) : (Stage.judge bounds after classes).Fit catalog sizes := by
  obtain ⟨small, _, anchors, entries⟩ := fit
  exact ⟨small, next, (List.forall_mem_cons.mp anchors).2, (List.forall_mem_cons.mp entries).2⟩

section

variable {catalog : Catalog} {sizes : String → Nat} (fits : catalog.Fits sizes)

include fits

theorem Catalog.Fits.unified_fit {first second : ImplDecl} {left right : ImplScheme}
    {σ : Substitution} (elaborated : catalog.elaboratePair first second = .ok (left, right))
    (done : unifySchemes left right = some σ) :
    (Stage.classify (left.bounds ++ right.bounds) σ).Fit catalog sizes := by
  obtain ⟨wellFormed, wellFormedToo⟩ := fits.elaboratePair elaborated
  have pair : WellFormedPair sizes left right := ⟨_, wellFormed, _, wellFormedToo⟩
  have unified := wellFormed.unified wellFormedToo done
  exact ⟨pair.bounds_sized, unified.triangular,
    wellFormed.unifySchemes_sized wellFormedToo done, unified.covers pair⟩

/-- One case for each way on. -/
theorem Catalog.Fits.enters {stage next : Stage} (enters : catalog.Enters stage next)
    (fit : stage.Fit catalog sizes) : next.Fit catalog sizes := by
  have nothing : Scope.Sized sizes [] := fun _ member => absurd member List.not_mem_nil
  cases enters with
  | first => trivial
  | second _ => trivial
  | heads elaborated _ =>
    obtain ⟨wellFormed, wellFormedToo⟩ := fits.elaboratePair elaborated
    refine ⟨.empty, fun _ member => absurd member List.not_mem_nil, fun equation member => ?_⟩
    have inside := List.of_mem_zip (Equation.mem_zipWith_mk.mp member)
    exact ⟨wellFormed.trait _ inside.1, wellFormedToo.trait _ inside.2⟩
  | @targets _ _ left right σ elaborated unified =>
    obtain ⟨wellFormed, wellFormedToo⟩ := fits.elaboratePair elaborated
    have start : Substitution.empty.Triangular := .empty
    have small : (Demand.traits left.trait right.trait).Sized sizes :=
      ⟨wellFormed.trait, wellFormedToo.trait⟩
    have sized := start.serve_sized (fun _ member => absurd member List.not_mem_nil) small
    have triangular := start.serve (.traits left.trait right.trait)
    rw [Substitution.serve, unified] at sized triangular
    exact ⟨triangular, sized, List.forall_mem_singleton.mpr ⟨wellFormed.target, wellFormedToo.target⟩⟩
  | unified elaborated done => exact fits.unified_fit elaborated done
  | params => exact nothing
  | head elaborated => exact Catalog.elaborateParams_sized nothing elaborated
  | target elaborated => exact Catalog.elaborateParams_sized nothing elaborated
  | term _ _ => exact fit
  | param _ => exact List.forall_mem_cons.mpr ⟨.var _ _, fit⟩
  | argument _ => exact fit
  | part _ _ _ _ => exact fit
  | bind next found absent =>
    obtain ⟨triangular, sized, each⟩ := fit
    obtain ⟨here, later⟩ := Substitution.next?_inherit next each fun whole member part inside =>
      Ty.sized_of_mem_equations (sized.resolve (each whole member).1)
        (sized.resolve (each whole member).2) inside
    exact ⟨triangular.bind_next next found absent, sized.bind _ (here.binding? found), later⟩
  | classes =>
    obtain ⟨bounds, _, sized, entries⟩ := fit
    exact ⟨bounds, .nil catalog sizes, fun varClass member anchor => sized.anchor member, entries⟩
  | anchored => exact fit.later fit.2.1
  | members => exact ⟨fit.1, .empty sizes, (List.forall_mem_cons.mp fit.2.2.2).1⟩
  | unbounded _ => exact fit.later fit.2.1
  | joined joined => exact ⟨fit.2.1, (joinBounds_has fit.1 (.empty sizes) joined).1⟩
  | satisfiable joined asked =>
    have next := (fits.unsatisfiable fit.2.1 (joinBounds_has fit.1 (.empty sizes) joined).1).1
    rw [asked] at next
    exact fit.later next
  | member found =>
    obtain ⟨bounds, sized, entries⟩ := fit
    exact ⟨bounds, sized.join (bounds _ _ (mem_of_lookup_eq_some found)),
      (List.forall_mem_cons.mp entries).2⟩
  | implied => exact ⟨fit.1, .empty sizes, fit.2.1⟩
  | close => exact ⟨fit.1, (List.forall_mem_cons.mp fit.2.2).1⟩
  | closed found =>
    obtain ⟨sound, sized, each⟩ := fit
    obtain ⟨here, later⟩ := List.forall_mem_cons.mp each
    obtain ⟨next, right⟩ := fits.closure _ _ sound here
    rw [found] at next right
    exact ⟨next, sized.union (right _ rfl).sized, later⟩
  | demand _ _ _ => exact fit.2.scope _
  | supertraits _ found =>
    obtain ⟨sound, small⟩ := fit
    exact ⟨sound, List.forall_mem_singleton.mpr small,
      fun supertrait member => fits.supertrait small ⟨_, found, member⟩⟩

/-- Whatever a comparison passes through, what it has there fits. -/
theorem Catalog.Fits.reaches {first second : ImplDecl} {stage : Stage}
    (reaches : catalog.Reaches first second stage) : stage.Fit catalog sizes := by
  induction reaches with
  | refl => trivial
  | tail _ enters ih => exact fits.enters enters ih

end

end TraitCoherence
