import TraitCoherence.Report
import TraitCoherence.Proofs.ScanLocality
import TraitCoherence.Proofs.Viability

namespace TraitCoherence

/-- The item can come after the tokens: they go on to a sentence with it, or are one at the end. A
character that begins no token never fits. -/
def Item.Fits (before : List Token) : Item → Prop
  | .token read => Viable (before ++ [read])
  | .stuck _ => False
  | .finish => ∃ program, Program.Derived before program

/-- The item that an error blames. -/
def ParseError.item : ParseError → Item
  | .stuck character => .stuck character
  | .unexpected token _ => .token token
  | .ranOut _ => .finish

/-- The terminals that an error says could have stood there. -/
def ParseError.expected : ParseError → List Terminal
  | .stuck _ => []
  | .unexpected _ expected => expected
  | .ranOut expected => expected

/-- The error that blames an item, where some terminals could have stood. -/
def Item.blame (expected : List Terminal) : Item → ParseError
  | .token read => .unexpected read expected
  | .stuck character => .stuck character
  | .finish => .ranOut expected

theorem ParseState.read_error {state : ParseState} {tokens : List Token} {error : ParseError}
    (failed : state.read tokens = .error error) :
    ∃ before token after reached, tokens = before ++ token :: after ∧
      state.read before = .ok reached ∧ reached.progress.advance token = none ∧
      error = .unexpected token reached.expected := by
  induction tokens generalizing state with
  | nil => cases failed
  | cons token tokens ih =>
    cases moved : state.advance token with
    | none =>
      rw [ParseState.read, moved] at failed
      cases failed
      exact ⟨[], token, tokens, state, rfl, rfl, Option.map_eq_none_iff.mp moved, rfl⟩
    | some next =>
      rw [ParseState.read_cons moved] at failed
      obtain ⟨before, culprit, after, reached, rfl, read, stops, same⟩ := ih failed
      exact ⟨token :: before, culprit, after, reached, rfl, (ParseState.read_cons moved _).trans read,
        stops, same⟩

/-- What an item of a scan says about the scan. -/
theorem Scan.of_items {scan : Scan} {before : List Token} {item : Item} {after : List Item}
    (split : scan.items = before.map .token ++ item :: after) :
    match item with
    | .token read => ∃ rest, scan.tokens = before ++ read :: rest
    | .stuck character => scan.tokens = before ∧ scan.stuck = some character
    | .finish => scan.tokens = before ∧ scan.stuck = none := by
  obtain ⟨tokens, stuck⟩ := scan
  induction tokens generalizing before with
  | nil =>
    rcases items_cons_cases split with ⟨rfl, rfl⟩ | ⟨token, rest, _, isToken, _⟩
    · cases stuck with
      | none => exact ⟨rfl, rfl⟩
      | some character => exact ⟨rfl, rfl⟩
    · cases stuck <;> cases isToken
  | cons token tokens ih =>
    rcases items_cons_cases split with ⟨rfl, rfl⟩ | ⟨first, rest, rfl, same, later⟩
    · exact ⟨tokens, rfl⟩
    · cases same
      have found := ih later
      cases item with
      | token read =>
        obtain ⟨others, here⟩ := found
        exact ⟨others, congrArg (token :: ·) here⟩
      | stuck character => exact ⟨congrArg (token :: ·) found.1, found.2⟩
      | finish => exact ⟨congrArg (token :: ·) found.1, found.2⟩

section

variable {before : List Token} {state : ParseState}
  (read : ParseState.start.read before = .ok state)

include read

/-- Reading stops at the first item that does not fit, whatever comes behind it. -/
theorem Scan.parse_of_misfit {scan : Scan} {item : Item} {after : List Item}
    (split : scan.items = before.map .token ++ item :: after) (misfit : ¬ item.Fits before) :
    scan.parse = .error (item.blame state.expected) := by
  have found := Scan.of_items split
  cases item with
  | token culprit =>
    obtain ⟨rest, tokens⟩ := found
    have stops : state.advance culprit = none := by
      rw [Item.Fits, viable_concat_iff read, Bool.not_eq_true, Option.isSome_eq_false_iff,
        Option.isNone_iff_eq_none] at misfit
      rw [ParseState.advance, misfit]
      rfl
    have failed : ParseState.start.read scan.tokens =
        .error (.unexpected culprit state.expected) := by
      rw [tokens, ParseState.read_append, read]
      simp only [Except.bind, ParseState.read, stops]
    rw [Scan.parse, failed]
    rfl
  | stuck character =>
    simp only [Scan.parse, found.1, read, found.2]
    rfl
  | finish =>
    rw [Item.Fits, derived_iff_between read] at misfit
    have early : state.admits .finish = false := decide_eq_false misfit
    simp only [Scan.parse, found.1, read, found.2, early]
    rfl

end

/-- An error blames the first item that does not fit. -/
theorem Scan.parse_error {scan : Scan} {error : ParseError} (failed : scan.parse = .error error) :
    ∃ before item after state, scan.items = before.map .token ++ item :: after ∧
      ParseState.start.read before = .ok state ∧ ¬ item.Fits before ∧
      error = item.blame state.expected := by
  rw [Scan.parse] at failed
  split at failed
  · rename_i culprit outcome
    -- A token that does not fit is blamed whether or not a character behind it is stuck.
    cases failed
    obtain ⟨before, token, after, state, tokens, read, stops, rfl⟩ := ParseState.read_error outcome
    refine ⟨before, .token token, after.map .token ++ [scan.last], state, ?_, read, ?_, rfl⟩
    · rw [Scan.items, tokens, List.map_append, List.map_cons, List.append_assoc]
      rfl
    · rw [Item.Fits, viable_concat_iff read, stops]
      exact Bool.false_ne_true
  · rename_i state read
    split at failed
    · rename_i character isStuck
      cases failed
      refine ⟨scan.tokens, .stuck character, [], state, ?_, read, id, rfl⟩
      rw [Scan.items, Scan.last, isStuck]
    · rename_i notStuck
      split at failed
      · cases failed
      · rename_i early
        cases failed
        refine ⟨scan.tokens, .finish, [], state, ?_, read, ?_, rfl⟩
        · rw [Scan.items, Scan.last, notStuck]
        · rw [Item.Fits, derived_iff_between read]
          exact fun finished => early (decide_eq_true finished)

/-- The text of the item and its place. The end of a text has neither. -/
def Item.phrase? : Item → Option Phrase
  | .token read => some read.phrase
  | .stuck character => some character
  | .finish => none

/-- The reserved word that the item is. -/
def Item.word? : Item → Option String
  | .token read => read.terminal.word?
  | _ => none

/-- How an item is complained about. -/
def Item.complaint (item : Item) (hint : String) : Complaint :=
  match item.phrase? with
  | some phrase => .confusing ("'" ++ phrase.text ++ "'") phrase hint
  | none => .ranOut hint

/-- The hint for an item where some terminals were expected: what a reserved word in the place of a
name calls for, what names are made of where nothing was expected, and else what was expected. -/
def hintFor (item : Item) (expected : List Terminal) : String :=
  if expected.isEmpty then "Names are made of letters, digits, and underscores."
  else
    match item.word?.filter fun _ => expected.contains .name with
    | some word => "'" ++ word ++ "' is a reserved word, so it cannot name anything."
    | none => expectation expected

/-- What a syntax error says about a text: the tokens before the item that it blames are the beginning
of a sentence, as they are token by token, but not with that item. -/
structure ParseError.Explains (error : ParseError) (text : String) (before : List Token) : Prop where
  stands : ∃ after, (scan text).items = before.map .token ++ error.item :: after
  viable : Viable before
  misfit : ¬ error.item.Fits before
  earlier : ∀ shorter token rest, before = shorter ++ token :: rest →
    (Item.token token).Fits shorter
  expected_iff : (∀ character, error.item ≠ .stuck character) → ∀ token,
    token.terminal ≠ .finish → (token.terminal ∈ error.expected ↔ (Item.token token).Fits before)
  finish_iff : (∀ character, error.item ≠ .stuck character) →
    (.finish ∈ error.expected ↔ Item.finish.Fits before)
  ordered : error.expected.Pairwise fun a b => a.grammarName < b.grammarName
  nothing_iff : error.expected = [] ↔ ∃ character, error.item = .stuck character
  complaint_eq : error.complaint = error.item.complaint (hintFor error.item error.expected)

/-- The error stays what it is whatever comes behind the item that it blames, unless more than that
item is scanned at once then: a longer word, a comment that a stuck slash begins, or anything at the
end of the text. -/
def ParseError.Persists (error : ParseError) (text : String) : Prop :=
  ∃ front lexeme rest, text.toList = front ++ (lexeme ++ rest) ∧
    error.item.Covers front.length lexeme ∧ matchLength (lexeme ++ rest) ≤ lexeme.length ∧
    ∀ other, matchLength (lexeme ++ other) ≤ lexeme.length →
      parse (.ofList (front ++ (lexeme ++ other))) = .error error

@[simp] theorem Item.item_blame (item : Item) (expected : List Terminal) :
    (item.blame expected).item = item := by
  cases item <;> rfl

theorem Item.expected_blame {item : Item} {expected : List Terminal}
    (notStuck : ∀ character, item ≠ .stuck character) : (item.blame expected).expected = expected := by
  cases item with
  | stuck character => exact absurd rfl (notStuck character)
  | token read => rfl
  | finish => rfl

theorem Item.complaint_blame (item : Item) {expected : List Terminal} (wanted : expected ≠ []) :
    (item.blame expected).complaint =
      item.complaint (hintFor item (item.blame expected).expected) := by
  have filled : expected.isEmpty = false := by rwa [← Bool.not_eq_true, List.isEmpty_iff]
  have hinted : (item.blame expected).hint = hintFor item (item.blame expected).expected := by
    cases item with
    | stuck character => rfl
    | finish => simp only [Item.blame, ParseError.expected, ParseError.hint, hintFor, filled,
        Item.word?, Option.filter_none, Bool.false_eq_true, if_false]
    | token read =>
      simp only [Item.blame, ParseError.expected, ParseError.hint, hintFor, filled, Item.word?,
        Bool.false_eq_true, if_false]
      cases read.terminal.word? with
      | none => rfl
      | some word => cases expected.contains .name <;> rfl
  cases item with
  | stuck character => rfl
  | finish => exact congrArg Complaint.ranOut hinted
  | token read => exact congrArg (Complaint.confusing _ _) hinted

theorem Item.explains_blame {text : String} {before : List Token} {item : Item} {after : List Item}
    {state : ParseState} (split : (scan text).items = before.map .token ++ item :: after)
    (read : ParseState.start.read before = .ok state) (misfit : ¬ item.Fits before) :
    (item.blame state.expected).Explains text before := by
  have viable : Viable before := viable_iff_read.mpr ⟨state, read⟩
  have wanted (unstuck : ∀ character, (item.blame state.expected).item ≠ .stuck character) :
      (item.blame state.expected).expected = state.expected :=
    Item.expected_blame fun character => item.item_blame state.expected ▸ unstuck character
  constructor
  · exact ⟨after, by rw [item.item_blame]; exact split⟩
  · exact viable
  · rwa [item.item_blame]
  · rintro shorter token rest rfl
    rw [List.append_cons] at viable
    exact viable.of_append
  · intro unstuck token notEnd
    rw [wanted unstuck]
    exact ParseState.mem_expected_iff_viable read notEnd
  · intro unstuck
    rw [wanted unstuck]
    exact ParseState.finish_mem_expected_iff read
  · cases item with
    | stuck character => exact .nil
    | token culprit => exact state.pairwise_expected
    | finish => exact state.pairwise_expected
  · cases item with
    | stuck character => exact iff_of_true rfl ⟨character, rfl⟩
    | token culprit => exact iff_of_false state.expected_ne_nil nofun
    | finish => exact iff_of_false state.expected_ne_nil nofun
  · rw [item.item_blame]
    exact item.complaint_blame state.expected_ne_nil

theorem Item.persists_blame {text : String} {before : List Token} {item : Item} {after : List Item}
    {state : ParseState} (split : (scan text).items = before.map .token ++ item :: after)
    (read : ParseState.start.read before = .ok state) (misfit : ¬ item.Fits before) :
    (item.blame state.expected).Persists text := by
  obtain ⟨front, lexeme, rest, whole, here, covers, scans⟩ := scanFrom_located split
  rw [Nat.zero_add] at covers
  refine ⟨front, lexeme, rest, whole, ?_, here, fun other fits => ?_⟩
  · rwa [item.item_blame]
  · obtain ⟨others, again⟩ := scans other fits
    have scanned : (scan (.ofList (front ++ (lexeme ++ other)))).items =
        before.map .token ++ item :: others := by
      rw [scan, String.toList_ofList]
      exact again
    exact Scan.parse_of_misfit read scanned misfit

/-- A text is a program and adds no issue, or it adds one issue, which brings the report to its limit
or not. That issue is about the first item that does not fit, names all that would have fit in its
place, and does not depend on what comes behind the item. -/
theorem syntax_errors_located_and_explained (report : Report) (source : Source) :
    (∃ program, parse source.text = .ok program ∧
      (report.parse source).result = some program ∧
      (report.parse source).report.issues = report.issues ∧
      (report.parse source).patience = .kept) ∨
    ∃ error before, parse source.text = .error error ∧
      (report.parse source).result = none ∧
      (report.parse source).report.issues = report.issues ++ [⟨some source, error.complaint⟩] ∧
      ((report.parse source).patience = .lost ↔ report.issues.length + 1 = report.limit) ∧
      error.Explains source.text before ∧ error.Persists source.text := by
  cases outcome : parse source.text with
  | ok program =>
    refine Or.inl ⟨program, rfl, ?_⟩
    rw [Report.parse, outcome]
    exact ⟨rfl, rfl, rfl⟩
  | error error =>
    obtain ⟨before, item, after, state, split, read, misfit, rfl⟩ := Scan.parse_error outcome
    refine Or.inr ⟨_, before, rfl, ?_⟩
    rw [Report.parse, outcome]
    refine ⟨rfl, rfl, ?_, Item.explains_blame split read misfit,
      Item.persists_blame split read misfit⟩
    simp only [Report.complain, Report.at, List.length_append, List.length_singleton]
    split
    · rename_i full
      exact iff_of_true rfl full
    · rename_i room
      exact iff_of_false nofun room

/-- A slash is stuck until a second one makes it the beginning of a comment. -/
example : (parse "/ x").toOption = none ∧ (parse "// x").toOption = some ⟨[]⟩ := by
  decide +kernel

end TraitCoherence
