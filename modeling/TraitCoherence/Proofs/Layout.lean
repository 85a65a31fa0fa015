import Mathlib.Control.Monad.Basic
import TraitCoherence.Proofs.Lookalikes

namespace TraitCoherence

/-- A run of whitespace and comments. A comment lasts up to a line break, and `last` says whether
there may be one that lasts up to the end of the run. -/
inductive Blank (last : Prop) : List Char → Prop
  | nil : Blank last []
  | layout {c : Char} {rest : List Char} :
      isLayout c = true → Blank last rest → Blank last (c :: rest)
  | comment {body rest : List Char} {c : Char} :
      (∀ d ∈ body, inComment d = true) → inComment c = false → Blank last (c :: rest) →
      Blank last ('/' :: ('/' :: body) ++ c :: rest)
  | lastComment {body : List Char} :
      last → (∀ d ∈ body, inComment d = true) → Blank last ('/' :: '/' :: body)

theorem forall_inComment_slash {body : List Char} (inside : ∀ d ∈ body, inComment d = true) :
    ∀ d ∈ '/' :: body, inComment d = true :=
  List.forall_mem_cons.mpr ⟨rfl, inside⟩

/-- The scanner passes over a blank run. -/
theorem Blank.scanFrom_append {run after : List Char} (blank : Blank (after = []) run) (start : Nat) :
    scanFrom start (run ++ after) = scanFrom (start + run.length) after := by
  induction blank generalizing start with
  | nil => rfl
  | @layout c rest isBlank _ ih =>
    rw [List.cons_append, scanFrom_layout start _ isBlank, ih, List.length_cons, Nat.add_right_comm,
      Nat.add_assoc]
  | @comment body rest c inside breaks _ ih =>
    have stops : (c :: rest ++ after).head?.all (fun d => !inComment d) = true := by
      simp [breaks]
    rw [List.append_assoc, scanFrom_comment start (forall_inComment_slash inside) rfl stops, ih,
      List.length_append, Nat.add_assoc]
  | @lastComment body atEnd inside =>
    rw [atEnd]
    exact scanFrom_comment start (forall_inComment_slash inside) rfl rfl

theorem Blank.breaksWord {last : Prop} {run : List Char} (blank : Blank last run) :
    BreaksWord run := by
  cases blank with
  | nil => rfl
  | @layout c rest isBlank =>
    cases inWord : isWordChar c with
    | true =>
      rw [isLayout_of_isWordChar inWord] at isBlank
      cases isBlank
    | false => simp [BreaksWord, inWord]
  | comment => rfl
  | lastComment => rfl

theorem Scan.content_cons (token : Token) (scan : Scan) :
    (Scan.cons token scan).content = (token.lexeme :: scan.content.1, scan.content.2) := rfl

/-- Where a scan starts makes no difference to what it says. -/
theorem scanFrom_content (start other : Nat) (text : List Char) :
    (scanFrom other text).content = (scanFrom start text).content := by
  fun_induction scanFrom start text generalizing other with
  | case1 start => rw [scanFrom]
  | case2 start c rest isBlank ih => rw [scanFrom, if_pos isBlank, ih]
  | case3 start c rest notBlank inWord word ih =>
    rw [scanFrom, if_neg notBlank, if_pos inWord, Scan.content_cons, ih, Scan.content_cons]
    rfl
  | case4 start c rest notBlank notWord isComment ih =>
    rw [scanFrom, if_neg notBlank, if_neg notWord, if_pos isComment, ih]
  | case5 start c rest notBlank notWord notComment terminal marked ih =>
    rw [scanFrom, if_neg notBlank, if_neg notWord, if_neg notComment, marked]
    simp only [Scan.content_cons, ih]
    rfl
  | case6 start c rest notBlank notWord notComment unmarked =>
    rw [scanFrom, if_neg notBlank, if_neg notWord, if_neg notComment, unmarked]
    rfl

/-- Whether a token is a word: a name or a keyword. -/
def Token.isWord (token : Token) : Bool := token.text.toList.all isWordChar

/-- Puts tokens in front. -/
def Scan.after (tokens : List Token) (scan : Scan) : Scan := ⟨tokens ++ scan.tokens, scan.stuck⟩

theorem Scan.content_after (tokens : List Token) (scan : Scan) :
    (scan.after tokens).content = (tokens.map Token.lexeme ++ scan.content.1, scan.content.2) := by
  rw [Scan.content, Scan.after, List.map_append]
  rfl

/-- The text up to the end of the token is scanned for itself, and so is whatever comes behind it, as
long as it does not go on with a word that the token is. -/
def Ends (start : Nat) (text : List Char) (token : Token) : Prop :=
  ∃ before rest tokens, before ≠ [] ∧ text = before ++ rest ∧
    token.span.stop = start + before.length ∧ (token.isWord = true → BreaksWord rest) ∧
    ∀ other, (token.isWord = true → BreaksWord other) →
      scanFrom start (before ++ other) = (scanFrom (start + before.length) other).after tokens

/-- A token ends where it did with characters in front that are scanned by themselves. -/
theorem Ends.behind {start : Nat} (taken : List Char) {rest : List Char} (tokens : List Token)
    {token : Token}
    (step : ∀ tail, tail.head? = rest.head? →
      scanFrom start (taken ++ tail) = (scanFrom (start + taken.length) tail).after tokens)
    (ends : Ends (start + taken.length) rest token) : Ends start (taken ++ rest) token := by
  obtain ⟨before, back, others, nonempty, rfl, stop, breaks, scans⟩ := ends
  refine ⟨taken ++ before, back, tokens ++ others, by simp [nonempty],
    (List.append_assoc _ _ _).symm, by rw [stop, List.length_append, Nat.add_assoc], breaks, ?_⟩
  intro other breaksToo
  have sameHead : (before ++ other).head? = (before ++ back).head? := by
    cases before with
    | nil => exact absurd rfl nonempty
    | cons c before => rfl
  rw [List.append_assoc, step _ sameHead, scans other breaksToo, List.length_append, Nat.add_assoc]
  simp only [Scan.after, List.append_assoc]

theorem Token.isWord_ofWord (start : Nat) {word : List Char}
    (letters : ∀ c ∈ word, isWordChar c = true) : (Token.ofWord start word).isWord = true := by
  simpa [Token.isWord, Token.ofWord] using letters

theorem Token.isWord_ofMark (start : Nat) {c : Char} (terminal : Terminal)
    (notWord : isWordChar c = false) : (Token.ofMark start c terminal).isWord = false := by
  simpa [Token.isWord, Token.ofMark] using notWord

/-- Every token of a text ends in it. -/
theorem scanFrom_ends {start : Nat} {text : List Char} {token : Token}
    (member : token ∈ (scanFrom start text).tokens) : Ends start text token := by
  fun_induction scanFrom start text with
  | case1 start => cases member
  | case2 start c rest isBlank ih =>
    refine Ends.behind [c] [] (fun tail _ => ?_) (ih member)
    exact scanFrom_layout start tail isBlank
  | case3 start c rest notBlank inWord word ih =>
    have letters : ∀ d ∈ word, isWordChar d = true := isWordChar_of_mem_word inWord
    have breaks : BreaksWord (rest.dropWhile isWordChar) := breaks_dropWhile isWordChar rest
    have whole : c :: rest = word ++ rest.dropWhile isWordChar := by
      rw [List.cons_append, List.takeWhile_append_dropWhile]
    have step (tail : List Char) (breaksToo : BreaksWord tail) := scanFrom_word start letters breaksToo
    rw [whole]
    rcases List.mem_cons.mp member with rfl | later
    · exact ⟨word, _, [.ofWord start word], List.cons_ne_nil _ _, rfl, rfl, fun _ => breaks,
        fun other breaksToo => step other (breaksToo (Token.isWord_ofWord start letters))⟩
    · exact (ih later).behind word [.ofWord start word] fun tail same =>
        step tail (by rwa [BreaksWord, same])
  | case4 start c rest notBlank notWord isComment ih =>
    obtain ⟨rfl, head⟩ := comment_of_slashes isComment
    have inside : ∀ d ∈ rest.takeWhile inComment, inComment d = true :=
      List.all_eq_true.mp List.all_takeWhile
    have whole : '/' :: rest = '/' :: rest.takeWhile inComment ++ rest.dropWhile inComment := by
      rw [List.cons_append, List.takeWhile_append_dropWhile]
    have ends := ih member
    rw [Nat.add_right_comm, Nat.add_assoc, ← List.length_cons] at ends
    rw [whole]
    exact ends.behind _ [] fun tail same =>
      scanFrom_comment start inside head (same ▸ breaks_dropWhile inComment rest)
  | case5 start c rest notBlank notWord notComment terminal marked ih =>
    have notWord : isWordChar c = false := Bool.eq_false_iff.mpr notWord
    have step (tail : List Char) := scanFrom_mark start tail marked
    rcases List.mem_cons.mp member with rfl | later
    · refine ⟨[c], rest, [.ofMark start c terminal], List.cons_ne_nil _ _, rfl, rfl, ?_,
        fun other _ => step other⟩
      intro isWord
      rw [Token.isWord_ofMark start terminal notWord] at isWord
      cases isWord
    · exact (ih later).behind [c] [.ofMark start c terminal] fun tail _ => step tail
  | case6 start c rest notBlank notWord notComment unmarked => cases member

/-- A text cuts off a word in front of it, unless it begins with a word itself. -/
theorem breaksWord_or_exists_word (start : Nat) (text : List Char) :
    BreaksWord text ∨
      ∃ token ∈ (scanFrom start text).tokens, token.isWord = true ∧ token.span.start = start := by
  cases text with
  | nil => exact Or.inl rfl
  | cons c rest =>
    cases inWord : isWordChar c with
    | false => exact Or.inl (by simp [BreaksWord, inWord])
    | true =>
      have letters : ∀ d ∈ c :: rest.takeWhile isWordChar, isWordChar d = true :=
        isWordChar_of_mem_word inWord
      have breaks : BreaksWord (rest.dropWhile isWordChar) := breaks_dropWhile isWordChar rest
      have scanned := scanFrom_word start letters breaks
      rw [List.cons_append, List.takeWhile_append_dropWhile] at scanned
      refine Or.inr ⟨.ofWord start (c :: rest.takeWhile isWordChar), ?_,
        Token.isWord_ofWord start letters, rfl⟩
      rw [scanned]
      exact List.mem_cons_self

/-- A run of whitespace and comments that stands in a text, at its start or right behind a token. -/
structure Gap (before run after : String) : Prop where
  blank : Blank (after = "") run.toList
  behind : before = "" ∨
    ∃ token ∈ (scan (before ++ run ++ after)).tokens, token.span.stop = before.length

/-- Another run can stand in place of the one in a text. Between two words it may not be empty. -/
structure Fills (other before run after : String) : Prop where
  blank : Blank (after = "") other.toList
  apart : ∀ left ∈ (scan (before ++ run ++ after)).tokens,
    ∀ right ∈ (scan (before ++ run ++ after)).tokens, left.isWord = true → right.isWord = true →
      left.span.stop = before.length → right.span.start = (before ++ run).length → other ≠ ""

/-- Behind a word, what is filled in cuts off the word. If a word comes next, the two were told apart
before, and the run is not empty now. -/
theorem Fills.breaksWord {before run after other : String} (fills : Fills other before run after)
    {token : Token} (member : token ∈ (scan (before ++ run ++ after)).tokens)
    (isWord : token.isWord = true) (stop : token.span.stop = before.length)
    (later : ∀ right ∈ (scanFrom (before ++ run).length after.toList).tokens,
      right ∈ (scan (before ++ run ++ after)).tokens) :
    BreaksWord (other.toList ++ after.toList) := by
  have parted := fills.blank.breaksWord
  rcases breaksWord_or_exists_word (before ++ run).length after.toList with
    here | ⟨right, found, rightIsWord, begins⟩
  · exact parted.append here
  · have filled := fills.apart token member right (later right found) isWord rightIsWord stop begins
    cases shape : other.toList with
    | nil => exact absurd (String.toList_eq_nil_iff.mp shape) filled
    | cons c rest =>
      rw [shape] at parted
      exact parted

theorem Gap.content_eq {before run after other : String} (gap : Gap before run after)
    (fills : Fills other before run after) :
    (scan (before ++ other ++ after)).content = (scan (before ++ run ++ after)).content := by
  have atEnd : (after = "") = (after.toList = []) := by simp
  have blank := gap.blank
  have blankToo := fills.blank
  rw [atEnd] at blank blankToo
  simp only [scan, String.toList_append, List.append_assoc]
  rcases gap.behind with rfl | ⟨token, member, stop⟩
  · simp only [String.toList_empty, List.nil_append, blank.scanFrom_append, blankToo.scanFrom_append]
    exact scanFrom_content _ _ _
  · obtain ⟨front, rest, tokens, _, whole, sameStop, breaks, scans⟩ := scanFrom_ends member
    simp only [String.toList_append, List.append_assoc] at whole
    have sameLength : before.toList.length = front.length := by
      rw [String.length_toList]
      omega
    obtain ⟨rfl, rfl⟩ := List.append_inj whole sameLength
    have scanned := scans _ breaks
    have reached : 0 + before.toList.length + run.toList.length = (before ++ run).length := by
      rw [← String.length_toList, String.toList_append, List.length_append, Nat.zero_add]
    rw [blank.scanFrom_append, reached] at scanned
    have later (right : Token) (found : right ∈ (scanFrom (before ++ run).length after.toList).tokens) :
        right ∈ (scan (before ++ run ++ after)).tokens := by
      simp only [scan, String.toList_append, List.append_assoc, scanned]
      exact List.mem_append_right _ found
    have breaksToo (isWord : token.isWord = true) := fills.breaksWord member isWord stop later
    rw [scanned, scans _ breaksToo, blankToo.scanFrom_append, Scan.content_after, Scan.content_after,
      scanFrom_content]

/-- How a program is laid out does not matter. Whitespace and comments between two tokens can be
replaced by others, and the text is still scanned as the same lexemes, or up to the same character
that begins none. Texts that are scanned alike are read as programs that differ in places only, or
fail with the same error at a token that says the same. -/
theorem layout_changes_places_only :
    (∀ before run after other : String, Gap before run after → Fills other before run after →
      (scan (before ++ other ++ after)).content = (scan (before ++ run ++ after)).content) ∧
    ∀ text other : String, (scan other).content = (scan text).content →
      unplacedReading (parse other) = unplacedReading (parse text) :=
  ⟨fun _ _ _ _ gap fills => gap.content_eq fills, fun _ _ same => Scan.parse_of_same same⟩

/-- A comment with its line break, in place of the blank in `struct A;`. -/
theorem struct_relaid :
    let lexemes : List Lexeme := [(.structWord, "struct"), (.name, "A"), (.semicolon, ";")]
    let program : Program := ⟨[.struct ⟨.placeless "A", []⟩]⟩
    (scan ("struct" ++ " " ++ "A;")).content = (lexemes, none) ∧
      (scan ("struct" ++ "//x\n" ++ "A;")).content = (lexemes, none) ∧
      unplacedReading (parse "struct A;") = .ok program ∧
      unplacedReading (parse "struct//x\nA;") = .ok program := by
  intro lexemes program
  have gap : Gap "struct" " " "A;" := ⟨.layout rfl .nil, Or.inr (by decide +kernel)⟩
  have comment : Blank ("A;" = "") ('/' :: ('/' :: ['x']) ++ '\n' :: []) :=
    .comment (List.forall_mem_singleton.mpr rfl) rfl (.layout rfl .nil)
  have fills : Fills "//x\n" "struct" " " "A;" := ⟨comment, by decide +kernel⟩
  have scanned : (scan ("struct" ++ " " ++ "A;")).content = (lexemes, none) := by decide +kernel
  have read : unplacedReading (parse "struct A;") = .ok program := by decide +kernel
  have same := layout_changes_places_only.1 _ _ _ _ gap fills
  have sameReading := layout_changes_places_only.2 "struct A;" "struct//x\nA;" same
  exact ⟨scanned, same.trans scanned, read, sameReading.trans read⟩

end TraitCoherence
