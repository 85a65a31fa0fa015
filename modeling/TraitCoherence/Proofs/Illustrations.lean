import TraitCoherence.Report
import TraitCoherence.Proofs.LineBreaks
import TraitCoherence.Proofs.Occurrences

namespace TraitCoherence

theorem isBlank_of_isBreakChar {c : Char} (isBreak : isBreakChar c = true) : isBlank c = true := by
  simp only [isBreakChar, Bool.or_eq_true, beq_iff_eq] at isBreak
  rcases isBreak with rfl | rfl <;> rfl

theorem isBreakChar_of_solid {c : Char} (solid : isBlank c = false) : isBreakChar c = false := by
  cases isBreak : isBreakChar c with
  | false => rfl
  | true =>
    rw [isBlank_of_isBreakChar isBreak] at solid
    cases solid

/-- Letters, digits and the underscore come after the blank, and before all other white space. -/
theorem isBlank_of_isWordChar {c : Char} (inWord : isWordChar c = true) : isBlank c = false := by
  have between : 32 < c.toNat ∧ c.toNat < 133 := by
    have ranges : isWordChar c =
        ((decide (c.val ≥ 65 ∧ c.val ≤ 90) || (decide (c.val ≥ 97) && decide (c.val ≤ 122)) ||
          (decide (c.val ≥ 48) && decide (c.val ≤ 57))) || c == '_') := rfl
    rw [ranges] at inWord
    simp only [Bool.or_eq_true, Bool.and_eq_true, decide_eq_true_eq, beq_iff_eq, Char.ext_iff,
      UInt32.le_iff_toNat_le, ← UInt32.toNat_inj, ge_iff_le, Char.reduceVal, UInt32.reduceToNat]
      at inWord
    rw [Char.toNat]
    omega
  have apart : ∀ run ∈ blankRuns, run.2 ≤ 32 ∨ 133 ≤ run.1 := by decide
  refine List.any_eq_false.mpr fun run member inside => ?_
  simp only [Bool.and_eq_true, decide_eq_true_eq] at inside
  have outside := apart run member
  omega

/-- A token is not empty and has no white space in it. -/
theorem solid_of_mem_scanFrom {start : Nat} {text : List Char} {token : Token}
    (member : token ∈ (scanFrom start text).tokens) :
    token.text.toList ≠ [] ∧ ∀ c ∈ token.text.toList, isBlank c = false := by
  rcases mem_scanFrom_cases member with
    ⟨_, word, nonempty, letters, rfl⟩ | ⟨_, mark, terminal, marked, rfl⟩
  · rw [Token.ofWord, String.toList_ofList]
    exact ⟨nonempty, fun c inside => isBlank_of_isWordChar (letters c inside)⟩
  · have marks : ∀ entry ∈ Terminal.punctuation, isBlank entry.1 = false := by decide
    rw [Token.ofMark, String.toList_singleton]
    refine ⟨List.cons_ne_nil _ _, fun c inside => ?_⟩
    rw [List.mem_singleton.mp inside]
    exact marks _ (Terminal.mem_of_ofMark? marked)

/-- Cutting white space off the end goes no further than to the last character that is none. -/
theorem trimEnd_append {stretch : List Char} (nonempty : stretch ≠ [])
    (solid : ∀ c ∈ stretch, isBlank c = false) (front tail : List Char) :
    trimEnd (front ++ (stretch ++ tail)) = front ++ (stretch ++ trimEnd tail) := by
  have kept : (front ++ stretch).reverse.dropWhile isBlank = (front ++ stretch).reverse := by
    rw [← List.dropLast_concat_getLast nonempty, ← List.append_assoc, List.reverse_append]
    refine List.dropWhile_cons_of_neg ?_
    rw [solid _ (List.getLast_mem nonempty)]
    exact Bool.false_ne_true
  rw [← List.append_assoc, trimEnd, List.reverse_append, List.dropWhile_append, kept]
  split
  · rename_i nothing
    rw [trimEnd, List.isEmpty_iff.mp nothing, List.reverse_reverse, List.reverse_nil, List.append_nil]
  · rw [List.reverse_append, List.reverse_reverse, List.append_assoc]
    rfl

theorem trimEnd_append_blank {blanks : List Char} (blank : ∀ c ∈ blanks, isBlank c = true)
    (front : List Char) : trimEnd (front ++ blanks) = trimEnd front := by
  rw [trimEnd, List.reverse_append, List.dropWhile_append_of_pos]
  · rfl
  · exact fun c member => blank c (List.mem_reverse.mp member)

theorem mem_of_mem_trimEnd {line : List Char} {c : Char} (member : c ∈ trimEnd line) : c ∈ line :=
  List.mem_reverse.mp ((List.dropWhile_sublist isBlank).mem (List.mem_reverse.mp member))

theorem isBreakChar_margin (row : Nat) : ∀ c ∈ (margin row).toList, isBreakChar c = false := by
  intro c member
  simp only [margin, String.toList_append, String.toList_ofList, Nat.toList_repr, List.mem_append]
    at member
  rcases member with (padding | blank | digit) | bar
  · rw [(List.mem_replicate.mp padding).2]
    rfl
  · rw [List.mem_singleton.mp blank]
    rfl
  · have isDigit : c.isDigit = true := Nat.isDigit_of_mem_toDigits (by decide) (by decide) digit
    have whole : c.isAlphanum = (c.isAlpha || c.isDigit) := rfl
    refine isBreakChar_of_solid (isBlank_of_isWordChar (isWordChar_iff.mpr (Or.inl ?_)))
    rw [whole, isDigit, Bool.or_true]
  · have either : c = ' ' ∨ c = '|' := by simpa using bar
    rcases either with rfl | rfl <;> rfl

/-- The line that holds a position starts here: behind the last line break that ends by then. -/
structure LineStarts (text : List Char) (position start : Nat) : Prop where
  reached : start ≤ position
  begins : start = 0 ∨ BreakEnds text start
  last : ∀ place, start < place → place ≤ position → ¬ BreakEnds text place

theorem LineAround.lineStarts {text : List Char} {index : Nat}
    {earlier body ending later : List Char} (around : LineAround text index earlier body ending later) :
    LineStarts text index earlier.length := by
  refine ⟨around.reached, around.begins.imp_left fun nothing => by rw [nothing]; rfl, ?_⟩
  intro place after upTo broken
  obtain ⟨offset, rfl⟩ := Nat.exists_eq_add_of_lt after
  have inside : offset < body.length := by
    have below := around.inside
    omega
  have char : text[earlier.length + offset]? = some body[offset] := by
    rw [around.whole, List.getElem?_append_right (Nat.le_add_right _ _), Nat.add_sub_cancel_left,
      List.getElem?_append_left inside, List.getElem?_eq_getElem inside]
  have plain := around.plain _ (List.getElem_mem inside)
  rcases broken with feed | ⟨carriage, _⟩
  · rw [char, Option.some.injEq] at feed
    rw [feed] at plain
    cases plain
  · rw [char, Option.some.injEq] at carriage
    rw [carriage] at plain
    cases plain

/-- What is taken from the front of a text lies in front of any break that it does not have in it. -/
theorem exists_append_of_unbroken {stretch rest body tail : List Char}
    (same : stretch ++ rest = body ++ tail) (unbroken : ∀ c ∈ stretch, isBreakChar c = false)
    (stops : tail.head?.all isBreakChar = true) : ∃ after, body = stretch ++ after := by
  rcases List.append_eq_append_iff.mp same with ⟨after, inBody, _⟩ | ⟨excess, split, rfl⟩
  · exact ⟨after, inBody⟩
  · cases excess with
    | nil => exact ⟨[], by rw [split, List.append_nil, List.append_nil]⟩
    | cons c excess =>
      have plain := unbroken c (by rw [split]; simp)
      have isBreak : isBreakChar c = true := by simpa using stops
      rw [plain] at isBreak
      cases isBreak

/-- A stretch without line breaks lies in one line. -/
theorem LineAround.stretch {front stretch rest : List Char} {earlier body ending later : List Char}
    (around : LineAround (front ++ (stretch ++ rest)) front.length earlier body ending later)
    (unbroken : ∀ c ∈ stretch, isBreakChar c = false) :
    ∃ before after, front = earlier ++ before ∧ body = before ++ (stretch ++ after) := by
  obtain ⟨before, rfl⟩ : ∃ before, front = earlier ++ before := by
    rcases List.append_eq_append_iff.mp around.whole with ⟨excess, split, _⟩ | ⟨before, split, _⟩
    · have reached := around.reached
      rw [split, List.length_append] at reached
      have nothing : excess = [] := List.eq_nil_of_length_eq_zero (by omega)
      exact ⟨[], by rw [split, nothing, List.append_nil, List.append_nil]⟩
    · exact ⟨before, split⟩
  have same : before ++ (stretch ++ rest) = body ++ (ending ++ later) := by
    have whole := around.whole
    rwa [List.append_assoc, List.append_cancel_left_eq] at whole
  have inside : before.length < body.length := by
    have inside := around.inside
    rw [List.length_append] at inside
    omega
  obtain ⟨tail, rfl⟩ : ∃ tail, body = before ++ tail := by
    rcases List.append_eq_append_iff.mp same with ⟨tail, split, _⟩ | ⟨excess, split, _⟩
    · exact ⟨tail, split⟩
    · rw [split, List.length_append] at inside
      omega
  rw [List.append_assoc, List.append_cancel_left_eq] at same
  obtain ⟨after, rfl⟩ := exists_append_of_unbroken same unbroken around.ends
  exact ⟨before, after, rfl, rfl⟩

/-- A stretch without white space is found in its line, at its column. -/
theorem placeOf_stretch {text : String} {front stretch rest : List Char}
    (whole : text.toList = front ++ (stretch ++ rest)) (nonempty : stretch ≠ [])
    (solid : ∀ c ∈ stretch, isBlank c = false) :
    ∃ earlier before after ending, front = earlier ++ before ∧
      LineStarts text.toList front.length earlier.length ∧
      (∀ c ∈ before ++ after, isBreakChar c = false) ∧ (∀ c ∈ ending, isBreakChar c = true) ∧
      placeOf text front.length = ⟨1 + breaksUpTo text.toList front.length, before.length,
        before ++ (stretch ++ (after ++ ending))⟩ := by
  have unbroken : ∀ c ∈ stretch, isBreakChar c = false :=
    fun c member => isBreakChar_of_solid (solid c member)
  have found : text.toList[front.length]? = some (stretch.head nonempty) := by
    rw [whole, List.getElem?_append_right (Nat.le_refl _), Nat.sub_self, ← List.head?_eq_getElem?,
      List.head?_append, List.head?_eq_some_head nonempty, Option.some_or]
  obtain ⟨earlier, body, ending, later, around, located⟩ :=
    (lines_linesOf text.toList).locate_eq 1 found (unbroken _ (List.head_mem nonempty))
  have starts := around.lineStarts
  rw [whole] at around
  obtain ⟨before, after, rfl, rfl⟩ := around.stretch unbroken
  refine ⟨earlier, before, after, ending, rfl, starts, ?_, around.broken, ?_⟩
  · intro c member
    refine around.plain c ?_
    rcases List.mem_append.mp member with inBefore | inAfter
    · exact List.mem_append_left _ inBefore
    · exact List.mem_append_right _ (List.mem_append_right _ inAfter)
  · rw [placeOf, located, List.length_append, Nat.add_sub_cancel_left, List.append_assoc,
      List.append_assoc]

/-- The lower of two lines points at a stretch of the upper one. Up to there it is blank, with a tab for
every tab; then it has a caret for each character of the stretch, a blank, and the caption. -/
structure PointsAt (upper lower : List Char) (column width : Nat) (stretch caption : List Char) :
    Prop where
  shown : (upper.drop column).take width = stretch
  blanks : lower.take column = (upper.take column).map fun c => if c = '\t' then '\t' else ' '
  carets : lower.drop column = List.replicate width '^' ++ ' ' :: caption

theorem pointsAt_append (front stretch rest caption : List Char) :
    PointsAt (front ++ (stretch ++ rest))
      (blankLike front ++ (List.replicate stretch.length '^' ++ ' ' :: caption)) front.length
      stretch.length stretch caption := by
  have width : (blankLike front).length = front.length := List.length_map _
  refine ⟨?_, ?_, ?_⟩
  · rw [List.drop_left, List.take_left]
  · rw [← width, List.take_left, width, List.take_left, blankLike]
    refine List.map_congr_left fun c _ => ?_
    split
    · assumption
    · rfl
  · rw [← width, List.drop_left]

/-- All of a line can be drawn up to the end of a stretch without white space, and the stretch is
marked whole. -/
theorem drawing_toList {stretch : List Char} (nonempty : stretch ≠ [])
    (solid : ∀ c ∈ stretch, isBlank c = false) (row : Nat) (before tail : List Char)
    (caption : String) :
    (drawing ⟨row, before.length, before ++ (stretch ++ tail)⟩ stretch.length caption).toList =
      ((margin row).toList ++ before ++ (stretch ++ trimEnd tail)) ++
        '\n' :: (blankLike ((margin row).toList ++ before) ++
          (List.replicate stretch.length '^' ++ ' ' :: caption.toList)) := by
  have some : 0 < stretch.length := List.length_pos_iff.mpr nonempty
  have carets : max 1 (min stretch.length
      ((before ++ (stretch ++ tail)).length - before.length)) = stretch.length := by
    rw [List.length_append, List.length_append]
    omega
  have feed : "\n".toList = ['\n'] := rfl
  have blank : " ".toList = [' '] := rfl
  simp only [drawing, carets, trimEnd_append nonempty solid, List.take_left, String.toList_append,
    String.toList_ofList, feed, blank, List.append_assoc, List.cons_append, List.nil_append]

/-- A picture of a token in the current source has two lines. The upper one shows the row, which counts
the line breaks before the token, and then the line that the token is in. The lower one points at just
the characters of the token. -/
theorem illustrations_point_at_tokens (report : Report) (source : Source) (token : Token)
    (member : token ∈ (scan source.text).tokens) (said caption : String) :
    let row := 1 + breaksUpTo source.text.toList token.span.start
    ∃ start upper lower, LineStarts source.text.toList token.span.start start ∧
      (placeOf source.text token.span.start).row = row ∧
      ((report.at source).illustrate ⟨said, some token.span⟩ caption).toList = upper ++ '\n' :: lower ∧
      (∀ c ∈ upper, isBreakChar c = false) ∧
      (margin row).toList ++ (source.text.toList.drop start).take (token.span.stop - start) <+: upper ∧
      PointsAt upper lower ((margin row).length + (token.span.start - start))
        (token.span.stop - token.span.start) token.text.toList caption.toList := by
  intro row
  obtain ⟨front, rest, whole, span⟩ := Token.stands member
  obtain ⟨nonempty, solid⟩ := solid_of_mem_scanFrom member
  obtain ⟨earlier, before, after, ending, split, starts, plain, broken, place⟩ :=
    placeOf_stretch whole nonempty solid
  have position : token.span.start = front.length := by rw [span]
  have width : token.span.stop - token.span.start = token.text.toList.length := by
    rw [span, Nat.add_sub_cancel_left]
  have column : token.span.start - earlier.length = before.length := by
    rw [span, split, List.length_append, Nat.add_sub_cancel_left]
  rw [← position] at starts place
  have drawn := drawing_toList nonempty solid row before (after ++ ending) caption
  rw [trimEnd_append_blank fun c inside => isBlank_of_isBreakChar (broken c inside)] at drawn
  have picture : (report.at source).illustrate ⟨said, some token.span⟩ caption = drawing ⟨row,
      before.length, before ++ (token.text.toList ++ (after ++ ending))⟩ token.text.toList.length
      caption := by
    simp only [Report.illustrate, Report.at, illustrate, place, width]
    rfl
  refine ⟨earlier.length, _, _, starts, congrArg Place.row place,
    (congrArg String.toList picture).trans drawn, fun c inside => ?_, ?_, ?_⟩
  · rw [List.append_assoc, List.mem_append, List.mem_append, List.mem_append] at inside
    rcases inside with inMargin | inBefore | inToken | inAfter
    · exact isBreakChar_margin row c inMargin
    · exact plain c (List.mem_append_left _ inBefore)
    · exact isBreakChar_of_solid (solid c inToken)
    · exact plain c (List.mem_append_right _ (mem_of_mem_trimEnd inAfter))
  · have taken : (source.text.toList.drop earlier.length).take (token.span.stop - earlier.length) =
        before ++ token.text.toList := by
      have length : token.span.stop - earlier.length = (before ++ token.text.toList).length := by
        rw [span, split, List.length_append, List.length_append, Nat.add_assoc,
          Nat.add_sub_cancel_left]
      rw [length, whole, split, List.append_assoc, List.drop_left, ← List.append_assoc,
        List.take_left]
    rw [taken, ← List.append_assoc, ← List.append_assoc]
    exact List.prefix_append _ _
  · rw [column, width, ← String.length_toList, ← List.length_append]
    exact pointsAt_append _ _ _ _

/-- Every kind of line break, tabs, and a character beyond ASCII in a comment. -/
def tabbedText : String := "struct A;\r\n// é\r\tstruct\tBee\t;\n"

/-- Each line break counts once, and the tabs before the name stay where they are. -/
theorem tabbedText_pointed_at :
    let bee : Token := ⟨.name, "Bee", ⟨24, 27⟩⟩
    let report := (Report.empty false 3).at ⟨none, tabbedText⟩
    let picture := report.illustrate bee.phrase "here"
    bee ∈ (scan tabbedText).tokens ∧ breaksUpTo tabbedText.toList 24 = 2 ∧
      picture = "     3 |\tstruct\tBee\t;\n        \t      \t^^^ here" ∧
      ∃ start upper lower, LineStarts tabbedText.toList 24 start ∧
        picture.toList = upper ++ '\n' :: lower ∧
        PointsAt upper lower ((margin 3).length + (24 - start)) 3 "Bee".toList "here".toList := by
  intro bee report picture
  have member : bee ∈ (scan tabbedText).tokens := by decide +kernel
  have two : breaksUpTo tabbedText.toList 24 = 2 := by decide +kernel
  obtain ⟨start, upper, lower, starts, _, drawn, _, _, pointed⟩ :=
    illustrations_point_at_tokens (.empty false 3) ⟨none, tabbedText⟩ bee member "Bee" "here"
  rw [two] at pointed
  exact ⟨member, two, by decide +kernel, start, upper, lower, starts, drawn, pointed⟩

end TraitCoherence
