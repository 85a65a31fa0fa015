import TraitCoherence.Source

namespace TraitCoherence

/-- A line feed or a carriage return. -/
def isBreakChar (c : Char) : Bool := c == '\n' || c == '\r'

/-- A line break ends at a position: behind a line feed, or behind a carriage return that no line feed
follows. -/
def BreakEnds (text : List Char) : Nat → Prop
  | 0 => False
  | position + 1 =>
    text[position]? = some '\n' ∨ text[position]? = some '\r' ∧ text[position + 1]? ≠ some '\n'

instance (text : List Char) : DecidablePred (BreakEnds text)
  | 0 => inferInstanceAs (Decidable False)
  | position + 1 => inferInstanceAs (Decidable
      (text[position]? = some '\n' ∨ text[position]? = some '\r' ∧ text[position + 1]? ≠ some '\n'))

/-- How many line breaks end at a position or before it. -/
def breaksUpTo (text : List Char) (position : Nat) : Nat :=
  (List.range (position + 1)).countP fun place => BreakEnds text place

theorem breaksUpTo_succ (text : List Char) (position : Nat) :
    breaksUpTo text (position + 1) =
      breaksUpTo text position + if BreakEnds text (position + 1) then 1 else 0 := by
  rw [breaksUpTo, List.range_succ, List.countP_append, List.countP_singleton, ← breaksUpTo]
  simp only [decide_eq_true_eq]

theorem breaksUpTo_cons (c : Char) (rest : List Char) (position : Nat) :
    breaksUpTo (c :: rest) (position + 1) =
      (if BreakEnds (c :: rest) 1 then 1 else 0) + breaksUpTo rest position := by
  induction position with
  | zero => rw [breaksUpTo_succ, Nat.add_comm]; rfl
  | succ position ih =>
    have shifted : BreakEnds (c :: rest) (position + 1 + 1) = BreakEnds rest (position + 1) := rfl
    rw [breaksUpTo_succ, ih, breaksUpTo_succ, Nat.add_assoc]
    simp only [shifted]

theorem breaksUpTo_plain {c : Char} (plain : isBreakChar c = false) (rest : List Char)
    (position : Nat) : breaksUpTo (c :: rest) (position + 1) = breaksUpTo rest position := by
  rw [breaksUpTo_cons, if_neg, Nat.zero_add]
  rintro (feed | ⟨carriage, _⟩)
  · cases feed
    cases plain
  · cases carriage
    cases plain

theorem breaksUpTo_plain_append {body : List Char} (plain : ∀ c ∈ body, isBreakChar c = false)
    (rest : List Char) (position : Nat) :
    breaksUpTo (body ++ rest) (body.length + position) = breaksUpTo rest position := by
  induction body with
  | nil => rw [List.nil_append, List.length_nil, Nat.zero_add]
  | cons c body ih =>
    obtain ⟨here, later⟩ := List.forall_mem_cons.mp plain
    rw [List.cons_append, List.length_cons, Nat.succ_add, breaksUpTo_plain here, ih later]

theorem breaksUpTo_inside {body : List Char} (plain : ∀ c ∈ body, isBreakChar c = false)
    (rest : List Char) {position : Nat} (inside : position ≤ body.length) :
    breaksUpTo (body ++ rest) position = 0 := by
  have front : ∀ c ∈ body.take position, isBreakChar c = false :=
    fun c member => plain c (List.mem_of_mem_take member)
  have length : (body.take position).length = position := List.length_take_of_le inside
  have unbroken := breaksUpTo_plain_append front (body.drop position ++ rest) 0
  rwa [length, Nat.add_zero, ← List.append_assoc, List.take_append_drop] at unbroken

/-- What breaks a line in front of the rest of a text. -/
inductive LineEnding : List Char → List Char → Prop where
  | feed (rest : List Char) : LineEnding ['\n'] rest
  | both (rest : List Char) : LineEnding ['\r', '\n'] rest
  | carriage {rest : List Char} (alone : rest.head? ≠ some '\n') : LineEnding ['\r'] rest

theorem LineEnding.isBreakChar_of_mem {ending rest : List Char} (ends : LineEnding ending rest) :
    ∀ c ∈ ending, isBreakChar c = true := by
  cases ends <;> simp [isBreakChar]

theorem LineEnding.breakEnds {ending rest : List Char} (ends : LineEnding ending rest) :
    BreakEnds (ending ++ rest) ending.length := by
  cases ends with
  | feed => exact Or.inl rfl
  | both => exact Or.inl rfl
  | carriage alone =>
    refine Or.inr ⟨rfl, ?_⟩
    rwa [List.head?_eq_getElem?] at alone

theorem LineEnding.breaksUpTo_append {ending rest : List Char} (ends : LineEnding ending rest)
    (position : Nat) :
    breaksUpTo (ending ++ rest) (position + ending.length) = 1 + breaksUpTo rest position := by
  have single {c : Char} (last : BreakEnds (c :: rest) 1) :
      breaksUpTo (c :: rest) (position + 1) = 1 + breaksUpTo rest position := by
    rw [breaksUpTo_cons, if_pos last]
  have last := ends.breakEnds
  cases ends with
  | feed => exact single last
  | carriage => exact single last
  | both =>
    have together : ¬ BreakEnds ('\r' :: '\n' :: rest) 1 := by
      rintro (feed | ⟨_, alone⟩)
      · cases feed
      · exact alone rfl
    have whole := breaksUpTo_cons '\r' ('\n' :: rest) (position + 1)
    rw [if_neg together, Nat.zero_add, single last] at whole
    exact whole

/-- Before a line break is over, only the line itself has characters that break nothing. -/
theorem LineEnding.lt_of_unbroken {body ending rest : List Char} (ends : LineEnding ending rest)
    {index : Nat} {c : Char} (found : (body ++ (ending ++ rest))[index]? = some c)
    (unbroken : isBreakChar c = false) (here : index < (body ++ ending).length) :
    index < body.length := by
  refine Nat.lt_of_not_le fun outside => ?_
  have short : index - body.length < ending.length := by
    rw [List.length_append] at here
    omega
  rw [List.getElem?_append_right outside, List.getElem?_append_left short] at found
  rw [ends.isBreakChar_of_mem c (List.mem_of_getElem? found)] at unbroken
  cases unbroken

theorem BreakEnds.append {text : List Char} {position : Nat} (ends : BreakEnds text position)
    (front : List Char) : BreakEnds (front ++ text) (front.length + position) := by
  have shifted (place : Nat) : (front ++ text)[front.length + place]? = text[place]? := by
    rw [List.getElem?_append_right (Nat.le_add_right _ _), Nat.add_sub_cancel_left]
  cases position with
  | zero => exact ends.elim
  | succ position =>
    rw [← Nat.add_assoc, BreakEnds, Nat.add_assoc, shifted, shifted]
    exact ends

/-- A text and its lines, each with its line break. Only the last line has none. -/
inductive Lines : List Char → List (List Char) → Prop where
  | last {body : List Char} (plain : ∀ c ∈ body, isBreakChar c = false) : Lines body [body]
  | line {body ending rest : List Char} {lines : List (List Char)}
      (plain : ∀ c ∈ body, isBreakChar c = false) (ends : LineEnding ending rest)
      (others : Lines rest lines) : Lines (body ++ (ending ++ rest)) ((body ++ ending) :: lines)

theorem Lines.ne_nil {text : List Char} {lines : List (List Char)} (split : Lines text lines) :
    lines ≠ [] := by
  cases split <;> exact List.cons_ne_nil _ _

theorem Lines.cons {c : Char} (plain : isBreakChar c = false) {rest first : List Char}
    {others : List (List Char)} (split : Lines rest (first :: others)) :
    Lines (c :: rest) ((c :: first) :: others) := by
  cases split with
  | last plainToo => exact .last (List.forall_mem_cons.mpr ⟨plain, plainToo⟩)
  | @line body ending rest _ plainToo ends split =>
    exact @Lines.line (c :: body) _ _ _ (List.forall_mem_cons.mpr ⟨plain, plainToo⟩) ends split

theorem Lines.emptyLine {ending rest : List Char} {lines : List (List Char)}
    (ends : LineEnding ending rest) (split : Lines rest lines) :
    Lines (ending ++ rest) (ending :: lines) :=
  @Lines.line [] _ _ _ (fun _ member => absurd member List.not_mem_nil) ends split

/-- A text is split at every line break, and nowhere else. -/
theorem lines_linesOf (text : List Char) : Lines text (linesOf text) := by
  have plain {c : Char} (notCarriage : c ≠ '\r') (notFeed : c ≠ '\n') : isBreakChar c = false := by
    simp [isBreakChar, notCarriage, notFeed]
  fun_induction linesOf text with
  | case1 => exact .last fun _ member => absurd member List.not_mem_nil
  | case2 rest ih => exact ih.emptyLine (.both rest)
  | case3 rest other ih =>
    refine ih.emptyLine (.carriage fun feed => ?_)
    obtain ⟨tail, same⟩ := List.head?_eq_some_iff.mp feed
    exact other tail same
  | case4 rest ih => exact ih.emptyLine (.feed rest)
  | case5 c rest _ notCarriage notFeed nothing ih => exact absurd nothing ih.ne_nil
  | case6 c rest _ notCarriage notFeed first others same ih =>
    rw [same] at ih
    exact ih.cons (plain notCarriage notFeed)

/-- The line that a position is in: what comes before the line, the line up to its break, the break if
there is one, and what comes behind. -/
structure LineAround (text : List Char) (index : Nat) (earlier body ending later : List Char) :
    Prop where
  whole : text = earlier ++ (body ++ (ending ++ later))
  begins : earlier = [] ∨ BreakEnds text earlier.length
  plain : ∀ c ∈ body, isBreakChar c = false
  broken : ∀ c ∈ ending, isBreakChar c = true
  ends : (ending ++ later).head?.all isBreakChar = true
  reached : earlier.length ≤ index
  inside : index < earlier.length + body.length

theorem LineAround.behind {front rest : List Char} {index : Nat}
    {earlier body ending later : List Char} (around : LineAround rest index earlier body ending later)
    (broken : BreakEnds (front ++ rest) front.length) :
    LineAround (front ++ rest) (front.length + index) (front ++ earlier) body ending later := by
  obtain ⟨rfl, begins, plain, isBreak, ends, reached, inside⟩ := around
  refine ⟨(List.append_assoc _ _ _).symm, Or.inr ?_, plain, isBreak, ends, ?_, ?_⟩
  · rw [List.length_append]
    rcases begins with rfl | starts
    · exact broken
    · exact starts.append front
  · rw [List.length_append]
    exact Nat.add_le_add_left reached _
  · rw [List.length_append, Nat.add_assoc]
    exact Nat.add_lt_add_left inside _

theorem locate_cons (row : Nat) (line : List Char) {others : List (List Char)} (more : others ≠ [])
    (index : Nat) :
    locate row (line :: others) index =
      if index < line.length then ⟨row, index, line⟩
      else locate (row + 1) others (index - line.length) := by
  cases others with
  | nil => exact absurd rfl more
  | cons => rfl

/-- A character that breaks no line is found in its line, and the row counts the breaks before it. -/
theorem Lines.locate_eq {text : List Char} {lines : List (List Char)} (split : Lines text lines)
    (row : Nat) {index : Nat} {c : Char} (found : text[index]? = some c)
    (unbroken : isBreakChar c = false) :
    ∃ earlier body ending later, LineAround text index earlier body ending later ∧
      locate row lines index =
        ⟨row + breaksUpTo text index, index - earlier.length, body ++ ending⟩ := by
  induction split generalizing row index with
  | @last body plain =>
    have inside : index < body.length := (List.getElem?_eq_some_iff.mp found).1
    have first := breaksUpTo_inside plain [] (Nat.le_of_lt inside)
    rw [List.append_nil] at first
    refine ⟨[], body, [], [], ⟨by simp, Or.inl rfl, plain, by simp, rfl, Nat.zero_le _, ?_⟩, ?_⟩
    · rwa [List.length_nil, Nat.zero_add]
    · rw [first, List.append_nil]
      rfl
  | @line body ending rest lines plain ends others ih =>
    rw [locate_cons row _ others.ne_nil]
    -- Either the position is in the first line, or it lies beyond that line in the rest.
    by_cases here : index < (body ++ ending).length
    · have inside := ends.lt_of_unbroken found unbroken here
      refine ⟨[], body, ending, rest, ⟨rfl, Or.inl rfl, plain, ends.isBreakChar_of_mem, ?_,
        Nat.zero_le _, ?_⟩, ?_⟩
      · cases ends <;> rfl
      · rwa [List.length_nil, Nat.zero_add]
      · rw [if_pos here, breaksUpTo_inside plain _ (Nat.le_of_lt inside)]
        rfl
    · obtain ⟨later, rfl⟩ := Nat.exists_eq_add_of_le (Nat.le_of_not_lt here)
      rw [← List.append_assoc] at found ⊢
      rw [List.getElem?_append_right (Nat.le_add_right _ _), Nat.add_sub_cancel_left] at found
      obtain ⟨earlier, line, stop, behind, around, place⟩ := ih (row + 1) found
      refine ⟨body ++ ending ++ earlier, line, stop, behind, around.behind ?_, ?_⟩
      · rw [List.append_assoc, List.length_append]
        exact ends.breakEnds.append body
      · have rows : breaksUpTo (body ++ ending ++ rest) ((body ++ ending).length + later) =
            1 + breaksUpTo rest later := by
          rw [List.append_assoc, List.length_append, Nat.add_assoc, breaksUpTo_plain_append plain,
            Nat.add_comm, ends.breaksUpTo_append]
        have columns : (body ++ ending).length + later - (body ++ ending ++ earlier).length =
            later - earlier.length := by
          rw [@List.length_append _ (body ++ ending) earlier, Nat.add_sub_add_left]
        rw [if_neg here, Nat.add_sub_cancel_left, place, rows, columns, Nat.add_assoc]

end TraitCoherence
