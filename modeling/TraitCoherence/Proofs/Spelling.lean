import TraitCoherence.Declaration.Printing
import TraitCoherence.Parse
import TraitCoherence.Table

namespace TraitCoherence

/-- What a token says, wherever it stands. -/
abbrev Lexeme := Terminal × String

def Token.lexeme (token : Token) : Lexeme := (token.terminal, token.text)

/-- A text that can be read as a name: a word, and not a reserved one. -/
structure IsName (text : String) : Prop where
  nonempty : text ≠ ""
  word : ∀ c ∈ text.toList, c.isAlphanum = true ∨ c = '_'
  unreserved : text ∉ ["struct", "trait", "impl", "for"]

theorem isWordChar_iff {c : Char} : isWordChar c = true ↔ c.isAlphanum = true ∨ c = '_' := by
  rw [isWordChar, Bool.or_eq_true, beq_iff_eq]

instance (text : String) : Decidable (IsName text) :=
  decidable_of_iff
    (text ≠ "" ∧ text.toList.all isWordChar = true ∧ text ∉ ["struct", "trait", "impl", "for"])
    (by
      simp only [List.all_eq_true, isWordChar_iff]
      exact ⟨fun ⟨nonempty, word, unreserved⟩ => ⟨nonempty, word, unreserved⟩,
        fun isName => ⟨isName.nonempty, isName.word, isName.unreserved⟩⟩)

/-- Letters, digits and the underscore come after all layout characters. -/
theorem isLayout_of_isWordChar {c : Char} (inWord : isWordChar c = true) : isLayout c = false := by
  have ranges : isWordChar c =
      ((decide (c.val ≥ 65 ∧ c.val ≤ 90) || (decide (c.val ≥ 97) && decide (c.val ≤ 122)) ||
        (decide (c.val ≥ 48) && decide (c.val ≤ 57))) || c == '_') := rfl
  rw [ranges] at inWord
  simp only [isLayout, Bool.or_eq_true, Bool.and_eq_true, decide_eq_true_eq, beq_iff_eq,
    Bool.or_eq_false_iff, Bool.and_eq_false_iff, beq_eq_false_iff_ne, decide_eq_false_iff_not, ne_eq,
    Char.ext_iff, Char.le_def, UInt32.le_iff_toNat_le, ← UInt32.toNat_inj, ge_iff_le,
    Char.reduceVal, UInt32.reduceToNat] at inWord ⊢
  omega

theorem Terminal.mem_of_ofMark? {c : Char} {terminal : Terminal}
    (marked : Terminal.ofMark? c = some terminal) : (c, terminal) ∈ Terminal.punctuation := by
  obtain ⟨before, after, same, _⟩ := List.lookup_eq_some_iff.mp marked
  rw [same]
  exact List.mem_append_right _ List.mem_cons_self

/-- A punctuation mark starts neither layout nor a word nor a comment. -/
theorem Terminal.ofMark?_apart {c : Char} {terminal : Terminal}
    (marked : Terminal.ofMark? c = some terminal) :
    isLayout c = false ∧ isWordChar c = false ∧ (c == '/') = false := by
  have apart : ∀ entry ∈ Terminal.punctuation,
      isLayout entry.1 = false ∧ isWordChar entry.1 = false ∧ (entry.1 == '/') = false := by decide
  exact apart _ (Terminal.mem_of_ofMark? marked)

theorem Terminal.ofMark?_ne_name {c : Char} {terminal : Terminal}
    (marked : Terminal.ofMark? c = some terminal) : terminal ≠ .name := by
  have other : ∀ entry ∈ Terminal.punctuation, entry.2 ≠ .name := by decide
  exact other _ (Terminal.mem_of_ofMark? marked)

theorem Terminal.ofWord_eq_name_iff {word : String} :
    Terminal.ofWord word = .name ↔ word ∉ ["struct", "trait", "impl", "for"] := by
  simp only [Terminal.ofWord, Terminal.reserved, lookup_cons_eq_ite, List.lookup_nil, List.mem_cons,
    List.not_mem_nil, or_false, not_or]
  by_cases isFor : word = "for"
  · simp [isFor]
  by_cases isImpl : word = "impl"
  · simp [isImpl]
  by_cases isStruct : word = "struct"
  · simp [isStruct]
  by_cases isTrait : word = "trait"
  · simp [isTrait]
  simp [isFor, isImpl, isStruct, isTrait]

theorem isWordChar_of_mem_word {c : Char} {rest : List Char} (inWord : isWordChar c = true) :
    ∀ x ∈ c :: rest.takeWhile isWordChar, isWordChar x = true :=
  List.forall_mem_cons.mpr ⟨inWord, List.all_eq_true.mp List.all_takeWhile⟩

/-- A token is a word, or a punctuation mark. -/
theorem mem_scanFrom_cases {start : Nat} {text : List Char} {token : Token}
    (member : token ∈ (scanFrom start text).tokens) :
    (∃ position word, word ≠ [] ∧ (∀ c ∈ word, isWordChar c = true) ∧ token = .ofWord position word) ∨
      ∃ position mark terminal, Terminal.ofMark? mark = some terminal ∧
        token = .ofMark position mark terminal := by
  fun_induction scanFrom start text with
  | case1 => exact absurd member List.not_mem_nil
  | case2 _ _ _ _ ih => exact ih member
  | case3 start c rest _ inWord word ih =>
    rcases List.mem_cons.mp member with rfl | later
    · exact Or.inl ⟨start, word, List.cons_ne_nil _ _, isWordChar_of_mem_word inWord, rfl⟩
    · exact ih later
  | case4 _ _ _ _ _ _ ih => exact ih member
  | case5 start c _ _ _ _ terminal marked ih =>
    rcases List.mem_cons.mp member with rfl | later
    · exact Or.inr ⟨start, c, terminal, marked, rfl⟩
    · exact ih later
  | case6 => exact absurd member List.not_mem_nil

/-- Whatever is scanned as a name can be read as one. -/
theorem isName_of_mem_scanFrom {start : Nat} {text : List Char} {token : Token}
    (member : token ∈ (scanFrom start text).tokens) (isName : token.terminal = .name) :
    IsName token.text := by
  rcases mem_scanFrom_cases member with
    ⟨_, word, nonempty, letters, rfl⟩ | ⟨_, mark, terminal, marked, rfl⟩
  · have said : (String.ofList word).toList = word := String.toList_ofList
    refine ⟨fun empty => nonempty ?_, fun c inside => ?_, Terminal.ofWord_eq_name_iff.mp isName⟩
    · rw [← said, show String.ofList word = "" from empty, String.toList_empty]
    · exact isWordChar_iff.mp (letters c (said ▸ inside))
  · exact absurd isName (Terminal.ofMark?_ne_name marked)

/-- No word goes on into the text. -/
def BreaksWord (text : List Char) : Prop := text.head?.all (fun c => !isWordChar c) = true

theorem BreaksWord.append {first second : List Char} (left : BreaksWord first)
    (right : BreaksWord second) : BreaksWord (first ++ second) := by
  cases first with
  | nil => exact right
  | cons c first => exact left

/-- What is taken as long as possible ends where the text goes on otherwise. -/
theorem span_append {p : Char → Bool} {taken rest : List Char} (inside : ∀ c ∈ taken, p c = true)
    (breaks : rest.head?.all (fun c => !p c) = true) :
    (taken ++ rest).takeWhile p = taken ∧ (taken ++ rest).dropWhile p = rest := by
  rw [List.takeWhile_append_of_pos inside, List.dropWhile_append_of_pos inside]
  cases rest with
  | nil => exact ⟨List.append_nil taken, rfl⟩
  | cons d rest =>
    have stops : p d = false := by simpa using breaks
    rw [List.takeWhile_cons, List.dropWhile_cons, stops, if_neg Bool.false_ne_true,
      if_neg Bool.false_ne_true, List.append_nil]
    exact ⟨rfl, rfl⟩

section

variable (start : Nat) {c : Char} (rest : List Char)

theorem scanFrom_layout (isBlank : isLayout c = true) :
    scanFrom start (c :: rest) = scanFrom (start + 1) rest := by
  rw [scanFrom, if_pos isBlank]

theorem scanFrom_mark {terminal : Terminal} (marked : Terminal.ofMark? c = some terminal) :
    scanFrom start (c :: rest) = .cons (.ofMark start c terminal) (scanFrom (start + 1) rest) := by
  obtain ⟨notLayout, notWord, notSlash⟩ := Terminal.ofMark?_apart marked
  simp only [scanFrom, notLayout, notWord, notSlash, marked, Bool.false_and, Bool.false_eq_true,
    if_false]

theorem scanFrom_word {tail : List Char} (letters : ∀ d ∈ c :: tail, isWordChar d = true)
    {rest : List Char} (breaks : BreaksWord rest) :
    scanFrom start (c :: tail ++ rest) =
      .cons (.ofWord start (c :: tail)) (scanFrom (start + (c :: tail).length) rest) := by
  obtain ⟨inWord, inTail⟩ := List.forall_mem_cons.mp letters
  obtain ⟨taken, dropped⟩ := span_append inTail breaks
  rw [List.cons_append, scanFrom]
  simp only [isLayout_of_isWordChar inWord, inWord, Bool.false_eq_true, if_false, if_true, taken,
    dropped]

end

/-- The text scans to its end, and its tokens say this. -/
def Spells (text : List Char) (lexemes : List Lexeme) : Prop :=
  ∀ start, ∃ tokens, scanFrom start text = ⟨tokens, none⟩ ∧ tokens.map Token.lexeme = lexemes

theorem Spells.nil : Spells [] [] := by
  intro start
  exact ⟨[], by rw [scanFrom], rfl⟩

theorem Spells.layout {c : Char} {rest : List Char} {lexemes : List Lexeme}
    (isBlank : isLayout c = true) (spells : Spells rest lexemes) : Spells (c :: rest) lexemes := by
  intro start
  obtain ⟨tokens, scanned, said⟩ := spells (start + 1)
  exact ⟨tokens, by rw [scanFrom_layout start rest isBlank, scanned], said⟩

theorem Spells.mark {c : Char} {terminal : Terminal} {rest : List Char} {lexemes : List Lexeme}
    (marked : Terminal.ofMark? c = some terminal) (spells : Spells rest lexemes) :
    Spells (c :: rest) ((terminal, .singleton c) :: lexemes) := by
  intro start
  obtain ⟨tokens, scanned, said⟩ := spells (start + 1)
  refine ⟨.ofMark start c terminal :: tokens, ?_, ?_⟩
  · rw [scanFrom_mark start rest marked, scanned]
    rfl
  · rw [List.map_cons, said]
    rfl

theorem Spells.word (word : List Char) {rest : List Char} {lexemes : List Lexeme} (nonempty : word ≠ [])
    (letters : word.all isWordChar = true) (breaks : BreaksWord rest)
    (spells : Spells rest lexemes) :
    Spells (word ++ rest) ((.ofWord (.ofList word), .ofList word) :: lexemes) := by
  intro start
  obtain ⟨c, tail, rfl⟩ := List.exists_cons_of_ne_nil nonempty
  obtain ⟨tokens, scanned, said⟩ := spells (start + (c :: tail).length)
  refine ⟨.ofWord start (c :: tail) :: tokens, ?_, ?_⟩
  · rw [scanFrom_word start (List.all_eq_true.mp letters) breaks, scanned]
    rfl
  · rw [List.map_cons, said]
    rfl

/-- In front of anything that no word goes on into, the text adds these lexemes. -/
def Spelled (text : String) (lexemes : List Lexeme) : Prop :=
  ∀ rest others, BreaksWord rest → Spells rest others →
    Spells (text.toList ++ rest) (lexemes ++ others)

/-- In front of anything at all, the text adds these lexemes. -/
def SpelledApart (text : String) (lexemes : List Lexeme) : Prop :=
  ∀ rest others, Spells rest others → Spells (text.toList ++ rest) (lexemes ++ others)

theorem Spelled.append {first second : String} {lexemes others : List Lexeme}
    (before : Spelled first lexemes) (after : Spelled second others)
    (breaks : BreaksWord second.toList) : Spelled (first ++ second) (lexemes ++ others) := by
  intro rest more breaksToo spells
  rw [String.toList_append, List.append_assoc, List.append_assoc]
  exact before _ _ (breaks.append breaksToo) (after rest more breaksToo spells)

theorem SpelledApart.append {first second : String} {lexemes others : List Lexeme}
    (before : SpelledApart first lexemes) (after : Spelled second others) :
    Spelled (first ++ second) (lexemes ++ others) := by
  intro rest more breaks spells
  rw [String.toList_append, List.append_assoc, List.append_assoc]
  exact before _ _ (after rest more breaks spells)

theorem Spelled.empty : Spelled "" [] := fun _ _ _ spells => spells

/-- An empty text says nothing. -/
theorem Spelled.eq_nil {lexemes : List Lexeme} (spelled : Spelled "" lexemes) : lexemes = [] := by
  obtain ⟨tokens, scanned, said⟩ := spelled [] [] rfl .nil 0
  have nothing : tokens = [] := by
    have same := congrArg Scan.tokens scanned
    rw [String.toList_empty, List.append_nil, scanFrom] at same
    exact same.symm
  rw [nothing, List.map_nil, List.append_nil] at said
  exact said.symm

theorem IsName.spelled {text : String} (isName : IsName text) : Spelled text [(.name, text)] := by
  intro rest others breaks spells
  have nonempty : text.toList ≠ [] := fun empty =>
    isName.nonempty (String.toList_inj.mp (empty.trans String.toList_empty.symm))
  have letters : text.toList.all isWordChar = true :=
    List.all_eq_true.mpr fun c inside => isWordChar_iff.mpr (isName.word c inside)
  have whole := Spells.word text.toList nonempty letters breaks spells
  rw [String.ofList_toList, Terminal.ofWord_eq_name_iff.mpr isName.unreserved] at whole
  exact whole

end TraitCoherence
