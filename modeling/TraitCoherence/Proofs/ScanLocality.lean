import TraitCoherence.Proofs.Spelling

namespace TraitCoherence

/-- What a scan comes to, one after the other: tokens, and then a character that begins none or the
end of the text. -/
inductive Item where
  | token (token : Token)
  | stuck (character : Phrase)
  | finish
deriving DecidableEq, Repr

def Scan.last (scan : Scan) : Item :=
  match scan.stuck with
  | some character => .stuck character
  | none => .finish

def Scan.items (scan : Scan) : List Item := scan.tokens.map .token ++ [scan.last]

/-- How many characters are scanned at once at the front of a text: all of a word, all of a comment,
and otherwise one character. -/
def matchLength : List Char → Nat
  | [] => 0
  | c :: rest =>
    if isWordChar c then 1 + (rest.takeWhile isWordChar).length
    else if c == '/' && rest.head? == some '/' then 1 + (rest.takeWhile inComment).length
    else 1

/-- The item is made of just these characters, which stand at this position. -/
def Item.Covers (position : Nat) (lexeme : List Char) : Item → Prop
  | .token read => read.phrase = ⟨.ofList lexeme, some ⟨position, position + lexeme.length⟩⟩
  | .stuck character => character = ⟨.ofList lexeme, some ⟨position, position + lexeme.length⟩⟩
  | .finish => lexeme = []

/-- After some tokens the item stands in the text. It does so whatever comes behind it, as long as no
more than the characters of the item are scanned at once. -/
def Located (start : Nat) (text : List Char) (before : List Token) (item : Item) : Prop :=
  ∃ front lexeme rest, text = front ++ (lexeme ++ rest) ∧
    matchLength (lexeme ++ rest) ≤ lexeme.length ∧ item.Covers (start + front.length) lexeme ∧
    ∀ other, matchLength (lexeme ++ other) ≤ lexeme.length →
      ∃ after, (scanFrom start (front ++ (lexeme ++ other))).items =
        before.map .token ++ item :: after

/-- Nothing at all is scanned at the end of a text only. -/
theorem eq_nil_of_matchLength {text : List Char} (nothing : matchLength text ≤ 0) : text = [] := by
  cases text with
  | nil => rfl
  | cons c rest =>
    rw [matchLength] at nothing
    split at nothing
    · omega
    · split at nothing <;> omega

theorem matchLength_word_iff {c : Char} {tail other : List Char}
    (letters : ∀ d ∈ c :: tail, isWordChar d = true) :
    matchLength (c :: tail ++ other) ≤ (c :: tail).length ↔ BreaksWord other := by
  obtain ⟨inWord, inTail⟩ := List.forall_mem_cons.mp letters
  rw [List.cons_append, matchLength, if_pos inWord, List.takeWhile_append_of_pos inTail,
    List.length_append, List.length_cons, BreaksWord]
  cases other with
  | nil => simp [Nat.add_comm]
  | cons d other =>
    cases goesOn : isWordChar d with
    | true =>
      simp only [List.takeWhile_cons, goesOn, if_true, List.length_cons, List.head?_cons,
        Option.all_some, Bool.not_true, Bool.false_eq_true, iff_false]
      omega
    | false =>
      simp only [List.takeWhile_cons, goesOn, Bool.false_eq_true, if_false, List.length_nil,
        List.head?_cons, Option.all_some, Bool.not_false, iff_true]
      omega

theorem matchLength_one_iff {c : Char} {other : List Char} (notWord : isWordChar c = false) :
    matchLength (c :: other) ≤ 1 ↔ (c == '/' && other.head? == some '/') = false := by
  rw [matchLength, notWord, if_neg Bool.false_ne_true]
  by_cases isComment : (c == '/' && other.head? == some '/') = true
  · have slash : other.head? = some '/' := by simpa using (Bool.and_eq_true_iff.mp isComment).2
    have body : (other.takeWhile inComment).head? = some '/' := by
      rw [List.head?_takeWhile, slash]
      rfl
    have longer : 0 < (other.takeWhile inComment).length :=
      List.length_pos_iff.mpr fun nothing => by rw [nothing] at body; cases body
    rw [if_pos isComment, isComment]
    refine iff_of_false ?_ (by decide)
    omega
  · rw [if_neg isComment]
    exact iff_of_true (Nat.le_refl 1) (Bool.eq_false_iff.mpr isComment)

/-- What is scanned at once begins with the same character as before. -/
theorem head?_of_matchLength {front lexeme rest other : List Char}
    (here : matchLength (lexeme ++ rest) ≤ lexeme.length)
    (there : matchLength (lexeme ++ other) ≤ lexeme.length) :
    (front ++ (lexeme ++ other)).head? = (front ++ (lexeme ++ rest)).head? := by
  cases front with
  | cons c front => rfl
  | nil =>
    cases lexeme with
    | cons c lexeme => rfl
    | nil => rw [eq_nil_of_matchLength here, eq_nil_of_matchLength there]

theorem Located.here {start : Nat} (lexeme : List Char) {rest : List Char} {item : Item}
    (whole : matchLength (lexeme ++ rest) ≤ lexeme.length) (covers : item.Covers start lexeme)
    (scans : ∀ other, matchLength (lexeme ++ other) ≤ lexeme.length →
      ∃ after, (scanFrom start (lexeme ++ other)).items = item :: after) :
    Located start (lexeme ++ rest) [] item :=
  ⟨[], lexeme, rest, rfl, whole, covers, scans⟩

/-- What stands behind characters that are scanned by themselves is still there with them in front. -/
theorem Located.behind {start : Nat} (taken : List Char) {rest : List Char} (tokens : List Token)
    {before : List Token} {item : Item}
    (step : ∀ tail, tail.head? = rest.head? → (scanFrom start (taken ++ tail)).items =
      tokens.map .token ++ (scanFrom (start + taken.length) tail).items)
    (located : Located (start + taken.length) rest before item) :
    Located start (taken ++ rest) (tokens ++ before) item := by
  obtain ⟨front, lexeme, back, rfl, whole, covers, scans⟩ := located
  refine ⟨taken ++ front, lexeme, back, (List.append_assoc _ _ _).symm, whole, ?_, ?_⟩
  · rwa [List.length_append, ← Nat.add_assoc]
  · intro other fits
    obtain ⟨after, scanned⟩ := scans other fits
    refine ⟨after, ?_⟩
    -- Where a word or a comment ends is decided by the next character, which is the same as before.
    rw [List.append_assoc, step _ (head?_of_matchLength whole fits), scanned, List.map_append,
      List.append_assoc]

theorem scanFrom_comment (start : Nat) {body rest : List Char}
    (inside : ∀ c ∈ body, inComment c = true) (slash : body.head? = some '/')
    (breaks : rest.head?.all (fun c => !inComment c) = true) :
    scanFrom start ('/' :: body ++ rest) = scanFrom (start + ('/' :: body).length) rest := by
  obtain ⟨taken, dropped⟩ := span_append inside breaks
  have head : (body ++ rest).head? = some '/' := by rw [List.head?_append, slash]; rfl
  have notLayout : isLayout '/' = false := rfl
  have notWord : isWordChar '/' = false := rfl
  rw [List.cons_append, scanFrom]
  simp only [notLayout, notWord, head, taken, dropped, Bool.false_eq_true, if_false, beq_self_eq_true,
    Bool.and_self, if_true]
  rw [List.length_cons, Nat.add_right_comm, Nat.add_assoc]

section

variable {start : Nat} {c : Char} {rest : List Char} {before : List Token} {item : Item}

theorem Located.layout (isBlank : isLayout c = true) (located : Located (start + 1) rest before item) :
    Located start (c :: rest) before item := by
  refine Located.behind [c] [] (fun tail _ => ?_) located
  rw [List.singleton_append, scanFrom_layout start tail isBlank]
  rfl

theorem Located.mark {terminal : Terminal} (marked : Terminal.ofMark? c = some terminal)
    (located : Located (start + 1) rest before item) :
    Located start (c :: rest) (.ofMark start c terminal :: before) item := by
  refine Located.behind [c] [.ofMark start c terminal] (fun tail _ => ?_) located
  rw [List.singleton_append, scanFrom_mark start tail marked]
  rfl

theorem Located.word {tail : List Char} (letters : ∀ d ∈ c :: tail, isWordChar d = true)
    (breaks : BreaksWord rest) (located : Located (start + (c :: tail).length) rest before item) :
    Located start (c :: tail ++ rest) (.ofWord start (c :: tail) :: before) item := by
  refine Located.behind (c :: tail) [.ofWord start (c :: tail)] (fun other same => ?_) located
  have breaksToo : BreaksWord other := by rwa [BreaksWord, same]
  rw [scanFrom_word start letters breaksToo]
  rfl

theorem Located.comment {body : List Char} (inside : ∀ d ∈ body, inComment d = true)
    (slash : body.head? = some '/') (breaks : rest.head?.all (fun d => !inComment d) = true)
    (located : Located (start + ('/' :: body).length) rest before item) :
    Located start ('/' :: body ++ rest) before item := by
  refine Located.behind ('/' :: body) [] (fun other same => ?_) located
  rw [scanFrom_comment start inside slash (same ▸ breaks)]
  rfl

end

theorem breaks_dropWhile (p : Char → Bool) (text : List Char) :
    (text.dropWhile p).head?.all (fun c => !p c) = true := by
  have stops := List.head?_dropWhile_not p text
  cases found : (text.dropWhile p).head? with
  | none => rfl
  | some c =>
    rw [found] at stops
    simpa using stops

theorem items_cons_cases {first item : Item} {items after : List Item} {before : List Token}
    (split : first :: items = before.map .token ++ item :: after) :
    (before = [] ∧ first = item) ∨ ∃ token rest, before = token :: rest ∧ first = .token token ∧
      items = rest.map .token ++ item :: after := by
  cases before with
  | nil => exact Or.inl ⟨rfl, (List.cons.inj split).1⟩
  | cons token rest => exact Or.inr ⟨token, rest, rfl, List.cons.inj split⟩

theorem comment_of_slashes {c : Char} {rest : List Char}
    (isComment : (c == '/' && rest.head? == some '/') = true) :
    c = '/' ∧ (rest.takeWhile inComment).head? = some '/' := by
  obtain ⟨isSlash, slash⟩ := Bool.and_eq_true_iff.mp isComment
  refine ⟨beq_iff_eq.mp isSlash, ?_⟩
  rw [List.head?_takeWhile, beq_iff_eq.mp slash]
  rfl

/-- Everything that a scan comes to is located in the text. -/
theorem scanFrom_located {start : Nat} {text : List Char} {before : List Token} {item : Item}
    {after : List Item}
    (split : (scanFrom start text).items = before.map .token ++ item :: after) :
    Located start text before item := by
  fun_induction scanFrom start text generalizing before with
  | case1 start =>
    rcases items_cons_cases split with ⟨rfl, rfl⟩ | ⟨token, rest, _, isToken, _⟩
    · refine Located.here [] (Nat.le_refl 0) rfl fun other fits => ?_
      rw [List.nil_append] at fits
      rw [eq_nil_of_matchLength fits, List.nil_append, scanFrom]
      exact ⟨[], rfl⟩
    · cases isToken
  | case2 start c rest isBlank ih => exact (ih split).layout isBlank
  | case3 start c rest notBlank inWord word =>
    rename_i ih
    have letters : ∀ d ∈ word, isWordChar d = true := isWordChar_of_mem_word inWord
    have breaks : BreaksWord (rest.dropWhile isWordChar) := breaks_dropWhile isWordChar rest
    have whole : c :: rest = word ++ rest.dropWhile isWordChar := by
      rw [List.cons_append, List.takeWhile_append_dropWhile]
    rw [whole]
    -- The item is this word itself, or it comes behind the word.
    rcases items_cons_cases split with ⟨rfl, rfl⟩ | ⟨token, others, rfl, same, later⟩
    · refine Located.here word ((matchLength_word_iff letters).mpr breaks) rfl fun other fits => ?_
      rw [scanFrom_word start letters ((matchLength_word_iff letters).mp fits)]
      exact ⟨_, rfl⟩
    · cases same
      exact (ih later).word letters breaks
  | case4 start c rest notBlank notWord isComment ih =>
    obtain ⟨rfl, head⟩ := comment_of_slashes isComment
    have inside : ∀ d ∈ rest.takeWhile inComment, inComment d = true :=
      List.all_eq_true.mp List.all_takeWhile
    have located := ih split
    rw [Nat.add_right_comm, Nat.add_assoc, ← List.length_cons] at located
    have behind := located.comment inside head (breaks_dropWhile inComment rest)
    rwa [List.cons_append, List.takeWhile_append_dropWhile] at behind
  | case5 start c rest notBlank notWord notComment terminal marked ih =>
    rcases items_cons_cases split with ⟨rfl, rfl⟩ | ⟨token, others, rfl, same, later⟩
    · refine Located.here [c] ?_ rfl fun other fits => ?_
      · exact (matchLength_one_iff (Bool.eq_false_iff.mpr notWord)).mpr
          (Bool.eq_false_iff.mpr notComment)
      · rw [List.singleton_append, scanFrom_mark start other marked]
        exact ⟨_, rfl⟩
    · cases same
      exact (ih later).mark marked
  | case6 start c rest notBlank notWord notComment notMark =>
    rcases items_cons_cases split with ⟨rfl, rfl⟩ | ⟨token, others, _, isToken, _⟩
    · have single := Bool.eq_false_iff.mpr notWord
      refine Located.here [c] ?_ rfl fun other fits => ?_
      · exact (matchLength_one_iff single).mpr (Bool.eq_false_iff.mpr notComment)
      · have noComment : (c == '/' && other.head? == some '/') = false :=
          (matchLength_one_iff single).mp fits
        rw [List.singleton_append, scanFrom, if_neg notBlank, if_neg notWord, noComment,
          if_neg Bool.false_ne_true, notMark]
        exact ⟨[], rfl⟩
    · cases isToken

end TraitCoherence
