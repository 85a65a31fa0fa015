import Mathlib.Data.List.Nodup
import TraitCoherence.Proofs.Occurrences

namespace TraitCoherence

/-- Tokens that stand one behind the other from a position on, none of them empty. -/
inductive InRow : Nat → List Token → Prop where
  | nil (start : Nat) : InRow start []
  | cons {start : Nat} {token : Token} {tokens : List Token} (begins : start ≤ token.span.start)
      (nonempty : token.span.start < token.span.stop) (behind : InRow token.span.stop tokens) :
    InRow start (token :: tokens)

theorem InRow.weaken {start position : Nat} {tokens : List Token} (row : InRow position tokens)
    (earlier : start ≤ position) : InRow start tokens := by
  cases row with
  | nil => exact .nil start
  | cons first nonempty behind => exact .cons (Nat.le_trans earlier first) nonempty behind

theorem InRow.start_le {start : Nat} {tokens : List Token} (row : InRow start tokens) :
    ∀ token ∈ tokens, start ≤ token.span.start := by
  induction row with
  | nil => exact fun _ member => absurd member List.not_mem_nil
  | cons first nonempty _ ih =>
    refine List.forall_mem_cons.mpr ⟨first, fun token member => ?_⟩
    exact Nat.le_trans (Nat.le_of_lt (Nat.lt_of_le_of_lt first nonempty)) (ih token member)

theorem InRow.nodup_spans {start : Nat} {tokens : List Token} (row : InRow start tokens) :
    (tokens.map Token.span).Nodup := by
  induction row with
  | nil => exact List.nodup_nil
  | @cons _ token _ _ nonempty behind ih =>
    rw [List.map_cons, List.nodup_cons]
    refine ⟨fun again => ?_, ih⟩
    obtain ⟨other, member, same⟩ := List.mem_map.mp again
    have later := behind.start_le other member
    rw [same] at later
    omega

/-- A scan goes from left to right and never takes a character twice. -/
theorem scanFrom_inRow (start : Nat) (text : List Char) :
    InRow start (scanFrom start text).tokens := by
  fun_induction scanFrom start text with
  | case1 start => exact .nil start
  | case2 start c rest _ ih => exact ih.weaken (Nat.le_add_right _ _)
  | case3 start c rest _ _ word ih =>
    have nonempty : start < start + word.length := Nat.lt_add_of_pos_right (Nat.zero_lt_succ _)
    exact .cons (Nat.le_refl start) nonempty ih
  | case4 start c rest _ _ _ ih =>
    exact ih.weaken (Nat.le_trans (Nat.le_succ start) (Nat.le_add_right _ _))
  | case5 start c rest _ _ _ terminal _ ih =>
    exact .cons (Nat.le_refl start) (Nat.lt_succ_self start) ih
  | case6 start => exact .nil start

/-- The names in a program are the name tokens of its text, told by their places: no place is missing,
none is there twice, and the text has the name there. -/
theorem names_correspond_to_name_tokens (text : String) (program : Program)
    (read : parse text = .ok program) :
    (scan text).stuck = none ∧
      (program.occurrences.map (·.span)).Perm
        (((scan text).tokens.filter (·.terminal = .name)).map fun token => some token.span) ∧
      (program.occurrences.map (·.span)).Nodup ∧
      ∀ name ∈ program.occurrences, ∃ span, name.span = some span ∧ span.cut text = name.text := by
  obtain ⟨whole, derived⟩ := Scan.parse_eq_ok_iff.mp read
  have places : (spelledNames (scan text).tokens).map (·.span) =
      ((scan text).tokens.filter (·.terminal = .name)).map fun token => some token.span := by
    rw [spelledNames, List.map_map]
    rfl
  have matched := (Program.preserves _ _ derived).map (·.span)
  rw [places] at matched
  refine ⟨whole, matched, matched.nodup_iff.mpr ?_, fun name member => ?_⟩
  · have apart : ((scan text).tokens.map Token.span).Nodup := (scanFrom_inRow 0 text.toList).nodup_spans
    have kept : ((scan text).tokens.filter (·.terminal = .name)).Sublist (scan text).tokens :=
      List.filter_sublist
    have placed := ((kept.map Token.span).nodup apart).map fun _ _ => Option.some.inj
    rwa [List.map_map] at placed
  · obtain ⟨token, _, _, rfl, cut⟩ := Program.cut_of_mem_occurrences read member
    exact ⟨token.span, rfl, cut⟩

/-- Names that are written again, and a forbidden trait in front of a demanded one. -/
def repeatedNames : String := "trait T<P: -A<P>>: -A + B \x7b\x7d"

/-- In the program the demanded trait comes first, and every name still has its own place. -/
theorem repeatedNames_in_place :
    ∃ program, parse repeatedNames = .ok program ∧
      program.occurrences.map (·.text) = ["T", "P", "A", "P", "B", "A"] ∧
      (program.occurrences.map (·.span)).Perm [some ⟨6, 7⟩, some ⟨8, 9⟩, some ⟨12, 13⟩,
        some ⟨14, 15⟩, some ⟨20, 21⟩, some ⟨24, 25⟩] ∧
      (program.occurrences.map (·.span)).Nodup ∧
      ∀ name ∈ program.occurrences, ∃ span, name.span = some span ∧
        span.cut repeatedNames = name.text := by
  have read : parse repeatedNames = .ok
      ⟨[.trait ⟨⟨"T", some ⟨6, 7⟩⟩, [⟨⟨"P", some ⟨8, 9⟩⟩,
          some ⟨[], [.apply ⟨"A", some ⟨12, 13⟩⟩ [.apply ⟨"P", some ⟨14, 15⟩⟩ []]]⟩⟩],
        some ⟨[.apply ⟨"B", some ⟨24, 25⟩⟩ []], [.apply ⟨"A", some ⟨20, 21⟩⟩ []]⟩⟩]⟩ := by
    decide +kernel
  have spans : (((scan repeatedNames).tokens.filter (·.terminal = .name)).map
      fun token => some token.span) = [some ⟨6, 7⟩, some ⟨8, 9⟩, some ⟨12, 13⟩, some ⟨14, 15⟩,
        some ⟨20, 21⟩, some ⟨24, 25⟩] := by
    decide +kernel
  obtain ⟨_, matched, apart, cut⟩ := names_correspond_to_name_tokens repeatedNames _ read
  rw [spans] at matched
  exact ⟨_, read, rfl, matched, apart, cut⟩

end TraitCoherence
