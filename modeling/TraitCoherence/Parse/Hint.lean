import TraitCoherence.Parse

namespace TraitCoherence

/-- What was wanted, followed by the advice for the first wanted terminal that has some. -/
def expectation (expected : List Terminal) : String :=
  let wanted := "Expected " ++ " or ".intercalate (expected.map Terminal.describe) ++ "."
  match expected.findSome? Terminal.advice? with
  | some advice => wanted ++ " " ++ advice
  | none => wanted

/-- A remark that may help to mend the text. -/
def ParseError.hint : ParseError → String
  | .stuck _ => "Names are made of letters, digits, and underscores."
  | .ranOut expected => expectation expected
  | .unexpected token expected =>
    match token.terminal.word? with
    | some word =>
      if expected.contains .name then
        "'" ++ word ++ "' is a reserved word, so it cannot name anything."
      else expectation expected
    | none => expectation expected

end TraitCoherence
