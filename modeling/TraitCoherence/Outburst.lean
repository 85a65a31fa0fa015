namespace TraitCoherence

def particles : List String := ["Oh, ", "Well, ", "Aw, ", "", ""]

def mincedOaths : List String :=
  ["Ack", "Blargh", "Confound it", "Crud", "Curses", "Drat", "Fiddlesticks", "Good Grief",
    "Great Scott", "Heavens", "Jeepers", "Nuts", "Rats", "Snot", "Woe is me"]

def resignations : List String :=
  ["I cannot tell which impls overlap.", "No verdicts this time.", "The impls will have to wait.",
    "Coherence is out of reach.", "I need to ask for help."]

/-- A supply of choices: the `n`-th number decides the `n`-th choice. -/
abbrev Choices := Nat → Int

/-- The word that a number picks from a list, counting round and round. -/
def pick (words : List String) (choice : Int) : String :=
  words.getD (choice % words.length).toNat ""

/-- An exclamation, by three choices from the `n`-th on. -/
def outburst (choices : Choices) (n : Nat) : String :=
  pick particles (choices n) ++ pick mincedOaths (choices (n + 1)) ++ "! " ++
    pick resignations (choices (n + 2))

end TraitCoherence
