namespace TraitCoherence

/-- The first and last code points of the runs of white space, in order. -/
def blankRuns : List (Nat × Nat) :=
  [(0x9, 0xD), (0x1C, 0x20), (0x85, 0x85), (0xA0, 0xA0), (0x1680, 0x1680), (0x2000, 0x200A),
    (0x2028, 0x2029), (0x202F, 0x202F), (0x205F, 0x205F), (0x3000, 0x3000)]

/-- White space in the sense of the Unicode properties, the information separators included. -/
def isBlank (c : Char) : Bool :=
  blankRuns.any fun (first, last) => first ≤ c.toNat && c.toNat ≤ last

/-- Cuts white space off the end of a line. -/
def trimEnd (line : List Char) : List Char := (line.reverse.dropWhile isBlank).reverse

end TraitCoherence
