namespace TraitCoherence

/-- What comes of reading a file. -/
inductive Reading where
  | missing
  | unreadable
  | content (bytes : ByteArray)

/-- Line breaks of all three kinds become the one of a single character. -/
def unifyBreaks : List Char → List Char
  | [] => []
  | '\r' :: '\n' :: rest => '\n' :: unifyBreaks rest
  | '\r' :: rest => '\n' :: unifyBreaks rest
  | c :: rest => c :: unifyBreaks rest

/-- The text of a file, if its bytes are UTF-8. -/
def textOfBytes? (bytes : ByteArray) : Option String :=
  (String.fromUTF8? bytes).map fun text => .ofList (unifyBreaks text.toList)

end TraitCoherence
