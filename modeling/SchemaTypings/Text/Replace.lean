namespace SchemaTypings.Text

/-- Puts `new` in the place of every `a b`, from left to right. What has been put in is not
searched again. -/
def replacePair (a b : Char) (new : List Char) : List Char → List Char
  | x :: y :: r =>
    if x = a ∧ y = b then new ++ replacePair a b new r else x :: replacePair a b new (y :: r)
  | r => r

end SchemaTypings.Text
