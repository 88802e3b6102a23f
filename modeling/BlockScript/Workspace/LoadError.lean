/-! # What can go wrong with a saved workspace -/

namespace BlockScript

inductive LoadError where
  /-- The text is not XML. -/
  | xml
  /-- The text is not JSON. -/
  | json
  | missingAttribute (element attr : String)
  | malformed (reason : String)
deriving DecidableEq, Repr

namespace LoadError

def message : LoadError → String
  | xml => "invalid workspace XML"
  | json => "invalid workspace JSON"
  | missingAttribute element attr =>
      "<" ++ element ++ "> is missing required attribute '" ++ attr ++ "'"
  | malformed reason => "malformed workspace: " ++ reason

end LoadError

end BlockScript
