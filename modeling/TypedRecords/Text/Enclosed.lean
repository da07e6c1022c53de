/-!
# Enclosed lists

Texts side by side, with a comma and a space between two of them, in brackets or in braces.
-/

namespace TypedRecords.Text

/-- Texts in brackets. -/
def bracketed (items : List String) : String := "[" ++ ", ".intercalate items ++ "]"

/-- Texts in braces. -/
def braced (items : List String) : String := "\x7b" ++ ", ".intercalate items ++ "\x7d"

end TypedRecords.Text
