/-
# Patterns

Texts made safe for the pattern languages of the stores: a text that is escaped for a language
matches only itself there.
-/
namespace Listing.Text

/-- Put a backslash in front of every character that satisfies `special`. -/
def escapeWith (special : Char → Bool) (s : String) : String :=
  String.ofList (s.toList.flatMap fun c => if special c then ['\\', c] else [c])

/-- A text for LIKE with the backslash as escape character. -/
def escapeLike (s : String) : String := escapeWith (fun c => c == '\\' || c == '%' || c == '_') s

/-- A character with a meaning of its own in a regular expression. -/
def isRegexMark (c : Char) : Bool :=
  ['\\', '.', '+', '*', '?', '(', ')', '|', '[', ']', '{', '}', '^', '$'].contains c

/-- A text for a regular expression. -/
def escapeRegex (s : String) : String := escapeWith isRegexMark s

/-- A text for a wildcard query. -/
def escapeWildcard (s : String) : String :=
  escapeWith (fun c => c == '\\' || c == '*' || c == '?') s

/-- A text for GLOB, where a character stands for itself in a class of its own. -/
def escapeGlob (s : String) : String :=
  String.ofList (s.toList.flatMap fun c =>
    if c == '*' || c == '?' || c == '[' then ['[', c, ']'] else [c])

end Listing.Text
