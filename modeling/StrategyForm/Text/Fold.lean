/-!
# Words in any letter case

A text matches a word of lower-case ASCII letters when it is that word after each character is
folded to lower case. Two kinds of characters fold to an ASCII letter: the ASCII capitals, and the
Kelvin sign, which folds to `k`. Every other fold leaves a character that no such word has, so those
are kept as they are.
-/

namespace StrategyForm.Text

/-- The lower case of a character whose lower case is a single ASCII character. -/
def foldChar (c : Char) : Char := if c = '\u212A' then 'k' else c.toLower

/-- The text in lower case, as far as ASCII words can tell. -/
def fold (s : String) : String := String.ofList (s.toList.map foldChar)

end StrategyForm.Text
