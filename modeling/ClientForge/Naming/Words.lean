import ClientForge.Text.Letters
/-!
# Words of a name

A name is divided where the case changes, where digits begin or end, and at every character
that is no ASCII letter or digit. A run of capitals is one word, but its last capital belongs
to the small letters that follow it.
-/

namespace ClientForge
namespace Naming

/-- Whether a character directly before a word belongs to it. -/
def joins (c : Char) : List Char → Bool
  | [] => false
  | d :: rest =>
    (Text.isNumeral c && Text.isNumeral d) || (Text.isLower c && Text.isLower d) ||
      (Text.isUpper c && Text.isLower d) ||
      (Text.isUpper c && Text.isUpper d && rest.all Text.isUpper)

/-- The words of the characters. A word begins right at the next character exactly if that
character is a letter or digit. -/
def wordsOf : List Char → List (List Char)
  | [] => []
  | c :: cs =>
    if Text.isWordChar c then
      match cs.head?.any Text.isWordChar, wordsOf cs with
      | true, word :: rest => if joins c word then (c :: word) :: rest else [c] :: word :: rest
      | _, rest => [c] :: rest
    else wordsOf cs

/-- The words of a name. -/
def splitWords (name : String) : List String :=
  (wordsOf name.toList).map String.ofList

end Naming
end ClientForge
