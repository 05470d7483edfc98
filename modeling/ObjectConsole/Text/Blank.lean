/-!
Blank characters, and text without its outer blanks. The blanks are the white space of
Unicode together with the four information separators U+001C to U+001F.
-/

namespace ObjectConsole.Text

/-- Blanks: the white-space characters and the information separators. The zero-width
characters U+200B and U+FEFF are not among them. -/
def isBlank (c : Char) : Bool :=
  let n := c.toNat
  (0x09 ≤ n && n ≤ 0x0D) || (0x1C ≤ n && n ≤ 0x20) || n == 0x85 || n == 0xA0 || n == 0x1680
    || (0x2000 ≤ n && n ≤ 0x200A) || n == 0x2028 || n == 0x2029 || n == 0x202F || n == 0x205F
    || n == 0x3000

def trimLeft (s : List Char) : List Char := s.dropWhile isBlank

def trimRight (s : List Char) : List Char := (s.reverse.dropWhile isBlank).reverse

def trim (s : List Char) : List Char := trimRight (trimLeft s)

def isBlankText (s : List Char) : Bool := s.all isBlank

def firstWord (s : List Char) : List Char × List Char :=
  let (word, rest) := (trimLeft s).span fun c => !isBlank c
  (word, trimLeft rest)

/-- ASCII letters in lower case, all other characters as they are. No letter outside ASCII
has a lower-case form in the words that the console compares without case. -/
def lower (s : List Char) : List Char := s.map Char.toLower

end ObjectConsole.Text
