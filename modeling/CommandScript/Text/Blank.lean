/-!
# Blanks, and text cut at them

A blank is a character with the White_Space property. `trim` removes the
blanks at both ends of a text, `fields` lists its maximal runs without
blanks, and `lines` cuts it at line feeds. The work is done on lists of
characters; the functions on `String` wrap it.
-/

namespace CommandScript.Text

/-- The characters with the White_Space property. -/
def isBlank (c : Char) : Bool :=
  let n := c.toNat
  (9 ≤ n && n ≤ 13) || n == 0x20 || n == 0x85 || n == 0xA0 || n == 0x1680 ||
    (0x2000 ≤ n && n ≤ 0x200A) || n == 0x2028 || n == 0x2029 || n == 0x202F ||
    n == 0x205F || n == 0x3000

/-! ## Trimming -/

def trimLeftChars (cs : List Char) : List Char :=
  cs.dropWhile isBlank

def trimRightChars (cs : List Char) : List Char :=
  (cs.reverse.dropWhile isBlank).reverse

def trimChars (cs : List Char) : List Char :=
  trimRightChars (trimLeftChars cs)

/-- The text without the blanks at its ends. -/
def trim (s : String) : String :=
  .ofList (trimChars s.toList)

/-- The text without the blanks at its end. -/
def trimRight (s : String) : String :=
  .ofList (trimRightChars s.toList)

/-! ## Cutting -/

def fieldChars : List Char → List (List Char)
  | [] => []
  | c :: cs =>
    if isBlank c then fieldChars cs
    else
      match cs, fieldChars cs with
      | d :: _, f :: fs => if isBlank d then [c] :: f :: fs else (c :: f) :: fs
      | _, fs => [c] :: fs

/-- The maximal runs of characters that are not blank. -/
def fields (s : String) : List String :=
  (fieldChars s.toList).map .ofList

/-- The first field of a text, if it has one. -/
def leading? (s : String) : Option String :=
  (fields s).head?

/-- The text before the first character with property `p` and the text behind
that character; the whole text and the empty text if there is none. -/
def cutAt (p : Char → Bool) (s : String) : String × String :=
  (.ofList (s.toList.takeWhile (!p ·)), .ofList ((s.toList.dropWhile (!p ·)).drop 1))

/-- What follows `front` in a text that starts with it. -/
def after? (front : String) (s : String) : Option String :=
  if front.toList.isPrefixOf s.toList then some (.ofList (s.toList.drop front.toList.length))
  else none

def lineChars : List Char → List (List Char)
  | [] => []
  | '\n' :: cs => [] :: lineChars cs
  | '\r' :: '\n' :: cs => [] :: lineChars cs
  | c :: cs =>
    match lineChars cs with
    | [] => [[c]]
    | l :: ls => (c :: l) :: ls

/-- The lines of a text. A line ends with a line feed, before which one
carriage return is dropped; nothing follows the last line feed unless some
character does. -/
def lines (s : String) : List String :=
  (lineChars s.toList).map .ofList

/-! ## Byte offsets -/

/-- The number of bytes a list of characters takes in UTF-8. -/
def byteLength : List Char → Nat
  | [] => 0
  | c :: cs => c.utf8Size + byteLength cs

/-- The characters from byte offset `n` on. -/
def dropBytes : Nat → List Char → List Char
  | 0, cs => cs
  | _ + 1, [] => []
  | n + 1, c :: cs => dropBytes (n + 1 - c.utf8Size) cs

/-- The characters before byte offset `n`. -/
def takeBytes : Nat → List Char → List Char
  | 0, _ => []
  | _ + 1, [] => []
  | n + 1, c :: cs => c :: takeBytes (n + 1 - c.utf8Size) cs

/-- The characters between two byte offsets. -/
def slice (start stop : Nat) (cs : List Char) : List Char :=
  takeBytes (stop - start) (dropBytes start cs)

end CommandScript.Text
