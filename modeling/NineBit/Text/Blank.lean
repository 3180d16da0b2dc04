import NineBit.Text.Character

/-!
# Trimming, splitting and lines

Text is cut at blanks (`trim`, `fields`), at a separator (`before`, `partition`, `parts`) and at
line ends (`lines`, which knows every line end of Unicode, and `newlines`, which knows the newline
alone).
-/

namespace NineBit.Text

/-- The text without the blanks at both ends. -/
def trim (text : String) : String :=
  String.ofList ((text.toList.dropWhile isBlank).reverse.dropWhile isBlank).reverse

/-- Cuts a list at every element of a class; the pieces between two cuts are kept, empty or not. -/
def pieces {α : Type} (cut : α → Bool) : List α → List (List α)
  | [] => [[]]
  | c :: rest =>
    if cut c then [] :: pieces cut rest
    else
      match pieces cut rest with
      | [] => [[c]]
      | piece :: more => (c :: piece) :: more

/-- The maximal runs of characters that are no blanks. -/
def fields (text : String) : List String :=
  ((pieces isBlank text.toList).filter fun piece => !piece.isEmpty).map String.ofList

/-- The text up to the first occurrence of a character. -/
def before (mark : Char) (text : String) : String :=
  String.ofList (text.toList.takeWhile (· != mark))

/-- The text up to the first occurrence of a character, and what follows it. -/
def partition (mark : Char) (text : String) : String × String :=
  (String.ofList (text.toList.takeWhile (· != mark)),
   String.ofList ((text.toList.dropWhile (· != mark)).drop 1))

/-- The text cut at every place of a character. -/
def parts (mark : Char) (text : String) : List String :=
  (pieces (· == mark) text.toList).map String.ofList

/-- The text cut at its newline characters. -/
def newlines (text : String) : List String :=
  (pieces (· == '\n') text.toList).map String.ofList

/-- A character that ends a line by itself. -/
def isLineEnd (c : Char) : Bool :=
  let n := c.toNat
  (decide (0x0a ≤ n) && decide (n ≤ 0x0d)) || (decide (0x1c ≤ n) && decide (n ≤ 0x1e)) ||
    n == 0x85 || n == 0x2028 || n == 0x2029

/-- Makes every line end that is a carriage return, alone or before a newline, a newline. -/
def unifyNewlines : List Char → List Char
  | '\r' :: '\n' :: rest => '\n' :: unifyNewlines rest
  | '\r' :: rest => '\n' :: unifyNewlines rest
  | c :: rest => c :: unifyNewlines rest
  | [] => []

/-- The lines of a text: a line end closes the line before it, so that a final one opens no
    further line. -/
def lines (text : String) : List String :=
  let cut := pieces isLineEnd (unifyNewlines text.toList)
  (if cut.getLast? == some [] then cut.dropLast else cut).map String.ofList

theorem pieces_ne_nil {α : Type} (cut : α → Bool) (text : List α) : pieces cut text ≠ [] := by
  cases text with
  | nil => simp [pieces]
  | cons c rest =>
    unfold pieces
    split
    · simp
    · split <;> simp

end NineBit.Text
