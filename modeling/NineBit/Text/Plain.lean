/-!
# Plain text

A control sequence of a terminal starts with an escape character and a left bracket, goes on with
digits, semicolons and question marks, and ends with a letter. Plain text is what remains without
such sequences.
-/

namespace NineBit.Text

/-- The start of a control sequence. -/
def escapeMark : Char := Char.ofNat 0x1b

/-- A character in the middle of a control sequence. -/
def isParameter (c : Char) : Bool := c.isDigit || c == ';' || c == '?'

/-- What follows a control sequence, given what follows its left bracket; nothing if it is none. -/
def afterSequence? : List Char → Option (List Char)
  | [] => none
  | c :: rest =>
    if isParameter c then afterSequence? rest
    else if c.isAlpha then some rest
    else none

theorem length_of_afterSequence? {chars rest : List Char} (h : afterSequence? chars = some rest) :
    rest.length < chars.length := by
  induction chars with
  | nil => cases h
  | cons c tail ih =>
    simp only [afterSequence?] at h
    split at h
    · exact Nat.lt_succ_of_lt (ih h)
    · split at h
      · cases h
        exact Nat.lt_succ_self _
      · cases h

/-- Characters without the control sequences among them. -/
def withoutSequences (chars : List Char) : List Char :=
  match chars with
  | [] => []
  | [c] => [c]
  | c :: d :: rest =>
    if c == escapeMark && d == '[' then
      match _h : afterSequence? rest with
      | some after => withoutSequences after
      | none => c :: withoutSequences (d :: rest)
    else c :: withoutSequences (d :: rest)
  termination_by chars.length
  decreasing_by
    · have := length_of_afterSequence? _h
      simp only [List.length_cons]
      omega
    · simp
    · simp

/-- A text without control sequences. -/
def plain (text : String) : String := String.ofList (withoutSequences text.toList)

end NineBit.Text
