import NineBit.Host
import NineBit.Path
import NineBit.Text.Numeral
import NineBit.Text.Utf8

/-!
# Program images

An image is the words of a program as a file. The hexadecimal form is a text of one word a line
with remarks after a number sign; the binary form is two bytes a word, the lower one first. A word
may be any integer as far as the hexadecimal form goes; the binary form takes sixteen bits.
-/

namespace NineBit

/-- The forms of an image file. -/
inductive ImageFormat where
  | hex | bin
  deriving Repr, DecidableEq

/-- Why an image cannot be read or written. -/
inductive ImageError where
  | noFormat (path : String)
  | unknownFormat (format : String)
  | invalidWord (line : Nat) (content : String)
  | wideWord
  | oddLength (bytes : Nat)
  | unreadable (path why : String)
  deriving Repr, DecidableEq

/-- The wording of an image error. -/
def ImageError.message : ImageError → String
  | .noFormat path => s!"cannot infer image format from '{path}', use .hex or .bin"
  | .unknownFormat format => s!"unknown image format '{format}'"
  | .invalidWord line content => s!"line {line}: invalid hex word '{content}'"
  | .wideWord =>
    "word does not fit the binary image format: ushort format requires 0 <= number <= 65535"
  | .oddLength bytes => s!"binary image has odd length {bytes}"
  | .unreadable path why => s!"cannot read image '{path}': {why}"

namespace ImageFormat

/-- The name of a form, which is also the suffix of its files. -/
def name : ImageFormat → String
  | hex => "hex"
  | bin => "bin"

/-- The form of a name. -/
def ofName? (text : String) : Option ImageFormat :=
  if text = "hex" then some hex else if text = "bin" then some bin else none

/-- The form that the suffix of a path tells, in upper or lower case. -/
def ofPath? (path : Path) : Option ImageFormat :=
  ofName? (String.ofList ((path.suffix.toList.map Char.toLower).dropWhile (· == '.')))

/-- The form that the suffix of a path tells; `shown` is the path as messages show it. -/
def infer (path : Path) (shown : String) : Except ImageError ImageFormat :=
  match ofPath? path with
  | some format => .ok format
  | none => .error (.noFormat shown)

end ImageFormat

namespace Image

/-- The hexadecimal form: a remark on the number of words, then one word a line. -/
def encodeHex (words : List Int) (bits : Int) : String :=
  let digits := words.map (Text.writeInt 16 (Text.hexWidth bits))
  "\n".intercalate (s!"# s9b image, {words.length} words" :: digits) ++ "\n"

/-- The hexadecimal form for a width that nobody has checked. -/
def encodeHexUnchecked (words : List Int) (bits : Int) : Except Text.NegativePlaces String :=
  (Text.checkPlaces bits words).map fun _ => encodeHex words bits

/-- Reads the lines of the hexadecimal form from a line number on. -/
def decodeHexLines (number : Nat) (words : List Int) :
    List String → Except ImageError (List Int)
  | [] => .ok words.reverse
  | line :: rest =>
    let content := Text.trim (Text.before '#' line)
    if content.isEmpty then decodeHexLines (number + 1) words rest
    else
      match Text.readInt? .hexadecimal content with
      | some word => decodeHexLines (number + 1) (word :: words) rest
      | none => .error (.invalidWord number content)

/-- Reads the hexadecimal form. -/
def decodeHex (text : String) : Except ImageError (List Int) :=
  decodeHexLines 1 [] (Text.lines text)

/-- The two bytes of a word, if it has sixteen bits. -/
def wordBytes (word : Int) : Except ImageError (List UInt8) :=
  if 0 ≤ word ∧ word ≤ 65535 then
    .ok [UInt8.ofNat (word.toNat % 256), UInt8.ofNat (word.toNat / 256)]
  else .error .wideWord

/-- The binary form. -/
def encodeBin (words : List Int) : Except ImageError (List UInt8) :=
  (words.mapM wordBytes).map List.flatten

/-- The words of pairs of bytes. -/
def pairWords : List UInt8 → List Int
  | lower :: higher :: rest => ((lower.toNat + 256 * higher.toNat : Nat) : Int) :: pairWords rest
  | _ => []

/-- Reads the binary form. -/
def decodeBin (bytes : List UInt8) : Except ImageError (List Int) :=
  if bytes.length % 2 = 0 then .ok (pairWords bytes) else .error (.oddLength bytes.length)

/-- The bytes of an image in a form. -/
def encode (format : ImageFormat) (words : List Int) (bits : Int) :
    Except ImageError (List UInt8) :=
  match format with
  | .hex => .ok (encodeHex words bits).toUTF8.toList
  | .bin => encodeBin words

/-- What writing an image asks of a host: the fields of its words. -/
def demands (format : ImageFormat) (words : List Int) (bits : Int) : List Demand :=
  if format = .hex ∧ words ≠ [] then [.field (Text.hexWidth bits)] else []

/-- The form that a request names, else the one that the path tells. -/
def chooseFormat (request : Option String) (path : Path) (shown : String) :
    Except ImageError ImageFormat :=
  match request.filter (!·.isEmpty) with
  | none => ImageFormat.infer path shown
  | some name =>
    match ImageFormat.ofName? name with
    | some format => .ok format
    | none => .error (.unknownFormat name)

end Image

end NineBit
