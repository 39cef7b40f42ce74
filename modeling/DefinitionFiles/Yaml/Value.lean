import DefinitionFiles.Numeral.Real
import DefinitionFiles.Text.Base64
import DefinitionFiles.Yaml.Node
import DefinitionFiles.Yaml.Timestamp

/-!
# Values of scalars

A tag says what a scalar means. Without one, a plain scalar means what its text looks like, and any
other scalar is a text.
-/

namespace DefinitionFiles.Yaml

/-- What a scalar means. -/
inductive Value where
  /-- No value at all. -/
  | null
  | flag (b : Bool)
  | integer (n : Int)
  /-- A floating-point number with 64 bits. -/
  | real (bits : Nat)
  | text (t : Bytes)
  deriving DecidableEq, Repr

/-- Whether a text is one of some words. -/
def isOneOf (words : List String) (text : Bytes) : Bool :=
  words.any fun word => text = utf8 word

/-! ## Plain scalars -/

/-- The value that a word stands for. -/
def wordValue? (text : Bytes) : Option Value :=
  let infinity := FloatFormat.double.infinity
  if isOneOf ["", "~", "null", "Null", "NULL"] text then some .null
  else if isOneOf ["true", "True", "TRUE"] text then some (.flag true)
  else if isOneOf ["false", "False", "FALSE"] text then some (.flag false)
  else if isOneOf [".nan", ".NaN", ".NAN"] text then some (.real FloatFormat.double.nan)
  else if isOneOf [".inf", ".Inf", ".INF", "+.inf", "+.Inf", "+.INF"] text then
    some (.real infinity)
  else if isOneOf ["-.inf", "-.Inf", "-.INF"] text then
    some (.real (FloatFormat.double.withSign true infinity))
  else none

/-- Whether a text is a decimal number, possibly with a fraction and an exponent. -/
def isDecimal (text : Bytes) : Bool :=
  let unsigned := match text with
    | b :: rest => if b = 0x2B || b = 0x2D then rest else text
    | [] => []
  let whole := unsigned.takeWhile Bytes.isDigit
  let rest := unsigned.drop whole.length
  let (hasDigits, rest) := match rest with
    | 0x2E :: rest =>
        let digits := rest.takeWhile Bytes.isDigit
        (whole != [] || digits != [], rest.drop digits.length)
    | _ => (whole != [], rest)
  hasDigits && match rest with
    | [] => true
    | e :: rest =>
        let digits := match rest with
          | b :: more => if b = 0x2B || b = 0x2D then more else rest
          | [] => []
        (e = 0x65 || e = 0x45) && digits != [] && digits.all Bytes.isDigit

/-- The integer of up to 64 bits that a numeral stands for. A sign may also follow the marks of
binary and octal numerals. -/
def integer? (text : Bytes) : Option Int :=
  let signedIn := fun (base : Nat) (mark : String) => do
    let digits ← Bytes.after? (utf8 mark) text
    (Numeral.signed 64 (Numeral.naturalIn base) digits).toOption
  (Numeral.integer 64 text).toOption <|>
    (Numeral.natural (1 <<< 64 - 1) text).toOption.map Int.ofNat <|>
    signedIn 2 "0b" <|> signedIn 8 "0o"

/-- The number that a floating-point numeral stands for. -/
def real? (text : Bytes) : Option Value :=
  (Numeral.real .double text).toOption.map .real

/-- The number that a numeral stands for. -/
def number? (text : Bytes) : Option Value :=
  match integer? text with
  | some n => some (.integer n)
  | none => if isDecimal text then real? text else none

/-- The value of a plain scalar. In numbers that start with a digit or a sign, underscores do not
count. -/
def plainValue (text : Bytes) : Value :=
  match wordValue? text, text with
  | some value, _ => value
  | none, [] => .null
  | none, b :: _ =>
      if b = 0x2E then (real? text).getD (.text text)
      else if Bytes.isDigit b || b = 0x2B || b = 0x2D then
        (number? (text.filter (· != 0x5F))).getD (.text text)
      else .text text

/-! ## Tagged scalars -/

/-- The value of a text with the given short tag. A tag for values of a certain kind fails on any
other text; an integer also counts as a real number. A tag that means nothing here leaves the text
as it is. -/
def taggedValue? (tag text : Bytes) : Option Value :=
  if tag = utf8 "!!binary" then (Base64.decode? text).map .text
  else if tag = utf8 "!!timestamp" then
    if Timestamp.isValid text then some (.text text) else none
  else if tag = utf8 "!!null" then
    match plainValue text with
    | .null => some .null
    | _ => none
  else if tag = utf8 "!!bool" then
    match plainValue text with
    | .flag b => some (.flag b)
    | _ => none
  else if tag = utf8 "!!int" then
    match plainValue text with
    | .integer n => some (.integer n)
    | _ => none
  else if tag = utf8 "!!float" then
    match plainValue text with
    | .real bits => some (.real bits)
    | .integer n => if n < (1 <<< 63 : Nat) then (FloatFormat.double.ofInt? n).map .real else none
    | _ => none
  else some (.text text)

/-- What a scalar means, if its text fits its tag. -/
def Scalar.value? (s : Scalar) : Option Value :=
  match s.tag? with
  | some tag => taggedValue? tag s.text
  | none => some (if s.plain then plainValue s.text else .text s.text)

end DefinitionFiles.Yaml
