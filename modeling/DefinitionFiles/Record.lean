import DefinitionFiles.Numeral.Real
import DefinitionFiles.Section
import DefinitionFiles.Text.Blank
import DefinitionFiles.Text.CaseFolding

/-!
# Records

A section can be read into a record whose fields have types. Each field names the key it takes its
value from; keys are compared without regard to letter case. Fields are filled in order until the
first one that fails, and a field is filled completely or not at all.
-/

namespace DefinitionFiles

/-- The type of a record field. -/
inductive FieldType where
  | text
  | flag
  | int (bits : Nat)
  | nat (bits : Nat)
  | real (format : FloatFormat)
  | list (element : FieldType)
  | box (content : FieldType)
  /-- A type that cannot be filled, known by its name. -/
  | other (name : Bytes)
  deriving DecidableEq, Repr

/-- The value of a record field. -/
inductive FieldValue where
  | text (value : Bytes)
  | flag (value : Bool)
  | int (value : Int)
  | nat (value : Nat)
  | real (format : FloatFormat) (bits : Nat)
  | list (elements : List FieldValue)
  | box (content : FieldValue)
  /-- A list or a box that was never filled. -/
  | absent
  /-- The value of a field whose type cannot be filled. -/
  | unset
  deriving Repr

/-- The value a field has before it is filled. -/
def FieldType.zero : FieldType → FieldValue
  | .text => .text []
  | .flag => .flag false
  | .int _ => .int 0
  | .nat _ => .nat 0
  | .real f => .real f 0
  | .list _ => .absent
  | .box _ => .absent
  | .other _ => .unset

/-- Why a text is not the value of a field type. -/
inductive ConversionError where
  | int (text : Bytes) (cause : NumeralError)
  | nat (text : Bytes) (cause : NumeralError)
  | real (text : Bytes) (cause : NumeralError)
  | flag (text : Bytes)
  | element (index : Nat) (cause : ConversionError)
  | unsupported (type : Bytes)
  deriving DecidableEq, Repr

/-- The wording of a conversion error. -/
def ConversionError.message : ConversionError → Bytes
  | .int text cause => utf8 "cannot parse as int: " ++ cause.message "ParseInt" text
  | .nat text cause => utf8 "cannot parse as uint: " ++ cause.message "ParseUint" text
  | .real text cause => utf8 "cannot parse as float: " ++ cause.message "ParseFloat" text
  | .flag text => utf8 "invalid bool value: " ++ text
  | .element index cause =>
      utf8 "index " ++ Bytes.decimal index ++ utf8 ": " ++ cause.message
  | .unsupported type => utf8 "unsupported field type: " ++ type

namespace FieldValue

/-- Reads a truth value. -/
def flag? (source : Bytes) : Option Bool :=
  let word := lower source
  if ["true", "yes", "1", "on"].any fun w => utf8 w = word then some true
  else if ["false", "no", "0", "off"].any fun w => utf8 w = word then some false
  else none

/-- Whether `b` separates the elements of a list: a comma, a space or a tab. -/
def isSeparator (b : UInt8) : Bool :=
  b = 0x2C || b = 0x20 || b = 0x09

/-- The elements of a list: the longest runs without separators. -/
def elements (source : Bytes) : List Bytes :=
  let step (b : UInt8) (words : List Bytes) : List Bytes :=
    if isSeparator b then [] :: words
    else match words with
      | word :: rest => (b :: word) :: rest
      | [] => [[b]]
  (source.foldr step [[]]).filter (· != [])

/-- Converts every element of a list, or tells the first that fails. -/
def convertAll (convert : Bytes → Except ConversionError FieldValue) :
    (index : Nat) → List Bytes → Except ConversionError (List FieldValue)
  | _, [] => .ok []
  | index, source :: rest =>
      match convert source with
      | .error e => .error (.element index e)
      | .ok value => (convertAll convert (index + 1) rest).map (value :: ·)

/-- Converts a text to a value of the given type. -/
def convert : FieldType → Bytes → Except ConversionError FieldValue
  | .text, source => .ok (.text source)
  | .flag, source =>
      match flag? source with
      | some b => .ok (.flag b)
      | none => .error (.flag source)
  | .int bits, source => ((Numeral.integer bits source).map .int).mapError (.int source)
  | .nat bits, source =>
      ((Numeral.natural (1 <<< bits - 1) source).map .nat).mapError (.nat source)
  | .real f, source => ((Numeral.real f source).map (.real f)).mapError (.real source)
  | .list element, source => (convertAll (convert element) 0 (elements source)).map .list
  | .box content, source => (convert content source).map .box
  | .other name, _ => .error (.unsupported name)

end FieldValue

/-- The declaration of a record field. -/
structure Field where
  name : Bytes
  type : FieldType
  /-- The key the field takes its value from and its options, separated by commas. An empty key
  stands for the name, and `-` alone keeps the field from being filled. -/
  tag : Bytes := []
  /-- Whether the field may be filled at all. -/
  isSettable : Bool := true
  deriving DecidableEq, Repr

namespace Field

/-- The key a field takes its value from. -/
def key (f : Field) : Bytes :=
  match Bytes.split 0x2C f.tag with
  | [] => f.name
  | key :: _ => if key = [] then f.name else key

/-- Whether the section must have an entry for the field. -/
def isRequired (f : Field) : Bool :=
  ((Bytes.split 0x2C f.tag).drop 1).contains (utf8 "required")

/-- Whether the field takes part in filling. -/
def isFilled (f : Field) : Bool :=
  f.isSettable && f.tag != [0x2D]

end Field

namespace Record

/-- Why a record could not be filled from a section. -/
inductive Error where
  | missing (key : Bytes)
  | entry (key : Bytes) (cause : ConversionError)
  deriving DecidableEq, Repr

/-- The wording of an error. -/
def Error.message : Error → Bytes
  | .missing key => utf8 "required entry " ++ key ++ utf8 " not found"
  | .entry key cause => utf8 "entry " ++ key ++ utf8 ": " ++ cause.message

/-- The value of the last entry whose key is `key` up to letter case. -/
def lookup? (entries : List (Bytes × Bytes)) (key : Bytes) : Option Bytes :=
  (entries.reverse.find? fun (k, _) => lower k = lower key).map Prod.snd

/-- The new value of one field, or its old one. -/
def fillField (entries : List (Bytes × Bytes)) (field : Field) (old : FieldValue) :
    Except Error FieldValue :=
  if !field.isFilled then .ok old
  else match lookup? entries field.key with
    | some value =>
        (FieldValue.convert field.type (Bytes.trim value)).mapError (.entry field.key)
    | none => if field.isRequired then .error (.missing field.key) else .ok old

/-- Fills the fields in order from entries that are enumerated in the given order. The fields from
the first failing one on keep their values. -/
def fill (entries : List (Bytes × Bytes)) :
    List (Field × FieldValue) → List (Field × FieldValue) × Option Error
  | [] => ([], none)
  | (field, old) :: rest =>
      match fillField entries field old with
      | .error e => ((field, old) :: rest, some e)
      | .ok value =>
          let (filled, e?) := fill entries rest
          ((field, value) :: filled, e?)

/-- What a section is to be read into. -/
inductive Target where
  | record (fields : List (Field × FieldValue))
  /-- Something that is not passed by reference. -/
  | notReference
  /-- A reference to something that is no record. -/
  | notRecord

/-- Why a section could not be read into a target. -/
inductive TargetError where
  | notReference
  | notRecord
  | inSection (header : Bytes) (cause : Error)
  deriving DecidableEq, Repr

/-- The wording of an error. -/
def TargetError.message : TargetError → Bytes
  | .notReference => utf8 "unmarshal target must be a non-nil pointer"
  | .notRecord => utf8 "unmarshal target must be a pointer to struct"
  | .inSection header cause => utf8 "section [" ++ header ++ utf8 "]: " ++ cause.message

/-- Reads a section into a target, taking its entries in their order of appearance. -/
def Target.read (s : Section) : Target → Target × Option TargetError
  | .record fields =>
      let (filled, e?) := fill s.entries fields
      (.record filled, e?.map (.inSection s.header))
  | .notReference => (.notReference, some .notReference)
  | .notRecord => (.notRecord, some .notRecord)

end Record

end DefinitionFiles
