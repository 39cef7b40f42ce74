import DefinitionFiles.Text.Quoted

/-!
# Flags

The arguments of a command are flags followed by operands. A flag is written with one or two
hyphens; its value stands behind an equals sign or is the next argument. A switch takes a value
only behind an equals sign, and is on without one. Flags end before the first argument that is
none, and two hyphens end them as well.
-/

namespace DefinitionFiles

/-- A flag a command knows. -/
structure Flag where
  name : String
  /-- A second, shorter name. -/
  alias? : Option String := none
  isSwitch : Bool := false
  /-- What the flag is for. -/
  purpose : String := ""
  deriving DecidableEq, Repr

namespace Flag

/-- The names of a flag, the long one first. -/
def names (f : Flag) : List Bytes :=
  utf8 f.name :: (f.alias?.map utf8).toList

/-- Why flags cannot be read. -/
inductive Error where
  | malformed (argument : Bytes)
  | unknown (name : Bytes)
  | noValue (name : Bytes)
  /-- The value of a switch says neither on nor off. -/
  | noSwitchValue (name value : Bytes)
  /-- A flag is given under both of its names. -/
  | twoNames (second first : Bytes)
  deriving DecidableEq, Repr

/-- The wording of the error. -/
def Error.message : Error → Bytes
  | .malformed argument => utf8 "bad flag syntax: " ++ argument
  | .unknown name => utf8 "flag provided but not defined: -" ++ name
  | .noValue name => utf8 "flag needs an argument: -" ++ name
  | .noSwitchValue name value =>
      utf8 "invalid boolean value " ++ quoted value ++ utf8 " for -" ++ name ++
        utf8 ": parse error"
  | .twoNames second first =>
      utf8 "Cannot use two forms of the same flag: " ++ second ++ utf8 " " ++ first

/-- What a word says about a switch. -/
def switchValue? (word : Bytes) : Option Bool :=
  if ["1", "t", "T", "TRUE", "true", "True"].any fun w => utf8 w = word then some true
  else if ["0", "f", "F", "FALSE", "false", "False"].any fun w => utf8 w = word then some false
  else none

/-- The hyphen flags start with. -/
def hyphen : UInt8 := 0x2D

/-- What a single argument is, where a flag may stand. -/
inductive Argument where
  | operand
  | endOfFlags
  | malformed
  | flag (name : Bytes) (value? : Option Bytes)
  deriving DecidableEq, Repr

/-- The argument for what stands behind the hyphens of a flag. -/
def Argument.ofBody (body : Bytes) : Argument :=
  match body with
  | [] => .malformed
  | b :: _ =>
      if b = hyphen || b = 0x3D then .malformed
      else match Bytes.cut? 0x3D body with
        | some (name, value) => .flag name (some value)
        | none => .flag body none

/-- Tells what an argument is. A lone hyphen is an operand. -/
def Argument.ofText (argument : Bytes) : Argument :=
  match argument with
  | a :: b :: rest =>
      if a != hyphen then .operand
      else if b != hyphen then ofBody (b :: rest)
      else if rest = [] then .endOfFlags
      else ofBody rest
  | _ => .operand

end Flag

/-- Arguments that have been read. -/
structure Arguments where
  /-- The flags in the order given, each with the name used and its value. -/
  given : List (Bytes × Bytes) := []
  operands : List Bytes := []
  deriving DecidableEq, Repr

namespace Arguments

/-- The arguments with one more flag in front. -/
def withFlag (a : Arguments) (name value : Bytes) : Arguments :=
  { a with given := (name, value) :: a.given }

/-- Reads arguments for a command with the given flags, name by name. -/
def scan (flags : List Flag) : List Bytes → Except Flag.Error Arguments
  | [] => .ok {}
  | argument :: rest =>
      match Flag.Argument.ofText argument with
      | .operand => .ok { operands := argument :: rest }
      | .endOfFlags => .ok { operands := rest }
      | .malformed => .error (.malformed argument)
      | .flag name value? =>
          match flags.find? fun f => f.names.contains name with
          | none => .error (.unknown name)
          | some f =>
              if f.isSwitch then
                let value := value?.getD (utf8 "true")
                if (Flag.switchValue? value).isNone then .error (.noSwitchValue name value)
                else (scan flags rest).map (·.withFlag name value)
              else match value? with
                | some value => (scan flags rest).map (·.withFlag name value)
                | none =>
                    match rest with
                    | [] => .error (.noValue name)
                    | value :: rest => (scan flags rest).map (·.withFlag name value)

/-- Whether a name was used. -/
def uses (a : Arguments) (name : Bytes) : Bool :=
  a.given.any fun (n, _) => n = name

/-- The error for a flag given under both of its names. -/
def twoNames? (a : Arguments) (f : Flag) : Option Flag.Error :=
  match f.names with
  | [first, second] =>
      if a.uses first && a.uses second then some (.twoNames second first) else none
  | _ => none

/-- Reads arguments for a command with the given flags. -/
def read (flags : List Flag) (arguments : List Bytes) : Except Flag.Error Arguments :=
  match scan flags arguments with
  | .error e => .error e
  | .ok a =>
      match flags.findSome? a.twoNames? with
      | some e => .error e
      | none => .ok a

/-- Every value of a flag in the order given. -/
def values (a : Arguments) (f : Flag) : List Bytes :=
  a.given.filterMap fun (name, value) => if f.names.contains name then some value else none

/-- The value of a flag; the last one given counts. -/
def value? (a : Arguments) (f : Flag) : Option Bytes :=
  (a.values f).getLast?

/-- Whether a switch is on. -/
def isOn (a : Arguments) (f : Flag) : Bool :=
  match a.value? f with
  | some word => Flag.switchValue? word = some true
  | none => false

/-- The first operand. -/
def first? (a : Arguments) : Option Bytes :=
  a.operands.head?

theorem operands_of_withFlag {x : Except Flag.Error Arguments} {name value : Bytes}
    {a : Arguments} (h : x.map (·.withFlag name value) = .ok a) :
    ∃ b, x = .ok b ∧ b.operands = a.operands := by
  cases x with
  | error e => simp [Except.map] at h
  | ok b =>
      cases h
      exact ⟨b, rfl, rfl⟩

/-- Reading flags only takes arguments away. -/
theorem length_of_scan {flags : List Flag} {arguments : List Bytes} {a : Arguments}
    (h : scan flags arguments = .ok a) : a.operands.length ≤ arguments.length := by
  fun_induction scan flags arguments generalizing a
  case case1 | case2 | case3 =>
    cases h
    simp
  case case4 | case5 | case6 | case9 => simp at h
  case case7 ih | case8 ih | case10 ih =>
    obtain ⟨b, hb, hoperands⟩ := operands_of_withFlag h
    rw [← hoperands]
    have := ih hb
    simp only [List.length_cons]
    omega

theorem length_of_read {flags : List Flag} {arguments : List Bytes} {a : Arguments}
    (h : read flags arguments = .ok a) : a.operands.length ≤ arguments.length := by
  unfold read at h
  split at h
  · simp at h
  · next hscan =>
    split at h
    · simp at h
    · cases h
      exact length_of_scan hscan

end Arguments

end DefinitionFiles
