import Garnet.Number.Integer
import Garnet.Text.Quoted

/-! # Flags of a command

Flags stand in front of the other arguments. A flag has one or two dashes and a name; its value
follows an equals sign or is the next argument. Flags that can be switched on take a value only
behind an equals sign. Reading stops at the first argument that is no flag, or behind `--`.
-/

namespace Garnet.Flags

/-- What values a flag takes. -/
inductive Kind where
  | text
  | integer
  /-- On or off. -/
  | switch
  /-- Counts how often it is given; a value sets the count. -/
  | count
deriving DecidableEq, Repr

/-- The value of a flag that was given. -/
inductive Setting where
  | text (value : String)
  | integer (value : Int)
  | switch (on : Bool)
  /-- Raise the count by one. -/
  | raise
deriving DecidableEq, Repr

/-- Why arguments cannot be read. -/
inductive Error where
  | badForm (argument : String)
  | undefined (name : String)
  | helpRequested
  | needsArgument (name : String)
  | invalidValue (value name reason : String)
  | invalidSwitch (value name reason : String)
deriving DecidableEq, Repr

/-- The wording of an error. -/
def Error.message : Error → String
  | badForm argument => s!"bad flag syntax: {argument}"
  | undefined name => s!"flag provided but not defined: -{name}"
  | helpRequested => "flag: help requested"
  | needsArgument name => s!"flag needs an argument: -{name}"
  | invalidValue value name reason =>
    s!"invalid value {Text.quote value} for flag -{name}: {reason}"
  | invalidSwitch value name reason =>
    s!"invalid boolean value {Text.quote value} for -{name}: {reason}"

/-- The texts that switch a flag on and off. -/
def truthValue? (value : String) : Option Bool :=
  if ["1", "t", "T", "true", "TRUE", "True"].contains value then some true
  else if ["0", "f", "F", "false", "FALSE", "False"].contains value then some false
  else none

/-- Read the value of a flag, or give the reason why it is refused. -/
def settingOf : Kind → String → Except String Setting
  | .text, value => .ok (.text value)
  | .integer, value =>
    match Integer.read value.toList with
    | .ok n => .ok (.integer n)
    | .error .malformed => .error "parse error"
    | .error .outOfRange => .error "value out of range"
  | .switch, value =>
    match truthValue? value with
    | some on => .ok (.switch on)
    | none => .error "parse error"
  | .count, value =>
    if value = "true" then .ok .raise
    else match Integer.readDecimal value.toList with
      | .ok n => .ok (.integer n)
      | .error _ => .error s!"invalid count {Text.quote value}"

/-- Whether a flag takes its value only behind an equals sign. -/
def Kind.standsAlone : Kind → Bool
  | .switch | .count => true
  | .text | .integer => false

/-- Split the body of a flag at its first equals sign, which is never its first character. -/
def splitValue (body : List Char) : String × Option String :=
  let name := body.take 1 ++ (body.drop 1).takeWhile (· != '=')
  match body.drop name.length with
  | [] => (String.ofList name, none)
  | _ :: value => (String.ofList name, some (String.ofList value))

/-- The body of an argument that is a flag, without its dashes. -/
def body? : List Char → Option (List Char)
  | '-' :: '-' :: body => some body
  | '-' :: c :: body => some (c :: body)
  | _ => none

/-- The flags that a command knows. -/
abbrev Definitions := List (String × Kind)

/-- The flags that were given, in order, and the other arguments. -/
structure Given where
  settings : List (String × Setting)
  rest : List String
deriving DecidableEq, Repr

/-- Put a flag in front of those that follow it. -/
def Given.cons (given : Given) (name : String) (setting : Setting) : Given :=
  { given with settings := (name, setting) :: given.settings }

/-- Read the flags in front of the other arguments. -/
def parse (definitions : Definitions) : List String → Except Error Given
  | [] => .ok ⟨[], []⟩
  | argument :: rest =>
    match body? argument.toList with
    | none => .ok ⟨[], argument :: rest⟩
    | some [] => .ok ⟨[], rest⟩
    | some (c :: body) =>
      if c = '-' ∨ c = '=' then .error (.badForm argument)
      else
        let (name, value) := splitValue (c :: body)
        match definitions.lookup name with
        | none => .error (if name = "help" ∨ name = "h" then .helpRequested else .undefined name)
        | some kind =>
          if kind.standsAlone then
            match settingOf kind (value.getD "true") with
            | .error reason => .error (.invalidSwitch (value.getD "true") name reason)
            | .ok setting => (parse definitions rest).map (·.cons name setting)
          else
            match value, rest with
            | some value, rest =>
              match settingOf kind value with
              | .error reason => .error (.invalidValue value name reason)
              | .ok setting => (parse definitions rest).map (·.cons name setting)
            | none, value :: rest =>
              match settingOf kind value with
              | .error reason => .error (.invalidValue value name reason)
              | .ok setting => (parse definitions rest).map (·.cons name setting)
            | none, [] => .error (.needsArgument name)

namespace Given

/-- The text that a flag was last given. -/
def text? (given : Given) (name : String) : Option String :=
  given.settings.reverse.findSome? fun
    | (other, .text value) => if other = name then some value else none
    | _ => none

/-- The integer that a flag was last given. -/
def integer? (given : Given) (name : String) : Option Int :=
  given.settings.reverse.findSome? fun
    | (other, .integer value) => if other = name then some value else none
    | _ => none

/-- Whether a flag was last switched on. -/
def isOn (given : Given) (name : String) : Bool :=
  (given.settings.reverse.findSome? fun
    | (other, .switch on) => if other = name then some on else none
    | _ => none).getD false

/-- The count of a flag, if it was given at all. Raising the largest count gives the smallest. -/
def count? (given : Given) (name : String) : Option Int :=
  given.settings.foldl
    (fun count (other, setting) =>
      if other ≠ name then count
      else match setting with
        | .raise => some (Int.bmod (count.getD 0 + 1) 0x10000000000000000)
        | .integer value => some value
        | _ => count)
    none

end Given

end Garnet.Flags
