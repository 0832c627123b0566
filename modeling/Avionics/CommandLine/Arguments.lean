namespace Avionics

inductive Switch
  | report | config | writeResolved
  deriving DecidableEq

namespace Switch

def name : Switch → String
  | report => "report"
  | config => "config"
  | writeResolved => "write-resolved"

def takesValue : Switch → Bool
  | report | config => true
  | writeResolved => false

end Switch

structure Arguments where
  values : List (Switch × String) := []
  positionals : List String := []
  deriving DecidableEq

inductive Request
  | version | help
  | run (a : Arguments)
  deriving DecidableEq

namespace Arguments

def value? (a : Arguments) (s : Switch) : Option String := a.values.lookup s

def has (a : Arguments) (s : Switch) : Bool := (a.value? s).isSome

def addValue (a : Arguments) (s : Switch) (value : String) : Option Arguments :=
  if a.has s then none else some { a with values := a.values ++ [(s, value)] }

def addPositional (most : Option Nat) (a : Arguments) (value : String) : Option Arguments :=
  if value = "" ∨ most = some a.positionals.length then none
  else some { a with positionals := a.positionals ++ [value] }

def splitValue (s : List Char) : String × Option String :=
  match s.dropWhile (· ≠ '=') with
  | [] => (String.ofList s, none)
  | _ :: value => (String.ofList (s.takeWhile (· ≠ '=')), some (String.ofList value))

def isValue (s : String) : Bool := s ≠ "" && (s.toList.head? ≠ some '-' || s = "-")

/-- Reads arguments from left to right; the first mistake or request for information counts. -/
def parse (known : List Switch) (most : Option Nat) : Arguments → List String → Option Request
  | a, [] => some (.run a)
  | a, s :: rest =>
    match s.toList with
    | ['-', '-'] => return .run (← rest.foldlM (addPositional most) a)
    | '-' :: '-' :: long =>
      match splitValue long with
      | ("version", none) => some .version
      | ("help", none) => some .help
      | (name, attached) =>
        match known.find? (·.name = name), attached with
        | none, _ => none
        | some switch, some value =>
          if !switch.takesValue || value = "" then none
          else do parse known most (← a.addValue switch value) rest
        | some switch, none =>
          if switch.takesValue then
            match rest with
            | [] => none
            | value :: rest =>
              if isValue value then do parse known most (← a.addValue switch value) rest else none
          else do parse known most (← a.addValue switch "") rest
    | '-' :: short :: _ =>
      if short = 'V' then some .version else if short = 'h' then some .help else none
    | _ => do parse known most (← a.addPositional most s) rest

end Arguments

end Avionics
