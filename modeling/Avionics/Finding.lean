namespace Avionics

inductive Severity
  | warning | error
  deriving DecidableEq

def Severity.name : Severity → String
  | .warning => "Warning"
  | .error => "Error"

inductive Finding
  | incompatible (family key new existing : String)
  | duplicateComponent (name : String)
  | headerMismatch (channel new existing : String)
  | producedTwice (channel : String)
  | multipleProducers (channel producer : String)
  | consumedTwice (channel : String)
  | unsupported (what key : String)
  deriving DecidableEq

namespace Finding

def severity : Finding → Severity
  | .incompatible .. | .duplicateComponent .. => .error
  | .headerMismatch .. | .producedTwice .. | .multipleProducers .. | .consumedTwice ..
  | .unsupported .. => .warning

def isError (f : Finding) : Bool := f.severity = .error

def message : Finding → String
  | .incompatible family key new existing =>
    "two incompatible definitions of " ++ family ++ " " ++ key ++ " :\n" ++ new ++ "\n" ++ existing
  | .duplicateComponent name => "several VirtualComponents have the name " ++ name
  | .headerMismatch channel new existing =>
    "two incompatible definitions of header for channel " ++ channel ++ " :\n" ++ new
      ++ "\n" ++ existing
  | .producedTwice channel =>
    "the channel " ++ channel ++ " is already produced by the same VirtualComponent"
  | .multipleProducers channel producer =>
    "the channel " ++ channel ++ " is already produced by VirtualComponent " ++ producer
  | .consumedTwice channel =>
    "the channel " ++ channel ++ " is already consumed by the same VirtualComponent"
  | .unsupported what key => what ++ " not supported, " ++ key ++ " ignored"

def kind : Finding → String
  | .incompatible .. => "incompatible"
  | .duplicateComponent .. => "duplicate_component"
  | .headerMismatch .. => "header_mismatch"
  | .producedTwice .. => "produced_twice"
  | .multipleProducers .. => "multiple_producers"
  | .consumedTwice .. => "consumed_twice"
  | .unsupported .. => "unsupported"

def fields : Finding → List (String × String)
  | .incompatible family key new existing =>
    [("family", family), ("key", key), ("new", new), ("existing", existing)]
  | .duplicateComponent name => [("name", name)]
  | .headerMismatch channel new existing =>
    [("channel", channel), ("new", new), ("existing", existing)]
  | .producedTwice channel => [("channel", channel)]
  | .multipleProducers channel producer => [("channel", channel), ("producer", producer)]
  | .consumedTwice channel => [("channel", channel)]
  | .unsupported what key => [("what", what), ("key", key)]

end Finding

end Avionics
