import Avionics.Markup.Fault
import Avionics.Storage.Path

namespace Avionics

open Storage (Path)

inductive Refusal
  | notFound | isDirectory | notDirectory | notText | tooLarge
  deriving DecidableEq

def Refusal.message : Refusal → String
  | .notFound => "No such file or directory (os error 2)"
  | .isDirectory => "Is a directory (os error 21)"
  | .notDirectory => "Not a directory (os error 20)"
  | .notText => "stream did not contain valid UTF-8"
  | .tooLarge => "File too large (os error 27)"

inductive Failure
  | missingInput (path : Path)
  | access (path : Path) (cause : Refusal)
  | markup (fault : Markup.Fault)
  | badAttribute (fault : Markup.AttributeFault)
  | emptyDocument
  | unbalanced (element : String)
  | unexpectedRoot (expected found : String)
  | missingAttribute (element key : String)
  | invalidValue (element key value : String)
  | unknownChannelType (name : String)
  | portsExhausted (channelType : String)
  | configuration
  deriving DecidableEq

def Failure.message : Failure → String
  | .missingInput path => "input file not found: " ++ path.text
  | .access path cause => "failed to access " ++ path.text ++ ": " ++ cause.message
  | .markup fault => "malformed markup: " ++ fault.message
  | .badAttribute fault => "malformed attribute: " ++ fault.message
  | .emptyDocument => "document has no root element"
  | .unbalanced element => "unbalanced closing tag </" ++ element ++ ">"
  | .unexpectedRoot expected found =>
    "expected root element <" ++ expected ++ ">, found <" ++ found ++ ">"
  | .missingAttribute element key =>
    "<" ++ element ++ "> is missing required attribute '" ++ key ++ "'"
  | .invalidValue element key value =>
    "<" ++ element ++ "> has invalid " ++ key ++ " value '" ++ value ++ "'"
  | .unknownChannelType name => "unknown channel type <" ++ name ++ ">"
  | .portsExhausted channelType => "no ports left to allocate for " ++ channelType
  | .configuration => "invalid configuration"

end Avionics
