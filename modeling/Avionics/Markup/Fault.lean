/-! The ways in which a text fails to be markup.  Positions and ranges count bytes of UTF-8. -/

namespace Avionics.Markup

inductive Construct
  | instruction | comment | doctype | cdata | tag
  deriving DecidableEq

def Construct.name : Construct → String
  | .instruction => "processing instruction or xml declaration"
  | .comment => "comment"
  | .doctype => "DOCTYPE"
  | .cdata => "CDATA"
  | .tag => "tag"

def Construct.closing : Construct → String
  | .instruction => "?>"
  | .comment => "-->"
  | .doctype => ">"
  | .cdata => "]]>"
  | .tag => ">"

inductive ReferenceFault
  | unexpectedSign
  | empty
  | invalidDigit
  | tooLarge
  | null
  | invalidCodepoint (value : Nat)
  deriving DecidableEq

def ReferenceFault.message : ReferenceFault → String
  | .unexpectedSign => "unexpected number sign"
  | .empty => "cannot parse integer from empty string"
  | .invalidDigit => "invalid digit found in string"
  | .tooLarge => "number too large to fit in target type"
  | .null => "0x0 character is not permitted in XML"
  | .invalidCodepoint value => "`" ++ toString value ++ "` is not a valid codepoint"

inductive Fault
  | unknownMarkup
  | unclosed (construct : Construct)
  | unnamedDoctype
  | mismatchedEnd (expected found : String)
  | unmatchedEnd (found : String)
  | unterminatedReference (start stop : Nat)
  | unknownEntity (start stop : Nat) (name : String)
  | badReference (fault : ReferenceFault)
  deriving DecidableEq

def Fault.message : Fault → String
  | .unknownMarkup => "syntax error: unknown or missed symbol in markup"
  | .unclosed construct =>
    "syntax error: " ++ construct.name ++ " not closed: `" ++ construct.closing
      ++ "` not found before end of input"
  | .unnamedDoctype =>
    "ill-formed document: `<!DOCTYPE>` declaration does not contain a name of a document type"
  | .mismatchedEnd expected found =>
    "ill-formed document: expected `</" ++ expected ++ ">`, but `</" ++ found ++ ">` was found"
  | .unmatchedEnd found =>
    "ill-formed document: close tag `</" ++ found ++ ">` does not match any open tag"
  | .unterminatedReference start stop =>
    "Error while escaping character at range " ++ toString start ++ ".." ++ toString stop
      ++ ": Cannot find ';' after '&'"
  | .unknownEntity start stop name =>
    "at " ++ toString start ++ ".." ++ toString stop ++ ": unrecognized entity `" ++ name ++ "`"
  | .badReference fault => "invalid character reference: " ++ fault.message

inductive AttributeFault
  | expectedEquals (position : Nat)
  | expectedValue (position : Nat)
  | unquoted (position : Nat)
  | unclosedQuote (position : Nat) (quote : Char)
  | duplicated (position previous : Nat)
  deriving DecidableEq

def AttributeFault.message : AttributeFault → String
  | .expectedEquals position =>
    "position " ++ toString position ++ ": attribute key must be directly followed by `=` or space"
  | .expectedValue position =>
    "position " ++ toString position ++ ": `=` must be followed by an attribute value"
  | .unquoted position =>
    "position " ++ toString position ++ ": attribute value must be enclosed in `\"` or `'`"
  | .unclosedQuote position quote =>
    "position " ++ toString position ++ ": missing closing quote `" ++ String.singleton quote
      ++ "` in attribute value"
  | .duplicated position previous =>
    "position " ++ toString position ++ ": duplicated attribute, previous declaration at position "
      ++ toString previous

end Avionics.Markup
