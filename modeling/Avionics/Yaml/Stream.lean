import Avionics.Yaml.Document

namespace Avionics.Yaml

namespace Stream

def directives (versioned : Bool) (handles : List (String × Octets)) :
    List Token → Option (List (String × Octets) × List Token)
  | .version major minor :: ts =>
    if versioned || major ≠ 1 || (minor ≠ 1 && minor ≠ 2) then none else directives true handles ts
  | .tagDirective handle stem :: ts =>
    if handles.any (·.1 = handle) then none else directives versioned ((handle, stem) :: handles) ts
  | ts => some (handles ++ Tag.standardHandles, ts)

def isBetween : Token → Bool
  | .version .. | .tagDirective .. | .documentStart | .documentEnd | .streamEnd => true
  | _ => false

def document (handles : List (String × Octets)) (tokens : List Token) :
    Option (Document × List Token) := do
  let (root, c) ← (node (4 * tokens.length + 4) .block).run { tokens := tokens, handles := handles }
  return ({ root := root, anchors := c.anchors }, c.tokens)

/-- The documents that begin with a mark, each shorter than the tokens that are left. -/
def markedDocuments : Nat → List Token → Option (List Document)
  | 0, _ => none
  | n + 1, tokens =>
    match tokens.dropWhile (· = .documentEnd) with
    | .streamEnd :: _ => some []
    | tokens => do
      let (handles, tokens) ← directives false [] tokens
      let .documentStart :: tokens := tokens | none
      let (d, tokens) ←
        if tokens.head?.all isBetween then some ({ root := .empty }, tokens)
        else document handles tokens
      return d :: (← markedDocuments n tokens)

def documents (tokens : List Token) : Option (List Document) :=
  match tokens with
  | .version .. :: _ | .tagDirective .. :: _ | .documentStart :: _ | .streamEnd :: _ =>
    markedDocuments (tokens.length + 1) tokens
  | _ => do
    let (d, tokens) ← document Tag.standardHandles tokens
    return d :: (← markedDocuments (tokens.length + 1) tokens)

end Stream

def documents? (source : String) : Option (List Document) := do
  Stream.documents (← tokens? source)

end Avionics.Yaml
