import Avionics.Proofs.Json.Lexing

namespace Avionics.Json

/-- Any value of JSON, the members of its objects in the order of the text. -/
inductive Value
  | scalar (s : Scalar)
  | array (vs : List Value)
  | object (ms : List (String × Value))

inductive Frame
  | array (vs : List Value)
  | object (ms : List (String × Value)) (key : String)

inductive Expected
  | value
  | item
  | member
  | key (ms : List (String × Value))
  | colon (ms : List (String × Value)) (key : String)
  | next (v : Value)

abbrev Parser := List Frame × Expected

namespace Parser

def begin (fs : List Frame) : Token → Option Parser
  | .scalar s => some (fs, .next (.scalar s))
  | .openArray => some (.array [] :: fs, .item)
  | .openObject => some (fs, .member)
  | _ => none

def accept : Parser → Token → Option Parser
  | (fs, .value), t => begin fs t
  | (.array vs :: fs, .item), .closeArray => some (fs, .next (.array vs))
  | (fs, .item), t => begin fs t
  | (fs, .member), .closeObject => some (fs, .next (.object []))
  | (fs, .member), .scalar (.text k) => some (fs, .colon [] k)
  | (fs, .key ms), .scalar (.text k) => some (fs, .colon ms k)
  | (fs, .colon ms k), .colon => some (.object ms k :: fs, .value)
  | (.array vs :: fs, .next v), .comma => some (.array (vs ++ [v]) :: fs, .value)
  | (.array vs :: fs, .next v), .closeArray => some (fs, .next (.array (vs ++ [v])))
  | (.object ms k :: fs, .next v), .comma => some (fs, .key (ms ++ [(k, v)]))
  | (.object ms k :: fs, .next v), .closeObject => some (fs, .next (.object (ms ++ [(k, v)])))
  | _, _ => none

def value? : Parser → Option Value
  | ([], .next v) => some v
  | _ => none

end Parser

def decode (s : String) : Option Value :=
  (lex .between s.toList).bind fun ts => (ts.foldlM Parser.accept ([], .value)).bind Parser.value?

mutual

def value : Json → Value
  | .number n => .scalar (.number { coefficient := n })
  | .string s => .scalar (.text s)
  | .array vs => .array (values vs)
  | .object ms => .object (members ms)

def values : List Json → List Value
  | [] => []
  | v :: vs => value v :: values vs

def members : List (String × Json) → List (String × Value)
  | [] => []
  | (k, v) :: ms => (k, value v) :: members ms

end

theorem values_eq_map (vs : List Json) : values vs = vs.map value := by
  induction vs with
  | nil => rfl
  | cons v vs ih => rw [values, ih, List.map_cons]

theorem members_eq_map (ms : List (String × Json)) :
    members ms = ms.map fun m => (m.1, value m.2) := by
  induction ms with
  | nil => rfl
  | cons m ms ih => rw [members, ih, List.map_cons]

theorem foldlM_accept_item (fs : List Frame) (v : Json) (ts : List Token) :
    (tokens v ++ ts).foldlM Parser.accept (.array [] :: fs, .item)
      = (tokens v ++ ts).foldlM Parser.accept (.array [] :: fs, .value) := by
  rcases v with n | s | (_ | ⟨v, vs⟩) | (_ | ⟨⟨k, v⟩, ms⟩) <;> rfl

mutual

theorem foldlM_accept_tokens (fs : List Frame) : ∀ v : Json,
    (tokens v).foldlM Parser.accept (fs, .value) = some (fs, .next v.value)
  | .number _ => rfl
  | .string _ => rfl
  | .array [] => rfl
  | .array (v :: vs) => by
    have hopen : ∀ ts, (Token.openArray :: ts).foldlM Parser.accept (fs, .value)
        = ts.foldlM Parser.accept (.array [] :: fs, .item) := fun ts => rfl
    rw [tokens, List.append_assoc, List.cons_append, hopen, foldlM_accept_item, List.foldlM_append,
      foldlM_accept_tokens (.array [] :: fs) v]
    exact foldlM_accept_itemTokens fs [] v.value vs
  | .object [] => rfl
  | .object ((k, v) :: ms) => by
    have hopen : ∀ ts,
        (Token.openObject :: .scalar (.text k) :: .colon :: ts).foldlM Parser.accept (fs, .value)
        = ts.foldlM Parser.accept (.object [] k :: fs, .value) := fun ts => rfl
    rw [tokens, List.append_assoc, List.cons_append, List.cons_append, List.cons_append, hopen,
      List.foldlM_append, foldlM_accept_tokens (.object [] k :: fs) v]
    exact foldlM_accept_memberTokens fs [] k v.value ms

theorem foldlM_accept_itemTokens (fs : List Frame) :
    ∀ (us : List Value) (u : Value) (vs : List Json),
    (itemTokens vs ++ [Token.closeArray]).foldlM Parser.accept (.array us :: fs, .next u)
      = some (fs, .next (.array (us ++ u :: values vs)))
  | _, _, [] => rfl
  | us, u, v :: vs => by
    have hcomma : ∀ ts, (Token.comma :: ts).foldlM Parser.accept (.array us :: fs, .next u)
        = ts.foldlM Parser.accept (.array (us ++ [u]) :: fs, .value) := fun ts => rfl
    rw [itemTokens, List.append_assoc, List.cons_append, hcomma, List.foldlM_append,
      foldlM_accept_tokens _ v]
    refine (foldlM_accept_itemTokens fs (us ++ [u]) v.value vs).trans ?_
    rw [List.append_assoc]
    rfl

theorem foldlM_accept_memberTokens (fs : List Frame) :
    ∀ (us : List (String × Value)) (l : String) (u : Value)
    (ms : List (String × Json)), (memberTokens ms ++ [Token.closeObject]).foldlM Parser.accept
    (.object us l :: fs, .next u)
      = some (fs, .next (.object (us ++ (l, u) :: members ms)))
  | _, _, _, [] => rfl
  | us, l, u, (k, v) :: ms => by
    have hcomma : ∀ ts, (Token.comma :: .scalar (.text k) :: .colon :: ts).foldlM Parser.accept
        (.object us l :: fs, .next u)
        = ts.foldlM Parser.accept (.object (us ++ [(l, u)]) k :: fs, .value) := fun ts => rfl
    rw [memberTokens, List.append_assoc, List.cons_append, List.cons_append, List.cons_append,
      hcomma, List.foldlM_append, foldlM_accept_tokens _ v]
    refine (foldlM_accept_memberTokens fs (us ++ [(l, u)]) k v.value ms).trans ?_
    rw [List.append_assoc]
    rfl

end

theorem decode_pretty (v : Json) : decode v.pretty = some v.value := by
  rw [decode, lex_pretty, Option.bind_some, foldlM_accept_tokens, Option.bind_some]
  rfl

example : decode "[\"\\ud83d\\ude00\\/\", -1.5e3]"
    = some (.array [.scalar (.text (String.ofList [Char.ofNat 0x1F600, '/'])),
    .scalar (.number { negative := true, coefficient := 15, exponent := 2 })]) := by cbv

example : ["[1,]", "01", "[1] 2", "\"\\ud83d\"", "\"\n\"", "nul"].map (fun s => (decode s).isSome)
    = [false, false, false, false, false, false] := by cbv

end Avionics.Json
