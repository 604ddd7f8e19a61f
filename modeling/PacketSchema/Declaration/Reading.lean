import PacketSchema.Declaration.Basic
import PacketSchema.Literal.Reading
import PacketSchema.Token.Stream

/-! Declarations from tokens.

    body ::= (statement? ';')*
    statement ::= 'namespace' IDENT block? | 'type' IDENT (':' type | block)?
      | 'variant' IDENT? block? | operand '=' operand | IDENT (',' IDENT)* ':' type
    block ::= '{' body '}'
    type ::= '(' type ')' | block | operand (operand | '(' type ')' | block)*
    operand ::= IDENT ('.' IDENT)* | STRING | NUMBER

One token of lookahead decides every choice. A reader that fails leaves the stream at the token
where it stopped. Depth and length of what is read are bounded by the number of tokens left, which
is the fuel of the recursive readers. -/

namespace PacketSchema

namespace TokenStream

abbrev Reader := ExceptT SchemaError (StateM TokenStream)

/-- The token at the head; none at the end of the text. -/
def peek : Reader (Option Token) := do
  let s ← get
  match s.tokens, s.stop.error? with
  | t :: _, _ => return some t
  | [], none => return none
  | [], some e => throw e

def drop : Reader Unit := modify fun s => { s with tokens := s.tokens.tail }

/-- The position of the token at the head, or of the end of the text. -/
def position : Reader Position := do
  match ← peek with
  | some t => return t.position
  | none =>
    match (← get).stop with
    | .finished p | .unexpected p _ => return p

def refuse {α : Type} (what : Expectation) : Reader α := do
  throw (.expected (← position) what)

/-- Takes the token at the head if it has the property. -/
def takeIf (p : Token → Bool) : Reader (Option Token) := do
  match ← peek with
  | some t =>
    if p t then
      drop
      return some t
    else return none
  | none => return none

def accept (text : String) : Reader Bool := do return (← takeIf (·.is text)).isSome

def expect (text : String) : Reader Unit := do
  unless ← accept text do refuse (.token text)

def require {α : Type} (what : Expectation) (reader : Reader (Option α)) : Reader α := do
  match ← reader with
  | some a => return a
  | none => refuse what

def ident? : Reader (Option Ident) := do
  return (← takeIf (·.kind == .ident)).map fun t => ⟨t.text, t.position⟩

/-- The rest of a dotted name. -/
def nameTail : Nat → Reader (List String)
  | 0 => return []
  | fuel + 1 => do
    if ← accept "." then
      let i ← require .identifierAfterDot ident?
      return i.text :: (← nameTail fuel)
    else return []

def name? : Reader (Option Name) := do
  match ← ident? with
  | some i => return some ⟨i, ← nameTail ((← get).tokens.length + 1)⟩
  | none => return none

def value? : Reader (Option Value) := do
  match ← takeIf (·.isLiteral) with
  | some t =>
    let literal ← liftExcept (Literal.ofToken t.kind t.text t.position)
    return some ⟨literal, t.text, t.position⟩
  | none => return none

def operand? : Reader (Option Operand) := do
  match ← name? with
  | some n => return some (.name n)
  | none => return (← value?).map .value

/-- The names after the first one, up to the colon. -/
def moreNames : Nat → Reader (List Ident)
  | 0 => refuse .colonOrComma
  | fuel + 1 => do
    if ← accept ":" then return []
    else if ← accept "," then
      let i ← require .fieldName ident?
      return i :: (← moreNames fuel)
    else refuse .colonOrComma

/-- What stands between two symbols. -/
def between? {α : Type} (opening closing : String) (inner : Reader α) : Reader (Option α) := do
  if ← accept opening then
    let a ← inner
    expect closing
    return some a
  else return none

def bodyOf (statements : Reader (List Statement)) : Reader Body := do
  let p ← position
  return .mk p (← statements)

def block? (statements : Reader (List Statement)) : Reader (Option Body) :=
  between? "\x7b" "\x7d" (bodyOf statements)

/-- A type in parentheses or a block. -/
def enclosed? (statements : Reader (List Statement)) (type? : Reader (Option TypeExpr)) :
    Reader (Option TypeExpr) := do
  match ← between? "(" ")" (require .typeInParentheses type?) with
  | some e => return some e
  | none => return (← block? statements).map .body

def typeOrBlock? (block? : Reader (Option Body)) (type? : Reader (Option TypeExpr)) :
    Reader (Option TypeExpr) := do
  if ← accept ":" then return some (← require .typeAfterColon type?)
  else return (← block?).map .body

/-- A constraint or the declaration of fields, which both start with an operand. -/
def fieldsOrConstraint (p : Position) (left : Operand) (type? : Reader (Option TypeExpr)) :
    Reader Statement := do
  if ← accept "=" then return .constraint p left (← require .valueAfterEquals operand?)
  else
    match left with
    | .name ⟨first, []⟩ =>
      let others ← moreNames ((← get).tokens.length + 1)
      return .fields p (first :: others) (← require .fieldType type?)
    | other => throw (.expected other.position .localFieldName)

def statement? (block? : Reader (Option Body)) (type? : Reader (Option TypeExpr)) :
    Reader (Option Statement) := do
  let p ← position
  if ← accept "variant" then
    let name ← ident?
    return some (.variant p name (← block?))
  else if ← accept "namespace" then
    let name ← require .namespaceName ident?
    return some (.space p name (← block?))
  else if ← accept "type" then
    let name ← require .typeName ident?
    return some (.type p name (← typeOrBlock? block? type?))
  else
    match ← operand? with
    | some left => return some (← fieldsOrConstraint p left type?)
    | none => return none

mutual

def statements : Nat → Reader (List Statement)
  | 0 => refuse .declaration
  | fuel + 1 => do
    if ← accept ";" then statements fuel
    else
      match ← statement? (block? (statements fuel)) (type? fuel) with
      | some s =>
        expect ";"
        return s :: (← statements fuel)
      | none => return []

def type? : Nat → Reader (Option TypeExpr)
  | 0 => refuse .type
  | fuel + 1 => do
    let p ← position
    match ← enclosed? (statements fuel) (type? fuel) with
    | some e => return some e
    | none =>
      match ← operand? with
      | some head => return some (.application p head.toArg (← typeArgs fuel))
      | none => return none

def typeArgs : Nat → Reader (List TypeArg)
  | 0 => refuse .type
  | fuel + 1 => do
    match ← enclosed? (statements fuel) (type? fuel) with
    | some e => return .type e :: (← typeArgs fuel)
    | none =>
      match ← operand? with
      | some a => return a.toArg :: (← typeArgs fuel)
      | none => return []

end

/-- The statements up to the first token that starts none. -/
def body : Reader Body := do bodyOf (statements ((← get).tokens.length + 1))

/-- A type expression, if one starts at the head. -/
def typeExpr? : Reader (Option TypeExpr) := do type? ((← get).tokens.length + 1)

/-- A body that reaches to the end of the text. -/
def wholeBody : Reader Body := do
  let b ← body
  match ← peek with
  | none => return b
  | some _ => refuse .declaration

end TokenStream

/-- The declarations of a schema text. -/
def Body.ofText (source text : String) : Except SchemaError Body :=
  (TokenStream.wholeBody.run (TokenStream.ofText source text)).1

end PacketSchema
