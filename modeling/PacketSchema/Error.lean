import PacketSchema.Files.Access
import PacketSchema.Literal.Basic
import PacketSchema.Position
import PacketSchema.Text.Basic
import PacketSchema.WireType.Builtin

/-! Why a schema is refused. Every cause but an unreadable file has a position in a source, and the
wording of all of them is `SchemaError.message`. -/

namespace PacketSchema

inductive LexicalCause where
  | unexpected (c : Char)
  | outOfRange (number : String)
deriving DecidableEq, Repr

/-- What should have stood at a position. -/
inductive Expectation where
  | token (text : String)
  | declaration
  | identifierAfterDot
  | typeInParentheses
  | namespaceName
  | typeName
  | typeAfterColon
  | valueAfterEquals
  | localFieldName
  | colonOrComma
  | fieldName
  | fieldType
  | literal
  | constrainedName
  | constrainingLiteral
  | typeNameBeforeArguments
  | type
deriving DecidableEq, Repr

inductive BadArguments where
  | usage (builtin : Builtin)
  | unknownEncoding (word : String)
  | encodingExpected
  | negativeLength (length : Int)
  | lengthExpected
  | remainingOutsideBytes
  | userType
deriving DecidableEq, Repr

inductive Duplicated where
  | name
  | field
  | branch
deriving DecidableEq, Repr

/-- Why a variant is no branch of a struct. -/
inductive UnresolvedBranch where
  | noEnclosingStruct (name : Option String)
  /-- What it branches from cannot hold branches. -/
  | noBranches (path : Path)
deriving DecidableEq, Repr

inductive StructPart where
  | field
  | constraint
deriving DecidableEq, Repr

inductive SchemaError where
  | lexical (position : Position) (cause : LexicalCause)
  | expected (position : Position) (what : Expectation)
  | duplicate (position : Position) (what : Duplicated) (name : String)
  | unknownType (position : Position) (name : String)
  | badArguments (position : Position) (typeName : String) (cause : BadArguments)
  | inconsistentConstraint (position : Position) (name : String) (existing found : Literal)
  | constraintType (position : Position) (name : String) (value : Literal) (typeName : String)
  | unresolvedBranch (position : Position) (cause : UnresolvedBranch)
  | misplaced (position : Position) (part : StructPart)
  | unreadable (path : String) (cause : ReadFailure)
deriving DecidableEq, Repr

def LexicalCause.message : LexicalCause → String
  | unexpected c => s!"unexpected character {Text.quotedChar c}"
  | outOfRange number => s!"number {number} out of range"

def Expectation.message : Expectation → String
  | token text => s!"`{text}`"
  | declaration => "a declaration"
  | identifierAfterDot => "identifier after `.`"
  | typeInParentheses => "type inside `(` `)`"
  | namespaceName => "namespace name"
  | typeName => "type name"
  | typeAfterColon => "type after `:`"
  | valueAfterEquals => "value after `=`"
  | localFieldName => "local field name"
  | colonOrComma => "`:` or `,` after field name"
  | fieldName => "field name"
  | fieldType => "field type"
  | literal => "a literal"
  | constrainedName => "local name on the left of `=`"
  | constrainingLiteral => "literal on the right of `=`"
  | typeNameBeforeArguments => "type name before type arguments"
  | type => "a type"

def Builtin.usage : Builtin → String
  | string => "expected `string [length] [encoding]`"
  | bytes => "expected `bytes [length]`"
  | uuid => "expected `uuid [encoding]`"
  | array => "expected `array <length> <elem>`"
  | boolOptional => "expected `bool_optional <elem>`"
  | _ => "expected no arguments"

def BadArguments.message : BadArguments → String
  | usage builtin => builtin.usage
  | unknownEncoding word => s!"unknown encoding `{word}`"
  | encodingExpected => "expected an encoding name"
  | negativeLength length => s!"negative length {length}"
  | lengthExpected => "length must be an integer or integer type"
  | remainingOutsideBytes => "`remaining` is only valid for bytes"
  | userType => "user-defined types take no arguments"

def Duplicated.word : Duplicated → String
  | name => "name"
  | field => "field"
  | branch => "branch"

def UnresolvedBranch.variant : UnresolvedBranch → String
  | noEnclosingStruct (some name) => name
  | noEnclosingStruct none => "<anonymous>"
  | noBranches path => path.text

def StructPart.word : StructPart → String
  | field => "field"
  | constraint => "constraint"

namespace SchemaError

def position? : SchemaError → Option Position
  | lexical p _ | expected p _ | duplicate p _ _ | unknownType p _ | badArguments p _ _
  | inconsistentConstraint p _ _ _ | constraintType p _ _ _ | unresolvedBranch p _
  | misplaced p _ => some p
  | unreadable _ _ => none

/-- The wording behind the position or path. -/
def description : SchemaError → String
  | lexical _ cause => s!"lexical error: {cause.message}"
  | expected _ what => s!"syntax error: expected {what.message}"
  | duplicate _ what name => s!"duplicate {what.word} `{name}`"
  | unknownType _ name => s!"unknown type `{name}`"
  | badArguments _ typeName cause => s!"bad arguments for `{typeName}`: {cause.message}"
  | inconsistentConstraint _ name existing found =>
    s!"inconsistent constraint `{name}`: already {existing.display}, got {found.display}"
  | constraintType _ name value typeName =>
    s!"constraint `{name} = {value.display}` does not fit field type `{typeName}`"
  | unresolvedBranch _ cause => s!"variant {cause.variant} has no enclosing struct"
  | misplaced _ part => s!"{part.word} declared outside of a struct"
  | unreadable _ cause => cause.message

def message : SchemaError → String
  | unreadable path cause => s!"{path}: {cause.message}"
  | e => match e.position? with
    | some p => s!"{p.text}: {e.description}"
    | none => e.description

end SchemaError

end PacketSchema
