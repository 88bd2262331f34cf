import Resolvent.Ty.Printer

/-!
# Type errors

The causes for which a text is no type, or for which types do not go together.
-/

namespace Resolvent

/-- Why a text is no type. -/
inductive TyReason where
  | trailingInput
  | missingType
  | unexpectedCharacter
  | zeroDistance
  | missingReference
  | missingSchema
  | unknownName
  | missingCandidates
  | noElementType
  | tooDeep
  | noPositiveNumber
  | unknownComposite
  | unclosedParenthesis
  | unclosedName
  | missingParameterName
  | noConstantValue
  | noConstant
  | parameterWithoutType
  deriving DecidableEq, Repr

def TyReason.message : TyReason → String
  | trailingInput => "trailing input"
  | missingType => "missing type"
  | unexpectedCharacter => "unexpected character"
  | zeroDistance => "self reference distance must be positive"
  | missingReference => "missing reference name"
  | missingSchema => "missing schema name"
  | unknownName => "unknown type name"
  | missingCandidates => "alternatives need a candidate list"
  | noElementType => "only containers take an element type"
  | tooDeep => "container nesting too deep"
  | noPositiveNumber => "expected a positive number"
  | unknownComposite => "unknown composite type"
  | unclosedParenthesis => "unclosed '('"
  | unclosedName => "unclosed name"
  | missingParameterName => "missing parameter name"
  | noConstantValue => "expected a constant value"
  | noConstant => "expected a constant"
  | parameterWithoutType => "parameter without type"

inductive TyError where
  | invalid (input : String) (reason : TyReason)
  | notAVariable (found : Ty)
  | recursive (var typ : Ty)
  | noCommonType (a b : Ty)
  | unresolvedReference (t : Ty)
  | constraint (var typ : Ty)
  | ambiguous (t : Ty)
  /-- The step budget of a search ran out; nothing is known about the answer. -/
  | exhausted

def TyError.message : TyError → String
  | invalid input reason => "invalid type `" ++ input ++ "`: " ++ reason.message
  | notAVariable t => "expected a type variable, found " ++ t.text
  | recursive v t => "recursive type: " ++ v.text ++ " occurs in " ++ t.text
  | noCommonType a b => "cannot unify " ++ a.text ++ " with " ++ b.text ++ ": no common type"
  | unresolvedReference t => "unresolved type reference " ++ t.text
  | constraint v t => t.text ++ " does not satisfy the constraints of " ++ v.text
  | ambiguous t => "ambiguous type " ++ t.text ++ ": free type variables remain"
  | exhausted => "type search ran out of steps"

namespace Ty

/-- A container around an element type, if the nesting stays within the limit. -/
def cont (k : Kind) (elem : Ty) : Except TyError Ty :=
  let t := around k elem
  if t.kind.depth > Kind.maxDepth then .error (.invalid t.text .tooDeep) else .ok t

end Ty

end Resolvent
