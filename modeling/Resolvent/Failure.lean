import Resolvent.TokenTree
import Resolvent.Val.Printer

/-!
# Failures

Why a source cannot be read, an expression cannot be resolved, or a value cannot be computed.
-/

namespace Resolvent

/-- Why a source is not read. -/
inductive ReadCause where
  | unexpectedCharacter
  | nesting (e : NestingError)
  | badType (e : TyError)
  | noLiteral
  | noKey
  | missingValue
  | noColon

def ReadCause.message : ReadCause → String
  | unexpectedCharacter => "unexpected character"
  | nesting e => e.reason
  | badType e => e.message
  | noLiteral => "expected a literal"
  | noKey => "expected a key"
  | missingValue => "missing value"
  | noColon => "expected ':' after key"

/-- Why a computation has no value. -/
inductive EvalCause where
  /-- The program asked for it. -/
  | failed (args : List Val)
  | overflow
  | noNumber (v : Val)
  | noList (v : Val)
  | noDict (v : Val)
  | incomparable (a b : Val)
  | untypedParameter (name : String)
  | notCallable (v : Val)
  | noType
  | noZero (t : Ty)
  | tooManyArguments (t : Ty)
  | notConvertible (v : Val) (t : Ty)

def EvalCause.message : EvalCause → String
  | failed args => "fail" ++ String.join (args.map fun v => " " ++ v.plainText)
  | overflow => "integer overflow"
  | noNumber v => "add expects numbers, got " ++ v.text
  | noList v => "append expects a list, got " ++ v.text
  | noDict v => "merge expects dicts, got " ++ v.text
  | incomparable a b => "cannot compare " ++ a.text ++ " with " ++ b.text
  | untypedParameter n => "parameter `" ++ n ++ "` needs a type"
  | notCallable v => "cannot call " ++ v.text
  | noType => "con expects a type"
  | noZero t => "no zero value for " ++ t.text
  | tooManyArguments t => "too many arguments to construct " ++ t.text
  | notConvertible v t => "cannot convert " ++ v.text ++ " to " ++ t.text

inductive Failure where
  /-- Something is not defined yet. In a lenient session `el` is the residual to resolve later,
  otherwise the element that was asked for. -/
  | unresolved (el : Nat)
  | typing (e : TyError) (span : Span)
  | missingArg (param : String)
  | unexpectedTail (span : Span)
  | unexpectedTag (name : String) (span : Span)
  /-- A declaration that needs exactly one argument has another number. -/
  | uniArity (name : String) (span : Span)
  | unsupported (name : String) (sigil : Sigil)
  | redefined (name : String)
  | dispatch (t : Ty) (span : Span)
  | unevaluable (span : Span)
  | eval (cause : EvalCause) (span : Span)
  | read (cause : ReadCause) (span : Span)
  /-- The step budget ran out; nothing is known about the answer. -/
  | exhausted

namespace Failure

/-- Where in the source the failure lies, if that is known. -/
def span? : Failure → Option Span
  | typing _ s | unexpectedTail s | unexpectedTag _ s | uniArity _ s | dispatch _ s | unevaluable
      s | eval _ s
  | read _ s => some s
  | unresolved _ | missingArg _ | unsupported _ _ | redefined _ | exhausted => none

/-- The reason alone, without the place. -/
def reason : Failure → String
  | unresolved _ => "unresolved element"
  | typing e _ => e.message
  | missingArg p => "missing argument for parameter `" ++ p ++ "`"
  | unexpectedTail _ => "unexpected tail element"
  | unexpectedTag n _ => "unexpected tag or declaration `" ++ n ++ "`"
  | uniArity n _ => "declaration `" ++ n ++ "` needs exactly one argument"
  | unsupported n sigil => "no scope supports " ++ sigil.text ++ " names like `" ++ n ++ "`"
  | redefined n => "redefined symbol `" ++ n ++ "`"
  | dispatch t _ => "cannot dispatch on " ++ t.text
  | unevaluable _ => "cannot evaluate unresolved element"
  | eval c _ => c.message
  | read c _ => c.message
  | exhausted => "evaluation ran out of steps"

/-- The reason after the place in brackets. -/
def message (e : Failure) : String :=
  match e.span? with
  | some s => "[" ++ s.text ++ "] " ++ e.reason
  | none => e.reason

end Failure

end Resolvent
