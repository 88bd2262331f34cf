import Resolvent.Ty.Basic

/-!
# Builtin operators

The operators that every catalog starts with, by name and signature. All of them are forms:
parameters, then the result.
-/

namespace Resolvent

inductive Builtin where
  /-- Whether all arguments are true, up to the first that is not. -/
  | and
  /-- Whether some argument is true, up to the first that is. -/
  | or
  | not
  /-- Whether the argument is true. -/
  | ok
  | cond
  | fail
  | add
  | cat
  | append
  | merge
  /-- Whether each argument equals the next. -/
  | eq
  /-- Whether each argument is less than the next. -/
  | lt
  /-- Declarations visible to later declarations and to the body. -/
  | scope
  /-- Typed parameters and a body, for a function value. -/
  | lambda
  /-- A value of a given type, made from nothing or from other values. -/
  | construct
  deriving DecidableEq, Repr

namespace Builtin

def all : List Builtin :=
  [and, or, not, ok, cond, fail, add, cat, append, merge, eq, lt, scope, lambda, construct]

def name : Builtin → String
  | and => "and"
  | or => "or"
  | not => "not"
  | ok => "ok"
  | cond => "if"
  | fail => "fail"
  | add => "add"
  | cat => "cat"
  | append => "append"
  | merge => "merge"
  | eq => "eq"
  | lt => "lt"
  | scope => "let"
  | lambda => "fn"
  | construct => "con"

/-- The type variable of generic signatures. -/
def generic : Ty := .var 1 []

def params : Builtin → List Param
  | and | or | fail => [("plain?", .plain .list)]
  | not | ok => [("a", .any)]
  | cond => [("cond", .any), ("then", generic), ("else?", generic)]
  | add => [("plain", .list (.var 1 [.num]))]
  | cat => [("plain", .list .char)]
  | append => [("a", .list generic), ("plain?", .list generic)]
  | merge => [("a", .dict generic), ("plain?", .list (.dict generic))]
  | eq | lt => [("plain", .plain .list)]
  | scope | lambda => [("unis?", .plain .list), ("tail", .plain .list)]
  | construct => [("typ", .typ), ("plain?", .plain .list)]

def result : Builtin → Ty
  | and | or | not | ok | eq | lt => .bool
  | fail => .any
  | cat => .str
  | append => .list generic
  | merge => .dict generic
  | cond | add | scope | lambda | construct => generic

/-- The signature: parameters, then the result. -/
def signature (b : Builtin) : Ty := .form b.name (b.params ++ [("", b.result)])

end Builtin

end Resolvent
