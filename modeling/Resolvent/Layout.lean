import Resolvent.Element.Store
import Resolvent.Failure

/-!
# Layout of arguments

The arguments of a call are grouped by the parameters of its signature. The name of a parameter
decides what it takes: some names take runs of ordinary elements, of tags or of declarations, any
other name takes one ordinary element. The naked marker ends a run of declarations and is dropped.
Where declarations need one argument each, those without one take the argument of the next that has
one; the copies are new elements.
-/

namespace Resolvent.Layout

/-- What a parameter takes. -/
inductive Role where
  /-- Ordinary elements. -/
  | plain
  | tags
  /-- Ordinary elements, then tags. -/
  | args
  | decls
  /-- Declarations with one argument each. -/
  | unis
  /-- One ordinary element. -/
  | single
  deriving DecidableEq, Repr

/-- The role of a parameter, by the key of its name. -/
def Role.of (name : String) : Role :=
  match Param.key name with
  | "plain" | "rest" => .plain
  | "tags" => .tags
  | "args" | "tail" => .args
  | "decls" => .decls
  | "unis" => .unis
  | _ => .single

/-- What an element is among the arguments of a call. -/
inductive Class where
  | ordinary
  | tag
  | decl
  | naked
  deriving DecidableEq, Repr

def Class.of : Content → Class
  | .tag _ _ => .tag
  | .decl n _ => if n = "" then .naked else .decl
  | _ => .ordinary

/-- Grouping adds elements to a store, also where it fails. -/
abbrev Arrange := ExceptT Failure (StateM Store)

/-- The class of an element. -/
def classOf (s : Store) (id : Nat) : Class := Class.of (s.content id)

/-- The leading elements of a class, and the rest. -/
def takeRun (s : Store) (c : Class) (ids : List Nat) : List Nat × List Nat :=
  ids.span fun id => classOf s id == c

/-- An element that no parameter takes. -/
def unexpected (s : Store) (id : Nat) : Failure :=
  match s.content id with
  | .tag n _ => .unexpectedTag (":" ++ n) (s.span id)
  | .decl n _ => .unexpectedTag ("+" ++ n) (s.span id)
  | _ => .unexpectedTail (s.span id)

/-- Name and arguments of a declaration. -/
def declParts (s : Store) (id : Nat) : String × List Nat :=
  match s.content id with
  | .decl n args => (n, args)
  | _ => ("", [])

/-- Copies declarations with the given arguments. -/
def copyDecls (args : List Nat) : List Nat → Arrange (List Nat)
  | [] => pure []
  | id :: ids => do
    let s ← get
    let (copy, s') := s.alloc (.decl (declParts s id).1 args) (s.span id)
    set s'
    let copies ← copyDecls args ids
    return copy :: copies

/-- Gives each declaration one argument: `waiting` holds those that have none yet. -/
def carryForward (waiting : List Nat) : List Nat → Arrange (List Nat)
  | [] => do
    match waiting with
    | [] => return []
    | id :: _ =>
      let s ← get
      throw (.uniArity (declParts s id).1 (s.span id))
  | id :: ids => do
    let s ← get
    match declParts s id with
    | (_, []) => carryForward (waiting ++ [id]) ids
    | (_, [arg]) =>
      let copies ← copyDecls [arg] waiting
      let rest ← carryForward [] ids
      return copies ++ id :: rest
    | (n, _) => throw (.uniArity n (s.span id))

/-- The leading declarations, and the rest without a naked marker. -/
def takeDecls (s : Store) (ids : List Nat) : List Nat × List Nat :=
  match takeRun s .decl ids with
  | (run, id :: rest) => if classOf s id = .naked then (run, rest) else (run, id :: rest)
  | (run, []) => (run, [])

/-- What the parameter `name` takes from the arguments, and the rest. -/
def take (name : String) (ids : List Nat) : Arrange (List Nat × List Nat) := do
  let s ← get
  match Role.of name with
  | .plain => return takeRun s .ordinary ids
  | .tags => return takeRun s .tag ids
  | .args =>
    let (plain, rest) := takeRun s .ordinary ids
    let (tags, rest) := takeRun s .tag rest
    return (plain ++ tags, rest)
  | .decls => return takeDecls s ids
  | .unis =>
    let (run, rest) := takeDecls s ids
    return (← carryForward [] run, rest)
  | .single =>
    match ids with
    | [] => return ([], [])
    | id :: rest =>
      if classOf s id = .ordinary then return ([id], rest)
      else if Param.isOpt name then return ([], id :: rest)
      else throw (unexpected s id)

/-- Groups arguments by parameters, one group for each. -/
def arrange : List Param → List Nat → Arrange (List (List Nat))
  | [], [] => pure []
  | [], id :: _ => do throw (unexpected (← get) id)
  | (name, _) :: ps, ids => do
    let (group, rest) ← take name ids
    if group.isEmpty && !Param.isOpt name then throw (.missingArg (Param.key name))
    let groups ← arrange ps rest
    return group :: groups

/-- What each element of a parameter's group is expected to be: the element type where several
elements are taken, nothing for declarations, otherwise the type of the parameter. -/
def hint (p : Param) : Ty :=
  match Role.of p.1 with
  | .single => p.2
  | .decls | .unis => .void
  | _ => p.2.elem?.getD .void

end Resolvent.Layout
