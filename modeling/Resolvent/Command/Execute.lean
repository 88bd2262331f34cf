import Resolvent.Command.Arguments
import Resolvent.Command.Directory
import Resolvent.Session.Resolve

/-!
# Running commands

A command turns its source text into lines of output and an exit code. The first failure ends it;
the lines before the failure stay.
-/

namespace Resolvent.Command

/-- What a command leaves behind. -/
structure Outcome where
  code : Nat := 0
  stdout : String := ""
  stderr : String := ""
  deriving DecidableEq, Repr

/-- The outcome of a command line that is refused. -/
def usageError : Outcome :=
  { code := 2, stderr := "usage: (type TYPE | resolve | eval) [OPTIONS]\n" }

/-- Lines written before a command ends or fails for a reason. -/
abbrev Output := ExceptT String (StateM String)

def Output.line (text : String) : Output Unit := modify (· ++ text ++ "\n")

/-- The outcome of a command: a failure is reported after the lines so far, with exit code one. -/
def Output.outcome (m : Output Unit) : Outcome :=
  match StateT.run (ExceptT.run m) "" with
  | (.ok _, stdout) => { stdout }
  | (.error reason, stdout) => { code := 1, stdout, stderr := "error: " ++ reason ++ "\n" }

def parseType (src : String) : Except String Ty :=
  (Ty.parse src).mapError fun e => "bad type `" ++ src ++ "`: " ++ e.message

/-- Reads the data of a command: exactly one dict literal. -/
def parseData (src : String) : Except String Val :=
  match Form.read src with
  | .error e => .error ("bad data: " ++ e.message)
  | .ok [.literal (.dict entries) _] => .ok (.dict entries)
  | .ok [_] => .error "data must be a dict literal"
  | .ok _ => .error "data must be a single dict literal"

/-- The scope of a command: the builtins, and the data on top of them. -/
def scopeOf (data : Option Val) : Scope :=
  match data with
  | some v => [.data true v, .catalog .builtins]
  | none => [.catalog .builtins]

/-- How a failure is reported. Of an unresolved element the text is shown. -/
def report (s : Session) : Failure → String
  | .unresolved el => "[" ++ (s.store.span el).text ++ "] unresolved element " ++ s.store.text el
  | e => e.message

/-- Resolves one form and writes it with its type, or the residual in a lenient session. -/
def resolveForm (scope : Scope) (hint : Ty) (s : Session) (id : Nat) : Output Session := do
  let resolved : Run (Nat × Ty) := do
    let r ← Session.resolve scope id hint
    return (r, ← Session.realize r)
  match resolved.exec s with
  | (.ok (r, t), s) =>
    Output.line (s.store.text r ++ " : " ++ t.text)
    return s
  | (.error (.unresolved el), s) =>
    if s.lenient then
      Output.line ("residual " ++ s.store.text el)
      return s
    else throw (report s (.unresolved el))
  | (.error e, s) => throw (report s e)

/-- Runs one form and writes its value. -/
def evalForm (scope : Scope) (s : Session) (id : Nat) : Output Session := do
  match (Session.run scope id .void).exec s with
  | (.ok v, s) =>
    Output.line v.text
    return s
  | (.error e, s) => throw (report s e)

/-- Reads a source into a session and does the same with each of its forms. -/
def eachForm (form : Session → Nat → Output Session) (source : String) (s : Session) :
    Output Unit := do
  match (Session.read source).exec s with
  | (.ok ids, s) => discard (ids.foldlM form s)
  | (.error e, _) => throw e.message

/-- The source text of a command, or its complaint that there is none. -/
def sourceText (source : Source) (text : Except Unreadable String) : Except String String :=
  match source with
  | .inline text => .ok text
  | .file path => text.mapError fun e => "could not read " ++ path ++ ": " ++ e.reason
  | .stdin => text.mapError fun e => "could not read stdin: " ++ e.reason

/-- Runs a command. `text` is what its file or standard input holds, or the reason why that could
not be read. -/
def execute (invocation : Invocation) (text : Except Unreadable String) : Outcome :=
  match invocation with
  | .help => { stdout := usageError.stderr }
  | .type src => Output.outcome do
    Output.line (← ofExcept (parseType src)).text
  | .resolve source data lenient hint => Output.outcome do
    let hint ← match hint with
      | some src => ofExcept (parseType src)
      | none => pure .void
    let src ← ofExcept (sourceText source text)
    let data ← data.mapM fun d => ofExcept (parseData d)
    eachForm (resolveForm (scopeOf data) hint) src (.new .builtins lenient)
  | .eval source data => Output.outcome do
    let src ← ofExcept (sourceText source text)
    let data ← data.mapM fun d => ofExcept (parseData d)
    eachForm (evalForm (scopeOf data)) src (.new .builtins false)

/-- The outcome of a command line in a directory, with the given text on standard input. -/
def runIn (d : Directory) (stdin : String) (args : List String) : Outcome :=
  match readArguments args with
  | none => usageError
  | some invocation =>
    let text := match invocation with
      | .resolve (.file path) _ _ _ | .eval (.file path) _ => d.read path
      | _ => .ok stdin
    execute invocation text

end Resolvent.Command
