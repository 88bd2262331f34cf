/-!
# Command line arguments

The words of a command line become an invocation, or are refused. Options stand before or after
other words; a value may be attached to its option or follow it, and one that follows must not look
like an option itself. Every option is given at most once. After a double dash all words are
positional.
-/

namespace Resolvent.Command

/-- Where the source text comes from. -/
inductive Source where
  | inline (text : String)
  | file (path : String)
  | stdin
  deriving DecidableEq, Repr

inductive Invocation where
  | help
  /-- Print the written form of a type. -/
  | type (text : String)
  /-- Resolve expressions and print each with its type. -/
  | resolve (source : Source) (data : Option String) (lenient : Bool) (hint : Option String)
  /-- Evaluate expressions and print the values. -/
  | eval (source : Source) (data : Option String)
  deriving DecidableEq, Repr

/-- An option by its long name, with a short name if it has one. -/
structure OptionSpec where
  long : String
  short : Option Char := none
  takesValue : Bool := false
  deriving Repr

def verboseOption : OptionSpec := { long := "verbose", short := some 'v' }
def helpOption : OptionSpec := { long := "help", short := some 'h' }
def exprOption : OptionSpec := { long := "expr", short := some 'e', takesValue := true }
def dataOption : OptionSpec := { long := "data", takesValue := true }
def partialOption : OptionSpec := { long := "partial" }
def hintOption : OptionSpec := { long := "hint", takesValue := true }

/-- The options understood everywhere. -/
def globalOptions : List OptionSpec := [verboseOption, helpOption]

/-- What has been read of a command line: options with their values, last first, and positional
words in order. -/
structure Words where
  options : List (String × String) := []
  positional : List String := []
  deriving Repr

namespace Words

def has (w : Words) (o : OptionSpec) : Bool := w.options.any fun (n, _) => n == o.long

def value? (w : Words) (o : OptionSpec) : Option String :=
  (w.options.find? fun (n, _) => n == o.long).map (·.2)

/-- Notes an option, unless it is there already. -/
def add? (w : Words) (o : OptionSpec) (value : String) : Option Words :=
  if w.has o then none else some { w with options := (o.long, value) :: w.options }

end Words

/-- Whether a word looks like an option or the double dash. -/
def looksLikeOption (word : String) : Bool :=
  match word.toList with
  | '-' :: _ :: _ => true
  | _ => false

/-- What the letters after a single dash say: options, and whether the last of them still needs a
value. -/
def readShort (specs : List OptionSpec) (w : Words) : List Char → Option (Words × Option OptionSpec)
  | [] => some (w, none)
  | c :: cs => do
    let o ← specs.find? (·.short == some c)
    if o.takesValue then
      match cs with
      | [] => return (w, some o)
      | '=' :: value => return (← w.add? o (String.ofList value), none)
      | value => return (← w.add? o (String.ofList value), none)
    else readShort specs (← w.add? o "") cs

/-- What a word after two dashes says, in the same way. -/
def readLong (specs : List OptionSpec) (w : Words) (word : List Char) :
    Option (Words × Option OptionSpec) := do
  let (name, rest) := word.span (· != '=')
  let o ← specs.find? (·.long == String.ofList name)
  match rest, o.takesValue with
  | _ :: value, true => return (← w.add? o (String.ofList value), none)
  | [], true => return (w, some o)
  | [], false => return (← w.add? o "", none)
  | _ :: _, false => none

/-- Reads the words of a command. `open?` is an option that waits for its value, and `first` stops
at the first positional word, leaving the rest. -/
def readWords (specs : List OptionSpec) (first : Bool) (w : Words) (open? : Option OptionSpec) :
    List String → Option (Words × List String)
  | [] => if open?.isSome then none else some (w, [])
  | word :: rest =>
    match open? with
    | some o => if looksLikeOption word then none
        else do readWords specs first (← w.add? o word) none rest
    | none =>
      match word.toList with
      | ['-', '-'] => some ({ w with positional := w.positional ++ rest }, [])
      | '-' :: '-' :: name => do
        let (w, o) ← readLong specs w name
        readWords specs first w o rest
      | '-' :: c :: cs => do
        let (w, o) ← readShort specs w (c :: cs)
        readWords specs first w o rest
      | _ =>
        if first then some (w, word :: rest)
        else readWords specs first { w with positional := w.positional ++ [word] } none rest

/-- The source that the words ask for: inline text or a file with a name, not both. -/
def sourceOf (w : Words) : Option Source :=
  match w.value? exprOption, w.positional with
  | some text, [] => some (.inline text)
  | none, [] => some .stdin
  | none, [path] => if path = "" then none else some (.file path)
  | _, _ => none

/-- Reads the words after the name of a command. -/
def readCommand (name : String) (words : List String) : Option Invocation := do
  match name with
  | "help" => if words.all ["type", "resolve", "eval", "help"].contains then return .help else none
  | "type" =>
    let (w, _) ← readWords globalOptions false {} none words
    if w.has helpOption then return .help
    match w.positional with
    | [text] => return .type text
    | _ => none
  | "resolve" =>
    let specs := [exprOption, dataOption, partialOption, hintOption] ++ globalOptions
    let (w, _) ← readWords specs false {} none words
    if w.has helpOption then return .help
    return .resolve (← sourceOf w) (w.value? dataOption) (w.has partialOption) (w.value? hintOption)
  | "eval" =>
    let (w, _) ← readWords ([exprOption, dataOption] ++ globalOptions) false {} none words
    if w.has helpOption then return .help
    return .eval (← sourceOf w) (w.value? dataOption)
  | _ => none

/-- Reads a command line; nothing if it is refused. -/
def readArguments (args : List String) : Option Invocation := do
  let (w, rest) ← readWords globalOptions true {} none args
  if w.has helpOption then return .help
  match w.positional, rest with
  | [], name :: words => readCommand name words
  | _, _ => none

end Resolvent.Command
