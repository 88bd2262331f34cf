/-!
# Files of a directory

What a command finds under a path. A directory is flat here: it holds files with their texts and
nothing else. Empty steps of a path and single dots lead nowhere.
-/

namespace Resolvent.Command

/-- Why a file cannot be read. -/
inductive Unreadable where
  | missing
  | denied
  | notDirectory
  | directory
  | other (reason : String)
  deriving DecidableEq, Repr

/-- The reason in the words of the system, with its number. -/
def Unreadable.reason : Unreadable → String
  | missing => "No such file or directory (os error 2)"
  | denied => "Permission denied (os error 13)"
  | notDirectory => "Not a directory (os error 20)"
  | directory => "Is a directory (os error 21)"
  | other reason => reason

structure Directory where
  files : List (String × String) := []

namespace Directory

def file? (d : Directory) (name : String) : Option String :=
  (d.files.find? fun (n, _) => n == name).map (·.2)

/-- The steps of a path: what stands between the slashes. -/
def steps (path : String) : List String := (path.toList.splitOnP (· == '/')).map String.ofList

/-- The text under a path. A file ends its path, and what lies outside the directory is not found.
-/
def read (d : Directory) (path : String) : Except Unreadable String :=
  if path.toList.head? = some '/' then .error .missing
  else match (steps path).dropWhile fun s => s == "" || s == "." with
    | [] => .error .directory
    | name :: rest =>
      match d.file? name with
      | none => .error .missing
      | some text => if rest.isEmpty then .ok text else .error .notDirectory

end Directory

end Resolvent.Command
