import Resolvent.Element.Form

/-!
# Stores

A store keeps elements under consecutive numbers. Elements are only ever added, and an element
refers to elements that were there before it. So the elements below another one form a tree, which
`unfold` reads off and `insert` adds; `extract` copies the elements below some roots into a store of
their own.
-/

namespace Resolvent

structure Store where
  elements : Array Element := #[]

instance : Inhabited Store := ⟨⟨#[]⟩⟩

namespace Store

def size (s : Store) : Nat := s.elements.size

/-- What a number stands for that has no element. -/
def missing : Element := ⟨.expr [], ⟨0, 0⟩⟩

def get (s : Store) (id : Nat) : Element := s.elements[id]?.getD missing

def content (s : Store) (id : Nat) : Content := (s.get id).content

def span (s : Store) (id : Nat) : Span := (s.get id).span

/-- Adds an element; its number is the old size. -/
def alloc (s : Store) (content : Content) (span : Span) : Nat × Store :=
  (s.size, ⟨s.elements.push ⟨content, span⟩⟩)

@[simp] theorem alloc_fst (s : Store) (c : Content) (span : Span) : (s.alloc c span).1 = s.size :=
  rfl

@[simp] theorem size_alloc (s : Store) (c : Content) (span : Span) :
    (s.alloc c span).2.size = s.size + 1 := by
  simp [alloc, size]

/-- The element that was added is found under its number. -/
@[simp] theorem get_alloc_size (s : Store) (c : Content) (span : Span) :
    (s.alloc c span).2.get s.size = ⟨c, span⟩ := by
  simp [alloc, get, size]

/-- Adding an element leaves the others as they are. -/
theorem get_alloc_of_lt {s : Store} {id : Nat} (c : Content) (span : Span) (h : id < s.size) :
    (s.alloc c span).2.get id = s.get id := by
  have hne : id ≠ s.elements.size := Nat.ne_of_lt h
  simp [alloc, get, Array.getElem?_push, hne]

/-- The form below an element, cut off at a depth. -/
def unfoldWithin (s : Store) : Nat → Nat → Form
  | 0, _ => .expr [] ⟨0, 0⟩
  | depth + 1, id =>
    let below := s.unfoldWithin depth
    let span := s.span id
    match s.content id with
    | .literal v => .literal v span
    | .name n d => .name n d span
    | .tag n el => .tag n (el.map below) span
    | .decl n args => .decl n (args.map below) span
    | .expr items => .expr (items.map below) span
    | .call c => .call c.callable (c.groups.map (·.map below)) c.sig span

/-- The form below an element. A chain of references that comes back to no element is not longer
than the store. -/
def unfold (s : Store) (id : Nat) : Form := s.unfoldWithin s.size id

/-- The text of an element. -/
def text (s : Store) (id : Nat) : String := (s.unfold id).text

mutual

/-- Adds the elements of a form, children first, and returns the number of the form itself. -/
def insert (s : Store) : Form → Nat × Store
  | .literal v span => s.alloc (.literal v) span
  | .name n d span => s.alloc (.name n d) span
  | .tag n none span => s.alloc (.tag n none) span
  | .tag n (some f) span =>
    let (id, s) := s.insert f
    s.alloc (.tag n (some id)) span
  | .decl n args span =>
    let (ids, s) := s.insertAll args
    s.alloc (.decl n ids) span
  | .expr items span =>
    let (ids, s) := s.insertAll items
    s.alloc (.expr ids) span
  | .call c groups sig span =>
    let (groups, s) := s.insertGroups groups
    s.alloc (.call ⟨c, groups, sig⟩) span

def insertAll (s : Store) : List Form → List Nat × Store
  | [] => ([], s)
  | f :: fs =>
    let (id, s) := s.insert f
    let (ids, s) := s.insertAll fs
    (id :: ids, s)

def insertGroups (s : Store) : List (List Form) → List (List Nat) × Store
  | [] => ([], s)
  | fs :: gs =>
    let (ids, s) := s.insertAll fs
    let (groups, s) := s.insertGroups gs
    (ids :: groups, s)

end

/-- Copies an element with what is below it, children first, down to a depth. -/
def copy (s : Store) : Nat → Nat → StateM Store Nat
  | 0, _ => modifyGet (·.alloc (.expr []) ⟨0, 0⟩)
  | depth + 1, id => do
    let below := s.copy depth
    let content ← match s.content id with
      | .literal v => pure (.literal v)
      | .name n d => pure (.name n d)
      | .tag n el => Content.tag n <$> el.mapM below
      | .decl n args => Content.decl n <$> args.mapM below
      | .expr items => Content.expr <$> items.mapM below
      | .call c => (fun groups => Content.call { c with groups }) <$> c.groups.mapM (·.mapM below)
    modifyGet (·.alloc content (s.span id))

/-- Copies the elements below the roots into a store of their own, an element once for each way to
it. -/
def extract (s : Store) (roots : List Nat) : List Nat × Store := (roots.mapM (s.copy s.size)).run {}

/-- The value that an element stands for, if it is known. -/
def val? (s : Store) (id : Nat) : Option Val :=
  match s.content id with
  | .literal v => some v
  | .name _ (some d) => d.val
  | _ => none

/-- The callable that an element stands for, if it is known. -/
def callable? (s : Store) (id : Nat) : Option Callable :=
  match s.content id with
  | .literal (.fn f) => some f
  | .name _ (some d) => d.callable
  | _ => none

/-- The type of an element as it stands, variables not replaced. Tags and declarations have the type
of what they mark. -/
def typeOf (s : Store) (id : Nat) : Ty :=
  let below (c : Nat) : Ty := if _ : c < id then s.typeOf c else .void
  match s.content id with
  | .literal v => v.typeOf
  | .name _ d => (d.map (·.typ)).getD .void
  | .tag _ (some el) => below el
  | .tag _ none => .bool
  | .decl _ args => (args.getLast?.map below).getD .void
  | .expr _ => .void
  | .call c => c.typ.result
termination_by id

end Store

end Resolvent
