import Resolvent.Proofs.Session.Lawful

/-!
# Sessions that arise

A session serves requests: to read a source, to lay out arguments, to resolve, to evaluate and to
run elements, with a change of mode in between.
-/

namespace Resolvent

open Run

/-- What a session can be asked for. -/
inductive Request where
  | read (source : String)
  | layout (params : List Param) (args : List Nat)
  | resolve (scope : Scope) (id : Nat) (hint : Ty)
  | eval (scope : Scope) (id : Nat) (hint : Ty)
  | run (scope : Scope) (id : Nat) (hint : Ty)

namespace Request

def ids : Request → List Nat
  | read _ => []
  | layout _ args => args
  | resolve _ id _ | eval _ id _ | run _ id _ => [id]

/-- Serves a request; the result are the elements that it returns. -/
def serve : Request → Run (List Nat)
  | read source => Session.read source
  | layout params args => do return (← arrange params args).flatten
  | resolve scope id hint => do return [← Session.resolve scope id hint]
  | eval scope id hint => do
    let _ ← Session.eval scope id hint
    return []
  | run scope id hint => do
    let _ ← Session.run scope id hint
    return []

end Request

namespace Session

variable {s s' s'' : Session} {q : Request} {catalog : Catalog} {lenient : Bool}

lemma keeps_addForms (h : s.Orderly) {forms : List Form} (hraw : Form.areRaw forms) :
    Keeps (addForms forms) s fun ids st => ∀ id ∈ ids, id < st.size := by
  have hadded := Store.added_insertAll h forms hraw
  have hgrown : s.Grown { s with store := (s.store.insertAll forms).2 } :=
    ⟨hadded.kept, hadded.orderly, rfl, rfl, id⟩
  exact Ends.get_bind (Ends.of_exec rfl ⟨hgrown, hadded.lt_size⟩)

lemma keeps_read (h : s.Orderly) (source : String) : Keeps (read source) s fun ids st => ∀ id ∈ ids,
    id < st.size := by
  have hread := Form.definite_read source
  unfold read
  cases hforms : Form.read source with
  | ok forms =>
    rw [hforms] at hread
    exact keeps_addForms h hread
  | error e =>
    rw [hforms] at hread
    refine .bind (keeps_addForms h (Form.areRaw_leftover source)) fun _ s₁ hg₁ _ => ?_
    exact Ends.of_exec rfl ⟨.refl hg₁.orderly, fun el he => absurd he (hread el)⟩

lemma keeps_serve (h : s.Orderly) (hids : ∀ id ∈ q.ids, id < s.store.size) :
    Keeps q.serve s fun ids st => ∀ id ∈ ids, id < st.size := by
  cases q with
  | read source => exact keeps_read h source
  | layout params args =>
    exact .bind (keeps_arrange params h hids) fun groups s₁ hg₁ hgroups => .pure hg₁.orderly hgroups
  | resolve scope id hint =>
    refine .bind (keeps_resolve h (hids id (by simp [Request.ids]))) fun r s₁ hg₁ hr =>
      .pure hg₁.orderly ?_
    simpa using hr.lt_size
  | eval scope id hint =>
    exact .bind (keeps_eval h (hids id (by simp [Request.ids]))) fun v s₁ hg₁ _ =>
      .pure hg₁.orderly nofun
  | run scope id hint =>
    exact .bind (keeps_run h (hids id (by simp [Request.ids]))) fun v s₁ hg₁ _ =>
      .pure hg₁.orderly nofun

/-- One request about elements of the session, served or refused, or a change of mode. -/
inductive Step (s : Session) : Session → Prop
  | serve (q : Request) : (∀ id ∈ q.ids, id < s.store.size) → Step s (q.serve.exec s).2
  | mode (lenient : Bool) : Step s { s with lenient }

/-- The second session arises from the first by any number of requests. -/
def Reaches : Session → Session → Prop := Relation.ReflTransGen Step

lemma orderly_new (catalog : Catalog) (lenient : Bool) : (new catalog lenient).Orderly :=
  Store.Orderly.empty catalog

/-- A session over the builtins that has read a source. -/
def opened (source : String) : Session := ((read source).exec (new .builtins false)).2

lemma grown_opened (source : String) : (new .builtins false).Grown (opened source) :=
  (keeps_read (orderly_new _ _) source).1

lemma Step.kept (h : s.Orderly) (hstep : s.Step s') : s.store.Kept s'.store ∧ s'.Orderly ∧
    s'.catalog = s.catalog := by
  cases hstep with
  | serve q hids =>
    have hg := (keeps_serve h hids).1
    exact ⟨hg.store, hg.orderly, hg.catalog⟩
  | mode lenient => exact ⟨.refl _, h, rfl⟩

lemma Reaches.kept (h : s.Orderly) (hreach : s.Reaches s') : s.store.Kept s'.store ∧ s'.Orderly ∧
    s'.catalog = s.catalog := by
  induction hreach with
  | refl => exact ⟨.refl _, h, rfl⟩
  | tail _ hstep ih =>
    obtain ⟨hkept, horderly, hcatalog⟩ := ih
    obtain ⟨hkept', horderly', hcatalog'⟩ := hstep.kept horderly
    exact ⟨hkept.trans hkept', horderly', hcatalog'.trans hcatalog⟩

lemma Reaches.sound (h : s.Orderly) (hreach : s.Reaches s') (hs : s.subst.Sound) :
    s'.subst.Sound := by
  induction hreach with
  | refl => exact hs
  | tail hreach hstep ih =>
    cases hstep with
    | serve q hids => exact (keeps_serve (kept h hreach).2.1 hids).1.subst ih
    | mode lenient => exact ih

def sample : Session :=
  ((Request.read "(if (not (not x)) (fn +a int + (add a y)) z)").serve.exec (new .builtins true)).2

def sampleScope : Scope :=
  [.locals [("x", .typed .bool), ("y", .typed .int),
    ("z", .typed (.func "" [("a", .int), ("", .int)]))], .catalog .builtins]

-- All that the samples below need to know is computed once.
lemma match_resolve_sample : (sample.store.size == 17 && (match (read "a [x]").exec sample with
      | (r, s') => !r.isOk && s'.store.size == 18) &&
          match (resolve sampleScope 16 .void).exec sample with
      | (.ok r, s') => r == 41 && s'.store.text r == "(if (ok x) (fn +a int (add a y)) z)"
      | _ => false) = true := by
  decide +kernel

lemma size_sample : sample.store.size = 17 ∧ ((read "a [x]").exec sample).1.isOk = false ∧
    ((read "a [x]").exec sample).2.store.size = 18 := by
  have hsample := match_resolve_sample
  rw [Bool.and_eq_true] at hsample
  simpa using hsample.1

lemma resolve_sample : ∃ s', (resolve sampleScope 16 .void).exec sample = (.ok 41, s') ∧
    s'.store.text 41 = "(if (ok x) (fn +a int (add a y)) z)" := by
  have hsample := match_resolve_sample
  rw [Bool.and_eq_true] at hsample
  obtain ⟨-, hsample⟩ := hsample
  split at hsample
  · next r s' hr =>
    rw [Bool.and_eq_true, beq_iff_eq, beq_iff_eq] at hsample
    obtain ⟨rfl, htext⟩ := hsample
    exact ⟨s', hr, htext⟩
  · cases hsample

lemma reaches_sample : (new .builtins true).Reaches sample := .single (.serve (.read _) nofun)

/-- Nothing that can be seen from a resolved element is an expression or a name that waits for its
definition. -/
theorem resolve_complete {scope : Scope} {id r : Nat} {hint : Ty}
    (hs : (new catalog lenient).Reaches s)
    (hid : id < s.store.size) (hr : (resolve scope id hint).exec s = (.ok r, s')) (x : Nat)
    (hx : Relation.ReflTransGen s'.store.Sees r x) : (∀ items, s'.store.content x ≠ .expr items) ∧
    ∀ n d, s'.store.content x = .name n d → ∃ known, d = some known ∧ known.pending = false := by
  obtain ⟨_, horderly, _⟩ := hs.kept (orderly_new catalog lenient)
  have hcomplete : s'.store.Complete r := ((keeps_resolve horderly hid).at_exec hr).2
  have hres := hcomplete x hx
  constructor
  · intro items hc
    simp [hc, Content.isResolved] at hres
  · intro n d hc
    simpa [hc, Content.isResolved, Option.any_eq_true] using hres

/-- What resolving makes of the sample holds a function literal and a negation of a negation, and is
complete. -/
theorem resolve_complete_sample : ∃ r s', (resolve sampleScope 16 .void).exec sample = (.ok r, s') ∧
    s'.store.text r = "(if (ok x) (fn +a int (add a y)) z)" ∧
    ∀ x, Relation.ReflTransGen s'.store.Sees r x → ∀ items, s'.store.content x ≠ .expr items := by
  obtain ⟨s', hr, htext⟩ := resolve_sample
  exact ⟨41, s', hr, htext,
    fun x hx => (resolve_complete reaches_sample (by simp [size_sample.1]) hr x hx).1⟩

end Session

end Resolvent
