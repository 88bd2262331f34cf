import Resolvent.Proofs.Independence.Parallel
import Mathlib.Data.List.TakeWhile

/-!
# Arguments in two sessions at once

Arguments are grouped by the names of parameters and by what elements are, which an element shares
with its copy.
-/

namespace Resolvent

open Run Subst Option
open List hiding take

namespace Copying

variable {α α' β β' : Type} {W : Copying} {s s' : Session} {P : α → α' → Store → Store → Prop}
  {Q : β → β' → Store → Store → Prop} {id i : Nat}

/-! ## Grouping arguments -/

section

open Layout

variable {name : String} {ids waiting args : List Nat} {st st' : Store}

lemma Copied.takeRun_eq (h : W.Copied st st') (hids : ∀ i ∈ ids, i < st.size) (k : Layout.Class) :
    takeRun st' k (ids.map W.place) =
    ((takeRun st k ids).1.map W.place, (takeRun st k ids).2.map W.place) := by
  unfold takeRun
  induction ids with
  | nil => rfl
  | cons id ids ih =>
    have hrest := ih fun i hi => hids i (by simp [hi])
    simp only [span_eq_takeWhile_dropWhile, map_cons, takeWhile_cons, dropWhile_cons, Prod.mk.injEq,
      h.classOf_eq (hids id (by simp))] at hrest ⊢
    split
    · simp [hrest]
    · simp

lemma Copied.takeDecls_eq (h : W.Copied st st') (hids : ∀ i ∈ ids, i < st.size) :
    takeDecls st' (ids.map W.place) =
    ((takeDecls st ids).1.map W.place, (takeDecls st ids).2.map W.place) := by
  have hrun := h.takeRun_eq hids .decl
  unfold takeDecls
  rw [hrun]
  cases hrest : takeRun st .decl ids with
  | mk run rest =>
    cases rest with
    | nil => rfl
    | cons id rest =>
      have hmem : id ∈ (takeRun st .decl ids).2 := by simp [hrest]
      have hid : id < st.size := hids id (mem_of_mem_takeRun (.inr hmem))
      simp only [map_cons, h.classOf_eq hid]
      split <;> rfl

lemma Copied.operator_declParts (h : W.Copied st st') (hid : id < st.size)
    (hc : classOf st id = .decl) : W.operator (declParts st id).1 = none := by
  have hplain := h.plain id hid
  unfold classOf at hc
  unfold declParts
  cases hcontent : st.content id with
  | decl n args =>
    rw [hcontent] at hplain
    exact hplain.1
  | _ => simp [hcontent, Class.of] at hc

lemma Copied.operand_declParts {x : Nat} (h : W.Copied st st') (hid : id < st.size)
    (hx : x ∈ (declParts st id).2) : W.Operand st x := by
  have hplain := h.plain id hid
  unfold declParts at hx
  cases hcontent : st.content id with
  | decl n args =>
    rw [hcontent] at hplain hx
    exact hplain.2 x hx
  | _ => simp [hcontent] at hx

lemma declParts_kept (hk : st.Kept st') (hid : id < st.size) :
    declParts st' id = declParts st id := by
  rw [declParts, declParts, hk.content_eq hid]

lemma classOf_of_mem_takeDecls (h : i ∈ (takeDecls st ids).1) : classOf st i = .decl := by
  have hrun (hi : i ∈ (takeRun st .decl ids).1) : classOf st i = .decl := by
    rw [takeRun, span_eq_takeWhile_dropWhile] at hi
    simpa using mem_takeWhile_imp hi
  revert h
  fun_cases takeDecls st ids <;> grind

lemma Copied.bare_unexpected (h : W.Copied st st') (hid : id < st.size) :
    (unexpected st' (W.place id)).bare = (unexpected st id).bare := by
  unfold unexpected
  rw [h.content_eq id hid]
  cases st.content id <;> rfl

lemma Parallel.onStore_bind {m : Arrange α} {m' : Arrange α'} {k : α → Arrange β}
    {k' : α' → Arrange β'} (h : W.Parallel (onStore m) (onStore m') s s' P)
    (hk : ∀ a a' t t', W.Grown s s' t t' → P a a' t.store t'.store →
    W.Parallel (onStore (k a)) (onStore (k' a')) t t' Q) :
    W.Parallel (onStore (m >>= k)) (onStore (m' >>= k')) s s' Q := by
  rw [Run.onStore_bind, Run.onStore_bind]
  exact h.bind hk

lemma Parallel.onStore_get_bind {k k' : Store → Arrange α} {P : α → α → Store → Store → Prop}
    (h : W.Parallel (onStore (k s.store)) (onStore (k' s'.store)) s s' P) :
    W.Parallel (onStore (get >>= k)) (onStore (get >>= k')) s s' P :=
  h

def Operands (W : Copying) (ids ids' : List Nat) (st _ : Store) : Prop :=
  ids' = ids.map W.place ∧ ∀ i ∈ ids, W.Operand st i

lemma parallel_copyDecls (h : W.Tracks s s') (hargs : ∀ a ∈ args, W.Operand s.store a)
    (hids : ∀ i ∈ ids, i < s.store.size)
    (hnames : ∀ i ∈ ids, W.operator (declParts s.store i).1 = none) :
    W.Parallel (onStore (copyDecls args ids))
    (onStore (copyDecls (args.map W.place) (ids.map W.place))) s s' W.Operands := by
  induction ids generalizing s s' with
  | nil => exact .pure h ⟨rfl, nofun⟩
  | cons id ids ih =>
    have hparts := h.store.declParts_eq (hids id (by simp))
    have hplain : W.Plain s.store (.decl (declParts s.store id).1 args) :=
      ⟨hnames id (by simp), hargs⟩
    have hcopy : W.content (.decl (declParts s.store id).1 args) =
      .decl (declParts s'.store (W.place id)).1 (args.map W.place) := by
      rw [hparts]
      rfl
    change W.Parallel (alloc (.decl (declParts s.store id).1 args) (s.store.span id) >>= fun copy =>
        onStore (copyDecls args ids >>= fun copies => pure (copy :: copies)))
      (alloc (.decl (declParts s'.store (W.place id)).1 (args.map W.place))
      (s'.store.span (W.place id)) >>= fun copy =>
        onStore (copyDecls (args.map W.place) (ids.map W.place) >>= fun copies =>
          pure (copy :: copies))) s s' _
    refine .bind (.alloc_copy h hplain hcopy) ?_
    rintro copy _ t t' hg ⟨rfl, hlt, hc⟩
    have hnames' (i : Nat) (hi : i ∈ ids) : W.operator (declParts t.store i).1 = none := by
      rw [declParts_kept hg.left (hids i (by simp [hi]))]
      exact hnames i (by simp [hi])
    refine .onStore_bind (ih hg.tracks (hg.operands hargs) (fun i hi =>
        (hids i (by simp [hi])).trans_le hg.left.size_le) hnames') ?_
    rintro copies _ u u' hg' ⟨rfl, hcopies⟩
    have hcopy : W.Operand u.store copy := (Operand.of_content hlt hc nofun).kept hg'.left
    exact .pure hg'.tracks ⟨rfl, forall_mem_cons.2 ⟨hcopy, hcopies⟩⟩

lemma parallel_carryForward (h : W.Tracks s s') (hids : ∀ i ∈ ids ++ waiting, W.Operand s.store i)
    (hnames : ∀ i ∈ ids ++ waiting, W.operator (declParts s.store i).1 = none) :
    W.Parallel (onStore (carryForward waiting ids))
    (onStore (carryForward (waiting.map W.place) (ids.map W.place))) s s' W.Operands := by
  induction ids generalizing s s' waiting with
  | nil =>
    cases waiting with
    | nil => exact .pure h ⟨rfl, by simp⟩
    | cons id waiting =>
      have hparts := h.store.declParts_eq (hids id (by simp)).1
      refine .throw_bare h ?_ (by simp)
      simp [hparts, Failure.bare]
  | cons id ids ih =>
    have hid : W.Operand s.store id := hids id (by simp)
    have hparts := h.store.declParts_eq hid.1
    refine .onStore_get_bind ?_
    rw [hparts]
    rcases hdecl : declParts s.store id with ⟨name, _ | ⟨arg, _ | ⟨arg', args⟩⟩⟩
    · have hperm (i : Nat) : i ∈ ids ++ (waiting ++ [id]) ↔ i ∈ id :: ids ++ waiting := by grind
      have hoperands (i : Nat) (hi : i ∈ ids ++ (waiting ++ [id])) : W.Operand s.store i :=
        hids i ((hperm i).1 hi)
      simpa using ih h hoperands fun i hi => hnames i ((hperm i).1 hi)
    · have harg : ∀ a ∈ [arg], W.Operand s.store a := by
        simpa using h.store.operand_declParts hid.1 (by simp [hdecl])
      refine .onStore_bind (parallel_copyDecls h harg (fun i hi => (hids i (by simp [hi])).1)
        fun i hi => hnames i (by simp [hi])) ?_
      rintro copies _ t t' hg ⟨rfl, hcopies⟩
      have hrest (i : Nat) (hi : i ∈ ids ++ []) : W.operator (declParts t.store i).1 = none := by
        have hi : i ∈ id :: ids ++ waiting := by simp_all
        rw [declParts_kept hg.left (hids i hi).1]
        exact hnames i hi
      refine .onStore_bind (ih hg.tracks (hg.operands fun i hi => hids i (by simp_all)) hrest) ?_
      rintro decls _ u u' hg' ⟨rfl, hdecls⟩
      refine .pure hg'.tracks ⟨by simp, fun i hi => ?_⟩
      rcases mem_append.1 hi with hi | hi
      · exact (hcopies i hi).kept hg'.left
      · rcases mem_cons.1 hi with rfl | hi
        · exact hid.kept (hg.trans hg').left
        · exact hdecls i hi
    · exact .throw_bare h rfl (by simp)

lemma parallel_take (h : W.Tracks s s') (hids : ∀ i ∈ ids, W.Operand s.store i) :
    W.Parallel (onStore (take name ids)) (onStore (take name (ids.map W.place))) s s'
    fun p p' st st' =>
      W.Operands p.1 p'.1 st st' ∧ W.Operands p.2 p'.2 st st' := by
  have hlt (i : Nat) (hi : i ∈ ids) : i < s.store.size := (hids i hi).1
  have hrun (k : Layout.Class) (ids' : List Nat) (hsub : ∀ i ∈ ids', i ∈ ids) :
      W.Operands (takeRun s.store k ids').1 (takeRun s'.store k (ids'.map W.place)).1
      s.store s'.store ∧
        W.Operands (takeRun s.store k ids').2 (takeRun s'.store k (ids'.map W.place)).2 s.store
        s'.store := by
    rw [h.store.takeRun_eq (fun i hi => hlt i (hsub i hi)) k]
    exact ⟨⟨rfl, fun i hi => hids i (hsub i (mem_of_mem_takeRun (.inl hi)))⟩,
      rfl, fun i hi => hids i (hsub i (mem_of_mem_takeRun (.inr hi)))⟩
  have hdecls : ∀ i, i ∈ (takeDecls s.store ids).1 ∨ i ∈ (takeDecls s.store ids).2 →
    W.Operand s.store i := fun i hi => hids i (mem_of_mem_takeDecls hi)
  refine .onStore_get_bind ?_
  split
  · exact .pure h (hrun .ordinary ids fun _ hi => hi)
  · exact .pure h (hrun .tag ids fun _ hi => hi)
  · obtain ⟨hplain, hrest⟩ := hrun .ordinary ids fun _ hi => hi
    obtain ⟨htags, hrest'⟩ := hrun .tag (takeRun s.store .ordinary ids).2 fun i hi =>
      mem_of_mem_takeRun (.inr hi)
    rw [← hrest.1] at htags hrest'
    refine .pure h ⟨⟨?_, ?_⟩, hrest'⟩
    · exact (congrArg₂ (· ++ ·) hplain.1 htags.1).trans map_append.symm
    · exact fun i hi => (mem_append.1 hi).elim (hplain.2 i) (htags.2 i)
  · rw [h.store.takeDecls_eq hlt]
    exact .pure h ⟨⟨rfl, fun i hi => hdecls i (.inl hi)⟩, rfl, fun i hi => hdecls i (.inr hi)⟩
  · rw [h.store.takeDecls_eq hlt]
    have hrun (i : Nat) (hi : i ∈ (takeDecls s.store ids).1 ++ []) : W.Operand s.store i := by
      rw [append_nil] at hi
      exact hdecls i (.inl hi)
    have hnames (i : Nat) (hi : i ∈ (takeDecls s.store ids).1 ++ []) :
      W.operator (declParts s.store i).1 = none := by
      have hmem : i ∈ (takeDecls s.store ids).1 := by rwa [append_nil] at hi
      exact h.store.operator_declParts (hrun i hi).1 (classOf_of_mem_takeDecls hmem)
    refine .onStore_bind (parallel_carryForward h hrun hnames) ?_
    intro decls decls' t t' hg hrun
    exact .pure hg.tracks ⟨hrun, rfl, hg.operands fun i hi => hdecls i (.inr hi)⟩
  · cases ids with
    | nil => exact .pure h ⟨⟨rfl, nofun⟩, rfl, nofun⟩
    | cons id rest =>
      have hid : W.Operand s.store id := hids id (by simp)
      have hrest : ∀ i ∈ rest, W.Operand s.store i := fun i hi => hids i (by simp [hi])
      simp only [map_cons, h.store.classOf_eq hid.1]
      split
      · exact .pure h ⟨⟨rfl, by simpa using hid⟩, rfl, hrest⟩
      · split
        · exact .pure h ⟨⟨rfl, nofun⟩, rfl, hids⟩
        · exact .throw_bare h (h.store.bare_unexpected hid.1) (final_unexpected _ _).2

lemma parallel_arrange {params params' : List Param}
    (hparams : params'.map Prod.fst = params.map Prod.fst)
    (h : W.Tracks s s') (hids : ∀ i ∈ ids, W.Operand s.store i) :
    W.Parallel (Run.arrange params ids) (Run.arrange params' (ids.map W.place)) s s'
    fun groups groups' st _ =>
      groups' = groups.map (·.map W.place) ∧ ∀ i ∈ groups.flatten, W.Operand st i := by
  change W.Parallel (onStore (Layout.arrange params ids))
    (onStore (Layout.arrange params' (ids.map W.place))) s s' _
  induction params generalizing s s' ids params' with
  | nil =>
    cases map_eq_nil_iff.1 hparams
    cases ids with
    | nil => exact .pure h ⟨rfl, nofun⟩
    | cons id ids =>
      exact .throw_bare h (h.store.bare_unexpected (hids id (by simp)).1) (final_unexpected _ _).2
  | cons p ps ih =>
    obtain ⟨⟨name, t⟩, ps', rfl, hname, hps⟩ := map_eq_cons_iff.1 hparams
    cases hname
    refine .onStore_bind (parallel_take h hids) ?_
    rintro ⟨group, rest⟩ ⟨_, _⟩ t t' hg ⟨⟨rfl, hgroup⟩, rfl, hrest⟩
    simp only [isEmpty_map]
    split
    · exact .throw_bare hg.tracks rfl nofun
    · refine .onStore_bind (ih hps hg.tracks hrest) ?_
      rintro groups _ u u' hg' ⟨rfl, hgroups⟩
      refine .pure hg'.tracks ⟨rfl, fun i hi => ?_⟩
      exact (mem_append.1 hi).elim (hg'.operands hgroup i) (hgroups i)

end

/-! ## Arguments -/

structure Resolves (W : Copying) (R R' : Steps) : Prop where
  operand : ∀ {s s' : Session} {scope scope' : Scope} {id : Nat} (hint : Ty), W.Tracks s s' →
  W.Scopes scope scope' → W.Operand s.store id →
    W.Parallel (R.resolve scope id hint) (R'.resolve scope' (W.place id) (W.ty hint)) s s' W.Result
  operator : ∀ {s s' : Session} {scope scope' : Scope} {id : Nat} {n : String}
  {d : Option Definition} {c : Callable},
    W.Tracks s s' → W.Scopes scope scope' → id < s.store.size → s.store.content id = .name n d →
    W.operator n = some c →
    W.Parallel (R.resolve scope id .void) (R'.resolve scope' (W.place id) .void) s s'
    fun r r' st st' =>
      st.callable? r = some c ∧ st'.callable? r' = some c

/-- An element that has been tried and its copy; its type is known if it has been resolved. -/
def Tried (W : Copying) (p p' : Nat × Bool) (st st' : Store) : Prop :=
  p' = (W.place p.1, p.2) ∧ W.Operand st p.1 ∧ (p.2 → W.Typed st st' p.1)

variable {scope scope' : Scope} {R R' : Steps} {ids : List Nat} {hint : Ty} {c : Call}

lemma residual_eq_throw {e : Failure} (he : ∀ el, e ≠ .unresolved el) : residual e = throw e := by
  cases e with
  | unresolved el => exact absurd rfl (he el)
  | _ => rfl

lemma parallel_residual {e e' : Failure} (h : W.Tracks s s') (he : W.Fails s.store e e') :
    W.Parallel (residual e) (residual e') s s' fun r r' st _ => r' = W.place r ∧
    W.Operand st r := by
  by_cases hel : ∃ el, e = .unresolved el
  · obtain ⟨el, rfl⟩ := hel
    obtain ⟨rfl, hop⟩ := he.2 el rfl
    refine .get_bind (.ite (by rw [h.lenient]) (fun _ => .pure h ⟨rfl, hop⟩) fun _ =>
      .throw_unresolved h hop)
  · have hne (el : Nat) : e ≠ .unresolved el := fun heq => hel ⟨el, heq⟩
    rw [residual_eq_throw hne, residual_eq_throw (Failure.ne_unresolved_of_bare_eq he.1 hne)]
    exact .throw h he

structure At (st : Store) (id : Nat) (c : Call) : Prop where
  lt_size : id < st.size
  content : st.content id = .call c
  sig : c.sig.isSome

namespace At

variable {st st' : Store}

lemma kept (h : At st id c) (hk : st.Kept st') : At st' id c :=
  ⟨h.lt_size.trans_le hk.size_le, (hk.content_eq h.lt_size).trans h.content, h.sig⟩

lemma typed (h : At st id c) (hst : W.Copied st st') : W.Typed st st' id :=
  .call hst h.lt_size h.content h.sig

lemma args (h : At st id c) (hst : W.Copied st st') : ∀ a ∈ c.groups.flatten, W.Operand st a :=
  (hst.plain_of h.lt_size h.content).2

lemma group (h : At st id c) (hst : W.Copied st st') (i : Nat) : ∀ a ∈ c.group i, W.Operand st a :=
  fun a ha => h.args hst a (c.mem_flatten_of_mem_group ha)

lemma arg? (h : At st id c) (hst : W.Copied st st') {a : Nat} (ha : c.arg? i = some a) :
    W.Operand st a :=
  h.group hst i a (mem_of_mem_head? ha)

end At

lemma parallel_finish {groups : List (List Nat)} {ok : Bool} (h : W.Tracks s s')
    (hc : At s.store id c) (hargs : ∀ a ∈ groups.flatten, W.Operand s.store a) :
    W.Parallel (finish id c groups ok)
    (finish (W.place id) (W.call c) (groups.map (·.map W.place)) ok) s s'
      fun r r' st _ => r' = W.place r ∧ At st r { c with groups } := by
  have hplain := h.store.plain_of hc.lt_size hc.content
  have hsame : groups.map (·.map W.place) = (W.call c).groups ↔ groups = c.groups :=
    (map_injective_iff.2 (map_injective_iff.2 W.mono.injective)).eq_iff
  refine .ite hsame (fun heq => .pure_bind ?_) fun _ => .spanOf_bind ?_
  · subst heq
    exact .finished h (hc.typed h.store).operand fun _ => ⟨rfl, by cases c; exact hc⟩
  · refine .bind (.alloc (e := .call { c with groups }) h ⟨hplain.1, hargs⟩) ?_
    rintro next _ t t' hg ⟨rfl, hlt, hnext⟩
    have hnext : At t.store next { c with groups } := ⟨hlt, hnext, hc.sig⟩
    exact .finished hg.tracks (hnext.typed hg.tracks.store).operand fun _ => ⟨rfl, hnext⟩

lemma parallel_needArg {param : String} (h : W.Tracks s s') :
    W.Parallel (needArg c i param) (needArg (W.call c) i param) s s' fun a a' _ _ => a' =
    W.place a ∧ c.arg? i = some a := by
  unfold needArg
  rw [arg?_call]
  cases ha : c.arg? i with
  | none => exact .throw_bare h rfl nofun
  | some a => exact .pure h ⟨rfl, rfl⟩

lemma parallel_declArg {decl : Nat} (h : W.Tracks s s') (hdecl : decl < s.store.size) :
    W.Parallel (declArg decl) (declArg (W.place decl)) s s' fun p p' st _ =>
      p' = (p.1, W.place p.2) ∧ st.content decl = .decl p.1 [p.2] := by
  refine .get_bind ?_
  rw [h.store.content_eq decl hdecl]
  cases hc : s.store.content decl with
  | decl n args =>
    match args with
    | [] | _ :: _ :: _ => exact .throw_bare h rfl nofun
    | [arg] => exact .pure h ⟨rfl, hc⟩
  | _ => exact .throw_bare h rfl nofun

lemma hint_rename {f : Nat → Nat} (p : Param) :
    Layout.hint (p.1, p.2.rename f) = (Layout.hint p).rename f := by
  unfold Layout.hint
  dsimp only
  split
  · rfl
  · rfl
  · rfl
  · rw [Ty.elem?_rename]
    cases p.2.elem? <;> rfl

section

variable (hR : W.Resolves R R') (hscope : W.Scopes scope scope')
include hR hscope

lemma parallel_resolveOrResidual (h : W.Tracks s s') (hid : W.Operand s.store id) :
    W.Parallel (resolveOrResidual R scope id hint)
    (resolveOrResidual R' scope' (W.place id) (W.ty hint)) s s' W.Tried := by
  refine .attempt_bind (hR.operand hint h hscope hid) fun r r' t t' hg hr => ?_
  rcases r with e | r <;> rcases r' with e' | r'
  · refine .bind (parallel_residual hg.tracks hr) ?_
    rintro el _ u u' hg' ⟨rfl, hel⟩
    exact .pure hg'.tracks ⟨rfl, hel, nofun⟩
  · exact hr.elim
  · exact hr.elim
  · obtain ⟨rfl, hr⟩ := hr
    exact .pure hg.tracks ⟨rfl, hr.operand, fun _ => hr⟩

lemma parallel_resolveAll (h : W.Tracks s s') (hids : ∀ i ∈ ids, W.Operand s.store i) :
    W.Parallel (resolveAll R scope hint ids) (resolveAll R' scope' (W.ty hint) (ids.map W.place)) s
    s' fun p p' st st' =>
      p' = (p.1.map W.place, p.2) ∧ (∀ r ∈ p.1, W.Operand st r) ∧
      (p.2 → ∀ r ∈ p.1, W.Typed st st' r) := by
  induction ids generalizing s s' with
  | nil => exact .pure h ⟨rfl, nofun, fun _ => nofun⟩
  | cons id ids ih =>
    refine .bind (parallel_resolveOrResidual hR hscope h (hids id (by simp))) ?_
    rintro ⟨r, ok⟩ _ t t' hg ⟨rfl, hr, htyped⟩
    refine .bind (ih hg.tracks (hg.operands fun i hi => hids i (by simp [hi]))) ?_
    rintro ⟨rs, oks⟩ _ u u' hg' ⟨rfl, hrs, htypeds⟩
    refine .pure hg'.tracks ⟨rfl, forall_mem_cons.2 ⟨hr.kept hg'.left, hrs⟩, fun hok => ?_⟩
    obtain ⟨hok, hoks⟩ := Bool.and_eq_true_iff.1 hok
    exact forall_mem_cons.2 ⟨hg'.typed hg.tracks (htyped hok), htypeds hoks⟩

lemma parallel_resolveGroups (h : W.Tracks s s') (hc : At s.store id c) (is : List Nat) :
    W.Parallel (resolveGroups R scope c is) (resolveGroups R' scope' (W.call c) is) s s'
    fun p p' st _ =>
      p' = (p.1.map (·.map W.place), p.2) ∧ ∀ r ∈ p.1.flatten, W.Operand st r := by
  have hhint (i : Nat) : ((W.call c).typ.args[i]?.map Layout.hint).getD .void =
      W.ty ((c.typ.args[i]?.map Layout.hint).getD .void) := by
    rw [W.typ_call hc.sig, ty, Ty.args_rename, getElem?_map]
    cases c.typ.args[i]? with
    | none => rfl
    | some p =>
      rw [map_some, map_some, map_some, getD_some, getD_some]
      exact hint_rename p
  induction is generalizing s s' with
  | nil => exact .pure h ⟨rfl, by simp⟩
  | cons i is ih =>
    simp only [resolveGroups, resolveGroup, hhint, group_call]
    refine .bind (parallel_resolveAll hR hscope h (hc.group h.store i)) ?_
    rintro ⟨g, ok⟩ _ t t' hg ⟨rfl, hgs, -⟩
    refine .bind (ih hg.tracks (hc.kept hg.left)) ?_
    rintro ⟨gs, oks⟩ _ u u' hg' ⟨rfl, hrest⟩
    refine .pure hg'.tracks ⟨rfl, fun r hr => ?_⟩
    exact (mem_append.1 hr).elim (hg'.operands hgs r) (hrest r)

end

end Copying

end Resolvent
