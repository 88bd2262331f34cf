import Resolvent.Command.Execute
import Resolvent.Proofs.Element.RoundTrip
import Resolvent.Proofs.Independence.Eval
import Resolvent.Proofs.Session.History

/-!
# Forms of one source

All forms of a source share one session.
-/

namespace Resolvent

open List Bool

/-! ## First-order forms -/

namespace Form

variable (operator : String → Option Callable)

/-- The form names an operator that makes no functions and calls none. -/
def isOperator : Form → Bool
  | name n none _ => (operator n).any Callable.isFirstOrder
  | _ => false

mutual

/-- There are no type variables in the form, and operators are named only where they are called. -/
def isFirstOrder : Form → Bool
  | literal v _ => v.isGround
  | name n d _ => (operator n).isNone && d.isNone
  | tag _ none _ => true
  | tag _ (some f) _ => f.isFirstOrder
  | decl n args _ => (operator n).isNone && areFirstOrder args
  | expr [] _ => true
  | expr (head :: rest) _ => (head.isOperator operator || head.isFirstOrder) && areFirstOrder rest
  | call _ _ _ _ => false

def areFirstOrder : List Form → Bool
  | [] => true
  | f :: fs => f.isFirstOrder && areFirstOrder fs

end

lemma parts_of_bare_eq {f f' : Form} (h : f'.bare = f.bare) : match f with
    | literal v _ => ∃ span, f' = literal v span
    | name n d _ => ∃ span, f' = name n d span
    | tag n none _ => ∃ span, f' = tag n none span
    | tag n (some g) _ => ∃ g' span, f' = tag n (some g') span ∧ g'.bare = g.bare
    | decl n args _ => ∃ args' span, f' = decl n args' span ∧ bareAll args' = bareAll args
    | expr items _ => ∃ items' span, f' = expr items' span ∧ bareAll items' = bareAll items
    | call _ _ _ _ => True := by
  revert h
  fun_cases bare f <;> fun_cases bare f' <;> simp [bare]

end Form

namespace Copying

open Form

variable {W : Copying} {st st' : Store} {e : Content}

/-- A form has been added to two stores, of which the second copies the first. -/
structure Inserted (W : Copying) (st : Store) (p p' : Nat × Store) : Prop where
  copied : W.Copied p.2 p'.2
  kept : st.Kept p.2
  place_eq : p'.1 = W.place p.1
  lt_size : p.1 < p.2.size

structure InsertedAll (W : Copying) (st : Store) (p p' : List Nat × Store) : Prop where
  copied : W.Copied p.2 p'.2
  kept : st.Kept p.2
  map_eq : p'.1 = p.1.map W.place
  operand : ∀ id ∈ p.1, W.Operand p.2 id

lemma Copied.inserted {st₁ st₁' : Store} {span span' : Span} (h : W.Copied st₁ st₁')
    (hk : st.Kept st₁)
    (he : W.Plain st₁ e) : W.Inserted st (st₁.alloc e span) (st₁'.alloc (W.content e) span') where
  copied := h.alloc he span span'
  kept := hk.trans (.alloc _ _ _)
  place_eq := h.place_size.symm
  lt_size := by simp

lemma Copied.inserted_operand {st₁ st₁' : Store} {span span' : Span} (h : W.Copied st₁ st₁')
    (hk : st.Kept st₁) (he : W.Plain st₁ e) (hname : ∀ n d, e = .name n d → W.operator n = none) :
    W.Inserted st (st₁.alloc e span) (st₁'.alloc (W.content e) span') ∧
      W.Operand (st₁.alloc e span).2 (st₁.alloc e span).1 := by
  have hins : W.Inserted st (st₁.alloc e span) (st₁'.alloc (W.content e) span') := h.inserted hk he
  refine ⟨hins, hins.lt_size, fun n d hc => hname n d ?_⟩
  rwa [Store.alloc_fst, Store.content_alloc_size] at hc

lemma inserted_operator {f f' : Form} (h : W.Copied st st') (hsame : f'.bare = f.bare)
    (hf : f.isOperator W.operator) : W.Inserted st (st.insert f) (st'.insert f') := by
  unfold isOperator at hf
  split at hf
  · next n span =>
    obtain ⟨span', rfl⟩ := parts_of_bare_eq hsame
    refine h.inserted (.refl _) (e := .name n none) ?_
    cases hn : W.operator n with
    | none => simp [hn] at hf
    | some c => simpa [Plain, hn] using hf
  · cases hf

mutual

lemma inserted_insert : ∀ (f f' : Form) {st st' : Store}, W.Copied st st' → f'.bare = f.bare →
    f.isFirstOrder W.operator →
    W.Inserted st (st.insert f) (st'.insert f') ∧ W.Operand (st.insert f).2 (st.insert f).1
  | .literal v _, f', st, st', h, hsame, hf => by
    obtain ⟨span', rfl⟩ := parts_of_bare_eq hsame
    exact h.inserted_operand (.refl _) (e := .literal v) hf nofun
  | .name n d _, f', st, st', h, hsame, hf => by
    obtain ⟨span', rfl⟩ := parts_of_bare_eq hsame
    obtain ⟨hn, rfl⟩ : W.operator n = none ∧ d = none := by simpa [isFirstOrder] using hf
    exact h.inserted_operand (.refl _) (e := .name n none) (by simp [Plain, hn])
      (by rintro m d ⟨⟩; exact hn)
  | .tag n none _, f', st, st', h, hsame, hf => by
    obtain ⟨span', rfl⟩ := parts_of_bare_eq hsame
    exact h.inserted_operand (.refl _) (e := .tag n none) nofun nofun
  | .tag n (some g) _, f', st, st', h, hsame, hf => by
    obtain ⟨g', span', rfl, hg⟩ := parts_of_bare_eq hsame
    obtain ⟨hins, hop⟩ := inserted_insert g g' h hg hf
    have hel : W.Plain (st.insert g).2 (.tag n (some (st.insert g).1)) := by simpa [Plain] using hop
    simpa [Store.insert, content, hins.place_eq]
      using hins.copied.inserted_operand hins.kept hel nofun
  | .decl n args _, f', st, st', h, hsame, hf => by
    obtain ⟨args', span', rfl, hargs⟩ := parts_of_bare_eq hsame
    obtain ⟨hn, hall⟩ : W.operator n = none ∧ areFirstOrder W.operator args := by
      simpa [isFirstOrder] using hf
    have hins := inserted_insertAll args args' h hargs hall
    have hdecl : W.Plain (st.insertAll args).2 (.decl n (st.insertAll args).1) := ⟨hn, hins.operand⟩
    simpa [Store.insert, content, hins.map_eq]
      using hins.copied.inserted_operand hins.kept hdecl nofun
  | .expr [] _, f', st, st', h, hsame, hf => by
    obtain ⟨items', span', rfl, hitems⟩ := parts_of_bare_eq hsame
    cases items' with
    | nil => exact h.inserted_operand (.refl _) (e := .expr []) ⟨nofun, nofun⟩ nofun
    | cons head' rest' => cases hitems
  | .expr (head :: rest) _, f', st, st', h, hsame, hf => by
    obtain ⟨items', span', rfl, hitems⟩ := parts_of_bare_eq hsame
    cases items' with
    | nil => cases hitems
    | cons head' rest' =>
      obtain ⟨hhead', hrest'⟩ := cons.inj hitems
      obtain ⟨hhead, hrest⟩ := and_eq_true_iff.1 hf
      have hins : W.Inserted st (st.insert head) (st'.insert head') :=
        (or_eq_true_iff.1 hhead).elim (inserted_operator h hhead') fun hhead =>
          (inserted_insert head head' h hhead' hhead).1
      have hall := inserted_insertAll rest rest' hins.copied hrest' hrest
      have hexpr : W.Plain ((st.insert head).2.insertAll rest).2
        (.expr ((st.insert head).1 :: ((st.insert head).2.insertAll rest).1)) :=
        ⟨by simpa using hins.lt_size.trans_le hall.kept.size_le, hall.operand⟩
      simpa [Store.insert, Store.insertAll, content, hins.place_eq, hall.map_eq] using
        hall.copied.inserted_operand (hins.kept.trans hall.kept) hexpr nofun
  | .call _ _ _ _, f', _, _, _, _, hf => by cases hf

lemma inserted_insertAll : ∀ (fs fs' : List Form) {st st' : Store}, W.Copied st st' →
    bareAll fs' = bareAll fs →
    areFirstOrder W.operator fs → W.InsertedAll st (st.insertAll fs) (st'.insertAll fs')
  | [], [], _, _, h, _, _ => ⟨h, .refl _, rfl, nofun⟩
  | f :: fs, [], _, _, _, hsame, _ => by cases hsame
  | [], f' :: fs', _, _, _, hsame, _ => by cases hsame
  | f :: fs, f' :: fs', st, st', h, hsame, hfs => by
    obtain ⟨hf', hfs'⟩ := cons.inj hsame
    obtain ⟨hf, hfs⟩ := and_eq_true_iff.1 hfs
    obtain ⟨hins, hop⟩ := inserted_insert f f' h hf' hf
    have hrest := inserted_insertAll fs fs' hins.copied hfs' hfs
    refine ⟨hrest.copied, hins.kept.trans hrest.kept, ?_,
      forall_mem_cons.2 ⟨hop.kept hrest.kept, hrest.operand⟩⟩
    exact congrArg₂ cons hins.place_eq hrest.map_eq

end

/-! ## Other work in between -/

/-- The copying under which new elements are added to the second store from the number `m` on. -/
def ahead (W : Copying) {n m : Nat} (h : ∀ i < n, W.place i < m) : Copying :=
  { W with
    place := fun i => if i < n then W.place i else i - n + m
    mono := by
      intro i j hij
      dsimp only
      split_ifs with hi hj hj
      · exact W.mono hij
      · exact (h i hi).trans_le (Nat.le_add_left _ _)
      · omega
      · omega }

lemma place_ahead {n m i : Nat} (h : ∀ i < n, W.place i < m) (hi : i < n) :
    (W.ahead h).place i = W.place i := if_pos hi

lemma content_ahead {n m : Nat} (h : ∀ i < n, W.place i < m) (he : ∀ c ∈ e.children, c < n) :
    (W.ahead h).content e = W.content e := by
  have hmap (ids : List Nat) (hids : ∀ i ∈ ids, i < n) : ids.map (W.ahead h).place =
    ids.map W.place := map_congr_left fun i hi => place_ahead h (hids i hi)
  cases e with
  | literal v => rfl
  | name n d => rfl
  | tag n el =>
    cases el with
    | none => rfl
    | some el => exact congrArg (fun i =>
      Content.tag n (some i)) (place_ahead h (he el (by simp [Content.children])))
  | decl n args => exact congrArg (Content.decl n) (hmap args he)
  | expr items => exact congrArg Content.expr (hmap items he)
  | call c =>
    have hgroups : c.groups.map (·.map (W.ahead h).place) = c.groups.map (·.map W.place) :=
      map_congr_left fun g hg => hmap g fun i hi => he i (mem_flatten_of_mem hg hi)
    exact congrArg (fun groups => Content.call ⟨W.callable c.callable, groups,
      c.sig.map W.ty⟩) hgroups

lemma Copied.ahead {st'' : Store} (h : W.Copied st st') (hfounded : st.Founded)
    (hk : st'.Kept st'') :
    (W.ahead fun _ hi => (h.place_lt hi).trans_le hk.size_le).Copied st st'' where
  content_eq id hid := by
    rw [place_ahead _ hid, hk.content_eq (h.place_lt hid), h.content_eq id hid]
    exact (content_ahead _ fun c hc => hfounded.lt_size hc).symm
  place_add j := by
    refine (if_neg (by omega)).trans ?_
    omega
  plain := h.plain

end Copying

/-! ## Independence -/

open Subst in
lemma Subst.Sound.renamed {σ : Subst} (h : σ.Sound) : Renamed σ.size {} σ where
  left := .empty
  right := h
  size_eq := (Nat.zero_add _).symm
  get?_eq i := by
    cases hb : σ.get? (shift σ.size i) with
    | none => rfl
    | some b =>
      obtain ⟨hpos, hle⟩ := h.numbered _ (Option.isSome_of_mem hb)
      unfold shift at hpos hle
      split at hpos <;> simp_all

lemma Scope.FirstOrder.scopes {scope : Scope} (h : scope.FirstOrder) {W : Copying}
    (hW : W.operator = scope.operator?)
    (hliteral : W.literal → scope.Literal) : W.Scopes scope scope := by
  have hnone {n : String} {d : Definition} (hn : W.operator n = none)
    (hd : scope.lookup n = .ok (some d)) : d.typ.isGround ∧ W.Data d := by
    have hcallable : d.callable = none := by simpa [hW, operator?, hd] using hn
    have hfirst := h n d hd
    rw [Definition.isFirstOrder, hcallable] at hfirst
    obtain ⟨htyp, hval⟩ := and_eq_true_iff.1 hfirst
    exact ⟨htyp, hcallable, fun v hv => by rwa [hv] at hval, fun hlit => (hliteral hlit).lookup hd⟩
  constructor
  · intro n c hn
    rw [hW, operator?] at hn
    split at hn
    · next d hd =>
      have hfirst := h n d hd
      rw [Definition.isFirstOrder, hn] at hfirst
      exact ⟨d, hd, hd, hn, by simpa using hfirst⟩
    · cases hn
  · intro n hn
    cases hd : scope.lookup n with
    | error e => rfl
    | ok found =>
      cases found with
      | none => rfl
      | some d =>
        obtain ⟨htyp, hdata⟩ := hnone hn hd
        have hcopy : W.definition d = d := by
          cases d
          simp_all [Copying.definition, W.ty_of_isGround htyp]
        simp [Except.map, hcopy]
  · exact fun hn hd => (hnone hn hd).2

lemma Command.firstOrder_scopeOf {data : Option Val} (h : ∀ v ∈ data, v.isGround) :
    (scopeOf data).FirstOrder := by
  refine Scope.firstOrder_of_frames fun f hf => ?_
  cases data with
  | none =>
    cases mem_singleton.1 hf
    rfl
  | some v =>
    rcases mem_cons.1 hf with rfl | hf
    · exact h v rfl
    · cases mem_singleton.1 hf
      rfl

/-! ## Reading -/

lemma Store.insertAll_append (st : Store) (fs gs : List Form) : st.insertAll (fs ++ gs) =
      ((st.insertAll fs).1 ++ ((st.insertAll fs).2.insertAll gs).1,
      ((st.insertAll fs).2.insertAll gs).2) := by
  induction fs generalizing st with
  | nil => rfl
  | cons f fs ih => simp [insertAll, ih]

lemma Store.length_insertAll (st : Store) (fs : List Form) :
    (st.insertAll fs).1.length = fs.length := by
  induction fs generalizing st with
  | nil => rfl
  | cons f fs ih => simp [insertAll, ih]

/-- The number of a form in a store of its own. -/
def Form.root (f : Form) : Nat := (Store.insert {} f).1

namespace Session

open Run

variable {s s' t : Session} {catalog : Catalog} {lenient : Bool} {scope : Scope} {source : String}

lemma exec_read {forms : List Form} (h : Form.read source = .ok forms) (s : Session) :
    (read source).exec s =
    (.ok (s.store.insertAll forms).1, { s with store := (s.store.insertAll forms).2 }) := by
  rw [read, h]
  rfl

lemma step_read {ids : List Nat} (h : (read source).exec s = (.ok ids, s')) : s.Step s' := by
  have hserve := Step.serve (s := s) (.read source) nofun
  rwa [show ((Request.read source).serve.exec s).2 = s' from congrArg Prod.snd h] at hserve

lemma exists_insert_of_read {f : Form} {before after : List Form} {id : Nat}
    {earlier later : List Nat}
    (h : s.Orderly) (hforms : Form.read source = .ok (before ++ f :: after))
    (hread : (read source).exec s = (.ok (earlier ++ id :: later), s'))
    (hlength : earlier.length = before.length) :
    ∃ st : Store, (st.insert f).1 = id ∧ (st.insert f).2.Kept s'.store := by
  have hraw : Form.areRaw (before ++ f :: after) := by
    have := Form.definite_read source
    rwa [hforms] at this
  obtain ⟨hbefore, hf, hafter⟩ : Form.areRaw before ∧ f.isRaw ∧ Form.areRaw after := by
    simpa [Form.areRaw] using hraw
  have hadded := Store.added_insertAll h before hbefore
  have hadded' := Store.added_insert hadded.orderly f hf
  rw [exec_read hforms, Store.insertAll_append] at hread
  obtain ⟨hids, rfl⟩ := Prod.mk.inj hread
  refine ⟨(s.store.insertAll before).2, ?_,
    (Store.added_insertAll hadded'.orderly after hafter).kept⟩
  obtain ⟨-, hids⟩ := append_inj (Except.ok.inj hids) (by rw [Store.length_insertAll, hlength])
  exact (cons.inj hids).1

/-- A session of the same kind that has nothing but the elements of a form. -/
def alone (s : Session) (f : Form) : Session :=
  { new s.catalog s.lenient with store := (Store.insert {} f).2 }

lemma exists_tracks_alone (literal : Prop) {f f' : Form} {st : Store}
    (hcatalog : t.catalog.HasBuiltins)
    (hscope : scope.FirstOrder) (hliteral : literal → scope.Literal)
    (hfirst : f.isFirstOrder scope.operator?)
    (hsame : f'.bare = f.bare) (horderly : (t.alone f).Orderly) (hk : (st.insert f').2.Kept t.store)
    (hsound : t.subst.Sound) :
    ∃ W : Copying, W.operator = scope.operator? ∧ W.literal = literal ∧ W.Tracks (t.alone f) t ∧
    W.Scopes scope scope ∧
      W.Operand (t.alone f).store f.root ∧ W.place f.root = (st.insert f').1 := by
  let W : Copying :=
    { place := fun i => i + st.size
      mono := fun _ _ hij => Nat.add_lt_add_right hij _
      before := t.subst.size
      operator := scope.operator?
      literal }
  have hempty : W.Copied {} st := ⟨nofun, fun j => by simp [W, Store.size, Nat.add_comm], nofun⟩
  obtain ⟨hins, hop⟩ := Copying.inserted_insert f f' hempty hsame hfirst
  have hcopied := hins.copied.ahead (Store.Orderly.founded horderly) hk
  refine ⟨_, rfl, rfl, ⟨hcopied, hsound.renamed, rfl, hcatalog, rfl⟩,
    hscope.scopes rfl hliteral, hop, ?_⟩
  exact (Copying.place_ahead _ hop.1).trans hins.place_eq.symm

lemma exists_tracks {f f' : Form} {fresh : Session} {id : Nat} {st : Store}
    (hcatalog : t.catalog.HasBuiltins)
    (hscope : scope.FirstOrder) (hform : Form.read source = .ok [f])
    (hfirst : f.isFirstOrder scope.operator?) (hsame : f'.bare = f.bare)
    (hfresh : (read source).exec (new t.catalog t.lenient) = (.ok [id], fresh))
    (horderly : fresh.Orderly) (hk : (st.insert f').2.Kept t.store) (hsound : t.subst.Sound) :
    ∃ W : Copying, W.Tracks fresh t ∧ W.Scopes scope scope ∧ W.Operand fresh.store id ∧
    W.place id = (st.insert f').1 := by
  rw [exec_read hform] at hfresh
  obtain ⟨hids, rfl⟩ := Prod.mk.inj hfresh
  obtain rfl : (Store.insert {} f).1 = id := (cons.inj (Except.ok.inj hids)).1
  obtain ⟨W, -, -, hW⟩ :=
    exists_tracks_alone False hcatalog hscope nofun hfirst hsame horderly hk hsound
  exact ⟨W, hW⟩

/-- The type of an element once it is resolved, with nothing left open. -/
def resolvedType (scope : Scope) (id : Nat) (hint : Ty) : Run Ty :=
  do realize (← resolve scope id hint)

/-- What steps end in, without the places of failures. -/
def outcome {α : Type} (m : Run α) (s : Session) : Except Failure α :=
  (m.exec s).1.mapError Failure.bare

lemma outcome_eq {α : Type} {W : Copying} {m m' : Run α} {P : α → α → Store → Store → Prop}
    (h : W.Parallel m m' s s' P)
    (hP : ∀ a a' st st', P a a' st st' → a' = a) : outcome m' s' = outcome m s := by
  obtain ⟨-, hends⟩ := h
  unfold Copying.Ends at hends
  unfold outcome
  split at hends
  · next hr hr' =>
    rw [hr, hr', hP _ _ _ _ hends]
  · next hr hr' =>
    rw [hr, hr']
    exact congrArg Except.error hends.1
  · exact hends.elim

/-- A first-order form has the same type and the same value in a session that has done other work as
in a fresh one, or else it fails for the same reason: the source that it is read with may have other
forms, and any requests may be served before that source is read and after it. -/
theorem firstOrder_independent {source source' : String} {mode : Bool} {f f' : Form}
    {before after : List Form} {fresh : Session}
    {id id' : Nat} {earlier later : List Nat} {hint : Ty}
    (hcatalog : catalog.HasBuiltins) (hscope : scope.FirstOrder) (hhint : hint.isGround)
    (hform : Form.read source = .ok [f]) (hforms : Form.read source' = .ok (before ++ f' :: after))
    (hfirst : f.isFirstOrder scope.operator?) (hsame : f'.bare = f.bare)
    (hfresh : (read source).exec (new catalog lenient) = (.ok [id], fresh))
    (hs : (new catalog mode).Reaches s)
    (hread : (read source').exec s = (.ok (earlier ++ id' :: later), s'))
    (hlength : earlier.length = before.length) (ht : s'.Reaches t)
    (hlenient : t.lenient = lenient) :
    outcome (resolvedType scope id' hint) t = outcome (resolvedType scope id hint) fresh ∧
      outcome (run scope id' hint) t = outcome (run scope id hint) fresh := by
  have hs' : (new catalog mode).Reaches s' := hs.tail (step_read hread)
  have hreach : (new catalog mode).Reaches t := hs'.trans ht
  obtain ⟨-, horderly, -⟩ := hs.kept (orderly_new catalog mode)
  obtain ⟨-, horderly', -⟩ := hs'.kept (orderly_new catalog mode)
  obtain ⟨-, ht', rfl⟩ := hreach.kept (orderly_new catalog mode)
  obtain ⟨-, hfresh', -⟩ := (step_read hfresh).kept (orderly_new _ _)
  obtain ⟨st, rfl, hk⟩ := exists_insert_of_read horderly hforms hread hlength
  subst hlenient
  obtain ⟨W, htracks, hscopes, hop, hplace⟩ :=
    exists_tracks hcatalog hscope hform hfirst hsame hfresh hfresh'
    (hk.trans (ht.kept horderly').1) (hreach.sound (orderly_new _ _) .empty)
  have hresolve := Copying.parallel_resolve_operand htracks hscopes hfresh'.founded
    ht'.founded hop hint
  have hrun := Copying.parallel_run htracks hscopes hfresh' ht'.founded hop hint
  rw [hplace, W.ty_of_isGround hhint] at hresolve hrun
  have htype : W.Parallel (resolvedType scope id hint) (resolvedType scope (st.insert f').1 hint)
    fresh t fun u u' _ _ => u = u' := by
    refine .bind hresolve ?_
    rintro r _ u u' hg ⟨rfl, hr⟩
    exact Copying.parallel_realize hg.tracks hr
  exact ⟨outcome_eq htype fun _ _ _ _ heq => heq.symm, outcome_eq hrun fun _ _ _ _ hv => hv.1⟩

lemma read_sums : (match Form.read "(add .x 1)", Form.read "(add 1 2) (add .x 1)" with
      | .ok [.expr [.name a none _, .name x none _, .literal (.int n) _] _],
        .ok [.expr [.name _ none _, .literal _ _, .literal _ _] _,
        .expr [.name b none _, .name y none _, .literal (.int m) _] _] =>
        a == "add" && b == "add" && x == ".x" && y == ".x" && n == 1 && m == 1
      | _, _ => false) = true := by
  decide +kernel

/-- A sum over the data of a command, after another sum has been computed in the same session. -/
theorem firstOrder_independent_sum : let scope := Command.scopeOf (some (.dict [("x", .int 5)]))
    let t := ((Request.run scope 3 .void).serve.exec (opened "(add 1 2) (add .x 1)")).2
    t.subst.size = 1 ∧ t.store.size = 12 ∧ outcome (resolvedType scope 7 .void) t =
    outcome (resolvedType scope 3 .void) (opened "(add .x 1)") ∧
    outcome (run scope 7 .void) t = outcome (run scope 3 .void) (opened "(add .x 1)") := by
  have hforms := read_sums
  have hdata : ∀ v ∈ some (Val.dict [("x", .int 5)]), v.isGround := by simp [Val.isGround]
  have hfirst : (Form.expr [.name "add" none .none, .name ".x" none .none,
    .literal (.int 1) .none] .none).isFirstOrder
      (Command.scopeOf (some (.dict [("x", .int 5)]))).operator? := by
    decide +kernel
  have hlt : 3 < (opened "(add 1 2) (add .x 1)").store.size := by decide +kernel
  refine ⟨by decide +kernel, by decide +kernel, ?_⟩
  split at hforms
  · next hread hread' =>
    simp only [Bool.and_eq_true, beq_iff_eq] at hforms
    obtain ⟨⟨⟨⟨⟨rfl, rfl⟩, rfl⟩, rfl⟩, rfl⟩, rfl⟩ := hforms
    have hfresh : (read "(add .x 1)").exec (new .builtins false) = (.ok [3], opened "(add .x 1)") :=
      Prod.ext (by rw [exec_read hread]; rfl) rfl
    have hopened : (read "(add 1 2) (add .x 1)").exec (new .builtins false) =
      (.ok ([3] ++ 7 :: []), opened "(add 1 2) (add .x 1)") :=
      Prod.ext (by rw [exec_read hread']; rfl) rfl
    replace hread' : Form.read "(add 1 2) (add .x 1)" = .ok ([_] ++ _ :: []) := hread'
    exact firstOrder_independent .refl (Command.firstOrder_scopeOf hdata) rfl hread hread' hfirst
      rfl hfresh .refl hopened rfl
      (.single (.serve _ (by simpa [Request.ids] using hlt))) (by decide +kernel)
  · cases hforms

/-- Variables in the source and in signatures are taken for those of the session. After a sum, the
operator of sums has a type, a type variable of the source is bound, and a function prints with
another variable. -/
theorem outcome_dependent : let scope := Command.scopeOf none
    let after (source : String) : Session := ((run scope 3 .void).exec (opened source)).2
    let text (r : Except Failure Val) : String :=
      match r with
      | .ok v => v.text
      | .error e => e.message
    (outcome (resolvedType scope 4 .void) (after "(add 1 2) add")).isOk = true ∧
    (outcome (resolvedType scope 0 .void) (opened "add")).isOk = false ∧
    text (outcome (run scope 7 .void) (after "(add 1 2) (con '1 3)")) =
    "[0:0] cannot convert 3 to '1" ∧ text (outcome (run scope 3 .void) (opened "(con '1 3)")) =
    "[0:0] ambiguous type void: free type variables remain" ∧
    text (outcome (run scope 10 .void) (after "(add 1 2) (str (fn (append [])))")) =
    "\"(func list|'4)\"" ∧ text (outcome (run scope 6 .void) (opened "(str (fn (append [])))")) =
    "\"(func list|'3)\"" := by
  decide +kernel

end Session

end Resolvent
