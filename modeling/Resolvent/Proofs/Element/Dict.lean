import Resolvent.Proofs.Element.RoundTrip
import Resolvent.Proofs.Ty.Word

/-!
# Dicts read back

A dict literal of the source is printed with its keys bare and its values right after the colon.
-/

namespace Resolvent

open LexClass Token List

variable {span : Span} {v : Val} {source : List Char} {ss : List Sibling} {key t : TokenTree}
  {s : Sibling}

lemma Ty.OneWord.readsAsWord {t : Ty} (h : t.OneWord) : t.ReadsAsWord :=
  ⟨h.isSymbol.legible, h.isSymbol.isTypeWord, h.readsBack.parse_eq⟩

namespace Val

mutual

/-- Values that are written in such a way that they can be read: no reals and functions, symbols as
keys, and types after a colon with a mark in front. -/
def isReadable : Val → Bool
  | null | bool _ | int _ | str _ | typ _ => true
  | list items => areReadable items
  | dict entries => areEntriesReadable entries
  | real _ | fn _ => false

def areReadable : List Val → Bool
  | [] => true
  | v :: vs => v.isReadable && areReadable vs

def areEntriesReadable : List (String × Val) → Bool
  | [] => true
  | (k, v) :: es => isSymbolKey k && v.isReadable && v.followsColon && areEntriesReadable es

end

lemma readLiteral_symbol_eq_ok {s : String}
    (h : Form.readLiteral (.leaf (.symbol s) span) = .ok v) :
    ∃ t, Ty.parse s = .ok t ∧ v = .typ t := by
  rw [Form.readLiteral] at h
  split at h
  · obtain ⟨t, ht, h⟩ := of_bind_eq_ok h
    exact ⟨t, Form.readType_eq_ok.1 ht, (Except.ok.inj h).symm⟩
  · exact absurd h nofun

lemma legible_of_leaf {u : Token} (hu : Form.LegibleNames u span)
    (h : Form.readLiteral (.leaf u span) = .ok v) (hv : v.isReadable) : v.Legible := by
  cases u with
  | symbol s =>
    obtain ⟨t, hparse, rfl⟩ := readLiteral_symbol_eq_ok h
    exact (Ty.oneWord_of_parse (hu rfl).symbol_chars.2 hparse).readsAsWord
  | int | str | bool | null =>
    obtain rfl := Except.ok.inj h
    trivial
  | real =>
    obtain rfl := Except.ok.inj h
    simp [isReadable] at hv
  | _ => exact absurd h nofun

lemma isPlain_of_keyword {word : String} (h : Form.keyword? word = some v) : v.isPlain := by
  unfold Form.keyword? at h
  split at h <;> cases h <;> rfl

mutual

lemma legible_of_readLiteral : ∀ (t : TokenTree), t.Leaves Form.LegibleNames →
    ∀ v : Val, Form.readLiteral t = .ok v → v.isReadable → v.Legible
  | .leaf u span, ht, v, h, hv => legible_of_leaf ht h hv
  | .group .round children span, ht, v, h, hv => absurd h nofun
  | .group .square items span, ht, v, h, hv => by
    obtain ⟨vs, hvs, h⟩ := of_bind_eq_ok h
    obtain rfl := Except.ok.inj h
    exact allLegible_of_readLiterals items ht vs hvs hv
  | .group .curly items span, ht, v, h, hv => by
    obtain ⟨es, hes, h⟩ := of_bind_eq_ok h
    obtain rfl := Except.ok.inj h
    exact entriesLegible_of_readEntries items ht es hes hv

lemma allLegible_of_readLiterals :
    ∀ (ts : List TokenTree), TokenTree.LeavesAll Form.LegibleNames ts → ∀ vs : List Val,
    Form.readLiterals ts = .ok vs → areReadable vs → AllLegible vs
  | [], _, vs, h, _ => by
    obtain rfl : [] = vs := Except.ok.inj h
    trivial
  | t :: ts, ht, vs, h, hvs => by
    obtain ⟨v, hv, h⟩ := of_bind_eq_ok h
    obtain ⟨vs', hvs', h⟩ := of_bind_eq_ok h
    obtain rfl := Except.ok.inj h
    rw [areReadable, Bool.and_eq_true] at hvs
    exact ⟨legible_of_readLiteral t ht.1 v hv hvs.1,
      allLegible_of_readLiterals ts ht.2 vs' hvs' hvs.2⟩

lemma entriesLegible_of_readEntries :
    ∀ (ts : List TokenTree), TokenTree.LeavesAll Form.LegibleNames ts →
    ∀ es : List (String × Val), Form.readEntries ts = .ok es → areEntriesReadable es →
    EntriesLegible es
  | [], _, es, h, _ => by
    obtain rfl : [] = es := Except.ok.inj h
    trivial
  | key :: rest, ht, es, h, hes => by
    obtain ⟨k, v, es', rest', -, rfl, hrest, hvalue⟩ := Form.readEntries_cons_eq_ok.1 h
    simp only [areEntriesReadable, Bool.and_eq_true] at hes
    obtain ⟨⟨⟨hk, hv⟩, hcolon⟩, hes⟩ := hes
    rcases hvalue with ⟨span, t, rfl, ht'⟩ | ⟨word, span, rfl, hword⟩
    · exact ⟨legible_of_isSymbolKey hk, legible_of_readLiteral t ht.2.2.1 v ht' hv, hcolon,
        entriesLegible_of_readEntries rest' ht.2.2.2 es' hrest hes⟩
    · exact ⟨legible_of_isSymbolKey hk, legible_of_isPlain v (isPlain_of_keyword hword), hcolon,
        entriesLegible_of_readEntries rest' ht.2.2 es' hrest hes⟩

end

end Val

namespace Form

lemma Grouping.mem_finish_add {g : Grouping} {f : Form} (hf : f.isOrdinary)
    (h : f ∈ (g.add s).finish) : f ∈ g.finish ∨ s = .ordinary f := by
  obtain ⟨loose, settled⟩ := g
  cases s with
  | ordinary f' =>
    rcases mem_cons.1 h with rfl | h
    · exact .inr rfl
    · exact .inl h
  | tag n span =>
    -- A tag stands for itself or for itself and the next sibling, and is not ordinary.
    rcases loose with _ | ⟨⟨f', _ | _⟩, rest⟩ <;> rcases mem_cons.1 h with rfl | h
    · cases hf
    · exact .inl h
    · cases hf
    · exact .inl h
    · cases hf
    · exact .inl (mem_cons_of_mem _ h)
  | decl n span =>
    rcases mem_cons.1 h with rfl | h
    · cases hf
    · exact .inl (mem_append_right _ h)
  | naked span =>
    rcases mem_cons.1 h with rfl | h
    · cases hf
    · exact .inl h

lemma ordinary_mem_of_mem_group {f : Form} (hf : f.isOrdinary) (h : f ∈ group ss) :
    .ordinary f ∈ ss := by
  induction ss with
  | nil => simp [group, Grouping.finish] at h
  | cons s ss ih =>
    rcases Grouping.mem_finish_add hf h with h | rfl
    · exact mem_cons_of_mem _ (ih h)
    · exact mem_cons_self

lemma exists_tree_of_mem {ts : List TokenTree} (h : readSiblings source ts = .ok ss) (hs : s ∈ ss) :
    ∃ t ∈ ts, readSibling source t = .ok s := by
  induction ts generalizing ss with
  | nil =>
    obtain rfl : [] = ss := Except.ok.inj h
    simp at hs
  | cons t ts ih =>
    obtain ⟨s', rest, hs', hrest, rfl⟩ := readSiblings_cons_eq_ok.1 h
    rcases mem_cons.1 hs with rfl | hs
    · exact ⟨t, mem_cons_self, hs'⟩
    · obtain ⟨u, hu, hread⟩ := ih hrest hs
      exact ⟨u, mem_cons_of_mem _ hu, hread⟩

lemma readLiteral_of_readSibling (hv : ∀ t, v ≠ .typ t)
    (h : readSibling source t = .ok (.ordinary (.literal v span))) : readLiteral t = .ok v := by
  cases readSibling_eq_ok.1 h with
  | literal hv' => exact hv'
  | typ => exact absurd rfl (hv _)

lemma literal_of_bareAll {fs : List Form} (h : bareAll fs = [.literal v span]) :
    ∃ span', fs = [.literal v span'] := by
  rw [bareAll_eq_map] at h
  obtain ⟨f, rfl, hf⟩ := map_eq_singleton_iff.1 h
  fun_cases bare f with
  | case1 v' span' =>
    obtain ⟨rfl, -⟩ : v' = v ∧ Span.none = span := by simpa [bare] using hf
    exact ⟨span', rfl⟩
  | _ => simp [bare] at hf

lemma read_literal_text (h : v.Legible) : ∃ span, read v.text = .ok [.literal v span] := by
  have hlegible : AllLegible [.literal v .none] := ⟨h, trivial⟩
  have hback := read_of_legible hlegible rfl
  rw [map_singleton, String.intercalate_singleton, text] at hback
  cases hread : read v.text with
  | error e =>
    rw [hread] at hback
    exact absurd hback nofun
  | ok forms =>
    rw [hread] at hback
    obtain ⟨span, rfl⟩ := literal_of_bareAll (Except.ok.inj hback)
    exact ⟨span, rfl⟩

/-- A dict that is all of a source is read back from its text if its keys are symbols and no type
among its values begins with a letter. -/
theorem read_dict_text {source : String} {entries : List (String × Val)} {span : Span}
    (hread : read source = .ok [.literal (.dict entries) span])
    (hentries : (Val.dict entries).isReadable) :
    ∃ span', read (Val.dict entries).text = .ok [.literal (.dict entries) span'] := by
  obtain ⟨ss, hss, hgroup⟩ := group_of_read hread
  have hmem : .ordinary (.literal (.dict entries) span) ∈ ss :=
    ordinary_mem_of_mem_group rfl (by simp [hgroup])
  obtain ⟨t, ht, hsibling⟩ := exists_tree_of_mem hss hmem
  have hleaves := TokenTree.leavesAll_iff.1 (leavesAll_legibleNames source.toList) t ht
  have hlegible := Val.legible_of_readLiteral t hleaves _
    (readLiteral_of_readSibling (by simp) hsibling) hentries
  exact read_literal_text hlegible

lemma isReadable_sample :
    (match read "\x7ba: true 'k|x: ['1 list|@02 int?] \"b-1\": \x7bc:'3 d: \"x\\ny\" e:null\x7d f:-5\x7d" with
      | .ok [.literal (.dict entries) _] => (Val.dict entries).isReadable
      | _ => false) = true := by
  decide +kernel

/-- Keys of all kinds of characters, types in lists and behind marks, keywords and nested dicts. -/
theorem read_dict_text_sample : ∃ entries span,
    read "\x7ba: true 'k|x: ['1 list|@02 int?] \"b-1\": \x7bc:'3 d: \"x\\ny\" e:null\x7d f:-5\x7d" =
      .ok [.literal (.dict entries) span] ∧ (Val.dict entries).isReadable ∧
    ∃ span', read (Val.dict entries).text = .ok [.literal (.dict entries) span'] := by
  have hsource := isReadable_sample
  split at hsource
  · next entries span hread => exact ⟨entries, span, hread, hsource, read_dict_text hread hsource⟩
  · cases hsource

lemma read_blank_key_and_named_type : (match read "\x7b\"a b\":1\x7d" with
      | .ok [.literal (.dict [(k, .int n)]) _] => k == "a b" && n == 1
      | _ => false) = true ∧ (match read "\x7ba: int\x7d" with
      | .ok [.literal (.dict [(k, .typ (.plain t))]) _] => k == "a" && t == .int
      | _ => false) = true := by
  constructor <;> decide +kernel

/-- A key with a blank and a type after a colon are lost: the dicts print as texts that cannot be
read. -/
theorem dict_text_not_read :
    (∃ span, read "\x7b\"a b\":1\x7d" = .ok [.literal (.dict [("a b", .int 1)]) span]) ∧
    (read (Val.dict [("a b", .int 1)]).text).toOption.isNone ∧
    (∃ span, read "\x7ba: int\x7d" = .ok [.literal (.dict [("a", .typ (.plain .int))]) span]) ∧
    (read (Val.dict [("a", .typ (.plain .int))]).text).toOption.isNone := by
  obtain ⟨hkey, htype⟩ := read_blank_key_and_named_type
  refine ⟨?_, by decide +kernel, ?_, by decide +kernel⟩
  · split at hkey
    · next k n span hread =>
      obtain ⟨rfl, rfl⟩ : k = "a b" ∧ n = 1 := by simpa using hkey
      exact ⟨span, hread⟩
    · cases hkey
  · split at htype
    · next k t span hread =>
      obtain ⟨rfl, rfl⟩ : k = "a" ∧ t = .int := by simpa using htype
      exact ⟨span, hread⟩
    · cases htype

end Form

end Resolvent
