import Mathlib.Data.List.Basic
import Mathlib.Data.List.Forall2
import StyleScope.Proofs.Animation.Priority
import StyleScope.Proofs.Animation.Renaming

/-! # The entries of the animation shorthand

The shorthand is a list of entries between commas (`valueEntries`). A comma inside a function, a
string or a comment is part of that token and does not end an entry. Whatever treats the tokens on
both sides of a comma apart can be had entry by entry (`eq_intercalate_splitOn`), and both ways to
rename animations do. `RenamedEntry` says what becomes of an entry of the shorthand: its first name
is renamed and no other, so the two ways agree on entries with one name.
-/
namespace StyleScope.Animation
open Text

/-- The tokens of a value, cut at the commas between them. -/
def valueEntries (v : Text) : List (List ValueToken) := (valueTokens v).splitOn .comma

/-- The token names keyframes of the table, as a word or in quotes. -/
def namesKey (table : Table) : ValueToken → Bool
  | .word w => table.contains w
  | .quoted t => (unquote? t).any fun p => table.contains p.2
  | _ => false

/-- A token that can name the keyframes of an entry and what it is renamed to. -/
inductive NamesEntry (table : Table) : ValueToken → Text → Prop
  | word {w s : Text} : w ∉ keywords → table.get? w = some s → NamesEntry table (.word w) s
  | quoted {q : Char} {n s : Text} : isQuote q = true → table.get? n = some s →
      NamesEntry table (.quoted (quote q n)) (quote q s)

/-- What becomes of an entry: the first token that can name its keyframes is renamed and all others
stay. -/
inductive RenamedEntry (table : Table) : List ValueToken → Text → Prop
  | named {before behind : List ValueToken} {x : ValueToken} {s : Text} :
      (∀ y ∈ before, ∀ r, ¬NamesEntry table y r) → NamesEntry table x s →
      RenamedEntry table (before ++ x :: behind)
        (before.flatMap ValueToken.text ++ s ++ behind.flatMap ValueToken.text)
  | unnamed {e : List ValueToken} : (∀ y ∈ e, ∀ r, ¬NamesEntry table y r) →
      RenamedEntry table e (e.flatMap ValueToken.text)

/-- The pieces between commas are made of the tokens that are none. -/
theorem mem_and_ne_of_mem_splitOn {xs e : List ValueToken} (h : e ∈ xs.splitOn .comma) :
    ∀ x ∈ e, x ∈ xs ∧ x ≠ .comma := by
  rw [List.splitOn_eq_splitOnP] at h
  induction xs generalizing e with
  | nil =>
      obtain rfl : e = [] := by simpa using h
      exact nofun
  | cons y ys ih =>
      have hlater : ∀ e ∈ ys.splitOnP (· == .comma), ∀ x ∈ e, x ∈ y :: ys ∧ x ≠ .comma :=
        fun e he x hx => ⟨List.mem_cons_of_mem y (ih he x hx).1, (ih he x hx).2⟩
      rw [List.splitOnP_cons_eq_if_modifyHead] at h
      split at h
      · obtain rfl | hmem := List.mem_cons.1 h
        · exact nofun
        · exact hlater e hmem
      · next hy =>
        -- only the first piece grows, by a token that is no comma
        cases hpieces : ys.splitOnP (· == .comma) with
        | nil => exact absurd hpieces (List.splitOnP_ne_nil _ ys)
        | cons piece pieces =>
            rw [hpieces] at h hlater
            obtain rfl | hmem := List.mem_cons.1 h
            · exact List.forall_mem_cons.2
                ⟨⟨List.mem_cons_self, by simpa using hy⟩, hlater piece List.mem_cons_self⟩
            · exact hlater e (List.mem_cons_of_mem piece hmem)

/-- What treats the tokens on both sides of a comma apart treats every entry by itself. -/
theorem eq_intercalate_splitOn {f : List ValueToken → Text}
    (hf : ∀ e rest, f (e ++ .comma :: rest) = f e ++ ',' :: f rest) (xs : List ValueToken) :
    f xs = [','].intercalate ((xs.splitOn .comma).map f) := by
  have hjoin : ∀ es : List (List ValueToken), es ≠ [] →
      f ([.comma].intercalate es) = [','].intercalate (es.map f) := by
    intro es hne
    induction es with
    | nil => exact absurd rfl hne
    | cons e es ih =>
        cases es with
        | nil => simp
        | cons e' es =>
            rw [List.intercalate_cons_cons, List.append_assoc, List.singleton_append, hf,
              ih (List.cons_ne_nil e' es), List.map_cons, List.map_cons, List.map_cons,
              List.intercalate_cons_cons, List.append_assoc]
            rfl
  have hxs := hjoin (xs.splitOn .comma) (List.splitOn_ne_nil _ xs)
  rwa [List.intercalate_splitOn] at hxs

/-- Where a token of a value has a comma in its text, it is that comma or encloses it. -/
theorem encloses_of_comma_mem {v : Text} {x : ValueToken} (hx : x ∈ valueTokens v)
    (h : ',' ∈ x.text) (hne : x ≠ .comma) :
    ∃ t, x = .function t ∨ x = .quoted t ∨ x = .comment t := by
  obtain ⟨t, hstands⟩ := exists_stands_of_mem hx
  cases hstands with
  | comment => exact ⟨_, .inr (.inr rfl)⟩
  | space hall => exact absurd (List.all_eq_true.1 hall ',' h) (by decide)
  | comma => exact absurd rfl hne
  | string => exact ⟨_, .inr (.inl rfl)⟩
  | function => exact ⟨_, .inl rfl⟩
  | word _ hw _ _ => exact absurd (hw.isWordChar ',' h) (by decide)
  | runsOut hopen =>
      cases hopen with
      | comment => exact ⟨_, .inr (.inr rfl)⟩
      | string => exact ⟨_, .inr (.inl rfl)⟩
      | function => exact ⟨_, .inl rfl⟩

section
variable {table : Table} {x : ValueToken} {s : Text} {e : List ValueToken}

theorem namesEntry_iff :
    NamesEntry table x s ↔ isKeyword x = false ∧ scopedToken? table x = some s := by
  constructor
  · rintro (⟨hw, hs⟩ | ⟨hq, hs⟩)
    · exact ⟨by simpa [isKeyword] using hw, hs⟩
    · exact ⟨rfl, by simp [scopedToken?, unquote?_eq_some_iff.2 ⟨hq, rfl⟩, hs]⟩
  · rintro ⟨hkeyword, hs⟩
    cases x with
    | word w => exact .word (by simpa [isKeyword] using hkeyword) hs
    | quoted t =>
        simp only [scopedToken?, Option.bind_eq_bind, Option.bind_eq_some_iff] at hs
        obtain ⟨⟨q, n⟩, ht, r, hr, hrs⟩ := hs
        obtain ⟨hq, rfl⟩ := unquote?_eq_some_iff.1 ht
        obtain rfl : quote q r = s := Option.some.inj hrs
        exact .quoted hq hr
    | _ => exact absurd hs (by simp [scopedToken?])

theorem namesKey_eq (table : Table) (x : ValueToken) :
    namesKey table x = (scopedToken? table x).isSome := by
  cases x with
  | quoted t =>
      rw [namesKey, scopedToken?]
      cases unquote? t with
      | none => rfl
      | some p => cases h : table.get? p.2 <;> simp [Table.contains, h]
  | _ => rfl

theorem NamesEntry.namesKey (h : NamesEntry table x s) : namesKey table x = true := by
  rw [namesKey_eq, (namesEntry_iff.1 h).2]
  rfl

theorem exists_namesEntry (h : namesKey table x = true) (hkeyword : isKeyword x = false) :
    ∃ r, NamesEntry table x r := by
  rw [namesKey_eq] at h
  obtain ⟨r, hr⟩ := Option.isSome_iff_exists.1 h
  exact ⟨r, namesEntry_iff.2 ⟨hkeyword, hr⟩⟩

theorem renameToken_of_namesEntry (h : NamesEntry table x s) : renameToken table x = s := by
  rw [renameToken, (namesEntry_iff.1 h).2]
  rfl

theorem renameToken_of_not_namesKey (h : namesKey table x = false) :
    renameToken table x = x.text := by
  rw [namesKey_eq, Option.isSome_eq_false_iff, Option.isNone_iff_eq_none] at h
  rw [renameToken, h]
  rfl

theorem renameEntries_cons_of_namesEntry (h : NamesEntry table x s) (rest : List ValueToken) :
    renameEntries table false (x :: rest) = s ++ renameEntries table true rest := by
  obtain ⟨hkeyword, hs⟩ := namesEntry_iff.1 h
  rw [renameEntries, if_neg (by simp [hkeyword]), hs]
  rintro rfl
  cases h

/-- A token that cannot name an entry leaves it as unnamed as it was. -/
theorem renameEntries_cons_of_not_namesEntry {done : Bool} (hcomma : x ≠ .comma)
    (h : done = true ∨ ∀ r, ¬NamesEntry table x r) (rest : List ValueToken) :
    renameEntries table done (x :: rest) = x.text ++ renameEntries table done rest := by
  rw [renameEntries]
  · split
    · rfl
    · next hdone =>
      obtain ⟨hkeyword, rfl⟩ : isKeyword x = false ∧ done = false := by simpa using hdone
      cases hs : scopedToken? table x with
      | none => rfl
      | some s =>
          have hnone := h.resolve_left (by simp)
          exact absurd (namesEntry_iff.2 ⟨hkeyword, hs⟩) (hnone s)
  · exact hcomma

/-- Once an entry has its name, the rest of it stays. -/
theorem renameEntries_done (table : Table) (h : .comma ∉ e) :
    renameEntries table true e = e.flatMap ValueToken.text := by
  induction e with
  | nil => rfl
  | cons x e ih =>
      obtain ⟨hx, he⟩ := not_or.1 (mt List.mem_cons.2 h)
      rw [renameEntries_cons_of_not_namesEntry (Ne.symm hx) (.inl rfl), ih he, List.flatMap_cons]

theorem RenamedEntry.cons {t : Text} (hx : ∀ r, ¬NamesEntry table x r)
    (h : RenamedEntry table e t) : RenamedEntry table (x :: e) (x.text ++ t) := by
  have hcons : ∀ ys : List ValueToken, (∀ y ∈ ys, ∀ r, ¬NamesEntry table y r) →
      ∀ y ∈ x :: ys, ∀ r, ¬NamesEntry table y r := fun ys hys => List.forall_mem_cons.2 ⟨hx, hys⟩
  cases h with
  | @named before behind y s hbefore hy =>
      have hnamed : RenamedEntry table (x :: before ++ y :: behind) _ :=
        .named (hcons before hbefore) hy
      simpa using hnamed
  | unnamed hnone => exact .unnamed (hcons e hnone)

theorem renamedEntry_renameEntries (table : Table) (h : .comma ∉ e) :
    RenamedEntry table e (renameEntries table false e) := by
  induction e with
  | nil => exact .unnamed (by simp)
  | cons x e ih =>
      obtain ⟨hx, he⟩ := not_or.1 (mt List.mem_cons.2 h)
      by_cases hnames : ∃ s, NamesEntry table x s
      · obtain ⟨s, hs⟩ := hnames
        rw [renameEntries_cons_of_namesEntry hs, renameEntries_done table he]
        have hfirst : RenamedEntry table ([] ++ x :: e) _ := .named (by simp) hs
        exact hfirst
      · have hnone : ∀ r, ¬NamesEntry table x r := not_exists.1 hnames
        rw [renameEntries_cons_of_not_namesEntry (Ne.symm hx) (.inr hnone)]
        exact (ih he).cons hnone

theorem flatMap_renameToken_of_not_namesKey (h : ∀ x ∈ e, namesKey table x = false) :
    e.flatMap (renameToken table) = e.flatMap ValueToken.text :=
  List.flatMap_congr fun x hx => renameToken_of_not_namesKey (h x hx)

/-- In an entry with at most one name, and no keyword for it, all names are renamed. -/
theorem RenamedEntry.eq_flatMap_renameToken {t : Text} (h : RenamedEntry table e t)
    (hone : e.countP (namesKey table) ≤ 1)
    (hkeywords : ∀ x ∈ e, namesKey table x = true → isKeyword x = false) :
    t = e.flatMap (renameToken table) := by
  -- a token that cannot name the entry is no name at all
  have hnone : ∀ ys ⊆ e, (∀ y ∈ ys, ∀ r, ¬NamesEntry table y r) →
      ∀ y ∈ ys, namesKey table y = false := by
    intro ys hys hy y hmem
    refine Bool.eq_false_iff.2 fun hkey => ?_
    obtain ⟨r, hr⟩ := exists_namesEntry hkey (hkeywords y (hys hmem) hkey)
    exact hy y hmem r hr
  cases h with
  | @named before behind x s hbefore hx =>
      have hbehind : ∀ y ∈ behind, namesKey table y = false := by
        rw [List.countP_append, List.countP_cons_of_pos hx.namesKey] at hone
        have hzero : behind.countP (namesKey table) = 0 := by omega
        simpa using hzero
      rw [List.flatMap_append, List.flatMap_cons, renameToken_of_namesEntry hx,
        flatMap_renameToken_of_not_namesKey (hnone before (by simp) hbefore),
        flatMap_renameToken_of_not_namesKey hbehind, List.append_assoc]
  | unnamed hunnamed =>
      exact (flatMap_renameToken_of_not_namesKey (hnone e (List.Subset.refl e) hunnamed)).symm

end

theorem renameShorthand_eq_intercalate (table : Table) (v : Text) :
    renameShorthand table v =
      [','].intercalate ((valueEntries v).map (renameEntries table false)) := by
  refine eq_intercalate_splitOn (fun e rest => ?_) (valueTokens v)
  rw [renameEntries_append, renameEntries]

theorem renameNames_eq_intercalate (table : Table) (v : Text) :
    renameNames table v =
      [','].intercalate ((valueEntries v).map (List.flatMap (renameToken table))) := by
  refine eq_intercalate_splitOn (fun e rest => ?_) (valueTokens v)
  rw [List.flatMap_append, List.flatMap_cons]
  rfl

/-- The shorthand is renamed entry by entry, one name in each. Where no entry has another name to
offer, it is renamed as a list of names is. -/
theorem renameShorthand_by_entry (table : Table) (v : Text) :
    [.comma].intercalate (valueEntries v) = valueTokens v ∧
      (∀ e ∈ valueEntries v, ∀ x ∈ e, x ≠ .comma ∧
        (',' ∈ x.text → ∃ t, x = .function t ∨ x = .quoted t ∨ x = .comment t)) ∧
      (∃ pieces, List.Forall₂ (RenamedEntry table) (valueEntries v) pieces ∧
        renameShorthand table v = [','].intercalate pieces) ∧
      ((∀ e ∈ valueEntries v, e.countP (namesKey table) ≤ 1) →
        (∀ w ∈ keywords, table.contains w = true → .word w ∉ valueTokens v) →
        renameShorthand table v = renameNames table v) := by
  have hentry : ∀ e ∈ valueEntries v, ∀ x ∈ e, x ∈ valueTokens v ∧ x ≠ .comma :=
    fun e he => mem_and_ne_of_mem_splitOn he
  have hrenamed : ∀ e ∈ valueEntries v, RenamedEntry table e (renameEntries table false e) :=
    fun e he => renamedEntry_renameEntries table fun hcomma => (hentry e he _ hcomma).2 rfl
  refine ⟨List.intercalate_splitOn _, fun e he x hx => ?_, ?_, fun hone hkeywords => ?_⟩
  · obtain ⟨hmem, hne⟩ := hentry e he x hx
    exact ⟨hne, fun hcomma => encloses_of_comma_mem hmem hcomma hne⟩
  · refine ⟨_, ?_, renameShorthand_eq_intercalate table v⟩
    exact List.forall₂_map_right_iff.2 (List.forall₂_same.2 hrenamed)
  · rw [renameShorthand_eq_intercalate, renameNames_eq_intercalate]
    refine congrArg _ (List.map_congr_left fun e he => ?_)
    refine (hrenamed e he).eq_flatMap_renameToken (hone e he) fun x hx hkey => ?_
    cases x with
    | word w =>
        have hw : w ∉ keywords := fun hw => hkeywords w hw hkey (hentry e he _ hx).1
        simpa [isKeyword] using hw
    | _ => rfl

/-- Commas in a function, a string and a comment, and a keyword whose table entry is not met. -/
theorem renameShorthand_by_entry_enclosed :
    let table := tableOf "s".toList ["a".toList, "b".toList, "ease".toList]
    let v : Text := "steps(2, a) a linear/* , b */,'b' \"a,b\"".toList
    (valueEntries v).length = 2 ∧ (∀ e ∈ valueEntries v, e.countP (namesKey table) ≤ 1) ∧
      (∀ w ∈ keywords, table.contains w = true → .word w ∉ valueTokens v) ∧
      renameNames table v = "steps(2, a) a-s linear/* , b */,'b-s' \"a,b\"".toList ∧
      renameShorthand table v = renameNames table v := by
  intro table v
  have hlength : (valueEntries v).length = 2 := by decide +kernel
  have hone : ∀ e ∈ valueEntries v, e.countP (namesKey table) ≤ 1 := by decide +kernel
  have hkeywords : ∀ w ∈ keywords, table.contains w = true → .word w ∉ valueTokens v := by
    decide +kernel
  obtain ⟨-, -, -, hagree⟩ := renameShorthand_by_entry table v
  exact ⟨hlength, hone, hkeywords, by decide +kernel, hagree hone hkeywords⟩

end StyleScope.Animation
