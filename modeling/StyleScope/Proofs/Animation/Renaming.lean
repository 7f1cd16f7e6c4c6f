import Mathlib.Data.List.Basic
import Mathlib.Data.List.Forall2
import Mathlib.Data.List.Induction
import StyleScope.Proofs.Animation.Values
import StyleScope.Proofs.Stylesheet.Walk
import StyleScope.Stylesheet.Tree

/-! # Keyframes and the animations that refer to them

The names of all keyframes are collected before an animation is renamed, so the table of names is
that of the whole sheet wherever an animation stands. The table has each declared name once, in the
order of their first declarations (`exists_indexes_tableOf`), and so it answers for a name as if by
`scopedName` (`get?_tableOf`). `RenamedStatement` says what then becomes of a statement, and
`RenamedToken` what becomes of a token of an animation's name.
-/
namespace StyleScope.Animation
open Text Stylesheet

/-- The keys are the names, each once, by their first occurrences. -/
structure Indexes (names keys : List Text) : Prop where
  mem_iff : ∀ n, n ∈ keys ↔ n ∈ names
  ordered : keys.Pairwise fun a b => names.idxOf a < names.idxOf b

theorem Indexes.nil : Indexes [] [] := ⟨fun _ => Iff.rfl, .nil⟩

section
variable {names keys : List Text} (h : Indexes names keys) {n : Text}
include h

/-- A further occurrence of a name comes too late to move a first one. -/
theorem Indexes.ordered_append (extra : List Text) :
    keys.Pairwise fun a b => (names ++ extra).idxOf a < (names ++ extra).idxOf b := by
  refine h.ordered.imp_of_mem fun {a b} ha hb hab => ?_
  rwa [List.idxOf_append_of_mem ((h.mem_iff a).1 ha), List.idxOf_append_of_mem ((h.mem_iff b).1 hb)]

theorem Indexes.append_of_mem (hn : n ∈ names) : Indexes (names ++ [n]) keys := by
  refine ⟨fun k => ?_, h.ordered_append [n]⟩
  rw [h.mem_iff, List.mem_append, List.mem_singleton]
  constructor
  · exact .inl
  · rintro (hk | rfl)
    · exact hk
    · exact hn

theorem Indexes.append_of_not_mem (hn : n ∉ names) : Indexes (names ++ [n]) (keys ++ [n]) := by
  refine ⟨fun k => by simp [h.mem_iff], ?_⟩
  refine List.pairwise_append.2 ⟨h.ordered_append [n], by simp, fun a ha b hb => ?_⟩
  obtain rfl := List.mem_singleton.1 hb
  have ha' : a ∈ names := (h.mem_iff a).1 ha
  rw [List.idxOf_append_of_mem ha', List.idxOf_append_of_notMem hn]
  have hlt := List.idxOf_lt_length_of_mem ha'
  omega

end

section
variable {f : Text → Text} {keys : List Text} {n : Text}

theorem insert_map_of_mem (h : n ∈ keys) :
    Entries.insert n (f n) (keys.map fun k => (k, f k)) = keys.map fun k => (k, f k) := by
  induction keys with
  | nil => exact absurd h (by simp)
  | cons k keys ih =>
      rw [List.map_cons, Entries.insert]
      by_cases hk : k = n
      · rw [if_pos hk, hk]
      · rw [if_neg hk, ih ((List.mem_cons.1 h).resolve_left (Ne.symm hk))]

theorem insert_map_of_not_mem (h : n ∉ keys) :
    Entries.insert n (f n) (keys.map fun k => (k, f k)) = (keys ++ [n]).map fun k => (k, f k) := by
  induction keys with
  | nil => rfl
  | cons k keys ih =>
      obtain ⟨hk, hkeys⟩ := not_or.1 (mt List.mem_cons.2 h)
      rw [List.map_cons, Entries.insert, if_neg (Ne.symm hk), ih hkeys]
      rfl

theorem lookup_map (keys : List Text) (n : Text) :
    (keys.map fun k => (k, f k)).lookup n = if n ∈ keys then some (f n) else none := by
  induction keys with
  | nil => rfl
  | cons k keys ih =>
      rw [List.map_cons, List.lookup_cons, ih]
      by_cases hk : n = k
      · simp [hk]
      · simp [hk, beq_eq_false_iff_ne.2 hk]

end

theorem tableOf_append_singleton (scope : Text) (names : List Text) (n : Text) :
    tableOf scope (names ++ [n]) = (tableOf scope names).insert n (scopedName n scope) := by
  rw [tableOf, tableOf, List.foldl_append]
  rfl

/-- The table of names has each of them once, by their first occurrences. -/
theorem exists_indexes_tableOf (scope : Text) (names : List Text) :
    ∃ keys, Indexes names keys ∧
      (tableOf scope names).entries = keys.map fun n => (n, scopedName n scope) := by
  induction names using List.reverseRecOn with
  | nil => exact ⟨[], .nil, rfl⟩
  | append_singleton names n ih =>
      obtain ⟨keys, hkeys, hentries⟩ := ih
      have hinsert : (tableOf scope (names ++ [n])).entries =
          Entries.insert n (scopedName n scope) (keys.map fun n => (n, scopedName n scope)) := by
        rw [tableOf_append_singleton, Table.insert, hentries]
      rw [hinsert]
      by_cases hn : n ∈ names
      · refine ⟨keys, hkeys.append_of_mem hn, ?_⟩
        exact insert_map_of_mem (f := (scopedName · scope)) ((hkeys.mem_iff n).2 hn)
      · refine ⟨keys ++ [n], hkeys.append_of_not_mem hn, ?_⟩
        exact insert_map_of_not_mem (f := (scopedName · scope)) (mt (hkeys.mem_iff n).1 hn)

theorem get?_tableOf (scope : Text) (names : List Text) (n : Text) :
    (tableOf scope names).get? n = if n ∈ names then some (scopedName n scope) else none := by
  obtain ⟨keys, hkeys, hentries⟩ := exists_indexes_tableOf scope names
  rw [Table.get?, hentries, lookup_map]
  exact if_congr (hkeys.mem_iff n) rfl rfl

theorem scopedName_injective {scope a b : Text} (h : scopedName a scope = scopedName b scope) :
    a = b := by
  unfold scopedName at h
  split at h
  · exact List.append_cancel_right h
  · exact List.append_cancel_right h
  · exact List.append_cancel_right h

/-- Just the texts with a quote at both ends have content to unquote. -/
theorem unquote?_eq_some_iff {t content : Text} {q : Char} :
    unquote? t = some (q, content) ↔ isQuote q = true ∧ t = quote q content := by
  constructor
  · intro h
    refine ⟨?_, (quote_of_unquote? h).symm⟩
    cases t with
    | nil => exact absurd h (by simp [unquote?])
    | cons c r =>
        simp only [unquote?, Option.ite_none_right_eq_some, Bool.and_eq_true, Option.some.injEq,
          Prod.mk.injEq] at h
        exact h.2.1 ▸ h.1.1
  · rintro ⟨hq, rfl⟩
    simp [unquote?, quote, hq]

/-- What becomes of a token of an animation's name: a word or a quoted text that is one of the names
is scoped, in its own quotes, and all else stays. -/
inductive RenamedToken (scope : Text) (names : List Text) : ValueToken → Text → Prop
  | word {w : Text} : w ∈ names → RenamedToken scope names (.word w) (scopedName w scope)
  | quoted {q : Char} {n : Text} : isQuote q = true → n ∈ names →
      RenamedToken scope names (.quoted (quote q n)) (quote q (scopedName n scope))
  | other {x : ValueToken} : (∀ w, x = .word w → w ∉ names) →
      (∀ q n, isQuote q = true → x = .quoted (quote q n) → n ∉ names) →
      RenamedToken scope names x x.text

/-- What becomes of a statement: the parameters of keyframes that have some are scoped in their own
quotes, and so are the names of animations. Of the shorthand for animations it is only said that
nothing but its value may change. -/
inductive RenamedStatement (scope : Text) (names : List Text) : Event → Event → Prop
  | rule (r : Rule) (inKeyframes : Bool) :
      RenamedStatement scope names (.rule r inKeyframes) (.rule r inKeyframes)
  | quoted {r : AtRule} {q : Char} {n : Text} : r.isKeyframes = true → isQuote q = true →
      r.params = quote q n →
      RenamedStatement scope names (.atRule r)
        (.atRule { r with params := quote q (scopedName n scope) })
  | unquoted {r : AtRule} : r.isKeyframes = true → r.params ≠ [] →
      (∀ q n, isQuote q = true → r.params ≠ quote q n) →
      RenamedStatement scope names (.atRule r)
        (.atRule { r with params := scopedName r.params scope })
  | otherAtRule {r : AtRule} : (r.isKeyframes = true → r.params = []) →
      RenamedStatement scope names (.atRule r) (.atRule r)
  | animationName {d : Declaration} {pieces : List Text} :
      d.plainProp = "animation-name".toList →
      List.Forall₂ (RenamedToken scope names) (valueTokens d.value) pieces →
      RenamedStatement scope names (.declaration d)
        (.declaration { d with value := pieces.flatten })
  | animation {d : Declaration} (value : Text) : d.plainProp = "animation".toList →
      RenamedStatement scope names (.declaration d) (.declaration { d with value })
  | otherDeclaration {d : Declaration} : d.plainProp ≠ "animation-name".toList →
      d.plainProp ≠ "animation".toList →
      RenamedStatement scope names (.declaration d) (.declaration d)

section
variable (scope : Text) (names : List Text)

theorem renamedToken_renameToken (x : ValueToken) :
    RenamedToken scope names x (renameToken (tableOf scope names) x) := by
  cases x with
  | word w =>
      rw [renameToken, scopedToken?, get?_tableOf]
      by_cases hw : w ∈ names
      · rw [if_pos hw]
        exact .word hw
      · rw [if_neg hw]
        exact .other (by simpa using hw) (by simp)
  | quoted t =>
      cases ht : unquote? t with
      | none =>
          rw [renameToken, scopedToken?, ht]
          refine .other (by simp) fun q n hq ht' => ?_
          rw [unquote?_eq_some_iff.2 ⟨hq, ValueToken.quoted.inj ht'⟩] at ht
          exact absurd ht (by simp)
      | some p =>
          obtain ⟨q, n⟩ := p
          obtain ⟨hq, rfl⟩ := unquote?_eq_some_iff.1 ht
          rw [renameToken, scopedToken?, ht]
          simp only [Option.bind_eq_bind, Option.bind_some, get?_tableOf]
          by_cases hn : n ∈ names
          · rw [if_pos hn]
            exact .quoted hq hn
          · rw [if_neg hn]
            refine .other (by simp) fun q' n' hq' ht' => ?_
            rw [ValueToken.quoted.inj ht', unquote?_eq_some_iff.2 ⟨hq', rfl⟩, Option.some.injEq,
              Prod.mk.injEq] at ht
            rwa [ht.2]
  | _ => exact .other (by simp) (by simp)

theorem renamedStatement_atRule (r : AtRule) :
    RenamedStatement scope names (.atRule r) (.atRule (renameKeyframes scope r)) := by
  unfold renameKeyframes
  split
  · next h =>
    obtain ⟨hk, hp⟩ : r.isKeyframes = true ∧ r.params ≠ [] := by simpa [definesKeyframes] using h
    unfold scopedParams
    split
    · next q n hn =>
      obtain ⟨hq, hparams⟩ := unquote?_eq_some_iff.1 hn
      exact .quoted hk hq hparams
    · next hn =>
      refine .unquoted hk hp fun q n hq hparams => ?_
      rw [unquote?_eq_some_iff.2 ⟨hq, hparams⟩] at hn
      exact absurd hn (by simp)
  · next h => exact .otherAtRule (by simpa [definesKeyframes] using h)

theorem renamedStatement_declaration (d : Declaration) :
    RenamedStatement scope names (.declaration d)
      (.declaration (renameDeclaration (tableOf scope names) d)) := by
  unfold renameDeclaration
  split
  · next h =>
    rw [renameNames, List.flatMap_def]
    refine .animationName h (List.forall₂_map_right_iff.2 (List.forall₂_same.2 fun x _ => ?_))
    exact renamedToken_renameToken scope names x
  · next hname =>
    split
    · next h => exact .animation _ h
    · next h => exact .otherDeclaration hname h

end

/-- Nothing, or a vendor's name between hyphens. -/
def IsVendorPrefix (v : Text) : Prop := v = [] ∨ ∃ n, n ≠ [] ∧ '-' ∉ n ∧ v = '-' :: n ++ ['-']

theorem eq_hyphen_of_lowerChar {c : Char} (h : lowerChar c = '-') : c = '-' := by
  unfold lowerChar at h
  split at h
  · next hc =>
    simp only [Bool.and_eq_true, decide_eq_true_eq, Char.le_def, UInt32.le_iff_toNat_le] at hc
    obtain ⟨hlow, hhigh⟩ : 65 ≤ c.toNat ∧ c.toNat ≤ 90 := hc
    have hvalid : (c.toNat + 32).isValidChar := .inl (by omega)
    have hnat := congrArg Char.toNat h
    rw [Char.ofNat, dif_pos hvalid] at hnat
    change c.toNat + 32 = 45 at hnat
    omega
  · exact h

theorem isKeyframesName_append {a b : Text} (hb : lower b = "keyframes".toList)
    (ha : ∀ c, a.getLast? = some c → isWord c = false) : isKeyframesName (a ++ b) = true := by
  have hlength : b.length = 9 := by
    have := congrArg List.length hb
    rwa [lower, List.length_map] at this
  have hcut : (a ++ b).length - 9 = a.length := by
    rw [List.length_append, hlength, Nat.add_sub_cancel]
  -- no letter of the name is one of the two that only fold to letters
  have hfold : ∀ c ∈ b, c ≠ '\u212a' ∧ c ≠ '\u017f' := by
    intro c hc
    have hmem : lowerChar c ∈ "keyframes".toList := hb ▸ List.mem_map_of_mem hc
    constructor
    · rintro rfl
      exact absurd hmem (by decide)
    · rintro rfl
      exact absurd hmem (by decide)
  have hname : (b.map fun c => if c = '\u212a' then 'k' else if c = '\u017f' then 's'
      else lowerChar c) = "keyframes".toList := by
    rw [← hb, lower]
    refine List.map_congr_left fun c hc => ?_
    rw [if_neg (hfold c hc).1, if_neg (hfold c hc).2]
  simp only [isKeyframesName, hcut, List.drop_left, List.take_left, hname, beq_self_eq_true,
    Bool.true_and]
  cases hlast : a.getLast? with
  | none => rfl
  | some c => simp [ha c hlast]

theorem isKeyframes_of_vendor {r : AtRule} {v : Text} (hv : IsVendorPrefix v)
    (h : lower r.name = v ++ "keyframes".toList) : r.isKeyframes = true := by
  obtain ⟨a, b, hname, ha, hb⟩ := List.map_eq_append_iff.1 h
  rw [AtRule.isKeyframes, hname]
  refine isKeyframesName_append hb fun c hc => ?_
  have hlast : v.getLast? = some (lowerChar c) := by rw [← ha, List.getLast?_map, hc]; rfl
  obtain rfl | ⟨n, -, -, rfl⟩ := hv
  · exact absurd hlast (by simp)
  · rw [List.getLast?_append, List.getLast?_singleton, Option.some_or, Option.some.injEq] at hlast
    rw [eq_hyphen_of_lowerChar hlast.symm]
    decide +kernel

theorem plainProp_of_vendor {d : Declaration} {v : Text} (hv : IsVendorPrefix v)
    (h : lower d.prop = v ++ "animation-name".toList) :
    d.plainProp = "animation-name".toList := by
  unfold Declaration.plainProp
  obtain rfl | ⟨n, hn, hhyphen, rfl⟩ := hv
  · rw [h]
    rfl
  · obtain ⟨c, n, rfl⟩ := List.exists_cons_of_ne_nil hn
    have hdrop : (c :: n ++ '-' :: "animation-name".toList).dropWhile (· ≠ '-') =
        '-' :: "animation-name".toList := by
      rw [List.dropWhile_append_of_pos]
      · rfl
      · intro x hx
        simp only [decide_eq_true_eq]
        rintro rfl
        exact hhyphen hx
    have hprop : lower d.prop = '-' :: (c :: n ++ '-' :: "animation-name".toList) := by
      rw [h]
      simp
    have hc : c ≠ '-' := by
      rintro rfl
      exact hhyphen (by simp)
    simp only [hprop, hdrop]
    simp [hc]

theorem keepsKeyframes_rename (scope : Text) (table : Table) :
    Pass.KeepsKeyframes
      { atRule := renameKeyframes scope, declaration := renameDeclaration table } := by
  intro r
  dsimp only [renameKeyframes]
  split
  · rfl
  · rfl

/-- Keyframes and the names of animations are renamed alike. -/
theorem renameSheet_consistent (scope : Text) (s : Sheet) :
    let names := declaredNames s.events
    (∃ keys, Indexes names keys ∧
        (renameSheet scope s).2.entries = keys.map fun n => (n, scopedName n scope)) ∧
      Function.Injective (scopedName · scope) ∧
      List.Forall₂ (RenamedStatement scope names) s.events (renameSheet scope s).1.events ∧
      (∀ (r : AtRule) (v : Text), IsVendorPrefix v → lower r.name = v ++ "keyframes".toList →
        r.isKeyframes = true) ∧
      ∀ (d : Declaration) (v : Text), IsVendorPrefix v →
        lower d.prop = v ++ "animation-name".toList → d.plainProp = "animation-name".toList := by
  intro names
  refine ⟨exists_indexes_tableOf scope names, fun a b => scopedName_injective, ?_,
    fun r v => isKeyframes_of_vendor, fun d v => plainProp_of_vendor⟩
  dsimp only [renameSheet]
  rw [Sheet.events_map (keepsKeyframes_rename scope _)]
  refine List.forall₂_map_right_iff.2 (List.forall₂_same.2 fun e _ => ?_)
  cases e with
  | rule r inKeyframes => exact .rule r inKeyframes
  | atRule r => exact renamedStatement_atRule scope names r
  | declaration d => exact renamedStatement_declaration scope names d

/-- One name declared twice, in quotes and without, after an animation that refers to it. -/
theorem renameSheet_consistent_vendors :
    let css : Text := ("p\x7b-MOZ-Animation-Name:b,\"a\" a\x7d" ++
      "@media x\x7b@-webkit-keyframes 'a'\x7b\x7d\x7d@keyframes a\x7b\x7d").toList
    let d : Declaration := ⟨[], "-MOZ-Animation-Name".toList, [':'], "b,\"a\" a".toList, [], false⟩
    IsVendorPrefix "-moz-".toList ∧ lower d.prop = "-moz-".toList ++ "animation-name".toList ∧
      d.plainProp = "animation-name".toList ∧
      ∃ s, parse? css = some s ∧ (renameSheet ['s'] s).1.text =
          ("p\x7b-MOZ-Animation-Name:b,\"a-s\" a-s\x7d" ++
            "@media x\x7b@-webkit-keyframes 'a-s'\x7b\x7d\x7d@keyframes a-s\x7b\x7d").toList ∧
        (renameSheet ['s'] s).2.entries = [("a".toList, "a-s".toList)] ∧
        List.Forall₂ (RenamedStatement ['s'] (declaredNames s.events)) s.events
          (renameSheet ['s'] s).1.events := by
  intro css d
  have hv : IsVendorPrefix "-moz-".toList := .inr ⟨"moz".toList, by decide, by decide, by decide⟩
  have hprop : lower d.prop = "-moz-".toList ++ "animation-name".toList := by decide
  obtain ⟨s, hs⟩ : ∃ s, parse? css = some s := Option.isSome_iff_exists.1 (by decide +kernel)
  obtain ⟨-, -, hstatements, -, hplain⟩ := renameSheet_consistent ['s'] s
  have hout : (parse? css).map (fun s =>
      ((renameSheet ['s'] s).1.text, (renameSheet ['s'] s).2.entries)) =
      some (("p\x7b-MOZ-Animation-Name:b,\"a-s\" a-s\x7d" ++
          "@media x\x7b@-webkit-keyframes 'a-s'\x7b\x7d\x7d@keyframes a-s\x7b\x7d").toList,
        [("a".toList, "a-s".toList)]) := by decide +kernel
  rw [hs, Option.map_some, Option.some.injEq, Prod.mk.injEq] at hout
  exact ⟨hv, hprop, hplain d _ hv hprop, s, hs, hout.1, hout.2, hstatements⟩

end StyleScope.Animation
