import StyleScope.Proofs.Animation.Padding
import StyleScope.Scope.Sheet

/-! # Keyframes of two components

A name within a scope is the name with the scope and its joint behind it, and nothing marks where
the one ends and the other starts. So two components define keyframes of the same name exactly when
what is put behind the names of one ends in what is put behind those of the other, and their names
make up the difference (`exists_common_name_iff`). Scopes of which neither is put behind names as
an end of the other keep the keyframes of all sheets apart, and no others do.
-/
namespace StyleScope.Animation
open Text Stylesheet

def scopedNames (scope : Text) (s : Sheet) : List Text :=
  (renameSheet scope s).2.entries.map Prod.snd

theorem mem_scopedNames_iff {scope : Text} {s : Sheet} {name : Text} :
    name ∈ scopedNames scope s ↔ ∃ n ∈ declaredNames s.events, scopedName n scope = name := by
  obtain ⟨keys, hkeys, hentries⟩ := exists_indexes_tableOf scope (declaredNames s.events)
  have hnames : scopedNames scope s = keys.map (scopedName · scope) := by
    rw [scopedNames, renameSheet, hentries, List.map_map]
    rfl
  simp only [hnames, List.mem_map, hkeys.mem_iff]

/-- Two names meet within two scopes when one of them makes up for what its scope lacks. -/
theorem scopedName_eq_iff {n n' scope scope' : Text} :
    scopedName n scope = scopedName n' scope' ↔
      ∃ m, (n' = n ++ m ∧ nameSuffix scope = m ++ nameSuffix scope') ∨
        (n = n' ++ m ∧ nameSuffix scope' = m ++ nameSuffix scope) := by
  rw [scopedName_eq_append, scopedName_eq_append, List.append_eq_append_iff, exists_or]

/-- What is put behind the names of one scope ends in what is put behind those of the other, and a
name of the one sheet lacks just the rest. -/
def Meets (scope scope' : Text) (s s' : Sheet) : Prop :=
  ∃ m, nameSuffix scope = m ++ nameSuffix scope' ∧
    ∃ n ∈ declaredNames s.events, n ++ m ∈ declaredNames s'.events

theorem exists_common_name_iff {scope scope' : Text} {s s' : Sheet} :
    (∃ name ∈ scopedNames scope s, name ∈ scopedNames scope' s') ↔
      Meets scope scope' s s' ∨ Meets scope' scope s' s := by
  constructor
  · rintro ⟨name, hmem, hmem'⟩
    obtain ⟨n, hn, hname⟩ := mem_scopedNames_iff.1 hmem
    obtain ⟨n', hn', hname'⟩ := mem_scopedNames_iff.1 hmem'
    obtain ⟨m, ⟨rfl, hm⟩ | ⟨rfl, hm⟩⟩ := scopedName_eq_iff.1 (hname.trans hname'.symm)
    · exact .inl ⟨m, hm, n, hn, hn'⟩
    · exact .inr ⟨m, hm, n', hn', hn⟩
  · rintro (⟨m, hm, n, hn, hn'⟩ | ⟨m, hm, n', hn', hn⟩)
    · exact ⟨scopedName n scope, mem_scopedNames_iff.2 ⟨n, hn, rfl⟩,
        mem_scopedNames_iff.2 ⟨n ++ m, hn', (scopedName_eq_iff.2 ⟨m, .inl ⟨rfl, hm⟩⟩).symm⟩⟩
    · exact ⟨scopedName n' scope', mem_scopedNames_iff.2 ⟨n' ++ m, hn,
        scopedName_eq_iff.2 ⟨m, .inr ⟨rfl, hm⟩⟩⟩, mem_scopedNames_iff.2 ⟨n', hn', rfl⟩⟩

def keyframesRule (params : Text) : AtRule :=
  ⟨[], "keyframes".toList, [' '], params, [], [], false, true⟩

def keyframesSheet (params : Text) : Sheet := { nodes := [.atStatement (keyframesRule params)] }

theorem declaredNames_keyframesSheet {n : Text} (hne : n ≠ []) (hquote : unquote? n = none) :
    declaredNames (keyframesSheet n).events = [n] := by
  have hname : isKeyframesName "keyframes".toList = true := by decide +kernel
  have hkeyframes : (keyframesRule n).isKeyframes = true := hname
  have hdefines : definesKeyframes (keyframesRule n) = true := by
    rw [definesKeyframes, hkeyframes]
    simpa [keyframesRule] using hne
  have hparams : paramsName (keyframesRule n).params = n := by
    rw [keyframesRule, paramsName, hquote]
  have hevents : (keyframesSheet n).events = [.atRule (keyframesRule n)] := rfl
  rw [hevents, declaredNames, List.filterMap_cons]
  simp [hdefines, hparams]

/-- If what is put behind the names ends alike, there are sheets that define the same name. -/
theorem exists_meets {scope scope' : Text} (h : nameSuffix scope' <:+ nameSuffix scope) :
    ∃ s s', Meets scope scope' s s' := by
  obtain ⟨m, hm⟩ := h
  have hname : declaredNames (keyframesSheet ['x']).events = [['x']] :=
    declaredNames_keyframesSheet (by simp) rfl
  have hlonger : declaredNames (keyframesSheet ('x' :: m)).events = ['x' :: m] :=
    declaredNames_keyframesSheet (by simp) rfl
  refine ⟨keyframesSheet ['x'], keyframesSheet ('x' :: m), m, hm.symm, ['x'], ?_, ?_⟩
  · simp [hname]
  · simp [hlonger]

theorem suffix_nameSuffix (scope : Text) :
    scope <:+ nameSuffix scope ∧ nameSuffix scope <:+ '-' :: scope := by
  unfold nameSuffix scopedName
  split
  · exact ⟨List.suffix_rfl, List.suffix_cons _ _⟩
  · exact ⟨List.suffix_rfl, List.suffix_cons _ _⟩
  · exact ⟨List.suffix_cons _ _, List.suffix_rfl⟩

theorem eq_of_nameSuffix_suffix {scope scope' : Text} (hlength : scope.length = scope'.length)
    (h : nameSuffix scope <:+ nameSuffix scope') : scope = scope' := by
  have hsuffix : scope <:+ '-' :: scope' :=
    ((suffix_nameSuffix scope).1.trans h).trans (suffix_nameSuffix scope').2
  obtain heq | hshort := List.suffix_cons_iff.1 hsuffix
  · rw [heq, List.length_cons] at hlength
    omega
  · exact hshort.eq_of_length hlength

/-- Two scopes give keyframes of two sheets the same name just where they meet. They keep those of
all sheets apart if what one puts behind names is no end of what the other does, and so if they are
different and of one length. -/
theorem disjoint_scopedNames (scope scope' : Text) :
    (∀ s s', (∃ name ∈ scopedNames scope s, name ∈ scopedNames scope' s') ↔
        Meets scope scope' s s' ∨ Meets scope' scope s' s) ∧
      ((∀ s s', (scopedNames scope s).Disjoint (scopedNames scope' s')) ↔
        ¬nameSuffix scope' <:+ nameSuffix scope ∧ ¬nameSuffix scope <:+ nameSuffix scope') ∧
      (scope ≠ scope' → scope.length = scope'.length →
        ∀ s s', (scopedNames scope s).Disjoint (scopedNames scope' s')) := by
  have hapart : (∀ s s', (scopedNames scope s).Disjoint (scopedNames scope' s')) ↔
      ¬nameSuffix scope' <:+ nameSuffix scope ∧ ¬nameSuffix scope <:+ nameSuffix scope' := by
    constructor
    · intro hdisjoint
      constructor
      · intro h
        obtain ⟨s, s', hmeets⟩ := exists_meets h
        obtain ⟨name, hmem, hmem'⟩ := exists_common_name_iff.2 (.inl hmeets)
        exact hdisjoint s s' hmem hmem'
      · intro h
        obtain ⟨s', s, hmeets⟩ := exists_meets h
        obtain ⟨name, hmem, hmem'⟩ := exists_common_name_iff.2 (.inr hmeets)
        exact hdisjoint s s' hmem hmem'
    · intro h s s' name hmem hmem'
      obtain ⟨m, hm, -⟩ | ⟨m, hm, -⟩ := exists_common_name_iff.1 ⟨name, hmem, hmem'⟩
      · exact h.1 ⟨m, hm.symm⟩
      · exact h.2 ⟨m, hm.symm⟩
  refine ⟨fun s s' => exists_common_name_iff, hapart, fun hne hlength => hapart.2 ⟨?_, ?_⟩⟩
  · intro h
    exact hne (eq_of_nameSuffix_suffix hlength.symm h).symm
  · intro h
    exact hne (eq_of_nameSuffix_suffix hlength h)

/-- Scopes of one length that end alike, and sheets that declare the same name. -/
theorem disjoint_scopedNames_cards :
    let scope : Text := "x-card".toList
    let scope' : Text := "y-card".toList
    scope ≠ scope' ∧ scope.length = scope'.length ∧
      ∃ s, parse? "@keyframes fade\x7b\x7d".toList = some s ∧
        scopedNames scope s = ["fade-x-card".toList] ∧
        scopedNames scope' s = ["fade-y-card".toList] ∧
        (scopedNames scope s).Disjoint (scopedNames scope' s) := by
  intro scope scope'
  have hne : scope ≠ scope' := by decide
  have hlength : scope.length = scope'.length := by decide
  obtain ⟨s, hs⟩ : ∃ s, parse? "@keyframes fade\x7b\x7d".toList = some s :=
    Option.isSome_iff_exists.1 (by decide +kernel)
  have hnames : (parse? "@keyframes fade\x7b\x7d".toList).map
      (fun s => (scopedNames scope s, scopedNames scope' s)) =
      some (["fade-x-card".toList], ["fade-y-card".toList]) := by decide +kernel
  rw [hs, Option.map_some, Option.some.injEq, Prod.mk.injEq] at hnames
  exact ⟨hne, hlength, s, hs, hnames.1, hnames.2,
    (disjoint_scopedNames scope scope').2.2 hne hlength s s⟩

/-- Nothing marks where a name ends and its scope starts. -/
theorem scopedNames_meet :
    let scope : Text := "card".toList
    let scope' : Text := "x-card".toList
    scope ≠ scope' ∧ (Scope.Context.ofScope scope).isOk = true ∧
      (Scope.Context.ofScope scope').isOk = true ∧
      ∃ s s', parse? "@keyframes fade-x\x7b\x7d".toList = some s ∧
        parse? "@keyframes fade\x7b\x7d".toList = some s' ∧
        "fade-x-card".toList ∈ scopedNames scope s ∧
        "fade-x-card".toList ∈ scopedNames scope' s' := by
  intro scope scope'
  obtain ⟨s, hs⟩ : ∃ s, parse? "@keyframes fade-x\x7b\x7d".toList = some s :=
    Option.isSome_iff_exists.1 (by decide +kernel)
  obtain ⟨s', hs'⟩ : ∃ s, parse? "@keyframes fade\x7b\x7d".toList = some s :=
    Option.isSome_iff_exists.1 (by decide +kernel)
  have hname : (parse? "@keyframes fade-x\x7b\x7d".toList).map (scopedNames scope) =
      some ["fade-x-card".toList] := by decide +kernel
  have hname' : (parse? "@keyframes fade\x7b\x7d".toList).map (scopedNames scope') =
      some ["fade-x-card".toList] := by decide +kernel
  rw [hs, Option.map_some, Option.some.injEq] at hname
  rw [hs', Option.map_some, Option.some.injEq] at hname'
  refine ⟨by decide, by decide, by decide, s, s', hs, hs', ?_, ?_⟩
  · rw [hname]
    exact List.mem_singleton_self _
  · rw [hname']
    exact List.mem_singleton_self _

end StyleScope.Animation
