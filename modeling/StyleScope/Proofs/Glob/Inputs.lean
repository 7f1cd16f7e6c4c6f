import Mathlib.Data.List.Basic
import Mathlib.Data.List.Induction
import Mathlib.Data.List.Nodup
import StyleScope.Glob.Search
import StyleScope.Proofs.Failing

/-! # The files of a list of patterns

A pattern adds the files it matches that are not listed yet, and if there are none it adds itself
(`Adds`, `exists_adds_expand`). So it stands for itself not only if it matches no file, but also if
all the files it matches are listed already.

As long as that does not happen the list is what one expects of it: the files that are matched, each
once and in the order of their first matches, with the patterns that match none between them
(`lists_expand`). Where it does happen, it shows in the list (`brings_of_lists`).

What is found for a pattern is up to the library. All that is assumed of it is that it finds just the
paths that exist and match (`Library.Finds`), whatever it is to match. Where it does not, it may also
end the expansion (`Library.Stops`).
-/
namespace StyleScope.Glob
open Files

/-- Paths as they are compared. -/
def places (paths : List Text) : List (List Component) := paths.map Path.components

@[simp] theorem places_append (a b : List Text) : places (a ++ b) = places a ++ places b :=
  List.map_append

theorem mem_places {paths : List Text} {path : Text} (h : path ∈ paths) :
    Path.components path ∈ places paths :=
  List.mem_map_of_mem h

/-- The pattern is not refused, everything on the way can be looked at, and what is found are the
paths that exist and match. -/
def Library.Finds (glob : Library) (t : Tree) (matching : Text → Text → Prop) (pattern : Text) :
    Prop :=
  ∃ paths : List Text, glob.find t pattern = .ok (paths.map .ok) ∧
    ∀ path, path ∈ paths ↔ t.exists? path = true ∧ matching pattern path

theorem Library.finds_of_find {glob : Library} {t : Tree} {matching : Text → Text → Prop}
    {pattern : Text} (paths : List Text) (h : glob.find t pattern = .ok (paths.map .ok))
    (hexists : ∀ path ∈ paths, t.exists? path = true)
    (hmatching : ∀ path, matching pattern path ↔ path ∈ paths) : glob.Finds t matching pattern := by
  refine ⟨paths, h, fun path => ?_⟩
  rw [hmatching]
  exact ⟨fun hpath => ⟨hexists path hpath, hpath⟩, And.right⟩

theorem Library.paths_eq_ok {glob : Library} {t : Tree} {pattern : Text} {paths : List Text}
    (h : glob.find t pattern = .ok (paths.map .ok)) : glob.paths t pattern = .ok paths := by
  have hpaths : (paths.map Except.ok).mapM id = (Except.ok paths : Except LibraryError _) := by
    rw [List.mapM_map]
    exact (List.mapM_pure (f := id)).trans (congrArg _ (List.map_id paths))
  rw [Library.paths, h]
  exact Failing.mapError_eq_ok_iff.2 hpaths

section
variable {glob : Library} {t : Tree} {pattern : Text} {patterns : List Text} {x : ExpandError}

end

/-- The files that are found for a pattern, in the order in which they are found. -/
def filesOf (glob : Library) (t : Tree) (pattern : Text) : List Text :=
  match glob.paths t pattern with
  | .ok paths => paths.filter t.isFile
  | .error _ => []

section
variable {glob : Library} {t : Tree} {pattern f : Text}

theorem isFile_of_mem_filesOf (h : f ∈ filesOf glob t pattern) : t.isFile f = true := by
  unfold filesOf at h
  split at h
  · exact (List.mem_filter.1 h).2
  · exact absurd h List.not_mem_nil

theorem exists?_of_isFile (h : t.isFile f = true) : t.exists? f = true := by
  rw [Tree.isFile] at h
  rw [Tree.exists?]
  cases hfind : t.find f with
  | ok item => rfl
  | error e => simp [hfind] at h

theorem Library.Finds.mem_filesOf_iff {matching : Text → Text → Prop}
    (h : glob.Finds t matching pattern) :
    f ∈ filesOf glob t pattern ↔ t.isFile f = true ∧ matching pattern f := by
  obtain ⟨paths, hfind, hmem⟩ := h
  rw [filesOf, Library.paths_eq_ok hfind]
  simp only [List.mem_filter, hmem]
  constructor
  · rintro ⟨⟨-, hmatch⟩, hfile⟩
    exact ⟨hfile, hmatch⟩
  · rintro ⟨hfile, hmatch⟩
    exact ⟨⟨exists?_of_isFile hfile, hmatch⟩, hfile⟩

end

/-- The places of the files that are found for patterns, in the order in which they are found. -/
def matched (glob : Library) (t : Tree) (patterns : List Text) : List (List Component) :=
  places (patterns.flatMap (filesOf glob t))

section
variable {α : Type} [BEq α] {xs known : List α} {a : α}

/-- The first of a list and what differs from it. -/
theorem eraseDups_cons_removeAll :
    (a :: xs.removeAll known).eraseDups = a :: (xs.removeAll (a :: known)).eraseDups := by
  rw [List.eraseDups_cons, List.removeAll_cons, List.removeAll, List.removeAll, List.filter_filter,
    List.filter_filter]
  simp only [Bool.and_comm]

variable [LawfulBEq α]

theorem mem_removeAll : a ∈ xs.removeAll known ↔ a ∈ xs ∧ a ∉ known := by
  simp [List.removeAll]

theorem removeAll_cons_of_mem (h : a ∈ known) :
    (a :: xs).removeAll known = xs.removeAll known := by
  simp [List.removeAll, h]

theorem removeAll_cons_of_not_mem (h : a ∉ known) :
    (a :: xs).removeAll known = a :: xs.removeAll known := by
  simp [List.removeAll, h]

theorem removeAll_congr {known' : List α} (h : ∀ a ∈ xs, a ∈ known ↔ a ∈ known') :
    xs.removeAll known = xs.removeAll known' := by
  refine List.filter_congr fun a ha => ?_
  simp [h a ha]

theorem nodup_eraseDups (xs : List α) : xs.eraseDups.Nodup := by
  cases xs with
  | nil => simp
  | cons x xs =>
      rw [List.eraseDups_cons, List.nodup_cons]
      exact ⟨by simp [List.mem_eraseDups], nodup_eraseDups _⟩
termination_by xs.length
decreasing_by
  have hlength := List.length_filter_le (fun b => !b == x) xs
  rw [List.length_cons]
  omega

end

section
variable (glob : Library) (t : Tree)

theorem matched_append (ps qs : List Text) :
    matched glob t (ps ++ qs) = matched glob t ps ++ matched glob t qs := by
  simp [matched]

theorem matched_singleton (p : Text) : matched glob t [p] = places (filesOf glob t p) := by
  simp [matched]

/-- The new files are those that are not known, one for each place. -/
theorem places_newFiles (known : List (List Component)) (paths : List Text) :
    places (newFiles t known paths) =
      ((places (paths.filter t.isFile)).removeAll known).eraseDups := by
  fun_induction newFiles t known paths with
  | case1 => rfl
  | case2 known p rest components h ih =>
      obtain ⟨hfile, hnew⟩ : t.isFile p = true ∧ Path.components p ∉ known := by
        simpa using h
      rw [List.filter_cons_of_pos hfile, places, places, List.map_cons, List.map_cons,
        removeAll_cons_of_not_mem hnew, eraseDups_cons_removeAll]
      exact congrArg _ ih
  | case3 known p rest components h ih =>
      rw [ih]
      by_cases hfile : t.isFile p = true
      · have hknown : Path.components p ∈ known := by simpa [hfile] using h
        rw [List.filter_cons_of_pos hfile, places, places, List.map_cons,
          removeAll_cons_of_mem hknown]
      · rw [List.filter_cons_of_neg hfile]

theorem newFiles_sublist (known : List (List Component)) (paths : List Text) :
    (newFiles t known paths).Sublist (paths.filter t.isFile) := by
  fun_induction newFiles t known paths with
  | case1 => exact .slnil
  | case2 known p rest components h ih =>
      rw [List.filter_cons_of_pos (Bool.and_eq_true_iff.1 h).1]
      exact ih.cons_cons p
  | case3 known p rest components h ih =>
      exact ih.trans ((List.sublist_cons_self p rest).filter t.isFile)

end

/-- What a pattern adds to a list: the files it matches that are not listed, one for each place, or
itself if all the files it matches are listed. -/
inductive Adds (glob : Library) (t : Tree) (listed : List Text) (pattern : Text) :
    List Text → Prop
  | files {added : List Text} : added ≠ [] → added.Sublist (filesOf glob t pattern) →
      places added = ((places (filesOf glob t pattern)).removeAll (places listed)).eraseDups →
      Adds glob t listed pattern added
  | itself : (∀ f ∈ filesOf glob t pattern, Path.components f ∈ places listed) →
      Adds glob t listed pattern [pattern]

section
variable {glob : Library} {t : Tree} {qs paths : List Text} {pattern : Text}

theorem exists_adds_addPattern (hp : glob.paths t pattern = .ok paths) (listed : List Text) :
    ∃ added, addPattern t listed pattern paths = listed ++ added ∧
      Adds glob t listed pattern added := by
  have hfiles : filesOf glob t pattern = paths.filter t.isFile := by rw [filesOf, hp]
  have hplaces := places_newFiles t (places listed) paths
  have hsub := newFiles_sublist t (places listed) paths
  rw [← hfiles] at hplaces hsub
  unfold addPattern
  split
  · next hnone =>
    refine ⟨[pattern], rfl, .itself fun f hf => ?_⟩
    by_contra hnew
    have hmem := List.mem_eraseDups.2 (mem_removeAll.2 ⟨mem_places hf, hnew⟩)
    have hempty : newFiles t (places listed) paths = [] := hnone
    rw [← hplaces, hempty] at hmem
    exact absurd hmem List.not_mem_nil
  · next hsome => exact ⟨_, rfl, .files hsome hsub hplaces⟩

/-- One more pattern is expanded if the others are and it can be. -/
theorem expand_append_singleton {listed : List Text} (hp : glob.paths t pattern = .ok paths)
    (h : expand glob t qs = .ok listed) :
    expand glob t (qs ++ [pattern]) = .ok (addPattern t listed pattern paths) := by
  unfold expand at h ⊢
  rw [List.foldlM_append, h]
  simp [hp, bind, Except.bind, pure, Except.pure]

theorem exists_expand {patterns : List Text}
    (h : ∀ p ∈ patterns, ∃ paths, glob.paths t p = .ok paths) :
    ∃ listed, expand glob t patterns = .ok listed := by
  induction patterns using List.reverseRecOn with
  | nil => exact ⟨[], rfl⟩
  | append_singleton qs p ih =>
      obtain ⟨listed, hlisted⟩ := ih fun q hq => h q (by simp [hq])
      obtain ⟨paths, hp⟩ := h p (by simp)
      exact ⟨_, expand_append_singleton hp hlisted⟩

/-- The last pattern adds to what the others list. -/
theorem exists_adds_expand {listed : List Text}
    (h : expand glob t (qs ++ [pattern]) = .ok listed) :
    ∃ before added, expand glob t qs = .ok before ∧ Adds glob t before pattern added ∧
      listed = before ++ added := by
  have hsteps := h
  rw [expand, List.foldlM_append] at hsteps
  obtain ⟨before, hbefore, hlast⟩ := Failing.bind_eq_ok_iff.1 hsteps
  cases hp : glob.paths t pattern with
  | error e => exact absurd hlast (by simp [hp, bind, Except.bind])
  | ok paths =>
      obtain ⟨added, happ, hadds⟩ := exists_adds_addPattern hp before
      rw [expand_append_singleton hp hbefore, Except.ok.injEq, happ] at h
      exact ⟨before, added, hbefore, hadds, h.symm⟩

/-- Each pattern adds to what those before it list. -/
theorem exists_adds_split {rs listed : List Text}
    (h : expand glob t (qs ++ pattern :: rs) = .ok listed) :
    ∃ before added rest, expand glob t qs = .ok before ∧ Adds glob t before pattern added ∧
      listed = before ++ added ++ rest := by
  induction rs using List.reverseRecOn generalizing listed with
  | nil =>
      obtain ⟨before, added, hbefore, hadds, rfl⟩ := exists_adds_expand h
      exact ⟨before, added, [], hbefore, hadds, by simp⟩
  | append_singleton rs r ih =>
      rw [← List.cons_append, ← List.append_assoc] at h
      obtain ⟨listed, more, hlisted, -, rfl⟩ := exists_adds_expand h
      obtain ⟨before, added, rest, hbefore, hadds, rfl⟩ := ih hlisted
      exact ⟨before, added, rest ++ more, hbefore, hadds, by simp⟩

/-- Every file that is matched is listed. -/
theorem mem_places_expand {patterns listed : List Text} (h : expand glob t patterns = .ok listed) :
    ∀ c ∈ matched glob t patterns, c ∈ places listed := by
  induction patterns using List.reverseRecOn generalizing listed with
  | nil => simp [matched, places]
  | append_singleton qs p ih =>
      obtain ⟨before, added, hbefore, hadds, rfl⟩ := exists_adds_expand h
      intro c hc
      rw [matched_append, matched_singleton, List.mem_append] at hc
      rw [places_append, List.mem_append]
      obtain hc | hc := hc
      · exact .inl (ih hbefore c hc)
      · by_cases hlisted : c ∈ places before
        · exact .inl hlisted
        · right
          cases hadds with
          | files _ _ hplaces =>
              rw [hplaces, List.mem_eraseDups]
              exact mem_removeAll.2 ⟨hc, hlisted⟩
          | itself hall =>
              obtain ⟨f, hf, rfl⟩ := List.mem_map.1 hc
              exact absurd (hall f hf) hlisted

end

/-- The pattern matches a file that none of the others matches. -/
def Brings (glob : Library) (t : Tree) (others : List Text) (pattern : Text) : Prop :=
  ∃ f ∈ filesOf glob t pattern, Path.components f ∉ matched glob t others

/-- Among the places that count a list has those of the files matched, each once and in the order of
the first matches. All its paths are files matched and patterns that match none. -/
structure Lists (glob : Library) (t : Tree) (counts : List Component → Bool)
    (patterns listed : List Text) : Prop where
  files : (places listed).filter counts = (matched glob t patterns).eraseDups
  entries : ∀ path ∈ listed, (∃ p ∈ patterns, path ∈ filesOf glob t p) ∨
    path ∈ patterns ∧ filesOf glob t path = []

section
variable {glob : Library} {t : Tree} {counts : List Component → Bool}

theorem Lists.mem_places_iff {patterns listed : List Text} (h : Lists glob t counts patterns listed)
    {c : List Component} (hc : counts c = true) : c ∈ places listed ↔ c ∈ matched glob t patterns := by
  have hmem : c ∈ (places listed).filter counts ↔ c ∈ (matched glob t patterns).eraseDups := by
    rw [h.files]
  rwa [List.mem_filter, and_iff_left hc, List.mem_eraseDups] at hmem

/-- A pattern that matches no file or brings one keeps the list in order. -/
theorem Lists.append {qs before added : List Text} {p : Text} (h : Lists glob t counts qs before)
    (hadds : Adds glob t before p added) (hnew : filesOf glob t p = [] ∨ Brings glob t qs p)
    (hnone : filesOf glob t p = [] → counts (Path.components p) = false)
    (hfiles : ∀ f ∈ filesOf glob t p, counts (Path.components f) = true) :
    Lists glob t counts (qs ++ [p]) (before ++ added) := by
  -- what a pattern brings is not listed, so it cannot stand for itself then
  have hitself : (∀ f ∈ filesOf glob t p, Path.components f ∈ places before) → filesOf glob t p = [] := by
    intro hlisted
    obtain hempty | ⟨f, hf, hfresh⟩ := hnew
    · exact hempty
    · exact absurd ((h.mem_places_iff (hfiles f hf)).1 (hlisted f hf)) hfresh
  constructor
  · have hadded : (places added).filter counts =
        ((places (filesOf glob t p)).removeAll (matched glob t qs)).eraseDups := by
      cases hadds with
      | files _ hsub hplaces =>
          have hcounts : ∀ c ∈ places (filesOf glob t p), counts c = true := by
            intro c hc
            obtain ⟨f, hf, rfl⟩ := List.mem_map.1 hc
            exact hfiles f hf
          have hall : ∀ c ∈ places added, counts c = true := by
            intro c hc
            exact hcounts c ((hsub.map Path.components).subset hc)
          rw [List.filter_eq_self.2 hall, hplaces,
            removeAll_congr fun c hc => h.mem_places_iff (hcounts c hc)]
      | itself hlisted =>
          have hempty := hitself hlisted
          rw [hempty]
          simp [places, hnone hempty]
    rw [places_append, List.filter_append, h.files, hadded, matched_append, matched_singleton,
      List.eraseDups_append]
  · intro path hpath
    obtain hpath | hpath := List.mem_append.1 hpath
    · obtain ⟨q, hq, hf⟩ | ⟨hq, hempty⟩ := h.entries path hpath
      · exact .inl ⟨q, List.mem_append_left _ hq, hf⟩
      · exact .inr ⟨List.mem_append_left _ hq, hempty⟩
    · cases hadds with
      | files _ hsub _ => exact .inl ⟨p, by simp, hsub.subset hpath⟩
      | itself hlisted =>
          obtain rfl := List.mem_singleton.1 hpath
          exact .inr ⟨by simp, hitself hlisted⟩

variable {patterns listed : List Text} (h : expand glob t patterns = .ok listed)
include h

/-- The list of patterns each of which matches no file or brings one. -/
theorem lists_expand (hnew : ∀ qs p rs, patterns = qs ++ p :: rs → filesOf glob t p = [] ∨ Brings glob t qs p)
    (hnone : ∀ p ∈ patterns, filesOf glob t p = [] → counts (Path.components p) = false)
    (hfiles : ∀ c ∈ matched glob t patterns, counts c = true) : Lists glob t counts patterns listed := by
  induction patterns using List.reverseRecOn generalizing listed with
  | nil =>
      obtain rfl : [] = listed := Except.ok.inj h
      exact ⟨rfl, by simp⟩
  | append_singleton qs p ih =>
      obtain ⟨before, added, hbefore, hadds, rfl⟩ := exists_adds_expand h
      rw [matched_append, matched_singleton] at hfiles
      have hlists : Lists glob t counts qs before := by
        refine ih hbefore (fun as q bs hsplit => hnew as q (bs ++ [p]) ?_)
          (fun q hq => hnone q (List.mem_append_left _ hq))
          fun c hc => hfiles c (List.mem_append_left _ hc)
        rw [hsplit, List.append_assoc, List.cons_append]
      exact hlists.append hadds (hnew qs p [] rfl) (hnone p (by simp))
        fun f hf => hfiles _ (List.mem_append_right _ (mem_places hf))

/-- A pattern that matches files, but brings none, is listed itself, either next to the files or as
one of them a second time. -/
theorem brings_of_lists
    (hown : ∀ p ∈ patterns, Path.components p ∈ matched glob t patterns →
      Path.components p ∈ places (filesOf glob t p))
    (hlists : Lists glob t (fun c => c ∈ matched glob t patterns) patterns listed)
    {qs rs : List Text} {p : Text} (hsplit : patterns = qs ++ p :: rs) :
    filesOf glob t p = [] ∨ Brings glob t qs p := by
  by_contra hnot
  obtain ⟨hne, hbrings⟩ := not_or.1 hnot
  have hmatched : ∀ c ∈ places (filesOf glob t p), c ∈ matched glob t qs := by
    intro c hc
    obtain ⟨f, hf, rfl⟩ := List.mem_map.1 hc
    by_contra hfresh
    exact hbrings ⟨f, hf, hfresh⟩
  subst hsplit
  obtain ⟨before, added, rest, hbefore, hadds, rfl⟩ := exists_adds_split h
  have hlisted := mem_places_expand hbefore
  cases hadds with
  | files hadded hsub hplaces =>
      obtain ⟨f, hf⟩ := List.exists_mem_of_ne_nil added hadded
      have hmem := mem_places hf
      rw [hplaces, List.mem_eraseDups, mem_removeAll] at hmem
      exact hmem.2 (hlisted _ (hmatched _ hmem.1))
  | itself =>
      obtain ⟨q, hq, hf⟩ | ⟨-, hempty⟩ := hlists.entries p (by simp)
      · -- its own path is listed before it, and once more with it
        have hc : Path.components p ∈ matched glob t (qs ++ p :: rs) :=
          mem_places (List.mem_flatMap.2 ⟨q, hq, hf⟩)
        have hfirst := hlisted _ (hmatched _ (hown p (by simp) hc))
        have hnodup := nodup_eraseDups (matched glob t (qs ++ p :: rs))
        rw [← hlists.files, places_append, places_append, List.filter_append,
          List.filter_append] at hnodup
        have hapart := (List.nodup_append.1 (List.nodup_append.1 hnodup).1).2.2
        have hsecond : Path.components p ∈ places [p] := mem_places (List.mem_singleton_self p)
        exact hapart _ (List.mem_filter.2 ⟨hfirst, by simpa using hc⟩) _
          (List.mem_filter.2 ⟨hsecond, by simpa using hc⟩) rfl
      · exact hne hempty

/-- The list of patterns that all bring a file. -/
theorem files_expand (hbrings : ∀ qs p rs, patterns = qs ++ p :: rs → Brings glob t qs p) :
    places listed = (matched glob t patterns).eraseDups ∧ (places listed).Nodup ∧
      ∀ path ∈ listed, t.isFile path = true := by
  have hfound : ∀ p ∈ patterns, filesOf glob t p ≠ [] := by
    intro p hp
    obtain ⟨qs, rs, hsplit⟩ := List.append_of_mem hp
    obtain ⟨f, hf, -⟩ := hbrings qs p rs hsplit
    exact List.ne_nil_of_mem hf
  have hlists : Lists glob t (fun _ => true) patterns listed :=
    lists_expand h (fun qs p rs hsplit => .inr (hbrings qs p rs hsplit))
      (fun p hp hempty => absurd hempty (hfound p hp)) fun _ _ => rfl
  have hplaces : places listed = (matched glob t patterns).eraseDups := by
    simpa using hlists.files
  refine ⟨hplaces, hplaces ▸ nodup_eraseDups _, fun path hpath => ?_⟩
  obtain ⟨p, -, hf⟩ | ⟨hp, hempty⟩ := hlists.entries path hpath
  · exact isFile_of_mem_filesOf hf
  · exact absurd hempty (hfound path hp)

end

/-- What patterns list: every file that matches one of them, and for each pattern in turn the files
that are not listed yet, or the pattern itself if there are none. So the list is that of the files
in the order of their first matches, with the patterns that match none, if and only if every other
pattern brings a file, provided that a pattern with the path of a file matched matches that file. If
all patterns bring a file, there is nothing else in the list. -/
theorem lists_expand_iff (glob : Library) (t : Tree) (matching : Text → Text → Prop)
    (patterns : List Text) (hfinds : ∀ p ∈ patterns, glob.Finds t matching p) :
    (∀ p ∈ patterns, ∀ f, f ∈ filesOf glob t p ↔ t.isFile f = true ∧ matching p f) ∧
    ∃ listed, expand glob t patterns = .ok listed ∧
      (∀ p ∈ patterns, ∀ f, t.isFile f = true → matching p f →
        Path.components f ∈ places listed) ∧
      (∀ qs p rs, patterns = qs ++ p :: rs → ∃ before added rest,
        expand glob t qs = .ok before ∧ Adds glob t before p added ∧
          listed = before ++ added ++ rest) ∧
      ((∀ p ∈ patterns, Path.components p ∈ matched glob t patterns →
          Path.components p ∈ places (filesOf glob t p)) →
        (Lists glob t (fun c => c ∈ matched glob t patterns) patterns listed ↔
          ∀ qs p rs, patterns = qs ++ p :: rs → filesOf glob t p = [] ∨ Brings glob t qs p)) ∧
      ((∀ qs p rs, patterns = qs ++ p :: rs → Brings glob t qs p) →
        places listed = (matched glob t patterns).eraseDups ∧ (places listed).Nodup ∧
          ∀ path ∈ listed, t.isFile path = true) := by
  have hmem : ∀ p ∈ patterns, ∀ f, f ∈ filesOf glob t p ↔ t.isFile f = true ∧ matching p f :=
    fun p hp f => (hfinds p hp).mem_filesOf_iff
  have hpaths : ∀ p ∈ patterns, ∃ paths, glob.paths t p = .ok paths := by
    intro p hp
    obtain ⟨paths, hfind, -⟩ := hfinds p hp
    exact ⟨paths, Library.paths_eq_ok hfind⟩
  obtain ⟨listed, h⟩ := exists_expand hpaths
  refine ⟨hmem, listed, h, ?_, ?_, fun hown => ⟨?_, ?_⟩, fun hbrings => ?_⟩
  · intro p hp f hfile hmatch
    refine mem_places_expand h _ (mem_places (List.mem_flatMap.2 ⟨p, hp, ?_⟩))
    exact (hmem p hp f).2 ⟨hfile, hmatch⟩
  · rintro qs p rs rfl
    exact exists_adds_split h
  · exact fun hlists qs p rs => brings_of_lists h hown hlists
  · refine fun hnew => lists_expand h hnew (fun p hp hempty => ?_) (by simp)
    have hnot : Path.components p ∉ matched glob t patterns := by
      intro hc
      have hfile := hown p hp hc
      rw [hempty] at hfile
      exact absurd hfile List.not_mem_nil
    simpa using hnot
  · exact files_expand h hbrings

/-- A pattern that matches no file stands between two that bring one. -/
theorem lists_expand_unmatched :
    let t : Tree :=
      { entries := [("d".toList, .directory [("a.css".toList, .file (.text []))]),
          ("b.css".toList, .file (.text []))] }
    let patterns : List Text := ["d/*.css".toList, "d/x*.css".toList, "b.css".toList]
    let matching (pattern path : Text) : Prop :=
      (pattern, path) ∈ [("d/*.css".toList, "d/a.css".toList), ("b.css".toList, "b.css".toList)]
    let listed : List Text := ["d/a.css".toList, "d/x*.css".toList, "b.css".toList]
    (∀ p ∈ patterns, matcher.Finds t matching p) ∧ expand matcher t patterns = .ok listed ∧
      matched matcher t patterns = places ["d/a.css".toList, "b.css".toList] ∧
      Lists matcher t (fun c => c ∈ matched matcher t patterns) patterns listed := by
  intro t patterns matching listed
  have hfinds : ∀ p ∈ patterns, matcher.Finds t matching p := by
    intro p hp
    simp only [patterns, List.mem_cons, List.not_mem_nil, or_false] at hp
    obtain rfl | rfl | rfl := hp
    · exact Library.finds_of_find ["d/a.css".toList] (by decide +kernel) (by decide +kernel)
        (by simp [matching])
    · exact Library.finds_of_find [] (by decide +kernel) (by decide +kernel) (by simp [matching])
    · exact Library.finds_of_find ["b.css".toList] (by decide +kernel) (by decide +kernel)
        (by simp [matching])
  have hexpand : expand matcher t patterns = .ok listed := by decide +kernel
  have hmatched : matched matcher t patterns = places ["d/a.css".toList, "b.css".toList] := by
    decide +kernel
  obtain ⟨-, found, hfound, -, -, hlists, -⟩ := lists_expand_iff matcher t matching patterns hfinds
  obtain rfl : found = listed := Except.ok.inj (hfound.symm.trans hexpand)
  refine ⟨hfinds, hexpand, hmatched, (hlists (by decide +kernel)).2 fun qs p rs hsplit => ?_⟩
  obtain _ | ⟨q, _ | ⟨q', _ | ⟨q'', qs⟩⟩⟩ := qs
  · obtain ⟨rfl, -⟩ := List.cons.inj hsplit
    exact .inr ⟨"d/a.css".toList, by decide +kernel, by decide⟩
  · obtain ⟨-, htail⟩ := List.cons.inj hsplit
    obtain ⟨rfl, -⟩ := List.cons.inj htail
    exact .inl (by decide +kernel)
  · obtain ⟨rfl, htail⟩ := List.cons.inj hsplit
    obtain ⟨rfl, hlast⟩ := List.cons.inj htail
    obtain ⟨rfl, -⟩ := List.cons.inj hlast
    exact .inr ⟨"b.css".toList, by decide +kernel, by decide +kernel⟩
  · exact absurd hsplit (by simp [patterns])

/-- A pattern is listed next to the only file, which it matches. -/
theorem lists_expand_superfluous :
    let t : Tree := { entries := [("a.css".toList, .file (.text []))] }
    let patterns : List Text := ["a.css".toList, "*.css".toList]
    (∀ p ∈ patterns, matcher.Finds t (fun _ path => path = "a.css".toList) p) ∧
      (∀ p ∈ patterns, filesOf matcher t p = ["a.css".toList]) ∧
      expand matcher t patterns = .ok patterns ∧ t.isFile "*.css".toList = false ∧
      ¬Lists matcher t (fun c => c ∈ matched matcher t patterns) patterns patterns := by
  intro t patterns
  have hfind : ∀ p ∈ patterns, matcher.find t p = .ok (["a.css".toList].map .ok) := by
    decide +kernel
  have hfiles : ∀ p ∈ patterns, filesOf matcher t p = ["a.css".toList] := by decide +kernel
  have hstar : "*.css".toList ∈ patterns := by decide
  refine ⟨fun p hp => ?_, hfiles, by decide +kernel, by decide +kernel, fun hlists => ?_⟩
  · exact Library.finds_of_find _ (hfind p hp) (by decide +kernel) (by simp)
  · obtain ⟨p, hp, hmem⟩ | ⟨-, hempty⟩ := hlists.entries _ hstar
    · rw [hfiles p hp] at hmem
      exact absurd hmem (by decide)
    · rw [hfiles _ hstar] at hempty
      exact absurd hempty (by simp)

end StyleScope.Glob
