import StyleScope.Files.Lookup
import StyleScope.Proofs.Failing
import StyleScope.Proofs.Files.Places

/-! # Following paths

A path is followed name by name, and only directories are entered. So a path that can be followed in
a tree leads to the same place in every tree that has the same directories and perhaps more
(`Tree.Keeps.follow`). The path of a name within a directory leads to the name in that directory,
however the path of the directory is written (`Tree.follow_join`).
-/
namespace StyleScope.Files
open Failing

namespace Path

theorem segments_ne_nil (p : Text) : segments p ≠ [] := by
  cases p with
  | nil => exact List.cons_ne_nil _ _
  | cons c r =>
      rw [segments]
      split
      · exact List.cons_ne_nil _ _
      · split <;> exact List.cons_ne_nil _ _

theorem segments_append (a b : Text) : segments (a ++ '/' :: b) = segments a ++ segments b := by
  induction a with
  | nil => rfl
  | cons c a ih =>
      rw [List.cons_append, segments, segments, ih]
      split
      · rfl
      · obtain ⟨s, rest, h⟩ := List.exists_cons_of_ne_nil (segments_ne_nil a)
        rw [h]
        rfl

theorem segments_of_no_slash {n : Text} (h : '/' ∉ n) : segments n = [n] := by
  induction n with
  | nil => rfl
  | cons c n ih =>
      obtain ⟨hc, hn⟩ := not_or.1 (mt List.mem_cons.2 h)
      rw [segments, if_neg (Ne.symm hc), ih hn]

theorem no_slash_of_mem_segments {p s : Text} (h : s ∈ segments p) : '/' ∉ s := by
  induction p generalizing s with
  | nil =>
      rw [List.mem_singleton.1 h]
      exact List.not_mem_nil
  | cons c r ih =>
      rw [segments] at h
      split at h
      · rcases List.mem_cons.1 h with h | h
        · rw [h]
          exact List.not_mem_nil
        · exact ih h
      · next hc =>
        obtain ⟨first, rest, hr⟩ := List.exists_cons_of_ne_nil (segments_ne_nil r)
        rw [hr] at h ih
        rcases List.mem_cons.1 h with h | h
        · rw [h, List.mem_cons, not_or]
          exact ⟨Ne.symm hc, ih List.mem_cons_self⟩
        · exact ih (List.mem_cons_of_mem _ h)

/-- A text that can be the name of a file. -/
structure IsName (n : Text) : Prop where
  no_slash : '/' ∉ n
  component : component? n = some (.name n)

theorem IsName.not_isAbsolute {n : Text} (hn : IsName n) : isAbsolute n = false := by
  cases n with
  | nil => rfl
  | cons c r =>
      have hc : c ≠ '/' := fun hc => hn.no_slash (hc ▸ List.mem_cons_self)
      simp [isAbsolute, hc]

theorem isAbsolute_append {p : Text} (hp : p ≠ []) (q : Text) :
    isAbsolute (p ++ q) = isAbsolute p := by
  obtain ⟨c, r, rfl⟩ := List.exists_cons_of_ne_nil hp
  rfl

/-- The file name of a path is a name. -/
theorem isName_of_fileName? {p n : Text} (h : fileName? p = some n) : IsName n := by
  rw [fileName?] at h
  split at h
  · next m hlast =>
    obtain rfl := Option.some.inj h
    have hmem : Component.name m ∈ components p := List.mem_of_getLast? hlast
    rw [components] at hmem
    have hseg : Component.name m ∈ (segments p).filterMap component? := by
      rcases List.mem_append.1 hmem with hm | hm
      · split at hm
        · exact absurd hm (by simp)
        · exact absurd hm (by simp)
        · exact absurd hm List.not_mem_nil
      · exact hm
    obtain ⟨s, hs, hcomp⟩ := List.mem_filterMap.1 hseg
    have hsm : s = m := by
      rw [component?] at hcomp
      split at hcomp
      · exact absurd hcomp (by simp)
      · split at hcomp
        · exact absurd hcomp (by simp)
        · exact Component.name.inj (Option.some.inj hcomp)
    rw [hsm] at hs hcomp
    exact ⟨no_slash_of_mem_segments hs, hcomp⟩
  · exact absurd h (by simp)

end Path

namespace Tree
variable {t t' : Tree} {place place' : Place} {segment : Text}

/-- From a directory a step depends on its place and on nothing else. -/
theorem enter_directory (h : IsDirectory (t.get? place)) (segment : Text) :
    t.enter place segment = Path.step place segment := by
  obtain ⟨entries, hdir⟩ := h
  rw [enter, hdir]

theorem isDirectory_of_enter (h : t.enter place segment = .ok place') :
    IsDirectory (t.get? place) := by
  rw [enter] at h
  split at h
  · exact absurd h (by simp)
  · exact absurd h (by simp)
  · next entries hdir => exact ⟨entries, hdir⟩

/-- Every directory of a tree is one in another tree too, and the current directory is the same. -/
structure Keeps (t t' : Tree) : Prop where
  current : t'.current = t.current
  directory : ∀ place, IsDirectory (t.get? place) → IsDirectory (t'.get? place)

theorem Keeps.enter (h : Keeps t t') (henter : t.enter place segment = .ok place') :
    t'.enter place segment = .ok place' := by
  have hdir := isDirectory_of_enter henter
  rwa [enter_directory (h.directory _ hdir), ← enter_directory hdir]

theorem Keeps.foldlM (h : Keeps t t') {segments : List Text}
    (hfold : segments.foldlM t.enter place = .ok place') :
    segments.foldlM t'.enter place = .ok place' := by
  induction segments generalizing place with
  | nil => exact hfold
  | cons segment rest ih =>
      rw [List.foldlM_cons] at hfold ⊢
      obtain ⟨next, hfirst, hrest⟩ := bind_eq_ok_iff.1 hfold
      rw [h.enter hfirst]
      exact ih hrest

/-- A path leads to the same place in every tree that has the directories on its way. -/
theorem Keeps.follow (h : Keeps t t') {path : Text} (hfollow : t.follow path = .ok place) :
    t'.follow path = .ok place := by
  rw [Tree.follow] at hfollow ⊢
  rw [h.current]
  exact h.foldlM hfollow

/-- An empty segment leads nowhere, so it can be left out in front of another one. -/
theorem enter_empty (place : Place) (segment : Text) :
    (t.enter place [] >>= fun next => t.enter next segment) = t.enter place segment := by
  cases hitem : t.get? place with
  | none => simp [enter, hitem, bind, Except.bind]
  | some item =>
      cases item with
      | file content => simp [enter, hitem, bind, Except.bind]
      | directory entries =>
          have hstay : t.enter place [] = .ok place := enter_directory ⟨entries, hitem⟩ []
          rw [hstay]
          rfl

/-- The path of a name within a directory leads to the name in that directory. -/
theorem follow_join {dir n : Text} (hn : Path.IsName n) :
    t.follow (Path.join dir n) = t.follow dir >>= fun place => t.enter place n := by
  have hseg : Path.segments n = [n] := Path.segments_of_no_slash hn.no_slash
  rw [Path.join]
  split
  · next hdir =>
    rw [List.isEmpty_iff.1 hdir, Tree.follow, Tree.follow, hseg, hn.not_isAbsolute]
    simp only [Path.segments, Path.isAbsolute, List.foldlM_cons, List.foldlM_nil, bind_pure]
    exact (enter_empty _ n).symm
  · next hdir =>
    have hne : dir ≠ [] := fun h => hdir (List.isEmpty_iff.2 h)
    split
    · next hlast =>
      -- The slash at the end of the directory's path makes an empty segment that the path of the
      -- name does not have.
      obtain ⟨upper, hupper⟩ := List.getLast?_eq_some_iff.1 hlast
      have hsegs : Path.segments dir = Path.segments upper ++ [[]] := by
        rw [hupper, Path.segments_append]
        rfl
      have hjoin : Path.segments (dir ++ n) = Path.segments upper ++ [n] := by
        rw [hupper, List.append_assoc, List.singleton_append, Path.segments_append, hseg]
      rw [Tree.follow, Tree.follow, Path.isAbsolute_append hne, hsegs, hjoin, List.foldlM_append,
        List.foldlM_append, bind_assoc]
      simp only [List.foldlM_cons, List.foldlM_nil, bind_pure, enter_empty]
    · rw [Tree.follow, Tree.follow, Path.isAbsolute_append hne, Path.segments_append, hseg,
        List.foldlM_append]
      simp only [List.foldlM_cons, List.foldlM_nil, bind_pure]

end Tree
end StyleScope.Files
