import StyleScope.Proofs.Files.Following

/-! # Reading what was written

Writing a file in a directory is seen when that file is read again, and in no other file of the
directory (`Tree.read_of_write`). Which file of the directory it is depends on its name only: paths
with one name are one file.
-/
namespace StyleScope.Files.Tree
open Failing
variable {t t' : Tree} {dir n n' content : Text} {place : Place}

/-- A path leads to a directory at the given place. -/
structure LeadsTo (t : Tree) (path : Text) (place : Place) : Prop where
  follow : t.follow path = .ok place
  isDirectory : IsDirectory (t.get? place)

theorem LeadsTo.keeps (h : t.LeadsTo dir place) (hkeeps : Keeps t t') : t'.LeadsTo dir place :=
  ⟨hkeeps.follow h.follow, hkeeps.directory _ h.isDirectory⟩

def readItem : Option Item → Except FileError Text
  | none => .error .notFound
  | some (.directory _) => .error .isDirectory
  | some (.file content) => content.read

theorem read_eq (t : Tree) (path : Text) :
    t.read path = t.locate path >>= fun place => readItem (t.get? place) := by
  rw [read, find]
  cases t.locate path with
  | error e => rfl
  | ok place =>
      cases hitem : t.get? place with
      | none => simp [hitem, bind, Except.bind, readItem]
      | some item => cases item <;> simp [hitem, bind, Except.bind, readItem]

theorem locate_join (h : t.LeadsTo dir place) (hn : Path.IsName n) :
    t.locate (Path.join dir n) =
      Path.check (Path.join dir n) >>= fun _ => Path.step place n := by
  rw [locate, follow_join hn, h.follow]
  simp only [bind, Except.bind, enter_directory h.isDirectory]

theorem step_name (hn : Path.IsName n) (place : Place) :
    Path.step place n =
      if Path.nameLimit < Text.byteLength n then .error .nameTooLong
      else .ok (place ++ [n]) := by
  rw [Path.step.eq_def, hn.component]

theorem eq_snoc_of_step {place' : Place} (hn : Path.IsName n)
    (h : Path.step place n = .ok place') : place' = place ++ [n] := by
  rw [step_name hn] at h
  split at h
  · exact absurd h (by simp)
  · exact (Except.ok.inj h).symm

/-- What it takes to write a file in a directory, and what it makes of the tree. -/
structure Written (t t' : Tree) (dir n content : Text) (place : Place) : Prop where
  leadsTo : t.LeadsTo dir place
  check : Path.check (Path.join dir n) = .ok ()
  step : Path.step place n = .ok (place ++ [n])
  free : ¬IsDirectory (t.get? (place ++ [n]))
  put : t.put (place ++ [n]) (.file (.text content)) = t'

theorem exists_written (hn : Path.IsName n) (h : t.write (Path.join dir n) content = .ok t') :
    ∃ place, Written t t' dir n content place := by
  obtain ⟨found, hlocate, hput⟩ := bind_eq_ok_iff.1 h
  obtain ⟨_, hcheck, hfollow⟩ := bind_eq_ok_iff.1 hlocate
  rw [follow_join hn] at hfollow
  obtain ⟨place, hdir, henter⟩ := bind_eq_ok_iff.1 hfollow
  have hleads : t.LeadsTo dir place := ⟨hdir, isDirectory_of_enter henter⟩
  rw [enter_directory hleads.isDirectory] at henter
  obtain rfl := eq_snoc_of_step hn henter
  refine ⟨place, hleads, hcheck, henter, ?_, ?_⟩
  · rintro ⟨inner, hinner⟩
    rw [hinner] at hput
    exact absurd hput (by simp)
  · split at hput
    · exact absurd hput (by simp)
    · exact Except.ok.inj hput

namespace Written

theorem keeps (h : Written t t' dir n content place) : Keeps t t' := by
  rw [← h.put]
  exact ⟨rfl, fun _ => isDirectory_put h.free⟩

theorem get? (h : Written t t' dir n content place) (n' : Text) :
    t'.get? (place ++ [n']) =
      if n' = n then some (.file (.text content)) else t.get? (place ++ [n']) := by
  rw [← h.put]
  split
  · next hsame =>
    rw [hsame]
    exact get?_put (by simp)
  · next hother => exact get?_put_sibling hother

end Written

theorem read_join (h : t.LeadsTo dir place) (hn : Path.IsName n) :
    t.read (Path.join dir n) =
      Path.check (Path.join dir n) >>= fun _ => Path.step place n >>= fun _ =>
        readItem (t.get? (place ++ [n])) := by
  rw [read_eq, locate_join h hn, bind_assoc]
  cases Path.check (Path.join dir n) with
  | error e => rfl
  | ok _ =>
      cases hstep : Path.step place n with
      | error e => rfl
      | ok place' =>
          rw [eq_snoc_of_step hn hstep]
          rfl

/-- In a directory a file is written under its name, and no other file changes. -/
theorem read_of_write (hn : Path.IsName n) (hn' : Path.IsName n')
    (h : t.write (Path.join dir n) content = .ok t') :
    t'.read (Path.join dir n') = if n' = n then .ok content else t.read (Path.join dir n') := by
  obtain ⟨place, hw⟩ := exists_written hn h
  rw [read_join (hw.leadsTo.keeps hw.keeps) hn', read_join hw.leadsTo hn', hw.get?]
  split
  · next hsame =>
    rw [hsame, hw.check, hw.step]
    rfl
  · rfl

end StyleScope.Files.Tree
