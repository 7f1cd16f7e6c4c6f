import StyleScope.Files.Tree

/-! # What stands where

A tree is known by what stands at its places. Putting a file or directory at a place changes what
stands there (`Tree.get?_put`) but not what stands beside it (`Tree.get?_put_sibling`). Unless a
directory is replaced, every directory remains one (`Tree.isDirectory_put`).
-/
namespace StyleScope.Entries
variable {κ α : Type} [DecidableEq κ] [BEq κ] [LawfulBEq κ]

theorem lookup_insert (key other : κ) (value : α) (entries : List (κ × α)) :
    (insert key value entries).lookup other =
      if other = key then some value else entries.lookup other := by
  induction entries with
  | nil =>
      rw [insert, List.lookup_cons, List.lookup_nil]
      by_cases h : other = key
      · simp [h]
      · simp [h, beq_eq_false_iff_ne.2 h]
  | cons entry rest ih =>
      obtain ⟨k, v⟩ := entry
      rw [insert]
      by_cases hk : k = key
      · subst hk
        rw [if_pos rfl, List.lookup_cons, List.lookup_cons]
        by_cases h : other = k
        · simp [h]
        · simp [h, beq_eq_false_iff_ne.2 h]
      · rw [if_neg hk, List.lookup_cons, List.lookup_cons, ih]
        by_cases h : other = k
        · subst h
          simp [hk]
        · simp [beq_eq_false_iff_ne.2 h]

end StyleScope.Entries

namespace StyleScope.Files

/-- The entries of what stands in a directory, if it is a directory itself. -/
def innerEntries (found : Option Item) : List (Text × Item) := (found.map Item.entries).getD []

theorem putAt_cons {item : Item} {n : Text} {rest : Place} (h : rest ≠ [])
    (entries : List (Text × Item)) :
    putAt item (n :: rest) entries =
      Entries.insert n (.directory (putAt item rest (innerEntries (entries.lookup n)))) entries := by
  cases rest with
  | nil => exact absurd rfl h
  | cons m rest => rfl

theorem bind_get?_nil (found : Option Item) : found.bind (·.get? []) = found := by
  cases found with
  | none => rfl
  | some item => rfl

/-- A directory holds what its entries hold. -/
theorem Item.get?_cons (entries : List (Text × Item)) (n : Text) (p : Place) :
    (Item.directory entries).get? (n :: p) = (entries.lookup n).bind (·.get? p) := by
  rw [Item.get?]
  cases entries.lookup n with
  | none => rfl
  | some found => rfl

/-- Below a file or below nothing there is nothing, as in a directory without entries. -/
theorem get?_innerEntries (found : Option Item) {p : Place} (hp : p ≠ []) :
    (Item.directory (innerEntries found)).get? p = found.bind (·.get? p) := by
  obtain ⟨n, p, rfl⟩ := List.exists_cons_of_ne_nil hp
  cases found with
  | none => rfl
  | some item =>
      cases item with
      | file content => rfl
      | directory entries => rfl

theorem get?_putAt {item : Item} {place : Place} (h : place ≠ []) (entries : List (Text × Item)) :
    (Item.directory (putAt item place entries)).get? place = some item := by
  induction place generalizing entries with
  | nil => exact absurd rfl h
  | cons n rest ih =>
      by_cases hrest : rest = []
      · subst hrest
        rw [putAt, Item.get?_cons, Entries.lookup_insert, if_pos rfl]
        rfl
      · rw [putAt_cons hrest, Item.get?_cons, Entries.lookup_insert, if_pos rfl]
        exact ih hrest _

theorem get?_putAt_sibling {item : Item} {n n' : Text} (h : n' ≠ n) (place : Place)
    (entries : List (Text × Item)) :
    (Item.directory (putAt item (place ++ [n]) entries)).get? (place ++ [n']) =
      (Item.directory entries).get? (place ++ [n']) := by
  induction place generalizing entries with
  | nil =>
      rw [List.nil_append, List.nil_append, putAt, Item.get?_cons, Item.get?_cons,
        Entries.lookup_insert, if_neg h]
  | cons m place ih =>
      rw [List.cons_append, List.cons_append, putAt_cons (by simp), Item.get?_cons, Item.get?_cons,
        Entries.lookup_insert, if_pos rfl, Option.bind_some, ih,
        get?_innerEntries _ (by simp)]

def IsDirectory (found : Option Item) : Prop := ∃ entries, found = some (.directory entries)

/-- Directories only stand in directories. -/
theorem IsDirectory.of_bind {found : Option Item} {p : Place}
    (h : IsDirectory (found.bind (·.get? p))) : IsDirectory found := by
  obtain ⟨entries, h⟩ := h
  obtain ⟨item, rfl, hitem⟩ := Option.bind_eq_some_iff.1 h
  cases item with
  | directory entries => exact ⟨entries, rfl⟩
  | file content =>
      cases p with
      | nil => exact absurd hitem (by simp [Item.get?])
      | cons n p => exact absurd hitem (by simp [Item.get?])

/-- If no directory is replaced, every directory remains one. -/
theorem isDirectory_putAt {item : Item} {place q : Place} {entries : List (Text × Item)}
    (h : ¬IsDirectory ((Item.directory entries).get? place))
    (hq : IsDirectory ((Item.directory entries).get? q)) :
    IsDirectory ((Item.directory (putAt item place entries)).get? q) := by
  induction place generalizing q entries with
  | nil => exact hq
  | cons n rest ih =>
      cases q with
      | nil => exact ⟨_, rfl⟩
      | cons m q =>
          rw [Item.get?_cons] at h hq ⊢
          by_cases hrest : rest = []
          · subst hrest
            rw [putAt, Entries.lookup_insert]
            split
            · next hm =>
              subst hm
              rw [bind_get?_nil] at h
              exact absurd hq.of_bind h
            · exact hq
          · rw [putAt_cons hrest, Entries.lookup_insert]
            split
            · next hm =>
              subst hm
              rw [Option.bind_some]
              apply ih
              · rwa [get?_innerEntries _ hrest]
              · by_cases hq' : q = []
                · subst hq'
                  exact ⟨_, rfl⟩
                · rwa [get?_innerEntries _ hq']
            · exact hq

namespace Tree
variable {t : Tree} {item : Item} {place q : Place}

/-- What is put at a place stands there. -/
theorem get?_put (h : place ≠ []) : (t.put place item).get? place = some item :=
  get?_putAt h t.entries

/-- Nothing else in the directory of the place changes. -/
theorem get?_put_sibling {n n' : Text} (h : n' ≠ n) :
    (t.put (place ++ [n]) item).get? (place ++ [n']) = t.get? (place ++ [n']) :=
  get?_putAt_sibling h place t.entries

theorem isDirectory_put (h : ¬IsDirectory (t.get? place)) (hq : IsDirectory (t.get? q)) :
    IsDirectory ((t.put place item).get? q) :=
  isDirectory_putAt h hq

end Tree
end StyleScope.Files
