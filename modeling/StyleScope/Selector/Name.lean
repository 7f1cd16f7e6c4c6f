import StyleScope.Basic

/-! # Names in selectors

A name is an optional hyphen, a character that can start a name, and any number of characters
that can continue one. In both places a backslash stands together with the character after it; a
backslash that ends the text belongs to no name.
-/
namespace StyleScope.Selector
open Text

/-- The longest run of name characters and escapes, and what follows it. -/
def nameTail : Text → Text × Text
  | [] => ([], [])
  | [c] => if isNamePart c then ([c], []) else ([], [c])
  | c :: d :: r =>
    if c = '\\' then
      let p := nameTail r
      (c :: d :: p.1, p.2)
    else if isNamePart c then
      let p := nameTail (d :: r)
      (c :: p.1, p.2)
    else ([], c :: d :: r)

/-- The character or escape a name starts with, and what follows it. -/
def nameHead? : Text → Option (Text × Text)
  | [] => none
  | [c] => if isNameStart c then some ([c], []) else none
  | c :: d :: r =>
    if c = '\\' then some ([c, d], r)
    else if isNameStart c then some ([c], d :: r)
    else none

/-- A name after its optional hyphen, and what follows it. -/
def nameBody? (t : Text) : Option (Text × Text) :=
  (nameHead? t).map fun h =>
    let p := nameTail h.2
    (h.1 ++ p.1, p.2)

/-- The name a text starts with and what follows it. -/
def name? (t : Text) : Option (Text × Text) :=
  match t with
  | '-' :: r => (nameBody? r).map fun p => ('-' :: p.1, p.2)
  | _ => nameBody? t

@[simp] theorem nameTail_append (t : Text) : (nameTail t).1 ++ (nameTail t).2 = t := by
  fun_induction nameTail t with
  | case1 => rfl
  | case2 c h => rfl
  | case3 c h => rfl
  | case4 d r p ih => simp [p, ih]
  | case5 c d r h h' p ih => simp [p, ih]
  | case6 c d r h h' => rfl

theorem nameHead?_append {t name rest : Text} (h : nameHead? t = some (name, rest)) :
    name ++ rest = t ∧ name ≠ [] := by
  unfold nameHead? at h
  split at h
  · exact absurd h (by simp)
  · split at h
    · obtain ⟨rfl, rfl⟩ : _ ∧ _ := by simpa using h
      simp
    · exact absurd h (by simp)
  · split at h
    · obtain ⟨rfl, rfl⟩ : _ ∧ _ := by simpa using h
      simp
    · split at h
      · obtain ⟨rfl, rfl⟩ : _ ∧ _ := by simpa using h
        simp
      · exact absurd h (by simp)

theorem nameBody?_append {t name rest : Text} (h : nameBody? t = some (name, rest)) :
    name ++ rest = t ∧ name ≠ [] := by
  obtain ⟨⟨a, b⟩, hab, e⟩ := Option.map_eq_some_iff.1 h
  obtain ⟨rfl, ha⟩ := nameHead?_append hab
  simp only [Prod.mk.injEq] at e
  obtain ⟨rfl, rfl⟩ := e
  simp [ha]

/-- A name and what follows it make up the text, and the name is not empty. -/
theorem name?_append {t name rest : Text} (h : name? t = some (name, rest)) :
    name ++ rest = t ∧ name ≠ [] := by
  unfold name? at h
  split at h
  · obtain ⟨⟨a, b⟩, hab, e⟩ := Option.map_eq_some_iff.1 h
    obtain ⟨rfl, _⟩ := nameBody?_append hab
    simp only [Prod.mk.injEq] at e
    obtain ⟨rfl, rfl⟩ := e
    simp
  · exact nameBody?_append h

end StyleScope.Selector
