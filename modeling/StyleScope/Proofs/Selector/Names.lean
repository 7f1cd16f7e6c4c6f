import StyleScope.Selector.Name

/-! # Where names end

A name is taken off a text as far as it goes. What is taken is a name by itself and what is left
does not carry it on, and any name in front of any such text is taken off it again
(`name?_eq_some_iff`). The names are the texts of one grammar (`NameShape`, `isName_iff_nameShape`).
-/
namespace StyleScope.Selector
open Text

/-- No name goes on at the start of the text. -/
def NameEnds (t : Text) : Prop := nameTail t = ([], t)

/-- The text is a name from its start to its end. -/
def IsName (n : Text) : Prop := name? n = some (n, [])

instance (n : Text) : Decidable (IsName n) := inferInstanceAs (Decidable (_ = _))

theorem nameEnds_nil : NameEnds [] := rfl

theorem nameEnds_cons_iff {c : Char} {r : Text} :
    NameEnds (c :: r) ↔ isNamePart c = false ∧ (c = '\\' → r = []) := by
  unfold NameEnds
  cases r with
  | nil => cases hc : isNamePart c <;> simp [nameTail, hc]
  | cons d r =>
      rw [nameTail]
      by_cases hb : c = '\\'
      · simp [hb]
      · cases hc : isNamePart c <;> simp [hb]

theorem nameEnds_of_sign {c : Char} (h : isNamePart c = false) (hb : c ≠ '\\') (r : Text) :
    NameEnds (c :: r) :=
  nameEnds_cons_iff.2 ⟨h, fun e => absurd e hb⟩

theorem nameTail_append_of_nameEnds {a t : Text} (ha : nameTail a = (a, [])) (ht : NameEnds t) :
    nameTail (a ++ t) = (a, t) := by
  fun_induction nameTail a with
  | case1 => exact ht
  | case2 c hc =>
      cases t with
      | nil => simp [nameTail, hc]
      | cons d r =>
          have hb : c ≠ '\\' := by
            rintro rfl
            exact absurd hc (by decide)
          have htail : nameTail (d :: r) = ([], d :: r) := ht
          simp [nameTail, hb, hc, htail]
  | case3 c hc => simp at ha
  | case4 d r p ih =>
      have hr : nameTail r = (r, []) := by simpa [p, Prod.ext_iff] using ha
      simp [nameTail, ih hr]
  | case5 c d r hb hc p ih =>
      have hr : nameTail (d :: r) = (d :: r, []) := by simpa [p, Prod.ext_iff] using ha
      have htail : nameTail (d :: (r ++ t)) = (d :: r, t) := ih hr
      simp [nameTail, hb, hc, htail]
  | case6 c d r hb hc => simp at ha

theorem nameTail_spec (t : Text) :
    nameTail (nameTail t).1 = ((nameTail t).1, []) ∧ NameEnds (nameTail t).2 := by
  fun_induction nameTail t with
  | case1 => exact ⟨rfl, rfl⟩
  | case2 c hc => exact ⟨by simp [nameTail, hc], rfl⟩
  | case3 c hc => exact ⟨rfl, by simp [NameEnds, nameTail, hc]⟩
  | case4 d r p ih => exact ⟨by simp [nameTail, p, ih.1], ih.2⟩
  | case5 c d r hb hc p ih =>
      refine ⟨?_, ih.2⟩
      cases hp : p.1 with
      | nil => simp [nameTail, hc]
      | cons e a =>
          have htail := ih.1
          rw [show (nameTail (d :: r)).1 = e :: a from hp] at htail
          simp [nameTail, hb, hc, htail]
  | case6 c d r hb hc => exact ⟨rfl, by simp [NameEnds, nameTail, hb, hc]⟩

/-- A character that starts names, or an escape. -/
def IsNameHead (h : Text) : Prop := (∃ c, h = [c] ∧ isNameStart c = true) ∨ ∃ d, h = ['\\', d]

theorem nameHead?_eq_some_iff {s h r : Text} :
    nameHead? s = some (h, r) ↔ s = h ++ r ∧ IsNameHead h := by
  constructor
  · intro hs
    refine ⟨(nameHead?_append hs).1.symm, ?_⟩
    unfold nameHead? at hs
    split at hs
    · exact absurd hs (by simp)
    · next c =>
      split at hs
      · next hc => exact .inl ⟨c, by simp_all⟩
      · exact absurd hs (by simp)
    · next c d r' =>
      split at hs
      · next hb => exact .inr ⟨d, by simp_all⟩
      · split at hs
        · next hc => exact .inl ⟨c, by simp_all⟩
        · exact absurd hs (by simp)
  · rintro ⟨rfl, ⟨c, rfl, hc⟩ | ⟨d, rfl⟩⟩
    · have hb : c ≠ '\\' := by
        rintro rfl
        exact absurd hc (by decide)
      cases r with
      | nil => simp [nameHead?, hc]
      | cons e r => simp [nameHead?, hb, hc]
    · simp [nameHead?]

theorem nameBody?_eq_some_iff {s n t : Text} :
    nameBody? s = some (n, t) ↔
      ∃ h a, IsNameHead h ∧ nameTail a = (a, []) ∧ NameEnds t ∧ n = h ++ a ∧ s = n ++ t := by
  rw [nameBody?, Option.map_eq_some_iff]
  constructor
  · rintro ⟨⟨h, r⟩, hs, e⟩
    obtain ⟨rfl, hh⟩ := nameHead?_eq_some_iff.1 hs
    obtain ⟨rfl, rfl⟩ : h ++ (nameTail r).1 = n ∧ (nameTail r).2 = t := by simpa using e
    obtain ⟨htail, hend⟩ := nameTail_spec r
    exact ⟨h, (nameTail r).1, hh, htail, hend, rfl, by simp⟩
  · rintro ⟨h, a, hh, ha, ht, rfl, rfl⟩
    refine ⟨(h, a ++ t), nameHead?_eq_some_iff.2 ⟨by simp, hh⟩, ?_⟩
    rw [nameTail_append_of_nameEnds ha ht]

/-- What follows a name's hyphen, or the whole of a name without one, cut off a text. -/
theorem nameBody?_append_iff {s b t : Text} :
    nameBody? s = some (b, t) ↔ s = b ++ t ∧ nameBody? b = some (b, []) ∧ NameEnds t := by
  rw [nameBody?_eq_some_iff, nameBody?_eq_some_iff]
  constructor
  · rintro ⟨h, a, hh, ha, ht, hb, hs⟩
    exact ⟨hs, ⟨h, a, hh, ha, nameEnds_nil, hb, by simp⟩, ht⟩
  · rintro ⟨hs, ⟨h, a, hh, ha, -, hb, -⟩, ht⟩
    exact ⟨h, a, hh, ha, ht, hb, hs⟩

theorem name?_of_head_ne {t : Text} (h : t.head? ≠ some '-') : name? t = nameBody? t := by
  unfold name?
  split
  · exact absurd rfl h
  · rfl

theorem name?_hyphen_eq_some_iff {r n t : Text} :
    name? ('-' :: r) = some (n, t) ↔ ∃ b, n = '-' :: b ∧ nameBody? r = some (b, t) := by
  rw [name?, Option.map_eq_some_iff]
  constructor
  · rintro ⟨⟨b, u⟩, hb, e⟩
    obtain ⟨rfl, rfl⟩ : '-' :: b = n ∧ u = t := by simpa using e
    exact ⟨b, rfl, hb⟩
  · rintro ⟨b, rfl, hb⟩
    exact ⟨(b, t), hb, rfl⟩

theorem IsName.ne_nil {n : Text} (h : IsName n) : n ≠ [] := (name?_append h).2

/-- A text starts with a name just when it is that name and something it does not go on in. -/
theorem name?_eq_some_iff {s n t : Text} :
    name? s = some (n, t) ↔ s = n ++ t ∧ IsName n ∧ NameEnds t := by
  constructor
  · intro h
    have happ := (name?_append h).1
    refine ⟨happ.symm, ?_⟩
    by_cases hs : s.head? = some '-'
    · obtain ⟨r, rfl⟩ := List.head?_eq_some_iff.1 hs
      obtain ⟨b, rfl, hb⟩ := name?_hyphen_eq_some_iff.1 h
      obtain ⟨-, hself, ht⟩ := nameBody?_append_iff.1 hb
      exact ⟨name?_hyphen_eq_some_iff.2 ⟨b, rfl, hself⟩, ht⟩
    · rw [name?_of_head_ne hs] at h
      obtain ⟨-, hself, ht⟩ := nameBody?_append_iff.1 h
      have hn : n.head? ≠ some '-' := by
        intro hn
        obtain ⟨b, rfl⟩ := List.head?_eq_some_iff.1 hn
        exact hs (happ ▸ rfl)
      exact ⟨(name?_of_head_ne hn).trans hself, ht⟩
  · rintro ⟨rfl, hn, ht⟩
    by_cases hs : n.head? = some '-'
    · obtain ⟨b, rfl⟩ := List.head?_eq_some_iff.1 hs
      obtain ⟨b', e, hb⟩ := name?_hyphen_eq_some_iff.1 hn
      obtain rfl : b = b' := (List.cons.inj e).2
      exact name?_hyphen_eq_some_iff.2 ⟨b, rfl, nameBody?_append_iff.2 ⟨rfl, hb, ht⟩⟩
    · have hself : nameBody? n = some (n, []) := (name?_of_head_ne hs).symm.trans hn
      have happ : (n ++ t).head? ≠ some '-' := by
        obtain ⟨c, b, rfl⟩ := List.exists_cons_of_ne_nil hn.ne_nil
        exact hs
      rw [name?_of_head_ne happ]
      exact nameBody?_append_iff.2 ⟨rfl, hself, ht⟩

theorem name?_cons_of_sign {c : Char} (hc : isNameStart c = false) (hb : c ≠ '\\') (r : Text) :
    name? (c :: r) = none := by
  have hh : c ≠ '-' := by
    rintro rfl
    exact absurd hc (by decide)
  have hhead : nameHead? (c :: r) = none := by
    cases r with
    | nil => simp [nameHead?, hc]
    | cons d r => simp [nameHead?, hb, hc]
  rw [name?_of_head_ne (by simpa using hh), nameBody?, hhead, Option.map_none]

/-- A name does not start with a sign. -/
theorem IsName.head {c : Char} {r : Text} (h : IsName (c :: r)) :
    isNameStart c = true ∨ c = '\\' := by
  by_cases hc : isNameStart c = true
  · exact .inl hc
  · by_cases hb : c = '\\'
    · exact .inr hb
    · have hnone := name?_cons_of_sign (Bool.eq_false_iff.2 hc) hb r
      exact absurd (hnone.symm.trans h) (by simp)

/-- Characters of names and escapes. -/
inductive NameText : Text → Prop
  | nil : NameText []
  | char {c : Char} {r : Text} : isNamePart c = true → NameText r → NameText (c :: r)
  | escape {r : Text} (d : Char) : NameText r → NameText ('\\' :: d :: r)

theorem nameText_nameTail (t : Text) : NameText (nameTail t).1 := by
  fun_induction nameTail t with
  | case1 => exact .nil
  | case2 c hc => exact .char hc .nil
  | case3 c hc => exact .nil
  | case4 d r p ih => exact .escape d ih
  | case5 c d r hb hc p ih => exact .char hc ih
  | case6 c d r hb hc => exact .nil

theorem NameText.append {a b : Text} (ha : NameText a) (hb : NameText b) : NameText (a ++ b) := by
  induction ha with
  | nil => exact hb
  | char hc _ ih => exact .char hc ih
  | escape d _ ih => exact .escape d ih

theorem nameText_of_all {t : Text} (h : t.all isNamePart = true) : NameText t := by
  induction t with
  | nil => exact .nil
  | cons c r ih =>
      rw [List.all_cons, Bool.and_eq_true] at h
      exact .char h.1 (ih h.2)

theorem NameText.nameTail_eq {t : Text} (h : NameText t) : nameTail t = (t, []) := by
  induction h with
  | nil => rfl
  | @char c r hc _ ih =>
      have hb : c ≠ '\\' := by
        rintro rfl
        exact absurd hc (by decide)
      cases r with
      | nil => simp [nameTail, hc]
      | cons d r => simp [nameTail, hb, hc, ih]
  | escape d _ ih => simp [nameTail, ih]

/-- A hyphen if there is one in front, then a character that starts names or an escape, then
characters that continue names and escapes. -/
inductive NameShape : Text → Prop
  | plain {head tail : Text} : IsNameHead head → head.head? ≠ some '-' → NameText tail →
      NameShape (head ++ tail)
  | hyphened {head tail : Text} : IsNameHead head → NameText tail →
      NameShape ('-' :: (head ++ tail))

theorem nameBody?_eq_self_iff {b : Text} :
    nameBody? b = some (b, []) ↔
      ∃ head tail, IsNameHead head ∧ NameText tail ∧ b = head ++ tail := by
  constructor
  · intro h
    obtain ⟨head, tail, hhead, htail, -, hb, -⟩ := nameBody?_eq_some_iff.1 h
    have htext := nameText_nameTail tail
    rw [htail] at htext
    exact ⟨head, tail, hhead, htext, hb⟩
  · rintro ⟨head, tail, hhead, htail, rfl⟩
    exact nameBody?_eq_some_iff.2
      ⟨head, tail, hhead, htail.nameTail_eq, nameEnds_nil, rfl, by simp⟩

theorem isName_iff_nameShape {n : Text} : IsName n ↔ NameShape n := by
  constructor
  · intro h
    by_cases hn : n.head? = some '-'
    · obtain ⟨r, rfl⟩ := List.head?_eq_some_iff.1 hn
      obtain ⟨b, hb, hbody⟩ := name?_hyphen_eq_some_iff.1 h
      obtain rfl : r = b := (List.cons.inj hb).2
      obtain ⟨head, tail, hhead, htail, rfl⟩ := nameBody?_eq_self_iff.1 hbody
      exact .hyphened hhead htail
    · have hbody : nameBody? n = some (n, []) := (name?_of_head_ne hn).symm.trans h
      obtain ⟨head, tail, hhead, htail, rfl⟩ := nameBody?_eq_self_iff.1 hbody
      refine .plain hhead (fun hminus => hn ?_) htail
      rw [List.head?_append, hminus]
      rfl
  · intro h
    cases h with
    | @plain head tail hhead hne htail =>
        have hstart : (head ++ tail).head? ≠ some '-' := by
          obtain ⟨c, rfl, -⟩ | ⟨d, rfl⟩ := hhead
          · exact hne
          · exact hne
        have hbody := nameBody?_eq_self_iff.2 ⟨head, tail, hhead, htail, rfl⟩
        exact (name?_of_head_ne hstart).trans hbody
    | @hyphened head tail hhead htail =>
        have hbody := nameBody?_eq_self_iff.2 ⟨head, tail, hhead, htail, rfl⟩
        exact name?_hyphen_eq_some_iff.2 ⟨head ++ tail, rfl, hbody⟩

theorem IsNameHead.nameText {head tail : Text} (hhead : IsNameHead head) (htail : NameText tail) :
    NameText (head ++ tail) := by
  obtain ⟨c, rfl, hc⟩ | ⟨d, rfl⟩ := hhead
  · exact .char (by simp [isNamePart, hc]) htail
  · exact .escape d htail

theorem IsName.nameText {n : Text} (h : IsName n) : NameText n := by
  cases isName_iff_nameShape.1 h with
  | plain hhead _ htail => exact hhead.nameText htail
  | hyphened hhead htail => exact .char rfl (hhead.nameText htail)

/-- A name goes on in any name characters and escapes written behind it. -/
theorem IsName.append {n m : Text} (hn : IsName n) (hm : NameText m) : IsName (n ++ m) := by
  rw [isName_iff_nameShape] at hn ⊢
  cases hn with
  | plain hhead hne htail =>
      rw [List.append_assoc]
      exact .plain hhead hne (htail.append hm)
  | hyphened hhead htail =>
      rw [List.cons_append, List.append_assoc]
      exact .hyphened hhead (htail.append hm)

theorem IsName.not_nameEnds {n : Text} (h : IsName n) (t : Text) : ¬NameEnds (n ++ t) := by
  intro hend
  obtain ⟨c, r, rfl⟩ := List.exists_cons_of_ne_nil h.ne_nil
  obtain ⟨hpart, hescape⟩ := nameEnds_cons_iff.1 hend
  obtain hc | rfl := h.head
  · simp [isNamePart, hc] at hpart
  · obtain ⟨rfl, -⟩ := List.append_eq_nil_iff.1 (hescape rfl)
    exact absurd h (by decide)

end StyleScope.Selector
