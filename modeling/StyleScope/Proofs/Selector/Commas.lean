import StyleScope.Proofs.Selector.Simple
import StyleScope.Selector.Segment

/-! # Commas at the top

A text is *sealed* when no comma in it is at the top and the scan for commas leaves it as it entered
it. `Cuts n t` says that `t` is made up of sealed texts with `n` commas between them, so that it has
`n + 1` members whatever list it is put into (`Cuts.length_members`, `Cuts.endsMember`).

Names, combinators and whitespace are sealed wherever they were read (`holdsSimply_sealed`). Of
other fragments this is not known: their end was found by a scan that knows no comments, counts
brackets of one kind only, and ends a string with its line.
-/
namespace StyleScope.Selector
open Text

def commaScan : Scan Nesting := topScan listDialect ','

theorem members_eq_cut (t : Text) :
    members t =
      match commaScan.cut {} t with
      | (m, []) => [m]
      | (m, _ :: r) => m :: members r := by
  rw [members]
  change _ = match cutAtTop listDialect ',' t with
    | (m, []) => [m]
    | (m, _ :: r) => m :: members r
  split
  · next m h => rw [h]
  · next m c r h => rw [h]

theorem members_of_passes {m : Text} (h : commaScan.Passes {} m) : members m = [m] := by
  rw [members_eq_cut, h]

theorem members_of_isTop {m : Text} (h : commaScan.Passes {} m)
    (htop : (commaScan.after {} m).isTop = true) (r : Text) :
    members (m ++ ',' :: r) = m :: members r := by
  have hstop : commaScan.stops (commaScan.after {} m) ',' = true := by
    simp [commaScan, topScan, ← htop]
  rw [members_eq_cut, Scan.cut_eq_cons_iff.2 ⟨rfl, h, hstop⟩]

/-- The scan passes over each text, and is at the top behind each but the last. -/
def Listed : List Text → Prop
  | [] => False
  | [m] => commaScan.Passes {} m
  | m :: ms => commaScan.Passes {} m ∧ (commaScan.after {} m).isTop = true ∧ Listed ms

theorem Listed.ne_nil {ms : List Text} (h : Listed ms) : ms ≠ [] := by
  rintro rfl
  exact h

theorem Listed.passes {ms : List Text} (h : Listed ms) : ∀ m ∈ ms, commaScan.Passes {} m := by
  induction ms with
  | nil => exact absurd h id
  | cons m ms ih =>
      cases ms with
      | nil => exact List.forall_mem_singleton.2 h
      | cons d ds => exact List.forall_mem_cons.2 ⟨h.1, ih h.2.2⟩

theorem listed_members (t : Text) : Listed (members t) := by
  induction ht : t.length using Nat.strongRecOn generalizing t with
  | ind n ih =>
      rw [members_eq_cut]
      rcases h : commaScan.cut {} t with ⟨m, _ | ⟨c, r⟩⟩
      · exact (Scan.cut_eq_nil_iff.1 h).2
      · obtain ⟨rfl, hm, hstop⟩ := Scan.cut_eq_cons_iff.1 h
        have hr : Listed (members r) := by
          refine ih r.length ?_ r rfl
          rw [← ht, List.length_append, List.length_cons]
          omega
        have htop : (commaScan.after {} m).isTop = true := (Bool.and_eq_true_iff.1 hstop).1
        obtain ⟨d, ds, hd⟩ := List.exists_cons_of_ne_nil hr.ne_nil
        change Listed (m :: members r)
        rw [hd] at hr ⊢
        exact ⟨hm, htop, hr⟩

theorem joinMembers_cons {m : Text} {ms : List Text} (h : ms ≠ []) :
    joinMembers (m :: ms) = m ++ ',' :: joinMembers ms := by
  obtain ⟨d, ds, rfl⟩ := List.exists_cons_of_ne_nil h
  rw [joinMembers, List.intercalate_cons_cons, List.append_assoc]
  rfl

theorem joinMembers_members (t : Text) : joinMembers (members t) = t := by
  induction ht : t.length using Nat.strongRecOn generalizing t with
  | ind n ih =>
      have happ := commaScan.cut_append {} t
      rw [members_eq_cut]
      rcases h : commaScan.cut {} t with ⟨m, _ | ⟨c, r⟩⟩
      · rw [h, List.append_nil] at happ
        exact List.intercalate_singleton.trans happ
      · obtain ⟨rfl, -, hstop⟩ := Scan.cut_eq_cons_iff.1 h
        have hc : c = ',' := by simpa using (Bool.and_eq_true_iff.1 hstop).2
        have hr : joinMembers (members r) = r := by
          refine ih r.length ?_ r rfl
          rw [← ht, List.length_append, List.length_cons]
          omega
        rw [joinMembers_cons (listed_members r).ne_nil, hr, hc]

theorem members_eq_singleton {t : Text} (h : (members t).length = 1) : members t = [t] := by
  rw [members_eq_cut] at h ⊢
  rcases hcut : commaScan.cut {} t with ⟨m, _ | ⟨c, r⟩⟩
  · obtain ⟨rfl, -⟩ := Scan.cut_eq_nil_iff.1 hcut
    rfl
  · rw [hcut] at h
    exact absurd (List.length_eq_zero_iff.1 (Nat.succ.inj h)) (listed_members r).ne_nil

/-- The members of a text come first among those of a list that starts with it. -/
def EndsMember (t : Text) : Prop := ∀ r, members (t ++ ',' :: r) = members t ++ members r

/-- A list whose members are changed has the members of each changed one, if the change keeps the
end of a member where it was. -/
theorem members_joinMembers_map {f : Text → Text} {ms : List Text} (h : Listed ms)
    (hf : ∀ m ∈ ms, commaScan.Passes {} m → (commaScan.after {} m).isTop = true →
      EndsMember (f m)) :
    members (joinMembers (ms.map f)) = ms.flatMap fun m => members (f m) := by
  induction ms with
  | nil => exact absurd h id
  | cons m ms ih =>
      cases ms with
      | nil =>
          rw [List.map_singleton, joinMembers, List.intercalate_singleton, List.flatMap_singleton]
      | cons d ds =>
          obtain ⟨hm, htop, hds⟩ := h
          have htail := ih hds fun x hx => hf x (List.mem_cons_of_mem m hx)
          rw [List.map_cons, joinMembers_cons (by simp), hf m (by simp) hm htop, htail]
          rfl

/-- No comma is at the top, and the scan for commas is back where it started. -/
def Sealed (t : Text) : Prop := commaScan.Passes {} t ∧ commaScan.after {} t = {}

instance (t : Text) : Decidable (Sealed t) := inferInstanceAs (Decidable (_ ∧ _))

theorem sealed_nil : Sealed [] := Scan.rests_nil

theorem Sealed.append {u v : Text} (hu : Sealed u) (hv : Sealed v) : Sealed (u ++ v) :=
  Scan.Rests.append hu hv

theorem Sealed.isTop {t : Text} (h : Sealed t) : (commaScan.after {} t).isTop = true := by
  rw [h.2]
  rfl

/-- The characters that mean something to the scan for commas, outside strings and comments. -/
def signs : List Char := [',', '\\', '\'', '"', '/', '(', ')', '[', ']']

theorem sealed_of_forall_not_mem {t : Text} (h : ∀ c ∈ t, c ∉ signs) : Sealed t := by
  refine Scan.rests_of_forall (k := listDialect) rfl fun c hc => ?_
  have hsigns := h c hc
  simp only [signs, List.mem_cons, List.not_mem_nil, or_false, not_or] at hsigns
  simp [nestingSigns, commaScan, topScan, hsigns]

theorem sealed_of_all {p : Char → Bool} {t : Text} (hp : signs.any p = false)
    (h : t.all p = true) : Sealed t := by
  refine sealed_of_forall_not_mem fun c hc hsign => ?_
  exact List.any_eq_false.1 hp c hsign (List.all_eq_true.1 h c hc)

theorem holdsSimply_sealed : HoldsSimply Sealed where
  nil := sealed_nil
  append := Sealed.append
  char hc := sealed_of_all (p := isSimpleChar) rfl (by simp [hc])
  escape _ := ⟨rfl, rfl⟩

/-- Sealed texts with `n` commas between them. -/
inductive Cuts : Nat → Text → Prop
  | none {t : Text} : Sealed t → Cuts 0 t
  | comma {n : Nat} {u v : Text} : Sealed u → Cuts n v → Cuts (n + 1) (u ++ ',' :: v)

theorem Sealed.cuts_append {n : Nat} {u v : Text} (hu : Sealed u) (hv : Cuts n v) :
    Cuts n (u ++ v) := by
  cases hv with
  | none hv => exact .none (hu.append hv)
  | comma hw hv =>
      rw [← List.append_assoc]
      exact .comma (hu.append hw) hv

theorem Cuts.append {a b : Nat} {u v : Text} (hu : Cuts a u) (hv : Cuts b v) :
    Cuts (a + b) (u ++ v) := by
  induction hu with
  | none hu =>
      rw [Nat.zero_add]
      exact hu.cuts_append hv
  | comma hu _ ih =>
      rw [List.append_assoc, List.cons_append, Nat.add_right_comm]
      exact .comma hu ih

theorem Cuts.length_members {n : Nat} {t : Text} (h : Cuts n t) :
    (members t).length = n + 1 := by
  induction h with
  | none ht => rw [members_of_passes ht.1, List.length_singleton]
  | comma hu _ ih =>
      rw [members_of_isTop hu.1 hu.isTop, List.length_cons, ih]

theorem Cuts.endsMember {n : Nat} {t : Text} (h : Cuts n t) : EndsMember t := by
  intro r
  induction h with
  | none ht =>
      rw [members_of_isTop ht.1 ht.isTop, members_of_passes ht.1]
      rfl
  | comma hu _ ih =>
      rw [List.append_assoc, List.cons_append, members_of_isTop hu.1 hu.isTop, ih,
        members_of_isTop hu.1 hu.isTop]
      rfl

/-- A comma that was read as a fragment of its own. -/
def Fragment.isComma : Fragment → Bool
  | .raw [','] => true
  | _ => false

theorem Fragment.text_of_isComma {f : Fragment} (h : f.isComma = true) : f.text = [','] := by
  unfold Fragment.isComma at h
  split at h
  · rfl
  · exact absurd h (by simp)

theorem cuts_text {f : Fragment} (h : f.isComma = false → Sealed f.text) :
    Cuts ([f].countP Fragment.isComma) f.text := by
  cases hf : f.isComma with
  | true =>
      rw [f.text_of_isComma hf, List.countP_singleton, if_pos hf]
      exact .comma sealed_nil (.none sealed_nil)
  | false =>
      rw [List.countP_singleton, if_neg (by simp [hf])]
      exact .none (h hf)

theorem cuts_render {fs : List Fragment} (h : ∀ f ∈ fs, f.isComma = false → Sealed f.text) :
    Cuts (fs.countP Fragment.isComma) (render fs) := by
  induction fs with
  | nil => exact .none sealed_nil
  | cons f fs ih =>
      rw [render_cons, ← List.singleton_append, List.countP_append]
      exact (cuts_text (h f (by simp))).append (ih fun g hg => h g (by simp [hg]))

end StyleScope.Selector
