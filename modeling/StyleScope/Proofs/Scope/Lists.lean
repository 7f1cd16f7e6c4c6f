import StyleScope.Proofs.Selector.Commas
import StyleScope.Scope.Selector

/-! # Lists scoped member by member

The members of a list are found by a scan that starts anew behind each comma. A scan that goes on
over the whole list finds the same ones: it splits at a comma only at the top, and behind such a
comma it is as it was at the start (`members_eq_splitFrom`).

So a member is seen alike by itself and within any list, and a list that ends at the top can be
split off in front of a comma (`endsMember_iff`). Each member is scoped by itself, and so are the
two lists on either side of the comma.
-/
namespace StyleScope.Selector
open Text

/-- The texts between the commas at the top, found by one scan over the whole text. -/
def splitFrom (n : Nesting) : Text → List Text
  | [] => [[]]
  | c :: r =>
    if commaScan.stops n c then [] :: splitFrom (commaScan.next n c) r
    else (splitFrom (commaScan.next n c) r).modifyHead (c :: ·)

/-- Behind a comma at the top the scan is as it was at the start. -/
theorem next_of_stops {n : Nesting} {c : Char} (h : commaScan.stops n c = true) :
    commaScan.next n c = {} := by
  obtain ⟨cover, depth⟩ := n
  obtain ⟨htop, hcomma⟩ := Bool.and_eq_true_iff.1 h
  obtain ⟨hexposed, hdepth⟩ := Bool.and_eq_true_iff.1 htop
  obtain rfl : c = ',' := by simpa using hcomma
  obtain rfl : depth = 0 := by simpa using hdepth
  cases cover with
  | plain => rfl
  | slash => rfl
  | _ => exact absurd hexposed (by decide)

theorem splitFrom_eq_cut (n : Nesting) (t : Text) :
    splitFrom n t =
      match commaScan.cut n t with
      | (m, []) => [m]
      | (m, _ :: r) => m :: splitFrom {} r := by
  induction t generalizing n with
  | nil => rfl
  | cons c t ih =>
      rw [splitFrom, Scan.cut]
      cases hc : commaScan.stops n c with
      | true => simp [next_of_stops hc]
      | false =>
          rw [ih]
          rcases commaScan.cut (commaScan.next n c) t with ⟨m, _ | ⟨d, r⟩⟩
          · rfl
          · rfl

/-- Starting anew behind each comma makes no difference. -/
theorem members_eq_splitFrom (t : Text) : members t = splitFrom {} t := by
  induction ht : t.length using Nat.strongRecOn generalizing t with
  | ind n ih =>
      have hlength := commaScan.length_cut_snd_le {} t
      rw [members_eq_cut, splitFrom_eq_cut]
      rcases hcut : commaScan.cut {} t with ⟨m, _ | ⟨c, r⟩⟩
      · rfl
      · rw [hcut, List.length_cons] at hlength
        exact congrArg (m :: ·) (ih r.length (by omega) r rfl)

/-- The scan is at the top behind each member but the last. -/
theorem Listed.isTop {ms ns : List Text} (h : Listed (ms ++ ns)) (hns : ns ≠ []) :
    ∀ m ∈ ms, commaScan.Passes {} m ∧ (commaScan.after {} m).isTop = true := by
  induction ms with
  | nil => simp
  | cons m ms ih =>
      obtain ⟨d, ds, hd⟩ := List.exists_cons_of_ne_nil (List.append_ne_nil_of_right_ne_nil ms hns)
      rw [List.cons_append, hd] at h
      obtain ⟨hpass, htop, hrest⟩ := h
      rw [← hd] at hrest
      exact List.forall_mem_cons.2 ⟨⟨hpass, htop⟩, ih hrest⟩

theorem members_joinMembers_append {ms : List Text} (hne : ms ≠ [])
    (h : ∀ m ∈ ms, commaScan.Passes {} m ∧ (commaScan.after {} m).isTop = true) (r : Text) :
    members (joinMembers ms ++ ',' :: r) = ms ++ members r := by
  induction ms with
  | nil => exact absurd rfl hne
  | cons m ms ih =>
      obtain ⟨⟨hpass, htop⟩, hms⟩ := List.forall_mem_cons.1 h
      cases ms with
      | nil =>
          rw [joinMembers, List.intercalate_singleton]
          exact members_of_isTop hpass htop r
      | cons d ds =>
          have hsome : d :: ds ≠ [] := List.cons_ne_nil d ds
          rw [joinMembers_cons hsome, List.append_assoc, List.cons_append,
            members_of_isTop hpass htop, ih hsome hms]
          rfl

/-- A text ends a member if it does so in front of one comma. -/
theorem endsMember_iff {t : Text} : EndsMember t ↔ members (t ++ [',']) = members t ++ [[]] := by
  have hnil : members [] = [[]] := members_of_passes Scan.passes_nil
  constructor
  · intro h
    rw [h [], hnil]
  · intro h r
    have hlisted : Listed (members t ++ [[]]) := h ▸ listed_members (t ++ [','])
    have hall := hlisted.isTop (List.cons_ne_nil _ _)
    have hsplit := members_joinMembers_append (listed_members t).ne_nil hall r
    rwa [joinMembers_members] at hsplit

theorem joinMembers_append {ms ns : List Text} (hms : ms ≠ []) (hns : ns ≠ []) :
    joinMembers (ms ++ ns) = joinMembers ms ++ ',' :: joinMembers ns := by
  induction ms with
  | nil => exact absurd rfl hms
  | cons m ms ih =>
      cases ms with
      | nil =>
          have hone : joinMembers [m] = m := List.intercalate_singleton
          rw [List.singleton_append, joinMembers_cons hns, hone]
      | cons d ds =>
          have hsome : d :: ds ≠ [] := List.cons_ne_nil d ds
          have hlonger : d :: ds ++ ns ≠ [] := by simp
          rw [List.cons_append, joinMembers_cons hlonger, ih hsome, joinMembers_cons hsome,
            List.append_assoc, List.cons_append]

end StyleScope.Selector

namespace StyleScope.Scope
open Text Selector

/-- Lists on either side of a comma are scoped by themselves. -/
theorem scopeList_append (ctx : Context) {a : Text} (h : EndsMember a) (b : Text) :
    scopeList ctx (a ++ ',' :: b) = scopeList ctx a ++ ',' :: scopeList ctx b := by
  have ha : (members a).map (scopeMember ctx) ≠ [] := by simpa using (listed_members a).ne_nil
  have hb : (members b).map (scopeMember ctx) ≠ [] := by simpa using (listed_members b).ne_nil
  rw [scopeList, h b, List.map_append, joinMembers_append ha hb]
  rfl

/-- A list is made up of its members, which one scan over the whole list finds as well, and no
member can be split any further. Behind a text that ends at the top a comma separates what is
scoped. -/
theorem scopeList_memberwise (ctx : Context) :
    (∀ t, joinMembers (members t) = t ∧ members t = splitFrom {} t ∧
        ∀ m ∈ members t, members m = [m]) ∧
      ∀ a b, members (a ++ [',']) = members a ++ [[]] →
        scopeList ctx (a ++ ',' :: b) = scopeList ctx a ++ ',' :: scopeList ctx b := by
  constructor
  · intro t
    refine ⟨joinMembers_members t, members_eq_splitFrom t, fun m hm => ?_⟩
    exact members_of_passes ((listed_members t).passes m hm)
  · intro a b h
    exact scopeList_append ctx (endsMember_iff.2 h) b

/-- The first text ends behind a comment, an escape and a bracket in excess, the second never closes
what it opens. -/
theorem scopeList_memberwise_open :
    let ctx : Context := ⟨"s".toList, "[s]".toList, "[s-host]".toList, {}⟩
    let a : Text := ".a /* , */, b\\,) ".toList
    let b : Text := " i,:is(p, ".toList
    members (a ++ [',']) = members a ++ [[]] ∧
      scopeList ctx a = ".a[s] /* , */, b\\,) ".toList ∧
      scopeList ctx b = " i[s],:is(p, ".toList ∧
      scopeList ctx (a ++ ',' :: b) = ".a[s] /* , */, b\\,) , i[s],:is(p, ".toList := by
  intro ctx a b
  have hend : members (a ++ [',']) = members a ++ [[]] := by decide +kernel
  have ha : scopeList ctx a = ".a[s] /* , */, b\\,) ".toList := by decide +kernel
  have hb : scopeList ctx b = " i[s],:is(p, ".toList := by decide +kernel
  have hlist := (scopeList_memberwise ctx).2 a b hend
  rw [ha, hb] at hlist
  exact ⟨hend, ha, hb, hlist⟩

end StyleScope.Scope
