import Mathlib.Algebra.BigOperators.Group.List.Basic
import Mathlib.Algebra.GroupWithZero.Nat
import StyleScope.Proofs.Scope.Placement
import StyleScope.Proofs.Selector.Commas
import StyleScope.Proofs.Text.Trimming

/-! # Members of a scoped list

Most of a scoped member is made up of fragments as they were read and of tokens, and these are
sealed if the scan for commas sees in them what the reader of selectors saw. The arguments of a
boundary or an escape are written out without their parentheses, though. A comma between them was
covered before and is at the top afterwards, and what follows it is a member that nobody has scoped.
So a scoped list has one more member for each of these commas (`members_scopeList`).
-/
namespace StyleScope.Scope
open Text Selector

/-- The arguments of the fragment may be written out without their parentheses. -/
def Unwraps (f : Fragment) : Prop := (boundary? f).isSome ∨ f.escape?.isSome

instance (f : Fragment) : Decidable (Unwraps f) := inferInstanceAs (Decidable (_ ∨ _))

/-- The fragments that are written out in the place of a boundary. -/
def exposedBy (f : Fragment) : List Fragment :=
  if (boundary? f).isSome then f.trimmedArguments else []

/-- The fragments of a segment that are written out without the parentheses around them. -/
def exposedIn : Segment → List Fragment
  | .separator _ => []
  | .part [] => []
  | .part (f :: fs) =>
    if f.escape?.isSome then f.trimmedArguments else (f :: fs).flatMap exposedBy

/-- The number of commas that scoping a selector lays open. -/
def exposedCommas (t : Text) : Nat :=
  let segments := segment (tokenize t)
  if isMalformed segments then 0 else (segments.flatMap exposedIn).countP Fragment.isComma

/-- The scan for commas sees nothing at the top in the fragment and, if its arguments may be written
out, in each of them but the commas. -/
structure SealedInside (f : Fragment) : Prop where
  text : Sealed f.text
  arguments : Unwraps f → ∀ g ∈ f.trimmedArguments, g.isComma = false → Sealed g.text

/-- The fragment is sealed unless that is known of its kind, and so are its arguments but the commas
if they may be written out. -/
def ScansAgree (f : Fragment) : Prop :=
  (f.isSimple = false → Sealed f.text) ∧
    (Unwraps f → ∀ g ∈ f.trimmedArguments, g.isSimple = false → g.isComma = false → Sealed g.text)

instance (f : Fragment) : Decidable (ScansAgree f) := inferInstanceAs (Decidable (_ ∧ _))

theorem mem_of_mem_trimFragments {g : Fragment} {fs : List Fragment} (h : g ∈ trimFragments fs) :
    g ∈ fs := by
  rw [trimFragments, List.mem_reverse] at h
  have hrest := List.mem_reverse.1 ((List.dropWhile_sublist _).subset h)
  exact (List.dropWhile_sublist _).subset hrest

/-- The arguments of a fragment were read like any selector. -/
theorem exists_mem_tokenize_of_mem_trimmedArguments {t : Text} {f g : Fragment}
    (hf : f ∈ tokenize t) (hg : g ∈ f.trimmedArguments) : ∃ u, g ∈ tokenize u := by
  obtain ⟨c, r, rfl⟩ := exists_read_of_mem_tokenize hf
  have hmem := mem_of_mem_trimFragments hg
  cases ha : (Lexeme.read c r).1.fragment.arguments? with
  | none => simp [ha] at hmem
  | some arguments =>
      rw [ha, Option.getD_some, ← Lexeme.argumentsRead_read c r arguments ha] at hmem
      exact ⟨_, hmem⟩

theorem sealedInside_of_mem {t : Text} {f : Fragment} (hf : f ∈ tokenize t) (h : ScansAgree f) :
    SealedInside f where
  text := by
    cases hs : f.isSimple with
    | true => exact holdsSimply_sealed.of_mem_tokenize hf hs
    | false => exact h.1 hs
  arguments hunwraps g hg hcomma := by
    cases hs : g.isSimple with
    | true =>
        obtain ⟨u, hmem⟩ := exists_mem_tokenize_of_mem_trimmedArguments hf hg
        exact holdsSimply_sealed.of_mem_tokenize hmem hs
    | false => exact h.2 hunwraps g hg hs hcomma

section
variable {ctx : Context} (helement : Sealed ctx.elementToken) (hhost : Sealed ctx.hostToken)

section
variable {fs : List Fragment} (h : ∀ f ∈ fs, f.isComma = false → Sealed f.text)
include h

include hhost in
theorem cuts_hostText : Cuts (fs.countP Fragment.isComma) (hostText ctx fs) := by
  cases fs with
  | nil => exact .none hhost
  | cons f fs =>
      rw [hostText]
      split
      · have hf := cuts_text (h f (by simp))
        have hfs := cuts_render fun g hg => h g (List.mem_cons_of_mem f hg)
        rw [← List.singleton_append, List.countP_append]
        exact (hf.append (.none hhost)).append hfs
      · exact hhost.cuts_append (cuts_render h)

include hhost in
theorem cuts_hostContextText : Cuts (fs.countP Fragment.isComma) (hostContextText ctx fs) := by
  rw [hostContextText]
  split
  · next hempty =>
    rw [List.isEmpty_iff.1 hempty]
    exact .none hhost
  · have hblank : Sealed [' '] := by decide
    exact ((cuts_render h).append (.none hblank)).append (.none hhost)

include helement in
theorem cuts_slottedText : Cuts (fs.countP Fragment.isComma) (slottedText ctx fs) := by
  have hslot : Sealed slotSelector := by decide
  have hchild : Sealed " > ".toList := by decide
  exact ((hslot.append helement).append hchild).cuts_append (cuts_render h)

end

include helement hhost

theorem cuts_expandFragment {f : Fragment} (h : SealedInside f) :
    Cuts ((exposedBy f).countP Fragment.isComma) (expandFragment ctx f) := by
  unfold expandFragment exposedBy
  cases hb : boundary? f with
  | none => exact .none h.text
  | some b =>
      have harguments := h.arguments (.inl (by simp [hb]))
      cases b with
      | host => exact cuts_hostText hhost harguments
      | hostContext => exact cuts_hostContextText hhost harguments
      | slotted => exact cuts_slottedText helement harguments

omit hhost in
theorem sealed_markAfter (anchor : Fragment → Bool) {fs : List Fragment}
    (h : ∀ f ∈ fs, Sealed f.text) : Sealed (markAfter anchor ctx.elementToken fs) := by
  induction fs with
  | nil => exact sealed_nil
  | cons f fs ih =>
      have hf := h f (by simp)
      have hfs : ∀ g ∈ fs, Sealed g.text := fun g hg => h g (by simp [hg])
      rw [markAfter]
      split
      · exact (hf.append helement).append (holdsSimply_sealed.of_render hfs)
      · exact hf.append (ih hfs)

theorem cuts_scopePart (selected : Bool) {part : List Fragment}
    (h : ∀ f ∈ part, SealedInside f) :
    Cuts ((part.flatMap exposedBy).countP Fragment.isComma) (scopePart ctx selected part) := by
  unfold scopePart
  split
  · next hb =>
    clear hb
    induction part with
    | nil => exact .none sealed_nil
    | cons f fs ih =>
        rw [List.flatMap_cons, List.flatMap_cons, List.countP_append]
        exact (cuts_expandFragment helement hhost (h f (by simp))).append
          (ih fun g hg => h g (by simp [hg]))
  · next hb =>
    have hnone : part.flatMap exposedBy = [] := by
      refine List.flatMap_eq_nil_iff.2 fun f hf => if_neg ?_
      exact List.any_eq_false.1 (Bool.eq_false_iff.2 hb) f hf
    have htext : ∀ f ∈ part, Sealed f.text := fun f hf => (h f hf).text
    rw [hnone]
    split
    · exact .none (sealed_markAfter helement _ htext)
    · exact .none (holdsSimply_sealed.of_render htext)

omit helement in
theorem cuts_escapeText {e : Escape} {f : Fragment} {fs : List Fragment} (he : f.escape? = some e)
    (h : ∀ g ∈ f :: fs, SealedInside g) :
    Cuts (f.trimmedArguments.countP Fragment.isComma) (escapeText ctx e (f :: fs)) := by
  have harguments := cuts_render ((h f (by simp)).arguments (.inr (by simp [he])))
  have hrest := holdsSimply_sealed.of_render fun g hg => (h g (List.mem_cons_of_mem f hg)).text
  cases e with
  | global => exact harguments.append (.none hrest)
  | «local» =>
      have hblank : Sealed [' '] := by decide
      exact ((hhost.append hblank).cuts_append harguments).append (.none hrest)

theorem cuts_scopeSegments (n k : Nat) {gs : List Segment}
    (h : ∀ g ∈ gs, ∀ f ∈ g.fragments, SealedInside f) :
    Cuts ((gs.flatMap exposedIn).countP Fragment.isComma) (scopeSegments ctx n k gs) := by
  induction gs generalizing k with
  | nil => exact .none sealed_nil
  | cons g gs ih =>
      have hg := h g (by simp)
      have hgs (k : Nat) := ih k fun x hx => h x (by simp [hx])
      rw [List.flatMap_cons, List.countP_append]
      cases g with
      | separator f =>
          have hf : Sealed f.text := (hg f (by simp [Segment.fragments])).text
          exact (Cuts.none hf).append (hgs k)
      | part fs =>
          rw [scopeSegments]
          cases fs with
          | nil => exact (cuts_scopePart helement hhost _ hg).append (hgs (k + 1))
          | cons f fs =>
              have hsame : escape? (f :: fs) = f.escape? := rfl
              rw [hsame, exposedIn]
              cases he : f.escape? with
              | none => exact (cuts_scopePart helement hhost _ hg).append (hgs (k + 1))
              | some e => exact (cuts_escapeText hhost he hg).append (hgs k)

end

theorem exposedCommas_nil : exposedCommas [] = 0 := by
  rw [exposedCommas, tokenize_nil]
  rfl

section
variable (ctx : Context)

theorem trim_scopeMember (m : Text) :
    trim (scopeMember ctx m) = trim (scopeSelector ctx (trim m)) := by
  unfold scopeMember
  split
  · next h =>
    rw [trim_of_isBlankText h, scopeSelector, tokenize_nil]
    rfl
  · exact trim_append_blanks _ List.all_takeWhile (all_trailingBlanks m)

/-- A member is written as it stands, or is cut by the commas laid open. -/
theorem scopeMember_cases {m : Text} (helement : Sealed ctx.elementToken)
    (hhost : Sealed ctx.hostToken)
    (h : isMalformed (segment (tokenize (trim m))) = false →
      ∀ f ∈ tokenize (trim m), ScansAgree f) :
    (scopeMember ctx m = m ∧ exposedCommas (trim m) = 0) ∨
      Cuts (exposedCommas (trim m)) (scopeMember ctx m) := by
  by_cases hblank : isBlankText m = true
  · refine .inl ⟨by rw [scopeMember, if_pos hblank], ?_⟩
    rw [trim_of_isBlankText hblank, exposedCommas_nil]
  · rw [scopeMember, if_neg hblank, scopeSelector, exposedCommas]
    cases hbroken : isMalformed (segment (tokenize (trim m))) with
    | true => exact .inl ⟨leadingBlanks_append_trim (Bool.eq_false_iff.2 hblank), rfl⟩
    | false =>
        refine .inr ?_
        have hlead : Sealed (leadingBlanks m) := sealed_of_all rfl List.all_takeWhile
        have htrail : Sealed (trailingBlanks m) := sealed_of_all rfl (all_trailingBlanks m)
        have hinside : ∀ g ∈ segment (tokenize (trim m)), ∀ f ∈ g.fragments, SealedInside f := by
          intro g hg f hf
          have hmem : f ∈ tokenize (trim m) := by
            rw [← fragments_segment (tokenize (trim m))]
            exact List.mem_flatMap.2 ⟨g, hg, hf⟩
          exact sealedInside_of_mem hmem (h hbroken f hmem)
        have hcuts := cuts_scopeSegments helement hhost
          ((segment (tokenize (trim m))).countP isCounted) 0 hinside
        exact (hlead.cuts_append hcuts).append (.none htrail)

/-- Scoping adds a member to a list for each comma it lays open, and keeps the members apart if
there are none. -/
theorem members_scopeList {list : Text} (helement : Sealed ctx.elementToken)
    (hhost : Sealed ctx.hostToken)
    (h : ∀ m ∈ members list, isMalformed (segment (tokenize (trim m))) = false →
      ∀ f ∈ tokenize (trim m), ScansAgree f) :
    (members (scopeList ctx list)).length =
        (members list).length + ((members list).map fun m => exposedCommas (trim m)).sum ∧
      ((∀ m ∈ members list, exposedCommas (trim m) = 0) →
        members (scopeList ctx list) = (members list).map (scopeMember ctx)) ∧
      ∀ m ∈ members list, trim (scopeMember ctx m) = trim (scopeSelector ctx (trim m)) := by
  have hcases m (hm : m ∈ members list) := scopeMember_cases ctx helement hhost (h m hm)
  have hlist : members (scopeList ctx list) =
      (members list).flatMap fun m => members (scopeMember ctx m) := by
    refine members_joinMembers_map (listed_members list) fun m hm hpass htop => ?_
    obtain ⟨hsame, -⟩ | hcuts := hcases m hm
    · intro r
      rw [hsame, members_of_isTop hpass htop, members_of_passes hpass]
      rfl
    · exact hcuts.endsMember
  have hlength : ∀ m ∈ members list,
      (members (scopeMember ctx m)).length = exposedCommas (trim m) + 1 := by
    intro m hm
    obtain ⟨hsame, hzero⟩ | hcuts := hcases m hm
    · rw [hsame, members_of_passes ((listed_members list).passes m hm), hzero]
      rfl
    · exact hcuts.length_members
  refine ⟨?_, fun hzero => ?_, fun m _ => trim_scopeMember ctx m⟩
  · rw [hlist, List.length_flatMap, List.map_congr_left hlength, List.sum_map_add, Nat.add_comm,
      List.map_const', List.sum_replicate_nat, Nat.mul_one]
  · have hone : ∀ m ∈ members list, members (scopeMember ctx m) = [scopeMember ctx m] := by
      intro m hm
      apply members_eq_singleton
      rw [hlength m hm, hzero m hm]
    rw [hlist, List.map_eq_flatMap, List.flatMap_def, List.flatMap_def, List.map_congr_left hone]

end

/-- Commas between parentheses that stay are not counted, and those between others are. -/
theorem members_scopeList_is :
    let ctx : Context := ⟨"s".toList, "[s]".toList, "[s-host]".toList, {}⟩
    let list : Text := ":host(.a) b:is(i, p) , ::slotted(*, i)".toList
    Sealed ctx.elementToken ∧ Sealed ctx.hostToken ∧
      (∀ m ∈ members list, ∀ f ∈ tokenize (trim m), ScansAgree f) ∧
      members list = [":host(.a) b:is(i, p) ".toList, " ::slotted(*, i)".toList] ∧
      (members list).map (fun m => exposedCommas (trim m)) = [0, 1] ∧
      (members (scopeList ctx list)).length = 3 := by
  intro ctx list
  have helement : Sealed ctx.elementToken := by decide
  have hhost : Sealed ctx.hostToken := by decide
  have hagree : ∀ m ∈ members list, ∀ f ∈ tokenize (trim m), ScansAgree f := by decide +kernel
  have hmembers : members list =
      [":host(.a) b:is(i, p) ".toList, " ::slotted(*, i)".toList] := by decide +kernel
  have hcommas : (members list).map (fun m => exposedCommas (trim m)) = [0, 1] := by decide +kernel
  have hlength := (members_scopeList ctx helement hhost fun m hm _ => hagree m hm).1
  rw [hcommas, hmembers] at hlength
  exact ⟨helement, hhost, hagree, hmembers, hcommas, hlength⟩

/-- The second selector in the parentheses of `:host` becomes a member of its own, and has no
token. -/
theorem members_scopeList_host :
    let ctx : Context := ⟨"s".toList, "[s]".toList, "[s-host]".toList, {}⟩
    let list : Text := ":host(.a, .b)".toList
    tokenize ctx.elementToken = [.attr ctx.elementToken] ∧
      tokenize ctx.hostToken = [.attr ctx.hostToken] ∧
      (∀ m ∈ members list, ∀ g ∈ segment (tokenize (trim m)), escape? g.fragments = none) ∧
      members list = [list] ∧
      members (scopeList ctx list) = ["[s-host].a".toList, " .b".toList] := by
  refine ⟨tokenize_attr ['s'] (by decide), tokenize_attr "s-host".toList (by decide), ?_, ?_, ?_⟩
  · decide +kernel
  · decide +kernel
  · decide +kernel

end StyleScope.Scope
