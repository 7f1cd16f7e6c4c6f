import StyleScope.Proofs.Scope.Members
import StyleScope.Proofs.Scope.Statements

/-! # Scoped selectors at the head of a rule

A scoped selector is read as a selector if it leads the scan for the end of a statement to the same
state as the selector did, and if its first and last character do not mislead the reader: the first
one decides what kind of statement follows, and blanks at the end are taken for the space in front
of the block. `Recast` says this of two texts, and it holds of texts in a row if it holds of each.

Each fragment of a selector is written as it is, with the element token behind it, or as what it
stands for (`Spelled`). So it is enough to look at single fragments. Most of them are harmless; the
arguments of a boundary or an escape are written out without their parentheses, and they are
harmless if they could stand at the head of a rule themselves (`Harmless`).
-/
namespace StyleScope.Stylesheet
open Text Selector

/-- The scan for the end of a statement stops nowhere in the text and leaves it as it entered it. -/
def Shut (t : Text) : Prop := statementScan.Rests {} t

instance (t : Text) : Decidable (Shut t) := inferInstanceAs (Decidable (statementScan.Rests {} t))

theorem rests_of_all {p : Char → Bool} {t : Text}
    (hp : ('{' :: '}' :: ';' :: nestingSigns).any p = false) (h : t.all p = true) (depth : Nat) :
    statementScan.Rests ⟨.plain, depth⟩ t := by
  refine Scan.rests_of_forall (k := statementDialect) rfl fun c hc => ?_
  have hsigns : c ∉ '{' :: '}' :: ';' :: nestingSigns := by
    intro hsign
    exact List.any_eq_false.1 hp c hsign (List.all_eq_true.1 h c hc)
  simp only [List.mem_cons, not_or] at hsigns
  exact ⟨hsigns.2.2.2, by simp [statementScan, hsigns.1, hsigns.2.1, hsigns.2.2.1]⟩

theorem holdsSimply_shut : HoldsSimply Shut where
  nil := Scan.rests_nil
  append := Scan.Rests.append
  char hc := rests_of_all (p := isSimpleChar) rfl (by simp [hc]) 0
  escape _ := ⟨rfl, rfl⟩

theorem shut_of_allBlank {t : Text} (h : t.all isBlank = true) : Shut t := rests_of_all rfl h 0

/-- A word in square brackets. -/
theorem shut_brackets {w : Text} (h : w.all isScopeChar = true) : Shut ('[' :: w ++ [']']) := by
  have hw : statementScan.Rests ⟨.plain, 1⟩ w := rests_of_all rfl h 1
  have hopen : statementScan.next {} '[' = ⟨.plain, 1⟩ := rfl
  rw [Shut, Scan.Rests, List.cons_append, Scan.passes_cons, Scan.after_cons, hopen,
    Scan.passes_append, Scan.after_append, hw.2]
  exact ⟨⟨rfl, hw.1, rfl⟩, rfl⟩

def isOpening (c : Char) : Bool := !isSpace c && !(['}', ';', '@', '/', '-'].contains c)

theorem isOpening_iff {c : Char} : isOpening c = true ↔
    isSpace c = false ∧ c ≠ '}' ∧ c ≠ ';' ∧ c ≠ '@' ∧ c ≠ '/' ∧ c ≠ '-' := by
  simp [isOpening]

/-- What it takes to be read as a selector, behind a character that starts neither a comment nor a
custom property. -/
theorem isHead_cons_iff {c : Char} {r between : Text} (hslash : c ≠ '/') (hhyphen : c ≠ '-') :
    IsHead (c :: r) between ↔ isOpening c = true ∧ trimEnd (c :: r) = c :: r ∧
      between.all isBlank = true ∧ statementScan.Passes {} (c :: r ++ between) ∧
      statementScan.stops (statementScan.after {} (c :: r ++ between)) '{' = true := by
  have hcustom (t : Text) : isCustomProperty (c :: t) = false := by
    unfold isCustomProperty
    split
    · next heq => exact absurd (List.cons.inj heq).1 hhyphen
    · rfl
  have hcut : cutAny (c :: r ++ between ++ ['{']) = (c :: r ++ between, ['{']) ↔
      statementScan.Passes {} (c :: r ++ between) ∧
        statementScan.stops (statementScan.after {} (c :: r ++ between)) '{' = true := by
    rw [List.cons_append, List.cons_append, cutAny, hcustom, if_neg Bool.false_ne_true,
      cutStatement, Scan.cut_eq_cons_iff]
    exact and_iff_right rfl
  constructor
  · intro h
    have hspace : isSpace c = false := h.noSpace c rfl
    obtain ⟨hbrace, hsemicolon, hat⟩ := h.statement.starts.head c rfl
    refine ⟨?_, h.statement.trimmed, h.statement.allBlank, hcut.1 h.statement.cut⟩
    exact isOpening_iff.2 ⟨hspace, hbrace, hsemicolon, hat, hslash, hhyphen⟩
  · rintro ⟨hopening, htrimmed, hblank, hscan⟩
    obtain ⟨hspace, hbrace, hsemicolon, hat, -, -⟩ := isOpening_iff.1 hopening
    refine ⟨?_, ⟨?_, ?_⟩, htrimmed, hblank, hcut.2 hscan⟩
    · simpa using hspace
    · simpa using ⟨hbrace, hsemicolon, hat⟩
    · simp [startsComment, hslash]

/-- The text can stand at the head of a rule, with a selector before and behind it. -/
def Solid (t : Text) : Prop :=
  Shut t ∧ t.head?.any isOpening = true ∧ t.getLast?.any (fun c => !isBlank c) = true

instance (t : Text) : Decidable (Solid t) := inferInstanceAs (Decidable (_ ∧ _))

theorem any_head?_append {p : Char → Bool} {u : Text} (h : u.head?.any p = true) (v : Text) :
    (u ++ v).head?.any p = true := by
  cases u with
  | nil => exact absurd h (by simp)
  | cons c r => exact h

theorem any_getLast?_append {p : Char → Bool} {v : Text} (u : Text)
    (h : v.getLast?.any p = true) : (u ++ v).getLast?.any p = true := by
  have hne : v ≠ [] := by
    rintro rfl
    exact absurd h (by simp)
  rwa [List.getLast?_append_of_ne_nil u hne]

/-- Something between two texts that can stand at the head of a rule. -/
theorem Solid.append {u w v : Text} (hu : Solid u) (hw : Shut w) (hv : Solid v) :
    Solid (u ++ w ++ v) := by
  refine ⟨(hu.1.append hw).append hv.1, ?_, any_getLast?_append (u ++ w) hv.2.2⟩
  exact any_head?_append (any_head?_append hu.2.1 w) v

/-- The second text may stand in the place of the first one at the head of a rule. -/
structure Recast (u v : Text) : Prop where
  nil : v = [] ↔ u = []
  passes : statementScan.Passes {} u → statementScan.Passes {} v
  after : statementScan.after {} v = statementScan.after {} u
  head : v.head? = u.head? ∨ v.head?.any isOpening = true
  last : v.getLast? = u.getLast? ∨ v.getLast?.any (fun c => !isBlank c) = true

namespace Recast
variable {u v u' v' : Text}

theorem refl (u : Text) : Recast u u := ⟨Iff.rfl, id, rfl, .inl rfl, .inl rfl⟩

theorem of_solid (hne : u ≠ []) (hu : Shut u) (hv : Solid v) : Recast u v where
  nil := by
    have hv' : v ≠ [] := by
      rintro rfl
      exact absurd hv.2.1 (by simp)
    exact iff_of_false hv' hne
  passes _ := hv.1.1
  after := hv.1.2.trans hu.2.symm
  head := .inr hv.2.1
  last := .inr hv.2.2

/-- Something put behind a text. -/
theorem marked (hne : u ≠ []) (hu : Shut u) (hv : Solid v) : Recast u (u ++ v) where
  nil := by simp [hne]
  passes _ := (hu.append hv.1).1
  after := (hu.append hv.1).2.trans hu.2.symm
  head := .inl (List.head?_append_of_ne_nil u hne)
  last := .inr (any_getLast?_append u hv.2.2)

theorem append (hu : Shut u) (h : Recast u v) (h' : Recast u' v') :
    Recast (u ++ u') (v ++ v') where
  nil := by rw [List.append_eq_nil_iff, List.append_eq_nil_iff, h.nil, h'.nil]
  passes := by
    rw [Scan.passes_append, Scan.passes_append, h.after, hu.2]
    exact And.imp h.passes h'.passes
  after := by rw [Scan.after_append, Scan.after_append, h.after, hu.2, h'.after]
  head := by
    by_cases hne : u = []
    · rw [hne, h.nil.2 hne]
      exact h'.head
    · rw [List.head?_append_of_ne_nil v (mt h.nil.1 hne), List.head?_append_of_ne_nil u hne]
      exact h.head
  last := by
    by_cases hne : u' = []
    · rw [hne, h'.nil.2 hne, List.append_nil, List.append_nil]
      exact h.last
    · rw [List.getLast?_append_of_ne_nil v (mt h'.nil.1 hne),
        List.getLast?_append_of_ne_nil u hne]
      exact h'.last

/-- A head of a rule stays one if its selector is recast and did not start with what may become the
start of a comment or of a custom property. -/
theorem isHead {selector selector' between : Text} (h : Recast selector selector')
    (hhead : IsHead selector between)
    (hstart : selector.head? ≠ some '/' ∧ selector.head? ≠ some '-') :
    IsHead selector' between := by
  by_cases hnil : selector = []
  · rwa [h.nil.2 hnil, ← hnil]
  obtain ⟨c, r, rfl⟩ := List.exists_cons_of_ne_nil hnil
  obtain ⟨d, r', rfl⟩ := List.exists_cons_of_ne_nil (mt h.nil.1 hnil)
  obtain ⟨hslash, hhyphen⟩ : c ≠ '/' ∧ c ≠ '-' := by simpa using hstart
  obtain ⟨hopening, htrimmed, hblank, hpass, hstop⟩ := (isHead_cons_iff hslash hhyphen).1 hhead
  have hopening' : isOpening d = true := by
    rcases h.head with hsame | hopens
    · obtain rfl : d = c := Option.some.inj hsame
      exact hopening
    · exact hopens
  obtain ⟨-, -, -, -, hslash', hhyphen'⟩ := isOpening_iff.1 hopening'
  rw [Scan.passes_append] at hpass
  rw [Scan.after_append] at hstop
  refine (isHead_cons_iff hslash' hhyphen').2 ⟨hopening', ?_, hblank, ?_, ?_⟩
  · rw [trimEnd_eq_self_iff] at htrimmed ⊢
    rcases h.last with hsame | hlast
    · rwa [hsame]
    · intro e he
      rw [Option.mem_def.1 he] at hlast
      simpa using hlast
  · rw [Scan.passes_append, h.after]
    exact ⟨h.passes hpass.1, hpass.2⟩
  · rwa [Scan.after_append, h.after]

end Recast

end StyleScope.Stylesheet

namespace StyleScope.Scope
open Text Stylesheet Selector

/-! ### What is written for a fragment -/

inductive Written (ctx : Context) (f : Fragment) : Text → Prop
  | same : Written ctx f f.text
  | marked : Written ctx f (f.text ++ ctx.elementToken)
  | boundary {b : Boundary} : boundary? f = some b → Written ctx f (expandFragment ctx f)
  | global : f.escape? = some .global → Written ctx f (render f.trimmedArguments)
  | local : f.escape? = some .local →
      Written ctx f (ctx.hostToken ++ [' '] ++ render f.trimmedArguments)

/-- What is written for fragments in a row. -/
inductive Spelled (ctx : Context) : List Fragment → Text → Prop
  | nil : Spelled ctx [] []
  | cons {f : Fragment} {fs : List Fragment} {u v : Text} :
      Written ctx f u → Spelled ctx fs v → Spelled ctx (f :: fs) (u ++ v)

section
variable (ctx : Context)

theorem Spelled.append {ctx : Context} {fs gs : List Fragment} {u v : Text}
    (hu : Spelled ctx fs u) (hv : Spelled ctx gs v) : Spelled ctx (fs ++ gs) (u ++ v) := by
  induction hu with
  | nil => exact hv
  | cons hf _ ih =>
      rw [List.cons_append, List.append_assoc]
      exact .cons hf ih

theorem spelled_render (fs : List Fragment) : Spelled ctx fs (render fs) := by
  induction fs with
  | nil => exact .nil
  | cons f fs ih =>
      rw [render_cons]
      exact .cons .same ih

theorem spelled_markAfter (anchor : Fragment → Bool) (fs : List Fragment) :
    Spelled ctx fs (markAfter anchor ctx.elementToken fs) := by
  induction fs with
  | nil => exact .nil
  | cons f fs ih =>
      rw [markAfter]
      split
      · exact .cons .marked (spelled_render ctx fs)
      · exact .cons .same ih

theorem spelled_expandFragments (fs : List Fragment) :
    Spelled ctx fs (fs.flatMap (expandFragment ctx)) := by
  induction fs with
  | nil => exact .nil
  | cons f fs ih =>
      rw [List.flatMap_cons]
      refine .cons ?_ ih
      cases hb : boundary? f with
      | none =>
          rw [expandFragment, hb]
          exact .same
      | some b => exact .boundary hb

theorem spelled_scopePart (selected : Bool) (part : List Fragment) :
    Spelled ctx part (scopePart ctx selected part) := by
  unfold scopePart
  split
  · exact spelled_expandFragments ctx part
  · split
    · exact spelled_markAfter ctx _ part
    · exact spelled_render ctx part

theorem spelled_escapeText {e : Escape} {part : List Fragment} (h : escape? part = some e) :
    Spelled ctx part (escapeText ctx e part) := by
  cases part with
  | nil => exact .nil
  | cons f fs =>
      have hf : f.escape? = some e := h
      cases e with
      | global => exact .cons (.global hf) (spelled_render ctx fs)
      | «local» => exact .cons (.local hf) (spelled_render ctx fs)

theorem spelled_scopeSegments (n k : Nat) (gs : List Segment) :
    Spelled ctx (gs.flatMap Segment.fragments) (scopeSegments ctx n k gs) := by
  induction gs generalizing k with
  | nil => exact .nil
  | cons g gs ih =>
      rw [List.flatMap_cons]
      cases g with
      | separator f => exact .cons .same (ih k)
      | part fs =>
          rw [scopeSegments]
          split
          · next e he => exact (spelled_escapeText ctx he).append (ih k)
          · exact (spelled_scopePart ctx _ fs).append (ih (k + 1))

end

/-! ### Harmless fragments -/

/-- The scan for the end of a statement sees nothing in the fragment, unless that is known of its
kind, and arguments that may be written out could stand at the head of a rule. Only the host needs
no arguments. -/
def Harmless (f : Fragment) : Prop :=
  (f.isSimple = false → Shut f.text) ∧
    (Unwraps f → Solid (render f.trimmedArguments) ∨
      f.trimmedArguments = [] ∧ f.escape? = none ∧ boundary? f ≠ some .slotted)

instance (f : Fragment) : Decidable (Harmless f) :=
  have : Decidable (f.trimmedArguments = []) :=
    decidable_of_iff (f.trimmedArguments.isEmpty = true) List.isEmpty_iff
  inferInstanceAs (Decidable (_ ∧ _))

theorem Harmless.shut {t : Text} {f : Fragment} (h : Harmless f) (hf : f ∈ tokenize t) :
    Shut f.text := by
  cases hs : f.isSimple with
  | true => exact holdsSimply_shut.of_mem_tokenize hf hs
  | false => exact h.1 hs

section
variable {ctx : Context} (helement : Solid ctx.elementToken) (hhost : Solid ctx.hostToken)

section
variable {fs : List Fragment} (hfs : Solid (render fs))
include hfs

include hhost in
/-- The type selector of the arguments stays in front of the host token. -/
theorem solid_hostText (hread : ∀ f ∈ fs, ∃ u, f ∈ tokenize u) : Solid (hostText ctx fs) := by
  cases fs with
  | nil => exact hhost
  | cons f fs =>
      have hrest := hfs
      rw [render_cons] at hrest
      rw [hostText]
      split
      · next htype =>
        obtain ⟨u, hf⟩ := hread f (by simp)
        have hsimple : f.isSimple = true := by
          cases f <;> first | rfl | exact absurd htype (by simp [Fragment.isType])
        have hshut : Shut f.text := holdsSimply_shut.of_mem_tokenize hf hsimple
        have hne : f.text ≠ [] := text_ne_nil_of_mem_tokenize hf
        refine ⟨(hshut.append hhost.1).append (hshut.of_append hrest.1), ?_, ?_⟩
        · have hopens := hrest.2.1
          rw [List.head?_append_of_ne_nil _ hne] at hopens
          exact any_head?_append (any_head?_append hopens _) _
        · by_cases hnil : render fs = []
          · rw [hnil, List.append_nil]
            exact any_getLast?_append _ hhost.2.2
          · have hcloses := hrest.2.2
            rw [List.getLast?_append_of_ne_nil _ hnil] at hcloses
            exact any_getLast?_append _ hcloses
      · simpa using hhost.append Scan.rests_nil hfs

include hhost in
theorem solid_hostContextText : Solid (hostContextText ctx fs) := by
  rw [hostContextText]
  split
  · exact hhost
  · have hblank : Shut [' '] := by decide
    exact hfs.append hblank hhost

include helement in
theorem solid_slottedText : Solid (slottedText ctx fs) := by
  have hslot : Solid slotSelector := by decide
  have hchild : Shut " > ".toList := by decide
  have hparent : Solid (slotSelector ++ [] ++ ctx.elementToken) :=
    hslot.append Scan.rests_nil helement
  simpa [slottedText] using hparent.append hchild hfs

end

include helement hhost

theorem solid_expandFragment {t : Text} {f : Fragment} (hf : f ∈ tokenize t) (h : Harmless f)
    {b : Boundary} (hb : boundary? f = some b) : Solid (expandFragment ctx f) := by
  have hread (g : Fragment) (hg : g ∈ f.trimmedArguments) : ∃ u, g ∈ tokenize u :=
    exists_mem_tokenize_of_mem_trimmedArguments hf hg
  have hwritten := h.2 (.inl (by simp [hb]))
  rw [expandFragment, hb]
  rcases hwritten with hsolid | ⟨hnil, -, hkind⟩
  · cases b with
    | host => exact solid_hostText hhost hsolid hread
    | hostContext => exact solid_hostContextText hhost hsolid
    | slotted => exact solid_slottedText helement hsolid
  · rw [hnil]
    cases b with
    | host => exact hhost
    | hostContext => exact hhost
    | slotted => exact absurd hb hkind

theorem Written.recast {t u : Text} {f : Fragment} (hu : Written ctx f u) (hf : f ∈ tokenize t)
    (h : Harmless f) : Recast f.text u := by
  have hne : f.text ≠ [] := text_ne_nil_of_mem_tokenize hf
  have hshut : Shut f.text := h.shut hf
  have hescape (e : Escape) (he : f.escape? = some e) : Solid (render f.trimmedArguments) := by
    rcases h.2 (.inr (by simp [he])) with hsolid | ⟨-, hnone, -⟩
    · exact hsolid
    · exact absurd (hnone.symm.trans he) (by simp)
  cases hu with
  | same => exact .refl _
  | marked => exact .marked hne hshut helement
  | boundary hb => exact .of_solid hne hshut (solid_expandFragment helement hhost hf h hb)
  | global he => exact .of_solid hne hshut (hescape _ he)
  | «local» he =>
      have hblank : Shut [' '] := by decide
      exact .of_solid hne hshut (hhost.append hblank (hescape _ he))

theorem Spelled.recast {t u : Text} {fs : List Fragment} (hu : Spelled ctx fs u)
    (hfs : ∀ f ∈ fs, f ∈ tokenize t) (h : ∀ f ∈ fs, Harmless f) : Recast (render fs) u := by
  induction hu with
  | nil => exact .refl _
  | @cons f fs _ _ hf _ ih =>
      have hmem : f ∈ tokenize t := hfs f (by simp)
      have hharmless : Harmless f := h f (by simp)
      rw [render_cons]
      exact (hf.recast helement hhost hmem hharmless).append (hharmless.shut hmem)
        (ih (fun g hg => hfs g (by simp [hg])) fun g hg => h g (by simp [hg]))

theorem recast_scopeSelector {t : Text}
    (h : isMalformed (segment (tokenize t)) = false → ∀ f ∈ tokenize t, Harmless f) :
    Recast t (scopeSelector ctx t) := by
  rw [scopeSelector]
  split
  · exact .refl t
  · next hformed =>
    have hspelled := spelled_scopeSegments ctx ((segment (tokenize t)).countP isCounted) 0
      (segment (tokenize t))
    rw [fragments_segment] at hspelled
    have hrecast := hspelled.recast helement hhost (t := t) (fun f hf => hf)
      (h (Bool.eq_false_iff.2 hformed))
    rwa [render_tokenize] at hrecast

end

/-! ### Lists -/

theorem shut_of_harmless {m : Text} (h : ∀ f ∈ tokenize (trim m), Harmless f) : Shut (trim m) := by
  rw [← render_tokenize (trim m)]
  exact holdsSimply_shut.of_render fun f hf => (h f hf).shut hf

/-- Blanks around a text. -/
theorem shut_of_trim {m : Text} (h : Shut (trim m)) : Shut m := by
  cases hblank : isBlankText m with
  | true => exact shut_of_allBlank hblank
  | false =>
      have hlead : Shut (leadingBlanks m) := shut_of_allBlank List.all_takeWhile
      have htrail : Shut (trailingBlanks m) := shut_of_allBlank (all_trailingBlanks m)
      rw [← leadingBlanks_append_trim hblank]
      exact (hlead.append h).append htrail

theorem recast_joinMembers {f : Text → Text} {ms : List Text} (hshut : ∀ m ∈ ms.dropLast, Shut m)
    (h : ∀ m ∈ ms, Recast m (f m)) : Recast (joinMembers ms) (joinMembers (ms.map f)) := by
  induction ms with
  | nil => exact .refl _
  | cons m ms ih =>
      have hm : Recast m (f m) := h m (by simp)
      cases ms with
      | nil =>
          rw [List.map_singleton, joinMembers, joinMembers, List.intercalate_singleton,
            List.intercalate_singleton]
          exact hm
      | cons d ds =>
          rw [List.dropLast_cons_cons] at hshut
          have hcomma : Shut [','] := by decide
          have htail := ih (fun x hx => hshut x (by simp [hx])) fun x hx => h x (by simp [hx])
          rw [List.map_cons, joinMembers_cons (List.cons_ne_nil d ds),
            joinMembers_cons (m := f m) (by simp)]
          exact hm.append (hshut m (by simp)) ((Recast.refl [',']).append hcomma htail)

/-- A selector list that can be scoped at the head of a rule, fragment by fragment. A malformed
member is left as it is, and so may hold anything if no other one follows. -/
structure HarmlessList (list : Text) : Prop where
  start : list.head? ≠ some '/' ∧ list.head? ≠ some '-'
  malformed : ∀ m ∈ (members list).dropLast,
    isMalformed (segment (tokenize (trim m))) = true → Shut m
  formed : ∀ m ∈ members list,
    isMalformed (segment (tokenize (trim m))) = false → ∀ f ∈ tokenize (trim m), Harmless f

instance (list : Text) : Decidable (HarmlessList list) :=
  decidable_of_iff (_ ∧ _ ∧ _) ⟨fun h => ⟨h.1, h.2.1, h.2.2⟩, fun h => ⟨h.1, h.2, h.3⟩⟩

section
variable {ctx : Context} (helement : Solid ctx.elementToken) (hhost : Solid ctx.hostToken)
include helement hhost

theorem recast_scopeMember {m : Text}
    (h : isMalformed (segment (tokenize (trim m))) = false →
      ∀ f ∈ tokenize (trim m), Harmless f) : Recast m (scopeMember ctx m) := by
  cases hblank : isBlankText m with
  | true =>
      rw [scopeMember, if_pos hblank]
      exact .refl m
  | false =>
      have hm := leadingBlanks_append_trim hblank
      rw [scopeMember, if_neg (by simp [hblank])]
      cases hmalformed : isMalformed (segment (tokenize (trim m))) with
      | true =>
          rw [scopeSelector, if_pos hmalformed, hm]
          exact .refl m
      | false =>
          have hlead : Shut (leadingBlanks m) := shut_of_allBlank List.all_takeWhile
          have hshut : Shut (trim m) := shut_of_harmless (h hmalformed)
          have hselector := recast_scopeSelector helement hhost h
          have hrecast := ((Recast.refl (leadingBlanks m)).append hlead hselector).append
            (hlead.append hshut) (.refl (trailingBlanks m))
          rwa [hm] at hrecast

theorem recast_scopeList {list : Text} (h : HarmlessList list) :
    Recast list (scopeList ctx list) := by
  have hshut : ∀ m ∈ (members list).dropLast, Shut m := by
    intro m hm
    cases hmalformed : isMalformed (segment (tokenize (trim m))) with
    | true => exact h.malformed m hm hmalformed
    | false =>
        have hmem : m ∈ members list := List.dropLast_subset _ hm
        exact shut_of_trim (shut_of_harmless (h.formed m hmem hmalformed))
  have hrecast := recast_joinMembers hshut fun m hm =>
    recast_scopeMember helement hhost (h.formed m hm)
  rwa [joinMembers_members] at hrecast

end

theorem Context.eq_of_ofScope {scope : Text} {ctx : Context} (h : ofScope scope = .ok ctx) :
    ctx = { scope, elementToken := defaultElementToken scope,
            hostToken := defaultHostToken scope } := by
  unfold ofScope at h
  split at h
  · exact absurd h (by simp)
  · exact (Except.ok.inj h).symm

/-- Of a harmless list, a rule keeps its head when the list is scoped. -/
theorem isHead_scopeList {scope list between : Text} {ctx : Context}
    (hctx : Context.ofScope scope = .ok ctx) (hscope : scope.all isScopeChar = true)
    (hlist : HarmlessList list) (h : IsHead list between) :
    IsHead (scopeList ctx list) between := by
  obtain rfl := Context.eq_of_ofScope hctx
  have hbrackets {w : Text} (hw : w.all isScopeChar = true) : Solid ('[' :: w ++ [']']) := by
    exact ⟨shut_brackets hw, rfl, any_getLast?_append ('[' :: w) rfl⟩
  have hhost : Solid (defaultHostToken scope) := by
    have hw : (scope ++ "-host".toList).all isScopeChar = true := by
      rw [List.all_append, hscope]
      rfl
    simpa [defaultHostToken] using hbrackets hw
  exact (recast_scopeList (hbrackets hscope) hhost hlist).isHead h hlist.start

end StyleScope.Scope
