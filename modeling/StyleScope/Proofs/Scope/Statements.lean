import StyleScope.Proofs.Animation.Padding
import StyleScope.Proofs.Scope.Frame
import StyleScope.Proofs.Stylesheet.Blocks

/-! # Scoped statements read again

Scoping changes a statement, and what is written for it is read again. Whether that gives the
changed statement back is settled chunk by chunk. A chunk does not depend on what is read behind it,
except for the blanks that a statement without an end leaves to the end of its block
(`Chunk.Read.congr`). Renamed keyframes and animations are always read as what they were renamed to;
a rule with a scoped selector may not be, and `IsHead` is what it takes (`read_scopedChunk`). A run
over chunks then takes what scoping makes of them (`run_scopedText`).
-/
namespace StyleScope.Stylesheet
open Text

/-- The selector and the blanks behind it are read as such in front of an opening brace. -/
structure IsHead (selector between : Text) : Prop where
  noSpace : ∀ c ∈ (selector ++ between).head?, isSpace c = false
  statement : IsStatement selector between ['{']

theorem IsHead.noSpace_append {selector between : Text} (h : IsHead selector between) (u : Text) :
    ∀ c ∈ (selector ++ between ++ '{' :: u).head?, isSpace c = false := by
  intro c hc
  rw [List.head?_append, List.head?_cons] at hc
  cases hhead : (selector ++ between).head? with
  | none =>
      rw [hhead] at hc
      obtain rfl := Option.some.inj hc
      decide
  | some d =>
      rw [hhead] at hc
      exact h.noSpace c (hhead.trans hc)

/-- Both texts start with the same blanks to the end of a block, if the first one does. -/
def SameEnd (u u' : Text) : Prop :=
  ∀ blanks tail, u = blanks ++ tail → blanks.all isBlank = true → EndsBlock tail →
    ∃ tail', u' = blanks ++ tail' ∧
      (tail = [] ∧ tail' = [] ∨ ∃ r r', tail = '}' :: r ∧ tail' = '}' :: r')

theorem SameEnd.refl (u : Text) : SameEnd u u := by
  intro blanks tail hu hblanks htail
  refine ⟨tail, hu, ?_⟩
  obtain rfl | ⟨r, rfl⟩ := htail.eq_nil_or_cons
  · exact .inl ⟨rfl, rfl⟩
  · exact .inr ⟨r, r, rfl, rfl⟩

theorem SameEnd.eq_nil {u' : Text} (h : SameEnd [] u') : u' = [] := by
  obtain ⟨tail', rfl, ⟨-, rfl⟩ | ⟨r, r', hr, -⟩⟩ := h [] [] rfl rfl (by simp [EndsBlock])
  · rfl
  · exact absurd hr (by simp)

theorem IsPrelude.sameEnd {name afterName params blanks tail u' : Text}
    (h : IsPrelude name afterName params blanks tail) (hend : EndsBlock tail)
    (hu : SameEnd (blanks ++ tail) u') :
    ∃ tail', u' = blanks ++ tail' ∧ EndsBlock tail' ∧
      IsPrelude name afterName params blanks tail' := by
  obtain ⟨tail', rfl, ⟨rfl, rfl⟩ | ⟨r, r', rfl, rfl⟩⟩ := hu blanks tail rfl h.allBlank hend
  · exact ⟨[], rfl, hend, h⟩
  · exact ⟨_, rfl, by simp [EndsBlock], h.congr r'⟩

theorem IsStatement.sameEnd {content blanks tail u' : Text} (h : IsStatement content blanks tail)
    (hend : EndsBlock tail) (hu : SameEnd (blanks ++ tail) u') :
    ∃ tail', u' = blanks ++ tail' ∧ EndsBlock tail' ∧ IsStatement content blanks tail' := by
  obtain ⟨tail', rfl, ⟨rfl, rfl⟩ | ⟨r, r', rfl, rfl⟩⟩ := hu blanks tail rfl h.allBlank hend
  · exact ⟨[], rfl, hend, h⟩
  · exact ⟨_, rfl, by simp [EndsBlock], h.congr r'⟩

/-- A chunk is read in front of another text if a block that ends behind it still does. -/
theorem Chunk.Read.congr {before t u u' : Text} {k : Chunk} (h : Read before t k u)
    (hu : SameEnd u u') : ∃ t', Read before t' k u' := by
  cases h with
  | close => exact ⟨_, .close⟩
  | empty => exact ⟨_, .empty⟩
  | comment hpass hstar => exact ⟨_, .comment hpass hstar⟩
  | openComment hpass =>
      rw [hu.eq_nil]
      exact ⟨_, .openComment hpass⟩
  | openAt h => exact ⟨_, .openAt (h.congr u')⟩
  | endedAt h => exact ⟨_, .endedAt (h.congr u')⟩
  | unendedAt h hend =>
      obtain ⟨tail', rfl, hend', h'⟩ := h.sameEnd hend hu
      exact ⟨_, .unendedAt h' hend'⟩
  | openRule h => exact ⟨_, .openRule (h.congr u')⟩
  | ended h => exact ⟨_, .ended (h.congr u')⟩
  | unended hne h hend =>
      obtain ⟨tail', rfl, hend', h'⟩ := h.sameEnd hend hu
      exact ⟨_, .unended hne h' hend'⟩

/-- A chunk takes the same characters off whatever text it is read from. -/
theorem Chunk.Read.exists_append {before t u : Text} {k : Chunk} (h : Read before t k u) :
    ∃ body, body ≠ [] ∧ t = body ++ u ∧ k.text = before ++ body := by
  obtain ⟨happ, hlength⟩ := Chunk.takes_read? h.read?
  rcases List.append_eq_append_iff.1 happ with ⟨a, hbefore, -⟩ | ⟨body, htext, ht⟩
  · rw [hbefore, List.length_append] at hlength
    dsimp only at hlength
    omega
  · refine ⟨body, ?_, ht, htext⟩
    rintro rfl
    rw [htext, List.append_nil] at hlength
    omega

theorem Chunk.plainNode_eq_declaration {before content afterValue : Text} {semicolon : Bool}
    {d : Declaration} (h : plainNode before content afterValue semicolon = .declaration d) :
    splitDeclaration? content = some (d.prop, d.between, d.value) ∧
      ∀ content' value, splitDeclaration? content' = some (d.prop, d.between, value) →
        plainNode before content' afterValue semicolon = .declaration { d with value } := by
  unfold plainNode at h
  split at h
  · next hsplit =>
    obtain rfl := Node.declaration.inj h
    refine ⟨hsplit, ?_⟩
    intro content' value hsplit'
    rw [plainNode, hsplit']
  · exact absurd h (by simp)

theorem Chunk.plainNode_ne_atStatement (before content afterValue : Text) (semicolon : Bool)
    (r : AtRule) : plainNode before content afterValue semicolon ≠ .atStatement r := by
  unfold plainNode
  split
  · simp
  · simp

end StyleScope.Stylesheet

namespace StyleScope.Scope
open Text Stylesheet Animation

/-- What scoping may make of a chunk that is read again. -/
inductive ScopedChunk (ctx : Context) : Chunk → Chunk → Prop
  | same (k : Chunk) : ScopedChunk ctx k k
  | rule {r : Rule} : IsHead (scopeList ctx r.selector) r.between →
      ScopedChunk ctx (.openRule r) (.openRule { r with selector := scopeList ctx r.selector })
  | openAt {r : AtRule} {params : Text} : Lengthened (nameSuffix ctx.scope) r.params params →
      ScopedChunk ctx (.openAt r) (.openAt { r with params })
  | atStatement {r : AtRule} {params : Text} : Lengthened (nameSuffix ctx.scope) r.params params →
      ScopedChunk ctx (.node (.atStatement r)) (.node (.atStatement { r with params }))
  | declaration {d : Declaration} {value : Text} : d.plainProp.head? ≠ some '-' →
      Lengthened (nameSuffix ctx.scope) d.value value →
      ScopedChunk ctx (.node (.declaration d)) (.node (.declaration { d with value }))

theorem sameEnd_scopedText {ctx : Context} {t u u' : Text} {k k' : Chunk}
    (h : Chunk.Read (t.takeWhile isSpace) (t.dropWhile isSpace) k u) (hk : ScopedChunk ctx k k') :
    SameEnd t (k'.text ++ u') := by
  intro blanks tail ht hblanks htail
  have htext := text_append_of_read? h.read?
  rw [ht] at h
  obtain ⟨rfl, rfl⟩ := h.close_of_endsBlock hblanks htail
  cases hk with
  | same =>
      rw [ht] at htext
      have hspace : (blanks ++ '}' :: u).takeWhile isSpace = blanks := by
        simpa [Chunk.text] using htext
      refine ⟨'}' :: u', ?_, .inr ⟨u, u', rfl, rfl⟩⟩
      simp [Chunk.text, hspace]

section
variable {ctx : Context} (hne : ctx.scope ≠ []) (hscope : ctx.scope.all isScopeChar = true)
include hne hscope

/-- The content of a declaration with its value lengthened. -/
theorem exists_declaration_lengthened {content blanks tail value : Text} {d : Declaration}
    (h : IsStatement content blanks tail)
    (hsplit : splitDeclaration? content = some (d.prop, d.between, d.value))
    (hprop : d.plainProp.head? ≠ some '-')
    (hvalue : Lengthened (nameSuffix ctx.scope) d.value value) :
    ∃ content', content' ≠ [] ∧ content'.head? = content.head? ∧
      splitDeclaration? content' = some (d.prop, d.between, value) ∧
      IsStatement content' blanks tail := by
  obtain ⟨left, lead, hcut, hleft, hbetween, hlead, htrim⟩ := splitDeclaration?_eq_some_iff.1 hsplit
  have hcontent : content = left ++ ':' :: lead ++ d.value := by
    have happ := (topScan colonDialect ':').cut_append {} content
    rw [show (topScan colonDialect ':').cut {} content = _ from hcut] at happ
    simpa using happ.symm
  subst hcontent
  have hw := all_nameSuffix hscope
  have hwne := nameSuffix_ne_nil hne
  refine ⟨left ++ ':' :: lead ++ value, by simp, ?_, ?_, ?_⟩
  · simp only [List.append_assoc, List.cons_append, List.head?_append, List.head?_cons]
  · apply splitDeclaration?_eq_some_iff.2
    refine ⟨left, lead, ?_, hleft, hbetween, hlead, ?_⟩
    · simp only [List.append_assoc, List.cons_append] at hcut ⊢
      exact Scan.cut_congr hcut _
    · rw [trimStart_eq_self_iff, hvalue.head, ← trimStart_eq_self_iff]
      exact htrim
  · exact h.lengthened hw hwne hvalue (isCustomProperty_of_plainProp hleft hprop)

/-- What scoping makes of a chunk is read again in its place. -/
theorem read_scopedChunk {before t u : Text} {k k' : Chunk} (h : Chunk.Read before t k u)
    (hk : ScopedChunk ctx k k') (ht : ∀ c ∈ t.head?, isSpace c = false) :
    ∃ t', Chunk.Read before t' k' u ∧ ∀ c ∈ t'.head?, isSpace c = false := by
  have hw := all_nameSuffix hscope
  have hwne := nameSuffix_ne_nil hne
  cases hk with
  | same => exact ⟨t, h, ht⟩
  | rule hhead =>
      cases h with
      | @openRule selector between u h =>
          exact ⟨_, .openRule (hhead.statement.congr u), hhead.noSpace_append u⟩
  | openAt hparams =>
      cases h with
      | openAt h => exact ⟨_, .openAt (h.lengthened hw hwne hparams), ht⟩
  | @atStatement r params hparams =>
      generalize hnode : Chunk.node (.atStatement r) = k at h
      cases h with
      | endedAt h =>
          obtain rfl : r = _ := Node.atStatement.inj (Chunk.node.inj hnode)
          exact ⟨_, .endedAt (h.lengthened hw hwne hparams), ht⟩
      | unendedAt h hend =>
          obtain rfl : r = _ := Node.atStatement.inj (Chunk.node.inj hnode)
          exact ⟨_, .unendedAt (h.lengthened hw hwne hparams) hend, ht⟩
      | ended => exact absurd (Chunk.node.inj hnode).symm (Chunk.plainNode_ne_atStatement _ _ _ _ r)
      | unended =>
          exact absurd (Chunk.node.inj hnode).symm (Chunk.plainNode_ne_atStatement _ _ _ _ r)
      | _ => exact absurd hnode (by simp)
  | @declaration d value hprop hvalue =>
      generalize hnode : Chunk.node (.declaration d) = k at h
      cases h with
      | @ended content blanks u h =>
          obtain ⟨hsplit, hnode'⟩ := Chunk.plainNode_eq_declaration (Chunk.node.inj hnode).symm
          obtain ⟨content', hne', hhead, hsplit', h'⟩ :=
            exists_declaration_lengthened hne hscope h hsplit hprop hvalue
          rw [← hnode' content' value hsplit']
          refine ⟨_, .ended h', ?_⟩
          rwa [List.append_assoc, List.head?_append, hhead, ← List.head?_append,
            ← List.append_assoc]
      | unended _ h hend =>
          obtain ⟨hsplit, hnode'⟩ := Chunk.plainNode_eq_declaration (Chunk.node.inj hnode).symm
          obtain ⟨content', hne', hhead, hsplit', h'⟩ :=
            exists_declaration_lengthened hne hscope h hsplit hprop hvalue
          rw [← hnode' content' value hsplit']
          refine ⟨_, .unended hne' h' hend, ?_⟩
          rwa [List.append_assoc, List.head?_append, hhead, ← List.head?_append,
            ← List.append_assoc]
      | _ => exact absurd hnode (by simp)

/-- One turn over a scoped chunk, behind which scoped chunks follow. -/
theorem read_scopedText {t u u' : Text} {k k' : Chunk}
    (h : Chunk.Read (t.takeWhile isSpace) (t.dropWhile isSpace) k u) (hk : ScopedChunk ctx k k')
    (hu : SameEnd u u') :
    Chunk.Read ((k'.text ++ u').takeWhile isSpace) ((k'.text ++ u').dropWhile isSpace) k' u' := by
  have hspace := forall_head?_dropWhile isSpace t
  have hbefore : (t.takeWhile isSpace).all isSpace = true := List.all_takeWhile
  generalize t.takeWhile isSpace = before at h hbefore
  obtain ⟨t₁, h₁, hspace₁⟩ := read_scopedChunk hne hscope h hk hspace
  obtain ⟨t₂, h₂⟩ := h₁.congr hu
  obtain ⟨body, hbody, rfl, htext⟩ := h₁.exists_append
  obtain ⟨body₂, -, rfl, htext₂⟩ := h₂.exists_append
  obtain rfl : body = body₂ := List.append_cancel_left (htext.symm.trans htext₂)
  have hhead : (body ++ u').head?.any isSpace = false := by
    obtain ⟨c, r, rfl⟩ := List.exists_cons_of_ne_nil hbody
    exact hspace₁ c rfl
  rw [htext, List.append_assoc, takeWhile_append_of_all hbefore hhead,
    dropWhile_append_of_all hbefore hhead]
  exact h₂

/-- A run over the texts of chunks takes what scoping makes of them. -/
theorem run_scopedText {t rest : Text} {cs cs' : List Chunk} (h : Run t cs rest)
    (hcs : List.Forall₂ (ScopedChunk ctx) cs cs') :
    Run (cs'.flatMap Chunk.text ++ rest) cs' rest ∧
      SameEnd t (cs'.flatMap Chunk.text ++ rest) := by
  induction h generalizing cs' with
  | nil =>
      obtain rfl := List.forall₂_nil_left_iff.1 hcs
      exact ⟨.nil, .refl _⟩
  | cons hread _ ih =>
      obtain ⟨k', ks, hk, hks, rfl⟩ := List.forall₂_cons_left_iff.1 hcs
      obtain ⟨hrun, hend⟩ := ih hks
      rw [List.flatMap_cons, List.append_assoc]
      exact ⟨.cons (read_scopedText hne hscope hread hk hend) hrun, sameEnd_scopedText hread hk⟩

end

end StyleScope.Scope
