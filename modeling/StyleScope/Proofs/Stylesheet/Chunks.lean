import StyleScope.Proofs.Stylesheet.RoundTrip
import StyleScope.Proofs.Text.Scans
import StyleScope.Proofs.Text.Trimming

/-! # What a chunk is read from

Reading a chunk looks ahead without bound: for the colon of a custom property, for the end of a
comment, for whatever ends a statement. `Chunk.Read` says in one rule for each kind of chunk what
has to stand in the text, and reading is exactly that (`Chunk.read_of_read?`, `Chunk.Read.read?`).

Behind what ends a statement nothing is looked at (`IsStatement.congr`, `IsPrelude.congr`). So a
chunk is read in the same way when text is added behind it, unless the text it was read from ended
before the chunk did (`Chunk.Read.append`).
-/
namespace StyleScope.Stylesheet
open Text

/-- A statement can start here that is no at-rule: first comes no closing brace, no semicolon, no
at-sign and no comment. -/
structure StartsStatement (t : Text) : Prop where
  head : ∀ c ∈ t.head?, c ≠ '}' ∧ c ≠ ';' ∧ c ≠ '@'
  comment : startsComment t = false

def EndsStatement (c : Char) : Prop := c = '{' ∨ c = '}' ∨ c = ';'

/-- The block ends here, or the text does. -/
def EndsBlock (t : Text) : Prop := ∀ c ∈ t.head?, c = '}'

/-- A statement and the blanks behind it, cut off in front of `tail`. -/
structure IsStatement (content blanks tail : Text) : Prop where
  starts : StartsStatement (content ++ blanks ++ tail)
  trimmed : trimEnd content = content
  allBlank : blanks.all isBlank = true
  cut : cutAny (content ++ blanks ++ tail) = (content ++ blanks, tail)

/-- The name and the parameters of an at-rule and the blanks behind them, cut off in front of
`tail`. -/
structure IsPrelude (name afterName params blanks tail : Text) : Prop where
  allName : name.all isNamePart = true
  nameEnds : (afterName ++ params ++ blanks ++ tail).head?.any isNamePart = false
  allBlankBefore : afterName.all isBlank = true
  trimmed : Trimmed params
  bare : params = [] → afterName = []
  allBlank : blanks.all isBlank = true
  cut : cutStatement (afterName ++ params ++ blanks ++ tail) =
    (afterName ++ params ++ blanks, tail)

/-- What is read off a text that stands behind the space `before`: a chunk, and what is left. -/
inductive Chunk.Read (before : Text) : Text → Chunk → Text → Prop
  | close {u : Text} : Read before ('}' :: u) (.close before) u
  | empty {u : Text} :
      Read before (';' :: u) (.node (.raw { before, text := [], semicolon := true })) u
  | comment {body u : Text} : commentScan.Passes false body →
      commentScan.after false body = true →
      Read before ('/' :: '*' :: (body ++ '/' :: u))
        (.node (.comment { before, text := '/' :: '*' :: (body ++ ['/']) })) u
  | openComment {body : Text} : commentScan.Passes false body →
      Read before ('/' :: '*' :: body) (.node (.comment { before, text := '/' :: '*' :: body })) []
  | openAt {name afterName params between u : Text} :
      IsPrelude name afterName params between ('{' :: u) →
      Read before ('@' :: (name ++ (afterName ++ params ++ between ++ '{' :: u)))
        (.openAt { before, name, afterName, params, between }) u
  | endedAt {name afterName params between u : Text} :
      IsPrelude name afterName params between (';' :: u) →
      Read before ('@' :: (name ++ (afterName ++ params ++ between ++ ';' :: u)))
        (.node (.atStatement { before, name, afterName, params, between, semicolon := true })) u
  | unendedAt {name afterName params blanks tail : Text} :
      IsPrelude name afterName params blanks tail → EndsBlock tail →
      Read before ('@' :: (name ++ (afterName ++ params ++ blanks ++ tail)))
        (.node (.atStatement { before, name, afterName, params, between := [] })) (blanks ++ tail)
  | openRule {selector between u : Text} : IsStatement selector between ('{' :: u) →
      Read before (selector ++ between ++ '{' :: u) (.openRule { before, selector, between }) u
  | ended {content blanks u : Text} : IsStatement content blanks (';' :: u) →
      Read before (content ++ blanks ++ ';' :: u)
        (.node (Chunk.plainNode before content blanks true)) u
  | unended {content blanks tail : Text} : content ≠ [] → IsStatement content blanks tail →
      EndsBlock tail →
      Read before (content ++ blanks ++ tail)
        (.node (Chunk.plainNode before content [] false)) (blanks ++ tail)

theorem isStatement_cutAny {t : Text} (h : StartsStatement t) :
    IsStatement (trimEnd (cutAny t).1) (trailingBlanks (cutAny t).1) (cutAny t).2 := by
  have ht : trimEnd (cutAny t).1 ++ trailingBlanks (cutAny t).1 ++ (cutAny t).2 = t := by
    rw [trimEnd_append_trailingBlanks, cutAny_append]
  constructor
  · rwa [ht]
  · exact trimEnd_trimEnd _
  · exact all_trailingBlanks _
  · rw [ht, trimEnd_append_trailingBlanks]

theorem isPrelude_cutStatement (t : Text) :
    let p := cutStatement (t.dropWhile isNamePart)
    IsPrelude (t.takeWhile isNamePart) (leadingBlanks (trimEnd p.1)) (trimStart (trimEnd p.1))
      (trailingBlanks p.1) p.2 := by
  intro p
  have hp : leadingBlanks (trimEnd p.1) ++ trimStart (trimEnd p.1) ++ trailingBlanks p.1 = p.1 := by
    rw [leadingBlanks_append_trimStart, trimEnd_append_trailingBlanks]
  have ht : p.1 ++ p.2 = t.dropWhile isNamePart := cutStatement_append _
  constructor
  · exact List.all_takeWhile
  · rw [hp, ht]
    exact any_head?_dropWhile isNamePart t
  · exact List.all_takeWhile
  · exact trimmed_trim p.1
  · exact leadingBlanks_of_trim_eq_nil
  · exact all_trailingBlanks _
  · rw [hp, ht]

theorem ends_of_cutStatement {t r : Text} {c : Char} (h : (cutStatement t).2 = c :: r) :
    EndsStatement c :=
  ends_of_statementScan (Scan.cut_stops statementScan {} t h)

/-- What is left where a scan for the end of a statement stops, unless it starts with an opening
brace or a semicolon. -/
theorem endsBlock_of_ends {t : Text} (h : ∀ c r, t = c :: r → EndsStatement c)
    (hopen : ∀ r, t ≠ '{' :: r) (hsemi : ∀ r, t ≠ ';' :: r) : EndsBlock t := by
  intro c hc
  obtain ⟨r, hr⟩ := List.head?_eq_some_iff.1 hc
  rcases h c r hr with rfl | rfl | rfl
  · exact absurd hr (hopen r)
  · rfl
  · exact absurd hr (hsemi r)

theorem Chunk.read_atRuleOf (before : Text) {name body tail : Text}
    (h : IsPrelude name (leadingBlanks (trimEnd body)) (trim body) (trailingBlanks body) tail)
    (hends : ∀ c r, tail = c :: r → EndsStatement c) :
    Read before ('@' :: (name ++ (body ++ tail))) (atRuleOf before name (body, tail)).1
      (atRuleOf before name (body, tail)).2 := by
  have hbody : leadingBlanks (trimEnd body) ++ trim body ++ trailingBlanks body = body := by
    rw [trim, leadingBlanks_append_trimStart, trimEnd_append_trailingBlanks]
  have hread : ∀ {k u}, Read before ('@' :: (name ++ (leadingBlanks (trimEnd body) ++ trim body ++
      trailingBlanks body ++ tail))) k u → Read before ('@' :: (name ++ (body ++ tail))) k u := by
    intro k u hk
    rwa [hbody] at hk
  apply hread
  unfold atRuleOf
  dsimp only
  split
  · exact .openAt h
  · exact .endedAt h
  · next hopen hsemi => exact .unendedAt h (endsBlock_of_ends hends hopen hsemi)

theorem Chunk.read_readAtRule (before t : Text) :
    Read before ('@' :: t) (readAtRule before t).1 (readAtRule before t).2 := by
  have hread := read_atRuleOf before (isPrelude_cutStatement t) fun _ _ => ends_of_cutStatement
  rwa [cutStatement_append, List.takeWhile_append_dropWhile] at hread

theorem Chunk.read_of_readStatement? {before t u : Text} {k : Chunk} (h : StartsStatement t)
    (hk : readStatement? before t = some (k, u)) : Read before t k u := by
  have hstatement := isStatement_cutAny h
  have hends := fun c r => ends_of_cutAny (t := t) (c := c) (r := r)
  have ht : trimEnd (cutAny t).1 ++ trailingBlanks (cutAny t).1 ++ (cutAny t).2 = t := by
    rw [trimEnd_append_trailingBlanks, cutAny_append]
  unfold readStatement? statementOf? at hk
  dsimp only at hk
  rw [← ht]
  clear ht
  generalize cutAny t = p at *
  obtain ⟨body, tail⟩ := p
  dsimp only at hstatement hends hk ⊢
  split at hk
  · obtain ⟨rfl, rfl⟩ := Prod.mk.inj (Option.some.inj hk)
    exact .openRule hstatement
  · obtain ⟨rfl, rfl⟩ := Prod.mk.inj (Option.some.inj hk)
    exact .ended hstatement
  · next hopen hsemi =>
    split at hk
    · exact absurd hk (by simp)
    · next hne =>
      obtain ⟨rfl, rfl⟩ := Prod.mk.inj (Option.some.inj hk)
      exact .unended (mt List.isEmpty_iff.2 hne) hstatement (endsBlock_of_ends hends hopen hsemi)

/-- The ways in which a text can go on. -/
theorem startsStatement_cases (t : Text) :
    (∃ r, t = '}' :: r) ∨ (∃ r, t = ';' :: r) ∨ (∃ r, t = '@' :: r) ∨ (∃ r, t = '/' :: '*' :: r) ∨
      StartsStatement t := by
  by_cases hcomment : startsComment t = true
  · exact .inr (.inr (.inr (.inl (startsComment_eq_true_iff.1 hcomment))))
  · by_cases hhead : ∀ c ∈ t.head?, c ≠ '}' ∧ c ≠ ';' ∧ c ≠ '@'
    · exact .inr (.inr (.inr (.inr ⟨hhead, by simpa using hcomment⟩)))
    · cases t with
      | nil => exact absurd hhead (by simp)
      | cons c r =>
          have hc : c = '}' ∨ c = ';' ∨ c = '@' := by
            by_contra hne
            exact hhead (by simpa [not_or] using hne)
          rcases hc with rfl | rfl | rfl
          · exact .inl ⟨r, rfl⟩
          · exact .inr (.inl ⟨r, rfl⟩)
          · exact .inr (.inr (.inl ⟨r, rfl⟩))

theorem StartsStatement.read? {t : Text} (h : StartsStatement t) (before : Text) :
    Chunk.read? before t = Chunk.readStatement? before t := by
  unfold Chunk.read?
  split
  · exact absurd rfl (h.head '}' rfl).1
  · exact absurd rfl (h.head ';' rfl).2.1
  · exact absurd rfl (h.head '@' rfl).2.2
  · exact absurd h.comment (by simp [startsComment])
  · rfl

theorem Chunk.read_of_read? {before t u : Text} {k : Chunk} (h : read? before t = some (k, u)) :
    Read before t k u := by
  obtain ⟨r, rfl⟩ | ⟨r, rfl⟩ | ⟨r, rfl⟩ | ⟨r, rfl⟩ | hstarts := startsStatement_cases t
  · obtain ⟨rfl, rfl⟩ := Prod.mk.inj (Option.some.inj h)
    exact .close
  · obtain ⟨rfl, rfl⟩ := Prod.mk.inj (Option.some.inj h)
    exact .empty
  · have hread := read_readAtRule before r
    rwa [Option.some.inj h] at hread
  · have hcomment := Prod.mk.inj (Option.some.inj h)
    obtain ⟨body, rest, rfl, hpass, hstar, hsplit⟩ | ⟨hpass, hsplit⟩ := splitComment_cases r
    · rw [hsplit] at hcomment
      obtain ⟨rfl, rfl⟩ := hcomment
      exact .comment hpass hstar
    · rw [hsplit] at hcomment
      obtain ⟨rfl, rfl⟩ := hcomment
      exact .openComment hpass
  · rw [hstarts.read?] at h
    exact read_of_readStatement? hstarts h

theorem IsPrelude.readAtRule (before : Text) {name afterName params blanks tail : Text} :
    IsPrelude name afterName params blanks tail →
    Chunk.readAtRule before (name ++ (afterName ++ params ++ blanks ++ tail)) =
      let rule : AtRule := { before, name, afterName, params, between := blanks }
      match tail with
      | '{' :: rest => (.openAt rule, rest)
      | ';' :: rest => (.node (.atStatement { rule with semicolon := true }), rest)
      | rest => (.node (.atStatement { rule with between := [] }), blanks ++ rest) := by
  intro h
  have hend : trimEnd (afterName ++ params) = afterName ++ params := by
    by_cases hnil : params = []
    · rw [hnil, h.bare hnil]
      rfl
    · exact trimEnd_append afterName hnil h.trimmed.2
  rewrite [Chunk.readAtRule, takeWhile_append_of_all h.allName h.nameEnds,
    dropWhile_append_of_all h.allName h.nameEnds, h.cut, Chunk.atRuleOf,
    trimEnd_append_blanks h.allBlank hend, trailingBlanks_append_blanks h.allBlank hend,
    leadingBlanks_blanks_append h.allBlankBefore h.trimmed.1,
    trimStart_blanks_append h.allBlankBefore h.trimmed.1]
  rfl

theorem IsStatement.read? (before : Text) {content blanks tail : Text} :
    IsStatement content blanks tail →
    Chunk.read? before (content ++ blanks ++ tail) =
      match tail with
      | '{' :: rest => some (.openRule { before, selector := content, between := blanks }, rest)
      | ';' :: rest => some (.node (Chunk.plainNode before content blanks true), rest)
      | rest =>
        if content.isEmpty then none
        else some (.node (Chunk.plainNode before content [] false), blanks ++ rest) := by
  intro h
  rewrite [h.starts.read?, Chunk.readStatement?, h.cut, Chunk.statementOf?,
    trimEnd_append_blanks h.allBlank h.trimmed, trailingBlanks_append_blanks h.allBlank h.trimmed]
  rfl

theorem EndsBlock.eq_nil_or_cons {t : Text} (h : EndsBlock t) : t = [] ∨ ∃ r, t = '}' :: r := by
  cases t with
  | nil => exact .inl rfl
  | cons c r =>
      obtain rfl : c = '}' := h c rfl
      exact .inr ⟨r, rfl⟩

theorem Chunk.Read.read? {before t u : Text} {k : Chunk} (h : Read before t k u) :
    Chunk.read? before t = some (k, u) := by
  cases h with
  | close => rfl
  | empty => rfl
  | comment hpass hstar => simp [Chunk.read?, splitComment_closed hpass hstar]
  | openComment hpass => simp [Chunk.read?, splitComment_open hpass]
  | openAt h => exact congrArg some (h.readAtRule before)
  | endedAt h => exact congrArg some (h.readAtRule before)
  | unendedAt h hend =>
      obtain rfl | ⟨r, rfl⟩ := hend.eq_nil_or_cons
      · exact congrArg some (h.readAtRule before)
      · exact congrArg some (h.readAtRule before)
  | openRule h => exact h.read? before
  | ended h => exact h.read? before
  | unended hne h hend =>
      have hempty : ¬_ := mt List.isEmpty_iff.1 hne
      obtain rfl | ⟨r, rfl⟩ := hend.eq_nil_or_cons
      · exact (h.read? before).trans (if_neg hempty)
      · exact (h.read? before).trans (if_neg hempty)

/-! ### What is not looked at -/

theorem isCustomProperty_eq_true_iff {t : Text} :
    isCustomProperty t = true ↔
      ∃ r, t = '-' :: '-' :: r ∧ (trimStart (r.dropWhile isNamePart)).head? = some ':' := by
  unfold isCustomProperty
  split
  · next r => simp
  · next hne =>
    constructor
    · intro h
      exact absurd h (by simp)
    · rintro ⟨r, rfl, -⟩
      exact absurd rfl (hne r)

/-- No one who wants to know what a text starts with looks past this character. -/
def EndsLook (c : Char) : Prop := c = ':' ∨ EndsStatement c

section
variable {c : Char} (hc : EndsLook c)
include hc

theorem EndsLook.isNamePart : isNamePart c = false := by
  rcases hc with rfl | rfl | rfl | rfl <;> decide

theorem EndsLook.isBlank : isBlank c = false := by
  rcases hc with rfl | rfl | rfl | rfl <;> decide

theorem startsComment_congr (t u v : Text) :
    startsComment (t ++ c :: u) = startsComment (t ++ c :: v) := by
  have hslash : c ≠ '/' ∧ c ≠ '*' := by
    rcases hc with rfl | rfl | rfl | rfl <;> decide
  rw [Bool.eq_iff_iff, startsComment_eq_true_iff, startsComment_eq_true_iff]
  match t with
  | [] => simp [hslash]
  | [d] => simp [hslash]
  | d :: e :: r => simp

theorem StartsStatement.congr {t u : Text} (h : StartsStatement (t ++ c :: u)) (v : Text) :
    StartsStatement (t ++ c :: v) := by
  constructor
  · have hhead := h.head
    rw [List.head?_append, List.head?_cons] at hhead ⊢
    exact hhead
  · rw [startsComment_congr hc t v u]
    exact h.comment

theorem isCustomProperty_congr (t u v : Text) :
    isCustomProperty (t ++ c :: u) = isCustomProperty (t ++ c :: v) := by
  have hhyphen : c ≠ '-' := by
    rcases hc with rfl | rfl | rfl | rfl <;> decide
  have hhead (r w : Text) : (trimStart ((r ++ c :: w).dropWhile isNamePart)).head? =
      ((r.dropWhile isNamePart).dropWhile isBlank).head?.or (some c) := by
    rw [trimStart, dropWhile_append_cons hc.isNamePart, dropWhile_append_cons hc.isBlank,
      List.head?_append, List.head?_cons]
  rw [Bool.eq_iff_iff, isCustomProperty_eq_true_iff, isCustomProperty_eq_true_iff]
  cases t with
  | nil => simp [hhyphen]
  | cons d t =>
      cases t with
      | nil => simp [hhyphen]
      | cons e r => simp [hhead, and_assoc]

end

theorem cutAny_congr {a u : Text} {c : Char} (h : cutAny (a ++ c :: u) = (a, c :: u)) (v : Text) :
    cutAny (a ++ c :: v) = (a, c :: v) := by
  have hc : EndsStatement c := ends_of_cutAny (congrArg Prod.snd h)
  unfold cutAny at h ⊢
  rw [isCustomProperty_congr (.inr hc) a v u]
  split at h
  · next hcustom =>
    rw [if_pos hcustom]
    exact Scan.cut_congr h v
  · next hcustom =>
    rw [if_neg hcustom]
    exact Scan.cut_congr h v

theorem IsStatement.endsStatement {content blanks u : Text} {c : Char}
    (h : IsStatement content blanks (c :: u)) : EndsStatement c :=
  ends_of_cutAny (congrArg Prod.snd h.cut)

/-- Nothing is looked at behind the character that ends a statement. -/
theorem IsStatement.congr {content blanks u : Text} {c : Char}
    (h : IsStatement content blanks (c :: u)) (v : Text) : IsStatement content blanks (c :: v) where
  starts := h.starts.congr (.inr h.endsStatement) v
  trimmed := h.trimmed
  allBlank := h.allBlank
  cut := cutAny_congr h.cut v

theorem IsPrelude.congr {name afterName params blanks u : Text} {c : Char}
    (h : IsPrelude name afterName params blanks (c :: u)) (v : Text) :
    IsPrelude name afterName params blanks (c :: v) where
  allName := h.allName
  nameEnds := by
    have hends := h.nameEnds
    rw [List.head?_append, List.head?_cons] at hends ⊢
    exact hends
  allBlankBefore := h.allBlankBefore
  trimmed := h.trimmed
  bare := h.bare
  allBlank := h.allBlank
  cut := Scan.cut_congr h.cut v

/-- The statement brings along what ends it. -/
def Node.SelfTerminated : Node → Prop
  | .rule r _ => r.closed = true
  | .atBlock r _ => r.closed = true
  | .atStatement r => r.semicolon = true
  | .declaration d => d.semicolon = true
  | .comment c => ∃ body, c.text = '/' :: '*' :: (body ++ ['*', '/'])
  | .raw r => r.semicolon = true ∨ r.text = ['}']

/-- An open comment does not hold what would close it. -/
theorem not_passes_commentScan (body : Text) :
    ¬commentScan.Passes false (body ++ ['*', '/']) := by
  intro h
  have hslash := (Scan.passes_append.1 h).2
  rw [Scan.passes_cons, Scan.passes_cons] at hslash
  exact absurd hslash.2.1 (by simp [commentScan])

theorem IsStatement.not_selfTerminated {content blanks tail : Text} (before : Text)
    (hne : content ≠ []) (h : IsStatement content blanks tail) :
    ¬(Chunk.plainNode before content [] false).SelfTerminated := by
  have hclose : content ≠ ['}'] := by
    rintro rfl
    exact (h.starts.head '}' rfl).1 rfl
  unfold Chunk.plainNode
  split
  · simp [Node.SelfTerminated]
  · simpa [Node.SelfTerminated] using hclose

/-- Text added behind does not change what was read, unless the text ended before the chunk did:
then only blanks are left. -/
theorem Chunk.Read.append {before t u : Text} {k : Chunk} (h : Read before t k u) :
    (∀ v, Read before (t ++ v) k (u ++ v)) ∨
      (∃ n, k = .node n ∧ ¬n.SelfTerminated) ∧ u.all isBlank = true := by
  cases h with
  | close => exact .inl fun v => .close
  | empty => exact .inl fun v => .empty
  | @comment body _ hpass hstar =>
      left
      intro v
      simp only [List.cons_append, List.append_assoc]
      exact .comment hpass hstar
  | openComment hpass =>
      right
      refine ⟨⟨_, rfl, ?_⟩, rfl⟩
      rintro ⟨body, hbody⟩
      injection hbody with _ hbody
      injection hbody with _ hbody
      rw [hbody] at hpass
      exact not_passes_commentScan body hpass
  | @openAt name afterName params between u h =>
      left
      intro v
      have hread : Read before _ _ _ := .openAt (h.congr (u ++ v))
      simpa only [List.cons_append, List.append_assoc] using hread
  | @endedAt name afterName params between u h =>
      left
      intro v
      have hread : Read before _ _ _ := .endedAt (h.congr (u ++ v))
      simpa only [List.cons_append, List.append_assoc] using hread
  | @unendedAt name afterName params blanks tail h hend =>
      obtain rfl | ⟨r, rfl⟩ := hend.eq_nil_or_cons
      · right
        refine ⟨⟨_, rfl, by simp [Node.SelfTerminated]⟩, ?_⟩
        rw [List.append_nil]
        exact h.allBlank
      · left
        intro v
        have hread : Read before _ _ _ := .unendedAt (h.congr (r ++ v)) (by simp [EndsBlock])
        simpa only [List.cons_append, List.append_assoc] using hread
  | @openRule selector between u h =>
      left
      intro v
      have hread : Read before _ _ _ := .openRule (h.congr (u ++ v))
      simpa only [List.cons_append, List.append_assoc] using hread
  | @ended content blanks u h =>
      left
      intro v
      have hread : Read before _ _ _ := .ended (h.congr (u ++ v))
      simpa only [List.cons_append, List.append_assoc] using hread
  | @unended content blanks tail hne h hend =>
      obtain rfl | ⟨r, rfl⟩ := hend.eq_nil_or_cons
      · right
        refine ⟨⟨_, rfl, h.not_selfTerminated before hne⟩, ?_⟩
        rw [List.append_nil]
        exact h.allBlank
      · left
        intro v
        have hread : Read before _ _ _ := .unended hne (h.congr (r ++ v)) (by simp [EndsBlock])
        simpa only [List.cons_append, List.append_assoc] using hread

end StyleScope.Stylesheet
