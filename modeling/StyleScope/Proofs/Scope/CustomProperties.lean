import StyleScope.Proofs.Scope.ScopedText
import StyleScope.Proofs.Stylesheet.CustomEnds

/-! # Custom properties

A statement that opens with `--`, a name and a colon is a declaration, whatever braces its value
holds, for the three scans that look at it agree. The test at its start sees the colon. The scan for
its end passes over that colon, as there is nothing in front of it but name characters and blanks.
The search for the colon finds the same one (`read?_customProperty`).

The declarations of a sheet are those among its chunks, in the order of the text
(`declarations_of_chunks?`), and scoping leaves alone those that are no animations. A property with
two hyphens in front has no vendor name that could be taken off, so it is none
(`renameDeclaration_hyphens`).
-/
namespace StyleScope.Stylesheet
open Text

/-- The signs that some scan over a custom property looks for. -/
def customSigns : List Char := ':' :: '{' :: '}' :: ';' :: nestingSigns

theorem trimEnd_append_cons {c : Char} (hc : isBlank c = false) (u t : Text) :
    trimEnd (u ++ c :: t) = u ++ c :: trimEnd t := by
  have hdrop := dropWhile_append_cons hc t.reverse u.reverse
  rw [trimEnd, List.reverse_append, List.reverse_cons, List.append_assoc, List.singleton_append,
    hdrop]
  simp [trimEnd]

section
variable {lead value : Text}

theorem rests_customScan (h : ∀ c ∈ lead, c ∉ customSigns) :
    customScan.Rests {} (lead ++ [':']) := by
  have hrests {c : Char} (hc : c ∉ '{' :: '}' :: ';' :: nestingSigns) :
      customScan.Rests {} [c] := by
    simp only [List.mem_cons, not_or] at hc
    have hnext := Nesting.next_of_not_mem statementDialect hc.2.2.2 0
    refine ⟨Scan.passes_cons.2 ⟨?_, Scan.passes_nil⟩, ?_⟩
    · simp [customScan, hc.2.1, hc.2.2.1]
    · simp [customScan, hnext, hc.1, hc.2.1]
  refine (Scan.rests_of_forall_singleton fun c hc => hrests ?_).append (hrests (by decide))
  exact fun hsign => h c hc (List.mem_cons_of_mem _ hsign)

theorem cutAtTop_lead (h : ∀ c ∈ lead, c ∉ customSigns) :
    cutAtTop colonDialect ':' (lead ++ ':' :: value) = (lead, ':' :: value) := by
  have hrests : (topScan colonDialect ':').Rests {} lead := by
    refine Scan.rests_of_forall (k := colonDialect) rfl fun c hc => ?_
    have hsigns := h c hc
    simp only [customSigns, List.mem_cons, not_or] at hsigns
    exact ⟨hsigns.2.2.2.2, by simp [topScan, hsigns.1]⟩
  refine Scan.cut_eq_cons_iff.2 ⟨rfl, hrests.1, ?_⟩
  rw [hrests.2]
  rfl

/-- A content whose first colon has nothing but ordinary characters in front is a declaration. -/
theorem plainNode_lead (h : ∀ c ∈ lead, c ∉ customSigns) (value before afterValue : Text)
    (semicolon : Bool) :
    ∃ d, Chunk.plainNode before (lead ++ ':' :: value) afterValue semicolon = .declaration d ∧
      d.prop = trimEnd lead ∧ d.semicolon = semicolon ∧
      d.text = before ++ (lead ++ ':' :: value) ++ afterValue ++ semicolonText semicolon := by
  have htext := Chunk.plainNode_text before (lead ++ ':' :: value) afterValue semicolon
  rw [Chunk.plainNode, splitDeclaration?, cutAtTop_lead h] at htext ⊢
  exact ⟨_, rfl, rfl, rfl, by simpa using htext⟩

end

/-- The property and its extent: `before` is the space in front, `t` the text from there on, of
which the statement takes `body`, and `rest` is what it leaves. -/
structure ReadsCustom (before t body tail : Text) (d : Declaration) (rest : Text) : Prop where
  read : Chunk.read? before t = some (.node (.declaration d), rest)
  split : body ++ tail = t
  first : EndsFirst t tail
  extent : (∃ r, tail = ';' :: r ∧ d.semicolon = true ∧ d.text = before ++ body ++ [';'] ∧ rest = r) ∨
    EndsBlock tail ∧ d.semicolon = false ∧ d.text = before ++ trimEnd body ∧
      rest = trailingBlanks body ++ tail

theorem startsStatement_of_isCustomProperty {t : Text} (h : isCustomProperty t = true) :
    StartsStatement t := by
  obtain ⟨r, rfl, -⟩ := isCustomProperty_eq_true_iff.1 h
  constructor
  · intro c hc
    obtain rfl : '-' = c := Option.some.inj hc
    decide
  · rfl

theorem exists_readsCustom {lead value : Text} (hlead : ∀ c ∈ lead, c ∉ customSigns)
    (hcustom : isCustomProperty (lead ++ ':' :: value) = true) (before : Text) :
    ∃ d rest body tail, d.prop = trimEnd lead ∧
      ReadsCustom before (lead ++ ':' :: value) body tail d rest := by
  obtain ⟨hpass, hafter⟩ := rests_customScan hlead
  have hcut : cutAny (lead ++ ':' :: value) =
      (lead ++ ':' :: (customScan.cut {} value).1, (customScan.cut {} value).2) := by
    have hcolon := Scan.cut_append_of_passes hpass (v := value)
    rw [hafter, List.append_assoc, List.append_assoc] at hcolon
    rw [cutAny, if_pos hcustom]
    exact hcolon
  have hfirst := endsFirst_cutCustomProperty (lead ++ ':' :: value)
  rw [show cutCustomProperty (lead ++ ':' :: value) = _ from (if_pos hcustom).symm.trans hcut]
    at hfirst
  have happ := cutAny_append (lead ++ ':' :: value)
  rw [hcut] at happ
  have hread := (startsStatement_of_isCustomProperty hcustom).read? before
  rw [Chunk.readStatement?, hcut] at hread
  generalize (customScan.cut {} value).1 = w at happ hread
  generalize (customScan.cut {} value).2 = tail at hfirst happ hread
  have hcontent : trimEnd (lead ++ ':' :: w) = lead ++ ':' :: trimEnd w :=
    trimEnd_append_cons (by decide) lead w
  have hunended (hend : EndsBlock tail)
      (hplain : Chunk.statementOf? before (lead ++ ':' :: w, tail) =
        if (trimEnd (lead ++ ':' :: w)).isEmpty then none
        else some (.node (Chunk.plainNode before (trimEnd (lead ++ ':' :: w)) [] false),
          trailingBlanks (lead ++ ':' :: w) ++ tail)) :
      ∃ d rest body tail, d.prop = trimEnd lead ∧
        ReadsCustom before (lead ++ ':' :: value) body tail d rest := by
    obtain ⟨d, hd, hprop, hsemicolon, htext⟩ :=
      plainNode_lead hlead (trimEnd w) before [] false
    rw [← hcontent] at hd htext
    refine ⟨d, _, lead ++ ':' :: w, tail, hprop, ?_, happ, hfirst, .inr ⟨hend, hsemicolon, ?_, rfl⟩⟩
    · rw [hread, hplain, hd, if_neg (by simp [hcontent])]
    · simpa [semicolonText] using htext
  obtain ⟨e, -, hends⟩ := hfirst.1
  cases hends with
  | text => exact hunended (by simp [EndsBlock]) rfl
  | brace => exact hunended (by simp [EndsBlock]) rfl
  | @semicolon r =>
      obtain ⟨d, hd, hprop, hsemicolon, htext⟩ :=
        plainNode_lead hlead (trimEnd w) before (trailingBlanks (lead ++ ':' :: w)) true
      rw [← hcontent] at hd htext
      refine ⟨d, r, lead ++ ':' :: w, _, hprop, ?_, happ, hfirst,
        .inl ⟨r, rfl, hsemicolon, ?_, rfl⟩⟩
      · rw [hread, ← hd]
        rfl
      · rw [htext, List.append_assoc before, trimEnd_append_trailingBlanks]
        rfl

section
variable {name blanks value : Text} (hname : name.all isNamePart = true)
  (hblanks : blanks.all isBlank = true)
include hname hblanks

theorem notMem_customSigns : ∀ c ∈ '-' :: '-' :: (name ++ blanks), c ∉ customSigns := by
  have hnameSigns : customSigns.any isNamePart = false := by decide
  have hblankSigns : customSigns.any isBlank = false := by decide
  intro c hc hsign
  have hnot := List.any_eq_false.1 hnameSigns c hsign
  simp only [List.mem_cons, List.mem_append] at hc
  rcases hc with rfl | rfl | hc | hc
  · exact hnot (by decide)
  · exact hnot (by decide)
  · exact hnot (List.all_eq_true.1 hname c hc)
  · exact List.any_eq_false.1 hblankSigns c hsign (List.all_eq_true.1 hblanks c hc)

theorem isCustomProperty_lead :
    isCustomProperty ('-' :: '-' :: (name ++ blanks ++ ':' :: value)) = true := by
  refine isCustomProperty_eq_true_iff.2 ⟨_, rfl, ?_⟩
  have hcolon : isNamePart ':' = false := by decide
  have hdrop : (name ++ blanks).dropWhile isNamePart = blanks.dropWhile isNamePart :=
    List.dropWhile_append_of_pos (List.all_eq_true.1 hname)
  have hrest : ∀ c ∈ blanks.dropWhile isNamePart, isBlank c = true := fun c hc =>
    List.all_eq_true.1 hblanks c ((List.dropWhile_sublist isNamePart).subset hc)
  rw [dropWhile_append_cons hcolon, hdrop, trimStart, List.dropWhile_append_of_pos hrest]
  rfl

/-- The test for a custom property, the scan for its end and the search for its colon agree. -/
theorem read?_customProperty (value before : Text) :
    ∃ d rest body tail, d.prop = trimEnd ('-' :: '-' :: name) ∧
      ReadsCustom before ('-' :: '-' :: (name ++ blanks ++ ':' :: value)) body tail d rest := by
  have hprop : trimEnd ('-' :: '-' :: (name ++ blanks)) = trimEnd ('-' :: '-' :: name) :=
    trimEnd_append_of_all (t := '-' :: '-' :: name) hblanks
  rw [← hprop]
  exact exists_readsCustom (notMem_customSigns hname hblanks)
    (isCustomProperty_lead hname hblanks) before

end

/-! ### The declarations of a sheet -/

def Event.declaration? : Event → Option Declaration
  | .declaration d => some d
  | _ => none

def Chunk.declaration? : Chunk → Option Declaration
  | .node (.declaration d) => some d
  | _ => none

def Sheet.declarations (s : Sheet) : List Declaration := s.events.filterMap Event.declaration?

theorem Node.declarations_of_leaf {n : Node} (h : n.blocks = []) (k : Bool) :
    (n.events k).filterMap Event.declaration? = [.node n].filterMap Chunk.declaration? := by
  cases n with
  | rule => exact absurd h (by simp [Node.blocks])
  | atBlock => exact absurd h (by simp [Node.blocks])
  | _ => rfl

/-- A block takes the declarations among its chunks, one after the other. -/
theorem Block.Built.declarations {p q : List Chunk × Text} {b : Block} (h : Built p b q)
    (hleaf : ∀ n, .node n ∈ p.1 → n.blocks = []) (k : Bool) :
    p.1.filterMap Chunk.declaration? =
      (nodesEvents k b.nodes).filterMap Event.declaration? ++
        q.1.filterMap Chunk.declaration? := by
  induction h generalizing k with
  | done => rfl
  | close => rfl
  | stray _ _ ih => exact ih (fun n hn => hleaf n (List.mem_cons_of_mem _ hn)) k
  | @node n _ cs _ _ _ ih =>
      have hn := Node.declarations_of_leaf (hleaf n List.mem_cons_self) k
      rw [Block.cons_nodes, nodesEvents, List.filterMap_append, hn, List.append_assoc,
        ← ih (fun n hn => hleaf n (List.mem_cons_of_mem _ hn)) k, ← List.filterMap_append]
      rfl
  | @block head _ cs inner _ _ _ _ hi _ ihinner ih =>
      have hinner (n : Node) (hn : .node n ∈ cs) := hleaf n (List.mem_cons_of_mem _ hn)
      have hhead : (head.chunk :: cs).filterMap Chunk.declaration? =
          cs.filterMap Chunk.declaration? := by
        cases head <;> rfl
      have hevent : (head.event k inner :: nodesEvents (head.flag k) inner.nodes).filterMap
          Event.declaration? = (nodesEvents (head.flag k) inner.nodes).filterMap
          Event.declaration? := by
        cases head <;> rfl
      rw [Block.cons_nodes, nodesEvents, List.filterMap_append, head.events_withBlock, hevent,
        List.append_assoc, ← ih (fun n hn => hinner n (hi.suffix.subset hn)) k,
        ← ihinner hinner (head.flag k)]
      exact hhead

theorem declarations_of_chunks? {t : Text} {s : Sheet} {p : List Chunk × Text}
    (hs : parse? t = some s) (hp : chunks? t = some p) :
    s.declarations = p.1.filterMap Chunk.declaration? := by
  obtain ⟨p', hp', hbuilt⟩ := parse?_eq_some_iff.1 hs
  obtain rfl : p = p' := Option.some.inj (hp.symm.trans hp')
  have hrun := (chunks?_eq_some_iff.1 hp).1
  have hdeclarations := hbuilt.declarations hrun.blocks_of_node false
  rw [hdeclarations]
  exact (List.append_nil _).symm

end StyleScope.Stylesheet

namespace StyleScope.Scope
open Text Stylesheet Animation

/-- Two hyphens in front leave no vendor name to take off. -/
theorem renameDeclaration_hyphens (table : Table) {d : Declaration} {u : Text}
    (h : d.prop = '-' :: '-' :: u) : renameDeclaration table d = d := by
  have hplain : d.plainProp = '-' :: '-' :: lower u := by
    have hlower : lower ('-' :: '-' :: u) = '-' :: '-' :: lower u := rfl
    rw [Declaration.plainProp, h, hlower]
    simp
  rw [renameDeclaration, hplain, if_neg, if_neg]
  · exact fun hname => absurd (List.cons.inj hname).1 (by decide)
  · exact fun hname => absurd (List.cons.inj hname).1 (by decide)

theorem declarations_scopeSheet (ctx : Context) (s : Sheet) :
    (scopeSheet ctx s).1.declarations =
      s.declarations.map (renameDeclaration (keyframesTable ctx s)) := by
  rw [scopeSheet_eq, Sheet.declarations, Sheet.events_map (keepsKeyframes_scopingPass ctx _),
    List.filterMap_map, Sheet.declarations, List.map_filterMap]
  refine List.filterMap_congr fun e _ => ?_
  cases e <;> rfl

/-- Wherever reading comes to `--`, a name and a colon, it reads a declaration of that property up
to the first end outside of brackets, braces, strings, comments and escapes, and scoping leaves this
declaration as it is, in the place it has among the declarations of the sheet. -/
theorem customProperty_untouched {text u name blanks value : Text} {cs : List Chunk}
    (hrun : Run text cs u)
    (hu : u.dropWhile isSpace = '-' :: '-' :: (name ++ blanks ++ ':' :: value))
    (hname : name.all isNamePart = true) (hblanks : blanks.all isBlank = true) :
    ∃ d rest body tail, d.prop = trimEnd ('-' :: '-' :: name) ∧
      ReadsCustom (u.takeWhile isSpace) (u.dropWhile isSpace) body tail d rest ∧
      ∀ s, parse? text = some s →
        s.declarations[(cs.filterMap Chunk.declaration?).length]? = some d ∧
        ∀ ctx, (scopeSheet ctx s).1.declarations[(cs.filterMap Chunk.declaration?).length]? =
          some d := by
  obtain ⟨d, rest, body, tail, hprop, hreads⟩ :=
    read?_customProperty hname hblanks value (u.takeWhile isSpace)
  rw [← hu] at hreads
  refine ⟨d, rest, body, tail, hprop, hreads, fun s hs => ?_⟩
  have hplace : s.declarations[(cs.filterMap Chunk.declaration?).length]? = some d := by
    obtain ⟨p, hp, -⟩ := parse?_eq_some_iff.1 hs
    have hchunks := hrun.chunks?
    rw [chunks?_of_read? hreads.read, Option.map_map] at hchunks
    obtain ⟨q, -, hq⟩ := Option.map_eq_some_iff.1 (hchunks.symm.trans hp)
    rw [declarations_of_chunks? hs hp, ← hq]
    simp [Chunk.declaration?]
  refine ⟨hplace, fun ctx => ?_⟩
  obtain ⟨v, hv⟩ := trimEnd_hyphens name
  rw [declarations_scopeSheet, List.getElem?_map, hplace, Option.map_some,
    renameDeclaration_hyphens _ (hprop.trans hv)]

/-- A block, a semicolon in it and a closing brace in a string belong to the value. -/
theorem customProperty_untouched_block :
    ∃ s, parse? "a\x7b--b : \x7b;\x7d'\x7d';\x7d".toList = some s ∧
      ∀ ctx, (scopeSheet ctx s).1.declarations[0]? =
        some
          { before := [], prop := "--b".toList, between := " : ".toList,
            value := "\x7b;\x7d'\x7d'".toList, afterValue := [], semicolon := true } := by
  have hrun : Run "a\x7b--b : \x7b;\x7d'\x7d';\x7d".toList
      [.openRule { before := [], selector := ['a'], between := [] }]
      "--b : \x7b;\x7d'\x7d';\x7d".toList :=
    .cons (Chunk.read_of_read? rfl) .nil
  have hsome : (parse? "a\x7b--b : \x7b;\x7d'\x7d';\x7d".toList).isSome = true := by
    decide +kernel
  obtain ⟨s, hs⟩ := Option.isSome_iff_exists.1 hsome
  have hcustom : "--b : \x7b;\x7d'\x7d';\x7d".toList.dropWhile isSpace =
      '-' :: '-' :: (['b'] ++ [' '] ++ ':' :: " \x7b;\x7d'\x7d';\x7d".toList) := by
    decide
  obtain ⟨d, rest, body, tail, -, hreads, hscoped⟩ :=
    customProperty_untouched hrun hcustom (by decide) (by decide)
  refine ⟨s, hs, fun ctx => ((hscoped s hs).2 ctx).trans ?_⟩
  obtain ⟨hd, -⟩ := Prod.mk.inj (Option.some.inj hreads.read)
  injection hd with hd
  injection hd with hd
  rw [← hd]
  decide +kernel

end StyleScope.Scope
