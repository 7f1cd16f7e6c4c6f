import Mathlib.Data.List.TakeWhile
import StyleScope.Proofs.Text.Trimming
import StyleScope.Stylesheet.Tree

/-! # Reading and writing a stylesheet

Reading keeps every character. A tree under construction has a text of its own, that of its
finished statements followed by its open blocks, and adding a chunk appends the text of the chunk
to it (`Growth.text_add`). So the sheet that is finished in the end is written as the text it was
read from, whatever the order of statements, blocks and stray braces.

A text has no sheet exactly when reading comes to a statement of blanks that nothing ends but a
closing brace or the end of the text (`Stalls`). Such a blank is never space, so a text whose blanks
are all space can always be read.
-/
namespace StyleScope.Stylesheet
open Text

def Frame.text : Frame → Text
  | .rule r ns => r.headText ++ '{' :: nodesText ns.reverse
  | .atRule r ns => r.headText ++ '{' :: nodesText ns.reverse

theorem Frame.text_push (n : Node) (f : Frame) : (f.push n).text = f.text ++ n.text := by
  cases f with
  | rule r ns => simp [Frame.push, Frame.text]
  | atRule r ns => simp [Frame.push, Frame.text]

theorem Frame.text_close (after : Text) (closed : Bool) (f : Frame) :
    (f.close after closed).text = f.text ++ after ++ braceText closed := by
  cases f with
  | rule r ns => simp [Frame.close, Frame.text, Rule.headText]
  | atRule r ns => simp [Frame.close, Frame.text, AtRule.headText]

/-- The text read so far: the finished statements, then the open blocks from the outermost on. -/
def Growth.text (g : Growth) : Text :=
  nodesText g.nodes.reverse ++ g.frames.reverse.flatMap Frame.text

theorem Growth.text_push (n : Node) (g : Growth) : (g.push n).text = g.text ++ n.text := by
  obtain ⟨frames, nodes⟩ := g
  cases frames with
  | nil => simp [Growth.push, Growth.text]
  | cons f fs => simp [Growth.push, Growth.text, Frame.text_push]

theorem Growth.text_add (g : Growth) (c : Chunk) : (g.add c).text = g.text ++ c.text := by
  cases c with
  | node n => exact g.text_push n
  | openRule r => simp [Growth.add, Growth.text, Frame.text, Chunk.text]
  | openAt r => simp [Growth.add, Growth.text, Frame.text, Chunk.text]
  | close before =>
      obtain ⟨frames, nodes⟩ := g
      cases frames with
      | nil =>
          simp only [Growth.add, Growth.text_push]
          simp [semicolonText, Chunk.text]
      | cons f fs =>
          -- the closed block becomes a statement of the block around it
          simp only [Growth.add, Growth.text_push, Frame.text_close]
          simp [Growth.text, braceText, Chunk.text]

theorem Growth.text_foldl_add (cs : List Chunk) (g : Growth) :
    (cs.foldl Growth.add g).text = g.text ++ cs.flatMap Chunk.text := by
  induction cs generalizing g with
  | nil => simp
  | cons c cs ih => simp [ih, Growth.text_add]

theorem Growth.text_closeAll (last : Node) (fs : List Frame) :
    (closeAll last fs).text = fs.reverse.flatMap Frame.text ++ last.text := by
  induction fs generalizing last with
  | nil => simp [closeAll]
  | cons f fs ih => simp [closeAll, ih, Frame.text_close, Frame.text_push, braceText]

theorem Growth.text_finish (g : Growth) (after : Text) :
    (g.finish after).text = g.text ++ after := by
  obtain ⟨frames, nodes⟩ := g
  cases frames with
  | nil => simp [Growth.finish, Sheet.text_eq, Growth.text]
  | cons f fs =>
      simp [Growth.finish, Sheet.text_eq, Growth.text, Growth.text_closeAll, Frame.text_close,
        braceText]

theorem Chunk.read?_nil (before : Text) : Chunk.read? before [] = none := rfl

/-- The chunk a text starts with comes first; the match on the text is no longer dependent. -/
theorem chunks?_of_read? {t rest : Text} {k : Chunk}
    (h : Chunk.read? (t.takeWhile isSpace) (t.dropWhile isSpace) = some (k, rest)) :
    chunks? t = (chunks? rest).map fun q => (k :: q.1, q.2) := by
  rw [chunks?]
  split
  · next hd => exact absurd (hd ▸ h) (by simp [Chunk.read?_nil])
  · next c r hd =>
    rw [hd] at h
    split
    · next hn => exact absurd (hn.symm.trans h) (by simp)
    · next k' rest' hk =>
      obtain ⟨rfl, rfl⟩ : k' = k ∧ rest' = rest := by simpa using hk.symm.trans h
      rfl

theorem chunks?_of_read?_eq_none {t : Text} (ht : t.dropWhile isSpace ≠ [])
    (h : Chunk.read? (t.takeWhile isSpace) (t.dropWhile isSpace) = none) : chunks? t = none := by
  rw [chunks?]
  split
  · next hd => exact absurd hd ht
  · next c r hd =>
    rw [hd] at h
    split
    · rfl
    · next k rest hk => exact absurd (h.symm.trans hk) (by simp)

theorem text_append_of_read? {t rest : Text} {k : Chunk}
    (h : Chunk.read? (t.takeWhile isSpace) (t.dropWhile isSpace) = some (k, rest)) :
    k.text ++ rest = t := by
  rw [(Chunk.takes_read? h).1, List.takeWhile_append_dropWhile]

theorem chunks?_text {t after : Text} {cs : List Chunk} (h : chunks? t = some (cs, after)) :
    cs.flatMap Chunk.text ++ after = t := by
  fun_induction chunks? t generalizing cs with
  | case1 t hd =>
      obtain ⟨rfl, rfl⟩ : [] = cs ∧ t.takeWhile isSpace = after := by simpa using h
      have ht := List.takeWhile_append_dropWhile (p := isSpace) (l := t)
      rwa [hd, List.append_nil] at ht
  | case2 t c r hd hr => exact absurd h (by simp)
  | case3 t c r hd k rest hr ih =>
      obtain ⟨⟨ks, u⟩, hks, he⟩ := Option.map_eq_some_iff.1 h
      obtain ⟨rfl, rfl⟩ : k :: ks = cs ∧ u = after := by simpa using he
      calc (k :: ks).flatMap Chunk.text ++ u
          = k.text ++ (ks.flatMap Chunk.text ++ u) := by simp
        _ = k.text ++ rest := by rw [ih hks]
        _ = t := text_append_of_read? (hd ▸ hr)

/-- Writing what was read gives the text back. -/
theorem text_of_parse? {t : Text} {s : Sheet} (h : parse? t = some s) : s.text = t := by
  obtain ⟨⟨cs, after⟩, hc, rfl⟩ := Option.map_eq_some_iff.1 h
  rw [Growth.text_finish, Growth.text_foldl_add]
  exact chunks?_text hc

/-- Reading comes, after some chunks and some space, to a run of blanks that starts with no space
and is followed by a closing brace or by nothing. -/
inductive Stalls : Text → Prop
  | blanks {space blanks rest : Text} {b : Char} : (∀ c ∈ space, isSpace c = true) →
      isSpace b = false → (∀ c ∈ b :: blanks, isBlank c = true) → (∀ c ∈ rest.head?, c = '}') →
      Stalls (space ++ b :: blanks ++ rest)
  | chunk {t rest : Text} {k : Chunk} :
      Chunk.read? (t.takeWhile isSpace) (t.dropWhile isSpace) = some (k, rest) →
      Stalls rest → Stalls t

theorem ne_of_isBlank {c d : Char} (hc : isBlank c = true) (hd : isBlank d = false) : c ≠ d := by
  rintro rfl
  exact absurd hc (by simp [hd])

theorem statementScan_blank {c : Char} (h : isBlank c = true) :
    statementScan.stops {} c = false ∧ statementScan.next {} c = {} := by
  have hne (d : Char) (hd : isBlank d = false) : c ≠ d := ne_of_isBlank h hd
  constructor
  · simp [statementScan, hne '{' (by decide), hne '}' (by decide), hne ';' (by decide)]
  · simp [statementScan, Nesting.next, Cover.next, Cover.afterExposed, hne '\\' (by decide),
      hne '\'' (by decide), hne '"' (by decide), hne '/' (by decide), hne '(' (by decide),
      hne '[' (by decide), hne ')' (by decide), hne ']' (by decide)]

theorem cutStatement_blanks {blanks : Text} (rest : Text) (h : ∀ c ∈ blanks, isBlank c = true) :
    cutStatement (blanks ++ rest) = (blanks ++ (cutStatement rest).1, (cutStatement rest).2) := by
  induction blanks with
  | nil => rfl
  | cons c cs ih =>
      obtain ⟨hs, hn⟩ := statementScan_blank (h c (by simp))
      have hc := ih fun d hd => h d (by simp [hd])
      unfold cutStatement at hc ⊢
      simp [Scan.cut, hs, hn, hc]

theorem ends_of_statementScan {n : Nesting} {c : Char} (h : statementScan.stops n c = true) :
    c = '{' ∨ c = '}' ∨ c = ';' := by
  simp only [statementScan, Bool.and_eq_true, Bool.or_eq_true, decide_eq_true_eq] at h
  rcases h with ⟨-, hc | hc⟩ | ⟨-, hc⟩
  · exact .inl hc
  · exact .inr (.inl hc)
  · exact .inr (.inr hc)

theorem ends_of_customScan {n : BlockNesting} {c : Char} (h : customScan.stops n c = true) :
    c = '{' ∨ c = '}' ∨ c = ';' := by
  simp only [customScan, Bool.and_eq_true, Bool.or_eq_true, decide_eq_true_eq] at h
  rcases h with ⟨-, ⟨-, hc⟩ | ⟨-, hc⟩⟩
  · exact .inr (.inl hc)
  · exact .inr (.inr hc)

theorem ends_of_cutAny {t r : Text} {c : Char} (h : (cutAny t).2 = c :: r) :
    c = '{' ∨ c = '}' ∨ c = ';' := by
  unfold cutAny at h
  split at h
  · exact ends_of_customScan (Scan.cut_stops customScan {} t h)
  · exact ends_of_statementScan (Scan.cut_stops statementScan {} t h)

theorem Chunk.statementOf?_eq_none {before : Text} {p : Text × Text}
    (h : statementOf? before p = none) :
    trimEnd p.1 = [] ∧ (∀ r, p.2 ≠ '{' :: r) ∧ ∀ r, p.2 ≠ ';' :: r := by
  unfold statementOf? at h
  dsimp only at h
  split at h
  · exact absurd h (by simp)
  · exact absurd h (by simp)
  · next hopen hsemi =>
    split at h
    · next hempty => exact ⟨List.isEmpty_iff.1 hempty, hopen, hsemi⟩
    · exact absurd h (by simp)

theorem Chunk.read?_eq_none {before t : Text} (h : read? before t = none) :
    readStatement? before t = none ∧ ∀ r, t ≠ '}' :: r := by
  unfold read? at h
  split at h
  · exact absurd h (by simp)
  · exact absurd h (by simp)
  · exact absurd h (by simp)
  · exact absurd h (by simp)
  · next hclose _ _ _ => exact ⟨h, hclose⟩

theorem Chunk.blanks_of_read?_eq_none {before r : Text} {b : Char}
    (h : read? before (b :: r) = none) :
    ∃ blanks rest, r = blanks ++ rest ∧ (∀ c ∈ b :: blanks, isBlank c = true) ∧
      ∀ c ∈ rest.head?, c = '}' := by
  obtain ⟨hstatement, hclose⟩ := read?_eq_none h
  obtain ⟨hempty, hopen, hsemi⟩ := statementOf?_eq_none hstatement
  have happ := cutAny_append (b :: r)
  have hblank := (trimEnd_eq_nil_iff _).1 hempty
  have hend : ∀ c ∈ (cutAny (b :: r)).2.head?, c = '}' := by
    intro c hc
    obtain ⟨u, hu⟩ := List.head?_eq_some_iff.1 hc
    rcases ends_of_cutAny hu with rfl | rfl | rfl
    · exact absurd hu (hopen u)
    · rfl
    · exact absurd hu (hsemi u)
  generalize cutAny (b :: r) = p at happ hblank hend
  obtain ⟨_ | ⟨d, blanks⟩, rest⟩ := p
  · -- nothing was cut off, so the brace that ends the statement is its first character
    obtain rfl : rest = b :: r := happ
    obtain rfl : b = '}' := hend b (by simp)
    exact absurd rfl (hclose r)
  · obtain ⟨rfl, rfl⟩ := List.cons.inj happ
    exact ⟨blanks, rest, rfl, hblank, hend⟩

theorem Chunk.read?_blanks {before blanks rest : Text} {b : Char}
    (h : ∀ c ∈ b :: blanks, isBlank c = true) (hr : ∀ c ∈ rest.head?, c = '}') :
    read? before (b :: blanks ++ rest) = none := by
  have hne (d : Char) (hd : isBlank d = false) : b ≠ d := ne_of_isBlank (h b (by simp)) hd
  have hcut : cutStatement rest = ([], rest) := by
    cases rest with
    | nil => rfl
    | cons c r =>
        obtain rfl : c = '}' := hr c (by simp)
        simp [cutStatement, Scan.cut, statementScan, Cover.exposes]
  have hany : cutAny (b :: blanks ++ rest) = (b :: blanks, rest) := by
    have hcustom : isCustomProperty (b :: blanks ++ rest) = false := by
      unfold isCustomProperty
      split
      · next e => exact absurd (List.cons.inj e).1 (hne '-' (by decide))
      · rfl
    rw [cutAny, hcustom, if_neg (by simp), cutStatement_blanks rest h, hcut, List.append_nil]
  have hstatement : readStatement? before (b :: blanks ++ rest) = none := by
    rw [readStatement?, hany, statementOf?, (trimEnd_eq_nil_iff _).2 h]
    cases rest with
    | nil => rfl
    | cons c r =>
        obtain rfl : c = '}' := hr c (by simp)
        rfl
  unfold read?
  split
  · next e => exact absurd (List.cons.inj e).1 (hne '}' (by decide))
  · next e => exact absurd (List.cons.inj e).1 (hne ';' (by decide))
  · next e => exact absurd (List.cons.inj e).1 (hne '@' (by decide))
  · next e => exact absurd (List.cons.inj e).1 (hne '/' (by decide))
  · exact hstatement

theorem stalls_of_chunks?_eq_none {t : Text} (h : chunks? t = none) : Stalls t := by
  fun_induction chunks? t with
  | case1 t hd => exact absurd h (by simp)
  | case2 t b r hd hr =>
      obtain ⟨blanks, rest, rfl, hblank, hend⟩ := Chunk.blanks_of_read?_eq_none hr
      have hb : isSpace b = false := by simpa [hd] using List.head?_dropWhile_not isSpace t
      have hspace : ∀ c ∈ t.takeWhile isSpace, isSpace c = true := fun c =>
        List.all_eq_true.1 List.all_takeWhile c
      have ht : t.takeWhile isSpace ++ b :: blanks ++ rest = t := by
        rw [List.append_assoc, List.cons_append, ← hd, List.takeWhile_append_dropWhile]
      exact ht ▸ .blanks hspace hb hblank hend
  | case3 t c r hd k rest hr ih => exact .chunk (hd ▸ hr) (ih (by simpa using h))

theorem Stalls.chunks?_eq_none {t : Text} (h : Stalls t) : chunks? t = none := by
  induction h with
  | @blanks space blanks rest b hspace hb hblank hrest =>
      have htake : (space ++ b :: blanks ++ rest).takeWhile isSpace = space := by
        simp [List.takeWhile_append_of_pos hspace, hb]
      have hdrop : (space ++ b :: blanks ++ rest).dropWhile isSpace = b :: blanks ++ rest := by
        simp [List.dropWhile_append_of_pos hspace, hb]
      apply chunks?_of_read?_eq_none
      · rw [hdrop]
        simp
      · rw [htake, hdrop]
        exact Chunk.read?_blanks hblank hrest
  | chunk hr _ ih => rw [chunks?_of_read? hr, ih, Option.map_none]

theorem parse?_eq_none_iff (t : Text) : parse? t = none ↔ Stalls t := by
  rw [parse?, Option.map_eq_none_iff]
  exact ⟨stalls_of_chunks?_eq_none, Stalls.chunks?_eq_none⟩

theorem Stalls.exists_blank {t : Text} (h : Stalls t) :
    ∃ c ∈ t, isBlank c = true ∧ isSpace c = false := by
  induction h with
  | @blanks space blanks rest b _ hb hblank _ => exact ⟨b, by simp, hblank b (by simp), hb⟩
  | chunk hr _ ih =>
      obtain ⟨c, hc, hblank⟩ := ih
      refine ⟨c, ?_, hblank⟩
      rw [← text_append_of_read? hr]
      exact List.mem_append_right _ hc

/-- Reading loses nothing, and fails only where a statement of blanks would take nothing; a text
without blanks other than space is always read. -/
theorem parse?_lossless (t : Text) :
    (∀ s, parse? t = some s → s.text = t) ∧ (parse? t = none ↔ Stalls t) ∧
      ((∀ c ∈ t, isBlank c = true → isSpace c = true) → ∃ s, parse? t = some s) := by
  refine ⟨fun s h => text_of_parse? h, parse?_eq_none_iff t, ?_⟩
  intro hspace
  apply Option.ne_none_iff_exists'.1
  intro hn
  obtain ⟨c, hc, hblank, hns⟩ := ((parse?_eq_none_iff t).1 hn).exists_blank
  rw [hspace c hc hblank] at hns
  exact Bool.noConfusion hns

/-- A stray brace, an open block and a blank before a semicolon are kept; the blank alone before a
brace is what cannot be read. -/
theorem parse?_lossless_blanks :
    let t : Text := "\x7d @a\u00a0; b \x7b/* \x7d */ --c:\x7b;\x7d d:\"".toList
    (∃ s, parse? t = some s ∧ s.text = t) ∧ Stalls "b\x7b\u00a0\x7d".toList := by
  intro t
  obtain ⟨s, hs⟩ : ∃ s, parse? t = some s := Option.isSome_iff_exists.1 (by decide +kernel)
  refine ⟨⟨s, hs, (parse?_lossless t).1 s hs⟩, ?_⟩
  exact (parse?_lossless "b\x7b\u00a0\x7d".toList).2.1.1 (by decide +kernel)

end StyleScope.Stylesheet
