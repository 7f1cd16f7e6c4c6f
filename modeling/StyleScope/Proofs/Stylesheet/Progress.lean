import StyleScope.Proofs.Stylesheet.Chunks

/-! # How reading gets on

Reading goes in turns. A turn steps over space and takes the chunk that stands there, and the next
turn starts with what is left. `Chunk.take` is what a turn does when nobody asks whether it gets any
further. It always does, except in front of a statement of blanks that a closing brace or the end of
the text ends (`Blocked`): such a statement leaves all of its blanks to the next turn, which stands
where this one stood. `Chunk.read?` takes the same chunk and gives up where the turn is blocked, so
a text is read to its end just when no turn is (`parse?_eq_none_iff_blocked`).

The turns that read a block and its contents are turns of the same loop; a `Run` is any number of
them in a row.
-/
namespace StyleScope.Stylesheet
open Text

/-- The statement here is blanks, and a closing brace or the end of the text ends it. -/
structure Blocked (t : Text) : Prop where
  nonempty : (cutAny t).1 ≠ []
  allBlank : (cutAny t).1.all isBlank = true
  ends : EndsBlock (cutAny t).2

namespace Chunk

/-- The rule, declaration or raw statement that was cut into what belongs to it and the text that
ends it, even if it takes nothing. -/
def takeStatement (before : Text) (p : Text × Text) : Chunk × Text :=
  let content := trimEnd p.1
  let blanks := trailingBlanks p.1
  match p.2 with
  | '{' :: rest => (openRule { before, selector := content, between := blanks }, rest)
  | ';' :: rest => (node (plainNode before content blanks true), rest)
  | rest => (node (plainNode before content [] false), blanks ++ rest)

/-- What a turn takes behind the space `before`, and where the next turn starts. -/
def take (before : Text) : Text → Chunk × Text
  | '}' :: r => (close before, r)
  | ';' :: r => (node (.raw { before, text := [], semicolon := true }), r)
  | '@' :: r => readAtRule before r
  | '/' :: '*' :: r =>
    let p := splitComment r
    (node (.comment { before, text := '/' :: '*' :: p.1 }), p.2)
  | t => takeStatement before (cutAny t)

theorem takeStatement_of_ends {before body tail : Text} (hopen : ∀ r, tail ≠ '{' :: r)
    (hsemi : ∀ r, tail ≠ ';' :: r) :
    takeStatement before (body, tail) =
      (node (plainNode before (trimEnd body) [] false), trailingBlanks body ++ tail) := by
  unfold takeStatement
  dsimp only
  split
  · next r => exact absurd rfl (hopen r)
  · next r => exact absurd rfl (hsemi r)
  · rfl

/-- A statement is refused when it takes nothing. -/
theorem statementOf?_cases (before : Text) (p : Text × Text) :
    statementOf? before p = some (takeStatement before p) ∨
      statementOf? before p = none ∧ (takeStatement before p).2 = p.1 ++ p.2 := by
  obtain ⟨body, tail⟩ := p
  unfold statementOf?
  dsimp only
  split
  · exact .inl rfl
  · exact .inl rfl
  · next hopen hsemi =>
    rw [takeStatement_of_ends hopen hsemi]
    split
    · next hempty =>
      have hsplit := trimEnd_append_trailingBlanks body
      rw [List.isEmpty_iff.1 hempty, List.nil_append] at hsplit
      exact .inr ⟨rfl, congrArg (· ++ tail) hsplit⟩
    · exact .inl rfl

theorem take_of_startsStatement {t : Text} (h : StartsStatement t) (before : Text) :
    take before t = takeStatement before (cutAny t) := by
  unfold take
  split
  · exact absurd rfl (h.head '}' rfl).1
  · exact absurd rfl (h.head ';' rfl).2.1
  · exact absurd rfl (h.head '@' rfl).2.2
  · exact absurd h.comment (by simp [startsComment])
  · rfl

theorem read?_cases (before t : Text) :
    read? before t = some (take before t) ∨
      read? before t = none ∧ (take before t).2 = t := by
  obtain ⟨r, rfl⟩ | ⟨r, rfl⟩ | ⟨r, rfl⟩ | ⟨r, rfl⟩ | hstarts := startsStatement_cases t
  · exact .inl rfl
  · exact .inl rfl
  · exact .inl rfl
  · exact .inl rfl
  · have hcases := statementOf?_cases before (cutAny t)
    rw [cutAny_append] at hcases
    rw [hstarts.read?, take_of_startsStatement hstarts]
    exact hcases

end Chunk

theorem Blocked.read? {t : Text} (h : Blocked t) (before : Text) : Chunk.read? before t = none := by
  have happ := cutAny_append t
  have hall := List.all_eq_true.1 h.allBlank
  have hne := h.nonempty
  have hend := h.ends
  generalize cutAny t = p at happ hall hne hend
  obtain ⟨_ | ⟨b, blanks⟩, rest⟩ := p
  · exact absurd rfl hne
  · rw [← happ]
    exact Chunk.read?_blanks hall hend

theorem blocked_of_read? {before t : Text} (hne : t ≠ []) (h : Chunk.read? before t = none) :
    Blocked t := by
  obtain ⟨hstatement, hclose⟩ := Chunk.read?_eq_none h
  obtain ⟨hempty, hopen, hsemi⟩ := Chunk.statementOf?_eq_none hstatement
  have hend := endsBlock_of_ends (fun _ _ => ends_of_cutAny) hopen hsemi
  refine ⟨?_, List.all_eq_true.2 ((trimEnd_eq_nil_iff _).1 hempty), hend⟩
  -- a statement without any text would start with the brace that ends it
  intro hnil
  have happ := cutAny_append t
  rw [hnil, List.nil_append] at happ
  rw [happ] at hend
  obtain rfl | ⟨r, rfl⟩ := hend.eq_nil_or_cons
  · exact hne rfl
  · exact hclose r rfl

/-- Behind blanks at the end of a block nothing can be taken but the brace that closes it. -/
theorem Chunk.Read.close_of_endsBlock {before blanks tail u : Text} {k : Chunk}
    (hblanks : blanks.all isBlank = true) (htail : EndsBlock tail)
    (h : Read before ((blanks ++ tail).dropWhile isSpace) k u) :
    k = .close before ∧ tail = '}' :: u := by
  have hread := h.read?
  rw [List.dropWhile_append] at hread
  split at hread
  · obtain rfl | ⟨r, rfl⟩ := htail.eq_nil_or_cons
    · exact absurd hread (by simp [Chunk.read?_nil])
    · obtain ⟨rfl, rfl⟩ := Prod.mk.inj (Option.some.inj hread)
      exact ⟨rfl, rfl⟩
  · next hne =>
    have hall : ∀ c ∈ blanks.dropWhile isSpace, isBlank c = true := fun c hc =>
      List.all_eq_true.1 hblanks c ((List.dropWhile_sublist isSpace).subset hc)
    cases hd : blanks.dropWhile isSpace with
    | nil => exact absurd (by simp [hd]) hne
    | cons b r =>
        rw [hd] at hread hall
        exact absurd (hread.symm.trans (Chunk.read?_blanks hall htail)) (by simp)

/-- Turns in a row: the chunks they take and the text they leave. -/
inductive Run : Text → List Chunk → Text → Prop
  | nil {t : Text} : Run t [] t
  | cons {t u rest : Text} {k : Chunk} {cs : List Chunk} :
      Chunk.Read (t.takeWhile isSpace) (t.dropWhile isSpace) k u → Run u cs rest →
      Run t (k :: cs) rest

theorem Run.length_le {t rest : Text} {cs : List Chunk} (h : Run t cs rest) :
    rest.length + cs.length ≤ t.length := by
  induction h with
  | nil => simp
  | @cons t _ _ _ _ hread _ ih =>
      have hlt := Chunk.length_read?_rest hread.read?
      have hle := (List.dropWhile_sublist isSpace (l := t)).length_le
      rw [List.length_cons]
      omega

theorem Run.chunks? {t rest : Text} {cs : List Chunk} (h : Run t cs rest) :
    Stylesheet.chunks? t = (Stylesheet.chunks? rest).map fun q => (cs ++ q.1, q.2) := by
  induction h with
  | nil => simp
  | cons hread _ ih =>
      rw [chunks?_of_read? hread.read?, ih, Option.map_map]
      rfl

theorem chunks?_of_space {t : Text} (h : t.all isSpace = true) : chunks? t = some ([], t) := by
  have hdrop : t.dropWhile isSpace = [] := List.dropWhile_eq_nil_iff.2 (List.all_eq_true.1 h)
  have htake : t.takeWhile isSpace = t := by
    have happ := List.takeWhile_append_dropWhile (p := isSpace) (l := t)
    rwa [hdrop, List.append_nil] at happ
  rw [chunks?]
  split
  · rw [htake]
  · next hcons => exact absurd (hdrop.symm.trans hcons) (by simp)

/-- The chunks of a text are those of a run that leaves only space. -/
theorem chunks?_eq_some_iff {t after : Text} {cs : List Chunk} :
    chunks? t = some (cs, after) ↔ Run t cs after ∧ after.all isSpace = true := by
  constructor
  · intro h
    fun_induction chunks? t generalizing cs with
    | case1 t hd =>
        obtain ⟨rfl, rfl⟩ : [] = cs ∧ t.takeWhile isSpace = after := by simpa using h
        have ht := List.takeWhile_append_dropWhile (p := isSpace) (l := t)
        rw [hd, List.append_nil] at ht
        exact ⟨ht.symm ▸ .nil, List.all_takeWhile⟩
    | case2 t c r hd hr => exact absurd h (by simp)
    | case3 t c r hd k rest hr ih =>
        obtain ⟨⟨ks, u⟩, hks, he⟩ := Option.map_eq_some_iff.1 h
        obtain ⟨rfl, rfl⟩ : k :: ks = cs ∧ u = after := by simpa using he
        obtain ⟨hrun, hspace⟩ := ih hks
        exact ⟨.cons (hd ▸ Chunk.read_of_read? hr) hrun, hspace⟩
  · rintro ⟨hrun, hspace⟩
    rw [hrun.chunks?, chunks?_of_space hspace]
    simp

theorem exists_run_of_chunks?_eq_none {t : Text} (h : chunks? t = none) :
    ∃ cs rest, Run t cs rest ∧ Blocked (rest.dropWhile isSpace) := by
  fun_induction chunks? t with
  | case1 t hd => exact absurd h (by simp)
  | case2 t c r hd hr => exact ⟨[], t, .nil, hd ▸ blocked_of_read? (by simp) hr⟩
  | case3 t c r hd k rest hr ih =>
      obtain ⟨cs, u, hrun, hblocked⟩ := ih (by simpa using h)
      exact ⟨k :: cs, u, .cons (hd ▸ Chunk.read_of_read? hr) hrun, hblocked⟩

theorem Blocked.ne_nil {t : Text} (h : Blocked t) : t ≠ [] := by
  rintro rfl
  exact h.nonempty rfl

theorem parse?_eq_none_iff_blocked (t : Text) :
    parse? t = none ↔ ∃ cs rest, Run t cs rest ∧ Blocked (rest.dropWhile isSpace) := by
  rw [parse?, Option.map_eq_none_iff]
  refine ⟨exists_run_of_chunks?_eq_none, ?_⟩
  rintro ⟨cs, rest, hrun, hblocked⟩
  rw [hrun.chunks?, chunks?_of_read?_eq_none hblocked.ne_nil (hblocked.read? _), Option.map_none]

/-- A turn that takes nothing is refused and any other turn gets further, so reading ends unless a
run of turns comes to a blocked one. No turn is blocked in a text whose blanks are all space. -/
theorem parse?_progress (t : Text) :
    (∀ before u : Text, u ≠ [] →
      (¬Blocked u ∧ Chunk.read? before u = some (Chunk.take before u) ∧
          (Chunk.take before u).2.length < u.length) ∨
        (Blocked u ∧ Chunk.read? before u = none ∧ (Chunk.take before u).2 = u)) ∧
      (∀ cs rest, Run t cs rest → cs ≠ [] → rest.length < t.length) ∧
      (parse? t = none ↔ ∃ cs rest, Run t cs rest ∧ Blocked (rest.dropWhile isSpace)) ∧
      ((∀ c ∈ t, isBlank c = true → isSpace c = true) → ∃ s, parse? t = some s) := by
  refine ⟨?_, ?_, parse?_eq_none_iff_blocked t, ?_⟩
  · intro before u hne
    rcases Chunk.read?_cases before u with hsome | ⟨hnone, htake⟩
    · refine .inl ⟨?_, hsome, Chunk.length_read?_rest hsome⟩
      intro hblocked
      exact absurd (hblocked.read? before) (by simp [hsome])
    · exact .inr ⟨blocked_of_read? hne hnone, hnone, htake⟩
  · intro cs rest hrun hne
    have hlength := hrun.length_le
    have hpos := List.length_pos_iff.2 hne
    omega
  · intro hspace
    apply Option.ne_none_iff_exists'.1
    intro hnone
    obtain ⟨c, hc, hblank, hns⟩ := ((parse?_eq_none_iff t).1 hnone).exists_blank
    exact absurd (hspace c hc hblank) (by simp [hns])

/-- A no-break space between braces is left where it stands, and a plain one is read. -/
theorem parse?_progress_blanks :
    (Chunk.take [] "\u00a0\x7d".toList).2 = "\u00a0\x7d".toList ∧
      parse? "b\x7b\u00a0\x7d".toList = none ∧ ∃ s, parse? "b\x7b \x7d".toList = some s := by
  have hblocked : Blocked "\u00a0\x7d".toList := by
    have hcut : cutAny "\u00a0\x7d".toList = (['\u00a0'], ['}']) := by decide
    refine ⟨by decide, by decide, ?_⟩
    rw [hcut, EndsBlock]
    simp
  refine ⟨?_, ?_, ?_⟩
  · rcases (parse?_progress []).1 [] "\u00a0\x7d".toList (by decide) with h | h
    · exact absurd hblocked h.1
    · exact h.2.2
  · apply (parse?_progress _).2.2.1.2
    refine ⟨[.openRule { before := [], selector := ['b'], between := [] }], "\u00a0\x7d".toList, ?_,
      hblocked⟩
    exact .cons (Chunk.read_of_read? rfl) .nil
  · have hall : ("b\x7b \x7d".toList.all fun c => !isBlank c || isSpace c) = true := by decide
    refine (parse?_progress _).2.2.2 fun c hc hblank => ?_
    have hspace := List.all_eq_true.1 hall c hc
    simpa [hblank] using hspace

end StyleScope.Stylesheet
