import StyleScope.Proofs.Offsets.Lexemes
import StyleScope.Proofs.Offsets.Values
import StyleScope.Proofs.Stylesheet.Progress

/-! # Stylesheets read at offsets

A stylesheet is read in turns. A turn steps over space, finds out where the statement there ends,
and slices the statement and its pieces out of the text: the name of an at-rule, what stands in
front of the blanks and behind them, the two sides of a colon. The offset for the next turn is that
of the end, behind the sign there, or that of the blanks in front of it.

A turn has a result at any place of any text, namely what `Chunk.take` takes there, and leaves the
offset where the next turn starts (`turn?_eq`). So reading goes on for as many turns as one likes
(`turns?_eq`), also in a text whose end it never comes to.
-/
namespace StyleScope.Offsets
open Text Selector Animation Stylesheet

/-! ### Pieces of a statement -/

/-- The blanks a text starts with, sliced off in front of what trimming leaves. -/
def leadingBlanks? (t : Text) : Option Text := do
  slice? t 0 (← checkedSub? (byteLength t) (byteLength (trimStart t)))

/-- The blanks a text ends with, sliced off behind what trimming leaves. -/
def trailingBlanks? (t : Text) : Option Text := dropBytes? t (byteLength (trimEnd t))

/-- Whether the text opens a custom property. -/
def customProperty? (t : Text) : Option Bool := do
  match t with
  | '-' :: '-' :: r =>
    return (trimStart (← dropBytes? r (← skipWhile? isNamePart r 0))).head? = some ':'
  | _ => return false

def plainNode? (before content afterValue : Text) (semicolon : Bool) : Option Node := do
  match ← colon? content with
  | some k =>
    let prop := trimEnd (← slice? content 0 k)
    let part ← dropBytes? content (k + 1)
    let between := (← slice? content (byteLength prop) k) ++ ':' :: (← leadingBlanks? part)
    return .declaration { before, prop, between, value := trimStart part, afterValue, semicolon }
  | none => return .raw { before, text := content ++ afterValue, semicolon }

/-- The at-rule whose sign stands at `n`, and the offset behind it. -/
def atRuleAt? (before input : Text) (n : Nat) : Option (Chunk × Nat) := do
  let nameStart ← advance? input n
  let nameStop ← skipWhile? isNamePart input nameStart
  let name ← slice? input nameStart nameStop
  let (stop, terminator) ← statementEnd? false input nameStop
  let text ← slice? input nameStop stop
  let body := trimEnd text
  let rule : AtRule :=
    { before, name, afterName := ← leadingBlanks? body, params := trimStart body,
      between := ← trailingBlanks? text }
  match terminator with
  | .openBrace => return (.openAt rule, stop + 1)
  | .semicolon => return (.node (.atStatement { rule with semicolon := true }), stop + 1)
  | .closeBrace | .eof =>
    return (.node (.atStatement { rule with between := [] }), nameStop + byteLength body)

/-- The rule, declaration or raw statement that starts at `n`, and the offset behind it. -/
def statementAt? (before input : Text) (n : Nat) : Option (Chunk × Nat) := do
  let nested ← customProperty? (← dropBytes? input n)
  let (stop, terminator) ← statementEnd? nested input n
  let text ← slice? input n stop
  let content := trimEnd text
  let blanks ← trailingBlanks? text
  match terminator with
  | .openBrace => return (.openRule { before, selector := content, between := blanks }, stop + 1)
  | .semicolon => return (.node (← plainNode? before content blanks true), stop + 1)
  | .closeBrace | .eof =>
    return (.node (← plainNode? before content [] false), n + byteLength content)

/-! ### Turns -/

inductive Turn where
  /-- The end of the text, behind some space. -/
  | finished (after : Text)
  /-- A chunk, and the offset at which the next turn starts. -/
  | chunk (chunk : Chunk) (next : Nat)

/-- The chunk at `n`, where the character `c` stands, and the offset behind it. -/
def chunkAt? (before input : Text) (n : Nat) (c : Char) : Option (Chunk × Nat) := do
  if c = '}' then return (.close before, ← advance? input n)
  else if c = ';' then
    return (.node (.raw { before, text := [], semicolon := true }), ← advance? input n)
  else if c = '@' then atRuleAt? before input n
  else if commentAt input n then
    let k ← commentEnd? input n
    return (.node (.comment { before, text := ← slice? input n k }), k)
  else statementAt? before input n

def turn? (input : Text) (n : Nat) : Option Turn := do
  let start ← skipWhile? isSpace input n
  let before ← slice? input n start
  match ← dropBytes? input start with
  | [] => return .finished before
  | c :: _ =>
    let (chunk, next) ← chunkAt? before input start c
    return .chunk chunk next

/-- The chunks of a number of turns, and the space at the end if they come to it. -/
def turns? : Nat → Text → Nat → Option (List Chunk × Option Text)
  | 0, _, _ => some ([], none)
  | count + 1, input, n => do
    match ← turn? input n with
    | .finished after => return ([], some after)
    | .chunk chunk next =>
      let (chunks, after) ← turns? count input next
      return (chunk :: chunks, after)

/-- The same turns, each of them taking what it takes off the text that the last one left. -/
def takeTurns : Nat → Text → List Chunk × Option Text
  | 0, _ => ([], none)
  | count + 1, t =>
    match t.dropWhile isSpace with
    | [] => ([], some (t.takeWhile isSpace))
    | c :: r =>
      let p := Chunk.take (t.takeWhile isSpace) (c :: r)
      let q := takeTurns count p.2
      (p.1 :: q.1, q.2)

/-! ### What they take -/

/-- A chunk and the text behind it are taken: the chunk is returned, with the offset of that
text. -/
def Takes (input : Text) (o : Option (Chunk × Nat)) (p : Chunk × Text) : Prop :=
  ∃ k, o = some (p.1, k) ∧ dropBytes? input k = some p.2

section
variable {input t r : Text} {n : Nat}

theorem leadingBlanks?_eq (t : Text) : leadingBlanks? t = some (leadingBlanks t) := by
  have happ := leadingBlanks_append_trimStart t
  have hsub := checkedSub?_of_append (leadingBlanks t) (trimStart t)
  have hslice := slice?_of_append dropBytes?_zero happ
  rw [happ] at hsub
  rw [Nat.zero_add] at hslice
  rw [leadingBlanks?, hsub]
  exact hslice

theorem trailingBlanks?_eq (t : Text) : trailingBlanks? t = some (trailingBlanks t) :=
  dropBytes?_eq_some_iff.2 ⟨_, (trimEnd_append_trailingBlanks t).symm, rfl⟩

theorem customProperty?_eq (t : Text) : customProperty? t = some (isCustomProperty t) := by
  unfold customProperty?
  split
  · next r =>
    have hzero := dropBytes?_zero (t := r)
    rw [skipWhile?_eq isNamePart hzero]
    simp only [Option.bind_eq_bind, Option.bind_some, dropBytes?_takeWhile isNamePart hzero]
    rfl
  · next hne =>
    unfold isCustomProperty
    split
    · exact absurd rfl (hne _)
    · rfl

theorem plainNode?_eq (before content afterValue : Text) (semicolon : Bool) :
    plainNode? before content afterValue semicolon =
      some (Chunk.plainNode before content afterValue semicolon) := by
  have happ := (topScan colonDialect ':').cut_append {} content
  change (cutAtTop colonDialect ':' content).1 ++ (cutAtTop colonDialect ':' content).2 = content
    at happ
  unfold plainNode? Chunk.plainNode splitDeclaration?
  rw [colon?_eq]
  rcases hcut : cutAtTop colonDialect ':' content with ⟨left, _ | ⟨c, right⟩⟩
  · rfl
  · obtain rfl : c = ':' := cutAtTop_snd_head (r := right) (by rw [hcut])
    rw [hcut] at happ
    have hzero := dropBytes?_zero (t := content)
    have hleft := slice?_of_append hzero happ
    have hright : dropBytes? content (0 + byteLength left + 1) = some right :=
      dropBytes?_next (dropBytes?_of_append hzero happ)
    have hblanks : slice? content (byteLength (trimEnd left)) (0 + byteLength left) =
        some (trailingBlanks left) := by
      have hsplit := trimEnd_append_trailingBlanks left
      have hprop : dropBytes? content (byteLength (trimEnd left)) =
          some (trailingBlanks left ++ ':' :: right) :=
        dropBytes?_eq_some_iff.2 ⟨_, by rw [← List.append_assoc, hsplit, happ], rfl⟩
      rw [Nat.zero_add, ← hsplit, byteLength_append, hsplit]
      exact slice?_of_dropBytes? hprop
    simp only [cutAt, Option.map_some, Option.bind_eq_bind, Option.bind_some, hleft, hright,
      hblanks, leadingBlanks?_eq]
    rfl

/-- A statement ends in front of a brace, of a semicolon, or with the text. -/
theorem ends_cases {tail : Text} (h : ∀ c r, tail = c :: r → EndsStatement c) :
    (∃ rest, tail = '{' :: rest) ∨ (∃ rest, tail = ';' :: rest) ∨ (∃ rest, tail = '}' :: rest) ∨
      tail = [] := by
  cases tail with
  | nil => exact .inr (.inr (.inr rfl))
  | cons c r =>
      rcases h c r rfl with rfl | rfl | rfl
      · exact .inl ⟨r, rfl⟩
      · exact .inr (.inr (.inl ⟨r, rfl⟩))
      · exact .inr (.inl ⟨r, rfl⟩)

/-- A statement that leaves its blanks ends in front of them. -/
theorem dropBytes?_trimEnd {body tail : Text} (h : dropBytes? input n = some t)
    (happ : body ++ tail = t) :
    dropBytes? input (n + byteLength (trimEnd body)) = some (trailingBlanks body ++ tail) := by
  refine dropBytes?_of_append h ?_
  rw [← List.append_assoc, trimEnd_append_trailingBlanks, happ]

theorem atRuleAt?_takes (before : Text) (h : dropBytes? input n = some ('@' :: r)) :
    Takes input (atRuleAt? before input n) (Chunk.readAtRule before r) := by
  have hname := dropBytes?_next h
  have hstart := dropBytes?_takeWhile isNamePart hname
  have hslice := slice?_of_append hname (List.takeWhile_append_dropWhile (p := isNamePart))
  have happ := cutStatement_append (r.dropWhile isNamePart)
  have hends := ends_cases fun _ _ => ends_of_cutStatement (t := r.dropWhile isNamePart)
  rw [atRuleAt?, advance?_cons h, Chunk.readAtRule]
  simp only [Option.bind_eq_bind, Option.bind_some, skipWhile?_eq isNamePart hname, hslice,
    statementEnd?_plain hstart, slice?_of_append hstart happ, leadingBlanks?_eq,
    trailingBlanks?_eq]
  generalize cutStatement (r.dropWhile isNamePart) = p at happ hends
  obtain ⟨body, tail⟩ := p
  have htail := dropBytes?_of_append hstart happ
  have hblanks := dropBytes?_trimEnd hstart happ
  rcases hends with ⟨rest, rfl⟩ | ⟨rest, rfl⟩ | ⟨rest, rfl⟩ | rfl
  · exact ⟨_, rfl, dropBytes?_next htail⟩
  · exact ⟨_, rfl, dropBytes?_next htail⟩
  · exact ⟨_, rfl, hblanks⟩
  · exact ⟨_, rfl, hblanks⟩

theorem statementEnd?_any (h : dropBytes? input n = some t) :
    statementEnd? (isCustomProperty t) input n =
      some (n + byteLength (cutAny t).1, .ofText (cutAny t).2) := by
  unfold cutAny
  cases isCustomProperty t with
  | true => exact statementEnd?_nested h
  | false => exact statementEnd?_plain h

theorem statementAt?_takes (before : Text) (h : dropBytes? input n = some t) :
    Takes input (statementAt? before input n) (Chunk.takeStatement before (cutAny t)) := by
  have happ := cutAny_append t
  have hends := ends_cases fun _ _ => ends_of_cutAny (t := t)
  rw [statementAt?, h]
  simp only [Option.bind_eq_bind, Option.bind_some, customProperty?_eq, statementEnd?_any h,
    slice?_of_append h happ, trailingBlanks?_eq, plainNode?_eq]
  generalize cutAny t = p at happ hends
  obtain ⟨body, tail⟩ := p
  have htail := dropBytes?_of_append h happ
  have hblanks := dropBytes?_trimEnd h happ
  rcases hends with ⟨rest, rfl⟩ | ⟨rest, rfl⟩ | ⟨rest, rfl⟩ | rfl
  · exact ⟨_, rfl, dropBytes?_next htail⟩
  · exact ⟨_, rfl, dropBytes?_next htail⟩
  · exact ⟨_, rfl, hblanks⟩
  · exact ⟨_, rfl, hblanks⟩

theorem chunkAt?_takes (before : Text) {c : Char} (h : dropBytes? input n = some (c :: r)) :
    Takes input (chunkAt? before input n c) (Chunk.take before (c :: r)) := by
  obtain ⟨u, hu⟩ | ⟨u, hu⟩ | ⟨u, hu⟩ | ⟨u, hu⟩ | hstarts := startsStatement_cases (c :: r)
  · obtain ⟨rfl, rfl⟩ := List.cons.inj hu
    exact ⟨_, by rw [chunkAt?, advance?_cons h]; rfl, dropBytes?_next h⟩
  · obtain ⟨rfl, rfl⟩ := List.cons.inj hu
    exact ⟨_, by rw [chunkAt?, advance?_cons h]; rfl, dropBytes?_next h⟩
  · obtain ⟨rfl, rfl⟩ := List.cons.inj hu
    exact atRuleAt?_takes before h
  · obtain ⟨rfl, rfl⟩ := List.cons.inj hu
    have hcomment : commentAt input n = true := commentAt_eq_true_iff.2 ⟨u, h⟩
    have hslice := slice?_of_append h (u := '/' :: '*' :: (splitComment u).1)
      (r := (splitComment u).2) (by simp)
    refine ⟨_, ?_, (dropBytes?_splitComment h).1⟩
    rw [chunkAt?, if_neg (by decide), if_neg (by decide), if_neg (by decide), if_pos hcomment,
      commentEnd?_of_dropBytes? h]
    simp only [Option.bind_eq_bind, Option.bind_some, hslice]
    rfl
  · have hcomment : commentAt input n = false := by
      rw [commentAt, h]
      exact hstarts.comment
    have hstatement : chunkAt? before input n c = statementAt? before input n := by
      simp [chunkAt?, hstarts.head c rfl, hcomment]
    rw [hstatement, Chunk.take_of_startsStatement hstarts]
    exact statementAt?_takes before h

/-- Behind some space a turn takes what stands there; where nothing does, it is the last one. -/
theorem turn?_eq (h : dropBytes? input n = some t) :
    (t.dropWhile isSpace = [] ∧ turn? input n = some (.finished (t.takeWhile isSpace))) ∨
      ∃ c r k, t.dropWhile isSpace = c :: r ∧
        turn? input n = some (.chunk (Chunk.take (t.takeWhile isSpace) (c :: r)).1 k) ∧
        dropBytes? input k = some (Chunk.take (t.takeWhile isSpace) (c :: r)).2 := by
  have hslice := slice?_of_append h (List.takeWhile_append_dropWhile (p := isSpace))
  have hstart := dropBytes?_takeWhile isSpace h
  rw [turn?, skipWhile?_eq isSpace h]
  simp only [Option.bind_eq_bind, Option.bind_some, hslice, hstart]
  cases hrest : t.dropWhile isSpace with
  | nil => exact .inl ⟨rfl, rfl⟩
  | cons c r =>
      rw [hrest] at hstart
      obtain ⟨k, hchunk, hk⟩ := chunkAt?_takes (t.takeWhile isSpace) hstart
      refine .inr ⟨c, r, k, rfl, ?_, hk⟩
      simp only [hchunk, Option.bind_some]
      rfl

theorem turns?_eq (count : Nat) (h : dropBytes? input n = some t) :
    turns? count input n = some (takeTurns count t) := by
  induction count generalizing n t with
  | zero => rfl
  | succ count ih =>
      rcases turn?_eq h with ⟨hrest, hturn⟩ | ⟨c, r, k, hrest, hturn, hk⟩
      · simp [turns?, takeTurns, hturn, hrest]
      · simp [turns?, takeTurns, hturn, hrest, ih hk]

theorem takeTurns_of_chunks? {cs : List Chunk} {after : Text} (h : chunks? t = some (cs, after)) :
    takeTurns (cs.length + 1) t = (cs, some after) := by
  fun_induction chunks? t generalizing cs with
  | case1 t hrest =>
      obtain ⟨rfl, rfl⟩ : [] = cs ∧ t.takeWhile isSpace = after := by simpa using h
      simp [takeTurns, hrest]
  | case2 => exact absurd h (by simp)
  | case3 t c r hrest k rest hread ih =>
      obtain ⟨⟨ks, u⟩, hks, he⟩ := Option.map_eq_some_iff.1 h
      obtain ⟨rfl, rfl⟩ : k :: ks = cs ∧ u = after := by simpa using he
      have htake : Chunk.take (t.takeWhile isSpace) (c :: r) = (k, rest) := by
        rcases Chunk.read?_cases (t.takeWhile isSpace) (c :: r) with hsome | ⟨hnone, -⟩
        · exact Option.some.inj (hsome.symm.trans hread)
        · exact absurd (hnone.symm.trans hread) (by simp)
      rw [List.length_cons, takeTurns]
      simp [hrest, htake, ih hks]

/-- A turn that takes nothing is followed by the same turn again, so the end is not reached. -/
theorem chunks?_of_takeTurns {count : Nat} {cs : List Chunk} {after : Text}
    (h : takeTurns count t = (cs, some after)) : chunks? t = some (cs, after) := by
  induction count generalizing t cs with
  | zero => exact absurd h (by simp [takeTurns])
  | succ count ih =>
      rw [takeTurns] at h
      cases hrest : t.dropWhile isSpace with
      | nil =>
          rw [hrest] at h
          obtain ⟨rfl, hafter⟩ := Prod.mk.inj h
          obtain rfl := Option.some.inj hafter
          rw [chunks?]
          split
          · rfl
          · next hcons => exact absurd (hrest.symm.trans hcons) (by simp)
      | cons c r =>
          rw [hrest] at h
          have hcases := Chunk.read?_cases (t.takeWhile isSpace) (c :: r)
          dsimp only at h
          generalize Chunk.take (t.takeWhile isSpace) (c :: r) = p at h hcases
          obtain ⟨rfl, hafter⟩ := Prod.mk.inj h
          have hchunks := ih (Prod.ext rfl hafter)
          rcases hcases with hread | ⟨hread, htake⟩
          · rw [chunks?_of_read? (hrest ▸ hread), hchunks]
            rfl
          · -- nothing was taken, so the turns behind this one read the same text, which no
            -- number of them gets past
            have hblocked := blocked_of_read? (by simp) hread
            have hspace : isSpace c = false := forall_head?_dropWhile isSpace t c (by simp [hrest])
            have hself : (c :: r).dropWhile isSpace = c :: r := by simp [hspace]
            have hnone : chunks? (c :: r) = none :=
              chunks?_of_read?_eq_none (by simp [hself]) (hself.symm ▸ hblocked.read? _)
            rw [htake, hnone] at hchunks
            exact absurd hchunks (by simp)

/-- Turns that come to the end have read the stylesheet, and reading it takes only so many. -/
theorem parse?_eq_some_iff_turns? {s : Sheet} :
    parse? t = some s ↔
      ∃ count cs after, turns? count t 0 = some (cs, some after) ∧
        (cs.foldl Growth.add {}).finish after = s := by
  rw [parse?, Option.map_eq_some_iff]
  constructor
  · rintro ⟨⟨cs, after⟩, hchunks, hs⟩
    exact ⟨_, cs, after, (turns?_eq _ dropBytes?_zero).trans
      (congrArg some (takeTurns_of_chunks? hchunks)), hs⟩
  · rintro ⟨count, cs, after, hturns, hs⟩
    rw [turns?_eq count dropBytes?_zero] at hturns
    exact ⟨(cs, after), chunks?_of_takeTurns (Option.some.inj hturns), hs⟩

end

/-! ### Boundaries throughout -/

theorem utf8Size_of_mem_char? {stop : Terminator} : ∀ c ∈ stop.char?, c.utf8Size = 1 := by
  cases stop <;> simp [Terminator.char?] <;> rfl

/-- From any boundary the scanners return, with no counter below zero, and return boundaries between
there and the end; a terminator, a closing bracket and a colon stand where they are said to. So
every slice has a result wherever one is taken: of a selector and its arguments, of a stylesheet in
any number of turns, of a value, of a quoted text and of a selector list. The results are those of
reading without offsets. -/
theorem offsets_safe :
    (∀ (input t : Text) (n : Nat), dropBytes? input n = some t →
      (∀ nested, ∃ k stop r, statementEnd? nested input n = some (k, stop) ∧ Lands input n k r ∧
        r.head? = stop.char? ∧ ∀ c ∈ r.head?, c.utf8Size = 1) ∧
      (∀ opening closing, ∃ o, closing? opening closing input n = some o ∧
        ∀ k ∈ o, ∃ r, Lands input n k (closing :: r)) ∧
      (commentAt input n = true → ∃ k r, commentEnd? input n = some k ∧ Lands input n k r) ∧
      (t.head? = some '(' → ∃ k r, functionLength? input n = some k ∧ Lands input n k r)) ∧
    (∀ t : Text, (∃ o, colon? t = some o ∧ ∀ k ∈ o, ∃ r, Lands t 0 k (':' :: r)) ∧
      ∀ quote ∈ t.head?, isQuote quote = true →
        ∃ k r, quotedLength? quote t = some k ∧ Lands t 0 k r) ∧
    ∀ t : Text, fragmentsFrom? t 0 = some (tokenize t) ∧
      (∀ count, turns? count t 0 = some (takeTurns count t)) ∧
      (∀ s, parse? t = some s ↔ ∃ count cs after, turns? count t 0 = some (cs, some after) ∧
        (cs.foldl Growth.add {}).finish after = s) ∧
      valueTokensOf? t = some (valueTokens t) ∧
      unquoted? t = some (((unquote? t).map fun p => (some p.1, p.2)).getD (none, t)) ∧
      membersFrom? t 0 = some (members t) := by
  refine ⟨fun input t n h => ⟨fun nested => ?_, fun opening closing => closing?_safe _ _ h,
    commentEnd?_safe, fun hopen => ?_⟩, fun t => ⟨colon?_safe t, fun quote hhead hquote => ?_⟩,
    fun t => ⟨fragmentsFrom?_eq dropBytes?_zero, fun count => turns?_eq count dropBytes?_zero,
      fun s => parse?_eq_some_iff_turns?, valueTokensOf?_eq t, unquoted?_eq t,
      membersFrom?_eq dropBytes?_zero⟩⟩
  · obtain ⟨k, stop, r, hend, hlands, hchar⟩ := statementEnd?_safe nested h
    exact ⟨k, stop, r, hend, hlands, hchar, hchar ▸ utf8Size_of_mem_char?⟩
  · obtain ⟨r, rfl⟩ := List.head?_eq_some_iff.1 hopen
    exact functionLength?_safe h
  · obtain ⟨r, rfl⟩ := List.head?_eq_some_iff.1 hhead
    exact quotedLength?_safe hquote r

/-- Behind a letter of two bytes, which no offset can stand within. -/
theorem offsets_safe_accent :
    dropBytes? "é(ü)".toList 1 = none ∧ dropBytes? "é(ü)".toList 2 = some "(ü)".toList ∧
      ∃ k r, functionLength? "é(ü)".toList 2 = some k ∧ Lands "é(ü)".toList 2 k r := by
  have hstart : dropBytes? "é(ü)".toList 2 = some "(ü)".toList := by decide
  exact ⟨by decide, hstart, (offsets_safe.1 _ _ _ hstart).2.2.2 (by decide)⟩

end StyleScope.Offsets
