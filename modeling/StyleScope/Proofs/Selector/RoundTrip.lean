import StyleScope.Selector.Lexeme
import StyleScope.Selector.Segment

/-! # Reading and writing a selector

One step of reading takes a lexeme off the text, and the fragment made of it is written as the text
that was taken, provided its arguments are (`tokenize_cons`, `Lexeme.takes_read`). Arguments and rest
are both shorter than the text, so an induction along `tokenize` gives the text back at every depth
of nesting.

Grouping fragments into compound parts and separators leaves them as they are and in their order, so
the segments of a selector are written as the selector too (`render_segment_tokenize`).
-/
namespace StyleScope.Selector
open Text

def Lexeme.fragment : Lexeme → Fragment
  | .leaf f => f
  | .call colons name arguments closed => .function colons name (tokenize arguments) closed

@[simp] theorem tokenize_nil : tokenize [] = [] := by
  rw [tokenize]

theorem tokenize_cons (c : Char) (r : Text) :
    tokenize (c :: r) = (Lexeme.read c r).1.fragment :: tokenize (Lexeme.read c r).2 := by
  rw [tokenize]
  split
  · next f rest h => rw [h, Lexeme.fragment]
  · next colons name arguments closed rest h => rw [h, Lexeme.fragment]

@[simp] theorem render_tokenize (t : Text) : render (tokenize t) = t := by
  fun_induction tokenize t with
  | case1 => rfl
  | case2 c r f rest h ih =>
      have happ := Lexeme.read_append c r
      rw [h] at happ
      rw [render_cons, ih]
      exact happ
  | case3 c r colons name arguments closed rest h ihArguments ihRest =>
      have happ := Lexeme.read_append c r
      rw [h] at happ
      rw [render_cons, Fragment.text_function, ihArguments, ihRest]
      exact happ

theorem Lexeme.text_fragment (x : Lexeme) : x.fragment.text = x.text := by
  cases x with
  | leaf f => rfl
  | call colons name arguments closed =>
      rw [Lexeme.fragment, Fragment.text_function, render_tokenize, Lexeme.text]

/-- Every fragment comes from one step of reading. -/
theorem exists_read_of_mem_tokenize {t : Text} {f : Fragment} (h : f ∈ tokenize t) :
    ∃ c r, f = (Lexeme.read c r).1.fragment := by
  induction hn : t.length using Nat.strongRecOn generalizing t with
  | ind n ih =>
      cases t with
      | nil => simp at h
      | cons c r =>
          rw [tokenize_cons] at h
          rcases List.mem_cons.1 h with rfl | h
          · exact ⟨c, r, rfl⟩
          · exact ih _ (hn ▸ Lexeme.length_read_rest rfl) h rfl

theorem text_ne_nil_of_mem_tokenize {t : Text} {f : Fragment} (h : f ∈ tokenize t) :
    f.text ≠ [] := by
  obtain ⟨c, r, rfl⟩ := exists_read_of_mem_tokenize h
  rw [Lexeme.text_fragment]
  exact (Lexeme.takes_read c r).2

/-- The arguments of a lexeme, if it has any, are what reading their text gives. -/
def Lexeme.ArgumentsRead (x : Lexeme) : Prop :=
  ∀ arguments, x.fragment.arguments? = some arguments → tokenize (render arguments) = arguments

theorem Lexeme.argumentsRead_leaf {f : Fragment} (h : f.arguments? = none) :
    (leaf f).ArgumentsRead := by
  intro arguments ha
  exact absurd (h.symm.trans ha) (by simp)

theorem Lexeme.argumentsRead_call (colons : Nat) (name text : Text) (closed : Bool) :
    (call colons name text closed).ArgumentsRead := by
  intro arguments ha
  obtain rfl : tokenize text = arguments := Option.some.inj ha
  rw [render_tokenize]

theorem Lexeme.argumentsRead_readSign (c : Char) (r : Text) : (readSign c r).1.ArgumentsRead := by
  unfold readSign readSigned readAttribute readPseudo readArguments readGap readComment readString
    readRaw
  repeat' split
  all_goals first
    | exact argumentsRead_leaf rfl
    | exact argumentsRead_call _ _ _ _

theorem Lexeme.argumentsRead_read (c : Char) (r : Text) : (read c r).1.ArgumentsRead := by
  unfold read
  split
  · exact argumentsRead_leaf rfl
  · exact argumentsRead_readSign c r

/-- Reading a selector loses nothing: the fragments are written as the text they were read from,
each of them takes at least a character of it, and the arguments of a pseudo selector are what
reading their own text gives. -/
theorem tokenize_lossless (t : Text) :
    render (tokenize t) = t ∧
      ∀ f ∈ tokenize t, f.text ≠ [] ∧
        ∀ arguments, f.arguments? = some arguments → tokenize (render arguments) = arguments := by
  refine ⟨render_tokenize t, fun f hf => ⟨text_ne_nil_of_mem_tokenize hf, ?_⟩⟩
  obtain ⟨c, r, rfl⟩ := exists_read_of_mem_tokenize hf
  exact Lexeme.argumentsRead_read c r

theorem Segment.fragments_attach (f : Fragment) (separates : Bool) (rest : List Segment) :
    (attach f separates rest).flatMap fragments = f :: rest.flatMap fragments := by
  cases separates with
  | true => rfl
  | false =>
      cases rest with
      | nil => rfl
      | cons g gs =>
          cases g with
          | part fs => rfl
          | separator s => rfl

theorem fragments_segmentAfter (before : Option Fragment) (fs : List Fragment) :
    (segmentAfter before fs).flatMap Segment.fragments = fs := by
  induction fs generalizing before with
  | nil => rfl
  | cons f fs ih => rw [segmentAfter, Segment.fragments_attach, ih]

theorem fragments_segment (fs : List Fragment) :
    (segment fs).flatMap Segment.fragments = fs :=
  fragments_segmentAfter none fs

theorem render_flatMap_fragments (gs : List Segment) :
    render (gs.flatMap Segment.fragments) = gs.flatMap fun g => render g.fragments := by
  induction gs with
  | nil => rfl
  | cons g gs ih => rw [List.flatMap_cons, List.flatMap_cons, render_append, ih]

/-- The segments of a selector are written as the selector. -/
theorem render_segment_tokenize (t : Text) :
    ((segment (tokenize t)).flatMap fun g => render g.fragments) = t := by
  rw [← render_flatMap_fragments, fragments_segment, render_tokenize]

end StyleScope.Selector
