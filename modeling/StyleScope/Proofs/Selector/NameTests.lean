import Mathlib.Data.List.Chain
import StyleScope.Proofs.Selector.Lookahead

/-! # Names that meet

Fragments written side by side need not be read as they were written. Space runs into other space,
which no selector minds. A name runs on into a type selector written behind it, and the two become
one name: `mergeNames` does this to fragments. If nothing else can run together, because each
fragment is `Firm`, then the type, class and id selectors read are those of the merged fragments
(`ReadAs.render_append`), and these are the ones that were written just when no name meets a type
selector (`nameTests_mergeNames_eq_iff`).
-/
namespace StyleScope.Selector
open Text

namespace Fragment

/-- A type, class or id selector. -/
def isNameTest : Fragment → Bool
  | identifier _ | id _ | className _ => true
  | _ => false

def isIdentifier : Fragment → Bool
  | identifier _ => true
  | _ => false

/-- A fragment whose last characters are those of a name. -/
def endsInName : Fragment → Bool
  | identifier _ | id _ | className _ | pseudo _ _ => true
  | _ => false

/-- A fragment that ends in a name, the name being longer by `n`. -/
def lengthen (n : Text) : Fragment → Fragment
  | identifier m => identifier (m ++ n)
  | id m => id (m ++ n)
  | className m => className (m ++ n)
  | pseudo colons m => pseudo colons (m ++ n)
  | f => f

/-- Puts a fragment in front of others. A name it ends in goes on in a type selector. -/
def joinName (f : Fragment) : List Fragment → List Fragment
  | identifier n :: fs => if f.endsInName then f.lengthen n :: fs else f :: identifier n :: fs
  | fs => f :: fs

/-- A fragment that stands between compound parts, or could. -/
def isBreak (f : Fragment) : Bool := f.isSeparator || f.isComment

/-- No name goes on from one fragment to the next. -/
def Apart (f g : Fragment) : Prop := (f.endsInName && g.isIdentifier) = false

instance (f g : Fragment) : Decidable (f.Apart g) := inferInstanceAs (Decidable (_ = _))

end Fragment

def nameTests (fs : List Fragment) : List Fragment := fs.filter Fragment.isNameTest

/-- The fragments with all names that meet made into one. -/
def mergeNames (fs : List Fragment) : List Fragment := fs.foldr Fragment.joinName []

@[simp] theorem nameTests_append (fs gs : List Fragment) :
    nameTests (fs ++ gs) = nameTests fs ++ nameTests gs :=
  List.filter_append ..

theorem nameTests_cons (f : Fragment) (fs : List Fragment) :
    nameTests (f :: fs) = nameTests [f] ++ nameTests fs := by
  rw [← List.singleton_append, nameTests_append]

theorem nameTests_cons_of_neg {f : Fragment} (h : f.isNameTest = false) (fs : List Fragment) :
    nameTests (f :: fs) = nameTests fs :=
  List.filter_cons_of_neg (by simp [h])

namespace Fragment

theorem isIdentifier_eq_true_iff {f : Fragment} : f.isIdentifier = true ↔ ∃ n, f = identifier n := by
  cases f with
  | identifier n => simp [isIdentifier]
  | _ => simp [isIdentifier]

theorem kind_of_isBreak {f : Fragment} (h : f.isBreak = true) :
    f.isNameTest = false ∧ f.endsInName = false ∧ f.isIdentifier = false := by
  cases f with
  | combinator t => exact ⟨rfl, rfl, rfl⟩
  | whitespace t => exact ⟨rfl, rfl, rfl⟩
  | comment t => exact ⟨rfl, rfl, rfl⟩
  | _ => exact absurd h (by simp [isBreak, isSeparator, isComment])

theorem isIdentifier_lengthen (f : Fragment) (n : Text) :
    (f.lengthen n).isIdentifier = f.isIdentifier := by
  cases f with
  | _ => rfl

theorem isNameTest_lengthen (f : Fragment) (n : Text) :
    (f.lengthen n).isNameTest = f.isNameTest := by
  cases f with
  | _ => rfl

theorem joinName_of_apart {f : Fragment} {fs : List Fragment} (h : ∀ g ∈ fs.head?, f.Apart g) :
    f.joinName fs = f :: fs := by
  unfold joinName
  split
  · next n fs =>
    have hf : f.endsInName = false := by simpa [Apart, isIdentifier] using h (identifier n) rfl
    rw [if_neg (by simp [hf])]
  · rfl

theorem joinName_of_endsInName {f : Fragment} (h : f.endsInName = false) (fs : List Fragment) :
    f.joinName fs = f :: fs :=
  joinName_of_apart fun g _ => by rw [Apart, h, Bool.false_and]

theorem joinName_of_head? {fs : List Fragment} (h : fs.head?.any isIdentifier = false)
    (f : Fragment) : f.joinName fs = f :: fs := by
  refine joinName_of_apart fun g hg => ?_
  rw [Option.mem_def.1 hg, Option.any_some] at h
  rw [Apart, h, Bool.and_false]

theorem joinName_identifier {f : Fragment} (h : f.endsInName = true) (n : Text)
    (fs : List Fragment) : f.joinName (identifier n :: fs) = f.lengthen n :: fs :=
  if_pos h

theorem any_isIdentifier_joinName (f : Fragment) (fs : List Fragment) :
    (f.joinName fs).head?.any isIdentifier = f.isIdentifier := by
  unfold joinName
  split
  · split
    · simp [isIdentifier_lengthen]
    · simp
  · simp

end Fragment

theorem mergeNames_cons (f : Fragment) (fs : List Fragment) :
    mergeNames (f :: fs) = f.joinName (mergeNames fs) := rfl

theorem mergeNames_append (fs gs : List Fragment) :
    mergeNames (fs ++ gs) = fs.foldr Fragment.joinName (mergeNames gs) :=
  List.foldr_append ..

theorem any_isIdentifier_mergeNames (fs : List Fragment) :
    (mergeNames fs).head?.any Fragment.isIdentifier = fs.head?.any Fragment.isIdentifier := by
  cases fs with
  | nil => rfl
  | cons f fs =>
      rw [mergeNames_cons, Fragment.any_isIdentifier_joinName]
      simp

/-- Fragments that keep apart are put as they are in front of others that start with no type
selector. -/
theorem foldr_joinName_of_isChain {fs gs : List Fragment} (h : fs.IsChain Fragment.Apart)
    (hgs : gs.head?.any Fragment.isIdentifier = false) :
    fs.foldr Fragment.joinName gs = fs ++ gs := by
  induction fs with
  | nil => rfl
  | cons f fs ih =>
      obtain ⟨hhead, htail⟩ := List.isChain_cons.1 h
      rw [List.foldr_cons, ih htail, List.cons_append]
      cases fs with
      | nil => exact Fragment.joinName_of_head? hgs f
      | cons g fs => exact Fragment.joinName_of_apart hhead

theorem mergeNames_of_isChain {fs : List Fragment} (h : fs.IsChain Fragment.Apart) :
    mergeNames fs = fs := by
  rw [mergeNames, foldr_joinName_of_isChain h rfl, List.append_nil]

/-- A fragment stays apart from the next one, or a type selector is lost. -/
theorem mergeNames_cons_cases (f : Fragment) (fs : List Fragment) :
    ((∀ g ∈ fs.head?, f.Apart g) ∧ mergeNames (f :: fs) = f :: mergeNames fs) ∨
      (mergeNames (f :: fs)).countP Fragment.isNameTest <
        (f :: mergeNames fs).countP Fragment.isNameTest := by
  by_cases hmeet : f.endsInName = true ∧ fs.head?.any Fragment.isIdentifier = true
  · obtain ⟨hf, hfs⟩ := hmeet
    rw [← any_isIdentifier_mergeNames, Option.any_eq_true] at hfs
    obtain ⟨g, hg, hname⟩ := hfs
    obtain ⟨n, rfl⟩ := Fragment.isIdentifier_eq_true_iff.1 hname
    obtain ⟨gs, hgs⟩ := List.head?_eq_some_iff.1 hg
    right
    rw [mergeNames_cons, hgs, Fragment.joinName_identifier hf, List.countP_cons, List.countP_cons,
      List.countP_cons, Fragment.isNameTest_lengthen]
    have hone : (Fragment.identifier n).isNameTest = true := rfl
    rw [if_pos hone]
    omega
  · have hapart : ∀ g : Fragment, fs.head?.any Fragment.isIdentifier = g.isIdentifier →
        f.Apart g := by
      intro g hg
      rw [hg] at hmeet
      simpa [Fragment.Apart] using hmeet
    left
    refine ⟨fun g hg => hapart g (by simp [Option.mem_def.1 hg]), ?_⟩
    rw [mergeNames_cons, Fragment.joinName_of_apart]
    intro g hg
    apply hapart
    rw [← any_isIdentifier_mergeNames, Option.mem_def.1 hg, Option.any_some]

theorem countP_mergeNames_le (fs : List Fragment) :
    (mergeNames fs).countP Fragment.isNameTest ≤ fs.countP Fragment.isNameTest := by
  induction fs with
  | nil => exact Nat.le_refl _
  | cons f fs ih =>
      rw [List.countP_cons]
      obtain ⟨-, hmerge⟩ | hlost := mergeNames_cons_cases f fs
      · rw [hmerge, List.countP_cons]
        omega
      · rw [List.countP_cons] at hlost
        omega

theorem isChain_of_countP_mergeNames {fs : List Fragment}
    (h : (mergeNames fs).countP Fragment.isNameTest = fs.countP Fragment.isNameTest) :
    fs.IsChain Fragment.Apart := by
  induction fs with
  | nil => exact .nil
  | cons f fs ih =>
      have hle := countP_mergeNames_le fs
      rw [List.countP_cons (l := fs)] at h
      obtain ⟨hapart, hmerge⟩ | hlost := mergeNames_cons_cases f fs
      · rw [hmerge, List.countP_cons] at h
        exact List.isChain_cons.2 ⟨hapart, ih (by omega)⟩
      · rw [List.countP_cons] at hlost
        omega

/-- Merging keeps every type, class and id selector just when no name meets a type selector. -/
theorem nameTests_mergeNames_eq_iff {fs : List Fragment} :
    nameTests (mergeNames fs) = nameTests fs ↔ fs.IsChain Fragment.Apart := by
  constructor
  · intro h
    apply isChain_of_countP_mergeNames
    rw [List.countP_eq_length_filter, List.countP_eq_length_filter]
    exact congrArg List.length h
  · intro h
    rw [mergeNames_of_isChain h]

def isGap (c : Char) : Bool := isSpace c || isCombinator c

theorem all_isGap_of_all_isSpace {s : Text} (h : s.all isSpace = true) : s.all isGap = true := by
  refine List.all_eq_true.2 fun c hc => ?_
  rw [isGap, List.all_eq_true.1 h c hc, Bool.true_or]

theorem all_isGap_combinator {lead trail : Text} {d : Char} (hlead : lead.all isSpace = true)
    (hd : isCombinator d = true) (htrail : trail.all isSpace = true) :
    (lead ++ d :: trail).all isGap = true := by
  rw [List.all_append, List.all_cons, all_isGap_of_all_isSpace hlead,
    all_isGap_of_all_isSpace htrail, isGap, hd, Bool.or_true]
  rfl

theorem all_isGap_readGap (t : Text) :
    (Lexeme.readGap t).1.text.all isGap = true ∧
      (Lexeme.readGap t).1.fragment.isNameTest = false := by
  have hspace (u : Text) : (u.takeWhile isSpace).all isGap = true :=
    all_isGap_of_all_isSpace List.all_takeWhile
  unfold Lexeme.readGap
  dsimp only
  split
  · next d r _ =>
    split
    · next hd =>
      refine ⟨?_, rfl⟩
      rw [Lexeme.text_leaf, Fragment.text_combinator]
      exact all_isGap_combinator List.all_takeWhile hd List.all_takeWhile
    · refine ⟨?_, rfl⟩
      rw [Lexeme.text_leaf, Fragment.text_whitespace, hspace]
  · refine ⟨?_, rfl⟩
    rw [Lexeme.text_leaf, Fragment.text_whitespace, hspace]

theorem nameTests_tokenize_dropWhile (t : Text) :
    nameTests (tokenize (t.dropWhile isGap)) = nameTests (tokenize t) := by
  induction hn : t.length using Nat.strongRecOn generalizing t with
  | ind n ih =>
      cases t with
      | nil => rfl
      | cons c r =>
          by_cases hc : isGap c = true
          · have hread : Lexeme.read c r = Lexeme.readGap (c :: r) :=
              Lexeme.read_of_gap (by simpa [isGap] using hc) r
            obtain ⟨hgap, hname⟩ := all_isGap_readGap (c :: r)
            rw [← hread] at hgap hname
            have hshort : (Lexeme.read c r).2.length < n := hn ▸ Lexeme.length_read_rest rfl
            have hdrop : (c :: r).dropWhile isGap = (Lexeme.read c r).2.dropWhile isGap := by
              rw [← Lexeme.read_append c r,
                List.dropWhile_append_of_pos (List.all_eq_true.1 hgap)]
            rw [hdrop, ih _ hshort _ rfl, tokenize_cons, nameTests_cons_of_neg hname]
          · rw [List.dropWhile_cons_of_neg hc]

/-- Space and combinators in front of a text change none of its type, class and id selectors. -/
theorem nameTests_tokenize_gap_append {s : Text} (h : s.all isGap = true) (t : Text) :
    nameTests (tokenize (s ++ t)) = nameTests (tokenize t) := by
  rw [← nameTests_tokenize_dropWhile, List.dropWhile_append_of_pos (List.all_eq_true.1 h),
    nameTests_tokenize_dropWhile]

/-- No name goes on and no arguments open at the start of the text. -/
def Calm (t : Text) : Prop := NameEnds t ∧ t.head? ≠ some '('

/-- A character at which no name goes on and no arguments open. -/
def isCalm (c : Char) : Bool := !isNamePart c && c ≠ '\\' && c ≠ '('

theorem calm_cons {c : Char} (h : isCalm c = true) (r : Text) : Calm (c :: r) := by
  simp only [isCalm, Bool.and_eq_true, Bool.not_eq_true', decide_eq_true_eq] at h
  exact ⟨nameEnds_of_sign h.1.1 h.1.2 r, by simpa using h.2⟩

theorem calm_append {s : Text} (h : s.head?.any isCalm = true) (t : Text) : Calm (s ++ t) := by
  cases s with
  | nil => exact absurd h (by simp)
  | cons c r => exact calm_cons (by simpa using h) (r ++ t)

/-- A fragment that is read as itself, whatever follows it, but for a name it ends in, which may go
on, and for space, which may run into other space. -/
inductive Firm : Fragment → Prop
  | gap {f : Fragment} : f.isBreak = true → f.text.head?.any isCalm = true →
      f.text.all isGap = true → Firm f
  | solid {x : Lexeme} : x.fragment.endsInName = false → x.text.head?.any isCalm = true →
      (∀ t, x.Stands t) → Firm x.fragment
  | identifier {n : Text} : IsName n → Firm (.identifier n)
  | className {n : Text} : IsName n → Firm (.className n)
  | id {n : Text} : IsName n → Firm (.id n)
  | pseudo {n : Text} (colons : Nat) : IsName n → Firm (.pseudo (colons + 1) n)

/-- The text is read with the type, class and id selectors of the fragments. It starts with a name
just when they start with that type selector. -/
inductive ReadAs : Text → List Fragment → Prop
  | name {n t : Text} {fs : List Fragment} : IsName n → Calm t →
      nameTests (tokenize t) = nameTests fs → ReadAs (n ++ t) (.identifier n :: fs)
  | other {t : Text} {fs : List Fragment} : Calm t →
      fs.head?.any Fragment.isIdentifier = false →
      nameTests (tokenize t) = nameTests fs → ReadAs t fs

theorem nameTests_tokenize_of_stands {x : Lexeme} {t : Text} {fs : List Fragment} (h : x.Stands t)
    (ht : nameTests (tokenize t) = nameTests fs) :
    nameTests (tokenize (x.text ++ t)) = nameTests (x.fragment :: fs) := by
  rw [tokenize_of_stands h, nameTests_cons, ht, ← nameTests_cons]

namespace ReadAs
variable {t : Text} {fs : List Fragment}

theorem nameTests_eq (h : ReadAs t fs) : nameTests (tokenize t) = nameTests fs := by
  cases h with
  | @name n u gs hn hu hgs =>
      have hread := nameTests_tokenize_of_stands (Lexeme.Stands.identifier hn hu.1) hgs
      rwa [Lexeme.text_leaf, Fragment.text_identifier] at hread
  | other _ _ hfs => exact hfs

theorem identifier {n : Text} (hn : IsName n) (h : ReadAs t fs) :
    ReadAs (n ++ t) ((Fragment.identifier n).joinName fs) := by
  cases h with
  | @name m u gs hm hu hgs =>
      rw [Fragment.joinName_identifier rfl, ← List.append_assoc]
      exact .name (hn.append hm.nameText) hu hgs
  | other ht hhead hfs =>
      rw [Fragment.joinName_of_head? hhead]
      exact .name hn ht hfs

/-- A sign and a name, made into a fragment by `make`. -/
theorem signed {make : Text → Fragment} (sign : Text) {n : Text}
    (hstands : ∀ {m u : Text}, IsName m → Calm u → Lexeme.Stands (.leaf (make m)) u)
    (htext : ∀ m, (make m).text = sign ++ m) (hsign : sign.head?.any isCalm = true)
    (hends : (make n).endsInName = true) (hlengthen : ∀ m, (make n).lengthen m = make (n ++ m))
    (hkind : ∀ m, (make m).isIdentifier = false) (hn : IsName n) (h : ReadAs t fs) :
    ReadAs ((make n).text ++ t) ((make n).joinName fs) := by
  have hcalm : ∀ u, Calm (sign ++ u) := calm_append hsign
  cases h with
  | @name m u gs hm hu hgs =>
      have hread := nameTests_tokenize_of_stands (hstands (hn.append hm.nameText) hu) hgs
      have hwritten : (make n).text ++ (m ++ u) = (make (n ++ m)).text ++ u := by simp [htext]
      rw [Fragment.joinName_identifier hends, hlengthen, hwritten]
      refine .other ?_ ?_ hread
      · rw [htext, List.append_assoc]
        exact hcalm _
      · simp [hkind]
  | other ht hhead hfs =>
      rw [Fragment.joinName_of_head? hhead]
      refine .other ?_ ?_ (nameTests_tokenize_of_stands (hstands hn ht) hfs)
      · rw [htext, List.append_assoc]
        exact hcalm _
      · simp [hkind]

/-- A firm fragment is read in front of what is read already. -/
theorem cons {f : Fragment} (hf : Firm f) (h : ReadAs t fs) :
    ReadAs (f.text ++ t) (f.joinName fs) := by
  cases hf with
  | gap hsep hhead hgap =>
      obtain ⟨htest, hends, hname⟩ := Fragment.kind_of_isBreak hsep
      rw [Fragment.joinName_of_endsInName hends]
      refine .other (calm_append hhead t) (by simp [hname]) ?_
      rw [nameTests_tokenize_gap_append hgap, h.nameTests_eq, nameTests_cons_of_neg htest]
  | @solid x hends hhead hstands =>
      have hkind : x.fragment.isIdentifier = false := by
        cases hx : x.fragment with
        | identifier n => exact absurd hends (by simp [hx, Fragment.endsInName])
        | _ => rfl
      rw [Fragment.joinName_of_endsInName hends, Lexeme.text_fragment]
      refine .other (calm_append hhead t) (by simp [hkind]) ?_
      exact nameTests_tokenize_of_stands (hstands t) h.nameTests_eq
  | identifier hn =>
      rw [Fragment.text_identifier]
      exact h.identifier hn
  | className hn =>
      exact h.signed ['.'] (fun hm hu => .className hm hu.1) Fragment.text_className (by decide) rfl
        (fun m => rfl) (fun m => rfl) hn
  | id hn =>
      exact h.signed ['#'] (fun hm hu => .id hm hu.1) Fragment.text_id (by decide) rfl
        (fun m => rfl) (fun m => rfl) hn
  | pseudo colons hn =>
      have hcolon : (List.replicate (colons + 1) ':').head?.any isCalm = true := by
        rw [List.replicate_succ, List.head?_cons, Option.any_some]
        decide
      exact h.signed _ (fun hm hu => .pseudo hm hu.1 hu.2)
        (fun m => Fragment.text_pseudo m (colons + 1)) hcolon rfl (fun m => rfl) (fun m => rfl) hn

/-- Firm fragments are read in front of what is read already, names that meet being one. -/
theorem render_append {gs : List Fragment} (hgs : ∀ g ∈ gs, Firm g) (h : ReadAs t fs) :
    ReadAs (render gs ++ t) (gs.foldr Fragment.joinName fs) := by
  induction gs with
  | nil => exact h
  | cons g gs ih =>
      rw [render_cons, List.append_assoc, List.foldr_cons]
      exact (ih fun d hd => hgs d (List.mem_cons_of_mem g hd)).cons (hgs g List.mem_cons_self)

end ReadAs

def openSigns : List Char := ['.', '#', ':', '/', '\\', '[', '(']

/-- A fragment that may take in what is written behind it or be taken in by what is written before
it: an argument list, string or comment that is never closed, or a character that is no fragment of
its own but a sign or part of a name. -/
def Fragment.isLoose : Fragment → Bool
  | .function _ _ _ closed => !closed
  | .string (q :: body) => ((stringScan true q).cut false body).2.isEmpty
  | .comment ('/' :: '*' :: body) => (commentScan.cut false body).2.isEmpty
  | .raw t => t.any fun c => isNamePart c || openSigns.contains c
  | _ => false

theorem isCalm_of_isGap {c : Char} (h : isGap c = true) : isCalm c = true := by
  simp only [isGap, isSpace, isCombinator, Bool.or_eq_true, decide_eq_true_eq] at h
  rcases h with ((((rfl | rfl) | rfl) | rfl) | rfl) | (rfl | rfl) | rfl <;> decide

theorem isCalm_of_isQuote {c : Char} (h : isQuote c = true) : isCalm c = true := by
  simp only [isQuote, Bool.or_eq_true, decide_eq_true_eq] at h
  rcases h with rfl | rfl <;> decide

theorem firm_gap {f : Fragment} {c : Char} {r : Text} (hf : f.isBreak = true)
    (htext : f.text = c :: r) (hall : (c :: r).all isGap = true) : Firm f := by
  refine .gap hf ?_ (htext ▸ hall)
  rw [List.all_cons, Bool.and_eq_true] at hall
  rw [htext, List.head?_cons, Option.any_some, isCalm_of_isGap hall.1]

theorem Lexeme.stands_raw {c : Char} {t : Text} (h : Stands (leaf (.raw [c])) t)
    (hloose : (Fragment.raw [c]).isLoose = false) :
    isCalm c = true ∧ ∀ u, Stands (leaf (.raw [c])) u := by
  have hraw : StartsNothing c t := by
    cases h with
    | raw hraw => exact hraw
  simp only [Fragment.isLoose, openSigns, List.any_cons, List.any_nil, Bool.or_false,
    Bool.or_eq_false_iff, List.contains_eq_mem, List.mem_cons, List.not_mem_nil, or_false,
    decide_eq_false_iff_not, not_or] at hloose
  obtain ⟨hpart, hdot, hhash, hcolon, hslash, hback, hbracket, hparen⟩ := hloose
  have hstart : isNameStart c = false := by
    rw [isNamePart, Bool.or_eq_false_iff] at hpart
    exact hpart.1
  refine ⟨by simp [isCalm, hpart, hback, hparen], fun u => .raw ?_⟩
  exact ⟨name?_cons_of_sign hstart hback u, fun hc => absurd hc (not_or.2 ⟨hdot, hhash⟩),
    fun hc => absurd hc hbracket, fun hc => absurd hc hcolon, hraw.space, hraw.combinator,
    hraw.star, hraw.quote, fun hc => absurd hc hslash⟩

/-- What was read is firm unless it is loose. -/
theorem Lexeme.Stands.firm {x : Lexeme} {t : Text} (h : Stands x t)
    (hloose : x.fragment.isLoose = false) : Firm x.fragment := by
  cases h with
  | identifier hn _ => exact .identifier hn
  | className hn _ => exact .className hn
  | id hn _ => exact .id hn
  | pseudo hn _ _ => exact .pseudo _ hn
  | attr he => exact .solid rfl rfl fun u => .attr he
  | call hn he => exact .solid rfl rfl fun u => .call hn he
  | universal => exact .solid rfl rfl fun u => .universal
  | string hq hp hend => exact .solid rfl (isCalm_of_isQuote hq) fun u => .string hq hp hend
  | comment hp hstar => exact .solid rfl rfl fun u => .comment hp hstar
  | @combinator lead trail _ d hlead hd htrail _ =>
      obtain ⟨c, r, hcr⟩ := List.exists_cons_of_ne_nil (List.append_ne_nil_of_right_ne_nil lead
        (List.cons_ne_nil d trail))
      have hall := all_isGap_combinator hlead hd htrail
      rw [hcr] at hall
      exact firm_gap rfl ((Fragment.text_combinator _).trans hcr) hall
  | whitespace hs _ =>
      exact firm_gap rfl (Fragment.text_whitespace _) (all_isGap_of_all_isSpace hs)
  | @raw c _ hraw =>
      obtain ⟨hcalm, hstands⟩ := stands_raw (.raw hraw) hloose
      exact .solid rfl (by simpa using hcalm) hstands
  -- the scan for its end passes over all of an unclosed string or comment
  | @lineString q _ body _ hq hp _ _ =>
      rw [Lexeme.fragment, Fragment.isLoose, show (stringScan true q).cut false body = _ from hp]
        at hloose
      exact absurd hloose (by simp)
  | @openString q body hq hp =>
      rw [Lexeme.fragment, Fragment.isLoose, show (stringScan true q).cut false body = _ from hp]
        at hloose
      exact absurd hloose (by simp)
  | @openComment body hp =>
      rw [Lexeme.fragment, Fragment.isLoose, show commentScan.cut false body = _ from hp] at hloose
      exact absurd hloose (by simp)
  | openCall _ _ => exact absurd hloose (by simp [Lexeme.fragment, Fragment.isLoose])

theorem firm_of_mem_tokenize {t : Text} {f : Fragment} (h : f ∈ tokenize t)
    (hloose : f.isLoose = false) : Firm f := by
  obtain ⟨c, r, rfl⟩ := exists_read_of_mem_tokenize h
  exact (Lexeme.stands_read c r).firm hloose

/-- What holds of any two lexemes in a row holds of fragments that stand next to each other. -/
theorem isChain_of_stands {R : Fragment → Fragment → Prop}
    (h : ∀ {x y : Lexeme} {t : Text}, x.Stands (y.text ++ t) → y.Stands t →
      R x.fragment y.fragment) (t : Text) : (tokenize t).IsChain R := by
  induction hfs : tokenize t generalizing t with
  | nil => exact .nil
  | cons f fs ih =>
      obtain ⟨x, u, hx, -, rfl, hu⟩ := exists_stands_of_tokenize hfs
      refine List.isChain_cons.2 ⟨fun g hg => ?_, ih u hu⟩
      obtain ⟨gs, rfl⟩ := List.head?_eq_some_iff.1 (Option.mem_def.1 hg)
      obtain ⟨y, v, hy, rfl, rfl, -⟩ := exists_stands_of_tokenize hu
      exact h hx hy

theorem Lexeme.Stands.apart {x y : Lexeme} {t : Text} (hx : x.Stands (y.text ++ t))
    (hy : y.Stands t) : x.fragment.Apart y.fragment := by
  cases hname : y.fragment.isIdentifier with
  | false => rw [Fragment.Apart, hname, Bool.and_false]
  | true =>
      have hn : ¬NameEnds (y.text ++ t) := by
        cases hy with
        | identifier hm _ =>
            rw [Lexeme.text_leaf, Fragment.text_identifier]
            exact hm.not_nameEnds t
        | _ => exact absurd hname (by simp [Lexeme.fragment, Fragment.isIdentifier])
      generalize y.text ++ t = u at hx hn
      cases hx with
      | identifier _ hend => exact absurd hend hn
      | className _ hend => exact absurd hend hn
      | id _ hend => exact absurd hend hn
      | pseudo _ hend _ => exact absurd hend hn
      | _ => rfl

/-- A name is read to its end, so no type selector follows a name directly. -/
theorem isChain_tokenize (t : Text) : (tokenize t).IsChain Fragment.Apart :=
  isChain_of_stands Lexeme.Stands.apart t

/-- The characters that fragments between compound parts start with. -/
def startsBreak (c : Char) : Bool := isGap c || c = '/'

theorem isCalm_of_startsBreak {c : Char} (h : startsBreak c = true) : isCalm c = true := by
  rw [startsBreak, Bool.or_eq_true, decide_eq_true_eq] at h
  obtain h | rfl := h
  · exact isCalm_of_isGap h
  · decide

/-- Nothing can be read across a break, so what follows it does not matter. -/
theorem looksLike_of_startsBreak {c : Char} (h : startsBreak c = true) (r r' : Text) :
    LooksLike (c :: r) (c :: r') := by
  have hcolon : c ≠ ':' := by
    rintro rfl
    exact absurd h (by decide)
  have hcalm := isCalm_of_startsBreak h
  simp only [isCalm, isNamePart, Bool.and_eq_true, Bool.not_eq_true', decide_eq_true_eq,
    Bool.or_eq_false_iff] at hcalm
  have hname (u : Text) : name? (c :: u) = none := name?_cons_of_sign hcalm.1.1.1 hcalm.1.2 u
  have hdrop (u : Text) : (c :: u).dropWhile (· = ':') = c :: u :=
    List.dropWhile_cons_of_neg (by simpa using hcolon)
  exact ⟨rfl, by rw [hname, hname], by rw [hdrop, hdrop, hname, hname]⟩

namespace Lexeme
variable {x : Lexeme} {s : Text} (hx : x.Stands s) (hbreak : x.fragment.isBreak = true)
include hx hbreak

/-- A fragment between compound parts is a gap, or a comment that can stand anywhere unless the text
ends with it. -/
theorem Stands.gap_or_comment :
    x.text.all isGap = true ∨ (x.text.head? = some '/' ∧ (s = [] ∨ ∀ t, x.Stands t)) := by
  cases hx with
  | combinator hlead hd htrail _ =>
      rw [text_leaf, Fragment.text_combinator]
      exact .inl (all_isGap_combinator hlead hd htrail)
  | whitespace hs _ =>
      rw [text_leaf, Fragment.text_whitespace]
      exact .inl (all_isGap_of_all_isSpace hs)
  | comment hp hstar => exact .inr ⟨by simp, .inr fun t => .comment hp hstar⟩
  | openComment hp => exact .inr ⟨by simp, .inl rfl⟩
  | _ =>
      exact absurd hbreak (by simp [fragment, Fragment.isBreak, Fragment.isSeparator,
        Fragment.isComment])

theorem Stands.exists_startsBreak : ∃ c r, x.text = c :: r ∧ startsBreak c = true := by
  obtain ⟨c, r, hcr⟩ := List.exists_cons_of_ne_nil hx.text_ne_nil
  refine ⟨c, r, hcr, ?_⟩
  obtain hgap | ⟨hslash, -⟩ := hx.gap_or_comment hbreak
  · rw [hcr, List.all_cons, Bool.and_eq_true] at hgap
    rw [startsBreak, hgap.1, Bool.true_or]
  · rw [hcr, List.head?_cons, Option.some.injEq] at hslash
    rw [hslash]
    rfl

/-- It adds nothing to the type, class and id selectors of another text either, if that ends where
the first one did. -/
theorem Stands.nameTests_tokenize {t : Text} (hend : s = [] → t = []) :
    nameTests (tokenize (x.text ++ t)) = nameTests (tokenize t) := by
  obtain hgap | ⟨-, hstands⟩ := hx.gap_or_comment hbreak
  · exact nameTests_tokenize_gap_append hgap t
  · have hstands : x.Stands t := by
      obtain hs | hall := hstands
      · rw [hend hs, ← hs]
        exact hx
      · exact hall t
    rw [tokenize_of_stands hstands, nameTests_cons_of_neg (Fragment.kind_of_isBreak hbreak).1]

end Lexeme

end StyleScope.Selector
