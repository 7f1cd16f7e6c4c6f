import StyleScope.Basic

/-! # Selector fragments

A fragment is one lexical unit of a selector: a name, an attribute test, a pseudo selector, a
separator, or a character that fits nowhere. Fragments keep the text they were read from, so a
sequence of fragments has one written form, `render`. Fragments are written in front of what follows
them, so that arguments are not copied once more for each selector around them.

A pseudo selector with arguments is a fragment of its own, `function`, and holds the fragments of
its arguments. It is a pseudo class when it has one colon and a pseudo element otherwise.
-/
namespace StyleScope.Selector
open Text

inductive Fragment where
  /-- A type selector. -/
  | identifier (name : Text)
  /-- The selector `*`. -/
  | universal
  /-- The name after `#`. -/
  | id (name : Text)
  /-- The name after a period. -/
  | className (name : Text)
  /-- An attribute test with its brackets. -/
  | attr (text : Text)
  /-- A pseudo selector without arguments. -/
  | pseudo (colons : Nat) (name : Text)
  /-- A pseudo selector with arguments; not `closed` when the text ends before its parenthesis. -/
  | function (colons : Nat) (name : Text) (arguments : List Fragment) (closed : Bool)
  /-- One of `>`, `+`, `~` with the space around it. -/
  | combinator (text : Text)
  | whitespace (text : Text)
  /-- A string with its quotes. -/
  | string (text : Text)
  | comment (text : Text)
  /-- A character that no other fragment takes. -/
  | raw (text : Text)
deriving Repr, Inhabited

mutual
/-- The written form of a fragment in front of a text. -/
def Fragment.textBefore (tail : Text) : Fragment → Text
  | .identifier name => name ++ tail
  | .universal => '*' :: tail
  | .id name => '#' :: name ++ tail
  | .className name => '.' :: name ++ tail
  | .attr text => text ++ tail
  | .pseudo colons name => List.replicate colons ':' ++ name ++ tail
  | .function colons name arguments closed =>
    List.replicate colons ':' ++ name ++
      '(' :: renderBefore ((if closed then [')'] else []) ++ tail) arguments
  | .combinator text => text ++ tail
  | .whitespace text => text ++ tail
  | .string text => text ++ tail
  | .comment text => text ++ tail
  | .raw text => text ++ tail

/-- The written form of a sequence of fragments in front of a text. -/
def renderBefore (tail : Text) : List Fragment → Text
  | [] => tail
  | f :: fs => f.textBefore (renderBefore tail fs)
end

def Fragment.text (f : Fragment) : Text := f.textBefore []

def render (fs : List Fragment) : Text := renderBefore [] fs

mutual
theorem Fragment.textBefore_append (tail u : Text) : ∀ f : Fragment,
    f.textBefore tail ++ u = f.textBefore (tail ++ u)
  | .identifier _ => by simp [Fragment.textBefore]
  | .universal => by simp [Fragment.textBefore]
  | .id _ => by simp [Fragment.textBefore]
  | .className _ => by simp [Fragment.textBefore]
  | .attr _ => by simp [Fragment.textBefore]
  | .pseudo _ _ => by simp [Fragment.textBefore]
  | .function _ _ _ _ => by simp [Fragment.textBefore, renderBefore_append]
  | .combinator _ => by simp [Fragment.textBefore]
  | .whitespace _ => by simp [Fragment.textBefore]
  | .string _ => by simp [Fragment.textBefore]
  | .comment _ => by simp [Fragment.textBefore]
  | .raw _ => by simp [Fragment.textBefore]

theorem renderBefore_append (tail u : Text) : ∀ fs : List Fragment,
    renderBefore tail fs ++ u = renderBefore (tail ++ u) fs
  | [] => rfl
  | f :: fs => by
    rw [renderBefore, renderBefore, Fragment.textBefore_append, renderBefore_append]
end

theorem Fragment.textBefore_eq (tail : Text) (f : Fragment) : f.textBefore tail = f.text ++ tail :=
  (Fragment.textBefore_append [] tail f).symm

theorem renderBefore_eq (tail : Text) (fs : List Fragment) :
    renderBefore tail fs = render fs ++ tail :=
  (renderBefore_append [] tail fs).symm

section
variable (name text : Text)

@[simp] theorem Fragment.text_identifier : (Fragment.identifier name).text = name := by
  simp [Fragment.text, Fragment.textBefore]

@[simp] theorem Fragment.text_universal : Fragment.universal.text = ['*'] := by
  simp [Fragment.text, Fragment.textBefore]

@[simp] theorem Fragment.text_id : (Fragment.id name).text = '#' :: name := by
  simp [Fragment.text, Fragment.textBefore]

@[simp] theorem Fragment.text_className : (Fragment.className name).text = '.' :: name := by
  simp [Fragment.text, Fragment.textBefore]

@[simp] theorem Fragment.text_attr : (Fragment.attr text).text = text := by
  simp [Fragment.text, Fragment.textBefore]

@[simp] theorem Fragment.text_pseudo (colons : Nat) :
    (Fragment.pseudo colons name).text = List.replicate colons ':' ++ name := by
  simp [Fragment.text, Fragment.textBefore]

@[simp] theorem Fragment.text_function (colons : Nat) (arguments : List Fragment) (closed : Bool) :
    (Fragment.function colons name arguments closed).text =
      List.replicate colons ':' ++ name ++ '(' :: render arguments ++
        if closed then [')'] else [] := by
  simp [Fragment.text, Fragment.textBefore, renderBefore_eq]

@[simp] theorem Fragment.text_combinator : (Fragment.combinator text).text = text := by
  simp [Fragment.text, Fragment.textBefore]

@[simp] theorem Fragment.text_whitespace : (Fragment.whitespace text).text = text := by
  simp [Fragment.text, Fragment.textBefore]

@[simp] theorem Fragment.text_string : (Fragment.string text).text = text := by
  simp [Fragment.text, Fragment.textBefore]

@[simp] theorem Fragment.text_comment : (Fragment.comment text).text = text := by
  simp [Fragment.text, Fragment.textBefore]

@[simp] theorem Fragment.text_raw : (Fragment.raw text).text = text := by
  simp [Fragment.text, Fragment.textBefore]

end

@[simp] theorem render_nil : render [] = [] := rfl

@[simp] theorem render_cons (f : Fragment) (fs : List Fragment) :
    render (f :: fs) = f.text ++ render fs :=
  Fragment.textBefore_eq (render fs) f

@[simp] theorem render_append (fs gs : List Fragment) :
    render (fs ++ gs) = render fs ++ render gs := by
  induction fs with
  | nil => rfl
  | cons f fs ih => rw [List.cons_append, render_cons, render_cons, ih, List.append_assoc]

namespace Fragment

def name? : Fragment → Option Text
  | identifier n | id n | className n | pseudo _ n | function _ n _ _ => some n
  | _ => none

def arguments? : Fragment → Option (List Fragment)
  | function _ _ args _ => some args
  | _ => none

/-- Combinators and whitespace separate compound parts wherever they stand. -/
def isSeparator : Fragment → Bool
  | combinator _ | whitespace _ => true
  | _ => false

def isComment : Fragment → Bool
  | comment _ => true
  | _ => false

def isType : Fragment → Bool
  | identifier _ | universal => true
  | _ => false

/-- A fragment that can carry the element token. -/
def isScopable : Fragment → Bool
  | identifier _ | universal | id _ | className _ | attr _ => true
  | _ => false

/-- A stray bracket or an argument list that is never closed. -/
def isUnbalanced : Fragment → Bool
  | raw t => t = ['['] || t = [']'] || t = ['('] || t = [')']
  | function _ _ _ closed => !closed
  | _ => false

/-- Whitespace and comments, which can be dropped at either end of a selector. -/
def isPadding : Fragment → Bool
  | whitespace _ | comment _ => true
  | _ => false

end Fragment

/-- The fragments without the padding around them. -/
def trimFragments (fs : List Fragment) : List Fragment :=
  ((fs.dropWhile Fragment.isPadding).reverse.dropWhile Fragment.isPadding).reverse

/-- The trimmed arguments of a pseudo selector; none are written as no arguments. -/
def Fragment.trimmedArguments (f : Fragment) : List Fragment :=
  trimFragments (f.arguments?.getD [])

end StyleScope.Selector
