import StyleScope.Json.Value
import StyleScope.Selector.Lexeme

/-! # Listing fragments

The fragments of a selector as structured data, one object for each: its kind, and then its name,
its text, or the pieces of a pseudo selector.
-/
namespace StyleScope.Selector
open Json

def Fragment.kind : Fragment → Text
  | identifier _ => "identifier".toList
  | universal => "universal".toList
  | id _ => "id".toList
  | className _ => "class".toList
  | attr _ => "attribute".toList
  | pseudo colons _ | function colons _ _ _ =>
    if colons = 1 then "pseudo-class".toList else "pseudo-element".toList
  | combinator _ => "combinator".toList
  | whitespace _ => "whitespace".toList
  | string _ => "string".toList
  | comment _ => "comment".toList
  | raw _ => "raw".toList

def listingOf (f : Fragment) (members : List (String × Value)) : Value :=
  .object (("kind".toList, .string f.kind) :: members.map fun m => (m.1.toList, m.2))

def pseudoMembers (colons : Nat) (name : Text) (arguments : Value) (closed : Bool) :
    List (String × Value) :=
  [("colons", .number (.natural colons)), ("name", .string name), ("arguments", arguments),
    ("closed", .bool closed)]

mutual
def Fragment.listing : Fragment → Value
  | .identifier n => listingOf (.identifier n) [("name", .string n)]
  | .universal => listingOf .universal []
  | .id n => listingOf (.id n) [("name", .string n)]
  | .className n => listingOf (.className n) [("name", .string n)]
  | .attr t => listingOf (.attr t) [("text", .string t)]
  | .pseudo colons n => listingOf (.pseudo colons n) (pseudoMembers colons n .null true)
  | .function colons n args closed =>
    listingOf (.function colons n args closed)
      (pseudoMembers colons n (.array (listings args)) closed)
  | .combinator t => listingOf (.combinator t) [("text", .string t)]
  | .whitespace t => listingOf (.whitespace t) [("text", .string t)]
  | .string t => listingOf (.string t) [("text", .string t)]
  | .comment t => listingOf (.comment t) [("text", .string t)]
  | .raw t => listingOf (.raw t) [("text", .string t)]

def listings : List Fragment → List Value
  | [] => []
  | f :: fs => f.listing :: listings fs
end

end StyleScope.Selector
