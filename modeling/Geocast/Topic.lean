import Geocast.Text.Pieces

/-!
# Topics and topic filters

A topic is a list of levels, written with slashes between them. A filter may hold wildcards: `+`
stands for any one level, `#` for all further levels and only at the end. A topic without wildcards
is a name, and only names can be published to.

* `Topic.parse` accepts exactly the valid topics, and `Topic.display` writes them back.
* `Topic.accepts`: a filter matches a topic level by level; `a/#` also matches `a`.
-/
namespace Geocast

inductive TopicError where
  | invalidTopic (text : String)
  | invalidLevel (text : String)
  deriving DecidableEq, Repr

def TopicError.message : TopicError → String
  | .invalidTopic text => "InvalidTopic(invalid topic `" ++ text ++ "`)"
  | .invalidLevel text => "InvalidLevel(invalid level `" ++ text ++ "` contains +|#)"

inductive Level where
  | normal (text : String)
  | blank
  | single
  | multi
  deriving DecidableEq, Repr

namespace Level

def hasWildcard (s : String) : Bool := s.toList.any fun c => c == '+' || c == '#'

/-- A wildcard character is never part of a longer level. -/
def isValid : Level → Bool
  | normal text => !hasWildcard text
  | _ => true

def isWildcard : Level → Bool
  | single | multi => true
  | _ => false

def parse (s : String) : Except TopicError Level :=
  if s == "+" then .ok single
  else if s == "#" then .ok multi
  else if s == "" then .ok blank
  else if hasWildcard s then .error (.invalidLevel s)
  else .ok (normal s)

def display : Level → String
  | normal text => text
  | blank => ""
  | single => "+"
  | multi => "#"

/-- The place of the kinds of levels in their order. -/
def rank : Level → Nat
  | normal _ => 0
  | blank => 1
  | single => 2
  | multi => 3

/-- Normal levels by their text, then the blank level, then the wildcards. -/
def order : Level → Level → Ordering
  | normal s, normal t => compare s t
  | a, b => compare a.rank b.rank

end Level

structure Topic where
  levels : List Level
  deriving DecidableEq, Repr

namespace Topic

/-- Whether `#` stands nowhere but at the end. -/
def multiOnlyLast : List Level → Bool
  | [] => true
  | [_] => true
  | l :: rest => l != .multi && multiOnlyLast rest

/-- Whether all levels are valid and `#` stands nowhere but at the end. -/
def isValid (t : Topic) : Bool := t.levels.all Level.isValid && multiOnlyLast t.levels

/-- The topic with one more level at its end. -/
def push (t : Topic) (l : Level) : Topic := ⟨t.levels ++ [l]⟩

/-- Whether the topic has no wildcards, so that it can be published to. -/
def isName (t : Topic) : Bool := !t.levels.any Level.isWildcard

/-! ## Text -/

/-- The pieces of a text between slashes; one more than there are slashes. -/
def segments (cs : List Char) : List (List Char) := Text.pieces '/' cs

/-- The topic with the given text: the first level that mixes a wildcard with other text is
refused, else a `#` that is not at the end. -/
def parse (s : String) : Except TopicError Topic := do
  let levels ← (segments s.toList).mapM fun piece => Level.parse (String.ofList piece)
  if isValid ⟨levels⟩ then pure ⟨levels⟩ else throw (.invalidTopic s)

/-- The levels with slashes between them. -/
def display (t : Topic) : String := "/".intercalate (t.levels.map Level.display)

/-! ## Matching -/

/-- Whether the levels of a filter match the levels of a topic. -/
def matchLevels : List Level → List Level → Bool
  | [], [] => true
  | [], _ :: _ => false
  | .multi :: rest, [] => rest.isEmpty
  | _ :: _, [] => false
  | .multi :: _, _ :: _ => true
  | .single :: filter, _ :: topic => matchLevels filter topic
  | f :: filter, l :: topic => f == l && matchLevels filter topic

/-- Whether the filter matches the topic. -/
def accepts (filter topic : Topic) : Bool := matchLevels filter.levels topic.levels

/-- The order of lists of levels: level by level, a beginning of a list before the list. -/
def orderLevels : List Level → List Level → Ordering
  | [], [] => .eq
  | [], _ :: _ => .lt
  | _ :: _, [] => .gt
  | a :: as, b :: bs => (Level.order a b).then (orderLevels as bs)

def order (s t : Topic) : Ordering := orderLevels s.levels t.levels

end Topic

end Geocast
