/-!
JSON documents as written: numbers keep their literal, objects keep the order and the repetition of
their members.  What a number or a repeated member means is for the reader of the document to say.
-/

namespace StepQuery

inductive Json where
  | null
  | bool (value : Bool)
  | number (literal : String)
  | string (value : String)
  | array (items : List Json)
  | object (members : List (String × Json))
deriving Inhabited, Repr

namespace Json

/-- Why a text is no JSON document: a character that cannot stand where it stands, or an early
end. -/
inductive Fault where
  | unexpected
  | ended
deriving DecidableEq, Repr

/-- The last member with the given key, which is the one that counts. -/
def member? (members : List (String × Json)) (key : String) : Option Json :=
  (members.reverse.find? fun member => member.1 == key).map (·.2)

/-- The members with their exact repetitions removed: the last value of a key stands at the key's
place in ascending order. -/
def insertMember (key : String) (value : Json) :
    List (String × Json) → List (String × Json)
  | [] => [(key, value)]
  | (other, held) :: rest =>
    if key = other then (key, value) :: rest
    else if key < other then (key, value) :: (other, held) :: rest
    else (other, held) :: insertMember key value rest

def sortMembers (members : List (String × Json)) : List (String × Json) :=
  members.foldl (fun sorted member => insertMember member.1 member.2 sorted) []

end Json

end StepQuery
