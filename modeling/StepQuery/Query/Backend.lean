import StepQuery.Failure

/-!
The versions of the database that queries are written for, and the features that tell them apart.
-/

namespace StepQuery

inductive Backend where
  | mongo36
  | mongo40
  | mongo42
  | mongo50
deriving DecidableEq, Repr

/-- What a step may need of a version. -/
inductive Feature where
  | convert
  | trim
  | regexMatch
  | dateFormat
deriving DecidableEq, Repr

namespace Backend

def all : List Backend := [.mongo36, .mongo40, .mongo42, .mongo50]

def name : Backend → String
  | .mongo36 => "mongo36"
  | .mongo40 => "mongo40"
  | .mongo42 => "mongo42"
  | .mongo50 => "mongo50"

/-- The version that is meant when none is named. -/
def usual : Backend := .mongo50

def ofName? (name : String) : Option Backend := all.find? fun backend => backend.name == name

def supports : Backend → Feature → Bool
  | .mongo36, _ => false
  | .mongo40, feature => feature != .regexMatch
  | .mongo42, _ => true
  | .mongo50, _ => true

def require (backend : Backend) (feature : Feature) (what : String) : Attempt Unit :=
  if backend.supports feature then .ok ()
  else Attempt.fail (.featureMissing what backend.name)

end Backend

end StepQuery
