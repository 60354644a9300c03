import Michelson.Size

namespace Michelson

structure Config where
  /-- How many scopes may be open at once. -/
  maxNestingDepth : Nat := 1000
  deriving DecidableEq, Repr

namespace Config

/-- Stack space for one level of nesting. -/
def bytesPerLevel : Nat :=
  128 * 1024

/-- Stack space for code that is not nested. -/
def baseBytes : Nat :=
  1024 * 1024

def maxStackBytes : Nat :=
  1024 * 1024 * 1024

def requiredStack (c : Config) : Nat :=
  Size.add (Size.mul c.maxNestingDepth bytesPerLevel) baseBytes

def stackSize (c : Config) : Nat :=
  min c.requiredStack maxStackBytes

inductive Invalid where
  /-- They are not written as JSON settings. -/
  | notJson
  | zeroNestingDepth
  | nestingDepthTooLarge (n : Nat)
  deriving DecidableEq, Repr

def Invalid.message : Invalid → String
  | notJson => "malformed config"
  | zeroNestingDepth => "max_nesting_depth must be positive"
  | nestingDepthTooLarge n => "max_nesting_depth " ++ toString n ++ " is too large"

def validate (c : Config) : Except Invalid Config :=
  if c.maxNestingDepth = 0 then .error .zeroNestingDepth
  else if maxStackBytes < c.requiredStack then .error (.nestingDepthTooLarge c.maxNestingDepth)
  else .ok c

end Config

end Michelson
