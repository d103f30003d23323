import SolidityFlattener.Text.Basic

/-!
The versions of the virtual machine that compiler settings may name.
-/

namespace SolidityFlattener

inductive EvmVersion
  | petersburg
  | istanbul
  | berlin
  | london
  | paris
  | shanghai
  | cancun
  | prague
deriving DecidableEq, Repr

namespace EvmVersion

/-- All versions, oldest first. -/
def all : List EvmVersion :=
  [petersburg, istanbul, berlin, london, paris, shanghai, cancun, prague]

def name : EvmVersion → Text
  | petersburg => "petersburg".toList
  | istanbul => "istanbul".toList
  | berlin => "berlin".toList
  | london => "london".toList
  | paris => "paris".toList
  | shanghai => "shanghai".toList
  | cancun => "cancun".toList
  | prague => "prague".toList

def ofName? (t : Text) : Option EvmVersion := all.find? fun v => v.name == t

@[simp] theorem ofName?_name (v : EvmVersion) : ofName? v.name = some v := by cases v <;> decide

end EvmVersion

end SolidityFlattener
