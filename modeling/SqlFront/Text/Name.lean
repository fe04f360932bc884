/-!
# Names

Names are compared without regard to the case of ASCII letters. A name is unquoted by dropping
every quote and square bracket in it.
-/

set_option autoImplicit false

namespace SqlFront

def foldCase (name : String) : List Char := name.toList.map Char.toLower

def sameName (a b : String) : Bool := foldCase a == foldCase b

theorem sameName_iff {a b : String} : sameName a b = true ↔ foldCase a = foldCase b := by
  simp [sameName]

theorem sameName_refl (a : String) : sameName a a = true := by simp [sameName]

theorem sameName_comm (a b : String) : sameName a b = sameName b a := by
  simp [sameName, Bool.beq_comm]

def isQuote (c : Char) : Bool :=
  c == '[' || c == ']' || c == '\x60' || c == '\'' || c == '"'

def unquoted (text : String) : String := String.ofList (text.toList.filter (fun c => !isQuote c))

def withoutSpaces (text : String) : String := String.ofList (text.toList.filter (· != ' '))

def upperCase (text : String) : String := String.ofList (text.toList.map Char.toUpper)

end SqlFront
