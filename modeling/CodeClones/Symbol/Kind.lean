import CodeClones.Text.Basic

/-!
# Kinds of symbols

What a symbol declares, with the names of the kinds and the numeric codes by which language servers
report them.
-/

namespace CodeClones

/-- What a symbol declares. -/
inductive Kind where
  | function
  | «class»
  | method
  | variable
  | constant
  | import
  | interface
  | type
  deriving DecidableEq, Repr

namespace Kind

/-- Every kind, in the order of listings. -/
def all : List Kind :=
  [.function, .class, .method, .variable, .constant, .import, .interface, .type]

/-- The name of a kind. -/
def name : Kind → String
  | .function => "function"
  | .class => "class"
  | .method => "method"
  | .variable => "variable"
  | .constant => "constant"
  | .import => "import"
  | .interface => "interface"
  | .type => "type"

/-- The place of a kind in the order of listings. -/
def rank (k : Kind) : Nat := all.idxOf k

/-- The kind with a name, blanks around it ignored. -/
def ofName? (text : String) : Option Kind := all.find? fun k => k.name == text.trimBlanks

/-- Why a text is refused as the name of a kind. -/
def refusal (text : String) : String :=
  "invalid symbol kind '" ++ text.trimBlanks ++ "', expected one of: function, class, method, " ++
    "variable, constant, import, interface, type"

/-- Reads the name of a kind, blanks around it ignored. -/
def parse (text : String) : Except String Kind :=
  match ofName? text with
  | some kind => .ok kind
  | none => .error (refusal text)

/-- The kind that a language server reports under a code. -/
def ofServerCode? (code : Nat) : Option Kind :=
  if code = 5 then some .class
  else if code = 6 ∨ code = 9 then some .method
  else if code = 12 ∨ code = 25 then some .function
  else if code = 11 then some .interface
  else if code = 14 ∨ code = 22 then some .constant
  else if code = 2 then some .import
  else if code = 7 ∨ code = 8 ∨ code = 13 ∨ (15 ≤ code ∧ code ≤ 21) then some .variable
  else if code = 1 ∨ code = 3 ∨ code = 4 ∨ code = 10 ∨ code = 23 ∨ code = 24 ∨ code = 26 then
    some .type
  else none

end Kind

end CodeClones
