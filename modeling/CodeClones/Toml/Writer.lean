import CodeClones.Decimal.Notation
import CodeClones.Digest.Hex
import CodeClones.Toml.Value

/-!
# Writing TOML

A table comes under a header that names its path, its plain values first and its tables behind them,
with a blank line before every header but the first. The items of an array stand on lines of their
own.
-/

namespace CodeClones.Toml

/-- The characters that stand for one character inside a string. -/
def escapeChar (c : Char) : List Char :=
  if c = '"' then ['\\', '"']
  else if c = '\\' then ['\\', '\\']
  else if c = '\n' then ['\\', 'n']
  else if c = '\r' then ['\\', 'r']
  else if c = '\t' then ['\\', 't']
  else if c.toNat < 32 ∨ c.toNat = 127 then
    ['\\', 'u', '0', '0', Digest.hexDigit (c.toNat.toUInt8 >>> 4),
      Digest.hexDigit (c.toNat.toUInt8 &&& 15)]
  else [c]

/-- A string with its quotes. -/
def quoted (s : String) : String :=
  String.ofList ('"' :: s.toList.flatMap escapeChar ++ ['"'])

/-- A floating-point number; a whole one keeps the fraction `.0`. -/
def floatText (x : Float) : String :=
  match Decimal.read64 x with
  | .notNumber => "nan"
  | .infinite negative => Decimal.signText negative ++ "inf"
  | .finite negative m q =>
    let d := Decimal.shortest .double m q
    Decimal.signText negative ++ Decimal.positional true d

mutual

/-- A value behind its key. -/
def Value.text : Value → String
  | .string s => quoted s
  | .integer n => toString n
  | .float x => floatText x
  | .bool b => if b then "true" else "false"
  | .moment => "0001-01-01"
  | .array [] => "[]"
  | .array (v :: rest) => "[\n" ++ itemLines (v :: rest) ++ "]"
  | .table entries => "\x7b" ++ entriesText entries ++ "\x7d"

/-- The lines of the items of an array. -/
def itemLines : List Value → String
  | [] => ""
  | v :: rest => "    " ++ v.text ++ ",\n" ++ itemLines rest

/-- The entries of a table in braces. -/
def entriesText : List (String × Value) → String
  | [] => ""
  | [(k, v)] => k ++ " = " ++ v.text
  | (k, v) :: rest => k ++ " = " ++ v.text ++ ", " ++ entriesText rest

end

/-- The lines of the plain values of a table. -/
def plainLines : List (String × Value) → String
  | [] => ""
  | (_, .table _) :: rest => plainLines rest
  | (k, v) :: rest => k ++ " = " ++ v.text ++ "\n" ++ plainLines rest

/-- The sections of the tables of a table, each with a blank line before it. -/
def sections (path : String) : List (String × Value) → String
  | [] => ""
  | (k, .table entries) :: rest =>
    let path' := if path.isEmpty then k else path ++ "." ++ k
    let plain := plainLines entries
    -- a table that holds only tables needs no header of its own
    (if plain.isEmpty && !entries.isEmpty then "" else "\n[" ++ path' ++ "]\n" ++ plain) ++
      sections path' entries ++ sections path rest
  | _ :: rest => sections path rest

/-- The text of a document. -/
def Table.text (t : Table) : String :=
  let plain := plainLines t
  let tables := sections "" t
  if plain.isEmpty then String.ofList (tables.toList.drop 1) else plain ++ tables

end CodeClones.Toml
