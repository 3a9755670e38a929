import CodeClones.FilePath

/-!
# Programming languages

The languages whose files are searched, told apart by the extension of the file name.
-/

namespace CodeClones

/-- A programming language. -/
inductive Language where
  | python
  | javaScript
  | typeScript
  | go
  | rust
  | java
  deriving DecidableEq, Repr

namespace Language

/-- Every language. -/
def all : List Language := [python, javaScript, typeScript, go, rust, java]

/-- The name of a language. -/
def name : Language → String
  | python => "python"
  | javaScript => "javascript"
  | typeScript => "typescript"
  | go => "go"
  | rust => "rust"
  | java => "java"

/-- The tag of a language in requests and records. -/
def tag : Language → String
  | python => "python"
  | javaScript => "java_script"
  | typeScript => "type_script"
  | go => "go"
  | rust => "rust"
  | java => "java"

/-- The extensions of a language's files. -/
def extensions : Language → List String
  | python => ["py", "pyi"]
  | javaScript => ["js", "jsx", "mjs", "cjs"]
  | typeScript => ["ts", "tsx", "mts", "cts"]
  | go => ["go"]
  | rust => ["rs"]
  | java => ["java"]

/-- The language of a file, by its extension in any case. -/
def ofPath? (path : String) : Option Language := do
  let ext ← FilePath.extension? path
  all.find? fun l => l.extensions.contains (Text.lowerLatin ext)

/-- The language with a tag. -/
def ofTag? (tag : String) : Option Language := all.find? fun l => l.tag == tag

end Language

end CodeClones
