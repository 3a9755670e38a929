import CodeClones.SortedMap

/-!
# Recorded file states

For every file that was indexed, the digest of its content and the identifiers of its symbols are
recorded under its path. Comparing the records with the present digests tells which files to index
again and which are gone.
-/

namespace CodeClones

/-- What is recorded of a file. -/
structure FileRecord where
  digest : String
  symbolIds : List String
  deriving DecidableEq, Repr

/-- The records of all indexed files by their paths. -/
abbrev FileState := SortedMap FileRecord

/-- The files to index again, and the files that are gone. -/
structure ChangeSet where
  changed : List String
  deleted : List String
  deriving DecidableEq, Repr

/-- Whether nothing has changed. -/
def ChangeSet.isEmpty (c : ChangeSet) : Bool := c.changed.isEmpty && c.deleted.isEmpty

namespace FileState

/-- Whether the record of a file has another digest, or there is none. -/
def differs (s : FileState) (path digest : String) : Bool :=
  (s.get? path).all fun r => r.digest != digest

/-- The differences between the records and the present digests. -/
def detect (s : FileState) (current : SortedMap String) : ChangeSet where
  changed := (current.entries.filter fun (path, digest) => differs s path digest).map (·.1)
  deleted := s.keys.filter fun path => !current.contains path

end FileState

end CodeClones
