import CodeClones.Glob.Basic

/-!
# Reading globs

A glob is read from left to right. Two stars mean directories only where slashes or the ends of the
glob or of an alternative surround them; elsewhere they are two single stars. A backslash takes the
next character literally.
-/

namespace CodeClones

/-- Why a text is no glob. -/
inductive GlobError where
  | unclosedRange
  | invalidRange (low high : Char)
  | unopenedGroup
  | unclosedGroup
  | danglingEscape
  deriving DecidableEq, Repr

/-- The text of an error. -/
def GlobError.message : GlobError → String
  | unclosedRange => "unclosed character class; missing ']'"
  | invalidRange low high =>
    "invalid range; '" ++ String.singleton low ++ "' > '" ++ String.singleton high ++ "'"
  | unopenedGroup =>
    "unopened alternate group; missing '\x7b' (maybe escape '\x7d' with '[\x7d]'?)"
  | unclosedGroup =>
    "unclosed alternate group; missing '\x7d' (maybe escape '\x7b' with '[\x7b]'?)"
  | danglingEscape => "dangling '\\'"

/-- A text that is no glob, and why. -/
structure RefusedGlob where
  text : String
  cause : GlobError
  deriving DecidableEq, Repr

/-- The text of a refusal. -/
def RefusedGlob.message (r : RefusedGlob) : String :=
  "error parsing glob '" ++ r.text ++ "': " ++ r.cause.message

namespace Glob

/-- A glob while it is read: the parts of the present alternative, the last one first, and around
them the open groups, each with its finished alternatives and the parts before it, the last ones
first. -/
structure Draft where
  parts : List GlobPart := []
  groups : List (List (List GlobPart) × List GlobPart) := []

namespace Draft

/-- Adds a part. -/
def push (d : Draft) (part : GlobPart) : Draft := { d with parts := part :: d.parts }

/-- Opens a group. -/
def openGroup (d : Draft) : Draft := ⟨[], ([], d.parts) :: d.groups⟩

/-- Starts the next alternative; outside groups a comma is a character. -/
def comma (d : Draft) : Draft :=
  match d.groups with
  | [] => d.push (.literal ',')
  | (done, before) :: groups => ⟨[], (d.parts.reverse :: done, before) :: groups⟩

/-- Closes the innermost group. -/
def closeGroup (d : Draft) : Except GlobError Draft :=
  match d.groups with
  | [] => .error .unopenedGroup
  | (done, before) :: groups =>
    .ok ⟨.alternatives (d.parts.reverse :: done).reverse :: before, groups⟩

/-- Two stars that are no directories. -/
def twoStars (d : Draft) : Draft := (d.push .anyBytes).push .anyBytes

/-- Replaces the slash before two stars by the directories that the stars mean. -/
def directories (d : Draft) (part : GlobPart) : Draft :=
  match d.parts with
  | .leading :: _ => d
  | .inside :: _ => d
  | _ :: before => { d with parts := part :: before }
  | [] => d.push part

end Draft

/-- Reads two stars behind the character `before`, given what follows them. -/
def readStars (d : Draft) (before : Option Char) (rest : List Char) : Draft × List Char :=
  if d.parts.isEmpty then
    match rest with
    | [] => (d.push .leading, [])
    | '/' :: rest => (d.push .leading, rest)
    | rest => (d.twoStars, rest)
  else if before != some '/' &&
      (d.groups.isEmpty || (before != some ',' && before != some '\x7b')) then
    (d.twoStars, rest)
  else
    match rest with
    | [] => (d.directories .inside, [])
    | '/' :: rest => (d.directories .between, rest)
    | c :: _ =>
      if !d.groups.isEmpty && (c == ',' || c == '\x7d') then (d.directories .inside, rest)
      else (d.twoStars, rest)

/-- Reads the ranges up to the closing bracket, which is a character in the first place; `opened`
tells whether a dash waits for the end of the last range. -/
def readRanges (first opened : Bool) (ranges : List (Char × Char)) :
    List Char → Except GlobError (List (Char × Char) × List Char)
  | [] => .error .unclosedRange
  | c :: rest =>
    if c = ']' ∧ !first then
      .ok ((if opened then ('-', '-') :: ranges else ranges).reverse, rest)
    else if c = '-' ∧ !first ∧ !opened then readRanges false true ranges rest
    else if c = ']' then readRanges false opened ((c, c) :: ranges) rest
    else
      match opened, ranges with
      | true, (low, _) :: ranges =>
        if c < low then .error (.invalidRange low c)
        else readRanges false false ((low, c) :: ranges) rest
      | _, _ => readRanges false false ((c, c) :: ranges) rest

/-- Reads on behind the character `before`; `fuel` bounds the number of parts. -/
def readParts : Nat → Option Char → Draft → List Char → Except GlobError Draft
  | 0, _, d, _ => .ok d
  | _, _, d, [] => .ok d
  | fuel + 1, before, d, c :: rest =>
    match c, rest with
    | '?', _ => readParts fuel '?' (d.push .anyByte) rest
    | '*', '*' :: rest =>
      let (d, left) := readStars d before rest
      readParts fuel (if left.length < rest.length then '/' else '*') d left
    | '*', _ => readParts fuel '*' (d.push .anyBytes) rest
    | '[', _ =>
      let (negated, body) := match rest with
        | '!' :: body => (true, body)
        | '^' :: body => (true, body)
        | body => (false, body)
      match readRanges true false [] body with
      | .ok (ranges, rest) => readParts fuel ']' (d.push (.range negated ranges)) rest
      | .error e => .error e
    | '\x7b', _ => readParts fuel c d.openGroup rest
    | '\x7d', _ => d.closeGroup.bind fun d => readParts fuel c d rest
    | ',', _ => readParts fuel c d.comma rest
    | '\\', [] => .error .danglingEscape
    | '\\', escaped :: rest => readParts fuel escaped (d.push (.literal escaped)) rest
    | c, _ => readParts fuel c (d.push (.literal c)) rest

/-- The glob that a text stands for. -/
def parse (text : String) : Except RefusedGlob Glob :=
  match readParts text.length none {} text.toList with
  | .ok d => if d.groups.isEmpty then .ok d.parts.reverse else .error ⟨text, .unclosedGroup⟩
  | .error cause => .error ⟨text, cause⟩

/-- The globs that some texts stand for, or the first refusal. -/
def parseAll (texts : List String) : Except RefusedGlob (List Glob) := texts.mapM parse

/-- Whether a path fits one of some globs. -/
def fitsAny (globs : List Glob) (path : String) : Bool := globs.any (·.fits path)

end Glob

end CodeClones
