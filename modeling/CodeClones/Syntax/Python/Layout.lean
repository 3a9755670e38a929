import CodeClones.Syntax.Lexeme

/-!
# Lines and indentation

A line end closes a simple statement, a deeper line opens a block, and a shallower one closes it.
Inside brackets lines carry no meaning. Wherever a statement cannot end, a line end is a blank like
any other, unless the next line is shallower than the open block. Comment lines belong to the open
block as long as the first of them is not shallower than it.
-/

namespace CodeClones.Syntax.Python

/-- Whether a character is a blank between tokens. -/
def isGap (c : Char) : Bool :=
  Text.isBlank c || c == '\uFEFF' || c == '\u2060' || c == '\u200B'

/-- The place behind a backslash and the line end after it. -/
def joinedLine (src : Source) (i : Nat) : Option Nat :=
  if src[i]? = some '\\' then
    let j := if src[i + 1]? = some '\r' then i + 2 else i + 1
    if src[j]? = some '\n' then some (j + 1) else if j = src.size then some j else none
  else none

/-- The place of the end of the line. -/
def lineEnd (src : Source) (i : Nat) : Nat := spanEnd (· != '\n') src i

/-- What stands between a place and the next token. -/
structure Gap where
  /-- Whether a line ends, or the source. -/
  ended : Bool := false
  /-- Width of the blanks in front of the next token. -/
  width : Nat := 0
  /-- Width of the blanks in front of the first comment on a line of its own. -/
  comment : Option Nat := none
  /-- Place behind the first comment. -/
  commentEnd : Option Nat := none
  /-- Place of the next token. -/
  next : Nat

/-- Measures the gap from a place on. Comments count as blanks if `overComments` and a line has
ended before them. -/
def gapFrom (src : Source) (overComments : Bool) : Nat → Gap → Gap
  | 0, g => g
  | fuel + 1, g =>
    match src[g.next]? with
    | none => { g with ended := true, width := 0 }
    | some c =>
      let step (ended : Bool) (width next : Nat) : Gap :=
        gapFrom src overComments fuel { g with ended, width, next }
      if c = '\n' then step true 0 (g.next + 1)
      else if c = ' ' then step g.ended (g.width + 1) (g.next + 1)
      else if c = '\r' ∨ c.toNat = 12 then step g.ended 0 (g.next + 1)
      else if c = '\t' then step g.ended (g.width + 8) (g.next + 1)
      else if c = '#' ∧ overComments then
        if !g.ended then g
        else
          let stop := lineEnd src g.next
          gapFrom src overComments fuel
            { g with
              comment := g.comment.orElse fun _ => some g.width
              commentEnd := g.commentEnd.orElse fun _ => some stop
              width := 0
              next := min (stop + 1) src.size }
      else
        match joinedLine src g.next with
        | some next => step g.ended g.width next
        | none => g

/-- The gap behind a place. -/
def gapAt (src : Source) (overComments : Bool) (pos : Nat) : Gap :=
  gapFrom src overComments (src.size + 1 - pos) { next := pos }

/-- Whether a gap closes the innermost block. -/
def Gap.closes (g : Gap) (indents : List Nat) : Bool :=
  let current := indents.headD 0
  g.ended && g.width < current && g.comment.all (· < current)

/-- The place behind blanks, joined lines and comments. -/
def skipGaps (src : Source) : Nat → Nat → Nat
  | 0, i => i
  | fuel + 1, i =>
    match src[i]? with
    | none => i
    | some c =>
      if isGap c then skipGaps src fuel (i + 1)
      else if c = '#' then skipGaps src fuel (lineEnd src i)
      else
        match joinedLine src i with
        | some j => if i < j then skipGaps src fuel j else i
        | none => i

/-- The start of the next token inside a statement. A shallower line must not begin there outside
brackets, except with a string. -/
def lead : Lead := fun src c =>
  let next := skipGaps src (src.size + 1) c.pos
  if c.brackets = 0 then
    let g := gapAt src false c.pos
    let quote := charIs (fun c => c == '"' || c == '\'') src g.next
    if g.closes c.indents && !quote then none else some next
  else some next

/-- Succeeds where a token may go on with a statement that could also end: no line ends before it,
unless brackets are open. -/
def near : Scanner := fun src c =>
  if c.brackets ≠ 0 then some (c.pos, c)
  else
    let g := gapAt src true c.pos
    if g.ended || src[g.next]? = some '#' then none else some (c.pos, c)

/-- Takes the line end behind a simple statement, with a comment before it. -/
def newline : Scanner := fun src c =>
  let g := gapAt src true c.pos
  if g.ended then some (c.pos, c)
  else if src[g.next]? = some '#' then
    let stop := lineEnd src g.next
    some (c.pos, { c with pos := stop })
  else none

/-- Opens a block on a deeper line, behind a comment on the header's line. -/
def indent : Scanner := fun src c => do
  let (_, c) ← newline src c
  let g := gapAt src true c.pos
  if c.indents.headD 0 < g.width && g.ended then
    some (c.pos, { c with indents := g.width :: c.indents })
  else none

/-- Closes a block before a shallower line, with the comments that belong to the block. -/
def dedentFrom (src : Source) : Nat → Cursor → Option Cursor
  | 0, _ => none
  | fuel + 1, c =>
    let g := gapAt src true c.pos
    if g.closes c.indents then some { c with indents := c.indents.tail }
    else
      match g.commentEnd with
      | some stop => if c.pos < stop then dedentFrom src fuel { c with pos := stop } else none
      | none => none

/-- Closes the innermost block. -/
def dedent : Scanner := fun src c =>
  (dedentFrom src (src.size + 1 - c.pos) c).map fun c' => (c.pos, c')

/-- Goes to the next statement of the open block. -/
def boundary : Scanner := fun src c =>
  match dedentFrom src (src.size + 1 - c.pos) c with
  | some _ => none
  | none =>
    let next := skipGaps src (src.size + 1) c.pos
    if next < src.size then some (c.pos, { c with pos := next }) else none

/-- Takes all that is left if it holds no token. -/
def atEnd : Scanner := fun src c =>
  let next := skipGaps src (src.size + 1) c.pos
  if next = src.size then some (next, { c with pos := next }) else none

end CodeClones.Syntax.Python
