import CodeClones.Syntax.Tree

/-!
# Parsing expressions

A grammar maps each of its sorts to a rule. A rule takes characters from a place on and yields nodes
and the place behind them, or fails. Choices are ordered, repetitions take as much as they can, and
a rule that fails leaves the place where it was. Layout that depends on indentation is part of the
place.
-/

namespace CodeClones.Syntax

/-- A source text by its characters. -/
abbrev Source := Array Char

/-- A place in a source. -/
structure Cursor where
  /-- Number of characters taken. -/
  pos : Nat
  /-- Widths of the open indented blocks, the innermost first. -/
  indents : List Nat := []
  /-- Number of open brackets. -/
  brackets : Nat := 0
  deriving DecidableEq, Repr

/-- Takes one token: the place where it starts, and the cursor behind it. -/
abbrev Scanner := Source → Cursor → Option (Nat × Cursor)

/-- A parsing expression over the sorts of a grammar. -/
inductive Rule (σ : Type) where
  /-- Takes nothing. -/
  | done
  /-- Takes one token as a node. -/
  | leaf (kind : String) (named : Bool) (scan : Scanner)
  /-- Takes one token that leaves no node. -/
  | silent (scan : Scanner)
  /-- Goes on with the rule of a sort. -/
  | call (sort : σ)
  | seq (first second : Rule σ)
  /-- Tries the second rule only where the first fails. -/
  | alt (first second : Rule σ)
  /-- Repeats a rule until it fails or takes nothing. -/
  | many (item : Rule σ)
  /-- Succeeds where the rule would, and takes nothing. -/
  | ahead (test : Rule σ)
  /-- Succeeds where the rule would fail, and takes nothing. -/
  | unless (test : Rule σ)
  /-- Makes what the rule yields the parts of a node. -/
  | node (kind : String) (body : Rule σ)
  /-- Labels what the rule yields with a field. -/
  | field (name : String) (body : Rule σ)
  /-- Fails unless what the rule yields ends in a node of one of the kinds. -/
  | only (kinds : List String) (body : Rule σ)
  /-- A base and any number of links, each a node that takes all before it as its first parts. -/
  | chain (base link : Rule σ)
  /-- A base and perhaps one link, only behind a base that ends in a node of one of the kinds. -/
  | graft (kinds : List String) (base link : Rule σ)
  deriving Inhabited

/-- What a rule yields and the place behind it. -/
abbrev Outcome := Option (List Node × Cursor)

/-- A grammar: the rule of each sort, and how the comments between two places are read. -/
structure Grammar (σ : Type) where
  rule : σ → Rule σ
  comments : Source → Nat → Nat → List Node

/-- A node around parts, up to a place. Comments in front of the first part stay outside. -/
def enclose (kind : String) (parts : List Node) (stop : Nat) : List Node :=
  let inner := parts.dropWhile Node.isComment
  let start := (inner.head?.map Node.start).getD stop
  parts.takeWhile Node.isComment ++ [.mk kind true none start stop inner]

/-- Adds a node behind others: a comment as it is, any other as the node around them. -/
def adoptAll (before : List Node) (n : Node) : List Node :=
  if n.isComment then before ++ [n]
  else
    let inner := before.dropWhile Node.isComment
    before.takeWhile Node.isComment ++ [n.adopt inner]

/-- Whether the last of the nodes is of one of the kinds. -/
def endsIn (kinds : List String) (ns : List Node) : Bool :=
  (ns.getLast?.map Node.kind).any kinds.contains

/-- Labels a node with a field unless it is a comment. -/
def labelPart (field : String) (n : Node) : Node := if n.isComment then n else n.label field

/-- Runs a rule from a cursor; `fuel` bounds the depth of the derivation. -/
def Rule.run (g : Grammar σ) (src : Source) : Nat → Rule σ → Cursor → Outcome
  | 0, _, _ => none
  | fuel + 1, rule, c =>
    match rule with
    | .done => some ([], c)
    | .leaf kind named scan =>
      match scan src c with
      | some (start, c') =>
        some (g.comments src c.pos start ++ [.mk kind named none start c'.pos []], c')
      | none => none
    | .silent scan =>
      match scan src c with
      | some (_, c') => some ([], c')
      | none => none
    | .call s => (g.rule s).run g src fuel c
    | .seq a b =>
      match a.run g src fuel c with
      | some (ns, c') =>
        match b.run g src fuel c' with
        | some (ms, c'') => some (ns ++ ms, c'')
        | none => none
      | none => none
    | .alt a b =>
      match a.run g src fuel c with
      | some r => some r
      | none => b.run g src fuel c
    | .many a =>
      match a.run g src fuel c with
      | some (ns, c') =>
        if c' = c then some (ns, c)
        else
          match (Rule.many a).run g src fuel c' with
          | some (ms, c'') => some (ns ++ ms, c'')
          | none => none
      | none => some ([], c)
    | .ahead a =>
      match a.run g src fuel c with
      | some _ => some ([], c)
      | none => none
    | .unless a =>
      match a.run g src fuel c with
      | some _ => none
      | none => some ([], c)
    | .node kind a =>
      match a.run g src fuel c with
      | some (ns, c') => some (enclose kind ns c'.pos, c')
      | none => none
    | .field name a =>
      match a.run g src fuel c with
      | some (ns, c') => some (ns.map (labelPart name), c')
      | none => none
    | .only kinds a =>
      match a.run g src fuel c with
      | some (ns, c') => if endsIn kinds ns then some (ns, c') else none
      | none => none
    | .chain base link =>
      match base.run g src fuel c with
      | some (ns, c') => Rule.run g src fuel (.many link) c' |>.map fun (ms, c'') =>
        (ms.foldl adoptAll ns, c'')
      | none => none
    | .graft kinds base link =>
      match base.run g src fuel c with
      | some (ns, c') =>
        if endsIn kinds ns then
          match link.run g src fuel c' with
          | some (ms, c'') => some (ms.foldl adoptAll ns, c'')
          | none => some (ns, c')
        else some (ns, c')
      | none => none

namespace Rule

variable {σ : Type}

/-- All rules in order. -/
def all : List (Rule σ) → Rule σ
  | [] => .done
  | [r] => r
  | r :: rest => .seq r (all rest)

/-- The first rule that succeeds. -/
def any : List (Rule σ) → Rule σ
  | [] => .unless .done
  | [r] => r
  | r :: rest => .alt r (any rest)

/-- A rule or nothing. -/
def opt (r : Rule σ) : Rule σ := .alt r .done

/-- A rule at least once. -/
def some (r : Rule σ) : Rule σ := .seq r (.many r)

/-- One or more items with separators between them. -/
def sepBy1 (item separator : Rule σ) : Rule σ := .seq item (.many (.seq separator item))

/-- At least one item, separators between them, and perhaps one at the end. -/
def listOf1 (item separator : Rule σ) : Rule σ :=
  .seq (sepBy1 item separator) (opt separator)

/-- Items with separators between them, and perhaps one behind the last. -/
def listOf (item separator : Rule σ) : Rule σ := opt (listOf1 item separator)

end Rule

/-- The tree of a whole source, if the rule of a sort takes all of it. -/
def Grammar.parse? (g : Grammar σ) (root : σ) (start : Cursor) (src : Source) : Option Node :=
  match (Rule.call root).run g src (500 * (src.size + 4)) start with
  | some (ns, _) => ns.find? (!·.isComment)
  | none => none

end CodeClones.Syntax
