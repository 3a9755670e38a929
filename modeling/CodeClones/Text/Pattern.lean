/-!
# Patterns

A pattern describes pieces at the front of a list. Where several pieces fit, the choices are tried in
order: the left alternative before the right one, and more repetitions before fewer unless the
repetition prefers few. A search takes the first choice with which the rest of the pattern fits, so
the piece that is captured is determined.
-/

namespace CodeClones

/-- A description of pieces of lists over `α`. -/
inductive Pattern (α : Type) where
  /-- The empty piece. -/
  | empty
  /-- One item that satisfies a test. -/
  | one (test : α → Bool)
  | seq (a b : Pattern α)
  /-- The left pattern or else the right one. -/
  | or (a b : Pattern α)
  /-- Any number of pieces, as many as possible if `greedy`. -/
  | star (greedy : Bool) (a : Pattern α)
  /-- A piece that is handed out. -/
  | capture (a : Pattern α)
  /-- The empty piece at the end of the list. -/
  | stop

namespace Pattern

/-- What a search has to tell about a place: the piece captured last, with what follows it, and the
rest of the list. -/
structure Place (α : Type) where
  captured : Option (List α × List α) := none
  rest : List α

/-- At most `n` pieces, each of them not empty, and then what `next` asks for. -/
def repeated (greedy : Bool) (piece : Place α → (Place α → Option (Place α)) → Option (Place α))
    (next : Place α → Option (Place α)) : Nat → Place α → Option (Place α)
  | 0, start => next start
  | n + 1, start =>
    let more := fun (_ : Unit) => piece start fun place =>
      if place.rest.length < start.rest.length then repeated greedy piece next n place else none
    if greedy then (more ()).orElse fun _ => next start else (next start).orElse more

/-- The first way to find the pattern at a place and then what `next` asks for. -/
def search : Pattern α → Place α → (Place α → Option (Place α)) → Option (Place α)
  | empty, place, next => next place
  | one test, place, next =>
    match place.rest with
    | [] => none
    | x :: rest => if test x then next { place with rest } else none
  | seq a b, place, next => a.search place fun place => b.search place next
  | or a b, place, next => (a.search place next).orElse fun _ => b.search place next
  | star greedy a, place, next => repeated greedy a.search next place.rest.length place
  | capture a, place, next =>
    a.search place fun after =>
      let piece := place.rest.take (place.rest.length - after.rest.length)
      next { after with captured := some (piece, after.rest) }
  | stop, place, next => if place.rest.isEmpty then next place else none

/-- The piece captured by the pattern at the front of a list, with what follows it. -/
def captured? (p : Pattern α) (items : List α) : Option (List α × List α) :=
  (p.search ⟨none, items⟩ some).bind (·.captured)

/-- Whether the pattern fits at the front of a list. -/
def fitsFront (p : Pattern α) (items : List α) : Bool := (p.search ⟨none, items⟩ some).isSome

/-- Whether the pattern fits a whole list. -/
def fits (p : Pattern α) (items : List α) : Bool := (seq p stop).fitsFront items

/-- A row of patterns. -/
def row : List (Pattern α) → Pattern α
  | [] => empty
  | [p] => p
  | p :: ps => seq p (row ps)

/-- The first of some patterns that fits; nothing fits if there are none. -/
def firstOf : List (Pattern α) → Pattern α
  | [] => one fun _ => false
  | [p] => p
  | p :: ps => or p (firstOf ps)

/-- As many pieces as possible. -/
def many (p : Pattern α) : Pattern α := star true p

/-- As many pieces as possible and at least one. -/
def oneOrMore (p : Pattern α) : Pattern α := seq p (many p)

/-- As few pieces as possible. -/
def few (p : Pattern α) : Pattern α := star false p

/-- The pattern, or the empty piece if it does not fit. -/
def maybe (p : Pattern α) : Pattern α := or p empty

/-- Any item. -/
def any : Pattern α := one fun _ => true

/-- The pattern at the first place where it fits. -/
def anywhere (p : Pattern α) : Pattern α := seq (few any) p

/-- The given items. -/
def items [BEq α] (xs : List α) : Pattern α := row (xs.map fun x => one (· == x))

/-- The characters of a text. -/
def text (s : String) : Pattern Char := items s.toList

end Pattern

end CodeClones
