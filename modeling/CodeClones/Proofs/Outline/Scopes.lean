import CodeClones.Outline.Python
import CodeClones.Outline.Rust
import Mathlib.Data.List.Nodup

/-!
# Scopes of nested functions

The walk over a syntax tree visits every place that named nodes lead to, once, and each place gives
at most one declaration. The scope of a place is the one that the nearest node above it opens which
opens one at all, however many other nodes lie between. In Python and Rust every function with a
name is declared, as a method if that node is a class or its like, and otherwise as a function.
-/

namespace CodeClones

open Syntax

/-- A place in a tree. -/
structure Place where
  /-- The positions of the parts that lead to the place from the root. -/
  address : List Nat
  /-- The nodes above, the nearest one first. -/
  above : List Node
  node : Node

/-- A place in a part of a node, as a place in the node. -/
def Place.under (n : Node) (i : Nat) (p : Place) : Place := ⟨i :: p.address, p.above ++ [n], p.node⟩

namespace Syntax.Node

/-- The place under an address that leads through named parts. -/
def at? (n : Node) : List Nat → Option Place
  | [] => some ⟨[], [], n⟩
  | i :: address =>
    match n.children[i]? with
    | some c => if c.isNamed then (c.at? address).map (Place.under n i) else none
    | none => none

mutual

/-- All places in a tree that named parts lead to. -/
def places : Node → List Place
  | .mk kind named field start stop children =>
    let n := Node.mk kind named field start stop children
    ⟨[], [], n⟩ :: placesIn n 0 children

/-- The places in some parts of a node, of which the first has the position `i`. -/
def placesIn (n : Node) (i : Nat) : List Node → List Place
  | [] => []
  | c :: rest => (if c.isNamed then c.places.map (Place.under n i) else []) ++ n.placesIn (i + 1) rest

end

theorem places_eq (n : Node) : n.places = ⟨[], [], n⟩ :: n.placesIn 0 n.children := by
  cases n
  rw [places, children]

/-- The places in some parts are those in one of them, if it is named. -/
theorem mem_placesIn_iff {n : Node} {i : Nat} {parts : List Node} {p : Place} :
    p ∈ n.placesIn i parts ↔ ∃ (j : Nat) (c : Node) (q : Place),
      parts[j]? = some c ∧ c.isNamed ∧ q ∈ c.places ∧ q.under n (i + j) = p := by
  induction parts generalizing i with
  | nil => simp [placesIn]
  | cons c rest ih =>
    rw [placesIn, List.mem_append, ih]
    constructor
    · rintro (h | ⟨j, c', q, hc', hnamed, hq, rfl⟩)
      · by_cases hnamed : c.isNamed
        · rw [if_pos hnamed] at h
          obtain ⟨q, hq, rfl⟩ := List.mem_map.mp h
          exact ⟨0, c, q, rfl, hnamed, hq, rfl⟩
        · rw [if_neg hnamed] at h
          cases h
      · exact ⟨j + 1, c', q, hc', hnamed, hq, by rw [Nat.add_right_comm]; rfl⟩
    · rintro ⟨j, c', q, hc', hnamed, hq, rfl⟩
      cases j with
      | zero =>
        cases hc'
        rw [if_pos hnamed]
        exact .inl (List.mem_map_of_mem hq)
      | succ j => exact .inr ⟨j, c', q, hc', hnamed, hq, by rw [Nat.add_right_comm]; rfl⟩

/-- A place in a tree is its root or lies in a named part of the root. -/
theorem mem_places_cases {n : Node} {p : Place} :
    p ∈ n.places ↔ p = ⟨[], [], n⟩ ∨ ∃ (i : Nat) (c : Node) (q : Place),
      n.children[i]? = some c ∧ c.isNamed ∧ q ∈ c.places ∧ q.under n i = p := by
  rw [places_eq, List.mem_cons, mem_placesIn_iff]
  simp only [Nat.zero_add]

theorem at?_cons_eq_some_iff {n : Node} {i : Nat} {address : List Nat} {p : Place} :
    n.at? (i :: address) = some p ↔ ∃ (c : Node) (q : Place),
      n.children[i]? = some c ∧ c.isNamed ∧ c.at? address = some q ∧ q.under n i = p := by
  rw [at?]
  cases n.children[i]? with
  | none => simp
  | some c => by_cases hnamed : c.isNamed <;> simp [hnamed]

theorem address_of_at? {n : Node} {address : List Nat} {p : Place} (h : n.at? address = some p) :
    p.address = address := by
  induction address generalizing n p with
  | nil =>
    cases h
    rfl
  | cons i address ih =>
    obtain ⟨c, q, -, -, hq, rfl⟩ := at?_cons_eq_some_iff.mp h
    exact congrArg (i :: ·) (ih hq)

/-- The places are those that addresses lead to. -/
theorem mem_places_iff {n : Node} {p : Place} : p ∈ n.places ↔ n.at? p.address = some p := by
  rw [mem_places_cases]
  induction haddress : p.address generalizing n p with
  | nil =>
    constructor
    · rintro (rfl | ⟨i, c, q, -, -, -, rfl⟩)
      · rfl
      · cases haddress
    · intro h
      exact .inl (Option.some.inj h).symm
  | cons i address ih =>
    rw [at?_cons_eq_some_iff]
    constructor
    · rintro (rfl | ⟨i, c, q, hc, hnamed, hq, rfl⟩)
      · cases haddress
      · obtain ⟨rfl, rfl⟩ := List.cons.inj haddress
        exact ⟨c, q, hc, hnamed, (ih rfl).mp (mem_places_cases.mp hq), rfl⟩
    · rintro ⟨c, q, hc, hnamed, hq, rfl⟩
      obtain rfl := (List.cons.inj haddress).2
      exact .inr ⟨i, c, q, hc, hnamed, mem_places_cases.mpr ((ih rfl).mpr hq), rfl⟩

/-! ## Every place once -/

mutual

/-- No two places have the same address. -/
theorem nodup_addresses : ∀ n : Node, (n.places.map Place.address).Nodup
  | .mk kind named field start stop children => by
    rw [places, List.map_cons, List.nodup_cons]
    refine ⟨fun h => ?_, nodup_addressesIn _ 0 children⟩
    obtain ⟨p, hp, haddress⟩ := List.mem_map.mp h
    obtain ⟨j, c, q, -, -, -, rfl⟩ := mem_placesIn_iff.mp hp
    cases haddress

/-- The addresses of places in different parts differ in their first positions. -/
theorem nodup_addressesIn (n : Node) :
    ∀ (i : Nat) (parts : List Node), ((n.placesIn i parts).map Place.address).Nodup
  | _, [] => by rw [placesIn]; exact List.nodup_nil
  | i, c :: rest => by
    rw [placesIn, List.map_append]
    refine List.nodup_append.mpr ⟨?_, nodup_addressesIn n (i + 1) rest, ?_⟩
    · split
      · have hmap : (c.places.map (Place.under n i)).map Place.address =
            (c.places.map Place.address).map (i :: ·) := by
          rw [List.map_map, List.map_map]
          rfl
        rw [hmap]
        exact List.Nodup.map List.cons_injective (nodup_addresses c)
      · exact List.nodup_nil
    · intro a ha b hb
      obtain ⟨p, hp, rfl⟩ := List.mem_map.mp ha
      obtain ⟨p', hp', rfl⟩ := List.mem_map.mp hb
      obtain ⟨j, c', q, -, -, -, rfl⟩ := mem_placesIn_iff.mp hp'
      split at hp
      · obtain ⟨q', -, rfl⟩ := List.mem_map.mp hp
        intro h
        have hfirst : i = i + 1 + j := (List.cons.inj h).1
        omega
      · cases hp

end

end Syntax.Node

/-! ## The walk -/

namespace Dialect

variable (d : Dialect) (src : SourceText)

/-- The scope of a place below some nodes, where the first of them that opens a scope counts. -/
def scopeBelow (scope : Scope) (above : List Node) : Scope := (above.findSome? d.opens).getD scope

/-- The declaration of a place in a tree that lies in a scope and below a node itself. -/
def declaresAt (scope : Scope) (parent : Option Node) (p : Place) : Option Declaration :=
  d.declares src (p.above.head?.or parent) p.node (d.scopeBelow scope p.above)

/-- In a part of a node the node itself is above everything. -/
theorem declaresAt_under (scope : Scope) (parent : Option Node) (n : Node) (i : Nat) :
    (d.declaresAt src scope parent ∘ Place.under n i) =
      d.declaresAt src ((d.opens n).getD scope) (some n) := by
  funext p
  have hscope : d.scopeBelow scope (p.above ++ [n]) =
      d.scopeBelow ((d.opens n).getD scope) p.above := by
    rw [scopeBelow, scopeBelow, List.findSome?_append, List.findSome?_singleton]
    cases p.above.findSome? d.opens <;> rfl
  have hparent : (p.above ++ [n]).head?.or parent = p.above.head?.or (some n) := by
    cases p.above <;> rfl
  rw [Function.comp_apply, declaresAt, declaresAt, Place.under, hscope, hparent]

mutual

/-- The walk gives what the places declare, in their order. -/
theorem outline_eq (scope : Scope) (parent : Option Node) : ∀ n : Node,
    d.outline src scope parent n = n.places.filterMap (d.declaresAt src scope parent)
  | .mk kind named field start stop children => by
    have hself : d.declaresAt src scope parent
        ⟨[], [], .mk kind named field start stop children⟩ =
          d.declares src parent (.mk kind named field start stop children) scope :=
      rfl
    rw [outline, Node.places, List.filterMap_cons, hself, outlineAll_eq scope parent _ 0 children]
    cases d.declares src parent (.mk kind named field start stop children) scope <;> rfl

/-- The parts of a node lie in the scope that it opens, if it opens one. -/
theorem outlineAll_eq (scope : Scope) (parent : Option Node) (n : Node) :
    ∀ (i : Nat) (parts : List Node), d.outlineAll src ((d.opens n).getD scope) n parts =
      (n.placesIn i parts).filterMap (d.declaresAt src scope parent)
  | _, [] => by rw [outlineAll, Node.placesIn, List.filterMap_nil]
  | i, c :: rest => by
    rw [outlineAll, Node.placesIn, List.filterMap_append,
      ← outlineAll_eq scope parent n (i + 1) rest]
    refine congrArg (· ++ _) ?_
    split
    · rw [List.filterMap_map, declaresAt_under, outline_eq]
    · rfl

end

end Dialect

/-! ## Functions in classes -/

/-- A language in which functions are methods directly inside a class or its like. -/
inductive MethodLanguage where
  | python
  | rust

namespace MethodLanguage

/-- How nodes of the language become declarations. -/
def dialect : MethodLanguage → Dialect
  | python => Outline.Python.dialect
  | rust => Outline.Rust.dialect

/-- The kinds of nodes that are functions. -/
def functionKinds : MethodLanguage → List String
  | python => ["function_definition"]
  | rust => ["function_item", "function_signature_item"]

/-- The kinds of nodes that open the scope of a class. -/
def classKinds : MethodLanguage → List String
  | python => ["class_definition"]
  | rust => ["impl_item", "trait_item"]

/-- The kinds of nodes that open the scope of a function. -/
def bodyKinds : MethodLanguage → List String
  | python => ["function_definition", "lambda"]
  | rust => ["function_item", "closure_expression"]

variable (l : MethodLanguage)

/-- Whether a node opens a scope. -/
def opensScope (n : Node) : Bool := l.classKinds.contains n.kind || l.bodyKinds.contains n.kind

/-- The nearest of some nodes that opens a scope. -/
def container? (above : List Node) : Option Node := above.find? l.opensScope

theorem opens_eq (n : Node) : l.dialect.opens n =
    if n.kind ∈ l.classKinds then some .class
    else if n.kind ∈ l.bodyKinds then some .function else none := by
  cases l with
  | python =>
    change Outline.Python.opens n = _
    rw [Outline.Python.opens]
    split <;> simp_all [classKinds, bodyKinds]
  | rust =>
    change Outline.Rust.opens n = _
    rw [Outline.Rust.opens]
    split <;> simp_all [classKinds, bodyKinds]

/-- A function with a name is declared, as a method in the scope of a class. -/
theorem declares_function {src : SourceText} {parent : Option Node} {n : Node} {scope : Scope}
    {name : String} (hkind : n.kind ∈ l.functionKinds) (hname : src.fieldText? n "name" = some name) :
    l.dialect.declares src parent n scope = some
      { src.declaration n name (if scope = .class then .method else .function) scope with
        parameters := (n.child? "parameters").map src.parameterNames
        returnType := src.fieldText? n "return_type" } := by
  have hnamed : ∀ kind, src.namedBy n "name" kind scope =
      some (src.declaration n name kind scope) := fun kind => by
    rw [SourceText.namedBy, hname]
    rfl
  cases l with
  | python =>
    change Outline.Python.declares src parent n scope = _
    rw [Outline.Python.declares, List.mem_singleton.mp hkind]
    dsimp only
    rw [hnamed]
    rfl
  | rust =>
    change Outline.Rust.declares src parent n scope = _
    have huse : n.kind ≠ "use_declaration" := by
      intro h
      rw [h] at hkind
      revert hkind
      decide
    have hkindOf : Outline.Rust.kindOf? n.kind scope =
        some (if scope = .class then .method else .function) := by
      rcases List.mem_pair.mp hkind with h | h <;> rw [h, Outline.Rust.kindOf?]
    rw [Outline.Rust.declares, if_neg huse, hkindOf]
    simp only [Option.bind_eq_bind, Option.bind_some, hnamed]
    by_cases hscope : scope = .class <;> simp [hscope]

/-- The scope of a place at the module level of a file is told by its container. -/
theorem scopeBelow_eq (above : List Node) : l.dialect.scopeBelow .module above =
    match l.container? above with
    | none => .module
    | some c => if c.kind ∈ l.classKinds then .class else .function := by
  induction above with
  | nil => rfl
  | cons n above ih =>
    rw [Dialect.scopeBelow, container?] at ih ⊢
    rw [List.findSome?_cons, opens_eq]
    by_cases hclass : n.kind ∈ l.classKinds
    · rw [List.find?_cons_of_pos (by simp [opensScope, hclass]), if_pos hclass]
      simp [hclass]
    · by_cases hbody : n.kind ∈ l.bodyKinds
      · rw [List.find?_cons_of_pos (by simp [opensScope, hbody]), if_neg hclass, if_pos hbody]
        simp [hclass]
      · rw [List.find?_cons_of_neg (by simp [opensScope, hclass, hbody]), if_neg hclass,
          if_neg hbody, ← ih]

/-- A declaration is that of a function at a place: a method in the scope of a class where the
nearest node above that opens a scope is a class or its like, and otherwise a function. -/
structure IsFunctionAt (src : SourceText) (p : Place) (name : String) (d : Declaration) : Prop where
  name : d.name = name
  startLine : d.startLine = src.row p.node.start + 1
  endLine : d.endLine = src.row p.node.stop + 1
  method_iff : (d.kind = .method ∧ d.scope = "class") ↔
    ∃ c, l.container? p.above = some c ∧ c.kind ∈ l.classKinds
  inBody : ∀ c, l.container? p.above = some c → c.kind ∈ l.bodyKinds →
    d.kind = .function ∧ d.scope = "function"
  inModule : l.container? p.above = none → d.kind = .function ∧ d.scope = "module"

theorem isFunctionAt_of_declaresAt {src : SourceText} {p : Place} {name : String}
    (hkind : p.node.kind ∈ l.functionKinds) (hname : src.fieldText? p.node "name" = some name) :
    ∃ d, l.dialect.declaresAt src .module none p = some d ∧ l.IsFunctionAt src p name d := by
  have hdisjoint : ∀ kind ∈ l.bodyKinds, kind ∉ l.classKinds := by
    cases l <;> decide
  refine ⟨_, l.declares_function hkind hname, rfl, rfl, rfl, ?_, fun c hc hbody => ?_, fun hc => ?_⟩
  · rw [scopeBelow_eq]
    cases l.container? p.above with
    | none => simp [SourceText.declaration, Scope.name, moduleScope]
    | some c => by_cases hclass : c.kind ∈ l.classKinds <;>
        simp [SourceText.declaration, Scope.name, classScope, hclass]
  · rw [scopeBelow_eq, hc]
    simp [SourceText.declaration, hdisjoint _ hbody, Scope.name]
  · rw [scopeBelow_eq, hc]
    exact ⟨rfl, rfl⟩

/-- The walk over a tree declares every function with a name that named nodes lead to exactly once,
and the nearest node above it that opens a scope tells whether it is a method or a function. -/
theorem functions_scoped (src : SourceText) {root : Node} {address : List Nat} {p : Place}
    {name : String} (hat : root.at? address = some p) (hkind : p.node.kind ∈ l.functionKinds)
    (hname : src.fieldText? p.node "name" = some name) :
    ∃ (before after : List Place) (declared : Declaration),
      root.places = before ++ p :: after ∧ (∀ q ∈ before ++ after, q.address ≠ address) ∧
        l.dialect.outline src .module none root =
          before.filterMap (l.dialect.declaresAt src .module none) ++ declared ::
            after.filterMap (l.dialect.declaresAt src .module none) ∧
          l.IsFunctionAt src p name declared := by
  obtain rfl := Node.address_of_at? hat
  obtain ⟨declared, hdeclared, hfunction⟩ := l.isFunctionAt_of_declaresAt hkind hname
  obtain ⟨before, after, hplaces⟩ := List.append_of_mem (Node.mem_places_iff.mpr hat)
  have hnodup := root.nodup_addresses
  refine ⟨before, after, declared, hplaces, ?_, ?_, hfunction⟩
  · rw [hplaces, (List.perm_middle.map Place.address).nodup_iff, List.map_cons,
      List.nodup_cons] at hnodup
    intro q hq haddress
    exact hnodup.1 (haddress ▸ List.mem_map_of_mem hq)
  · rw [Dialect.outline_eq, hplaces, List.filterMap_append, List.filterMap_cons, hdeclared]

/-- A class with a decorated function in it, and another function in the body of that one. -/
private def nestedFunctions : Node :=
  let name (i : Nat) : Node := .mk "identifier" true (some "name") i (i + 1) []
  let node (kind : String) (children : List Node) : Node := .mk kind true none 0 3 children
  let inner := node "function_definition" [name 2]
  let outer := node "function_definition" [name 1, node "block" [node "if_statement" [inner]]]
  node "module" [node "class_definition" [name 0, node "block"
    [node "decorated_definition" [node "decorator" [], outer]]]]

/-- The outer one is a method of the class, and the inner one is a function. -/
theorem functions_scoped_inClass :
    ∃ outer inner, nestedFunctions.at? [0, 1, 0, 1] = some outer ∧
      nestedFunctions.at? [0, 1, 0, 1, 1, 0, 0] = some inner ∧
        (∃ d ∈ python.dialect.outline (.of "Afg") .module none nestedFunctions,
          d.name = "f" ∧ d.kind = .method ∧ d.scope = "class") ∧
        ∃ d ∈ python.dialect.outline (.of "Afg") .module none nestedFunctions,
          d.name = "g" ∧ d.kind = .function ∧ d.scope = "function" := by
  refine ⟨_, _, rfl, rfl, ?_, ?_⟩
  · obtain ⟨before, after, d, -, -, hwalk, hd⟩ := functions_scoped python (.of "Afg")
      (rfl : nestedFunctions.at? [0, 1, 0, 1] = some _) (by decide)
      (rfl : SourceText.fieldText? _ _ "name" = some "f")
    rw [hwalk]
    exact ⟨d, List.mem_append_right _ (List.mem_cons_self ..), hd.name,
      hd.method_iff.mpr ⟨_, rfl, by decide⟩⟩
  · obtain ⟨before, after, d, -, -, hwalk, hd⟩ := functions_scoped python (.of "Afg")
      (rfl : nestedFunctions.at? [0, 1, 0, 1, 1, 0, 0] = some _) (by decide)
      (rfl : SourceText.fieldText? _ _ "name" = some "g")
    rw [hwalk]
    exact ⟨d, List.mem_append_right _ (List.mem_cons_self ..), hd.name,
      hd.inBody _ rfl (by decide)⟩

end MethodLanguage

end CodeClones
