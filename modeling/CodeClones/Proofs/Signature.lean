import CodeClones.Proofs.Text
import CodeClones.Symbol.Signature

/-!
# Which parameters of a signature are read

A signature is written as a name and, between parentheses, parameters that may have a type or a
default. Reading stops at the first closing parenthesis, wherever it stands, and every comma before
it parts two names. So brackets in a type or default do not protect what they hold: a closing
parenthesis in it hides all later parameters, and what follows a comma in it is read as a name.
-/

namespace CodeClones.Signature

/-- The bracket that closes a bracket. -/
def closing? : Char → Option Char
  | '(' => some ')'
  | '[' => some ']'
  | '\x7b' => some '\x7d'
  | _ => none

/-- Whether a character opens or closes a bracket. -/
def isBracket (c : Char) : Bool :=
  (closing? c).isSome || c == ')' || c == ']' || c == '\x7d'

/-- Texts in which brackets are closed in the order in which they are opened. Commas stand inside
of brackets, and outside of them only if `commas`. -/
inductive Nested : Bool → List Char → Prop where
  | nil {commas : Bool} : Nested commas []
  | char {commas : Bool} {c : Char} {s : List Char} (hbracket : isBracket c = false)
      (hcomma : commas ∨ c ≠ ',') (h : Nested commas s) : Nested commas (c :: s)
  | group {commas : Bool} {first last : Char} {inner s : List Char}
      (hclosing : closing? first = some last) (hinner : Nested true inner) (h : Nested commas s) :
      Nested commas (first :: inner ++ last :: s)

/-- Whether a character may stand in the name of a parameter. -/
def isNameChar (c : Char) : Bool :=
  !Text.isBlank c && c != ')' && c != ',' && c != ':' && c != '='

/-- The type or default of a parameter, behind a sign. -/
structure Annotation where
  gap : List Char
  sign : Char
  text : List Char
  gap_blank : ∀ c ∈ gap, Text.isBlank c
  sign_eq : sign = ':' ∨ sign = '='
  nested : Nested false text

/-- A parameter as it is written. -/
structure Parameter where
  name : List Char
  annotation? : Option Annotation := none
  name_ne_nil : name ≠ []
  name_chars : ∀ c ∈ name, isNameChar c

/-- The names between the commas of a text. -/
def pieceNames (s : List Char) : List (List Char) :=
  ((Text.splitOnChar (· == ',') s).map parameterHead).filter (!·.isEmpty)

/-- The names between the commas of a text, without the one before the first comma. -/
def laterNames (s : List Char) : List (List Char) :=
  ((Text.splitOnChar (· == ',') s).tail.map parameterHead).filter (!·.isEmpty)

namespace Parameter

/-- The text of the type or default. -/
def text (p : Parameter) : List Char :=
  match p.annotation? with
  | none => []
  | some a => a.text

/-- What stands before the text of the type or default. -/
def front (p : Parameter) : List Char :=
  match p.annotation? with
  | none => p.name
  | some a => p.name ++ (a.gap ++ [a.sign])

/-- The parameter as it is written. -/
def written (p : Parameter) : List Char := p.front ++ p.text

/-- What is read as names behind the commas of the text, up to its first closing parenthesis. -/
def extras (p : Parameter) : List (List Char) := laterNames (p.text.takeWhile (· != ')'))

end Parameter

/-- A signature as it is written. -/
def written (name : List Char) (ps : List Parameter) (suffix : List Char) : String :=
  String.ofList
    (name ++ '(' :: (Text.joinWith [',', ' '] (ps.map (·.written)) ++ ')' :: suffix))

/-- What is read as the names of parameters. -/
def namesRead : List Parameter → List (List Char)
  | [] => []
  | p :: ps => p.name :: p.extras ++ if p.text.contains ')' then [] else namesRead ps

section

variable {s t blanks : List Char}

theorem pieceNames_append_comma (s t : List Char) :
    pieceNames (s ++ ',' :: t) = pieceNames s ++ pieceNames t := by
  rw [pieceNames, Text.splitOnChar_append_cons (by rfl), List.map_append, List.filter_append]
  rfl

private theorem splitOnChar_of_no_comma (h : ',' ∉ s) : Text.splitOnChar (· == ',') s = [s] :=
  Text.splitOnChar_eq_singleton fun _ hc => beq_false_of_ne fun hcomma => h (hcomma ▸ hc)

theorem pieceNames_of_no_comma (h : ',' ∉ s) :
    pieceNames s = [parameterHead s].filter (!·.isEmpty) := by
  rw [pieceNames, splitOnChar_of_no_comma h]
  rfl

theorem laterNames_of_no_comma (h : ',' ∉ s) : laterNames s = [] := by
  rw [laterNames, splitOnChar_of_no_comma h]
  rfl

/-- Behind the first comma all names are later ones. -/
theorem laterNames_append_comma (h : ',' ∉ s) (t : List Char) :
    laterNames (s ++ ',' :: t) = pieceNames t := by
  rw [laterNames, Text.splitOnChar_append_cons (by rfl), splitOnChar_of_no_comma h]
  rfl

/-- A blank does not end the head of a parameter. -/
private theorem inHead_of_isBlank (h : ∀ c ∈ blanks, Text.isBlank c) :
    ∀ c ∈ blanks, (c != ':' && c != '=') = true := by
  intro c hc
  have hcolon : c ≠ ':' := by
    rintro rfl
    exact absurd (h _ hc) (by decide)
  have hequals : c ≠ '=' := by
    rintro rfl
    exact absurd (h _ hc) (by decide)
  rw [bne_iff_ne.mpr hcolon, bne_iff_ne.mpr hequals]
  rfl

private theorem no_comma_of_isBlank (h : ∀ c ∈ blanks, Text.isBlank c) : ',' ∉ blanks :=
  fun hcomma => absurd (h _ hcomma) (by decide)

theorem parameterHead_blanks_append (h : ∀ c ∈ blanks, Text.isBlank c) :
    parameterHead (blanks ++ s) = parameterHead s := by
  rw [parameterHead, List.takeWhile_append_of_pos (inHead_of_isBlank h),
    Text.trim_blanks_append h, parameterHead]

theorem parameterHead_append_blanks (h : ∀ c ∈ blanks, Text.isBlank c) :
    parameterHead (s ++ blanks) = parameterHead s := by
  rw [parameterHead, parameterHead, List.takeWhile_append]
  split
  · rename_i hwhole
    have hall : s.takeWhile (fun c => c != ':' && c != '=') = s :=
      (List.takeWhile_prefix _).eq_of_length hwhole
    have hblanks : blanks.takeWhile (fun c => c != ':' && c != '=') = blanks :=
      List.takeWhile_eq_self_iff.mpr (inHead_of_isBlank h)
    rw [hall, hblanks, Text.trim_append_blanks h]
  · rfl

/-- Blanks before a text are not seen in its names. -/
theorem pieceNames_blanks_append (h : ∀ c ∈ blanks, Text.isBlank c) :
    pieceNames (blanks ++ s) = pieceNames s := by
  have hblanks := no_comma_of_isBlank h
  by_cases hcomma : ',' ∈ s
  · obtain ⟨a, b, rfl, ha⟩ := List.eq_append_cons_of_mem hcomma
    have hfront : ',' ∉ blanks ++ a := fun hmem => (List.mem_append.mp hmem).elim hblanks ha
    rw [← List.append_assoc, pieceNames_append_comma, pieceNames_append_comma,
      pieceNames_of_no_comma hfront, pieceNames_of_no_comma ha, parameterHead_blanks_append h]
  · have hwhole : ',' ∉ blanks ++ s := fun hmem => (List.mem_append.mp hmem).elim hblanks hcomma
    rw [pieceNames_of_no_comma hwhole, pieceNames_of_no_comma hcomma,
      parameterHead_blanks_append h]

/-- Blanks behind a text are not seen in its names. -/
theorem pieceNames_append_blanks (h : ∀ c ∈ blanks, Text.isBlank c) :
    pieceNames (s ++ blanks) = pieceNames s := by
  have hblanks := no_comma_of_isBlank h
  by_cases hcomma : ',' ∈ s
  · -- the last comma is the first one from the other end
    obtain ⟨b, a, hsplit, hb⟩ := List.eq_append_cons_of_mem (List.mem_reverse.mpr hcomma)
    have hs : s = a.reverse ++ ',' :: b.reverse := by
      rw [← List.reverse_reverse s, hsplit]
      simp
    have hlast : ',' ∉ b.reverse := fun hmem => hb (List.mem_reverse.mp hmem)
    have hback : ',' ∉ b.reverse ++ blanks := fun hmem =>
      (List.mem_append.mp hmem).elim hlast hblanks
    rw [hs, List.append_assoc, List.cons_append, pieceNames_append_comma, pieceNames_append_comma,
      pieceNames_of_no_comma hback, pieceNames_of_no_comma hlast, parameterHead_append_blanks h]
  · have hwhole : ',' ∉ s ++ blanks := fun hmem => (List.mem_append.mp hmem).elim hcomma hblanks
    rw [pieceNames_of_no_comma hwhole, pieceNames_of_no_comma hcomma,
      parameterHead_append_blanks h]

theorem pieceNames_trim (s : List Char) : pieceNames (Text.trim s) = pieceNames s := by
  obtain ⟨front, back, hs, hfront, hback⟩ := Text.exists_blanks_trim s
  conv_rhs => rw [hs]
  rw [pieceNames_append_blanks hback, pieceNames_blanks_append hfront]

/-- A piece before a character that ends it is found again. -/
private theorem takeWhile_append_cons {p : Char → Bool} {c : Char} (hc : p c = false)
    (s t : List Char) : (s ++ c :: t).takeWhile p = s.takeWhile p := by
  induction s with
  | nil => rw [List.nil_append, List.takeWhile_cons_of_neg (by simp [hc])]; rfl
  | cons d s ih => rw [List.cons_append, List.takeWhile_cons, List.takeWhile_cons, ih]

/-- The names are read up to the first closing parenthesis. -/
theorem parameterNames?_append {name body suffix : List Char} (hname : '(' ∉ name) :
    parameterNames? (name ++ '(' :: (body ++ ')' :: suffix)) =
      some (pieceNames (body.takeWhile (· != ')'))) := by
  have hopen : (name ++ '(' :: (body ++ ')' :: suffix)).dropWhile (· != '(') =
      '(' :: (body ++ ')' :: suffix) := by
    rw [List.dropWhile_append_of_pos, List.dropWhile_cons_of_neg (by decide)]
    exact fun c hc => bne_iff_ne.mpr fun h => hname (h ▸ hc)
  have hclose : (body ++ ')' :: suffix).contains ')' = true := by simp
  rw [parameterNames?, hopen]
  dsimp only
  rw [if_pos hclose, takeWhile_append_cons (by rfl)]
  split
  · rename_i hempty
    rw [← pieceNames_trim, List.isEmpty_iff.mp hempty]
    rfl
  · rw [← pieceNames_trim (body.takeWhile _)]
    rfl

end

theorem closing?_eq_some {first last : Char} (h : closing? first = some last) :
    first = '(' ∧ last = ')' ∨ first = '[' ∧ last = ']' ∨ first = '\x7b' ∧ last = '\x7d' := by
  unfold closing? at h
  split at h <;> cases h <;> simp

namespace Nested

variable {commas : Bool} {s : List Char}

/-- Round brackets are closed if and only if they are opened. -/
theorem closing_mem_iff (h : Nested commas s) : ')' ∈ s ↔ '(' ∈ s := by
  induction h with
  | nil => simp
  | @char _ c s hbracket _ _ ih =>
    have hopening : '(' ≠ c := by
      rintro rfl
      cases hbracket
    have hclosing : ')' ≠ c := by
      rintro rfl
      cases hbracket
    rw [List.mem_cons, List.mem_cons, ih, or_iff_right hopening, or_iff_right hclosing]
  | group hclosing _ _ ihinner ih =>
    rcases closing?_eq_some hclosing with ⟨rfl, rfl⟩ | ⟨rfl, rfl⟩ | ⟨rfl, rfl⟩ <;>
      simp [ihinner, ih]

/-- Commas stand inside of brackets. -/
theorem no_comma (h : Nested commas s) (houter : commas = false)
    (hplain : ∀ c ∈ s, isBracket c = false) : ',' ∉ s := by
  induction h with
  | nil => exact List.not_mem_nil
  | char _ hcomma _ ih =>
    have hfirst := hcomma.resolve_left fun hcommas => absurd hcommas (by simp [houter])
    obtain ⟨-, hplain⟩ := List.forall_mem_cons.mp hplain
    exact List.not_mem_cons_of_ne_of_not_mem hfirst.symm (ih houter hplain)
  | group hclosing _ _ _ _ =>
    have hfirst := hplain _ (List.mem_cons_self ..)
    rw [isBracket, hclosing] at hfirst
    cases hfirst

end Nested

namespace Parameter

variable (p : Parameter)

theorem nested_text : Nested false p.text := by
  rw [text]
  split
  · exact .nil
  · rename_i a _
    exact a.nested

theorem closes_iff : p.text.contains ')' ↔ '(' ∈ p.text := by
  rw [List.contains_iff_mem, p.nested_text.closing_mem_iff]

/-- A text without brackets holds no further names. -/
theorem extras_of_no_bracket (h : ∀ c ∈ p.text, isBracket c = false) : p.extras = [] :=
  laterNames_of_no_comma fun hmem =>
    p.nested_text.no_comma rfl h ((List.takeWhile_prefix _).subset hmem)

theorem ne_of_mem_name {c : Char} (h : c ∈ p.name) :
    Text.isBlank c = false ∧ c ≠ ')' ∧ c ≠ ',' ∧ c ≠ ':' ∧ c ≠ '=' := by
  have hchar := p.name_chars c h
  simp only [isNameChar, Bool.and_eq_true, Bool.not_eq_true', bne_iff_ne] at hchar
  exact ⟨hchar.1.1.1.1, hchar.1.1.1.2, hchar.1.1.2, hchar.1.2, hchar.2⟩

/-- Before the text there is nothing that parts or ends parameters. -/
theorem ne_of_mem_front {c : Char} (h : c ∈ p.front) : c ≠ ')' ∧ c ≠ ',' := by
  have hname : c ∈ p.name → c ≠ ')' ∧ c ≠ ',' := fun hc =>
    ⟨(p.ne_of_mem_name hc).2.1, (p.ne_of_mem_name hc).2.2.1⟩
  rw [front] at h
  split at h
  · exact hname h
  · rename_i a _
    rcases List.mem_append.mp h with h | h
    · exact hname h
    · rcases List.mem_append.mp h with h | h
      · have hblank := a.gap_blank c h
        constructor <;> rintro rfl <;> exact absurd hblank (by decide)
      · rw [List.mem_singleton.mp h]
        rcases a.sign_eq with h | h <;> rw [h] <;> decide

/-- The head of a parameter is its name. -/
theorem parameterHead_front {t : List Char} (ht : p.annotation? = none → t = []) :
    parameterHead (p.front ++ t) = p.name := by
  have hname : ∀ c ∈ p.name, (c != ':' && c != '=') = true := by
    intro c hc
    obtain ⟨-, -, -, hcolon, hequals⟩ := p.ne_of_mem_name hc
    rw [bne_iff_ne.mpr hcolon, bne_iff_ne.mpr hequals]
    rfl
  have htrim : Text.trim p.name = p.name := Text.trim_eq_self fun c hc => (p.ne_of_mem_name hc).1
  rw [parameterHead, front]
  split
  · rename_i hnone
    rw [ht hnone, List.takeWhile_append_of_pos hname, List.takeWhile_nil, List.append_nil, htrim]
  · rename_i a _
    have hsign : ([a.sign] ++ t).takeWhile (fun c => c != ':' && c != '=') = [] := by
      rcases a.sign_eq with h | h <;> rw [h] <;> rfl
    rw [List.append_assoc, List.append_assoc, List.takeWhile_append_of_pos hname,
      List.takeWhile_append_of_pos (inHead_of_isBlank a.gap_blank), hsign, List.append_nil,
      Text.trim_append_blanks a.gap_blank, htrim]

/-- Of a parameter its name is read, and what looks like a name behind the commas of its text. -/
theorem pieceNames_front {t : List Char} (ht : p.annotation? = none → t = []) :
    pieceNames (p.front ++ t) = p.name :: laterNames t := by
  have hfirst : ∀ {t}, (p.annotation? = none → t = []) → ',' ∉ t →
      pieceNames (p.front ++ t) = [p.name] := by
    intro t ht hcomma
    have hwhole : ',' ∉ p.front ++ t := fun hmem =>
      (List.mem_append.mp hmem).elim (fun h => (p.ne_of_mem_front h).2 rfl) hcomma
    rw [pieceNames_of_no_comma hwhole, p.parameterHead_front ht]
    simp [p.name_ne_nil]
  by_cases hcomma : ',' ∈ t
  · obtain ⟨before, after, rfl, hbefore⟩ := List.eq_append_cons_of_mem hcomma
    have hsome : p.annotation? = none → before = [] := fun hnone =>
      absurd (ht hnone) (by simp)
    rw [← List.append_assoc, pieceNames_append_comma, hfirst hsome hbefore,
      laterNames_append_comma hbefore]
    rfl
  · rw [hfirst ht hcomma, laterNames_of_no_comma hcomma]

theorem takeWhile_written :
    p.written.takeWhile (· != ')') = p.front ++ p.text.takeWhile (· != ')') :=
  List.takeWhile_append_of_pos fun _ hc => bne_iff_ne.mpr (p.ne_of_mem_front hc).1

/-- Up to the first closing parenthesis of a parameter its name and the extra names are read. -/
theorem pieceNames_written :
    pieceNames (p.written.takeWhile (· != ')')) = p.name :: p.extras := by
  rw [takeWhile_written, extras]
  refine p.pieceNames_front fun hnone => ?_
  rw [text, hnone]
  rfl

theorem takeWhile_written_of_open (h : ')' ∉ p.text) :
    p.written.takeWhile (· != ')') = p.written := by
  have htext : p.text.takeWhile (· != ')') = p.text :=
    List.takeWhile_eq_self_iff.mpr fun c hc => bne_iff_ne.mpr fun hclosing => h (hclosing ▸ hc)
  rw [takeWhile_written, htext, written]

end Parameter

section

variable {p : Parameter} {ps : List Parameter}

/-- What is read of written parameters. -/
theorem pieceNames_joinWith (ps : List Parameter) :
    pieceNames ((Text.joinWith [',', ' '] (ps.map (·.written))).takeWhile (· != ')')) =
      namesRead ps := by
  induction ps with
  | nil => rfl
  | cons p ps ih =>
    rw [namesRead, ← p.pieceNames_written]
    cases ps with
    | nil =>
      rw [namesRead]
      simp [Text.joinWith]
    | cons q ps =>
      have hjoin : Text.joinWith [',', ' '] ((p :: q :: ps).map (·.written)) =
          p.written ++ ',' :: ' ' :: Text.joinWith [',', ' '] ((q :: ps).map (·.written)) := by
        simp [Text.joinWith]
      rw [hjoin]
      split
      · rename_i hclosed
        obtain ⟨before, after, htext, -⟩ :=
          List.eq_append_cons_of_mem (List.contains_iff_mem.mp hclosed)
        have hwritten : p.written = (p.front ++ before) ++ ')' :: after := by
          rw [Parameter.written, htext, List.append_assoc]
        rw [hwritten, List.append_assoc, List.cons_append, takeWhile_append_cons (by rfl),
          takeWhile_append_cons (by rfl), List.append_nil]
      · rename_i hopen
        have hwhole := p.takeWhile_written_of_open fun hmem =>
          hopen (List.contains_iff_mem.mpr hmem)
        have hall := List.takeWhile_eq_self_iff.mp hwhole
        have hblank : ∀ c ∈ [' '], Text.isBlank c := List.forall_mem_singleton.mpr rfl
        rw [List.takeWhile_append_of_pos hall, List.takeWhile_cons_of_pos (by rfl),
          List.takeWhile_cons_of_pos (by rfl), pieceNames_append_comma, hwhole, ← ih]
        exact congrArg _ (pieceNames_blanks_append hblank)

/-- Where no text has a further name, all names are read as long as no text but the last one has a
closing parenthesis. -/
theorem namesRead_eq_iff_of_single (h : ∀ p ∈ ps, p.extras = []) :
    namesRead ps = ps.map (·.name) ↔ ∀ p ∈ ps.dropLast, '(' ∉ p.text := by
  induction ps with
  | nil => exact iff_of_true rfl nofun
  | cons p ps ih =>
    obtain ⟨hp, hps⟩ := List.forall_mem_cons.mp h
    rw [namesRead, hp, List.map_cons, List.singleton_append, List.cons_inj_right]
    cases ps with
    | nil => simp [namesRead]
    | cons q ps =>
      rw [List.dropLast_cons_cons, List.forall_mem_cons, ← ih hps, ← p.closes_iff]
      split
      · rename_i hclosed
        exact iff_of_false (by simp) fun hall => hall.1 hclosed
      · rename_i hopen
        exact (and_iff_right hopen).symm

/-- Where no text has a closing parenthesis, at least all names are read. -/
theorem length_le_namesRead (h : ∀ p ∈ ps, '(' ∉ p.text) : ps.length ≤ (namesRead ps).length := by
  induction ps with
  | nil => exact Nat.zero_le _
  | cons p ps ih =>
    obtain ⟨hp, hps⟩ := List.forall_mem_cons.mp h
    have hrest := ih hps
    rw [namesRead, if_neg (fun hclosed => hp (p.closes_iff.mp hclosed))]
    simp only [List.length_cons, List.length_append]
    omega

/-- Where no text has a closing parenthesis, nothing else is read if no text has a further name. -/
theorem namesRead_eq_iff_of_open (h : ∀ p ∈ ps, '(' ∉ p.text) :
    namesRead ps = ps.map (·.name) ↔ ∀ p ∈ ps, p.extras = [] := by
  induction ps with
  | nil => exact iff_of_true rfl nofun
  | cons p ps ih =>
    obtain ⟨hp, hps⟩ := List.forall_mem_cons.mp h
    have hopen : ¬p.text.contains ')' := fun hclosed => hp (p.closes_iff.mp hclosed)
    rw [namesRead, if_neg hopen, List.map_cons, List.cons_append, List.cons_inj_right,
      List.forall_mem_cons, ← ih hps]
    constructor
    · intro heq
      have hlength := congrArg List.length heq
      have hrest := length_le_namesRead hps
      rw [List.length_append, List.length_map] at hlength
      have hnone : p.extras = [] := List.length_eq_zero_iff.mp (by omega)
      rw [hnone] at heq
      exact ⟨hnone, heq⟩
    · rintro ⟨hnone, heq⟩
      rw [hnone, heq]
      rfl

end

/-- The parameters of a written signature: Up to the first closing parenthesis in a text, each name
is read and what looks like a name behind the commas of a text. So if no comma in a text has a name
behind it, then exactly the names are read if and only if no text but the last one has round
brackets; and if no text has round brackets, then exactly the names are read if and only if no comma
in a text has a name behind it. In particular they are read if no text has brackets. -/
theorem parameters?_written {name : List Char} (hname : '(' ∉ name) (ps : List Parameter)
    (suffix : List Char) :
    parameters? (written name ps suffix) = some ((namesRead ps).map String.ofList) ∧
    ((∀ p ∈ ps, p.extras = []) →
      (parameters? (written name ps suffix) = some (ps.map fun p => String.ofList p.name) ↔
        ∀ p ∈ ps.dropLast, '(' ∉ p.text)) ∧
    ((∀ p ∈ ps, '(' ∉ p.text) →
      (parameters? (written name ps suffix) = some (ps.map fun p => String.ofList p.name) ↔
        ∀ p ∈ ps, p.extras = [])) ∧
    ((∀ p ∈ ps, ∀ c ∈ p.text, isBracket c = false) →
      parameters? (written name ps suffix) = some (ps.map fun p => String.ofList p.name)) := by
  have hread : parameters? (written name ps suffix) = some ((namesRead ps).map String.ofList) := by
    rw [parameters?, written, String.toList_ofList, parameterNames?_append hname,
      pieceNames_joinWith]
    rfl
  have heq : parameters? (written name ps suffix) = some (ps.map fun p => String.ofList p.name) ↔
      namesRead ps = ps.map (·.name) := by
    have hmap : (ps.map fun p => String.ofList p.name) = (ps.map (·.name)).map String.ofList := by
      rw [List.map_map]
      rfl
    rw [hread, Option.some.injEq, hmap]
    exact (List.map_injective_iff.mpr fun _ _ h => String.ofList_injective h).eq_iff
  refine ⟨hread, fun hsingle => ?_, fun hopen => ?_, fun hplain => ?_⟩
  · rw [heq, namesRead_eq_iff_of_single hsingle]
  · rw [heq, namesRead_eq_iff_of_open hopen]
  · have hsingle : ∀ p ∈ ps, p.extras = [] := fun p hp => p.extras_of_no_bracket (hplain p hp)
    rw [heq, namesRead_eq_iff_of_single hsingle]
    intro p hp hround
    exact absurd (hplain p ((List.dropLast_sublist ps).subset hp) _ hround) (by decide)

/-- A parameter with a call as its default. -/
def withCall : Parameter where
  name := ['a']
  annotation? := some
    { gap := [' ']
      sign := '='
      text := [' ', 'g', '(', ')']
      gap_blank := List.forall_mem_singleton.mpr rfl
      sign_eq := .inr rfl
      nested := .char rfl (.inr (by decide)) (.char rfl (.inr (by decide)) (.group rfl .nil .nil)) }
  name_ne_nil := by decide
  name_chars := List.forall_mem_singleton.mpr rfl

/-- A parameter without a type and a default. -/
def withoutDefault : Parameter where
  name := ['b']
  name_ne_nil := by decide
  name_chars := List.forall_mem_singleton.mpr rfl

theorem parameters?_written_call :
    written ['f'] [withCall, withoutDefault] [] = "f(a = g(), b)" ∧
      parameters? "f(a = g(), b)" = some ["a"] ∧ parameters? "f(a = g(), b)" ≠ some ["a", "b"] ∧
      parameters? "f(b, a = g())" = some ["b", "a"] := by
  have hwritten : written ['f'] [withCall, withoutDefault] [] = "f(a = g(), b)" := by
    decide +kernel
  have hturned : written ['f'] [withoutDefault, withCall] [] = "f(b, a = g())" := by
    decide +kernel
  have hname : '(' ∉ ['f'] := by decide
  obtain ⟨hread, hsingle, -⟩ := parameters?_written hname [withCall, withoutDefault] []
  obtain ⟨-, hlast, -⟩ := parameters?_written hname [withoutDefault, withCall] []
  rw [hwritten] at hread hsingle
  rw [hturned] at hlast
  refine ⟨hwritten, hread, fun hboth => ?_, (hlast (by decide)).mpr (by decide)⟩
  have hclosed := (hsingle (by decide)).mp hboth
  exact absurd hclosed (by decide)

end CodeClones.Signature
