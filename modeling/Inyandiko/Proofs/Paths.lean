import Inyandiko.Proofs.Expression.Adequacy
import Inyandiko.Proofs.JsonDocument
import Inyandiko.Proofs.Program.Line

/-! Paths into tables and lists. A path is read as the steps that it is written with, and its value is the element
that they lead to, one after the other, from the value of its name. Where a step leads nowhere the path has no value,
and it is not taken for anything else: no operator can be found in it. -/
namespace Inyandiko

open Text

/-- Blanks between the brackets of an index and its digits. -/
structure Blanks where
  text : Chars
  blank : text.all isBlank = true

/-- A step of a path as it is written: a key after a dot, or an index in brackets. -/
inductive Hop
  | key (name : Chars) (identifier : isIdentifier name = true)
  | index (before : Blanks) (literal : IntegerLiteral) (after : Blanks)

/-- The text of a step. -/
def Hop.text : Hop → Chars
  | key name _ => '.' :: name
  | index before literal after => '[' :: (before.text ++ literal.digits ++ after.text ++ [']'])

/-- The step that is written. -/
def Hop.step : Hop → Step
  | key name _ => .key (String.ofList name)
  | index _ literal _ => .index literal.value

namespace Heap

variable (heap : Heap)

/-- The element of a table or list that a step leads to. -/
def element? (value : Value) : Hop → Option Value
  | .key name _ => (heap.entries? value).bind (·.get? (String.ofList name))
  | .index _ literal _ => (heap.items? value).bind (·[literal.value.toNat]?)

/-- A step that is meant for a value: a key for a table, an index for a list. From null either leads nowhere. -/
def Suits (value : Value) : Hop → Prop
  | .key .. => value = .null ∨ (heap.entries? value).isSome = true
  | .index .. => value = .null ∨ (heap.items? value).isSome = true

/-- Steps of which each one is meant for the element that those before it lead to. -/
def Suited : Value → List Hop → Prop
  | _, [] => True
  | value, hop :: hops => heap.Suits value hop ∧ ∀ next, heap.element? value hop = some next → Suited next hops

end Heap

section Reading

private theorem Hop.stops (hops : List Hop) : (hops.flatMap Hop.text).head?.any isNamePart = false := by
  rcases hops with _ | ⟨hop, hops⟩
  · rfl
  · cases hop <;> rfl

private theorem isDigit_of_isDecimal {digits : Chars} (decimal : digits.all isDecimal = true) :
    digits.all isDigit = true := by
  rw [List.all_eq_true] at decimal ⊢
  intro c member
  rw [isDigit,decimal c member,Bool.true_or]

/-- What stands between the brackets of an index ends at the closing bracket, and is the digits without the blanks. -/
private theorem index_inner (before after : Blanks) (literal : IntegerLiteral) (rest : Chars) :
    let inner := before.text ++ literal.digits ++ after.text
    (inner ++ ']' :: rest).takeWhile (· ≠ ']') = inner ∧ (inner ++ ']' :: rest).dropWhile (· ≠ ']') = ']' :: rest ∧
      trim inner = literal.digits := by
  intro inner
  have unclosed : inner.all (· ≠ ']') = true := by
    rw [List.all_eq_true]
    intro c member
    have blank (blanks : Blanks) (member : c ∈ blanks.text) : c ≠ ']' :=
      ne_of_isBlank (List.all_eq_true.mp blanks.blank c member) (by decide)
    rw [decide_eq_true_eq]
    rcases List.mem_append.mp member with front | back
    · rcases List.mem_append.mp front with left | digit
      · exact blank before left
      · exact literal.ne_of_mem digit ']' (by decide)
    · exact blank after back
  obtain ⟨taken, left⟩ := span_append unclosed (show (']' :: rest).head?.any (· ≠ ']') = false by simp)
  exact ⟨taken, left, literal.trimmed.trim_pad before.blank after.blank⟩

private theorem steps_hop (hop : Hop) (fuel : Nat) {rest : Chars} (stops : rest.head?.any isNamePart = false) :
    Path.steps (fuel + 1) (hop.text ++ rest) = Path.followedBy hop.step (Path.steps fuel rest) := by
  cases hop with
  | key name identifier =>
    rw [Hop.text,List.cons_append,Path.steps,leadingName?_append identifier stops]
    rfl
  | index before literal after =>
    have shape : (Hop.index before literal after).text ++ rest =
        '[' :: (before.text ++ literal.digits ++ after.text ++ ']' :: rest) := by simp [Hop.text]
    have some_ : literal.digits.isEmpty = false := by simpa using literal.nonempty
    obtain ⟨taken, left, inner⟩ := index_inner before after literal rest
    rw [shape,Path.steps,taken,left,inner]
    simp only [some_,isDigit_of_isDecimal literal.decimal,literal.readInt_digits]
    rfl

private theorem steps_hops (hops : List Hop) {fuel : Nat} (enough : (hops.flatMap Hop.text).length ≤ fuel) :
    Path.steps fuel (hops.flatMap Hop.text) = .ok (some (hops.map Hop.step)) := by
  induction hops generalizing fuel with
  | nil => cases fuel <;> rfl
  | cons hop hops ih =>
    have long : 0 < hop.text.length := by cases hop <;> simp [Hop.text]
    rw [List.flatMap_cons,List.length_append] at enough
    obtain ⟨fuel, rfl⟩ := Nat.exists_eq_succ_of_ne_zero (show fuel ≠ 0 by omega)
    rw [List.flatMap_cons,steps_hop hop fuel (Hop.stops hops),ih (by omega)]
    rfl

private theorem parse_path {name : Chars} (identifier : isIdentifier name = true) (hops : List Hop) :
    Path.parse (name ++ hops.flatMap Hop.text) = .ok (some (String.ofList name, hops.map Hop.step)) := by
  rw [Path.parse,leadingName?_append identifier (Hop.stops hops)]
  dsimp only
  rw [steps_hops hops (Nat.le_refl _)]
  rfl

end Reading

section Following

variable {heap : Heap} {value : Value}

private theorem HeapM.get_bind_run {α : Type} (next : Heap → HeapM α) (heap : Heap) :
    (get >>= next) heap = next heap heap := rfl

private theorem step_run {hop : Hop} (suits : heap.Suits value hop) :
    value.step hop.step heap = .ok (heap.element? value hop, heap) := by
  cases hop with
  | key name identifier =>
    rcases suits with rfl | table
    · rfl
    · obtain ⟨entries, found⟩ := Option.isSome_iff_exists.mp table
      rw [Heap.element?,found,Option.bind_some]
      cases value with
      | ref place =>
        rw [Value.step,HeapM.get_bind_run,Hop.step]
        dsimp only
        rw [found]
        rfl
      | _ => cases found
  | index before literal after =>
    rcases suits with rfl | list
    · rfl
    · have natural : ¬literal.value < 0 := Int.not_lt.mpr (Int.natCast_nonneg _)
      cases value with
      | ref place =>
        rw [Value.step,HeapM.get_bind_run,Hop.step,Heap.element?]
        simp only [natural,if_false]
        rfl
      | _ => cases list

/-- Steps that are meant for the values on their way are followed through tables and lists. -/
private theorem follow_run {hops : List Hop} (suited : heap.Suited value hops) :
    value.follow (hops.map Hop.step) heap = .ok (hops.foldlM heap.element? value, heap) := by
  induction hops generalizing value with
  | nil => rfl
  | cons hop hops ih =>
    obtain ⟨suits, later⟩ := suited
    rw [List.map_cons,Value.follow,HeapM.bind_run (step_run suits),List.foldlM_cons]
    cases found : heap.element? value hop with
    | none => rfl
    | some next => exact ih (later next found)

end Following

section Evaluation

variable {lookup : String → Option Value} {heap : Heap}

private theorem Operator.lastAmong_startless (operators : List Operator) {places : List Spot}
    (startless : ∀ spot ∈ places, spot.char ∉ starts) (depth : Int) (skip : Nat) (last : Option (Nat × Operator)) :
    lastAmong spelling operators depth skip last places = last := by
  induction places generalizing depth with
  | nil => rfl
  | cons spot places ih =>
    obtain ⟨here, later⟩ := List.forall_mem_cons.mp startless
    have absent : atSpot? spelling operators spot = none := by
      apply atSpot?_eq_none
      intro operator _ found
      rw [first_of_startsWith found] at here
      exact absurd operator.first_mem here
    simp only [lastAmong,absent,ih later,ite_self]

private theorem Operator.split?_startless {text : Chars} (startless : ∀ c ∈ text, c ∉ starts) :
    split? text tiers = none := by
  apply split?_eq_none
  intro place _
  rw [find?_ofTier]
  apply lastAmong_startless
  intro spot member
  obtain ⟨before, eq, -⟩ := Scan.split_of_mem member
  exact startless spot.char (by rw [eq]; simp)

private theorem startless_blanks {text : Chars} (blank : text.all isBlank = true) :
    ∀ c ∈ text, c ∉ Operator.starts := by
  intro c member start
  have solid : ∀ d ∈ Operator.starts, isBlank d = false := forall_of_all (by decide)
  have blank' := List.all_eq_true.mp blank c member
  rw [solid c start] at blank'
  cases blank'

private theorem startless_words {text : Chars} (words : text.all isWordChar = true) :
    ∀ c ∈ text, c ∉ Operator.starts := by
  intro c member
  have quiet := isWordChar_isQuiet (List.all_eq_true.mp words c member)
  simp only [isQuiet,Bool.and_eq_true,Bool.not_eq_true'] at quiet
  simpa using quiet.2

private theorem Hop.startless (hop : Hop) : ∀ c ∈ hop.text, c ∉ Operator.starts := by
  cases hop with
  | key name identifier =>
    exact List.forall_mem_cons.mpr ⟨by decide, startless_words (all_isWordChar_identifier identifier).2⟩
  | index before literal after =>
    refine List.forall_mem_cons.mpr ⟨by decide, ?_⟩
    simp only [List.forall_mem_append]
    exact ⟨⟨⟨startless_blanks before.blank, startless_words literal.words.2⟩, startless_blanks after.blank⟩,
      List.forall_mem_singleton.mpr (by decide)⟩

private theorem Hop.last (hop : Hop) : hop.text ≠ [] ∧ hop.text.getLast?.any isBlank = false := by
  cases hop with
  | key name identifier =>
    obtain ⟨nonempty, words⟩ := all_isWordChar_identifier identifier
    exact ⟨List.cons_ne_nil _ _, last_append nonempty (trimmed_words words).last ['.']⟩
  | index before literal after =>
    refine ⟨List.cons_ne_nil _ _, ?_⟩
    rw [text,← List.cons_append,List.getLast?_concat]
    decide

private theorem last_hops (hops : List Hop) {front : Chars} (solid : front.getLast?.any isBlank = false) :
    (front ++ hops.flatMap Hop.text).getLast?.any isBlank = false := by
  induction hops generalizing front with
  | nil => simpa using solid
  | cons hop hops ih =>
    rw [List.flatMap_cons,← List.append_assoc]
    exact ih (last_append hop.last.1 hop.last.2 front)

variable (name : VariableName) (hops : List Hop)

private theorem trimmed_path : Trimmed (name.text ++ hops.flatMap Hop.text) := by
  obtain ⟨nonempty, words⟩ := all_isWordChar_identifier name.identifier
  have trimmed := trimmed_words words
  exact ⟨first_append nonempty trimmed.first _, last_hops hops trimmed.last⟩

private theorem startless_path : ∀ c ∈ name.text ++ hops.flatMap Hop.text, c ∉ Operator.starts := by
  rw [List.forall_mem_append]
  constructor
  · exact startless_words (all_isWordChar_identifier name.identifier).2
  · intro c member
    obtain ⟨hop, _, inside⟩ := List.mem_flatMap.mp member
    exact hop.startless c inside

private theorem isName_path (some_ : hops ≠ []) : isName (name.text ++ hops.flatMap Hop.text) = false := by
  rw [isName,leadingName?_append name.identifier (Hop.stops hops)]
  cases hops with
  | nil => exact absurd rfl some_
  | cons hop hops => cases hop <;> simp [Hop.text]

private theorem wordLiteral?_path : wordLiteral? (name.text ++ hops.flatMap Hop.text) = none := by
  cases hops with
  | nil => rw [List.flatMap_nil,List.append_nil,name.unreserved]
  | cons hop hops =>
    apply wordLiteral?_eq_none
    rw [List.all_append,Bool.and_eq_false_iff]
    right
    cases hop <;> rfl

private theorem path_plain :
    textLiteral? (name.text ++ hops.flatMap Hop.text) = .ok none ∧
      isBracketed (name.text ++ hops.flatMap Hop.text) = false ∧
      isNumeral (name.text ++ hops.flatMap Hop.text) = false := by
  obtain ⟨c, rest, eq, undecimal, unsigned⟩ := identifier_first name.identifier
  have words := (all_isWordChar_identifier name.identifier).2
  rw [eq,List.all_cons,Bool.and_eq_true] at words
  obtain ⟨unquoted, unbracketed⟩ := unquoted_unbracketed (opener_of_isWordChar words.1) (rest ++ hops.flatMap Hop.text)
  rw [eq,List.cons_append]
  exact ⟨unquoted, unbracketed, isNumeral_first undecimal unsigned _⟩

private theorem simpleValue?_path (names : ∀ name, (lookup name).isSome = true → isName name.toList = true)
    {value : Value}
    (bound : lookup (String.ofList name.text) = some value) (suited : heap.Suited value hops) :
    simpleValue? lookup (name.text ++ hops.flatMap Hop.text) heap = .ok (hops.foldlM heap.element? value, heap) := by
  by_cases none_ : hops = []
  · subst none_
    have simple := simpleValue?_name lookup heap name
    rw [bound] at simple
    rw [List.flatMap_nil,List.append_nil,simple]
    rfl
  · obtain ⟨unquoted, unbracketed, numberless⟩ := path_plain name hops
    have unbound := unbound_of_unnamed names (isName_path name hops none_)
    have followed := follow_run suited
    simp only [simpleValue?,unquoted,documentLiteral?,unbracketed,numberLiteral?,numberless,wordLiteral?_path,unbound,
      resolvePath,parse_path name.identifier,bound]
    exact followed

private theorem nonempty_path : name.text ++ hops.flatMap Hop.text ≠ [] :=
  List.append_ne_nil_of_left_ne_nil (all_isWordChar_identifier name.identifier).1 _

private theorem unmarked_path : (name.text ++ hops.flatMap Hop.text).head?.any marks.contains = false := by
  have unmarked := (Leaf.name name).unmarked
  obtain ⟨c, rest, eq, -⟩ := identifier_first name.identifier
  rw [Leaf.text,eq] at unmarked
  rw [eq]
  exact unmarked

/-- A path that leads nowhere is not taken for an expression in parentheses or with operators. -/
private theorem evaluateWithin_lost
    (lost : simpleValue? lookup (name.text ++ hops.flatMap Hop.text) heap = .ok (none, heap)) (depth : Nat) :
    evaluateWithin lookup (depth + 1) (name.text ++ hops.flatMap Hop.text) heap =
      .error (.ofCause (.unknownValue (String.ofList (name.text ++ hops.flatMap Hop.text)))) :=
  evaluateWithin_unknown (trimmed_path name hops).trim_eq (nonempty_path name hops) lost
    (Operator.split?_startless (startless_path name hops)) (unmarked_path name hops)

end Evaluation

/-- The path of a bound name and of steps, each of which is meant for the element that those before it lead to, is
read as these steps. Its value is the very element that they lead to, and nothing is changed. If they lead nowhere,
because a name or an item is missing or there is nothing to take a step from, the path is an unknown value. -/
theorem paths_reach_their_element (lookup : String → Option Value)
    (names : ∀ name, (lookup name).isSome = true → isName name.toList = true) (name : VariableName) {value : Value}
    (bound : lookup (String.ofList name.text) = some value) (heap : Heap) {hops : List Hop}
    (suited : heap.Suited value hops) :
    let path := name.text ++ hops.flatMap Hop.text
    Path.parse path = .ok (some (String.ofList name.text, hops.map Hop.step)) ∧
      (∀ element, hops.foldlM heap.element? value = some element → evaluate lookup path heap = .ok (element, heap)) ∧
      (hops.foldlM heap.element? value = none → ∃ cause, evaluate lookup path heap = .error (.ofCause cause) ∧
        cause.category = .evaluation ∧ cause.message = "Unknown value or variable: " ++ String.ofList path) := by
  intro path
  have simple := simpleValue?_path name hops names bound suited
  refine ⟨parse_path name.identifier hops, fun element found => ?_, fun absent => ?_⟩
  · rw [found] at simple
    exact evaluateWithin_run (trimmed_path name hops).trim_eq (nonempty_path name hops) simple
  · rw [absent] at simple
    exact ⟨.unknownValue (String.ofList path), evaluateWithin_lost name hops simple _, rfl, rfl⟩

/-- A table with a list in it and a private name without a value: a path to the end, one to an item that is missing,
and one that goes on from null. -/
theorem paths_reach_their_element_nested :
    let heap : Heap := { objects := #[.dict (.ofList [("b", .ref 1), ("_c", .null)]), .list [.int 5, .ref 2],
      .dict (.ofList [("d", .text "x")])] }
    let lookup : String → Option Value := fun name => if name = "a" then some (.ref 0) else none
    Path.parse "a.b[ 1 ].d".toList = .ok (some ("a", [.key "b", .index 1, .key "d"])) ∧
      evaluate lookup "a.b[ 1 ].d".toList heap = .ok (.text "x", heap) ∧
      (∃ cause, evaluate lookup "a.b[7].d".toList heap = .error (.ofCause cause) ∧
        cause.message = "Unknown value or variable: a.b[7].d") ∧
      ∃ cause, evaluate lookup "a._c.d".toList heap = .error (.ofCause cause) ∧
        cause.message = "Unknown value or variable: a._c.d" := by
  intro heap lookup
  have names : ∀ name, (lookup name).isSome = true → isName name.toList = true := by
    intro name known
    by_cases same : name = "a"
    · rw [same]
      decide
    · simp [lookup,same] at known
  have bound : lookup (String.ofList ['a']) = some (.ref 0) := rfl
  have inside : heap.Suited (.ref 0) [.key ['b'] (by decide),
      .index ⟨[' '], by decide⟩ (Json.digitsOf 1 (by decide)) ⟨[' '], by decide⟩, .key ['d'] (by decide)] := by
    refine ⟨.inr rfl, fun next found => ?_⟩
    cases found
    refine ⟨.inr rfl, fun next found => ?_⟩
    cases found
    exact ⟨.inr rfl, fun _ _ => trivial⟩
  have past : heap.Suited (.ref 0) [.key ['b'] (by decide),
      .index ⟨[], rfl⟩ (Json.digitsOf 7 (by decide)) ⟨[], rfl⟩, .key ['d'] (by decide)] := by
    refine ⟨.inr rfl, fun next found => ?_⟩
    cases found
    exact ⟨.inr rfl, fun next found => by cases found⟩
  have null : heap.Suited (.ref 0) [.key ['_', 'c'] (by decide), .key ['d'] (by decide)] := by
    refine ⟨.inr rfl, fun next found => ?_⟩
    cases found
    exact ⟨.inl rfl, fun next found => by cases found⟩
  obtain ⟨read, reached, -⟩ := paths_reach_their_element lookup names ⟨['a'], by decide, by decide⟩ bound heap inside
  obtain ⟨-, -, missed⟩ := paths_reach_their_element lookup names ⟨['a'], by decide, by decide⟩ bound heap past
  obtain ⟨-, -, ended⟩ := paths_reach_their_element lookup names ⟨['a'], by decide, by decide⟩ bound heap null
  obtain ⟨cause, failed, -, message⟩ := missed rfl
  obtain ⟨cause', failed', -, message'⟩ := ended rfl
  exact ⟨read, reached _ rfl, ⟨cause, failed, message⟩, cause', failed', message'⟩

end Inyandiko
