import Inyandiko.Host.Kit
import Inyandiko.Proofs.ScriptErrors
import Inyandiko.Proofs.TextLiteral

/-! Calls of what the host lends to scripts. A function without public attributes has no members, so a call of
it passes on all its arguments, texts included. Only a text that is a private name is refused, before the function
is called. -/
namespace Inyandiko

open Text Source

variable {Code : Type}

section Members

variable {heap : Heap} {target : Value}

/-- A value that can be called and has no public attributes. -/
structure Heap.Function (heap : Heap) (target : Value) : Prop where
  callable : heap.isCallable target = true
  bare (name : String) : isPrivateName name = false → attribute? target name heap = .ok (none, heap)

private theorem Heap.Function.of_attributes {name : String} {owner : Option Nat} {attributes : Table Value}
    (found : heap.object? target = some (.function name owner attributes))
    (hidden : ∀ key, isPrivateName key = false → attributes.get? key = none) : heap.Function target where
  callable := by rw [isCallable,found]
  bare key known := by
    simp only [attribute?,get,getThe,MonadStateOf.get,StateT.get,bind,StateT.bind,pure,Except.pure,Except.bind,
      found,hidden key known]
    rfl

private theorem Heap.entries?_of_isCallable (callable : heap.isCallable target = true) :
    heap.entries? target = none := by
  rw [isCallable] at callable
  rw [entries?]
  split at callable
  · simp only [*]
  · simp only [*]
  · cases callable

/-- What has no public attributes has no members; private names are refused all the same. -/
private theorem Dependency.method?_of_function (function : heap.Function target) (name : String) :
    method? target name heap =
      if isPrivateName name then .error (.ofCause (.privateMember name)) else .ok (none, heap) := by
  have tableless := Heap.entries?_of_isCallable function.callable
  have present : target ≠ .null := by
    rintro rfl
    cases function.callable
  simp only [method?,get,getThe,MonadStateOf.get,StateT.get,bind,StateT.bind,pure,Except.pure,Except.bind,tableless,
    present,if_false]
  cases private_ : isPrivateName name with
  | true => rfl
  | false =>
    simp only [Bool.false_eq_true,if_false,StateT.bind,function.bare name private_]
    rfl

end Members

private theorem Exec.eq_ok_of_bind {α β : Type} {first : ExecOf Code α} {next : α → ExecOf Code β}
    {world after : World Code}
    {value : β} (done : (first >>= next) world = (.ok value, after)) :
    ∃ found middle, first world = (.ok found, middle) ∧ next found middle = (.ok value, after) := by
  rw [bind_run] at done
  rcases ran : first world with ⟨halt | found, middle⟩
  · rw [ran] at done
    cases done
  · rw [ran] at done
    exact ⟨found, middle, rfl, done⟩

/-- A family of commands that does not take charge of a line, whatever is visible. -/
def Host.Leaves (host : Host) (family : Family) (line : Line) : Prop :=
  ∀ names heap, host.family family line names heap = .ok (none, heap)

namespace Machine

/-- Calls a target with arguments; a private name in the first place is refused. -/
def passOn (setup : Setup) (target : Value) (values : List Value) : HeapM Value :=
  match values with
  | .text name :: _ =>
    if isPrivateName name then throw (.ofCause (.privateMember name)) else setup.host.callValue target values
  | _ => setup.host.callValue target values

private theorem passOn_of_allowed {setup : Setup} {target : Value} {values : List Value}
    (allowed : ∀ text, values.head? = some (.text text) → isPrivateName text = false) :
    passOn setup target values = setup.host.callValue target values := by
  unfold passOn
  split
  · rename_i text rest
    rw [if_neg (by simp [allowed text rfl])]
  · rfl

private theorem passOn_of_private {setup : Setup} {target : Value} {values : List Value} {text : String}
    (first : values.head? = some (.text text)) (hidden : isPrivateName text = true) :
    passOn setup target values = throw (.ofCause (.privateMember text)) := by
  obtain ⟨rest, rfl⟩ := List.head?_eq_some_iff.mp first
  rw [passOn,if_pos hidden]

variable (machine : Machine Code) (setup : Setup) {frame : FrameId} {context : ContextId}
  {world middle after : World Code}

private theorem tokens_cons {token : Token} {rest : List Token} {values : List Value}
    (evaluated : machine.tokens (token :: rest) frame context world = (.ok values, after)) :
    ∃ value more middle, values = value :: more ∧ machine.token token frame context world = (.ok value, middle) ∧
      machine.tokens rest frame context middle = (.ok more, after) := by
  rw [tokens,List.mapM_cons] at evaluated
  obtain ⟨value, middle, head, evaluated⟩ := Exec.eq_ok_of_bind evaluated
  obtain ⟨more, last, tail, evaluated⟩ := Exec.eq_ok_of_bind evaluated
  cases evaluated
  exact ⟨value, more, middle, rfl, head, tail⟩

/-- A call of what can be called evaluates its arguments in order and passes all of them on, once. -/
private theorem callDependency_run (word : String) {first second : Token} {rest : List Token} (text : Line)
    {raw target : Value} {values : List Value}
    (evaluated : machine.token first frame context world = (.ok raw, middle))
    (evaluated' : machine.tokens (second :: rest) frame context middle = (.ok values, after))
    (found : Dependency.target raw (middle.contextAt context).dependencies = target)
    (function : after.heap.Function target) :
    machine.callDependency setup ⟨word, first :: second :: rest, text⟩ frame context world =
      Exec.onHeap (passOn setup target values) after := by
  obtain ⟨value, more, later, rfl, head, tail⟩ := machine.tokens_cons evaluated'
  simp only [callDependency,Exec.bind_run,evaluated,Exec.context_run,found,head,tail]
  have lookup (name : String) : Exec.onHeap (Dependency.method? target name) after =
      (if isPrivateName name then .error (.ofCause (.privateMember name)) else .ok none, after) := by
    rw [Exec.onHeap_run,Dependency.method?_of_function function]
    cases isPrivateName name <;> rfl
  have plain : (pure none : ExecOf Code (Option Value)) after = (.ok none, after) := rfl
  -- only a text is looked up, and there is nothing to be found
  cases value with
  | text name =>
    simp only [Exec.bind_run,lookup,passOn]
    cases isPrivateName name with
    | true => rfl
    | false => simp only [Bool.false_eq_true,if_false,Exec.bind_run,Exec.heap_run,function.callable,if_true]
  | _ => simp only [passOn,Exec.bind_run,plain,Exec.heap_run,function.callable,if_true]

private theorem consult_left {replacement : Option Family} {line : Line} {own : ExecOf Code (Option Value)}
    (replaced : ∀ family, replacement = some family → setup.host.Leaves family line)
    (left : own world = (.ok none, world)) : consult setup replacement line frame own world = (.ok none, world) := by
  cases replacement with
  | none => exact left
  | some family => simp only [consult,Exec.bind_run,Exec.scopes_run,Exec.onHeap_run,replaced family rfl _ _]

private theorem byFamilies_left {line : Line} {call : Call} (read : Call.parse? line = some call)
    (unnamed : call.name ∉ Environment.names ++ Validation.names ++ Network.names)
    (replaced : ∀ family, setup.Replaces family → setup.host.Leaves family line) :
    byFamilies setup line frame context world = (.ok none, world) := by
  simp only [List.mem_append,not_or] at unnamed
  have left (names : List String) (other : call.name ∉ names) : Call.parseNamed? line names = none := by
    simp [Call.parseNamed?,read,other]
  have environment (surface : Option Nat) (listener : Option (String → Listener)) :
      (Environment.handle line surface frame listener : ExecOf Code _) world = (.ok none, world) := by
    rw [Environment.handle,left _ unnamed.1.1]
    rfl
  have validation (surface : Option Nat) :
      (Validation.handle line surface frame : ExecOf Code _) world = (.ok none, world) := by
    rw [Validation.handle,left _ unnamed.1.2]
    rfl
  have network (surface : Option Nat) :
      (Network.handle setup line surface frame : ExecOf Code _) world = (.ok none, world) := by
    rw [Network.handle,left _ unnamed.2]
    rfl
  simp only [byFamilies,Exec.bind_run,Exec.context_run,
    consult_left setup (fun family given => replaced family (.inl given)) (environment _ _),
    consult_left setup (fun family given => replaced family (.inr (.inl given))) (validation _),
    consult_left setup (fun family given => replaced family (.inr (.inr given))) (network _)]

/-- A line that calls what the host lends, by a word for it and with one argument at least. The value of the
first argument is the target or names it; the others have values that are to be passed on. The start of the
command is noted before, and no family of commands that the host has put in place takes charge of the line. -/
inductive HostCall (machine : Machine Code) (setup : Setup) (frame : FrameId) (context : ContextId) (line : Line)
    (word : String) (world : World Code) (target : Value) (values : List Value) (after : World Code) : Prop
  | intro {first second : Token} {rest : List Token} {text : Line} {raw : Value} {started middle : World Code}
    (read : Call.parse? line = some ⟨word, first :: second :: rest, text⟩)
    (named : word = "koresha" ∨ word = "hamagara")
    (left : ∀ family, setup.Replaces family → setup.host.Leaves family line)
    (noted : notifyStart (some word) line context world = (.ok (), started))
    (evaluated : machine.token first frame context started = (.ok raw, middle))
    (evaluated' : machine.tokens (second :: rest) frame context middle = (.ok values, after))
    (found : Dependency.target raw (middle.contextAt context).dependencies = target)
    (function : after.heap.Function target)

namespace HostCall

variable {machine : Machine Code} {setup : Setup} {line : Line} {word : String} {target : Value} {values : List Value}

private theorem command_run (call : machine.HostCall setup frame context line word world target values after) :
    machine.command setup line frame context world =
      (do
        let value ← Exec.onHeap (passOn setup target values)
        notifyFinish (some word) line value context
        return value) after := by
  obtain ⟨read, named, left, noted, evaluated, evaluated', found, function⟩ := call
  rename_i first second rest text raw started middle
  -- neither word is one of a family of commands, so the call reaches the dependencies
  have unnamed : word ∉ Environment.names ++ Validation.names ++ Network.names := by
    rcases named with rfl | rfl <;> decide
  have reached : machine.generic setup ⟨word, first :: second :: rest, text⟩ line frame context started =
      Exec.onHeap (passOn setup target values) after := by
    rw [← machine.callDependency_run setup word text evaluated evaluated' found function]
    rcases named with rfl | rfl <;> simp [generic,Exec.bind_run,Exec.context_run]
  simp only [command,runCall,read,Option.map_some,Exec.bind_run,noted,byFamilies_left setup read unnamed left,
    reached]

private theorem evaluateToken_run (call : machine.HostCall setup frame context line word world target values after)
    {token : Token} (trimmed : trim token = line) (free : (world.contextAt context).functions.contains word = false) :
    machine.evaluateToken setup token frame context world = machine.command setup line frame context world := by
  obtain ⟨read, -, -, -, -, -, -, -⟩ := call
  have nonempty : line ≠ [] := by
    rintro rfl
    cases read
  simp only [evaluateToken,trimmed,nonempty,if_false,read,Exec.bind_run,Exec.context_run,free,Bool.false_eq_true]

end HostCall

end Machine

namespace VariableName

variable (name : VariableName)

theorem argument : Argument name.text := argument_of_identifier name.identifier

private theorem plain : Plain name.text := by
  obtain ⟨nonempty, words⟩ := all_isWordChar_identifier name.identifier
  have trimmed := trimmed_words words
  have unended : name.text.getLast? ≠ some ';' := by
    intro last
    have word := List.all_eq_true.mp words _ (List.mem_of_getLast? last)
    revert word
    decide
  refine ⟨nonempty, trimmed, unended, ?_⟩
  have read := leadingName?_append name.identifier (show ([] : Chars).head?.any isNamePart = false from rfl)
  rw [List.append_nil] at read
  simp only [Call.parse?,trimmed.trim_eq,stripSemicolon_eq unended,read,bind,Option.bind]
  rfl

variable {name} {setup : Setup} {frame : FrameId} {context : ContextId}

theorem evaluateIn_run {world : World Code} {value : Value}
    (visible : world.scopes.resolve? frame (String.ofList name.text) = some value) :
    Exec.evaluateIn frame name.text world = (.ok value, world) := by
  have simple : simpleValue? (world.scopes.resolve? frame) name.text world.heap = .ok (some value, world.heap) := by
    rw [simpleValue?_name,visible]
  have evaluated : evaluate (world.scopes.resolve? frame) name.text world.heap = .ok (value, world.heap) :=
    evaluateWithin_run name.plain.trimmed.trim_eq name.plain.nonempty simple
  simp only [Exec.evaluateIn,Exec.bind_run,Exec.scopes_run,Exec.onHeap_run,evaluated]

variable {world : World}

private theorem token_run {value : Value} (visible : world.scopes.resolve? frame (String.ofList name.text) = some value)
    (depth : Nat) : (Machine.level setup (depth + 1)).token name.text frame context world = (.ok value, world) := by
  rw [token_plain name.plain,evaluateIn_run visible]

private theorem tokens_run {names : List VariableName} {values : List Value}
    (visible : names.map (fun name => world.scopes.resolve? frame (String.ofList name.text)) = values.map some)
    (depth : Nat) :
    (Machine.level setup (depth + 1)).tokens (names.map text) frame context world = (.ok values, world) := by
  induction names generalizing values with
  | nil =>
    rw [List.map_nil,eq_comm,List.map_eq_nil_iff] at visible
    subst visible
    rfl
  | cons name names ih =>
    obtain ⟨value, more, rfl, first, rest⟩ := List.map_eq_cons_iff.mp visible.symm
    have rest := ih rest.symm
    rw [Machine.tokens] at rest ⊢
    simp only [List.map_cons,List.mapM_cons,Exec.bind_run,token_run first.symm depth,rest]
    rfl

end VariableName

/-- A line that calls a function of the host without public attributes calls it exactly once, with the values of all
arguments in their order, and gives its value; so does a token, unless a function of the script has the name of the
command. Only if the first of the values is a private name, nothing is called, and the name is refused. All values
come through: with a function and values that are visible by names, or a text for the name of the function, the line
that has these names as arguments is such a line. -/
theorem host_calls_pass_their_arguments (setup : Setup) (frame : FrameId) (context : ContextId) (word : String) :
    (∀ (machine : Machine) line world target values after,
      machine.HostCall setup frame context line word world target values after →
      ((∀ text, values.head? = some (.text text) → isPrivateName text = false) →
        machine.command setup line frame context world =
          (do
            let value ← Exec.onHeap (setup.host.callValue target values)
            Machine.notifyFinish (some word) line value context
            return value) after) ∧
      (∀ text, values.head? = some (.text text) → isPrivateName text = true →
        machine.command setup line frame context world = (.error (.ofCause (.privateMember text)), after)) ∧
      ∀ token, trim token = line → (world.contextAt context).functions.contains word = false →
        machine.evaluateToken setup token frame context world = machine.command setup line frame context world) ∧
    ∀ depth (function : VariableName) (names : List VariableName) world started raw values,
      let line := callText word.toList (function.text :: names.map VariableName.text)
      let target := Dependency.target raw (started.contextAt context).dependencies
      (word = "koresha" ∨ word = "hamagara") →
      (∀ family, setup.Replaces family → setup.host.Leaves family line) →
      Machine.notifyStart (some word) line context world = (.ok (), started) →
      started.scopes.resolve? frame (String.ofList function.text) = some raw →
      names.map (fun name => started.scopes.resolve? frame (String.ofList name.text)) = values.map some →
      values ≠ [] → started.heap.Function target →
      (Machine.level setup (depth + 1)).HostCall setup frame context line word world target values started := by
  constructor
  · intro machine line world target values after call
    refine ⟨fun allowed => ?_, fun text first hidden => ?_, fun token trimmed free =>
      call.evaluateToken_run trimmed free⟩
    · rw [call.command_run,Machine.passOn_of_allowed allowed]
    · rw [call.command_run,Machine.passOn_of_private first hidden]
      rfl
  · intro depth function names world started raw values line target named left noted visible visible' some_ bare
    cases names with
    | nil => exact absurd (List.map_eq_nil_iff.mp visible'.symm) some_
    | cons name names =>
      have identifier : isIdentifier word.toList = true := by rcases named with rfl | rfl <;> decide
      have each : ∀ arg ∈ function.text :: (name :: names).map VariableName.text, Argument arg := by
        intro arg member
        rcases List.mem_cons.mp member with rfl | member
        · exact function.argument
        · obtain ⟨name, -, rfl⟩ := List.mem_map.mp member
          exact name.argument
      obtain ⟨some_', words⟩ := all_isWordChar_identifier identifier
      obtain ⟨logical, -⟩ := logical_callText (wording_of_words words) some_' (trimmed_words words).first each
      have read := parse?_callText identifier each logical.trimmed.trim_eq
      rw [String.ofList_toList] at read
      exact .intro read named left noted (VariableName.token_run visible depth)
        (VariableName.tokens_run visible' depth) rfl bare

namespace PlainCall

def setup : Setup := { host := Kit.host }

/-- The function that lists its arguments is visible, and a text that names a dependency. -/
def options : RunOptions where
  vars := .ofList [("f", .ref 3), ("text", .text "f")]
  dependencies := .ofList [("f", .ref 0)]

def world : World := ({ heap := Kit.heap } : World).opened options

def function : VariableName := ⟨['f'], by decide, by decide⟩

def argument : VariableName := ⟨"text".toList, by decide, by decide⟩

end PlainCall

open PlainCall in
/-- A text that names a dependency is passed on as it is, and the list of it is given back. -/
theorem host_calls_pass_their_arguments_text :
    ((Machine.level setup 1).command setup "koresha(f, text)".toList 0 0 world) =
      (.ok (.ref 19), { world with heap := (Kit.heap.alloc (.list [.text "f"])).2 }) := by
  have call := (host_calls_pass_their_arguments setup 0 0 "koresha").2 0 function [argument] world world (.ref 3)
    [.text "f"] (.inl rfl) (by simp [setup,Setup.Replaces]) rfl rfl rfl (by simp)
    (.of_attributes rfl fun _ _ => rfl)
  exact ((host_calls_pass_their_arguments setup 0 0 "koresha").1 _ _ _ _ _ _ call).1 fun text first => by
    cases first
    decide +kernel

open PlainCall in
/-- A text that begins with an underscore does not reach the function, although the function would take it. -/
theorem private_text_is_not_passed :
    (execute setup "koresha(f, '_x')" options { heap := Kit.heap }).1 =
      .error (.fault ⟨.privateMember "_x", some "koresha(f, '_x')"⟩) ∧
    (setup.host.callValue (.ref 3) [.text "_x"] Kit.heap).isOk = true := by
  exact ⟨eq_error_of_stoppedBy (by decide +kernel), by decide +kernel⟩

end Inyandiko
