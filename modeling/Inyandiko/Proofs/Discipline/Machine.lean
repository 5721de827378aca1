import Inyandiko.Proofs.Discipline.Command

/-! Machines in a conduct. Two machines agree when their blocks, tokens, calls and scripts are
related; then what the machines of the next level do is related, too. Some relations hold of tokens
and blocks of a certain size only, so machines agree on given tokens and blocks. Statements have blocks
and tokens inside them, commands have tokens, calls and scripts. -/
namespace Inyandiko

open Source

variable {Code Code' : Type}

/-- How functions of a script are entered, once their arguments are known. -/
abbrev Machine.Entry (Code : Type) := String → FunctionDef Code → List Value → ContextId → ExecOf Code Value

/-- Calls a function of the script, which is entered in a given way. -/
def Machine.callBy (enter : Entry Code) (name : String) (args : ExecOf Code (List Value)) (context : ContextId) :
    ExecOf Code Value := do
  match (← Exec.context context).functions.get? name with
  | none => Exec.fail (.unknownFunction name)
  | some function => enter name function (← args) context

/-- Runs a call that no family of commands takes charge of; functions are entered in a given way. -/
def Machine.genericBy (machine : Machine Code) (setup : Setup) (enter : Entry Code) (call : Call) (line : Line)
    (frame : FrameId) (context : ContextId) : ExecOf Code Value := do
  let run ← Exec.context context
  if call.name = "injiza" then machine.service call frame context
  else if call.name = "koresha" || call.name = "hamagara" then
    machine.callDependency setup call frame context
  else match run.commands.get? call.name with
    | some handler => machine.custom setup handler call line frame context
    | none =>
      if run.functions.contains call.name then
        callBy enter call.name (machine.tokens call.args frame context) context
      else Exec.fail (.unknownCommand call.name)

/-- What a command does between the events of its start and its end. -/
def Machine.carryOut (machine : Machine Code) (setup : Setup) (enter : Entry Code) (call : Option Call)
    (line : Line) (frame : FrameId) (context : ContextId) : ExecOf Code Value := do
  match ← byFamilies setup line frame context with
  | some value => return value
  | none =>
    match call with
    | none => throw (.fault ⟨.badStatement (String.ofList line), some (String.ofList line)⟩)
    | some call => machine.genericBy setup enter call line frame context

/-- Runs a line that is a command; functions are entered in a given way. -/
def Machine.commandBy (machine : Machine Code) (setup : Setup) (enter : Entry Code) (line : Line)
    (frame : FrameId) (context : ContextId) : ExecOf Code Value := do
  notifyStart ((Call.parse? line).map (·.name)) line context
  let value ← machine.carryOut setup enter (Call.parse? line) line frame context
  notifyFinish ((Call.parse? line).map (·.name)) line value context
  return value

theorem Machine.command_eq (machine : Machine Code) (setup : Setup) (line : Line) (frame : FrameId)
    (context : ContextId) :
    machine.command setup line frame context = machine.commandBy setup (machine.enter setup) line frame context := by
  simp only [command,runCall,commandBy,carryOut,bind_assoc]
  congr
  funext _
  congr
  funext taken
  cases taken with
  | some value => rfl
  | none => cases Call.parse? line <;> rfl

/-- The value of a token whose functions are entered and whose commands are run in given ways. -/
def Machine.tokenBy (machine : Machine Code) (enter : Entry Code)
    (dispatch : Line → ExecOf Code Value) (token : Token) (frame : FrameId) (context : ContextId) :
    ExecOf Code Value := do
  let text := Text.trim token
  if text = [] then return .null
  match Call.parse? text with
  | some call =>
    if (← Exec.context context).functions.contains call.name then
      callBy enter call.name (machine.tokens call.args frame context) context
    else dispatch text
  | none => Exec.evaluateIn frame text

private theorem Machine.evaluateToken_eq (machine : Machine Code) (setup : Setup) (token : Token) (frame : FrameId)
    (context : ContextId) :
    machine.evaluateToken setup token frame context =
      machine.tokenBy (machine.enter setup) (machine.command setup · frame context) token frame context :=
  rfl

namespace Conduct

variable {recode : Code → Code'} {setup : Setup}

/-- Machines that do related things with some blocks and the tokens in them. -/
structure Blocks (D : Conduct recode setup) (Tok : Token → Prop) (Blk : Code → Prop)
    (machine : Machine Code) (machine' : Machine Code') : Prop where
  code (lines : List Line) : recode (machine.code lines) = machine'.code lines
  body {code : Code} (given : Blk code) : D.Body code
  block {code : Code} (given : Blk code) {frame : FrameId} (here : D.At frame) (context : ContextId) :
    D.Rel context (some frame)
      (machine.block code frame context) (machine'.block (recode code) frame context)
  token {token : Token} (given : Tok token) {frame : FrameId} (here : D.At frame) (context : ContextId)
    (home : Option FrameId) :
    D.Rel context home (machine.token token frame context) (machine'.token token frame context)

/-- Machines that do related things with what is inside commands. -/
structure Calls (D : Conduct recode setup) (Tok : Token → Prop) (machine : Machine Code)
    (machine' : Machine Code') (entry : Machine.Entry Code) (entry' : Machine.Entry Code') : Prop where
  token {token : Token} (given : Tok token) {frame : FrameId} (here : D.At frame) (context : ContextId)
    (home : Option FrameId) :
    D.Rel context home (machine.token token frame context) (machine'.token token frame context)
  enter {run : Context Code} (known : D.Known run) {name : String} {function : FunctionDef Code}
    (found : run.functions.get? name = some function) {args : List Value} (fine : ∀ arg ∈ args, D.Fine arg)
    (context : ContextId) (home : Option FrameId) :
    D.Rel context home (entry name function args context) (entry' name (function.recode recode) args context)
  run (hosted : D.hosted = true) (source : String) {options : RunOptions} (fit : D.Fit options)
    (context : ContextId) (home : Option FrameId) :
    D.Rel context home (machine.run source options) (machine'.run source options)

/-- Machines that do related things with some tokens and some blocks. -/
structure Agree (D : Conduct recode setup) (Tok : Token → Prop) (Blk : Code → Prop)
    (machine : Machine Code) (machine' : Machine Code') : Prop
    extends D.Blocks Tok Blk machine machine',
      D.Calls Tok machine machine' (machine.enter setup) (machine'.enter setup)

/-- Lines that can be run: machines agree on their tokens, and where no command of the network is run they are none. -/
structure Runs (D : Conduct recode setup) (Tok : Token → Prop) (line : Line) : Prop where
  args {call : Call} (read : Call.parse? line = some call) : ∀ token ∈ call.args, Tok token
  online (own : setup.network = none) (named : (Call.parseNamed? line Network.names).isSome) : D.Online

/-- Counting a call under way keeps computations related, and so does refusing one. -/
structure Counts (D : Conduct recode setup) : Prop where
  refused : D.Halts (.ofCause .callDepth)
  counted {context : ContextId} {home : Option FrameId} {α : Type} [Carries α] {work : ExecOf Code α}
    {work' : ExecOf Code' α} (inner : D.Rel context home work work') :
    D.Rel context home (Machine.counted context work) (Machine.counted context work')

/-- Telling hooks of commands is related to itself. -/
structure Tells (D : Conduct recode setup) : Prop where
  start {context : ContextId} {home : Option FrameId} (name : Option String) (line : Line) :
    D.Rel context home (Machine.notifyStart name line context) (Machine.notifyStart name line context)
  finish {context : ContextId} {home : Option FrameId} (name : Option String) (line : Line) (value : Value) :
    D.Rel context home (Machine.notifyFinish name line value context)
      (Machine.notifyFinish name line value context)

variable (D : Conduct recode setup) {Tok : Token → Prop} {Blk : Code → Prop}
  {machine : Machine Code} {machine' : Machine Code'} {entry : Machine.Entry Code}
  {entry' : Machine.Entry Code'} {context : ContextId} {home : Option FrameId}

theorem runs_fully (online : setup.network = none → D.Online) (line : Line) : D.Runs (fun _ => True) line where
  args _ _ _ := trivial
  online own _ := online own

section Calls

private theorem declareAll {frame : FrameId} (here : D.At frame) {entries : List (String × Value)}
    (fine : ∀ entry ∈ entries, D.Fine entry.2) :
    D.Rel context (some frame)
      (Machine.declareAll frame entries) (Machine.declareAll frame entries) := by
  induction entries with
  | nil => exact D.pure Carries.all_unit
  | cons entry entries ih =>
    refine D.bind (D.declare here entry.1 (fine entry List.mem_cons_self) false) fun _ _ => ih ?_
    exact fun other member => fine other (List.mem_cons_of_mem _ member)

/-- Calls are related when the bodies are, once the call under way is counted. -/
theorem runBody {function : FunctionDef Code} (here : D.At function.frame) {args : List Value}
    (fine : ∀ arg ∈ args, D.Fine arg)
    (body : ∀ frame, D.At frame → D.Rel context (some frame)
      (Machine.counted context (machine.block function.body frame context))
      (Machine.counted context (machine'.block (recode function.body) frame context))) :
    D.Rel context home (machine.runBody function args context)
      (machine'.runBody (function.recode recode) args context) := by
  refine D.child here fun frame inside => D.bind (D.declareAll inside fun entry member => ?_) fun _ _ =>
    D.bind (body frame inside) fun signal fine => D.pure ?_
  · exact fine entry.2 (List.of_mem_zip member).2
  · cases signal with
    | none => exact Carries.all_value.2 D.fine_null
    | some value => exact fine

/-- Where there is no room for another call, nothing is asked of the body. -/
theorem enter (refused : D.Halts (.ofCause .callDepth)) (name : String) {function : FunctionDef Code}
    (here : D.At function.frame) {args : List Value} (fine : ∀ arg ∈ args, D.Fine arg)
    (body : ∀ run, D.Known run → ¬setup.maxCallDepth ≤ run.callDepth → ∀ frame, D.At frame →
      D.Rel context (some frame)
        (Machine.counted context (machine.block function.body frame context))
        (Machine.counted context (machine'.block (recode function.body) frame context))) :
    D.Rel context home (machine.enter setup name function args context)
      (machine'.enter setup name (function.recode recode) args context) := by
  refine D.context (fun _ _ _ => rfl) fun run known => ?_
  dsimp only [Context.recode]
  by_cases wrong : args.length ≠ function.params.length
  · have wrong' : args.length ≠ (function.recode recode).params.length := wrong
    rw [if_pos wrong,if_pos wrong']
    exact D.fail _ nofun
  · have right' : ¬args.length ≠ (function.recode recode).params.length := wrong
    rw [if_neg wrong,if_neg right']
    split
    · exact D.throw refused
    · rename_i room
      exact D.runBody here fine (body run known room)

theorem callBy (agree : D.Calls Tok machine machine' entry entry') (name : String)
    {args : ExecOf Code (List Value)} {args' : ExecOf Code' (List Value)}
    (same : D.Rel context home args args') :
    D.Rel context home (Machine.callBy entry name args context) (Machine.callBy entry' name args' context) := by
  refine D.context (fun _ _ _ => rfl) fun run known => ?_
  simp only [Context.recode,Table.get?_map]
  cases found : run.functions.get? name with
  | none => exact D.fail _ (by simp)
  | some function =>
    refine D.bind same fun args fine => agree.enter known found (fun arg member => ?_) context home
    exact Carries.all_value.1 (Carries.all_list.1 fine arg member)

theorem callFunction (agree : D.Agree Tok Blk machine machine') (name : String)
    {args : ExecOf Code (List Value)} {args' : ExecOf Code' (List Value)}
    (same : D.Rel context home args args') :
    D.Rel context home (machine.callFunction setup name args context)
      (machine'.callFunction setup name args' context) :=
  D.callBy agree.toCalls name same

private theorem tokens (agree : D.Calls Tok machine machine' entry entry') {args : List Token}
    (given : ∀ token ∈ args, Tok token) {frame : FrameId} (here : D.At frame) :
    D.Rel context home
      (machine.tokens args frame context) (machine'.tokens args frame context) :=
  D.mapM fun token member => agree.token (given token member) here context home

end Calls

section Services

private theorem service (agree : D.Calls Tok machine machine' entry entry') (call : Call)
    (given : ∀ token ∈ call.args, Tok token) {frame : FrameId} (here : D.At frame) :
    D.Rel context home
      (machine.service call frame context) (machine'.service call frame context) := by
  unfold Machine.service
  generalize call.args = args at given
  rcases args with _ | ⟨token, _ | _⟩
  case cons.nil =>
    refine D.bind (agree.token (given token (by simp)) here context home) fun value _ => ?_
    refine D.bind (D.hostText value) fun name _ => D.context (fun _ _ _ => rfl) fun run known => ?_
    dsimp only [Context.recode]
    cases found : run.dependencies.get? name with
    | some value =>
      exact D.pure (Carries.all_value.2 (D.dependencies known value (Table.mem_values_of_get? found)))
    | none => exact D.fail _ nofun
  all_goals exact D.fail _ nofun

private theorem callIfCallable {target : Value} {args : List Value} (fine : D.Fine target)
    (given : ∀ arg ∈ args, D.Fine arg) {other : ExecOf Code Value} {other' : ExecOf Code' Value}
    (same : D.Rel context home other other') :
    D.Rel context home
      (do
        if (← Exec.heap).isCallable target then Exec.onHeap (setup.host.callValue target args)
        else other)
      (do
        if (← Exec.heap).isCallable target then Exec.onHeap (setup.host.callValue target args)
        else other') := by
  refine D.heap fun heap heap' alike => ?_
  rw [(D.answers alike).callable]
  split
  · exact D.call fine given
  · exact same

private theorem fine_target {raw : Value} (fine : D.Fine raw) {run : Context Code} (known : D.Known run) :
    D.Fine (Dependency.target raw run.dependencies) := by
  cases raw with
  | text name =>
    cases found : run.dependencies.get? name with
    | none => simpa [Dependency.target,found] using fine
    | some value =>
      simpa [Dependency.target,found] using D.dependencies known value (Table.mem_values_of_get? found)
  | _ => exact fine

private theorem callDependency (agree : D.Calls Tok machine machine' entry entry') (call : Call)
    (given : ∀ token ∈ call.args, Tok token) {frame : FrameId} (here : D.At frame) :
    D.Rel context home
      (machine.callDependency setup call frame context)
      (machine'.callDependency setup call frame context) := by
  unfold Machine.callDependency
  generalize call.args = args at given
  rcases args with _ | ⟨first, args⟩
  · exact D.fail _ nofun
  refine D.bind (agree.token (given first (by simp)) here context home) fun raw fine => ?_
  refine D.context (fun _ _ _ => rfl) fun run known => ?_
  dsimp only [Context.recode]
  have called := D.fine_target (Carries.all_value.1 fine) known
  generalize Dependency.target raw run.dependencies = target at called
  rcases args with _ | ⟨second, rest⟩
  · exact D.callIfCallable called (List.forall_mem_nil _) (D.pure (Carries.all_value.2 called))
  refine D.bind (agree.token (given second (by simp)) here context home) fun head fine => ?_
  refine D.bind (D.tokens agree (fun token member => given token (by simp [member])) here) fun values fines => ?_
  have args : ∀ arg ∈ values, D.Fine arg := fun arg member =>
    Carries.all_value.1 (Carries.all_list.1 fines arg member)
  have direct : D.Rel context home _ _ :=
    D.callIfCallable called (List.forall_mem_cons.2 ⟨Carries.all_value.1 fine, args⟩)
      (D.fail (.uncallableTarget call.name) nofun)
  -- the method is looked for only under a text
  cases head with
  | text name =>
    refine D.bind (D.method called name) fun method fine => ?_
    cases method with
    | some method => exact D.call (Carries.all_value.1 (Carries.all_some.1 fine)) args
    | none => exact direct
  | _ =>
    refine D.bind (α := Option Value) (D.pure Carries.all_none) fun method fine => ?_
    cases method with
    | some method => exact D.call (Carries.all_value.1 (Carries.all_some.1 fine)) args
    | none => exact direct

end Services

section Commands

private theorem fine_snapshot {scopes : Scopes} (visible : scopes.Within D.At D.Fine) {frame : FrameId}
    (here : D.At frame) : ∀ value ∈ (scopes.snapshot frame).values, D.Fine value :=
  Scopes.mem_snapshot fun id member => visible frame here id member

private theorem perform (agree : D.Calls Tok machine machine' entry entry') (hosted : D.hosted = true)
    {frame : FrameId} (here : D.At frame) {action : Action} (does : D.Does action) :
    D.Rel context home
      (machine.perform frame context action) (machine'.perform frame context action) := by
  induction action with
  | done value => exact D.pure (Carries.all_value.2 (D.gives does))
  | fail halt => exact D.throw (D.fails does)
  | examine next ih =>
    refine D.heap fun heap heap' alike => ?_
    obtain ⟨same,does⟩ := D.examine does alike
    rw [same]
    exact ih heap does
  | make object next ih =>
    obtain ⟨made,does⟩ := D.make does
    exact D.bind made fun value fine => ih value (does value (Carries.all_value.1 fine))
  | visible next ih =>
    exact D.scopes fun scopes visible => ih _ (D.visible does (D.fine_snapshot visible here))
  | assign name value next ih =>
    obtain ⟨assigned,does⟩ := D.hostAssign does here
    exact D.bind assigned fun _ _ => ih does
  | erase name next ih =>
    obtain ⟨erased,does⟩ := D.hostErase does here
    exact D.bind erased fun _ _ => ih does
  | run source overrides next ih =>
    refine D.nested does here fun options fit => ?_
    exact D.bind (agree.run hosted source fit context home) fun record fine => ih record (D.resumes does fine)

private theorem genericBy (agree : D.Calls Tok machine machine' entry entry') (call : Call)
    (given : ∀ token ∈ call.args, Tok token) {line line' : Line} (same : D.hosted = true → line' = line)
    {frame : FrameId} (here : D.At frame) :
    D.Rel context home
      (machine.genericBy setup entry call line frame context)
      (machine'.genericBy setup entry' call line' frame context) := by
  refine D.context (fun _ _ _ => rfl) fun run known => ?_
  simp only [Context.recode,Table.contains_map]
  split
  · exact D.service agree call given here
  split
  · exact D.callDependency agree call given here
  cases found : run.commands.get? call.name with
  | some handler =>
    cases hosted : D.hosted with
    | false => simp [D.plain hosted known,Table.get?,Table.empty] at found
    | true =>
      rw [same hosted]
      refine D.bind (D.tokens agree given here) fun args fine => D.context (fun _ _ _ => rfl) fun now knows =>
        D.perform agree hosted here (D.handler known found (fun arg member => ?_) (D.dependencies knows))
      exact Carries.all_value.1 (Carries.all_list.1 fine arg member)
  | none =>
    dsimp only
    split
    · exact D.callBy agree call.name (D.tokens agree given here)
    · exact D.fail _ (by simp)

private theorem consult {replacement : Option Family} {line line' : Line}
    (given : ∀ family, replacement = some family → setup.Replaces family)
    (same : ∀ family, replacement = some family → setup.host.family family line' = setup.host.family family line)
    {frame : FrameId} (here : D.At frame) {own : ExecOf Code (Option Value)} {own' : ExecOf Code' (Option Value)}
    (related : replacement = none → D.Rel context home own own') :
    D.Rel context home
      (Machine.consult setup replacement line frame own) (Machine.consult setup replacement line' frame own') := by
  cases replacement with
  | some family =>
    simp only [Machine.consult,same family rfl]
    exact D.scopes fun scopes within => D.replaced (given family rfl) line (D.fine_snapshot within here)
  | none => exact related rfl

/-- Families take lines that are the same call in the same way; a run that stops at one of them has its
text. -/
theorem byFamiliesOf {line line' : Line} (read : Call.parse? line' = Call.parse? line)
    (same : ∀ family, setup.Replaces family → setup.host.family family line' = setup.host.family family line)
    (online : setup.network = none → (Call.parseNamed? line Network.names).isSome → D.Online)
    (stop : ∀ value, D.Rel context home (Machine.stopIfInvalid value line context)
      (Machine.stopIfInvalid value line' context)) {frame : FrameId} (here : D.At frame) :
    D.Rel context home
      (Machine.byFamilies setup line frame context) (Machine.byFamilies setup line' frame context) := by
  have environment : (Environment.handle line' : _ → _ → _ → ExecOf Code' _) = Environment.handle line := by
    funext surface frame listener
    simp only [Environment.handle,Call.parseNamed?,read]
  have validation : (Validation.handle line' : _ → _ → ExecOf Code' _) = Validation.handle line := by
    funext surface frame
    simp only [Validation.handle,Call.parseNamed?,read]
  have network : (Network.handle setup line' : _ → _ → ExecOf Code' _) = Network.handle setup line := by
    funext surface frame
    simp only [Network.handle,Call.parseNamed?,read]
  refine D.context (fun _ _ _ => rfl) fun run known => ?_
  rw [environment,validation,network]
  have facing : ∀ id, run.surface = some id → D.On id := fun _ found => D.facing known found
  refine D.bind (D.consult (fun _ given => .inl given) (fun family given => same family (.inl given)) here
    fun _ => D.environment line facing here _) fun taken fine => ?_
  cases taken with
  | some value => exact D.pure fine
  | none =>
    refine D.bind (D.consult (fun _ given => .inr (.inl given))
      (fun family given => same family (.inr (.inl given))) here
      fun _ => D.validation line facing here) fun checked fine => ?_
    cases checked with
    | some value => exact D.bind (stop value) fun _ _ => D.pure fine
    | none =>
      exact D.consult (fun _ given => .inr (.inr given)) (fun family given => same family (.inr (.inr given))) here
        fun own => D.network (online own) facing here

private theorem byFamilies {line : Line}
    (online : setup.network = none → (Call.parseNamed? line Network.names).isSome → D.Online) {frame : FrameId}
    (here : D.At frame) :
    D.Rel context home
      (Machine.byFamilies setup line frame context) (Machine.byFamilies setup line frame context) :=
  D.byFamiliesOf rfl (fun _ _ => rfl) online (fun value => D.stopIfInvalid value line) here

/-- Commands of lines that are the same call, and that families take in the same way. -/
theorem carryOutOf (agree : D.Calls Tok machine machine' entry entry') {call : Option Call}
    (given : ∀ read, call = some read → ∀ token ∈ read.args, Tok token) {line line' : Line}
    (same : D.hosted = true → line' = line) {frame : FrameId} (here : D.At frame)
    (families : D.Rel context home
      (Machine.byFamilies setup line frame context) (Machine.byFamilies setup line' frame context))
    (stray : call = none → D.Rel context home (α := Value)
      (MonadExcept.throw (.fault ⟨.badStatement (String.ofList line), some (String.ofList line)⟩))
      (MonadExcept.throw (.fault ⟨.badStatement (String.ofList line'), some (String.ofList line')⟩))) :
    D.Rel context home
      (machine.carryOut setup entry call line frame context)
      (machine'.carryOut setup entry' call line' frame context) := by
  refine D.bind families fun taken fine => ?_
  cases taken with
  | some value => exact D.pure fine
  | none =>
    cases call with
    | none => exact stray rfl
    | some call => exact D.genericBy agree call (given call rfl) same here

/-- The fault of a line that no family takes and that is no call has this line. -/
theorem carryOut (agree : D.Calls Tok machine machine' entry entry') {line : Line} (runs : D.Runs Tok line)
    (stray : Call.parse? line = none →
      D.Halts (.fault ⟨.badStatement (String.ofList line), some (String.ofList line)⟩))
    {frame : FrameId} (here : D.At frame) :
    D.Rel context home
      (machine.carryOut setup entry (Call.parse? line) line frame context)
      (machine'.carryOut setup entry' (Call.parse? line) line frame context) :=
  D.carryOutOf agree (fun _ => runs.args) (fun _ => rfl) here (D.byFamilies runs.online here)
    fun none => D.throw (stray none)

theorem commandBy (agree : D.Calls Tok machine machine' entry entry') (tells : D.Tells) {line : Line}
    (runs : D.Runs Tok line)
    (stray : Call.parse? line = none →
      D.Halts (.fault ⟨.badStatement (String.ofList line), some (String.ofList line)⟩))
    {frame : FrameId} (here : D.At frame) :
    D.Rel context home
      (machine.commandBy setup entry line frame context) (machine'.commandBy setup entry' line frame context) :=
  D.bind (tells.start _ line) fun _ _ => D.bind (D.carryOut agree runs stray here) fun value fine =>
    D.bind (tells.finish _ line value) fun _ _ => D.pure fine

theorem command (agree : D.Agree Tok Blk machine machine') (tells : D.Tells) {line : Line} (runs : D.Runs Tok line)
    (stray : Call.parse? line = none →
      D.Halts (.fault ⟨.badStatement (String.ofList line), some (String.ofList line)⟩))
    {frame : FrameId} (here : D.At frame) :
    D.Rel context home
      (machine.command setup line frame context) (machine'.command setup line frame context) := by
  rw [Machine.command_eq,Machine.command_eq]
  exact D.commandBy agree.toCalls tells runs stray here

/-- A token is in every conduct that its command is in, if it is one. -/
theorem tokenBy (agree : D.Calls Tok machine machine' entry entry') {token : Token}
    (runs : D.Runs Tok (Text.trim token)) {frame : FrameId} (here : D.At frame) {dispatch : Line → ExecOf Code Value}
    {dispatch' : Line → ExecOf Code' Value}
    (command : (Call.parse? (Text.trim token)).isSome →
      D.Rel context home (dispatch (Text.trim token)) (dispatch' (Text.trim token))) :
    D.Rel context home
      (machine.tokenBy entry dispatch token frame context)
      (machine'.tokenBy entry' dispatch' token frame context) := by
  unfold Machine.tokenBy
  dsimp only
  split
  · exact D.pure (Carries.all_value.2 D.fine_null)
  cases read : Call.parse? (Text.trim token) with
  | none => exact D.evaluateIn here _
  | some call =>
    refine D.context (fun _ _ _ => rfl) fun run _ => ?_
    simp only [Context.recode,Table.contains_map]
    split
    · exact D.callBy agree call.name (D.tokens agree (runs.args read) here)
    · exact command (by rw [read]; rfl)

theorem evaluateToken (agree : D.Agree Tok Blk machine machine') (tells : D.Tells) {token : Token}
    (runs : D.Runs Tok (Text.trim token)) {frame : FrameId} (here : D.At frame) :
    D.Rel context home
      (machine.evaluateToken setup token frame context)
      (machine'.evaluateToken setup token frame context) := by
  rw [Machine.evaluateToken_eq,Machine.evaluateToken_eq]
  refine D.tokenBy agree.toCalls runs here fun call => D.command agree tells runs (fun none => ?_) here
  rw [none] at call
  cases call

end Commands

end Conduct

end Inyandiko
