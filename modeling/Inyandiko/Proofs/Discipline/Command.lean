import Inyandiko.Proofs.Discipline
import Inyandiko.Command.Validation

/-! The built-in families of commands are in every conduct. They never look at the context, so they
are related whatever the code of functions is, and they declare nothing. -/
namespace Inyandiko.Conduct

open Source

variable {Code Code' : Type} {recode : Code → Code'} {setup : Setup} (D : Conduct recode setup)
  {context : ContextId} {home : Option FrameId} {α β : Type} [Carries α] [Carries β]

theorem fine_null : D.Fine .null := D.flat nofun

private theorem fine_bool (value : Bool) : D.Fine (.bool value) := D.flat nofun

theorem fine_number (value : Number) : D.Fine (.number value) := D.flat nofun

theorem fail (cause : Cause) (other : cause ≠ .callDepth) :
    D.Rel context home (α := α) (Exec.fail cause) (Exec.fail cause) :=
  D.throw (D.fault other)

theorem liftExcept {outcome : Except Halt α} (fine : ∀ value, outcome = .ok value → Carries.All D.Fine value)
    (halts : ∀ halt, outcome = .error halt → D.Halts halt) :
    D.Rel context home (liftExcept outcome) (liftExcept outcome) := by
  cases outcome with
  | ok value => exact D.pure (fine value rfl)
  | error halt => exact D.throw (halts halt rfl)

theorem map {f : α → β} (keeps : ∀ value, Carries.All D.Fine value → Carries.All D.Fine (f value))
    {first : ExecOf Code α} {first' : ExecOf Code' α} (head : D.Rel context home first first') :
    D.Rel context home (f <$> first) (f <$> first') := by
  simp only [map_eq_pure_bind]
  exact D.bind head fun value fine => D.pure (keeps value fine)

theorem mapM {γ : Type} {step : γ → ExecOf Code β} {step' : γ → ExecOf Code' β} {items : List γ}
    (each : ∀ item ∈ items, D.Rel context home (step item) (step' item)) :
    D.Rel context home (items.mapM step) (items.mapM step') := by
  induction items with
  | nil => exact D.pure (by simp)
  | cons item items ih =>
    simp only [List.mapM_cons]
    refine D.bind (each item List.mem_cons_self) fun value fine => ?_
    refine D.bind (ih fun other member => each other (List.mem_cons_of_mem _ member)) fun values fines => ?_
    refine D.pure ?_
    rw [Carries.all_list] at fines ⊢
    exact List.forall_mem_cons.2 ⟨fine, fines⟩

theorem evaluateIn {frame : FrameId} (here : D.At frame) (token : Token) :
    D.Rel context home (Exec.evaluateIn frame token) (Exec.evaluateIn frame token) :=
  D.scopes fun _ visible => D.evaluate (fun _ _ => visible.resolve? here) token

private theorem evaluateArgs (call : Call) {frame : FrameId} (here : D.At frame) (count : Option Nat) :
    D.Rel context home (call.evaluateArgs frame count) (call.evaluateArgs frame count) := by
  have args : D.Rel context home
      (call.args.mapM (Exec.evaluateIn frame)) (call.args.mapM (Exec.evaluateIn frame)) :=
    D.mapM fun token _ => D.evaluateIn here token
  cases count with
  | none => exact args
  | some count =>
    by_cases same : call.args.length ≠ count
    · simp only [Call.evaluateArgs,if_pos same]
      exact D.bind (α := Unit) (D.fail _ nofun) fun _ _ => args
    · simp only [Call.evaluateArgs,if_neg same]
      exact args

private theorem fine_headD {values : List Value} (fine : Carries.All D.Fine values) : D.Fine (values.headD .null) := by
  cases values with
  | nil => exact D.fine_null
  | cons value values => exact Carries.all_value.1 (Carries.all_list.1 fine value List.mem_cons_self)

private theorem evaluateOne (call : Call) {frame : FrameId} (here : D.At frame) :
    D.Rel context home (call.evaluateOne frame) (call.evaluateOne frame) :=
  D.bind (D.evaluateArgs call here (some 1)) fun _ fine => D.pure (Carries.all_value.2 (D.fine_headD fine))

private theorem evaluateTwo (call : Call) {frame : FrameId} (here : D.At frame) :
    D.Rel context home (call.evaluateTwo frame) (call.evaluateTwo frame) := by
  refine D.bind (D.evaluateArgs call here (some 2)) fun values fine => D.pure ?_
  have rest : Carries.All D.Fine (values.drop 1) :=
    Carries.all_list.2 fun value member => Carries.all_list.1 fine value (List.mem_of_mem_drop member)
  exact Carries.all_pair.2 ⟨Carries.all_value.2 (D.fine_headD fine), Carries.all_value.2 (D.fine_headD rest)⟩

private theorem oneText (call : Call) {frame : FrameId} (here : D.At frame) {next : String → ExecOf Code α}
    {next' : String → ExecOf Code' α} (tail : ∀ text, D.Rel context home (next text) (next' text)) :
    D.Rel context home
      (do next (← Exec.hostText (← call.evaluateOne frame)))
      (do next' (← Exec.hostText (← call.evaluateOne frame))) :=
  D.bind (D.evaluateOne call here) fun _ _ => D.bind (D.hostText _) fun text _ => tail text

private theorem halts_read {surface : Surface} {selector : String} {halt : Halt}
    (failed : surface.read selector = .error halt) : D.Halts halt := by
  unfold Surface.read at failed
  split at failed
  · cases failed
  · cases failed
    exact D.fault nofun

private theorem halts_read_then {γ : Type} {surface : Surface} {selector : String} {next : Value → Except Halt γ}
    {halt : Halt}
    (failed : (surface.read selector >>= next) = .error halt)
    (halts : ∀ value, next value = .error halt → D.Halts halt) : D.Halts halt := by
  cases found : surface.read selector with
  | error other =>
    rw [found] at failed
    cases failed
    exact D.halts_read found
  | ok value =>
    rw [found] at failed
    exact halts value failed

private theorem fine_read {surface : Surface} (fine : Carries.All D.Fine surface) {selector : String} (value : Value)
    (found : surface.read selector = .ok value) : Carries.All D.Fine value := by
  unfold Surface.read at found
  split at found
  · rename_i held
    cases found
    exact Carries.all_value.2 (fine _ (Table.mem_values_of_get? held))
  · cases found

section Environment

private theorem print (call : Call) {frame : FrameId} (here : D.At frame) :
    D.Rel context home (Environment.print call frame) (Environment.print call frame) :=
  D.bind (D.evaluateArgs call here none) fun _ _ =>
    D.bind (D.mapM fun value _ => D.displayText value) fun _ _ => D.write _

private theorem alert (call : Call) {surface : Option Nat} (facing : ∀ id, surface = some id → D.On id)
    {frame : FrameId} (here : D.At frame) :
    D.Rel context home
      (Environment.alert call surface frame) (Environment.alert call surface frame) := by
  refine D.bind (D.evaluateOne call here) fun value _ => D.bind (D.displayText value) fun message _ => ?_
  cases surface with
  | none => exact D.log _ _ _
  | some id =>
    refine D.onSurface (facing id rfl) (fun before after changed => ?_) nofun
    obtain rfl := Except.ok.inj changed
    exact .alert before message

private theorem functionName (token : Token) {frame : FrameId} (here : D.At frame) :
    D.Rel context home
      (Environment.functionName token frame) (Environment.functionName token frame) := by
  refine D.scopes fun scopes _ => ?_
  split
  · exact D.pure Carries.all_string
  · exact D.bind (D.evaluateIn here _) fun value _ => D.hostText value

private theorem bindListener (call : Call) {surface : Nat} (facing : D.On surface) {frame : FrameId}
    (here : D.At frame) (listener : String → Listener) :
    D.Rel context home (Environment.bind call surface frame (some listener))
      (Environment.bind call surface frame (some listener)) := by
  unfold Environment.bind
  rcases call.args with _ | ⟨selector, _ | ⟨event, _ | ⟨handler, _ | _⟩⟩⟩
  case cons.cons.cons.nil =>
    refine D.bind (D.evaluateIn here selector) fun value _ => D.bind (D.hostText value) fun selector _ => ?_
    refine D.bind (D.evaluateIn here event) fun value _ => D.bind (D.hostText value) fun event _ => ?_
    refine D.bind (D.functionName handler here) fun handler _ => ?_
    refine D.bind (D.onSurface facing (fun _ _ bound => .listen bound) fun _ _ failed => ?_) fun _ _ =>
      D.log _ _ _
    exact D.halts_read_then failed nofun
  all_goals exact D.fail _ nofun

private theorem onElements (call : Call) {surface : Nat} (facing : D.On surface) {frame : FrameId}
    (here : D.At frame) (listener : String → Listener) :
    D.Rel context home (Environment.onSurface call surface frame (some listener))
      (Environment.onSurface call surface frame (some listener)) := by
  unfold Environment.onSurface
  have null : Carries.All D.Fine Value.null := Carries.all_value.2 D.fine_null
  generalize call.name = name
  split
  case h_1 | h_2 =>
    refine D.bind (D.evaluateTwo call here) fun _ _ => D.bind (D.hostText _) fun _ _ =>
      D.bind (D.displayText _) fun _ _ => D.bind ?_ fun _ _ => D.pure null
    exact D.onSurface facing (fun _ _ written => .write written) fun _ _ failed =>
      D.halts_read_then failed nofun
  · refine D.bind (D.evaluateTwo call here) fun _ _ => D.bind (D.hostText _) fun _ _ =>
      D.bind (D.hostText _) fun _ _ => D.bind ?_ fun _ _ => D.pure null
    exact D.onSurface facing (fun _ _ styled => .style styled) fun _ _ failed =>
      D.halts_read_then failed nofun
  · exact D.oneText call here fun _ => D.bind (D.surface facing) fun _ fine =>
      D.liftExcept (D.fine_read fine) fun _ failed => D.halts_read failed
  · exact D.bind (D.bindListener call facing here listener) fun _ _ => D.pure null

theorem environment (line : Line) {surface : Option Nat} (facing : ∀ id, surface = some id → D.On id)
    {frame : FrameId} (here : D.At frame) (listener : String → Listener) :
    D.Rel context home (Environment.handle line surface frame (some listener))
      (Environment.handle line surface frame (some listener)) := by
  unfold Environment.handle
  have null : Carries.All D.Fine Value.null := Carries.all_value.2 D.fine_null
  cases Call.parseNamed? line Environment.names with
  | none => exact D.pure Carries.all_none
  | some call =>
    refine D.map (fun _ fine => Carries.all_some.2 fine) ?_
    unfold Environment.perform
    generalize call.name = name
    split
    · exact D.bind (D.print call here) fun _ _ => D.pure null
    · exact D.bind (D.alert call facing here) fun _ _ => D.pure null
    · cases surface with
      | none => exact D.fail _ nofun
      | some surface => exact D.onElements call (facing surface rfl) here listener

end Environment

section Validation

private theorem halts_textOf_then {γ : Type} {surface : Surface} {selector : String}
    {next : Text.Chars → Except Halt γ} {halt : Halt} (failed : (Validation.textOf surface selector >>= next) = .error halt)
    (halts : ∀ text, next text = .error halt → D.Halts halt) : D.Halts halt := by
  unfold Validation.textOf at failed
  rw [bind_assoc] at failed
  refine D.halts_read_then failed fun value failed => ?_
  cases value with
  | text s => exact halts _ failed
  | _ =>
    cases failed
    exact D.fault nofun

private theorem halts_differ {surface : Surface} {first second : String} {halt : Halt}
    (failed : Validation.differ surface first second = .error halt) : D.Halts halt :=
  D.halts_textOf_then failed fun _ failed => D.halts_textOf_then failed nofun

theorem validation (line : Line) {surface : Option Nat} (facing : ∀ id, surface = some id → D.On id)
    {frame : FrameId} (here : D.At frame) :
    D.Rel context home
      (Validation.handle line surface frame) (Validation.handle line surface frame) := by
  unfold Validation.handle
  cases Call.parseNamed? line Validation.names with
  | none => exact D.pure Carries.all_none
  | some call =>
    refine D.bind (α := Bool) ?_ fun _ _ => D.pure (Carries.all_some.2 (Carries.all_value.2 (D.fine_bool _)))
    unfold Validation.perform
    cases surface with
    | none => exact D.fail _ nofun
    | some surface =>
      dsimp only
      generalize call.name = name
      split
      · exact D.oneText call here fun _ => D.bind (D.surface (facing surface rfl)) fun _ _ =>
          D.liftExcept (fun _ _ => Carries.all_bool) fun _ failed => D.halts_textOf_then failed nofun
      · exact D.oneText call here fun _ => D.bind (D.surface (facing surface rfl)) fun _ _ =>
          D.liftExcept (fun _ _ => Carries.all_bool) fun _ failed => D.halts_textOf_then failed nofun
      · exact D.bind (D.evaluateTwo call here) fun _ _ => D.bind (D.hostText _) fun _ _ =>
          D.bind (D.hostText _) fun _ _ => D.bind (D.surface (facing surface rfl)) fun _ _ =>
            D.liftExcept (fun _ _ => Carries.all_bool) fun _ failed => D.halts_differ failed

end Validation

section Network

variable (online : D.Online)

include online

private theorem answer (url : String) : D.Rel context home (Network.answer setup url) (Network.answer setup url) := by
  unfold Network.answer
  cases setup.replies.get? url with
  | some reply => exact D.pure Carries.all_response
  | none => exact D.throw (D.unreachable online)

private theorem fetch (url : String) (timeout : Binary64) :
    D.Rel context home (Network.fetch setup url timeout) (Network.fetch setup url timeout) :=
  D.bind (D.request online _) fun _ _ => D.answer online url

private theorem send (url : String) (payload : Value) (timeout : Binary64) :
    D.Rel context home
      (Network.send setup url payload timeout) (Network.send setup url payload timeout) := by
  refine D.heap fun heap heap' alike => ?_
  rw [(D.answers alike).contents]
  exact D.bind (D.request online _) fun _ _ => D.answer online url

private theorem captureForm (call : Call) {surface : Option Nat} (facing : ∀ id, surface = some id → D.On id)
    {frame : FrameId} (here : D.At frame) :
    D.Rel context home
      (Network.captureForm call surface frame) (Network.captureForm call surface frame) := by
  refine D.bind (D.evaluateOne call here) fun selector _ => ?_
  cases surface with
  | none => exact D.fail _ nofun
  | some surface =>
    refine D.bind (D.hostText selector) fun name _ => D.bind (D.surface (facing surface rfl)) fun elements fine => ?_
    refine D.bind (D.liftExcept (D.fine_read fine) fun _ failed => D.halts_read failed) fun form held => ?_
    refine D.heap fun heap heap' alike => ?_
    rw [(D.answers alike).entries]
    cases found : heap.entries? form with
    | some entries => exact D.allocate online (D.closed alike (Carries.all_value.1 held) found)
    | none => exact D.fail _ nofun

private theorem valueOf (asDocument : Bool) (response : Response) :
    D.Rel context home (Network.valueOf asDocument response) (Network.valueOf asDocument response) := by
  cases asDocument with
  | true => exact D.document online response
  | false => exact D.allocate online nofun

private theorem halts_timeout {heap : Heap} {halt : Halt}
    (failed : (heap.toFloat setup.timeout).mapError Halt.crash = .error halt) : D.Halts halt := by
  cases known : heap.toFloat setup.timeout with
  | ok timeout => rw [known] at failed; cases failed
  | error crash =>
    rw [known] at failed
    cases failed
    exact D.timeout online known

private theorem networkCommand (call : Call) {surface : Option Nat} (facing : ∀ id, surface = some id → D.On id)
    {frame : FrameId} (here : D.At frame) :
    D.Rel context home
      (Network.perform setup call surface frame) (Network.perform setup call surface frame) := by
  refine D.heap fun heap heap' alike => ?_
  rw [(D.answers alike).toFloat]
  refine D.bind (D.liftExcept (fun _ _ => Carries.all_binary64)
    fun _ failed => D.halts_timeout online failed) fun timeout _ => ?_
  generalize call.name = name
  split
  · exact D.captureForm online call facing here
  · exact D.oneText call here fun url => D.bind (D.fetch online url timeout) fun _ _ => D.valueOf online _ _
  · exact D.oneText call here fun url => D.bind (D.fetch online url timeout) fun _ _ => D.valueOf online _ _
  · exact D.bind (D.evaluateTwo call here) fun _ _ => D.bind (D.hostText _) fun url _ =>
      D.bind (D.send online url _ timeout) fun _ _ => D.valueOf online _ _

end Network

/-- A line that is no command of the network is left alone. -/
theorem network {line : Line} (online : (Call.parseNamed? line Network.names).isSome → D.Online)
    {surface : Option Nat} (facing : ∀ id, surface = some id → D.On id) {frame : FrameId} (here : D.At frame) :
    D.Rel context home
      (Network.handle setup line surface frame) (Network.handle setup line surface frame) := by
  unfold Network.handle
  cases named : Call.parseNamed? line Network.names with
  | none => exact D.pure Carries.all_none
  | some call =>
    rw [named] at online
    exact D.map (fun _ fine => Carries.all_some.2 fine) (D.networkCommand (online rfl) call facing here)

end Inyandiko.Conduct
