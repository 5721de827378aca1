import Inyandiko.Proofs.Documents
import Inyandiko.Proofs.ScriptErrors
import Inyandiko.Service

/-! The answers of the service. A request whose run comes to an end is answered by a document of what the
run left; a request without a script, or whose run ends early, by an empty payload with an error. The
document is made after the run: where a value that the run hands out is nested too deeply, as one that
holds itself is, there is no answer at all. The numbers in the document are those of the run, also where
they are not finite or have too many digits to be written. -/
namespace Inyandiko

/-- A run that gives a record names the line of a failed validation, and only such a line. -/
private theorem Machine.conclude_failedLine {Code : Type} {hooks : Hooks} {root : FrameId} {context : ContextId}
    {outcome : Except Halt (Option Value)} {world : World Code} {record : Record}
    (ended : (Machine.conclude hooks root context outcome world).1 = .ok record) (line : String) :
    record.failedLine = some line ↔ outcome = .error (.invalid line) := by
  rcases outcome with halt | signal
  · cases halt with
    | invalid other =>
      cases ended
      simp
    | _ => exact absurd ended (Machine.abort_ne_ok hooks _ world record)
  · cases ended
    simp

private theorem Report.toJson_eq_object (report : Report) :
    ∃ details, report.toJson =
      .object (("code", .text report.category.code) :: ("message", .text report.message) :: details) :=
  ⟨_, rfl⟩

/-- The data of a payload. -/
def Payload.data (payload : Payload) : List Datum :=
  payload.vars.map (·.2) ++ payload.exports.map (·.2) ++ payload.results ++
    payload.surface.elim [] fun report => report.elements.map (·.2)

/-- The payload of a request that came to nothing: no data, and an error with a code and a message. -/
structure Payload.Explains (payload : Payload) : Prop where
  ok : payload.ok = false
  failedLine : payload.failedLine = none
  vars : payload.vars = []
  exports : payload.exports = []
  results : payload.results = []
  surface : payload.surface = none
  errors : ∃ code message details, payload.errors =
    some (.object (("code", .text code) :: ("message", .text message) :: details))

/-- The payload of a run that came to an end: no error, and the record and the surface as documents. -/
structure Payload.Reports (payload : Payload) (room : Nat) (record : Record) (shown : Option Surface)
    (heap : Heap) : Prop where
  errors : payload.errors = none
  ok : payload.ok = record.failedLine.isNone
  failedLine : payload.failedLine = record.failedLine
  vars : heap.handOutTable room record.vars = .ok payload.vars
  exports : heap.handOutTable room record.exports = .ok payload.exports
  results : record.results.mapM (heap.handOut room) = .ok payload.results
  surface : ∀ found, shown = some found → ∃ elements,
    heap.handOutTable (room + 2) found.elements = .ok elements ∧
      payload.surface = some ⟨elements, found.styles, found.alerts.toList⟩
  hidden : shown = none → payload.surface = none

namespace Service

/-- The values that a finished run hands out, with the room that there is for each of them: variables,
exports, results and the elements of its surface, which are not inside a record. -/
def handedOut (room : Nat) (record : Record) (surface : Option Surface) : List (Nat × Value) :=
  (record.vars.values ++ record.exports.values ++ record.results).map (room, ·) ++
    surface.elim [] fun shown => shown.elements.values.map (room + 2, ·)

private theorem mem_handedOut {room : Nat} {record : Record} {surface : Option Surface} {given : Nat × Value} :
    given ∈ handedOut room record surface ↔
      (∃ value, ((value ∈ record.vars.values ∨ value ∈ record.exports.values) ∨ value ∈ record.results) ∧
        (room, value) = given) ∨
      ∃ value ∈ surface.elim [] (·.elements.values), (room + 2, value) = given := by
  simp only [handedOut,List.mem_append,List.mem_map]
  cases surface with
  | none => simp only [Option.elim_none,List.not_mem_nil,false_and,exists_false]
  | some shown => simp only [Option.elim_some,List.mem_map]

section Reports

variable {payload : Payload} {room : Nat} {record : Record} {surface : Option Surface} {heap : Heap}

/-- The data of a report are the documents of what the run hands out, all of it and nothing else. -/
private theorem documents_of_reports (reports : payload.Reports room record surface heap) :
    (∀ given ∈ handedOut room record surface, ∃ datum ∈ payload.data, heap.handOut given.1 given.2 = .ok datum) ∧
      ∀ datum ∈ payload.data, ∃ given ∈ handedOut room record surface, heap.handOut given.1 given.2 = .ok datum := by
  have vars := Heap.ok_of_handOutTable reports.vars
  have exports := Heap.ok_of_handOutTable reports.exports
  have results := ok_of_mapM reports.results
  have shown : (∀ value ∈ surface.elim [] (·.elements.values),
        ∃ datum ∈ payload.surface.elim [] (·.elements.map (·.2)), heap.handOut (room + 2) value = .ok datum) ∧
      ∀ datum ∈ payload.surface.elim [] (·.elements.map (·.2)),
        ∃ value ∈ surface.elim [] (·.elements.values), heap.handOut (room + 2) value = .ok datum := by
    cases surface with
    | none =>
      rw [reports.hidden rfl]
      simp
    | some found =>
      obtain ⟨elements, done, same⟩ := reports.surface found rfl
      rw [same]
      exact Heap.ok_of_handOutTable done
  simp only [mem_handedOut,Payload.data,List.mem_append]
  constructor
  · rintro _ (⟨value, (member | member) | member, rfl⟩ | ⟨value, member, rfl⟩)
    · obtain ⟨datum, among, done⟩ := vars.1 value member
      exact ⟨datum, .inl (.inl (.inl among)), done⟩
    · obtain ⟨datum, among, done⟩ := exports.1 value member
      exact ⟨datum, .inl (.inl (.inr among)), done⟩
    · obtain ⟨datum, among, done⟩ := results.1 value member
      exact ⟨datum, .inl (.inr among), done⟩
    · obtain ⟨datum, among, done⟩ := shown.1 value member
      exact ⟨datum, .inr among, done⟩
  · rintro datum (((member | member) | member) | member)
    · obtain ⟨value, among, done⟩ := vars.2 datum member
      exact ⟨_, .inl ⟨value, .inl (.inl among), rfl⟩, done⟩
    · obtain ⟨value, among, done⟩ := exports.2 datum member
      exact ⟨_, .inl ⟨value, .inl (.inr among), rfl⟩, done⟩
    · obtain ⟨value, among, done⟩ := results.2 datum member
      exact ⟨_, .inl ⟨value, .inr among, rfl⟩, done⟩
    · obtain ⟨value, among, done⟩ := shown.2 datum member
      exact ⟨_, .inr ⟨value, among, rfl⟩, done⟩

/-- The data of a report have the shapes of documents, and their numbers are those handed out. -/
private theorem made_iff_of_reports (reports : payload.Reports room record surface heap) (allowed : Number → Prop) :
    (∀ datum ∈ payload.data, datum.Made allowed) ↔
      ∀ given ∈ handedOut room record surface, heap.NumbersIn allowed given.2 := by
  obtain ⟨forward, backward⟩ := documents_of_reports reports
  constructor
  · intro made given member
    obtain ⟨datum, among, done⟩ := forward given member
    exact (Heap.made_iff_of_handOut done).1 (made datum among)
  · intro numbers datum among
    obtain ⟨given, member, done⟩ := backward datum among
    exact (Heap.made_iff_of_handOut done).2 (numbers given member)

/-- A document of what a run hands out has all of it, so none of it is nested too deeply. -/
private theorem not_nested_of_reports (reports : payload.Reports room record surface heap) :
    ∀ given ∈ handedOut room record surface, ¬ heap.NestedBeyond given.1 given.2 := by
  intro given member nested
  obtain ⟨datum, _, done⟩ := (documents_of_reports reports).1 given member
  exact nested.handOut_ne_ok datum done

end Reports

/-- The payload of a finished run, from its record, its surface and the heap. -/
def summary (room : Nat) (record : Record) (surface : Option Surface) (heap : Heap) : Except Halt Payload := do
  let vars ← heap.handOutTable room record.vars
  let exports ← heap.handOutTable room record.exports
  let results ← record.results.mapM (heap.handOut room)
  match surface with
  | none => return { ok := record.ok, failedLine := record.failedLine, vars, exports, results }
  | some shown =>
    let elements ← heap.handOutTable (room + 2) shown.elements
    return {
      ok := record.ok, failedLine := record.failedLine, vars, exports, results
      surface := some ⟨elements, shown.styles, shown.alerts.toList⟩ }

private theorem askHeap_bind_run {α β : Type} (question : Heap → Except Halt α) (next : α → Exec β)
    (world : World) :
    (Exec.askHeap question >>= next) world =
      match question world.heap with
      | .ok value => next value world
      | .error halt => (.error halt, world) := by
  rw [Exec.bind_run,Exec.askHeap_run]
  cases question world.heap <;> rfl

private theorem success_run (room : Nat) (record : Record) (surface : Option Nat) (world : World) :
    success room record surface world =
      (summary room record (surface.bind (world.surfaces[·]?)) world.heap, world) := by
  rw [success,Exec.bind_run,Exec.get_run]
  simp only [summary,askHeap_bind_run]
  cases world.heap.handOutTable room record.vars with
  | error halt => rfl
  | ok vars =>
    cases world.heap.handOutTable room record.exports with
    | error halt => rfl
    | ok exports =>
      cases record.results.mapM (world.heap.handOut room) with
      | error halt => rfl
      | ok results =>
        cases surface.bind (world.surfaces[·]?) with
        | none => rfl
        | some shown =>
          simp only [askHeap_bind_run]
          cases world.heap.handOutTable (room + 2) shown.elements <;> rfl

private theorem reports_of_summary {room : Nat} {record : Record} {surface : Option Surface} {heap : Heap}
    {payload : Payload}
    (done : summary room record surface heap = .ok payload) : payload.Reports room record surface heap := by
  obtain ⟨vars, hasVars, done⟩ := ok_of_bind done
  obtain ⟨exports, hasExports, done⟩ := ok_of_bind done
  obtain ⟨results, hasResults, done⟩ := ok_of_bind done
  cases surface with
  | none =>
    cases done
    exact ⟨rfl, rfl, rfl, hasVars, hasExports, hasResults, nofun, fun _ => rfl⟩
  | some shown =>
    obtain ⟨elements, hasElements, done⟩ := ok_of_bind done
    cases done
    refine ⟨rfl, rfl, rfl, hasVars, hasExports, hasResults, ?_, nofun⟩
    rintro _ ⟨⟩
    exact ⟨elements, hasElements, rfl⟩

private theorem nested_of_summary {room : Nat} {record : Record} {surface : Option Surface} {heap : Heap}
    {halt : Halt} (failed : summary room record surface heap = .error halt) :
    halt = .tooDeep ∧ ∃ given ∈ handedOut room record surface, heap.NestedBeyond given.1 given.2 := by
  -- The first part that fails names the value.
  simp only [mem_handedOut]
  rcases error_of_bind failed with failed | ⟨vars, failed⟩
  · obtain ⟨deep, value, member, nested⟩ := (Heap.handOutTable_error_iff _ _).1 failed
    exact ⟨deep, _, .inl ⟨value, .inl (.inl member), rfl⟩, nested⟩
  rcases error_of_bind failed with failed | ⟨exports, failed⟩
  · obtain ⟨deep, value, member, nested⟩ := (Heap.handOutTable_error_iff _ _).1 failed
    exact ⟨deep, _, .inl ⟨value, .inl (.inr member), rfl⟩, nested⟩
  rcases error_of_bind failed with failed | ⟨results, failed⟩
  · obtain ⟨value, member, failed⟩ := error_of_mapM failed
    obtain ⟨deep, nested⟩ := Heap.error_of_handOut failed
    exact ⟨deep, _, .inl ⟨value, .inr member, rfl⟩, nested⟩
  cases surface with
  | none => cases failed
  | some shown =>
    rcases error_of_bind failed with failed | ⟨elements, failed⟩
    · obtain ⟨deep, value, member, nested⟩ := (Heap.handOutTable_error_iff _ _).1 failed
      exact ⟨deep, _, .inr ⟨value, member, rfl⟩, nested⟩
    · cases failed

private theorem success_error_iff (room : Nat) (record : Record) (surface : Option Nat) (world : World)
    (halt : Halt) :
    (success room record surface world).1 = .error halt ↔
      halt = .tooDeep ∧ ∃ given ∈ handedOut room record (surface.bind (world.surfaces[·]?)),
        world.heap.NestedBeyond given.1 given.2 := by
  rw [success_run]
  refine ⟨nested_of_summary, ?_⟩
  rintro ⟨rfl, given, member, nested⟩
  rcases found : summary room record (surface.bind (world.surfaces[·]?)) world.heap with other | payload
  · rw [(nested_of_summary found).1]
  · exact absurd nested (not_nested_of_reports (reports_of_summary found) given member)

private theorem explains_failure (errors : Json) (code message : String) (details : List (String × Json))
    (same : errors = .object (("code", .text code) :: ("message", .text message) :: details)) :
    (failure errors).Explains :=
  ⟨rfl, rfl, rfl, rfl, rfl, rfl, code, message, details, congrArg some same⟩

private theorem explain_run (halt : Halt) (world : World) :
    (∃ payload after, explain halt world = (.ok payload, after) ∧ payload.Explains) ∨
      explain halt world = (.error halt, world) ∧ ∀ fault crash, halt ≠ .fault fault ∧ halt ≠ .crash crash := by
  cases halt with
  | fault fault =>
    obtain ⟨details, same⟩ := fault.report.toJson_eq_object
    exact .inl ⟨_, _, rfl, explains_failure _ _ _ details same⟩
  | crash crash => exact .inl ⟨_, _, rfl, explains_failure _ _ _ _ rfl⟩
  | _ => exact .inr ⟨rfl, fun _ _ => ⟨nofun, nofun⟩⟩

private theorem explains_of_source {tree : FileTree} {root : Location} {request : RunRequest} {payload : Payload}
    (refused : source tree root request = .error payload) : payload.Explains := by
  simp only [source] at refused
  split at refused
  · cases refused
  · cases refused
    exact explains_failure _ _ _ _ rfl
  · cases refused
    exact explains_failure _ _ _ _ rfl
  · split at refused
    · cases refused
    · cases refused
      exact explains_failure _ _ _ _ rfl

/-- The surface that a request asks for, and the world with it. -/
def surfaced (request : RunRequest) (world : World) : Option Nat × World :=
  match request.elements with
  | some elements =>
    (some world.surfaces.size, { world with surfaces := world.surfaces.push { elements } })
  | none => (none, world)

/-- What the run of a request comes to. -/
def outcome (setup : Setup) (request : RunRequest) (text : String) (world : World) :
    Except Halt Record × World :=
  run setup request text (surfaced request world).1 (surfaced request world).2

theorem handle_run (setup : Setup) (tree : FileTree) (root : Location) (request : RunRequest) (world : World) :
    handle setup tree root request world =
      match source tree root request with
      | .error payload => (.ok payload, world)
      | .ok text =>
        match outcome setup request text world with
        | (.ok record, after) => success setup.handingOut record (surfaced request world).1 after
        | (.error halt, after) => explain halt after := by
  rw [handle]
  cases source tree root request with
  | error payload => rfl
  | ok text =>
    cases found : request.elements with
    | none =>
      have absent : (pure none : Exec (Option Nat)) world = (.ok none, world) := rfl
      simp only [outcome,surfaced,found,Exec.bind_run,Exec.attempt_run,absent]
      rcases run setup request text none world with ⟨_ | _, _⟩ <;> rfl
    | some elements =>
      have made : (some <$> Machine.newSurface elements : Exec (Option Nat)) world =
        (.ok (some world.surfaces.size), { world with surfaces := world.surfaces.push { elements } }) := rfl
      simp only [outcome,surfaced,found,Exec.bind_run,Exec.attempt_run,made]
      rcases run setup request text _ _ with ⟨_ | _, _⟩ <;> rfl

/-- The setup of a request's run, with the settings that the client is granted. -/
def granted (setup : Setup) (settings : CappedSettings) : Setup :=
  { setup with maxCallDepth := settings.maxCallDepth, timeout := .number (.float settings.timeout) }

/-- The options of a request's run. -/
def options (request : RunRequest) (surface : Option Nat) : RunOptions :=
  { vars := request.vars.getD .empty, stopOnInvalid := request.stopOnInvalid, surface }

/-- How the statements of a script end, in a run that has begun. -/
def statements (setup : Setup) (text : String) (options : RunOptions) (world : World) :
    Except Halt (Option Value) × World :=
  let lines := Source.lines text.toList
  let world := world.logged s!"run started: {lines.length} logical lines"
  (Machine.level setup Machine.outermost).block lines world.scopes.frames.size world.contexts.size
    (world.opened options)

theorem run_run (setup : Setup) (request : RunRequest) (text : String) (surface : Option Nat) (world : World) :
    run setup request text surface world =
      match CappedSettings.ofTable world.heap (request.settings.getD .empty) with
      | .error crash => (.error (.crash crash), world)
      | .ok settings =>
        let ended := statements (granted setup settings) text (options request surface) world
        Machine.conclude {} world.scopes.frames.size world.contexts.size ended.1 ended.2 := by
  rw [run]
  simp only [Exec.bind_run,Exec.get_run,Exec.liftExcept_run]
  cases CappedSettings.ofTable world.heap (request.settings.getD .empty) with
  | error crash => rfl
  | ok settings => exact execute_run _ _ _ _

private theorem error_of_run {setup : Setup} {request : RunRequest} {text : String} {surface : Option Nat}
    {world : World} {halt : Halt} (failed : (run setup request text surface world).1 = .error halt) :
    (∃ fault, halt = .fault fault) ∨ (∃ crash, halt = .crash crash) ∨ halt = .endless := by
  rw [run_run] at failed
  split at failed
  · cases failed
    exact .inr (.inl ⟨_, rfl⟩)
  · obtain ⟨ended, valid⟩ := Machine.conclude_error failed
    cases halt with
    | fault fault => exact .inl ⟨fault, rfl⟩
    | crash crash => exact .inr (.inl ⟨crash, rfl⟩)
    | invalid line => exact absurd rfl (valid line)
    | tooDeep => exact absurd ended (Machine.items_ne_tooDeep _ _ _)
    | endless => exact .inr (.inr rfl)

/-- A validation of the script failed in a statement, and the run was stopped there. -/
def StoppedAt (setup : Setup) (request : RunRequest) (text : String) (world : World) (line : String) : Prop :=
  let begun := surfaced request world
  ∃ settings, CappedSettings.ofTable begun.2.heap (request.settings.getD .empty) = .ok settings ∧
    (statements (granted setup settings) text (options request begun.1) begun.2).1 = .error (.invalid line)

private theorem stoppedAt_iff {setup : Setup} {request : RunRequest} {text : String} {world : World} {record : Record}
    (ended : (outcome setup request text world).1 = .ok record) (line : String) :
    record.failedLine = some line ↔ StoppedAt setup request text world line := by
  rw [outcome,run_run] at ended
  split at ended
  · cases ended
  · rename_i settings found
    rw [Machine.conclude_failedLine ended line]
    constructor
    · intro stopped
      exact ⟨settings, found, stopped⟩
    · rintro ⟨others, same, stopped⟩
      rw [found] at same
      cases same
      exact stopped

section Requests

variable (setup : Setup) (tree : FileTree) (root : Location) (request : RunRequest) (world : World)

/-- What a request is answered by: an error where there is no script or the run ended early, and a
report of the run otherwise. -/
inductive Answered (payload : Payload) : Prop
  | refused (given : source tree root request = .error payload) (explains : payload.Explains)
  | failed {text : String} {halt : Halt} {after : World} (given : source tree root request = .ok text)
    (ended : outcome setup request text world = (.error halt, after)) (explains : payload.Explains)
  | reported {text : String} {record : Record} {after : World} (given : source tree root request = .ok text)
    (ended : outcome setup request text world = (.ok record, after))
    (reports : payload.Reports setup.handingOut record
      ((surfaced request world).1.bind (after.surfaces[·]?)) after.heap)
    (shaped : ∀ datum ∈ payload.data, datum.Made fun _ => True)
    (writable : (∀ datum ∈ payload.data, datum.Made Number.IsWritable) ↔
      ∀ given ∈ handedOut setup.handingOut record ((surfaced request world).1.bind (after.surfaces[·]?)),
        after.heap.NumbersIn Number.IsWritable given.2)
    (stopped : ∀ line, payload.failedLine = some line ↔ StoppedAt setup request text world line)

/-- Why a request is not answered: its run makes no headway, or hands out a value that is nested too
deeply. -/
inductive Unanswered : Halt → Prop
  | endless {text : String} {after : World} (given : source tree root request = .ok text)
    (ended : outcome setup request text world = (.error .endless, after)) : Unanswered .endless
  | nested {text : String} {record : Record} {after : World} {room : Nat} {value : Value}
    (given : source tree root request = .ok text)
    (ended : outcome setup request text world = (.ok record, after))
    (member : (room, value) ∈ handedOut setup.handingOut record
      ((surfaced request world).1.bind (after.surfaces[·]?)))
    (nested : after.heap.NestedBeyond room value) : Unanswered .tooDeep

variable {setup tree root request world}

private theorem answered_of_handle {payload : Payload}
    (answer : (handle setup tree root request world).1 = .ok payload) :
    Answered setup tree root request world payload := by
  rw [handle_run] at answer
  cases given : source tree root request with
  | error other =>
    rw [given] at answer
    cases answer
    exact .refused given (explains_of_source given)
  | ok text =>
    rcases ended : outcome setup request text world with ⟨halt | record, after⟩
    · simp only [given,ended] at answer
      rcases explain_run halt after with ⟨other, _, run, explains⟩ | ⟨run, _⟩
      · rw [run] at answer
        cases answer
        exact .failed given ended explains
      · rw [run] at answer
        cases answer
    · simp only [given,ended,success_run] at answer
      have reports := reports_of_summary answer
      have shaped := (made_iff_of_reports reports fun _ => True).2 fun _ _ _ _ => trivial
      refine .reported given ended reports shaped (made_iff_of_reports reports _) fun line => ?_
      rw [reports.failedLine]
      exact stoppedAt_iff (congrArg Prod.fst ended) line

private theorem handle_error_iff (halt : Halt) :
    (handle setup tree root request world).1 = .error halt ↔ Unanswered setup tree root request world halt := by
  rw [handle_run]
  constructor
  · intro failed
    cases given : source tree root request with
    | error payload =>
      rw [given] at failed
      cases failed
    | ok text =>
      rcases ended : outcome setup request text world with ⟨other | record, after⟩
      · simp only [given,ended] at failed
        rcases error_of_run (congrArg Prod.fst ended) with ⟨fault, rfl⟩ | ⟨crash, rfl⟩ | rfl
        · cases failed
        · cases failed
        · cases failed
          exact .endless given ended
      · simp only [given,ended] at failed
        obtain ⟨rfl, ⟨room, value⟩, member, nested⟩ := (success_error_iff _ record _ after halt).1 failed
        exact .nested given ended member nested
  · rintro (⟨given, ended⟩ | ⟨given, ended, member, nested⟩)
    · simp only [given,ended]
      rfl
    · simp only [given,ended]
      exact (success_error_iff _ _ _ _ _).2 ⟨rfl, _, member, nested⟩

end Requests

end Service

/-- Every request is answered by an error or by a report of its run, unless the run makes no headway or
hands out a value that is nested too deeply. A value that holds itself is such a value. -/
theorem requests_are_answered_unless_nested (setup : Setup) (tree : FileTree) (root : Location)
    (request : RunRequest) (world : World) :
    (∀ payload, (Service.handle setup tree root request world).1 = .ok payload →
      Service.Answered setup tree root request world payload) ∧
    (∀ halt, (Service.handle setup tree root request world).1 = .error halt ↔
      Service.Unanswered setup tree root request world halt) ∧
    ∀ text record after room value, Service.source tree root request = .ok text →
      Service.outcome setup request text world = (.ok record, after) →
      (room, value) ∈ Service.handedOut setup.handingOut record
        ((Service.surfaced request world).1.bind (after.surfaces[·]?)) →
      Relation.TransGen after.heap.Holds value value →
      (Service.handle setup tree root request world).1 = .error .tooDeep := by
  refine ⟨fun payload => Service.answered_of_handle, Service.handle_error_iff, ?_⟩
  intro text record after room value given ended member circle
  exact (Service.handle_error_iff .tooDeep).2 (.nested given ended member (.of_circle circle room))

/-- A validation of an empty element stops the run, and the payload names the statement. -/
theorem requests_are_answered_unless_nested_stopped :
    let request : RunRequest :=
      { code := some "idafite_agaciro('#a')\nandika('b')", elements := some (.ofList [("#a", .text "")]) }
    ∃ payload, (Service.handle {} ⟨[]⟩ [] request {}).1 = .ok payload ∧
      payload.failedLine = some "idafite_agaciro('#a')" ∧ Service.Answered {} ⟨[]⟩ [] request {} payload := by
  intro request
  have stopped : (Service.handle {} ⟨[]⟩ [] request {}).1.toOption.bind Payload.failedLine =
      some "idafite_agaciro('#a')" := by
    decide +kernel
  rcases found : (Service.handle {} ⟨[]⟩ [] request {}).1 with halt | payload
  · rw [found] at stopped
    cases stopped
  · rw [found] at stopped
    exact ⟨payload, rfl, stopped, (requests_are_answered_unless_nested {} ⟨[]⟩ [] request {}).1 payload found⟩

/-- The script puts a list into itself. It runs to its end, and yet there is no payload. And a number that is
none is handed out as it is, although no document can hold it. -/
theorem self_holding_list_is_not_answered :
    let script := "let l = [1]\nkoresha(l, 'append', l)"
    (Service.outcome {} { code := some script } script {}).1.isOk = true ∧
      (∀ payload, (Service.handle {} ⟨[]⟩ [] { code := some script } {}).1 ≠ .ok payload) ∧
      ∃ payload, (Service.handle {} ⟨[]⟩ [] { code := some "let x = [NaN]" } {}).1 = .ok payload ∧
        ¬∀ datum ∈ payload.data, datum.Made Number.IsWritable := by
  intro script
  refine ⟨by decide +kernel, fun payload answered => ?_, ?_⟩
  · have stopped : (Service.handle {} ⟨[]⟩ [] { code := some script } {}).1.isOk = false := by
      decide +kernel
    rw [answered] at stopped
    cases stopped
  · have infinite : (Service.handle {} ⟨[]⟩ [] { code := some "let x = [NaN]" } {}).1.toOption.map
        (fun payload => (payload.data.flatMap Datum.items).all Datum.isFinite) = some false := by
      decide +kernel
    rcases found : (Service.handle {} ⟨[]⟩ [] { code := some "let x = [NaN]" } {}).1 with halt | payload
    · rw [found] at infinite
      cases infinite
    · rw [found] at infinite
      refine ⟨payload, rfl, fun made => ?_⟩
      have finite : (payload.data.flatMap Datum.items).all Datum.isFinite = true := by
        refine List.all_eq_true.2 fun item member => ?_
        obtain ⟨datum, among, inside⟩ := List.mem_flatMap.1 member
        exact ((made datum among).items item inside).isFinite
      exact Bool.noConfusion (finite.symm.trans (Option.some.inj infinite))

end Inyandiko
