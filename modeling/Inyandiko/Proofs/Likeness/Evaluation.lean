import Inyandiko.Proofs.Likeness

/-! Evaluation on heaps that are alike. A likeness says which pairs of heaps count as alike, which halts
may occur and which values computations have to do with; expressions, members and calls then give the
same value or the same halt on both heaps and leave heaps that are alike. -/
namespace Inyandiko

open Text

/-- Outcomes with the same value or the same halt, and heaps that are alike. -/
inductive HeapM.Same (Alike : Heap → Heap → Prop) (Halts : Halt → Prop) {α : Type} :
    Except Halt (α × Heap) → Except Halt (α × Heap) → Prop
  | ok (value : α) {heap heap' : Heap} (alike : Alike heap heap') :
      Same Alike Halts (.ok (value, heap)) (.ok (value, heap'))
  | error {halt : Halt} (allowed : Halts halt) : Same Alike Halts (.error halt) (.error halt)

/-- Computations that do the same on heaps that are alike. -/
def HeapM.Coupled (Alike : Heap → Heap → Prop) (Halts : Halt → Prop) {α : Type} (one two : HeapM α) :
    Prop :=
  ∀ heap heap', Alike heap heap' → HeapM.Same Alike Halts (one heap) (two heap')

/-- Computations that do the same on two heaps, and give values of some kind. -/
abbrev HeapM.YieldsAt (Alike : Heap → Heap → Prop) (Halts : Halt → Prop) (Fine : Value → Prop) {α : Type}
    [Carries α] (heap heap' : Heap) (one two : HeapM α) : Prop :=
  HeapM.Same Alike Halts (one heap) (two heap') ∧
    ∀ value after, one heap = .ok (value, after) → Carries.All Fine value

/-- Computations that do the same on heaps that are alike, and give values of some kind. -/
def HeapM.Yields (Alike : Heap → Heap → Prop) (Halts : Halt → Prop) (Fine : Value → Prop) {α : Type} [Carries α]
    (one two : HeapM α) : Prop :=
  ∀ heap heap', Alike heap heap' → HeapM.YieldsAt Alike Halts Fine heap heap' one two

/-- Whether a script can run into a crash on its own, by numbers, positions and kinds of values. -/
def Crash.isSlip (crash : Crash) : Bool :=
  match crash.kind with
  | .value | .overflow | .index | .type => true
  | _ => false

/-- Whether an object is one that expressions make: a list, a table or a member of its own to be called. -/
def Object.isPlain : Object → Bool
  | .list _ | .dict _ => true
  | .method _ (.lent _) => false
  | .method .. => true
  | _ => false

private theorem Heap.isPlain_method {heap : Heap} {value : Value} {name : String} {method : Method}
    (found : heap.method? value name = some method) : (Object.method value method).isPlain := by
  unfold Heap.method? at found
  repeat' split at found
  all_goals cases found
  all_goals rfl

/-- What of the host is called where an object is. -/
def Object.callee? : Object → Option Callee
  | .function name owner _ => some (.function name owner)
  | .method receiver (.lent name) => some (.member name receiver)
  | _ => none

theorem Object.all_callee {P : Value → Prop} {object : Object} {callee : Callee}
    (found : object.callee? = some callee) (all : Carries.All P object) : Carries.All P callee := by
  unfold callee? at found
  split at found
  · cases found
    exact fun value member => all value (List.mem_append_left _ member)
  · cases found
    exact all
  · cases found

/-- A way in which heaps are alike for scripts, and the halts that scripts then run into. -/
structure Likeness (host : Host) where
  Alike : Heap → Heap → Prop
  Halts : Halt → Prop
  /-- The values that computations have to do with. -/
  Fine : Value → Prop
  flat {value : Value} (plain : ∀ place, value ≠ .ref place) : Fine value
  inside {heap heap' : Heap} (alike : Alike heap heap') {value : Value} (fine : Fine value) {object : Object}
    (found : heap.object? value = some object) : Carries.All Fine object
  fresh {heap heap' : Heap} (alike : Alike heap heap') : Fine (.ref heap.objects.size)
  publicly {heap heap' : Heap} (alike : Alike heap heap') : heap.Alike heap'
  alloc {heap heap' : Heap} (alike : Alike heap heap') {object : Object} (plain : object.isPlain)
    (fine : Carries.All Fine object) : Alike (heap.alloc object).2 (heap'.alloc object).2
  /-- A member that the host lends is made ready. -/
  lend {heap heap' : Heap} (alike : Alike heap heap') {value : Value} (fine : Fine value) {name : String}
    (lent : heap.runtime.lends value (heap.object? value) name = some .member) :
    Alike (heap.alloc (.method value (.lent name))).2 (heap'.alloc (.method value (.lent name))).2
  set {heap heap' : Heap} (alike : Alike heap heap') {place : Nat} (held : Fine (.ref place)) {items : List Value}
    (fine : ∀ item ∈ items, Fine item) :
    Alike (heap.set place (.list items)) (heap'.set place (.list items))
  fault {cause : Cause} (other : cause ≠ .callDepth) : Halts (.ofCause cause)
  tooDeep : Halts .tooDeep
  slip {crash : Crash} (slips : crash.isSlip) : Halts (.crash crash)
  /-- Only where there are answers of the network they may be no documents. -/
  answer {heap heap' : Heap} (alike : Alike heap heap') {value : Value} {response : Response}
    (found : heap.object? value = some (.response response)) (text : Chars) (problem : Json.Problem) :
    Halts (Crash.ofProblem text problem)
  /-- Only where there are functions of the host or members that it lends they are called. -/
  call {heap heap' : Heap} (alike : Alike heap heap') {target : Value} (fine : Fine target) {callee : Callee}
    (found : (heap.object? target).bind Object.callee? = some callee) {args : List Value}
    (given : ∀ arg ∈ args, Fine arg) :
    HeapM.Yields Alike Halts Fine (host.call callee args) (host.call callee args)

namespace Likeness

/-- The likeness of heaps that are the same, where the functions of the host run into some halts only. -/
def ofEq (host : Host) (Halts : Halt → Prop) (fault : ∀ {cause : Cause}, cause ≠ .callDepth → Halts (.ofCause cause))
    (tooDeep : Halts .tooDeep) (crash : ∀ crash, Halts (.crash crash))
    (call : ∀ callee args heap halt, host.call callee args heap = .error halt → Halts halt) :
    Likeness host where
  Alike heap heap' := heap = heap'
  Halts
  Fine _ := True
  flat _ := trivial
  inside _ _ _ _ _ _ _ := trivial
  fresh _ := trivial
  publicly alike := alike ▸ .refl _
  alloc alike _ _ _ := alike ▸ rfl
  lend alike _ _ _ _ := alike ▸ rfl
  set alike _ _ _ _ := alike ▸ rfl
  fault
  tooDeep
  slip _ := crash _
  answer _ _ _ _ _ problem := by
    cases problem with
    | tooDeep => exact tooDeep
    | _ => exact crash _
  call := by
    rintro heap _ rfl target - callee - args - heap _ rfl
    refine ⟨?_, fun _ _ _ _ _ => trivial⟩
    cases ended : host.call callee args heap with
    | ok result => exact .ok result.1 rfl
    | error halt => exact .error (call callee args heap halt ended)

variable {host : Host} (L : Likeness host) {α β : Type}

/-- Computations that do the same. -/
abbrev Rel [Carries α] (one two : HeapM α) : Prop := HeapM.Yields L.Alike L.Halts L.Fine one two

/-- Computations that do the same on two heaps. -/
abbrev RelAt [Carries α] (heap heap' : Heap) (one two : HeapM α) : Prop :=
  HeapM.YieldsAt L.Alike L.Halts L.Fine heap heap' one two

section Rules

variable [Carries α] [Carries β]

theorem pure {value : α} (fine : Carries.All L.Fine value) : L.Rel (Pure.pure value) (Pure.pure value) :=
  fun _ _ alike => ⟨.ok value alike, fun _ _ same => by cases same; exact fine⟩

theorem datum {value : Value} (plain : ∀ place, value ≠ .ref place) : L.Rel (Pure.pure value) (Pure.pure value) :=
  L.pure (Carries.all_value.2 (L.flat plain))

private theorem nothing : L.Rel (Pure.pure (none : Option α)) (Pure.pure none) := L.pure Carries.all_none

theorem throw {halt : Halt} (allowed : L.Halts halt) :
    L.Rel (throw halt : HeapM α) (throw halt : HeapM α) :=
  fun _ _ _ => ⟨.error allowed, nofun⟩

private theorem fail (cause : Cause) (other : cause ≠ .callDepth) :
    L.Rel (MonadExcept.throw (Halt.ofCause cause) : HeapM α) (MonadExcept.throw (Halt.ofCause cause)) :=
  L.throw (L.fault other)

private theorem bindAt {heap heap' : Heap} {first first' : HeapM α} {next next' : α → HeapM β}
    (head : L.RelAt heap heap' first first')
    (tail : ∀ value, Carries.All L.Fine value → L.Rel (next value) (next' value)) :
    L.RelAt heap heap' (first >>= next) (first' >>= next') := by
  obtain ⟨begun, given⟩ := head
  simp only [RelAt,HeapM.YieldsAt,Bind.bind,StateT.bind]
  revert begun given
  generalize first heap = one
  generalize first' heap' = two
  rintro (⟨value, alike⟩ | allowed) given
  · exact tail value (given value _ rfl) _ _ alike
  · exact ⟨.error allowed, nofun⟩

theorem bind {first first' : HeapM α} {next next' : α → HeapM β} (head : L.Rel first first')
    (tail : ∀ value, Carries.All L.Fine value → L.Rel (next value) (next' value)) :
    L.Rel (first >>= next) (first' >>= next') :=
  fun heap heap' alike => L.bindAt (head heap heap' alike) tail

private theorem askAt {heap heap' : Heap} {next next' : Heap → HeapM α}
    (tail : L.RelAt heap heap' (next heap) (next' heap')) : L.RelAt heap heap' (get >>= next) (get >>= next') :=
  tail

theorem ask {next next' : Heap → HeapM α}
    (tail : ∀ heap heap', L.Alike heap heap' → L.Rel (next heap) (next' heap')) :
    L.Rel (get >>= next) (get >>= next') :=
  fun heap heap' alike => tail heap heap' alike heap heap' alike

theorem lift {outcome : Except Halt α} (halts : ∀ halt, outcome = .error halt → L.Halts halt)
    (fine : ∀ value, outcome = .ok value → Carries.All L.Fine value) : L.Rel (liftM outcome) (liftM outcome) := by
  cases outcome with
  | ok value => exact L.pure (fine value rfl)
  | error halt => exact L.throw (halts halt rfl)

/-- An object is made at the same place in both heaps. -/
theorem allocateAt {heap heap' : Heap} (alike : L.Alike heap heap') {object : Object}
    (made : L.Alike (heap.alloc object).2 (heap'.alloc object).2) :
    L.RelAt heap heap' (allocate object) (allocate object) := by
  have place : (heap'.alloc object).1 = (heap.alloc object).1 := by
    simp only [Heap.alloc,(L.publicly alike).size]
  change HeapM.Same _ _ (.ok ((heap.alloc object).1, _)) (.ok ((heap'.alloc object).1, _)) ∧ _
  rw [place]
  refine ⟨.ok _ made, fun value after same => ?_⟩
  cases same
  exact Carries.all_value.2 (L.fresh alike)

theorem allocate {object : Object} (plain : object.isPlain) (fine : Carries.All L.Fine object) :
    L.Rel (allocate object) (allocate object) :=
  fun _ _ alike => L.allocateAt alike (L.alloc alike plain fine)

end Rules

section Documents

mutual

private theorem ofJson {heap heap' : Heap} (alike : L.Alike heap heap') (json : Json) :
    (heap'.ofJson json).1 = (heap.ofJson json).1 ∧ L.Fine (heap.ofJson json).1 ∧
      L.Alike (heap.ofJson json).2 (heap'.ofJson json).2 := by
  cases json with
  | array items =>
    obtain ⟨same, fine, alike⟩ := ofItems alike items
    simp only [Heap.ofJson,same]
    exact ⟨by simp only [Heap.alloc,(L.publicly alike).size], L.fresh alike, L.alloc alike rfl fine⟩
  | object members =>
    obtain ⟨same, fine, alike⟩ := ofMembers alike members
    simp only [Heap.ofJson,same]
    exact ⟨by simp only [Heap.alloc,(L.publicly alike).size], L.fresh alike,
      L.alloc alike rfl fun value member => fine value (Table.mem_values_ofList member)⟩
  | _ =>
    simp only [Heap.ofJson,true_and]
    exact ⟨L.flat nofun, alike⟩

private theorem ofItems {heap heap' : Heap} (alike : L.Alike heap heap') (items : List Json) :
    (heap'.ofItems items).1 = (heap.ofItems items).1 ∧ (∀ value ∈ (heap.ofItems items).1, L.Fine value) ∧
      L.Alike (heap.ofItems items).2 (heap'.ofItems items).2 := by
  cases items with
  | nil =>
    simp only [Heap.ofItems,true_and]
    exact ⟨List.forall_mem_nil _, alike⟩
  | cons item items =>
    obtain ⟨same, fine, alike⟩ := ofJson alike item
    obtain ⟨others, fines, alike⟩ := ofItems alike items
    simp only [Heap.ofItems,same,others,true_and]
    exact ⟨List.forall_mem_cons.2 ⟨fine, fines⟩, alike⟩

private theorem ofMembers {heap heap' : Heap} (alike : L.Alike heap heap') (members : List (String × Json)) :
    (heap'.ofMembers members).1 = (heap.ofMembers members).1 ∧
      (∀ value ∈ (heap.ofMembers members).1.map Prod.snd, L.Fine value) ∧
      L.Alike (heap.ofMembers members).2 (heap'.ofMembers members).2 := by
  cases members with
  | nil =>
    simp only [Heap.ofMembers,true_and]
    exact ⟨List.forall_mem_nil _, alike⟩
  | cons member members =>
    obtain ⟨same, fine, alike⟩ := ofJson alike member.2
    obtain ⟨others, fines, alike⟩ := ofMembers alike members
    simp only [Heap.ofMembers,same,others,true_and]
    exact ⟨List.forall_mem_cons.2 ⟨fine, fines⟩, alike⟩

end

private theorem make [Carries α] {heap heap' : Heap} (alike : L.Alike heap heap') (json : Json) {f : Value → α}
    (fine : ∀ value, L.Fine value → Carries.All L.Fine (f value)) :
    L.Rel
      (do
        let (value, heap) := heap.ofJson json
        MonadStateOf.set heap
        return f value)
      (do
        let (value, heap) := heap'.ofJson json
        MonadStateOf.set heap
        return f value) := by
  intro _ _ _
  obtain ⟨same, made, alike⟩ := L.ofJson alike json
  change HeapM.Same _ _ (.ok (f (heap.ofJson json).1, _)) (.ok (f (heap'.ofJson json).1, _)) ∧ _
  rw [same]
  refine ⟨.ok _ alike, fun value after given => ?_⟩
  cases given
  exact fine _ made

end Documents

private theorem document {response : Response}
    (problems : ∀ problem, L.Halts (Crash.ofProblem response.text.toList problem)) :
    L.Rel response.document response.document := by
  refine L.ask fun heap heap' alike => ?_
  rw [(L.publicly alike).runtime]
  dsimp only
  split
  · exact L.make alike _ fun _ made => Carries.all_value.2 made
  · exact L.throw (problems _)

section Literals

private theorem halts_readInt {text : String} {crash : Crash} (failed : Numeral.readInt text = .error crash) :
    crash.isSlip := by
  simp only [Numeral.readInt] at failed
  split at failed
  · cases failed
    rfl
  · split at failed
    · cases failed
      rfl
    · split at failed
      · cases failed
        rfl
      · cases failed

theorem halts_readFloat {text : String} {crash : Crash} (failed : Numeral.readFloat text = .error crash) :
    crash.isSlip := by
  simp only [Numeral.readFloat] at failed
  repeat' split at failed
  all_goals cases failed
  rfl

private theorem textLiteral (token : Token) :
    L.Rel (liftM (textLiteral? token)) (liftM (textLiteral? token)) := by
  refine L.lift (fun halt failed => ?_) fun found read => ?_
  · unfold textLiteral? at failed
    repeat' split at failed
    all_goals cases failed
    exact L.fault nofun
  · unfold textLiteral? at read
    repeat' split at read
    all_goals cases read
    all_goals first | exact Carries.all_none | exact Carries.all_some.2 (Carries.all_value.2 (L.flat nofun))

private theorem numberLiteral (token : Token) :
    L.Rel (liftM (numberLiteral? token)) (liftM (numberLiteral? token)) := by
  refine L.lift (fun halt failed => ?_) fun found read => ?_
  · simp only [numberLiteral?] at failed
    split at failed
    · split at failed
      · split at failed
        · cases failed
        · rename_i found
          cases failed
          exact L.slip (halts_readFloat found)
      · split at failed
        · cases failed
        · rename_i found
          cases failed
          exact L.slip (halts_readInt found)
    · cases failed
  · simp only [numberLiteral?] at read
    repeat' split at read
    all_goals cases read
    all_goals first | exact Carries.all_none | exact Carries.all_some.2 (Carries.all_value.2 (L.flat nofun))

private theorem documentLiteral (token : Token) : L.Rel (documentLiteral? token) (documentLiteral? token) := by
  unfold documentLiteral?
  split
  · refine L.ask fun heap heap' alike => ?_
    rw [(L.publicly alike).runtime]
    split
    · exact L.make alike _ fun _ fine => Carries.all_some.2 (Carries.all_value.2 fine)
    · exact L.throw L.tooDeep
    · exact L.nothing
  · exact L.nothing

end Literals

section Paths

private theorem halts_steps (fuel : Nat) {text : Chars} {crash : Crash}
    (failed : Path.steps fuel text = .error crash) : crash.isSlip := by
  fun_induction Path.steps fuel text
  case case3 ih => exact ih (error_of_map failed)
  case case6 ih =>
    rcases error_of_bind failed with found | ⟨position, failed⟩
    · exact halts_readInt found
    · exact ih (error_of_map failed)
  all_goals cases failed

private theorem halts_path {token : Chars} {crash : Crash} (failed : Path.parse token = .error crash) :
    crash.isSlip := by
  unfold Path.parse at failed
  split at failed
  · exact halts_steps _ (error_of_map failed)
  · cases failed

private theorem fine_option {found : Option Value} (fine : ∀ value, found = some value → L.Fine value) :
    Carries.All L.Fine found := by
  cases found with
  | none => exact Carries.all_none
  | some value => exact Carries.all_some.2 (Carries.all_value.2 (fine value rfl))

private theorem fine_attribute (response : Response) (name : String) : Carries.All L.Fine
    (response.attribute? name) := by
  unfold Response.attribute?
  repeat' split
  all_goals first | exact Carries.all_none | exact Carries.all_some.2 (Carries.all_value.2 (L.flat nofun))

private theorem readied {heap heap' : Heap} (alike : L.Alike heap heap') {value : Value} {method : Method}
    (made : L.Alike (heap.alloc (.method value method)).2 (heap'.alloc (.method value method)).2) :
    L.RelAt heap heap' (do return some (← Inyandiko.allocate (.method value method)))
      (do return some (← Inyandiko.allocate (.method value method))) :=
  L.bindAt (L.allocateAt alike made) fun _ given => L.pure (Carries.all_some.2 given)

private theorem lent {heap heap' : Heap} (alike : L.Alike heap heap') {value : Value} (fine : L.Fine value)
    (same : heap'.object? value = heap.object? value) (name : String) :
    L.RelAt heap heap' (lent? value name) (lent? value name) := by
  refine L.askAt ?_
  rw [same,(L.publicly alike).runtime]
  split
  · exact L.nothing heap heap' alike
  · rename_i lent
    exact L.readied alike (L.lend alike fine lent)
  · exact L.make alike _ (fun _ made => Carries.all_some.2 (Carries.all_value.2 made)) heap heap' alike

private theorem ready {heap heap' : Heap} (alike : L.Alike heap heap') {value : Value} (fine : L.Fine value)
    (same : heap'.object? value = heap.object? value) (name : String) :
    L.RelAt heap heap' (member? value name) (member? value name) := by
  refine L.askAt ?_
  rw [(L.publicly alike).method]
  split
  · rename_i found
    exact L.readied alike (L.alloc alike (Heap.isPlain_method found) fun _ held => List.mem_singleton.1 held ▸ fine)
  · exact L.lent alike fine same name

private theorem fine_get {attributes : Table Value} (held : ∀ inner ∈ attributes.values, L.Fine inner) (name : String) :
    Carries.All L.Fine (attributes.get? name) :=
  L.fine_option fun inner given => held inner (Table.mem_values_of_get? given)

/-- All attributes of an object are the same on both sides if the object is. -/
theorem attributeOf {heap heap' : Heap} (alike : L.Alike heap heap') {value : Value} (fine : L.Fine value)
    (same : heap'.object? value = heap.object? value) (name : String) :
    L.RelAt heap heap' (attribute? value name) (attribute? value name) := by
  refine L.askAt ?_
  rw [same]
  split
  · rename_i found
    exact L.pure (L.fine_get (L.inside alike fine found) name) heap heap' alike
  · rename_i found
    have inside := L.inside alike fine found
    exact L.pure (L.fine_get (fun inner held => inside inner (List.mem_append_right _ held)) name) heap heap' alike
  · rename_i response _
    have own := L.fine_attribute response name
    split
    · rename_i found
      rw [found] at own
      exact L.pure own heap heap' alike
    · exact L.ready alike fine same name
  · exact L.ready alike fine same name

private theorem publicAttribute {value : Value} (fine : L.Fine value) {name : String}
    (known : isPrivateName name = false) :
    L.Rel (attribute? value name) (attribute? value name) := by
  intro heap heap' alike
  rcases (L.publicly alike).object value with same | ⟨_, _, one, two, akin⟩
  · exact L.attributeOf alike fine same name
  · refine L.askAt ?_
    have inside := L.inside alike fine one
    rw [one,two]
    cases akin with
    | host _ agree =>
      simp only [agree name known]
      exact L.pure (L.fine_get inside name) heap heap' alike
    | function _ _ agree =>
      simp only [agree name known]
      exact L.pure (L.fine_get (fun inner held => inside inner (List.mem_append_right _ held)) name) heap heap' alike

private theorem fine_items {heap heap' : Heap} (alike : L.Alike heap heap') {value : Value} (fine : L.Fine value)
    {items : List Value} (found : heap.items? value = some items) : ∀ item ∈ items, L.Fine item := by
  unfold Heap.items? at found
  split at found
  case h_1 | h_2 =>
    rename_i object
    cases found
    exact L.inside alike fine object
  · cases found

theorem fine_entries {heap heap' : Heap} (alike : L.Alike heap heap') {value : Value} (fine : L.Fine value)
    {entries : Table Value} (found : heap.entries? value = some entries) :
    ∀ inner ∈ entries.values, L.Fine inner := by
  unfold Heap.entries? at found
  split at found
  case h_1 | h_2 =>
    rename_i object
    cases found
    exact L.inside alike fine object
  · cases found

private theorem step {value : Value} (fine : L.Fine value) (step : Step) : L.Rel (value.step step)
    (value.step step) := by
  refine L.ask fun heap heap' alike => ?_
  simp only [(L.publicly alike).items,(L.publicly alike).entries]
  split
  · exact L.nothing
  · refine L.pure (L.fine_option fun inner given => ?_)
    obtain ⟨items, found, given⟩ := Option.bind_eq_some_iff.1 given
    split at given
    · cases given
    · exact L.fine_items alike fine found inner (List.mem_of_getElem? given)
  · split
    · rename_i found
      exact L.pure (L.fine_option fun inner given =>
        L.fine_entries alike fine found inner (Table.mem_values_of_get? given))
    · split
      · exact L.fail _ nofun
      · rename_i known
        exact L.publicAttribute fine (Bool.eq_false_iff.mpr known)

private theorem follow {value : Value} (fine : L.Fine value) (steps : List Step) :
    L.Rel (value.follow steps) (value.follow steps) := by
  induction steps generalizing value with
  | nil => exact L.pure (Carries.all_some.2 (Carries.all_value.2 fine))
  | cons step steps ih =>
    refine L.bind (L.step fine step) fun found given => ?_
    cases found with
    | some next => exact ih (Carries.all_value.1 (Carries.all_some.1 given))
    | none => exact L.nothing

private theorem path {lookup : String → Option Value} (visible : ∀ name value, lookup name = some value → L.Fine value)
    (token : Chars) : L.Rel (resolvePath lookup token) (resolvePath lookup token) := by
  unfold resolvePath
  split
  · rename_i crash failed
    exact L.throw (L.slip (halts_path failed))
  · exact L.nothing
  · split
    · rename_i found
      exact L.follow (visible _ _ found) _
    · exact L.nothing

end Paths

section Texts

variable {heap : Heap} {halt : Halt}

private theorem halts_writeInt {n : Int} {crash : Crash} (failed : Number.writeInt n = .error crash) :
    crash.isSlip := by
  unfold Number.writeInt at failed
  split at failed
  · cases failed
    rfl
  · cases failed

private theorem halts_mapError {outcome : Except Crash α} (slips : ∀ crash, outcome = .error crash → crash.isSlip)
    (failed : outcome.mapError Halt.crash = .error halt) : L.Halts halt := by
  cases outcome with
  | ok value => cases failed
  | error crash =>
    cases failed
    exact L.slip (slips crash rfl)

private theorem halts_write {n : Number} (failed : n.write.mapError Halt.crash = .error halt) : L.Halts halt := by
  refine L.halts_mapError (fun crash found => ?_) failed
  cases n with
  | int n => exact halts_writeInt found
  | float x => cases found

private theorem halts_walk {step : α → Except Halt β} {γ : Type} {items : List α} {finish : List β → γ}
    (each : ∀ item, step item = .error halt → L.Halts halt)
    (failed : (do return finish (← items.mapM step)) = Except.error halt) : L.Halts halt := by
  rcases error_of_bind failed with walk | ⟨parts, failed⟩
  · obtain ⟨item, -, found⟩ := error_of_mapM walk
    exact each item found
  · cases failed

private theorem halts_inspect (depth : Nat) {trail : List Nat} {value : Value}
    (failed : heap.inspect depth trail value = .error halt) : L.Halts halt := by
  induction depth generalizing trail value with
  | zero =>
    cases value with
    | number n => exact L.halts_write failed
    | ref place =>
      cases failed
      exact L.tooDeep
    | _ => cases failed
  | succ depth ih =>
    cases value with
    | number n => exact L.halts_write failed
    | ref place =>
      rw [Heap.inspect] at failed
      split at failed
      case h_1 | h_2 =>
        split at failed
        · cases failed
        · exact L.halts_walk (fun item found => ih found) failed
      case h_3 | h_4 =>
        split at failed
        · cases failed
        · refine L.halts_walk (fun entry found => ?_) failed
          rcases error_of_bind found with inner | ⟨part, found⟩
          · exact ih inner
          · cases found
      all_goals cases failed
    | _ => cases failed

private theorem halts_document (depth : Nat) {trail : List Nat} {value : Value}
    (failed : heap.document depth trail value = .error halt) : L.Halts halt := by
  have integer {depth : Nat} {trail : List Nat} {n : Int}
      (failed : heap.document depth trail (.number (.int n)) = .error halt) : L.Halts halt := by
    rw [Heap.document] at failed
    split at failed
    · cases failed
    · rename_i found
      cases failed
      exact L.slip (halts_writeInt found)
  induction depth generalizing trail value with
  | zero =>
    rcases value with _ | _ | (n | x) | _ | place
    case number.int => exact integer failed
    case ref =>
      cases failed
      exact L.tooDeep
    all_goals cases failed
  | succ depth ih =>
    rcases value with _ | _ | (n | x) | _ | place
    case number.int => exact integer failed
    case ref =>
      rw [Heap.document] at failed
      split at failed
      case h_1 | h_2 =>
        split at failed
        · cases failed
          exact L.slip rfl
        · exact L.halts_walk (fun item found => ih found) failed
      case h_3 | h_4 =>
        split at failed
        · cases failed
          exact L.slip rfl
        · refine L.halts_walk (fun entry found => ?_) failed
          rcases error_of_bind found with inner | ⟨part, found⟩
          · exact ih inner
          · cases found
      all_goals cases failed
    all_goals cases failed

private theorem halts_display (room : Nat) {value : Value}
    (failed : heap.display room value = .error halt) : L.Halts halt := by
  induction room using Nat.strongRecOn generalizing value with
  | ind room ih =>
    rcases value with _ | _ | (n | x) | _ | place
    case number.int =>
      rw [Heap.display] at failed
      exact L.halts_mapError (fun _ found => halts_writeInt found) failed
    case ref =>
      rw [Heap.display] at failed
      split at failed
      case h_1 | h_2 =>
        split at failed
        · refine L.halts_walk (fun item found => ?_) failed
          split at found
          · cases found
          · exact ih _ (by omega) found
        · cases failed
          exact L.tooDeep
      case h_3 | h_4 =>
        rcases error_of_bind failed with inner | ⟨document, failed⟩
        · exact L.halts_document _ inner
        · cases failed
      all_goals cases failed
    all_goals
      rw [Heap.display] at failed
      cases failed

theorem halts_hostText {value : Value} (failed : heap.hostText value = .error halt) : L.Halts halt := by
  cases value with
  | text text => cases failed
  | _ => exact L.halts_inspect _ (error_of_map failed)

theorem halts_displayText {value : Value} (failed : heap.displayText value = .error halt) :
    L.Halts halt :=
  L.halts_display _ (error_of_map failed)

end Texts

section Operators

variable {heap : Heap} {halt : Halt} {crash : Crash} {x y : Number}

theorem halts_toFloat (failed : x.toFloat = .error crash) : crash.isSlip := by
  unfold Number.toFloat at failed
  repeat' split at failed
  all_goals cases failed
  rfl

private theorem halts_floatOp {op : Binary64 → Binary64 → Binary64} (failed : Number.floatOp op x y = .error crash) :
    crash.isSlip := by
  rcases error_of_bind failed with first | ⟨a, failed⟩
  · exact halts_toFloat first
  · rcases error_of_bind failed with second | ⟨b, failed⟩
    · exact halts_toFloat second
    · cases failed

private theorem halts_add (failed : x.add y = .error crash) : crash.isSlip := by
  unfold Number.add at failed
  split at failed
  · cases failed
  · exact halts_floatOp failed

private theorem halts_sub (failed : x.sub y = .error crash) : crash.isSlip := by
  unfold Number.sub at failed
  split at failed
  · cases failed
  · exact halts_floatOp failed

private theorem halts_mul (failed : x.mul y = .error crash) : crash.isSlip := by
  unfold Number.mul at failed
  split at failed
  · cases failed
  · exact halts_floatOp failed

private theorem halts_div (failed : x.div y = .error crash) : crash.isSlip := by
  unfold Number.div at failed
  split at failed
  · split at failed
    · cases failed
      rfl
    · cases failed
  · exact halts_floatOp failed

private theorem halts_rem (failed : x.rem y = .error crash) : crash.isSlip := by
  rcases error_of_bind failed with first | ⟨a, failed⟩
  · exact halts_toFloat first
  · rcases error_of_bind failed with second | ⟨b, failed⟩
    · exact halts_toFloat second
    · split at failed
      · cases failed
      · cases failed
        rfl
      · cases failed

private theorem halts_arithmetic {op : Number → Number → Except Crash Number}
    (slips : ∀ {crash}, op x y = .error crash → crash.isSlip)
    (failed : Operator.arithmetic op x y = .error halt) : L.Halts halt := by
  unfold Operator.arithmetic at failed
  split at failed
  · cases failed
  · rename_i found
    cases failed
    exact L.slip (slips found)

private theorem halts_division {op : Number → Number → Except Crash Number} {token : Token}
    (slips : ∀ {crash}, op x y = .error crash → crash.isSlip)
    (failed : Operator.division op x y token = .error halt) : L.Halts halt := by
  unfold Operator.division at failed
  split at failed
  · cases failed
    exact L.fault nofun
  · exact L.halts_arithmetic slips failed

private theorem halts_toNumber {value : Value} {token : Token} (failed : value.toNumber token = .error halt) :
    L.Halts halt := by
  cases value with
  | number n => cases failed
  | _ =>
    cases failed
    exact L.fault nofun

private theorem halts_onNumbers {left right : Value} {leftToken rightToken : Token}
    {op : Number → Number → Except Halt Value}
    (halts : ∀ x y, op x y = .error halt → L.Halts halt)
    (failed : Operator.onNumbers left right leftToken rightToken op = .error halt) : L.Halts halt := by
  rcases error_of_bind failed with first | ⟨x, failed⟩
  · exact L.halts_toNumber first
  · rcases error_of_bind failed with second | ⟨y, failed⟩
    · exact L.halts_toNumber second
    · exact halts x y failed

private theorem halts_compare {left right : Value} {leftToken rightToken : Token}
    (failed : left.compare right leftToken rightToken = .error halt) : L.Halts halt := by
  unfold Value.compare at failed
  split at failed
  case h_1 | h_2 => cases failed
  all_goals
    cases failed
    exact L.fault nofun

private theorem halts_apply {operator : Operator} {left right : Value} {leftToken rightToken : Token}
    (failed : operator.apply heap left right leftToken rightToken = .error halt) : L.Halts halt := by
  cases operator with
  | or | and | eq | ne => cases failed
  | ge | le | gt | lt =>
    rcases error_of_bind failed with found | ⟨order, failed⟩
    · exact L.halts_compare found
    · cases failed
  | add =>
    simp only [Operator.apply] at failed
    split at failed
    · rcases error_of_bind failed with first | ⟨text, failed⟩
      · exact L.halts_displayText first
      · rcases error_of_bind failed with second | ⟨text, failed⟩
        · exact L.halts_displayText second
        · cases failed
    · exact L.halts_onNumbers (fun _ _ => L.halts_arithmetic halts_add) failed
  | sub => exact L.halts_onNumbers (fun _ _ => L.halts_arithmetic halts_sub) failed
  | mul => exact L.halts_onNumbers (fun _ _ => L.halts_arithmetic halts_mul) failed
  | div => exact L.halts_onNumbers (fun _ _ => L.halts_division halts_div) failed
  | rem => exact L.halts_onNumbers (fun _ _ => L.halts_division halts_rem) failed

private theorem apply_eq {heap' : Heap} (alike : heap.Alike heap') (operator : Operator) (left right : Value)
    (leftToken rightToken : Token) :
    operator.apply heap' left right leftToken rightToken =
      operator.apply heap left right leftToken rightToken := by
  cases operator <;> simp only [Operator.apply,alike.displayText]

end Operators

section Expressions

private theorem fine_apply {heap : Heap} {operator : Operator} {left right : Value} {leftToken rightToken : Token}
    {value : Value} (done : operator.apply heap left right leftToken rightToken = .ok value) : L.Fine value := by
  have arithmetic {op : Number → Number → Except Crash Number} {x y : Number}
      (done : Operator.arithmetic op x y = .ok value) : L.Fine value := by
    unfold Operator.arithmetic at done
    split at done
    · cases done
      exact L.flat nofun
    · cases done
  have onNumbers {op : Number → Number → Except Halt Value} (each : ∀ x y, op x y = .ok value → L.Fine value)
      (done : Operator.onNumbers left right leftToken rightToken op = .ok value) : L.Fine value := by
    obtain ⟨x, _, done⟩ := ok_of_bind done
    obtain ⟨y, _, done⟩ := ok_of_bind done
    exact each x y done
  have division {op : Number → Number → Except Crash Number} {x y : Number}
      (done : Operator.division op x y rightToken = .ok value) : L.Fine value := by
    unfold Operator.division at done
    split at done
    · cases done
    · exact arithmetic done
  cases operator with
  | or | and | eq | ne =>
    cases done
    exact L.flat nofun
  | ge | le | gt | lt =>
    obtain ⟨order, _, done⟩ := ok_of_bind done
    cases done
    exact L.flat nofun
  | add =>
    simp only [Operator.apply] at done
    split at done
    · obtain ⟨first, _, done⟩ := ok_of_bind done
      obtain ⟨second, _, done⟩ := ok_of_bind done
      cases done
      exact L.flat nofun
    · exact onNumbers (fun _ _ => arithmetic) done
  | sub | mul => exact onNumbers (fun _ _ => arithmetic) done
  | div | rem => exact onNumbers (fun _ _ => division) done

private theorem fine_word {token : Token} {value : Value} (found : wordLiteral? token = some value) : L.Fine value := by
  unfold wordLiteral? at found
  repeat' split at found
  all_goals cases found
  all_goals exact L.flat nofun

private theorem simpleValue {lookup : String → Option Value}
    (visible : ∀ name value, lookup name = some value → L.Fine value)
    (token : Token) : L.Rel (simpleValue? lookup token) (simpleValue? lookup token) := by
  refine L.bind (L.textLiteral token) fun found fine => ?_
  cases found with
  | some value => exact L.pure fine
  | none =>
    refine L.bind (L.documentLiteral token) fun found fine => ?_
    cases found with
    | some value => exact L.pure fine
    | none =>
      refine L.bind (L.numberLiteral token) fun found fine => ?_
      cases found with
      | some value => exact L.pure fine
      | none =>
        dsimp only
        split
        · rename_i found
          exact L.pure (Carries.all_some.2 (Carries.all_value.2 (L.fine_word found)))
        split
        · rename_i found
          exact L.pure (Carries.all_some.2 (Carries.all_value.2 (visible _ _ found)))
        · exact L.path visible token

private theorem operators {operand operand' : Token → HeapM Value} (text : Chars)
    (each : ∀ token, L.Rel (operand token) (operand' token)) :
    L.Rel (evaluateOperators operand text) (evaluateOperators operand' text) := by
  have number {value : Value} {token : Token} : L.Rel (liftM (value.toNumber token)) (liftM (value.toNumber token)) :=
    L.lift (fun _ failed => L.halts_toNumber failed) fun _ _ => Carries.all_number
  unfold evaluateOperators
  split
  · split
    · exact L.fail _ nofun
    · refine L.bind (each _) fun left _ => L.bind (each _) fun right _ => L.ask fun heap heap' alike => ?_
      rw [apply_eq (L.publicly alike)]
      exact L.lift (fun halt failed => L.halts_apply failed) fun value done => Carries.all_value.2 (L.fine_apply done)
  · split
    · exact L.bind (each _) fun _ _ => L.datum nofun
    · exact L.bind (each _) fun _ _ => L.bind number fun _ _ => L.datum nofun
    · exact L.bind (each _) fun _ _ => L.bind number fun _ _ => L.datum nofun
    · exact L.fail _ nofun

private theorem evaluateWithin {lookup : String → Option Value}
    (visible : ∀ name value, lookup name = some value → L.Fine value) (depth : Nat) (token : Token) :
    L.Rel (evaluateWithin lookup depth token) (evaluateWithin lookup depth token) := by
  induction depth generalizing token with
  | zero => exact L.throw L.tooDeep
  | succ depth ih =>
    unfold Inyandiko.evaluateWithin
    dsimp only
    split
    · exact L.throw (L.fault nofun)
    refine L.bind (L.simpleValue visible _) fun found fine => ?_
    cases found with
    | some value => exact L.pure fine
    | none =>
      dsimp only
      split
      · exact ih _
      · exact L.operators _ ih

theorem evaluate {lookup : String → Option Value} (visible : ∀ name value, lookup name = some value → L.Fine value)
    (token : Token) : L.Rel (evaluate lookup token) (evaluate lookup token) :=
  L.evaluateWithin visible nestingLimit token

end Expressions

section Members

theorem method {target : Value} (fine : L.Fine target) (name : String) :
    L.Rel (Dependency.method? target name) (Dependency.method? target name) := by
  refine L.ask fun heap heap' alike => ?_
  dsimp only
  split
  · exact L.nothing
  rw [(L.publicly alike).entries]
  have callable (member : Option Value) (fine : Carries.All L.Fine member) : L.Rel
      (do let heap ← get; return member.filter heap.isCallable)
      (do let heap ← get; return member.filter heap.isCallable) := by
    refine L.ask fun heap heap' alike => ?_
    rw [funext (L.publicly alike).callable]
    refine L.pure (L.fine_option fun value found => ?_)
    cases (Option.filter_eq_some_iff.1 found).1
    exact Carries.all_value.1 (Carries.all_some.1 fine)
  cases found : heap.entries? target with
  | some entries =>
    refine L.bind (L.pure (L.fine_option fun value given => ?_)) callable
    exact L.fine_entries alike fine found value (Table.mem_values_of_get? given)
  | none =>
    dsimp only
    split
    · exact L.bind (L.fail _ nofun) callable
    · rename_i known
      exact L.bind (L.publicAttribute fine (Bool.eq_false_iff.mpr known)) callable

theorem member {target : Value} (fine : L.Fine target) (name : String) :
    L.Rel (Dependency.member? target name) (Dependency.member? target name) := by
  refine L.ask fun heap heap' alike => ?_
  rw [(L.publicly alike).entries]
  cases found : heap.entries? target with
  | some entries =>
    refine L.pure (L.fine_option fun value given => ?_)
    exact L.fine_entries alike fine found value (Table.mem_values_of_get? given)
  | none =>
    dsimp only
    split
    · exact L.nothing
    · rename_i known
      simp only [Bool.or_eq_true,not_or] at known
      exact L.publicAttribute fine (Bool.eq_false_iff.mpr known.2)

private theorem refuse [Carries α] (message : String) :
    L.Rel (Method.refuse message : HeapM α) (Method.refuse message) :=
  L.throw (L.slip rfl)

private theorem modifyList {place : Nat} (held : L.Fine (.ref place)) {items : List Value}
    (fine : ∀ item ∈ items, L.Fine item) {value : Value} (given : L.Fine value) :
    L.Rel (do modify (·.set place (.list items)); return value)
      (do modify (·.set place (.list items)); return value) :=
  fun _ _ alike => ⟨.ok value (L.set alike held fine), fun _ _ same => by cases same; exact Carries.all_value.2 given⟩

section Lists

variable {place : Nat} (held : L.Fine (.ref place)) {items : List Value} (fine : ∀ item ∈ items, L.Fine item)
include held fine

private theorem popAt (position : Int) : L.Rel (Method.popAt place items position)
    (Method.popAt place items position) := by
  unfold Method.popAt
  dsimp only
  split
  · exact L.throw (L.slip rfl)
  · split
    · rename_i found
      obtain ⟨-, found⟩ := Option.ite_none_left_eq_some.1 found
      exact L.modifyList held (fun item member => fine item (List.mem_of_mem_eraseIdx member))
        (fine _ (List.mem_of_getElem? found))
    · exact L.throw (L.slip rfl)

private theorem callOnList (method : Method) {args : List Value} (given : ∀ arg ∈ args, L.Fine arg) :
    L.Rel (method.callOnList place items args) (method.callOnList place items args) := by
  cases method with
  | append =>
    simp only [Method.callOnList]
    unfold Method.appendItem
    split
    · refine L.modifyList held ?_ (L.flat nofun)
      exact List.forall_mem_append.2 ⟨fine, given⟩
    · exact L.refuse _
  | pop =>
    simp only [Method.callOnList]
    unfold Method.popItem
    split
    · exact L.popAt held fine _
    · exact L.popAt held fine _
    · exact L.popAt held fine _
    · refine L.ask fun heap heap' alike => ?_
      rw [(L.publicly alike).kind]
      exact L.refuse _
    · exact L.refuse _
  | reverse =>
    simp only [Method.callOnList]
    unfold Method.reverseItems
    split
    · exact L.modifyList held (fun item member => fine item (List.mem_reverse.1 member)) (L.flat nofun)
    · exact L.refuse _
  | _ => exact L.datum nofun

end Lists

private theorem callOnText (method : Method) (text : String) (args : List Value) :
    L.Rel (method.callOnText text args) (method.callOnText text args) := by
  unfold Method.callOnText
  split
  · exact L.datum nofun
  · exact L.datum nofun
  · exact L.refuse _
  · exact L.refuse _

private theorem callMethod (method : Method) {receiver : Value} (fine : L.Fine receiver) {args : List Value}
    (given : ∀ arg ∈ args, L.Fine arg) : L.Rel (method.call receiver args) (method.call receiver args) := by
  refine L.ask fun heap heap' alike => ?_
  rcases (L.publicly alike).object receiver with same | ⟨_, _, one, two, akin⟩
  · rw [same]
    split
    · exact L.callOnText _ _ _
    · rename_i found
      exact L.callOnList fine (L.inside alike fine found) _ given
    · rename_i response found
      split
      · exact L.document fun _ => L.answer alike found _ _
      · exact L.refuse _
    · exact L.datum nofun
  · rw [one,two]
    cases receiver with
    | text text => cases one
    | _ => cases akin <;> exact L.datum nofun

/-- Values that can be called do the same when they are called. -/
theorem callValue {target : Value} (fine : L.Fine target) {args : List Value} (given : ∀ arg ∈ args, L.Fine arg) :
    L.Rel (host.callValue target args) (host.callValue target args) := by
  refine L.ask fun heap heap' alike => ?_
  rcases (L.publicly alike).object target with same | ⟨_, _, one, two, akin⟩
  · rw [same]
    split
    · rename_i found
      exact L.call alike fine (by rw [found]; rfl) given
    · rename_i found
      exact L.call alike fine (by rw [found]; rfl) given
    · rename_i receiver _ _ found
      exact L.callMethod _ (L.inside alike fine found receiver List.mem_cons_self) given
    · exact L.throw (L.slip rfl)
  · rw [one,two]
    cases akin with
    | host => exact L.throw (L.slip rfl)
    | function => exact L.call alike fine (by rw [one]; rfl) given

end Members

section Declarations

theorem halts_declare {scopes : Scopes} {frame : FrameId} {name : String} {value : Value} {isConst : Bool}
    {halt : Halt} (failed : scopes.declare frame name value isConst = .error halt) : L.Halts halt := by
  unfold Scopes.declare at failed
  split at failed
  · cases failed
    exact L.fault nofun
  · cases failed

theorem halts_assign {scopes : Scopes} {frame : FrameId} {name : String} {value : Value} {halt : Halt}
    (failed : scopes.assign frame name value = .error halt) : L.Halts halt := by
  unfold Scopes.assign at failed
  dsimp only at failed
  split at failed
  · cases failed
    exact L.fault nofun
  · cases failed

end Declarations

/-- The body of an answer, where answers may be no documents. -/
theorem body (problems : ∀ text problem, L.Halts (Crash.ofProblem text problem)) (response : Response) :
    L.Rel response.body response.body := by
  unfold Response.body
  dsimp only
  split
  · exact L.document fun problem => problems _ problem
  · refine L.ask fun heap heap' alike => ?_
    rw [(L.publicly alike).runtime]
    split
    · exact L.make alike _ fun _ made => Carries.all_value.2 made
    · exact L.throw L.tooDeep
    · exact L.datum nofun

end Likeness

end Inyandiko
