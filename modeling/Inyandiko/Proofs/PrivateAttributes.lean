import Inyandiko.Host.Kit
import Inyandiko.Proofs.Likeness.Coupling

/-! Private attributes do not matter to scripts themselves. Attributes of host objects and functions whose
names begin with an underscore are never looked at by paths, by members to be called or by imports, so runs
on heaps that differ in such attributes end the same way, as long as what scripts call takes no notice of
them either. The templates of texts do: they give any attribute away. -/
namespace Inyandiko

open Source

/-- A host that takes no notice of private attributes itself, in its functions, in the members that it
lends, in its families of commands and in its commands. -/
structure Host.Blind (host : Host) : Prop where
  calls (callee : Callee) (args : List Value) :
    HeapM.Coupled Heap.Alike (fun _ => True) (host.call callee args) (host.call callee args)
  families (family : Family) (line : Line) (names : Table Value) :
    HeapM.Coupled Heap.Alike (fun _ => True) (host.family family line names) (host.family family line names)
  handlers (handler : String) (given : CommandContext) : (host.handler handler given).Blind Heap.Alike

/-- The likeness of heaps that differ in private attributes. -/
def Likeness.ofPublic (host : Host)
    (calls : ∀ callee args,
      HeapM.Coupled Heap.Alike (fun _ => True) (host.call callee args) (host.call callee args)) :
    Likeness host where
  Alike := Heap.Alike
  Halts _ := True
  Fine _ := True
  flat _ := trivial
  inside _ _ _ _ _ _ _ := trivial
  fresh _ := trivial
  publicly alike := alike
  alloc alike _ _ _ := alike.alloc (.inl rfl)
  lend alike _ _ _ _ := alike.alloc (.inl rfl)
  set alike place _ _ _ := alike.set place (.inl rfl)
  fault _ := trivial
  tooDeep := trivial
  slip _ := trivial
  answer _ _ _ _ _ _ := trivial
  call _ _ _ _ _ args _ heap heap' alike := ⟨calls _ args heap heap' alike, fun _ _ _ _ _ => trivial⟩

/-- The coupling of runs on such heaps. -/
def Coupling.ofPublic (setup : Setup) (blind : setup.host.Blind) : Coupling setup where
  toLikeness := .ofPublic setup.host blind.calls
  hosted := true
  Known _ := True
  present := false
  Body _ := True
  Excused _ := False
  fine _ := trivial
  endless := trivial
  invalid _ := trivial
  located _ := trivial
  excused given := given
  failing _ _ _ := trivial
  results _ _ := trivial
  exports _ _ := trivial
  functions _ _ _ _ := trivial
  plain := Context.plain_of_hosted
  unreachable _ := trivial
  problem _ _ _ := trivial
  answers _ _ _ alike _ := Heap.Alike.alloc alike (.inl rfl)
  family _ line names heap heap' alike :=
    ⟨blind.families _ line names heap heap' alike, fun _ _ _ _ _ => trivial⟩
  blind _ := blind.handlers
  free _ := ⟨rfl, fun _ => trivial, fun _ => trivial, fun _ given => given⟩

/-- A computation that ends the same way, in the same world, on heaps that differ in private
attributes; all values have the same content then. -/
def Exec.Indifferent {α : Type} (work : Exec α) : Prop :=
  ∀ (world : World) (heap' : Heap), world.heap.Alike heap' →
    (work { world with heap := heap' }).1 = (work world).1 ∧
      ∃ heap'', (work { world with heap := heap' }).2 = { (work world).2 with heap := heap'' } ∧
        (work world).2.heap.Alike heap'' ∧
        ∀ value, heap''.contents value = (work world).2.heap.contents value

private theorem Coupling.indifferent {setup : Setup} {blind : setup.host.Blind} {context : ContextId} {α : Type}
    {work : Exec α} (coupled : (Coupling.ofPublic setup blind).Rel context work work) :
    Exec.Indifferent work := by
  intro world heap' alike
  rcases coupled world heap' alike ⟨trivial, nofun⟩ with ⟨_, _, excused⟩ | ⟨same, -, alike, left, -⟩
  · exact excused.elim
  · exact ⟨same, _, left, alike, alike.sameAnswers.contents⟩

/-- Runs and events do not depend on private attributes of host objects and functions, if the host that they
call does not. -/
theorem private_attributes_invisible (setup : Setup) (blind : setup.host.Blind) :
    (∀ source options, Exec.Indifferent (execute setup source options)) ∧
      ∀ surface selector event payload,
        Exec.Indifferent (dispatch setup surface selector event payload) := by
  have agree := (Coupling.ofPublic setup blind).discipline.agree_level
    ((Coupling.ofPublic setup blind).counts trivial (fun _ _ => trivial) fun _ _ => trivial)
    (Coupling.ofPublic setup blind).tells (fun _ => trivial) id Machine.levels
  refine ⟨fun source options => ?_, fun surface selector event payload => ?_⟩
  · exact Coupling.indifferent (agree.run rfl source rfl 0 none)
  · have fired (listeners : List Listener) : (Coupling.ofPublic setup blind).discipline.Rel 0 none
        ((Machine.full setup).fire setup payload listeners)
        ((Machine.full setup).fire setup payload listeners) :=
      (Coupling.ofPublic setup blind).discipline.fire agree
        (fun coupled => (Coupling.ofPublic setup blind).anywhere rfl coupled) trivial listeners
    exact fun world heap' alike => Coupling.indifferent (fired _) world heap' alike

namespace Kit

private theorem callFunction_coupled (name : String) (owner : Option Nat) (args : List Value) :
    HeapM.Coupled Heap.Alike (fun _ => True) (callFunction name owner args) (callFunction name owner args) := by
  let L : Likeness .bare := .ofPublic .bare fun _ _ _ _ _ => .error trivial
  have put {heap heap' : Heap} (alike : heap.Alike heap') (value : Value) :
      L.Rel (do set heap; return value) (do set heap'; return value) :=
    fun _ _ _ => ⟨.ok value alike, fun _ _ _ _ _ => trivial⟩
  have plain (value : Value) : L.Rel (pure value) (pure value) := L.pure fun _ _ => trivial
  have count : L.Rel (countUp owner) (countUp owner) := by
    refine L.ask fun heap heap' (alike : heap.Alike heap') => ?_
    cases owner with
    | none => exact plain _
    | some place =>
      rcases alike.at_place place with same | ⟨_, _, one, two, akin⟩
      · simp only [same]
        split
        · exact put (alike.set place (.inl rfl)) _
        · exact plain _
      · cases akin with
        | host name agree =>
          have known : Text.isPrivateName "count" = false := by simp [Text.isPrivateName]
          simp only [one,two,agree "count" known]
          refine put (alike.set place (.inr (.host name fun key known => ?_))) _
          simp only [Table.get?_insert,agree key known]
        | function name owner agree =>
          simp only [one,two]
          exact plain _
  suffices same : L.Rel (callFunction name owner args) (callFunction name owner args) from
    fun heap heap' alike => (same heap heap' alike).1
  unfold callFunction
  split
  case h_1 | h_2 => exact L.bind (L.lift (fun _ _ => trivial) fun _ _ _ _ => trivial) fun _ _ => plain _
  case h_4 =>
    split
    · exact plain _
    · exact L.throw trivial
  case h_7 | h_8 => exact L.allocate rfl fun _ _ => trivial
  case h_12 => exact count
  case h_5 | h_11 | h_13 => exact L.throw trivial
  all_goals exact plain _

private theorem product_blind (args : List Value) : (product args).Blind Heap.Alike := by
  unfold product
  repeat' split
  all_goals trivial

private theorem total_blind (sum : Number) (args : List Value) : (total sum args).Blind Heap.Alike := by
  fun_induction total sum args
  all_goals trivial

private theorem nested_blind (args : List Value) : (nested args).Blind Heap.Alike := by
  unfold nested
  split
  · trivial
  · intro heap heap' alike
    have entries : heap'.entries? = heap.entries? := funext alike.entries
    refine ⟨?_, fun record => ?_⟩
    · simp only [overrides,entries]
    · exact fun _ _ _ _ => trivial
  · intro heap heap' alike
    exact ⟨by simp only [alike.kind], trivial⟩

/-- The kit without templates. -/
def plainHost : Host :=
  { host with
    call := fun
      | .function name owner => callFunction name owner
      | .member name _ => fun _ => throw (.crash (.missingAttribute name)) }

private theorem blind : plainHost.Blind where
  calls callee args := by
    cases callee with
    | function name owner => exact callFunction_coupled name owner args
    | member name receiver => exact fun _ _ _ => .error trivial
  families name line names heap heap' alike := by
    change HeapM.Same _ _ (family name line names heap) (family name line names heap')
    unfold family
    split <;> exact .ok _ alike
  handlers handler given := by
    change (Kit.handler handler given).Blind Heap.Alike
    unfold Kit.handler
    split
    case h_1 => exact product_blind _
    case h_2 => exact total_blind _ _
    case h_5 | h_6 => exact fun heap heap' alike => ⟨by simp only [alike.kind], trivial⟩
    case h_14 => exact nested_blind _
    case h_3 => exact fun _ _ _ => trivial
    case h_11 => exact fun _ _ => trivial
    case h_12 => exact fun _ => trivial
    all_goals trivial

end Kit

private theorem Heap.Alike.of_private {heap : Heap} {place : Nat} {name : String} {attributes : Table Value}
    (found : heap.objects[place]? = some (.host name attributes)) (key : String)
    (hidden : Text.isPrivateName key = true) (value : Value) :
    heap.Alike (heap.set place (.host name (attributes.insert key value))) := by
  refine ⟨rfl, by simp [Heap.set], fun {other object} held => ?_⟩
  simp only [Heap.set,Array.getElem?_setIfInBounds]
  split
  · rename_i same
    subst same
    obtain ⟨inside, -⟩ := Array.getElem?_eq_some_iff.mp held
    rw [found] at held
    cases held
    refine ⟨_, if_pos inside, .inr (.host name fun other known => ?_)⟩
    have different : other ≠ key := fun same => by simp [same,hidden] at known
    rw [Table.get?_insert,if_neg different]
  · exact ⟨object, held, .inl rfl⟩

namespace Secret

/-- The kit's greeter with another secret. -/
def attributes : Table Value :=
  .insert (.ofList [("_name", .text "greeter"), ("greeting", .text "Muraho"), ("tags", .ref 15),
    ("_secret", .text "s3"), ("greet", .ref 14)]) "_secret" (.text "other")

def heap : Heap := Kit.heap.set 16 (.host "greeter" attributes)

/-- The greeter is a variable of the run. -/
def options : RunOptions := { vars := .ofList [("g", .ref 16)] }

private theorem alike : Kit.heap.Alike heap := .of_private rfl "_secret" (by simp [Text.isPrivateName]) _

end Secret

open Secret in
/-- The kit's greeter with another secret greets the same way. -/
theorem private_attributes_invisible_secret :
    let greet := execute { host := Kit.plainHost } "koresha(g, 'greet', g.greeting)" options
    Kit.heap.Alike heap ∧ (greet { heap }).1 = (greet { heap := Kit.heap }).1 :=
  ⟨alike, ((private_attributes_invisible { host := Kit.plainHost } Kit.blind).1 _ _ { heap := Kit.heap } heap
    alike).1⟩

open Secret in
/-- A template shows the secret of the greeter. -/
theorem templates_show_private_attributes :
    let shown := fun heap =>
      (execute { host := Kit.host } "koresha('\x7b0._secret\x7d', 'format', g)" options { heap }).1.map Record.results
    Kit.heap.Alike heap ∧ (shown Kit.heap).toOption = some [.text "s3"] ∧
      (shown heap).toOption = some [.text "other"] :=
  ⟨alike, by decide +kernel, by decide +kernel⟩

end Inyandiko
