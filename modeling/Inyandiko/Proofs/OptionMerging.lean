import Inyandiko.Proofs.Batch

/-! Merging of options. Options whose variables, dependencies and commands are tables, where they are given, always
merge, and it does not matter in which groups: the names of the result and of the merged tables stand in the same
order, with the same values. So a runner may be given its options in one call or in several. -/
namespace Inyandiko

private theorem Heap.empty_of_isVoid {heap : Heap} {value : Value} {entries : Table Value}
    (found : heap.entries? value = some entries) (void : heap.isVoid value = true) : entries = .empty := by
  cases value with
  | ref place =>
    have listless : heap.items? (.ref place) = none := by
      unfold entries? at found
      unfold items?
      split at found <;> simp_all
    rw [isVoid,listless,found] at void
    have none : entries.entries = [] := by simpa using void
    exact Table.ext none
  | _ => cases found

/-- The entries that a setting brings along, none if it is no table. -/
def Setting.brought (heap : Heap) (setting : Setting) : Table Value :=
  (Options.entriesOf heap setting).toOption.getD .empty

namespace Options

variable (heap : Heap)

/-- The options that are merged entry by entry are tables, where they are given. -/
def Tabular (options : Options) : Prop :=
  ∀ name ∈ mergedNames, ∀ setting, options.get? name = some setting → ∃ entries, entriesOf heap setting = .ok entries

private theorem isOk_iff {α : Type} {outcome : Except Crash α} :
    outcome.isOk = true ↔ ∃ value, outcome = .ok value := by
  cases outcome <;> simp [Except.isOk,Except.toBool]

instance (options : Options) : Decidable (Tabular heap options) :=
  decidable_of_iff
    (mergedNames.all fun name => (options.get? name).all fun setting => (entriesOf heap setting).isOk)
    (by simp only [Tabular,List.all_eq_true,Option.all_eq_true,isOk_iff])

/-- The setting of a name that had another one before, or none. -/
def combined (name : String) (old : Option Setting) (new : Setting) : Setting :=
  if name ∈ mergedNames then .table ((old.elim .empty (Setting.brought heap)).merge (new.brought heap)) else new

/-- Options with others over them. -/
def overlay (base overrides : Options) : Options :=
  base.insertAll (overrides.entries.map fun entry => (entry.1, combined heap entry.1 (base.get? entry.1) entry.2))

variable {heap}

section Overlay

private theorem brought_eq {setting : Setting} {entries : Table Value} (given : entriesOf heap setting = .ok entries) :
    setting.brought heap = entries := by
  rw [Setting.brought,given]
  rfl

private theorem baseEntries_eq {old : Option Setting}
    (tabular : ∀ setting, old = some setting → ∃ entries, entriesOf heap setting = .ok entries) :
    baseEntries heap old = .ok (old.elim .empty (Setting.brought heap)) := by
  cases old with
  | none => rfl
  | some setting =>
    obtain ⟨found, given⟩ := tabular setting rfl
    rw [Option.elim_some,brought_eq given]
    cases setting with
    | table entries => exact given
    | plain value =>
      rw [baseEntries]
      split
      · rename_i void
        rw [entriesOf] at given
        split at given
        · rename_i entries known
          cases given
          rw [heap.empty_of_isVoid known void]
        · cases given
      · exact given

private theorem overridden_eq {base overrides : Options} (below : Tabular heap base) (above : Tabular heap overrides)
    {name : String} {setting : Setting} (given : overrides.get? name = some setting) :
    overridden heap base name setting = .ok (combined heap name (base.get? name) setting) := by
  by_cases listed : name ∈ mergedNames
  · obtain ⟨entries, found⟩ := above name listed setting given
    rw [combined,if_pos listed,brought_eq found]
    unfold overridden
    split
    · cases found
    · rw [if_pos (by simpa using listed),baseEntries_eq (below name listed),found]
      rfl
  · rw [overridden_whole listed,combined,if_neg listed]

private theorem mergeEntries_eq {base : Options} (value : String → Setting → Setting)
    {entries : List (String × Setting)}
    (each : ∀ entry ∈ entries, overridden heap base entry.1 entry.2 = .ok (value entry.1 entry.2)) (merged : Options) :
    mergeEntries heap base merged entries =
      .ok (merged.insertAll (entries.map fun entry => (entry.1, value entry.1 entry.2))) := by
  induction entries generalizing merged with
  | nil => rfl
  | cons entry entries ih =>
    obtain ⟨first, later⟩ := List.forall_mem_cons.mp each
    rw [mergeEntries,first]
    exact ih later _

private theorem merge_eq_overlay {base overrides : Options} (below : Tabular heap base)
    (above : Tabular heap overrides) :
    merge heap base overrides = .ok (overlay heap base overrides) := by
  apply mergeEntries_eq fun name setting => combined heap name (base.get? name) setting
  intro entry member
  exact overridden_eq below above (overrides.get?_of_mem member)

end Overlay

section Laws

variable (heap)

private theorem nodup_combined (base overrides : Options) :
    ((overrides.entries.map fun entry =>
      (entry.1, combined heap entry.1 (base.get? entry.1) entry.2)).map (·.1)).Nodup := by
  rw [List.map_map]
  exact overrides.nodup

private theorem keys_overlay (base overrides : Options) :
    (overlay heap base overrides).keys = Table.joinKeys base.keys overrides.keys := by
  rw [overlay,Table.keys_insertAll base (nodup_combined heap base overrides),List.map_map]
  rfl

private theorem get?_overlay (base overrides : Options) (name : String) :
    (overlay heap base overrides).get? name =
      ((overrides.get? name).map (combined heap name (base.get? name))).or (base.get? name) := by
  rw [overlay,Table.get?_insertAll base (nodup_combined heap base overrides),
    Table.lookup_mapEntries fun name setting => combined heap name (base.get? name) setting]
  rfl

private theorem combined_table {name : String} (listed : name ∈ mergedNames) (old : Option Setting) (new : Setting) :
    (combined heap name old new).brought heap = (old.elim .empty (Setting.brought heap)).merge (new.brought heap) := by
  rw [combined,if_pos listed]
  rfl

private theorem combined_assoc (name : String) (first second : Option Setting) (third : Setting) :
    combined heap name ((second.map (combined heap name first)).or first) third =
      combined heap name first (combined heap name second third) := by
  by_cases listed : name ∈ mergedNames
  · have same : ((second.map (combined heap name first)).or first).elim .empty (Setting.brought heap) =
        (first.elim .empty (Setting.brought heap)).merge (second.elim .empty (Setting.brought heap)) := by
      cases second with
      | none => rfl
      | some setting => exact combined_table heap listed first setting
    rw [combined,if_pos listed,same,combined,if_pos listed,combined_table heap listed,Table.merge_assoc]
  · simp [combined,listed]

/-- Options over options over options, with their names in order, are the same in both groupings. -/
private theorem overlay_assoc (first second third : Options) :
    overlay heap (overlay heap first second) third = overlay heap first (overlay heap second third) := by
  apply Table.ext_get?
  · rw [keys_overlay,keys_overlay,keys_overlay,keys_overlay,Table.joinKeys_assoc]
  · intro name
    rw [get?_overlay,get?_overlay,get?_overlay,get?_overlay]
    cases third.get? name with
    | none => rfl
    | some setting => simp [combined_assoc]

variable {heap}

private theorem Tabular.overlay {base : Options} (below : Tabular heap base) (overrides : Options) :
    Tabular heap (overlay heap base overrides) := by
  intro name listed setting found
  rw [get?_overlay] at found
  cases given : overrides.get? name with
  | none =>
    rw [given] at found
    exact below name listed setting found
  | some new =>
    rw [given] at found
    cases found
    rw [combined,if_pos listed]
    exact ⟨_, rfl⟩

end Laws

end Options

/-- Options that are merged in groups. -/
inductive Grouping
  | alone (options : Options)
  | both (first second : Grouping)

namespace Grouping

/-- The options of a grouping, in order. -/
def parts : Grouping → List Options
  | alone options => [options]
  | both first second => first.parts ++ second.parts

/-- Merges the options of a grouping. -/
def merged : Grouping → Exec Options
  | alone options => return options
  | both first second => do Runner.merged (← first.merged) (← second.merged)

/-- The options that a grouping comes to. -/
def total (heap : Heap) : Grouping → Options
  | alone options => options
  | both first second => Options.overlay heap (first.total heap) (second.total heap)

end Grouping

/-- Gives a runner options in several calls. -/
def Runner.withAll (runner : Runner) : List Grouping → Exec Runner
  | [] => return runner
  | call :: calls => do (← runner.withOptions (← call.merged)).withAll calls

section Regrouping

open Options

variable {world : World}

private theorem Runner.merged_run {base overrides : Options} (below : Tabular world.heap base)
    (above : Tabular world.heap overrides) :
    merged base overrides world = (.ok (overlay world.heap base overrides), world) := by
  rw [merged,Exec.bind_run,Exec.get_run]
  dsimp only
  rw [Exec.liftExcept_run,merge_eq_overlay below above]
  rfl

private theorem Runner.withOptions_run {runner : Runner} {overrides : Options}
    (below : Tabular world.heap runner.options)
    (above : Tabular world.heap overrides) :
    runner.withOptions overrides world =
      (.ok { runner with options := overlay world.heap runner.options overrides }, world) := by
  rw [withOptions,Exec.bind_run,merged_run below above]
  rfl

namespace Grouping

private theorem tabular_total {group : Grouping} (tabular : ∀ part ∈ group.parts, Tabular world.heap part) :
    Tabular world.heap (group.total world.heap) := by
  induction group with
  | alone options => exact tabular options List.mem_cons_self
  | both first second one two =>
    exact (one fun part member => tabular part (List.mem_append_left _ member)).overlay _

private theorem merged_run {group : Grouping} (tabular : ∀ part ∈ group.parts, Tabular world.heap part) :
    group.merged world = (.ok (group.total world.heap), world) := by
  induction group with
  | alone options => rfl
  | both first second one two =>
    have left (part : Options) (member : part ∈ first.parts) := tabular part (List.mem_append_left _ member)
    have right (part : Options) (member : part ∈ second.parts) := tabular part (List.mem_append_right _ member)
    rw [merged,Exec.bind_run,one left]
    dsimp only
    rw [Exec.bind_run,two right]
    exact Runner.merged_run (tabular_total left) (tabular_total right)

private theorem overlay_total (heap : Heap) (base : Options) (group : Grouping) :
    overlay heap base (group.total heap) = group.parts.foldl (overlay heap) base := by
  induction group generalizing base with
  | alone options => rfl
  | both first second one two => rw [total,← overlay_assoc,one,two,parts,List.foldl_append]

end Grouping

private theorem Runner.withAll_run {runner : Runner} (below : Tabular world.heap runner.options) {calls : List Grouping}
    (tabular : ∀ part ∈ calls.flatMap Grouping.parts, Tabular world.heap part) :
    runner.withAll calls world =
      (.ok { runner with
        options := (calls.flatMap Grouping.parts).foldl (overlay world.heap) runner.options }, world) := by
  induction calls generalizing runner with
  | nil => rfl
  | cons call calls ih =>
    rw [List.flatMap_cons,List.forall_mem_append] at tabular
    rw [withAll,Exec.bind_run,Grouping.merged_run tabular.1]
    dsimp only
    rw [Exec.bind_run,withOptions_run below (Grouping.tabular_total tabular.1)]
    dsimp only
    rw [ih (below.overlay _) tabular.2,Grouping.overlay_total,List.flatMap_cons,List.foldl_append]

private theorem Runner.execute_congr {runner : Runner} {base overrides others : Options}
    (same : Options.merge world.heap base overrides = Options.merge world.heap runner.options others)
    (source : String) :
    { runner with options := base }.execute source overrides world = runner.execute source others world := by
  have merges : Runner.merged base overrides world = Runner.merged runner.options others world := by
    simp only [Runner.merged,Exec.bind_run,Exec.get_run,Exec.liftExcept_run,same]
  rw [execute,Exec.bind_run,merges,execute,Exec.bind_run]

/-- Options whose variables, dependencies and commands are tables, where they are given, merge to the same, with their
names and those of the merged tables in the same order, in both groupings. So a script has the same outcome with
options that the runner is given before the run or that are merged with those of the run, and calls that give a runner
options can be regrouped in any way. -/
theorem options_compose (world : World) (runner : Runner) (below : Tabular world.heap runner.options) :
    (∀ first second, Tabular world.heap first → Tabular world.heap second →
      (∃ once more all, merge world.heap runner.options first = .ok once ∧ merge world.heap once second = .ok all ∧
        merge world.heap first second = .ok more ∧ merge world.heap runner.options more = .ok all) ∧
      ∀ source, (do (← runner.withOptions first).execute source second : Exec Record) world =
        (do runner.execute source (← Runner.merged first second) : Exec Record) world) ∧
    ∀ calls others : List Grouping, (∀ part ∈ calls.flatMap Grouping.parts, Tabular world.heap part) →
      calls.flatMap Grouping.parts = others.flatMap Grouping.parts →
      ∃ derived, runner.withAll calls world = (.ok derived, world) ∧
        runner.withAll others world = (.ok derived, world) := by
  constructor
  · intro first second one two
    have once := merge_eq_overlay below one
    have more := merge_eq_overlay one two
    have left := merge_eq_overlay (below.overlay first) two
    have right := merge_eq_overlay below (one.overlay second)
    rw [overlay_assoc] at left
    refine ⟨⟨_, _, _, once, left, more, right⟩, fun source => ?_⟩
    rw [Exec.bind_run,Exec.bind_run,Runner.withOptions_run below one,Runner.merged_run one two]
    exact Runner.execute_congr (left.trans right.symm) source
  · intro calls others tabular same
    exact ⟨_, Runner.withAll_run below tabular, by rw [Runner.withAll_run below (same ▸ tabular),same]⟩

end Regrouping

/-- A table in the heap under two others, which repeat some of its names and of each other's, beside an option that is
replaced, and by nothing at last. -/
theorem options_compose_repeated :
    let world : World := { heap := { objects := #[.dict (.ofList [("a", .int 1), ("b", .int 2)])] } }
    let runner : Runner := { setup := { host := Kit.host }, options := .ofList [("variables", .plain (.ref 0))] }
    let first : Options := .ofList [("stop_on_validation_fail", .plain (.bool false)),
      ("variables", .table (.ofList [("c", .int 3), ("b", .int 4)]))]
    let second : Options := .ofList [("commands", .table .empty),
      ("variables", .table (.ofList [("d", .int 5), ("c", .int 6)])), ("stop_on_validation_fail", .plain .null)]
    (∃ once more all, Options.merge world.heap runner.options first = .ok once ∧
      Options.merge world.heap once second = .ok all ∧ Options.merge world.heap first second = .ok more ∧
      Options.merge world.heap runner.options more = .ok all ∧
      all.keys = ["variables", "stop_on_validation_fail", "commands"] ∧
      (all.get? "variables").map (fun setting => (setting.brought world.heap).entries) =
        some [("a", .int 1), ("b", .int 4), ("c", .int 6), ("d", .int 5)]) ∧
    (do (← runner.withOptions first).execute "andika(c)" second : Exec Record) world =
      (do runner.execute "andika(c)" (← Runner.merged first second) : Exec Record) world ∧
    ∃ derived, runner.withAll [.alone first, .both (.alone second) (.alone first)] world = (.ok derived, world) ∧
      runner.withAll [.both (.alone first) (.alone second), .alone first] world = (.ok derived, world) := by
  intro world runner first second
  have below : Options.Tabular world.heap runner.options := by decide
  have one : Options.Tabular world.heap first := by decide
  have two : Options.Tabular world.heap second := by decide
  obtain ⟨merges, regroups⟩ := options_compose world runner below
  obtain ⟨⟨once, more, all, left, whole, right, again⟩, runs⟩ := merges first second one two
  refine ⟨⟨once, more, all, left, whole, right, again, ?_, ?_⟩, runs "andika(c)", regroups _ _ ?_ rfl⟩
  · cases left
    cases whole
    rfl
  · cases left
    cases whole
    rfl
  · intro part member
    have parts : part = first ∨ part = second ∨ part = first := by simpa [Grouping.parts] using member
    rcases parts with rfl | rfl | rfl
    · exact one
    · exact two
    · exact one

end Inyandiko
