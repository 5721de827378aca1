import Inyandiko.Proofs.Answers
import Inyandiko.Proofs.Program.Line
import Mathlib.Logic.Relation

/-! The script files of the service. What a client's name stands for is said by rewriting: from the path that it
writes, the parts that stay and the detours are taken out, until only components are left. Following the name part by
part comes to the same location. The service opens a file there only if the location lies below the script root, and
what stands elsewhere has no influence on its answers. -/
namespace Inyandiko

open Text Relation

namespace Location

variable {root location : Location} {path shorter : List String} {part name : String}

/-- A part of a path that leads down, to something that is named like it. -/
def IsComponent (part : String) : Prop := part ≠ "" ∧ part ≠ "." ∧ part ≠ ".."

instance : Decidable (IsComponent part) := inferInstanceAs (Decidable (_ ∧ _ ∧ _))

/-- A part that stays is taken out of a path, or a component together with the two dots that follow it. -/
inductive Shortens : List String → List String → Prop
  | stay (front back : List String) {part : String} (stays : part = "" ∨ part = ".") :
    Shortens (front ++ part :: back) (front ++ back)
  | detour (front back : List String) {part : String} (component : IsComponent part) :
    Shortens (front ++ part :: ".." :: back) (front ++ back)

/-- The location that a path from the top comes to. Two dots that nothing takes out stand at the top, which nothing
lies above. -/
def ComesTo (path : List String) (location : Location) : Prop :=
  (∀ part ∈ location, IsComponent part) ∧
    ∃ ups, ReflTransGen Shortens path (List.replicate ups ".." ++ location)

/-- The path from the top that a name writes, seen from a directory. -/
def written (directory : Location) (name : String) : List String := start directory name ++ parts name

/-- A location below another one, component by component. -/
def LiesBelow (root location : Location) : Prop := ∃ below, below ≠ [] ∧ location = root ++ below

/-- A location whose last component has the suffix of scripts after something else. -/
def IsScript (location : Location) : Prop :=
  ∃ directory stem, stem ≠ "" ∧ location = directory ++ [stem ++ ".ikw"]

private theorem follow_stay (stays : part = "" ∨ part = ".") (location : Location) :
    location.follow part = location := by
  rcases stays with rfl | rfl <;> simp [follow]

private theorem follow_up (location : Location) : location.follow ".." = location.dropLast := by
  simp [follow]

private theorem follow_component (component : IsComponent part) (location : Location) :
    location.follow part = location ++ [part] := by
  simp [follow,component.1,component.2.1,component.2.2]

private theorem foldl_follow_components {below : List String} (components : ∀ part ∈ below, IsComponent part)
    (location : Location) : below.foldl follow location = location ++ below := by
  induction below generalizing location with
  | nil => simp
  | cons part below ih =>
    rw [List.foldl_cons,follow_component (components part List.mem_cons_self)]
    rw [ih (fun other member => components other (List.mem_cons_of_mem _ member)),List.append_assoc]
    rfl

private theorem foldl_follow_ups (ups : Nat) : (List.replicate ups "..").foldl follow [] = [] := by
  induction ups with
  | zero => rfl
  | succ ups ih =>
    rw [List.replicate_succ,List.foldl_cons,follow_up]
    exact ih

private theorem Shortens.foldl_eq (shortens : Shortens path shorter) (location : Location) :
    path.foldl follow location = shorter.foldl follow location := by
  cases shortens with
  | stay front back stays => rw [List.foldl_append,List.foldl_cons,follow_stay stays,List.foldl_append]
  | detour front back component =>
    rw [List.foldl_append,List.foldl_cons,List.foldl_cons,follow_component component,follow_up]
    rw [List.dropLast_concat,List.foldl_append]

private theorem foldl_follow_shortened (shortened : ReflTransGen Shortens path shorter) (location : Location) :
    path.foldl follow location = shorter.foldl follow location := by
  induction shortened with
  | refl => rfl
  | tail _ last ih => rw [ih,last.foldl_eq]

private theorem isComponent_or (part : String) : (part = "" ∨ part = ".") ∨ part = ".." ∨ IsComponent part := by
  by_cases stays : part = "" ∨ part = "."
  · exact .inl stays
  · by_cases up : part = ".."
    · exact .inr (.inl up)
    · exact .inr (.inr ⟨fun empty => stays (.inl empty), fun dot => stays (.inr dot), up⟩)

/-- What is followed so far is components after two dots at the top, and the rest of the path can be taken in. -/
private theorem shortens_follow (path : List String) {location : Location}
    (components : ∀ part ∈ location, IsComponent part)
    (ups : Nat) : (∀ part ∈ path.foldl follow location, IsComponent part) ∧ ∃ more,
      ReflTransGen Shortens (List.replicate ups ".." ++ location ++ path)
        (List.replicate more ".." ++ path.foldl follow location) := by
  induction path generalizing location ups with
  | nil => exact ⟨components, ups, by rw [List.append_nil]; exact .refl⟩
  | cons part path ih =>
    rw [List.foldl_cons]
    rcases isComponent_or part with stays | rfl | component
    · rw [follow_stay stays]
      obtain ⟨kept, more, rest⟩ := ih components ups
      exact ⟨kept, more, .head (.stay _ _ stays) rest⟩
    · rw [follow_up]
      rcases List.eq_nil_or_concat location with rfl | ⟨front, last, rfl⟩
      · obtain ⟨kept, more, rest⟩ := ih components (ups + 1)
        refine ⟨kept, more, ?_⟩
        rw [List.replicate_succ'] at rest
        simpa using rest
      · have below : ∀ part ∈ front, IsComponent part := fun other member => components other (by simp [member])
        rw [List.concat_eq_append,List.dropLast_concat]
        obtain ⟨kept, more, rest⟩ := ih below ups
        refine ⟨kept, more, .head ?_ rest⟩
        have detour := Shortens.detour (List.replicate ups ".." ++ front) path (components last (by simp))
        simpa using detour
    · rw [follow_component component]
      have longer : ∀ other ∈ location ++ [part], IsComponent other := by
        intro other member
        rcases List.mem_append.mp member with inside | here
        · exact components other inside
        · rw [List.mem_singleton.mp here]
          exact component
      obtain ⟨kept, more, rest⟩ := ih longer ups
      exact ⟨kept, more, by simpa using rest⟩

private theorem comesTo_iff : ComesTo path location ↔ location = path.foldl follow [] := by
  constructor
  · rintro ⟨components, ups, shortened⟩
    rw [foldl_follow_shortened shortened,List.foldl_append,foldl_follow_ups,foldl_follow_components components]
    rfl
  · rintro rfl
    have none_yet : ∀ part ∈ ([] : Location), IsComponent part := by simp
    exact shortens_follow path none_yet 0

private theorem written_comesTo_iff (normal : ∀ part ∈ root, IsComponent part) :
    ComesTo (written root name) location ↔ location = resolve root name := by
  have begin : (start root name).foldl follow [] = start root name := by
    rw [start]
    split
    · rfl
    · exact foldl_follow_components normal []
  rw [comesTo_iff,written,List.foldl_append,begin,resolve]

/-- A relative name leads below the directory, along what its parts can be shortened to. -/
private theorem resolve_shortened (relative : isAbsolute name = false) {below : List String}
    (components : ∀ part ∈ below, IsComponent part) (shortened : ReflTransGen Shortens (parts name) below) :
    resolve root name = root ++ below := by
  rw [resolve,start,relative,foldl_follow_shortened shortened,foldl_follow_components components]
  rfl

private theorem afterDot_eq_iff {text extension : Chars} (dotless : '.' ∉ extension)
    (long : extension.length < text.length) :
    text.reverse.takeWhile (· ≠ '.') = extension.reverse ↔ ∃ stem, text = stem ++ '.' :: extension := by
  constructor
  · intro tail
    have parted := @List.takeWhile_append_dropWhile _ (fun c => decide (c ≠ '.')) text.reverse
    have first := List.head?_dropWhile_not (fun c => decide (c ≠ '.')) text.reverse
    rcases rest : text.reverse.dropWhile (fun c => decide (c ≠ '.')) with _ | ⟨dot, stem⟩
    · rw [tail,rest,List.append_nil,List.reverse_inj] at parted
      exact absurd long (by simp [parted])
    · rw [tail,rest] at parted
      rw [rest] at first
      have here : dot = '.' := by simpa using first
      exact ⟨stem.reverse, by simpa [here] using (congrArg List.reverse parted).symm⟩
  · rintro ⟨stem, rfl⟩
    have plain : ∀ c ∈ extension.reverse, decide (c ≠ '.') = true := fun c member =>
      decide_eq_true fun dot => dotless (dot ▸ List.mem_reverse.mp member)
    rw [List.reverse_append,List.reverse_cons,List.append_assoc,List.takeWhile_append_of_pos plain]
    simp

private theorem suffixOf_eq_iff {extension : Chars} (some_ : extension ≠ []) (dotless : '.' ∉ extension)
    (component : String) : suffixOf component = String.ofList ('.' :: extension) ↔
      ∃ stem, stem ≠ "" ∧ component = stem ++ String.ofList ('.' :: extension) := by
  rw [suffixOf,← String.length_toList]
  constructor
  · intro same
    split at same
    · exact absurd (congrArg String.toList same) (by simp)
    · rename_i long
      have tail : component.toList.reverse.takeWhile (· ≠ '.') = extension.reverse := by
        rw [← List.reverse_inj,List.reverse_reverse]
        simpa using congrArg String.toList same
      simp only [tail,List.length_reverse,Bool.or_eq_true,decide_eq_true_eq,not_or] at long
      obtain ⟨stem, whole⟩ := (afterDot_eq_iff dotless (by omega)).mp tail
      refine ⟨String.ofList stem, ?_, String.toList_inj.mp (by simpa using whole)⟩
      rintro empty
      have none_ : stem = [] := by simpa using congrArg String.toList empty
      exact long.2 (by simp [whole,none_])
  · rintro ⟨stem, stemmed, rfl⟩
    have some_stem : stem.toList ≠ [] := fun none_ => stemmed (String.toList_eq_nil_iff.mp none_)
    have long := List.length_pos_iff.mpr some_stem
    have tail : (stem.toList ++ '.' :: extension).reverse.takeWhile (· ≠ '.') = extension.reverse :=
      (afterDot_eq_iff dotless (by rw [List.length_append,List.length_cons]; omega)).mpr ⟨_, rfl⟩
    rw [String.toList_append,String.toList_ofList,tail,if_neg,List.reverse_reverse]
    rw [Bool.or_eq_true,List.isEmpty_iff,List.reverse_eq_nil_iff,decide_eq_true_eq]
    rintro (none_ | short)
    · exact some_ none_
    · rw [List.length_append,List.length_cons,List.length_reverse] at short
      omega

private theorem suffix_eq_iff (location : Location) : location.suffix = scriptSuffix ↔ IsScript location := by
  have spelled : ∀ component, suffixOf component = scriptSuffix ↔ ∃ stem, stem ≠ "" ∧ component = stem ++ ".ikw" :=
    @suffixOf_eq_iff ['i', 'k', 'w'] (by decide) (by decide)
  rw [suffix,IsScript]
  rcases List.eq_nil_or_concat location with rfl | ⟨directory, last, rfl⟩
  · simp [scriptSuffix]
  · rw [List.concat_eq_append,List.getLast?_concat,Option.map_some,Option.getD_some,spelled]
    constructor
    · rintro ⟨stem, some_, rfl⟩
      exact ⟨directory, stem, some_, rfl⟩
    · rintro ⟨_, stem, some_, same⟩
      exact ⟨stem, some_, by simpa using (List.append_inj' same rfl).2⟩

private theorem IsScript.append {below : Location} (script : IsScript below) (root : Location) : IsScript
    (root ++ below) := by
  obtain ⟨directory, stem, some_, rfl⟩ := script
  exact ⟨root ++ directory, stem, some_, by rw [List.append_assoc]⟩

private theorem IsScript.ne_nil (script : IsScript location) : location ≠ [] := by
  obtain ⟨directory, stem, _, rfl⟩ := script
  simp

private theorem parts_intercalate {below : List String} (some_ : below ≠ [])
    (slashless : ∀ part ∈ below, '/' ∉ part.toList) :
    parts ("/".intercalate below) = below := by
  induction below with
  | nil => exact absurd rfl some_
  | cons part below ih =>
    have here := slashless part List.mem_cons_self
    cases below with
    | nil =>
      rw [String.intercalate_singleton,parts,splitOn_piece here]
      simp
    | cons next below =>
      have later := ih (by simp) fun other member => slashless other (List.mem_cons_of_mem _ member)
      rw [String.intercalate_cons_cons,parts,String.toList_append,String.toList_append,List.append_assoc]
      rw [show "/".toList = ['/'] from rfl,List.singleton_append,splitOn_append here,List.map_cons]
      rw [String.ofList_toList]
      exact congrArg _ later

private theorem mem_intercalate {below : List String} {c : Char} (member : c ∈ ("/".intercalate below).toList) :
    c = '/' ∨ ∃ part ∈ below, c ∈ part.toList := by
  induction below with
  | nil => simp at member
  | cons part below ih =>
    cases below with
    | nil => exact .inr ⟨part, List.mem_cons_self, by simpa using member⟩
    | cons next below =>
      rw [String.intercalate_cons_cons,String.toList_append,String.toList_append,List.mem_append,List.mem_append] at member
      rcases member with (here | slash) | later
      · exact .inr ⟨part, List.mem_cons_self, here⟩
      · exact .inl (by simpa using slash)
      · rcases ih later with slash | ⟨other, listed, inside⟩
        · exact .inl slash
        · exact .inr ⟨other, List.mem_cons_of_mem _ listed, inside⟩

private theorem head?_parts (absolute : isAbsolute name = true) : (parts name).head? = some "" := by
  rw [isAbsolute,decide_eq_true_eq] at absolute
  obtain ⟨rest, same⟩ := List.head?_eq_some_iff.mp absolute
  rw [parts,same]
  have apart := @splitOn_append '/' [] (by simp) rest
  rw [List.nil_append] at apart
  rw [apart]
  rfl

private theorem isAbsolute_intercalate {below : List String} (some_ : below ≠ [])
    (slashless : ∀ part ∈ below, '/' ∉ part.toList) (components : ∀ part ∈ below, IsComponent part) :
    isAbsolute ("/".intercalate below) = false := by
  rw [Bool.eq_false_iff]
  intro absolute
  have first := head?_parts absolute
  rw [parts_intercalate some_ slashless] at first
  exact (components "" (List.mem_of_head? first)).1 rfl

end Location

section Scripts

variable {tree other : FileTree} {root location : Location} {name : String} {bytes : List UInt8}

/-- The script file that a name leads to from a script root. -/
structure Leads (tree : FileTree) (root : Location) (name : String) (location : Location) (bytes : List UInt8) :
    Prop where
  comes : Location.ComesTo (root.written name) location
  below : root.LiesBelow location
  script : location.IsScript
  file : tree.file? location = some bytes

private theorem isWithin_iff : root.isWithin location = true ↔ ∃ below, root ++ below = location := by
  rw [Location.isWithin,List.isPrefixOf_iff_prefix]
  rfl

private theorem resolveScript_passes : resolveScript tree root name = .ok (location, bytes) ↔
    '\x00' ∉ name.toList ∧ location = root.resolve name ∧ location.suffix = scriptSuffix ∧
      root.isWithin location = true ∧ tree.file? location = some bytes := by
  rw [resolveScript]
  constructor
  · intro found
    grind
  · rintro ⟨clean, rfl, script, within, file⟩
    simp [clean,script,within,file]

/-- A script file is handed out exactly if a name without null characters leads to it. -/
private theorem resolveScript_eq_ok_iff (normal : ∀ part ∈ root, Location.IsComponent part)
    (directory : tree.file? root = none) : resolveScript tree root name = .ok (location, bytes) ↔
      '\x00' ∉ name.toList ∧ Leads tree root name location bytes := by
  rw [resolveScript_passes,Location.suffix_eq_iff,isWithin_iff,← Location.written_comesTo_iff normal]
  constructor
  · rintro ⟨clean, comes, script, ⟨below, rfl⟩, file⟩
    refine ⟨clean, comes, ⟨below, ?_, rfl⟩, script, file⟩
    rintro rfl
    rw [List.append_nil,directory] at file
    cases file
  · rintro ⟨clean, comes, ⟨below, _, same⟩, script, file⟩
    exact ⟨clean, comes, script, ⟨below, same.symm⟩, file⟩

section Found

variable {below : Location} (normal : ∀ part ∈ root, Location.IsComponent part) (directory : tree.file? root = none)
  (components : ∀ part ∈ below, Location.IsComponent part) (script : below.IsScript)
  (file : tree.file? (root ++ below) = some bytes)

include normal directory components script file

private theorem resolveScript_shortened (relative : Location.isAbsolute name = false) (clean : '\x00' ∉ name.toList)
    (shortened : ReflTransGen Location.Shortens (Location.parts name) below) :
    resolveScript tree root name = .ok (root ++ below, bytes) := by
  rw [resolveScript_eq_ok_iff normal directory]
  refine ⟨clean, ?_, ⟨below, script.ne_nil, rfl⟩, script.append root, file⟩
  rw [Location.written_comesTo_iff normal,Location.resolve_shortened relative components shortened]

private theorem resolveScript_intercalate (letters : ∀ part ∈ below, '/' ∉ part.toList ∧ '\x00' ∉ part.toList) :
    resolveScript tree root ("/".intercalate below) = .ok (root ++ below, bytes) := by
  have slashless : ∀ part ∈ below, '/' ∉ part.toList := fun part member => (letters part member).1
  have clean : '\x00' ∉ ("/".intercalate below).toList := by
    intro null
    rcases Location.mem_intercalate null with slash | ⟨part, member, inside⟩
    · exact absurd slash (by decide)
    · exact (letters part member).2 inside
  have relative := Location.isAbsolute_intercalate script.ne_nil slashless components
  apply resolveScript_shortened normal directory components script file relative clean
  rw [Location.parts_intercalate script.ne_nil slashless]

end Found

private theorem resolveScript_congr (directory : tree.file? root = none) (also : other.file? root = none)
    (agree : ∀ below, below ≠ [] → other.file? (root ++ below) = tree.file? (root ++ below)) (name : String) :
    resolveScript other root name = resolveScript tree root name := by
  rw [resolveScript,resolveScript]
  dsimp only
  by_cases within : root.isWithin (root.resolve name) = true
  · obtain ⟨below, reached⟩ := isWithin_iff.mp within
    have same : other.file? (root.resolve name) = tree.file? (root.resolve name) := by
      rw [← reached]
      by_cases empty : below = []
      · rw [empty,List.append_nil,also,directory]
      · exact agree below empty
    rw [same]
  · simp only [within,Bool.not_false,if_true]

namespace Service

variable {request : RunRequest}

/-- Without a script file there is no script to run: the answer says so, and nothing happens. -/
private theorem handle_unresolved (codeless : request.code = none) (named : request.file = some name)
    {error : PathError}
    (unresolved : resolveScript tree root name = .error error) (setup : Setup) (world : World) :
    handle setup tree root request world = (.ok (failure (
      if name = "" then problem "BAD_REQUEST" "Provide either code or file."
      else problem "FILE_ERROR" error.message)), world) := by
  have unread : readScript tree root name = .error error := by
    rw [readScript,unresolved]
    rfl
  rw [handle_run,source,codeless,named]
  by_cases empty : name = ""
  · subst empty
    rfl
  · simp only [unread,if_neg empty]

private theorem source_congr (same : ∀ name, resolveScript other root name = resolveScript tree root name)
    (request : RunRequest) : source other root request = source tree root request := by
  simp only [source,readScript,same]

end Service

end Scripts

/-- Every name writes a path that comes to one location. The service hands out the file there exactly if it is a
script below the root, and so every script below the root, by its name or with detours. For any other name it answers
with an error and does nothing, and no file outside the root has an influence on any answer. -/
theorem script_files_lie_below_root {root : Location} (normal : ∀ part ∈ root, Location.IsComponent part)
    {tree : FileTree} (directory : tree.file? root = none) :
    (∀ name, ∃ location, Location.ComesTo (root.written name) location ∧
      ∀ other, Location.ComesTo (root.written name) other → other = location) ∧
    (∀ name location bytes, resolveScript tree root name = .ok (location, bytes) ↔
      '\x00' ∉ name.toList ∧ Leads tree root name location bytes) ∧
    (∀ below bytes, (∀ part ∈ below, Location.IsComponent part) → Location.IsScript below →
      tree.file? (root ++ below) = some bytes →
      ((∀ part ∈ below, '/' ∉ part.toList ∧ '\x00' ∉ part.toList) →
        resolveScript tree root ("/".intercalate below) = .ok (root ++ below, bytes)) ∧
      ∀ name, Location.isAbsolute name = false → '\x00' ∉ name.toList →
        Relation.ReflTransGen Location.Shortens (Location.parts name) below →
        resolveScript tree root name = .ok (root ++ below, bytes)) ∧
    (∀ name, (∀ location bytes, '\x00' ∉ name.toList → ¬Leads tree root name location bytes) →
      ∃ error, resolveScript tree root name = .error error ∧
        ∀ setup request world, request.code = none → request.file = some name →
          Service.handle setup tree root request world = (.ok (Service.failure (
            if name = "" then Service.problem "BAD_REQUEST" "Provide either code or file."
            else Service.problem "FILE_ERROR" error.message)), world)) ∧
    ∀ other : FileTree, other.file? root = none →
      (∀ below, below ≠ [] → other.file? (root ++ below) = tree.file? (root ++ below)) →
      ∀ setup request world,
        Service.handle setup other root request world = Service.handle setup tree root request world := by
  refine ⟨?_, ?_, ?_, ?_, ?_⟩
  · intro name
    exact ⟨root.resolve name, (Location.written_comesTo_iff normal).mpr rfl,
      fun _ => (Location.written_comesTo_iff normal).mp⟩
  · intro name location bytes
    exact resolveScript_eq_ok_iff normal directory
  · intro below bytes components script file
    exact ⟨resolveScript_intercalate normal directory components script file,
      fun _ => resolveScript_shortened normal directory components script file⟩
  · intro name astray
    rcases resolved : resolveScript tree root name with error | ⟨location, bytes⟩
    · exact ⟨error, rfl, fun setup request world codeless named =>
        Service.handle_unresolved codeless named resolved setup world⟩
    · obtain ⟨clean, leads⟩ := (resolveScript_eq_ok_iff normal directory).mp resolved
      exact absurd leads (astray location bytes clean)
  · intro other also agree setup request world
    rw [Service.handle_run,Service.handle_run,Service.source_congr (resolveScript_congr directory also agree)]

namespace ScriptHome

/-- A script root beside a directory whose name begins like the root's. -/
def root : Location := ["srv", "app"]

/-- A script in each of the two directories, and a file below the root that has nothing before its dot. -/
def tree : FileTree :=
  ⟨[(root ++ ["a", "x.ikw"], .file [49]), (root ++ [".ikw"], .file [50]), (["srv", "app2", "x.ikw"], .file [51]),
    (root, .directory)]⟩

end ScriptHome

/-- A script is reached by its name and by a detour through a directory that does not exist; the script beside the
root is not reached. -/
theorem script_files_lie_below_root_siblings :
    (∀ part ∈ ScriptHome.root, Location.IsComponent part) ∧ ScriptHome.tree.file? ScriptHome.root = none ∧
    resolveScript ScriptHome.tree ScriptHome.root "a/x.ikw" = .ok (ScriptHome.root ++ ["a", "x.ikw"], [49]) ∧
    resolveScript ScriptHome.tree ScriptHome.root "b/.././a//x.ikw" =
      .ok (ScriptHome.root ++ ["a", "x.ikw"], [49]) ∧
    (∀ bytes, ¬Leads ScriptHome.tree ScriptHome.root ".ikw" (ScriptHome.root ++ [".ikw"]) bytes) ∧
    Service.handle {} ScriptHome.tree ScriptHome.root { file := some "../app2/x.ikw" } {} =
      (.ok (Service.failure (Service.problem "FILE_ERROR" "Script path escapes the script root: ../app2/x.ikw")), {}) := by
  have normal : ∀ part ∈ ScriptHome.root, Location.IsComponent part := by decide
  have directory : ScriptHome.tree.file? ScriptHome.root = none := by decide
  obtain ⟨_, resolves, finds, refuses, _⟩ := script_files_lie_below_root normal directory
  have script : Location.IsScript ["a", "x.ikw"] := ⟨["a"], "x", by decide, by decide⟩
  obtain ⟨named, shortened⟩ := finds ["a", "x.ikw"] [49] (by decide) script (by decide)
  refine ⟨normal, directory, named (by decide), ?_, ?_, ?_⟩
  · apply shortened "b/.././a//x.ikw" (by decide) (by decide)
    have parts : Location.parts "b/.././a//x.ikw" = ["b", "..", ".", "a", "", "x.ikw"] := by decide
    rw [parts]
    refine .head (.detour [] [".", "a", "", "x.ikw"] (by decide)) ?_
    refine .head (.stay [] ["a", "", "x.ikw"] (.inr rfl)) ?_
    exact .single (.stay ["a"] ["x.ikw"] (.inl rfl))
  · intro bytes leads
    have resolved := (resolves ".ikw" _ bytes).mpr ⟨by decide, leads⟩
    have refused : (resolveScript ScriptHome.tree ScriptHome.root ".ikw").isOk = false := by decide
    rw [resolved] at refused
    cases refused
  · have refused : resolveScript ScriptHome.tree ScriptHome.root "../app2/x.ikw" =
        .error (.outsideRoot "../app2/x.ikw") := rfl
    have astray : ∀ location bytes, '\x00' ∉ "../app2/x.ikw".toList →
        ¬Leads ScriptHome.tree ScriptHome.root "../app2/x.ikw" location bytes := by
      intro location bytes clean leads
      have resolved := (resolves _ _ _).mpr ⟨clean, leads⟩
      rw [refused] at resolved
      cases resolved
    obtain ⟨error, same, answers⟩ := refuses "../app2/x.ikw" astray
    rw [refused] at same
    cases same
    exact answers {} { file := some "../app2/x.ikw" } {} rfl rfl

/-- The empty name leads to no file, and yet the answer is not an error about files. A detour through a name with a null
character leads to a script that is not handed out. -/
theorem empty_name_is_no_file_error :
    resolveScript ScriptHome.tree ScriptHome.root "" = .error (.wrongSuffix "") ∧
    (Service.handle {} ScriptHome.tree ScriptHome.root { file := some "" } {}).1 =
      .ok (Service.failure (Service.problem "BAD_REQUEST" "Provide either code or file.")) ∧
    Leads ScriptHome.tree ScriptHome.root "\x00/../a/x.ikw" (ScriptHome.root ++ ["a", "x.ikw"]) [49] ∧
    resolveScript ScriptHome.tree ScriptHome.root "\x00/../a/x.ikw" = .error .nullInName := by
  refine ⟨rfl, rfl, ⟨?_, ?_, ?_, by decide⟩, rfl⟩
  · rw [Location.comesTo_iff]
    decide
  · exact ⟨["a", "x.ikw"], by decide, rfl⟩
  · exact ⟨ScriptHome.root ++ ["a"], "x", by decide, by decide⟩

end Inyandiko
