import Inyandiko.Proofs.Exec

/-! Whatever cannot be read as a statement is malformed: reading lines never gives a fault of another
category. If the fault is given a line, it is one of those that were looked at to read the statement: the
statement's own, a line with a closing brace, or the line of an alternative. -/
namespace Inyandiko

open Source

/-- Readings that fail only by what is malformed. -/
def Strict {α : Type} (reading : Except Fault α) : Prop :=
  ∀ fault, reading = .error fault → fault.cause.category = .malformed

/-- Readings that fail only by what is malformed, at one of some lines if at any. -/
def Refuses {α : Type} (Looked : Line → Prop) (reading : Except Fault α) : Prop :=
  ∀ fault, reading = .error fault → fault.cause.category = .malformed ∧
    ∀ text, fault.line = some text → ∃ line, Looked line ∧ text = String.ofList line

namespace Refuses

variable {α β : Type} {Looked : Line → Prop}

private theorem strict {reading : Except Fault α} (refuses : Refuses Looked reading) : Strict reading :=
  fun fault failed => (refuses fault failed).1

private theorem ok (value : α) : Refuses Looked (.ok value) := nofun

private theorem error {cause : Cause} {line : Line} (malformed : cause.category = .malformed) (looked : Looked line) :
    Refuses Looked (.error ⟨cause, some (String.ofList line)⟩ : Except Fault α) := by
  rintro _ ⟨⟩
  refine ⟨malformed, ?_⟩
  rintro _ ⟨⟩
  exact ⟨line, looked, rfl⟩

private theorem unplaced {cause : Cause} (malformed : cause.category = .malformed) :
    Refuses Looked (.error ⟨cause, none⟩ : Except Fault α) := by
  rintro _ ⟨⟩
  exact ⟨malformed, by simp⟩

private theorem bind {first : Except Fault α} {next : α → Except Fault β} (head : Refuses Looked first)
    (tail : ∀ value, first = .ok value → Refuses Looked (next value)) : Refuses Looked (first >>= next) := by
  intro fault failed
  cases first with
  | error other =>
    cases failed
    exact head _ rfl
  | ok value => exact tail value rfl fault failed

private theorem specifiersOf (what : String) (tokens : List Text.Chars) :
    Refuses Looked (specifiersOf what tokens) := by
  induction tokens with
  | nil => exact ok _
  | cons token tokens ih =>
    unfold Inyandiko.specifiersOf
    split
    · exact unplaced rfl
    · exact ih.bind fun _ _ => ok _

private theorem specifiers (what : String) (text : Text.Chars) : Refuses Looked (parseSpecifiers what text) := by
  refine (specifiersOf what _).bind fun pairs _ => ?_
  split
  · exact unplaced rfl
  · exact ok _

variable {line : Line} (own : Looked line)
include own

private theorem functionHeader : Refuses Looked (FunctionHeader.parse line) := by
  unfold FunctionHeader.parse
  dsimp only
  split
  · exact error rfl own
  · rename_i inner _
    generalize (if Text.trim inner = [] then [] else (Text.splitOn ',' (Text.trim inner)).map Text.trim) = params
    split
    · exact error rfl own
    · split
      · exact ok _
      · exact error rfl own

private theorem loopHeader : Refuses Looked (LoopHeader.parse line) := by
  unfold LoopHeader.parse
  dsimp only
  split
  · exact error rfl own
  · split
    · exact ok _
    · split
      · exact ok _
      · exact error rfl own
    · exact error rfl own

private theorem condition : Refuses Looked (parseCondition line) := by
  unfold parseCondition
  dsimp only
  split
  · exact ok _
  · exact error rfl own

private theorem giveBack : Refuses Looked (parseReturn line) := by
  unfold parseReturn
  dsimp only
  split
  · split
    · exact error rfl own
    · exact ok _
  · exact error rfl own

private theorem takeIn : Refuses Looked (Import.parse line) := by
  unfold Import.parse
  dsimp only
  split
  · exact (specifiers _ _).bind fun _ _ => ok _
  · split
    · exact ok _
    · exact error rfl own

private theorem handOut : Refuses Looked (Export.parse line) := by
  unfold Export.parse
  dsimp only
  split
  · exact ok _
  split
  · exact ok _
  split
  · split
    · exact (specifiers _ _).bind fun _ _ => ok _
    · exact error rfl own
  · split
    · exact ok _
    · exact error rfl own

private theorem block (header : Line) (following : List Line) : Refuses Looked
    (Block.collect line header following) := by
  unfold Block.collect
  dsimp only
  split
  · exact error rfl own
  · split
    · exact ok _
    · exact error rfl own

private theorem closedBlock {header : Line} {following : List Line}
    (closing : ∀ block, Block.collect line header following = .ok block → Looked block.closing) :
    Refuses Looked (Statement.closedBlock line header following) := by
  refine (block own header following).bind fun collected found => bind ?_ fun _ _ => ok _
  unfold Statement.rejectTrailing
  split
  · exact ok _
  · exact error rfl (closing collected found)

end Refuses

/-- The lines that are looked at to read a statement from a line and those after it: the line itself, the
line that closes its block, the line of its alternative, and the line that closes the alternative's block,
where the alternative begins on the closing line or on the next one. -/
inductive Statement.Examines (line : Line) (following : List Line) : Line → Prop
  | header : Examines line following line
  | closing {block : Block} (collected : Block.collect line line following = .ok block) :
      Examines line following block.closing
  | alternative {block : Block} {next : Line} {rest : List Line}
      (collected : Block.collect line line following = .ok block) (left : block.rest = next :: rest)
      (begins : keyword? next = some .otherwise) : Examines line following next
  | closingSame {block other : Block} (collected : Block.collect line line following = .ok block)
      (follows : Block.collect block.closing (block.closing.drop (block.column + 1)) block.rest = .ok other) :
      Examines line following other.closing
  | closingNext {block other : Block} {next : Line} {rest : List Line}
      (collected : Block.collect line line following = .ok block) (left : block.rest = next :: rest)
      (begins : keyword? next = some .otherwise) (follows : Block.collect next next rest = .ok other) :
      Examines line following other.closing

namespace Refuses

variable {line : Line} {following : List Line}

private theorem otherwise {block : Block} (collected : Block.collect line line following = .ok block) :
    Refuses (Statement.Examines line following) (Statement.otherwise block) := by
  unfold Statement.otherwise
  dsimp only
  split
  · split
    · refine (closedBlock (.closing collected) fun other follows => ?_).bind fun _ _ => ok _
      exact .closingSame collected follows
    · exact error rfl (.closing collected)
  · split
    · exact ok _
    · rename_i next rest left
      split
      · exact ok _
      · rename_i begins
        rw [Decidable.not_not] at begins
        split
        · refine (closedBlock (.alternative collected left begins) fun other follows => ?_).bind fun _ _ => ok _
          exact .closingNext collected left begins follows
        · exact error rfl (.alternative collected left begins)

theorem statement (line : Line) (following : List Line) :
    Refuses (Statement.Examines line following) (Statement.read line following) := by
  have own : Statement.Examines line following line := .header
  have closed : Refuses (Statement.Examines line following) (Statement.closedBlock line line following) :=
    closedBlock own fun block collected => .closing collected
  unfold Statement.read
  split
  · exact (functionHeader own).bind fun _ _ => closed.bind fun _ _ => ok _
  · exact (loopHeader own).bind fun _ _ => closed.bind fun _ _ => ok _
  · exact (condition own).bind fun _ _ => (block own _ _).bind fun _ collected =>
      (otherwise collected).bind fun _ _ => ok _
  · exact error rfl own
  · exact (giveBack own).bind fun _ _ => ok _
  · exact (takeIn own).bind fun _ _ => ok _
  · exact (handOut own).bind fun _ _ => ok _
  · split
    · exact ok _
    · exact error rfl own
  · split
    · exact ok _
    · exact error rfl own
  · split
    · exact ok _
    · exact ok _

end Refuses

/-- The statements of lines are malformed or can be run. -/
theorem Statement.strict_items (lines : List Line) : ∀ item ∈ Statement.items lines, Strict item.statement := by
  unfold Statement.items
  generalize lines.length = count
  induction count generalizing lines with
  | zero => nofun
  | succ count ih =>
    cases lines with
    | nil => nofun
    | cons line following =>
      rw [itemsUpTo]
      split
      · exact ih following
      cases found : Statement.read line following with
      | error fault =>
        refine List.forall_mem_singleton.2 fun other same => ?_
        cases same
        exact (Refuses.statement line following).strict _ found
      | ok taken => exact List.forall_mem_cons.2 ⟨by simp [Strict], ih taken.2⟩

end Inyandiko
