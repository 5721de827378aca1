import Inyandiko.Proofs.Semicolon

/-! Reading lines and the same lines tidied. The statements are the same but for the semicolons inside their
blocks, and what cannot be read is refused for the same reason; only the texts that are quoted differ. -/
namespace Inyandiko

open Text Source

/-- A cause without the text of the statement that its message quotes. -/
def Cause.unquoted : Cause → Cause
  | .expectedBlock _ => .expectedBlock ""
  | .unclosedBlock _ => .unclosedBlock ""
  | .badReturn _ => .badReturn ""
  | .badImport _ => .badImport ""
  | .badExport _ => .badExport ""
  | .textAfterBlock _ => .textAfterBlock ""
  | .badDeclaration _ => .badDeclaration ""
  | .badStatement _ => .badStatement ""
  | cause => cause

/-- A fault without texts of statements. -/
def Fault.unquoted (fault : Fault) : Fault := ⟨fault.cause.unquoted, fault.line.map fun _ => ""⟩

/-- What two computations come to: results that are related, or errors that are. -/
inductive Outcomes {ε α β : Type} (Failures : ε → ε → Prop) (Results : α → β → Prop) :
    Except ε α → Except ε β → Prop
  | ok {one : α} {two : β} (related : Results one two) : Outcomes Failures Results (.ok one) (.ok two)
  | error {one two : ε} (related : Failures one two) : Outcomes Failures Results (.error one) (.error two)

private theorem Outcomes.bind {ε α β γ δ : Type} {Failures : ε → ε → Prop} {Middle : α → β → Prop}
    {Results : γ → δ → Prop} {first : Except ε α} {first' : Except ε β} {next : α → Except ε γ}
    {next' : β → Except ε δ} (head : Outcomes Failures Middle first first')
    (tail : ∀ one two, Middle one two → Outcomes Failures Results (next one) (next' two)) :
    Outcomes Failures Results (first >>= next) (first' >>= next') := by
  cases head with
  | ok related => exact tail _ _ related
  | error related => exact .error related

/-- Faults that differ in quoted texts only. -/
def Fault.Alike (one two : Fault) : Prop := two.unquoted = one.unquoted

/-- Readings with related results, or with the same fault but for the texts it quotes. -/
abbrev Readings {α β : Type} (Results : α → β → Prop) : Except Fault α → Except Fault β → Prop :=
  Outcomes Fault.Alike Results

private theorem Readings.refl {α : Type} (reading : Except Fault α) : Readings Eq reading reading := by
  cases reading with
  | ok value => exact .ok rfl
  | error fault => exact .error rfl

section Texts

variable {plain line : Line} (reads : Reads plain line)
include reads

theorem Source.Reads.call : Call.parse? line = Call.parse? plain := by simp only [Call.parse?,reads.text]

private theorem Source.Reads.assignment : Assignment.parse? line = Assignment.parse? plain := by
  simp only [Assignment.parse?,reads.text]

private theorem Source.Reads.declaration : Declaration.parse? line = Declaration.parse? plain := by
  simp only [Declaration.parse?,reads.text]

private theorem Readings.giveBack : Readings Eq (parseReturn line) (parseReturn plain) := by
  simp only [parseReturn,reads.text]
  split
  · split
    · exact .error rfl
    · exact .ok rfl
  · exact .error rfl

private theorem Readings.takeIn : Readings Eq (Import.parse line) (Import.parse plain) := by
  simp only [Import.parse,reads.text]
  split
  · exact .refl _
  · split
    · exact .ok rfl
    · exact .error rfl

private theorem Readings.handOut : Readings Eq (Export.parse line) (Export.parse plain) := by
  simp only [Export.parse,reads.text]
  generalize trim ((stripSemicolon (trim plain)).drop "export".length) = body
  cases Declaration.parse? body with
  | some declared => exact .ok rfl
  | none =>
    cases Assignment.parse? body with
    | some assigned => exact .ok rfl
    | none =>
      dsimp only
      split
      · split
        · exact .refl _
        · exact .error rfl
      · split
        · exact .ok rfl
        · exact .error rfl

end Texts

/-- Blocks with the same lines, but for semicolons, and with the same text behind them. -/
structure Block.Like (block other : Block) : Prop where
  body : other.body.map tidy = block.body.map tidy
  trailing : stripSemicolon other.trailing = stripSemicolon block.trailing
  opened : braceDelta (other.closing.drop (other.column + 1)) = braceDelta (block.closing.drop (block.column + 1))
  rest : other.rest = block.rest.map tidy

private theorem Block.collectOpen_tidy (depth : Int) (lines : List Line) :
    Option.Rel Block.Like (collectOpen depth lines) (collectOpen depth (lines.map tidy)) := by
  induction lines generalizing depth with
  | nil => exact .none
  | cons line lines ih =>
    have reads := reads_tidy line
    simp only [List.map_cons,collectOpen,reads.effect]
    cases found : effect depth (spots (tidy line)) with
    | closes column =>
      refine .some ⟨?_, (reads.trailing found).symm, (reads.opened found).symm, rfl⟩
      dsimp only
      rw [reads.leading found]
    | leaves depth =>
      have inner := ih depth
      dsimp only
      generalize collectOpen depth lines = one at inner ⊢
      generalize collectOpen depth (lines.map tidy) = two at inner ⊢
      cases inner with
      | none => exact .none
      | some like =>
        refine .some { like with body := ?_ }
        simp only [List.map_cons,tidy_tidy,like.body]

namespace Readings

private theorem collect {header header' : Line} (same : braceDelta header' = braceDelta header) (line line' : Line)
    (following : List Line) :
    Readings Block.Like (Block.collect line header following)
      (Block.collect line' header' (following.map tidy)) := by
  simp only [Block.collect,same]
  split
  · exact .error rfl
  · have blocks := Block.collectOpen_tidy (braceDelta header) following
    generalize Block.collectOpen (braceDelta header) following = one at blocks ⊢
    generalize Block.collectOpen (braceDelta header) (following.map tidy) = two at blocks ⊢
    cases blocks with
    | none => exact .error rfl
    | some like => exact .ok like

private theorem rejectTrailing {block other : Block} (like : block.Like other) :
    Readings Eq (Statement.rejectTrailing block) (Statement.rejectTrailing other) := by
  simp only [Statement.rejectTrailing,like.trailing]
  split
  · exact .ok rfl
  · exact .error rfl

private theorem closedBlock {header header' : Line} (same : braceDelta header' = braceDelta header) (line line' : Line)
    (following : List Line) :
    Readings Block.Like (Statement.closedBlock line header following)
      (Statement.closedBlock line' header' (following.map tidy)) :=
  (collect same line line' following).bind fun _ _ like => (rejectTrailing like).bind fun _ _ _ => .ok like

private theorem otherwise {block other : Block} (like : block.Like other) :
    Readings (fun one two => two.1.map tidy = one.1.map tidy ∧ two.2 = one.2.map tidy)
      (Statement.otherwise block) (Statement.otherwise other) := by
  simp only [Statement.otherwise,like.trailing,like.rest]
  split
  · split
    · exact (closedBlock like.opened _ _ _).bind fun _ _ inner => .ok ⟨inner.body, inner.rest⟩
    · exact .error rfl
  · cases block.rest with
    | nil => exact .ok ⟨rfl, rfl⟩
    | cons next following =>
      have reads := reads_tidy next
      simp only [List.map_cons,← reads.keyword]
      split
      · exact .ok ⟨rfl, rfl⟩
      · rename_i begins
        have same : next = tidy next := reads.header (by rw [← reads.keyword,Decidable.not_not.mp begins]; rfl)
        rw [← same]
        split
        · exact (closedBlock rfl _ _ _).bind fun _ _ inner => .ok ⟨inner.body, inner.rest⟩
        · exact .error rfl

end Readings

/-- A statement with its line, or the lines of its blocks, tidied. -/
def Statement.tidied : Statement → Statement
  | .define header body => .define header (body.map tidy)
  | .loop header body => .loop header (body.map tidy)
  | .branch condition body otherwise => .branch condition (body.map tidy) (otherwise.map tidy)
  | .command line => .command (tidy line)
  | statement => statement

/-- Tidied lines are read as the same statements, tidied. -/
theorem Readings.statement (line : Line) (following : List Line) :
    Readings (fun one two => two.1.tidied = one.1.tidied ∧ two.2 = one.2.map tidy)
      (Statement.read line following) (Statement.read (tidy line) (following.map tidy)) := by
  have reads := reads_tidy line
  have same {keyword : Keyword} (found : keyword? (tidy line) = some keyword) (block : keyword.hasBlock = true) :
      line = tidy line := reads.header (by rw [found]; exact block)
  unfold Statement.read
  rw [reads.keyword]
  cases found : keyword? (tidy line) with
  | none =>
    dsimp only
    rw [reads.assignment]
    split
    · exact .ok ⟨rfl, rfl⟩
    · refine .ok ⟨?_, rfl⟩
      simp only [Statement.tidied,tidy_tidy]
  | some keyword =>
    cases keyword with
    | define | loop =>
      rw [← same found rfl]
      refine (refl _).bind fun header _ eq => (closedBlock rfl line line following).bind fun _ _ like => ?_
      subst eq
      refine .ok ⟨?_, like.rest⟩
      simp only [Statement.tidied,like.body]
    | branch =>
      rw [← same found rfl]
      refine (refl _).bind fun condition _ eq => (collect rfl line line following).bind fun _ _ like =>
        (otherwise like).bind fun _ _ other => ?_
      subst eq
      refine .ok ⟨?_, other.2⟩
      simp only [Statement.tidied,like.body,other.1]
    | otherwise => exact .error rfl
    | giveBack => exact (giveBack reads).bind fun _ _ eq => eq ▸ .ok ⟨rfl, rfl⟩
    | takeIn => exact (takeIn reads).bind fun _ _ eq => eq ▸ .ok ⟨rfl, rfl⟩
    | handOut => exact (handOut reads).bind fun _ _ eq => eq ▸ .ok ⟨rfl, rfl⟩
    | letBinding | constBinding =>
      dsimp only
      rw [reads.declaration]
      split
      · exact .ok ⟨rfl, rfl⟩
      · exact .error rfl

end Inyandiko
