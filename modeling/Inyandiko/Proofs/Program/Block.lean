import Inyandiko.Proofs.Program.Line

/-! Blocks of programs. The lines of a program leave the braces as they are, so the block that a
header opens ends at its own closing brace, wherever that stands, and its body is the lines of the
program inside. -/
namespace Inyandiko

open Text Source

/-- The number of open braces after some lines. -/
def bracesLines : (depth : Nat) → List Line → Option Nat
  | depth, [] => some depth
  | depth, line :: lines => (braces depth line).bind fun left => bracesLines left lines

private theorem bracesLines_append (depth : Nat) (first second : List Line) :
    bracesLines depth (first ++ second) =
      (bracesLines depth first).bind fun left => bracesLines left second := by
  induction first generalizing depth with
  | nil => rfl
  | cons line lines ih =>
    simp only [List.cons_append,bracesLines]
    cases braces depth line with
    | none => rfl
    | some left => exact ih left

private theorem bracesLines_cons {depth left : Nat} {line : Line} {lines : List Line}
    (counted : bracesLines depth (line :: lines) = some left) :
    ∃ middle, braces depth line = some middle ∧ bracesLines middle lines = some left :=
  Option.bind_eq_some_iff.mp counted

private theorem effect_line {depth left : Nat} {line : Line} (counted : braces depth line = some left) (rest : Chars) :
    Block.effect (depth + 1) (spots (line ++ rest)) =
      Block.effect (left + 1) ((({} : Scan).after line).spots rest) := by
  rw [spots,Scan.spots_append]
  apply effect_pass
  rw [List.map_map]
  exact counted

/-- A collection of lines goes through lines that close nothing but what they opened. -/
private theorem collectOpen_pass {depth left : Nat} {lines : List Line} (counted : bracesLines depth lines = some left)
    (rest : List Line) :
    Block.collectOpen (depth + 1) (lines ++ rest) =
      (Block.collectOpen (left + 1) rest).map fun block => { block with body := lines ++ block.body } := by
  induction lines generalizing depth with
  | nil =>
    cases counted
    simp
  | cons line lines ih =>
    obtain ⟨middle, first, later⟩ := bracesLines_cons counted
    have kept := effect_line first []
    rw [List.append_nil] at kept
    have leaves : Block.effect (depth + 1) (spots line) = .leaves (middle + 1) := kept
    rw [List.cons_append,Block.collectOpen,leaves]
    dsimp only
    rw [ih later,Option.map_map]
    rfl

private theorem collectOpen_brace (trailing : Chars) (rest : List Line) :
    Block.collectOpen 1 (('}' :: trailing) :: rest) = some ⟨[], '}' :: trailing, 0, rest⟩ := by
  have closes : Block.effect 1 (spots ('}' :: trailing)) = .closes 0 := by
    rw [spots,Scan.spots_unquote rfl (by decide)]
    rfl
  rw [Block.collectOpen,closes]
  rfl

private theorem effect_brace {line : Line} (sound : Sound line) {depth : Nat} (counted : braces depth line = some 0)
    (gap : Nat) (trailing : Chars) :
    Block.effect (depth + 1) (spots (line ++ (spaces gap ++ ('}' :: trailing)))) =
      .closes (line.length + gap) := by
  have enters : (({} : Scan).after line).Enters (spaces gap) := by
    refine ⟨sound.closed, fun _ => ?_⟩
    cases gap <;> rfl
  have inCode : ((({} : Scan).after line).after (spaces gap)).span = .code := by
    rw [enters.span_after]
    exact (steady_spaces gap).closed
  rw [effect_line counted,(steady_spaces gap).effect enters,Scan.spots_unquote inCode (by decide)]
  simp [Block.effect,Scan.index_after,spaces]

private theorem collectOpen_joined {line : Line} (logical : Logical line) {depth : Nat}
    (counted : braces depth line = some 0) (gap : Nat) (trailing : Chars) (rest : List Line) :
    Block.collectOpen (depth + 1) ((line ++ (spaces gap ++ ('}' :: trailing))) :: rest) =
      some ⟨[line], line ++ (spaces gap ++ ('}' :: trailing)), line.length + gap, rest⟩ := by
  have column : (line ++ spaces gap).length = line.length + gap := by
    rw [List.length_append,spaces,List.length_replicate]
  have leading : trim ((line ++ (spaces gap ++ ('}' :: trailing))).take (line.length + gap)) = line := by
    rw [← List.append_assoc,← column,List.take_left]
    exact logical.trimmed.trim_pad (show ([] : Chars).all isBlank = true from rfl) (all_isBlank_spaces gap)
  rw [Block.collectOpen,effect_brace logical.sound counted]
  dsimp only
  rw [leading,if_neg logical.nonempty]

private theorem drop_brace (line : Line) (gap : Nat) (trailing : Chars) :
    (line ++ (spaces gap ++ ('}' :: trailing))).drop (line.length + gap + 1) = trailing := by
  have column : (line ++ (spaces gap ++ ['}'])).length = line.length + gap + 1 := by
    simp only [List.length_append,spaces,List.length_replicate,List.length_singleton,Nat.add_assoc]
  have shape : line ++ (spaces gap ++ ('}' :: trailing)) = (line ++ (spaces gap ++ ['}'])) ++ trailing := by
    simp only [List.append_assoc,List.singleton_append]
  rw [shape,← column,List.drop_left]

/-- The block that ends where some lines are closed has these lines as its body. -/
theorem collectOpen_closed (layout : Layout) (trailing : Chars) {lines : List Line} {depth : Nat}
    (counted : bracesLines depth lines = some 0) (logical : ∀ line ∈ lines, Logical line) (rest : List Line) :
    ∃ closing column, closing.drop (column + 1) = trailing ∧
      Block.collectOpen (depth + 1) (closed layout trailing lines ++ rest) =
        some ⟨lines, closing, column, rest⟩ := by
  -- the brace can only be joined to the last line; all lines before it are passed
  induction lines generalizing depth with
  | nil =>
    cases counted
    exact ⟨_, _, rfl, collectOpen_brace trailing rest⟩
  | cons line lines ih =>
    have first := logical line List.mem_cons_self
    obtain ⟨middle, opened, later⟩ := bracesLines_cons counted
    have single : bracesLines depth [line] = some middle := by
      simp only [bracesLines,opened,Option.bind_some]
    cases lines with
    | nil =>
      cases later
      cases joined : layout.joined with
      | none =>
        refine ⟨'}' :: trailing, 0, rfl, ?_⟩
        have pass := collectOpen_pass single (('}' :: trailing) :: rest)
        have brace : Block.collectOpen (((0 : Nat) : Int) + 1) (('}' :: trailing) :: rest) =
            some ⟨[], '}' :: trailing, 0, rest⟩ := collectOpen_brace trailing rest
        rw [brace] at pass
        simp only [closed,joined]
        exact pass
      | some gap =>
        refine ⟨line ++ (spaces gap ++ ('}' :: trailing)), line.length + gap, drop_brace line gap trailing, ?_⟩
        simp only [closed,joined]
        exact collectOpen_joined first opened gap trailing rest
    | cons other lines =>
      obtain ⟨closing, column, behind, found⟩ := ih later
        fun line member => logical line (List.mem_cons_of_mem _ member)
      refine ⟨closing, column, behind, ?_⟩
      have pass := collectOpen_pass single (closed layout trailing (other :: lines) ++ rest)
      rw [found] at pass
      exact pass

private theorem safe_spaces (gap : Nat) : (spaces gap).all isSafe = true := by
  rw [List.all_eq_true]
  intro c member
  rw [(List.mem_replicate.mp member).2]
  decide

/-- A closing brace and safe text behind it are safe, with spaces before them or without. -/
private theorem safe_brace {trailing : Chars} (safe : trailing.all isSafe = true) (gap : Nat) :
    (spaces gap ++ ('}' :: trailing)).all isSafe = true := by
  have brace : isSafe '}' = true := by decide
  rw [List.all_append,safe_spaces,List.all_cons,brace,safe]
  rfl

private theorem bracesLines_closed (layout : Layout) {trailing : Chars} (safe : trailing.all isSafe = true)
    {lines : List Line} {depth left : Nat} (counted : bracesLines depth lines = some (left + 1))
    (logical : ∀ line ∈ lines, Logical line) :
    bracesLines depth (closed layout trailing lines) = depthAfter (· = '}') left trailing := by
  have brace : braces (left + 1) ('}' :: trailing) = depthAfter (· = '}') left trailing := by
    have whole : ('}' :: trailing).all isSafe = true := safe_brace safe 0
    rw [braces_safe whole]
    rfl
  induction lines generalizing depth with
  | nil =>
    cases counted
    simp only [closed,bracesLines,brace,Option.bind_fun_some]
  | cons line lines ih =>
    have first := logical line List.mem_cons_self
    obtain ⟨middle, opened, later⟩ := bracesLines_cons counted
    cases lines with
    | nil =>
      cases later
      cases joined : layout.joined with
      | none => simp only [closed,joined,bracesLines,opened,brace,Option.bind_some,Option.bind_fun_some]
      | some gap =>
        have gone : depthAfter (· = '}') (left + 1) (spaces gap) = some (left + 1) := by
          rw [← braces_safe (safe_spaces gap)]
          exact braces_steady (steady_spaces gap) _
        simp only [closed,joined,bracesLines,Option.bind_fun_some]
        rw [braces_before_safe first.sound (safe_brace safe gap) opened,depthAfter_append,gone]
        rfl
    | cons other lines =>
      simp only [closed,bracesLines,opened,Option.bind_some]
      exact ih later fun line member => logical line (List.mem_cons_of_mem _ member)

private theorem logical_brace {trailing : Chars} (safe : trailing.all isSafe = true)
    (ends : trailing.getLast?.any isBlank = false) : Logical ('}' :: trailing) := by
  refine ⟨nofun, ⟨(by decide : isBlank '}' = false), ?_⟩, .of_safe (safe_brace safe 0)⟩
  cases trailing with
  | nil => decide
  | cons c rest =>
    rw [List.getLast?_cons_cons]
    exact ends

private theorem logical_closed (layout : Layout) {trailing : Chars} (safe : trailing.all isSafe = true)
    (ends : trailing.getLast?.any isBlank = false) {lines : List Line}
    (logical : ∀ line ∈ lines, Logical line) : ∀ line ∈ closed layout trailing lines, Logical line := by
  have brace := logical_brace safe ends
  induction lines with
  | nil =>
    intro line member
    rw [List.mem_singleton.mp member]
    exact brace
  | cons line lines ih =>
    have first := logical line List.mem_cons_self
    cases lines with
    | nil =>
      intro written member
      simp only [closed] at member
      cases joined : layout.joined with
      | none =>
        simp only [joined,List.mem_cons,List.not_mem_nil,or_false] at member
        rcases member with rfl | rfl
        · exact first
        · exact brace
      | some gap =>
        simp only [joined,List.mem_singleton] at member
        subst member
        have last : (spaces gap ++ ('}' :: trailing)).getLast?.any isBlank = false :=
          last_append brace.nonempty brace.trimmed.last _
        exact ⟨List.append_ne_nil_of_left_ne_nil first.nonempty _,
          ⟨first_append first.nonempty first.trimmed.first _, last_append (by simp) last _⟩,
          first.sound.before_safe (safe_brace safe gap)⟩
    | cons other lines =>
      intro written member
      rcases List.mem_cons.mp member with rfl | later
      · exact first
      · exact ih (fun line member => logical line (List.mem_cons_of_mem _ member)) written later

private theorem safe_elseLine : elseLine.all isSafe = true := by
  rw [elseLine,List.all_append,safe_of_wording Keyword.otherwise.wording]
  decide

private theorem elseLine_ends : elseLine.getLast?.any isBlank = false := last_append (by decide) (by decide) _

theorem logical_elseLine : Logical elseLine where
  nonempty := List.append_ne_nil_of_left_ne_nil Keyword.otherwise.words.1 _
  trimmed := ⟨first_append Keyword.otherwise.words.1 Keyword.otherwise.solid _, elseLine_ends⟩
  sound := .of_safe safe_elseLine

theorem braces_elseLine (depth : Nat) : braces depth elseLine = some (depth + 1) := by
  have steady := braces_steady (steady_of_wording Keyword.otherwise.wording) depth
  have sound : Sound Keyword.otherwise.word := .of_safe (safe_of_wording Keyword.otherwise.wording)
  rw [elseLine,braces_before_safe sound (by decide) steady]
  rfl

theorem depthAfter_else (gap depth : Nat) :
    depthAfter (· = '}') depth (spaces gap ++ elseLine) = some (depth + 1) := by
  have gone := braces_steady (steady_spaces gap) depth
  have opens := braces_elseLine depth
  rw [braces_safe (safe_spaces gap)] at gone
  rw [braces_safe safe_elseLine] at opens
  rw [depthAfter_append,gone,Option.bind_some,opens]

theorem safe_else (gap : Nat) : (spaces gap ++ elseLine).all isSafe = true := by
  rw [List.all_append,safe_spaces,safe_elseLine]
  rfl

/-- Logical lines that take the number of open braces from one to another, on top of any depth. -/
structure Counted (before after : Nat) (lines : List Line) : Prop where
  braces : ∀ depth, bracesLines (depth + before) lines = some (depth + after)
  logical : ∀ line ∈ lines, Logical line

namespace Counted

variable {before middle after : Nat} {first second lines : List Line}

private theorem append (one : Counted before middle first) (two : Counted middle after second) :
    Counted before after (first ++ second) where
  braces depth := by rw [bracesLines_append,one.braces,Option.bind_some,two.braces]
  logical line member := by
    rcases List.mem_append.mp member with left | right
    · exact one.logical line left
    · exact two.logical line right

private theorem of_line {line : Line} (logical : Logical line)
    (counted : ∀ depth, Inyandiko.braces (depth + before) line = some (depth + after)) :
    Counted before after [line] where
  braces depth := by rw [bracesLines,counted,Option.bind_some,bracesLines]
  logical other member := by
    rw [List.mem_singleton.mp member]
    exact logical

private theorem close (inner : Counted 0 0 lines) (layout : Layout) {trailing : Chars}
    (safe : trailing.all isSafe = true) (ends : trailing.getLast?.any isBlank = false)
    (counted : ∀ depth, depthAfter (· = '}') depth trailing = some (depth + after)) :
    Counted 1 after (closed layout trailing lines) where
  braces depth := by
    rw [bracesLines_closed layout safe (inner.braces (depth + 1)) inner.logical]
    exact counted depth
  logical := logical_closed layout safe ends inner.logical

private theorem closed (inner : Counted 0 0 lines) (layout : Layout) :
    Counted 1 0 (Inyandiko.closed layout [] lines) :=
  inner.close layout rfl rfl fun _ => rfl

private theorem closedElse (inner : Counted 0 0 lines) (layout : Layout) :
    Counted 1 1 (Inyandiko.closedElse layout lines) := by
  unfold Inyandiko.closedElse
  cases layout.shared with
  | some gap =>
    exact inner.close layout (safe_else gap) (last_append logical_elseLine.nonempty elseLine_ends _)
      (depthAfter_else gap)
  | none => exact (inner.closed layout).append (of_line logical_elseLine braces_elseLine)

end Counted

/-- The lines of a program leave the braces as they are. -/
theorem Program.counted (program : Program Layout) : Counted 0 0 program.lines := by
  induction program with
  | done => exact ⟨fun _ => rfl, nofun⟩
  | simple statement next rest =>
    obtain ⟨logical, steady⟩ := statement.logical
    have line : Counted 0 0 [statement.line] := .of_line logical (braces_steady steady)
    exact line.append rest
  | block header body layout next inner rest =>
    obtain ⟨logical, opens⟩ := header.logical
    have line : Counted 0 1 [header.line] := .of_line logical opens
    exact line.append ((inner.closed layout).append rest)
  | branch condition body layout next inner rest =>
    obtain ⟨logical, opens⟩ := branchLine_logical condition
    have line : Counted 0 1 [branchLine condition] := .of_line logical opens
    exact line.append ((inner.closed layout).append rest)
  | choice condition body layout otherwise layout' next inner other rest =>
    obtain ⟨logical, opens⟩ := branchLine_logical condition
    have line : Counted 0 1 [branchLine condition] := .of_line logical opens
    exact line.append ((inner.closedElse layout).append ((other.closed layout').append rest))

end Inyandiko
