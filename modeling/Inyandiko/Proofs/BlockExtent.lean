import Inyandiko.Proofs.Scan

/-! The extent of blocks. A block ends at the first brace outside quotes where the number of open braces,
counted from the header on, comes down to zero; the quotes of every line are scanned afresh. The braces are
listed here with their places, and the end of a block is said about that list. -/
namespace Inyandiko

open Text Source

namespace Text.Scan

/-- Scans that go on in the same way meet the same characters, as far apart as the scans are. -/
private theorem Like.codeChars {one two : Scan} (like : one.Like two) (text : Chars) :
    (one.spots text).map (fun spot => (spot.index + two.index, spot.char)) =
      (two.spots text).map (fun spot => (spot.index + one.index, spot.char)) := by
  induction text generalizing one two with
  | nil => rfl
  | cons c rest ih =>
    have sees : one.sees c = two.sees c := by simp only [sees,like.1,like.2]
    have later : ((one.next c).spots rest).map (fun spot => (spot.index + two.index, spot.char)) =
        ((two.next c).spots rest).map (fun spot => (spot.index + one.index, spot.char)) := by
      have shifted := congrArg (List.map fun (place : Nat × Char) => (place.1 - 1, place.2)) (ih (like.next c))
      simpa [Scan.next,Function.comp_def,← Nat.add_assoc] using shifted
    simp only [Scan.spots,sees]
    split
    · simp only [List.map_cons,later,Nat.add_comm]
    · exact later

end Text.Scan

namespace Block

/-- The line that an index stands for: an index below zero counts from the end. -/
def lineAt? (lines : List Line) (index : Int) : Option Line :=
  if place lines.length index < 0 then none else lines[(place lines.length index).toNat]?

/-- The line at an index, blank where there is none. -/
def lineAt (lines : List Line) (index : Int) : Line := (lineAt? lines index).getD []

/-- The indexes from one on that are below another. -/
def between (first last : Int) : List Int := (List.range (last - first).toNat).map fun number : Nat => first + number

/-- A brace outside quotes: the index of its line, its column in that line, and which brace it is. -/
structure Brace where
  line : Int
  column : Nat
  char : Char
  deriving DecidableEq, Repr

/-- The braces among characters with their columns. -/
def bracesAmong (index : Int) (places : List (Nat × Char)) : List Brace :=
  (places.filter fun place => place.2 = '{' || place.2 = '}').map fun place => ⟨index, place.1, place.2⟩

/-- The braces of a line outside quotes, in order. -/
def bracesOf (index : Int) (line : Line) : List Brace := bracesAmong index (codeChars line)

/-- The braces of the lines from one index on that are below another, in order. -/
def bracesBetween (text : Int → Line) (first last : Int) : List Brace :=
  (between first last).flatMap fun index => bracesOf index (text index)

/-- The braces of the lines after the one at an index, in order. -/
def bracesAfter (lines : List Line) (start : Int) : List Brace :=
  bracesBetween (lineAt lines) (start + 1) lines.length

/-- The number of opening braces less that of closing ones. -/
def balance (braces : List Brace) : Int :=
  braces.countP (·.char = '{') - braces.countP (·.char = '}')

/-- Braces that never bring a depth down to zero. -/
def StaysOpen (depth : Int) (braces : List Brace) : Prop :=
  ∀ shorter, shorter <+: braces → depth + balance shorter ≠ 0

/-- A brace brings a depth down to zero, for the first time after some braces. -/
structure Closes (depth : Int) (before : List Brace) (brace : Brace) : Prop where
  opened : StaysOpen depth before
  closed : depth + balance (before ++ [brace]) = 0

private theorem between_nil {first last : Int} (none : last ≤ first) : between first last = [] := by
  have zero : (last - first).toNat = 0 := by omega
  rw [between,zero]
  rfl

private theorem between_cons {first last : Int} (some : first < last) :
    between first last = first :: between (first + 1) last := by
  have count : (last - first).toNat = (last - (first + 1)).toNat + 1 := by omega
  rw [between,count,List.range_succ_eq_map,List.map_cons,List.map_map,between]
  refine List.cons_eq_cons.mpr ⟨by omega, List.map_congr_left fun number _ => ?_⟩
  simp only [Function.comp_apply]
  omega

private theorem length_between (first last : Int) : (between first last).length = (last - first).toNat := by
  rw [between,List.length_map,List.length_range]

section Balance

private theorem balance_nil : balance [] = 0 := rfl

private theorem balance_append (first second : List Brace) :
    balance (first ++ second) = balance first + balance second := by
  simp only [balance,List.countP_append]
  omega

private theorem balance_cons (brace : Brace) (rest : List Brace) :
    balance (brace :: rest) = balance [brace] + balance rest := balance_append [brace] rest

private theorem staysOpen_nil {depth : Int} (positive : 0 < depth) : StaysOpen depth [] := by
  intro shorter begins
  rw [List.prefix_nil.mp begins,balance_nil]
  omega

private theorem staysOpen_cons {depth : Int} {brace : Brace} {rest : List Brace} (positive : 0 < depth)
    (later : StaysOpen (depth + balance [brace]) rest) : StaysOpen depth (brace :: rest) := by
  intro shorter begins
  rcases List.prefix_cons_iff.mp begins with rfl | ⟨left, rfl, begins⟩
  · exact staysOpen_nil positive [] List.prefix_rfl
  · rw [balance_cons,← Int.add_assoc]
    exact later left (List.cons_prefix_cons.mp begins).2

private theorem StaysOpen.append {depth : Int} {first second : List Brace} (one : StaysOpen depth first)
    (two : StaysOpen (depth + balance first) second) : StaysOpen depth (first ++ second) := by
  intro shorter begins
  rcases List.prefix_or_prefix_of_prefix begins (List.prefix_append first second) with inside | ⟨left, rfl⟩
  · exact one shorter inside
  · rw [balance_append,← Int.add_assoc]
    exact two left ((List.prefix_append_right_inj first).mp begins)

private theorem Closes.after {depth : Int} {first before : List Brace} {brace : Brace} (one : StaysOpen depth first)
    (two : Closes (depth + balance first) before brace) : Closes depth (first ++ before) brace where
  opened := one.append two.opened
  closed := by
    rw [List.append_assoc,balance_append,← Int.add_assoc]
    exact two.closed

private theorem Closes.cons {depth : Int} {other brace : Brace} {before : List Brace} (positive : 0 < depth)
    (later : Closes (depth + balance [other]) before brace) : Closes depth (other :: before) brace where
  opened := staysOpen_cons positive later.opened
  closed := by
    rw [List.cons_append,balance_cons,← Int.add_assoc]
    exact later.closed

private theorem Closes.not_staysOpen {depth : Int} {before after : List Brace} {brace : Brace}
    (closes : Closes depth before brace) : ¬StaysOpen depth (before ++ brace :: after) := by
  intro opened
  exact opened (before ++ [brace]) ⟨after, (List.append_cons before brace after).symm⟩ closes.closed

private theorem Closes.unique {depth : Int} {before after other more : List Brace} {brace last : Brace}
    (one : Closes depth before brace) (two : Closes depth other last)
    (same : before ++ brace :: after = other ++ last :: more) : before = other ∧ brace = last := by
  rcases List.append_eq_append_iff.mp same with ⟨left, rfl, split⟩ | ⟨left, rfl, split⟩
  · cases left with
    | nil => simp_all
    | cons first left =>
      obtain ⟨rfl, rfl⟩ := List.cons.inj split
      exact absurd two.opened one.not_staysOpen
  · cases left with
    | nil => simp_all
    | cons first left =>
      obtain ⟨rfl, rfl⟩ := List.cons.inj split
      exact absurd one.opened two.not_staysOpen

end Balance

section Lines

variable {depth : Int}

private theorem bracesAmong_brace (index : Int) {place : Nat × Char} (brace : place.2 = '{' ∨ place.2 = '}')
    (rest : List (Nat × Char)) :
    bracesAmong index (place :: rest) = ⟨index, place.1, place.2⟩ :: bracesAmong index rest := by
  have found : (place.2 = '{' || place.2 = '}') = true := by simpa using brace
  rw [bracesAmong,List.filter_cons,if_pos found,List.map_cons,bracesAmong]

private theorem bracesAmong_other (index : Int) {place : Nat × Char} (opening : place.2 ≠ '{') (closing : place.2 ≠ '}')
    (rest : List (Nat × Char)) : bracesAmong index (place :: rest) = bracesAmong index rest := by
  have skipped : ¬(place.2 = '{' || place.2 = '}') = true := by simp [opening,closing]
  rw [bracesAmong,List.filter_cons,if_neg skipped,bracesAmong]

/-- What a line does to the open braces is read off its braces. -/
inductive Shows (depth : Int) (index : Int) (braces : List Brace) : Effect → Prop
  | leaves (positive : 0 < depth + balance braces) (opened : StaysOpen depth braces) :
    Shows depth index braces (.leaves (depth + balance braces))
  | closes {column : Nat} {before after : List Brace}
    (split : braces = before ++ ⟨index, column, '}'⟩ :: after)
    (closes : Closes depth before ⟨index, column, '}'⟩) : Shows depth index braces (.closes column)

private theorem Shows.cons {index : Int} {brace : Brace} {rest : List Brace} {effect : Effect} (positive : 0 < depth)
    (shows : Shows (depth + balance [brace]) index rest effect) : Shows depth index (brace :: rest) effect := by
  cases shows with
  | leaves left opened =>
    have total : depth + balance [brace] + balance rest = depth + balance (brace :: rest) := by
      rw [balance_cons brace rest,Int.add_assoc]
    rw [total] at left ⊢
    exact .leaves left (staysOpen_cons positive opened)
  | closes split closes => exact .closes (congrArg (brace :: ·) split) (closes.cons positive)

private theorem effect_shows (positive : 0 < depth) (index : Int) (spots : List Spot) :
    Shows depth index (bracesAmong index (spots.map fun spot => (spot.index, spot.char)))
      (effect depth spots) := by
  induction spots generalizing depth with
  | nil =>
    have zero : depth = depth + balance [] := by rw [balance_nil,Int.add_zero]
    have leaves : Shows depth index [] (.leaves (depth + balance [])) :=
      .leaves (zero ▸ positive) (staysOpen_nil positive)
    rwa [← zero] at leaves
  | cons spot rest ih =>
    rw [List.map_cons,effect]
    split
    · rename_i opening
      rw [bracesAmong_brace index (.inl opening)]
      refine Shows.cons positive ?_
      have up : balance [⟨index, spot.index, spot.char⟩] = 1 := by simp [balance,opening]
      rw [up]
      exact ih (by omega)
    · rename_i opening
      split
      · rename_i closing
        have down : balance [⟨index, spot.index, spot.char⟩] = -1 := by simp [balance,closing]
        rw [bracesAmong_brace index (.inr closing)]
        split
        · rename_i last
          rw [closing] at down ⊢
          have closes : Closes depth [] ⟨index, spot.index, '}'⟩ := by
            refine ⟨staysOpen_nil positive, ?_⟩
            rw [List.nil_append,down]
            omega
          exact .closes (List.nil_append _).symm closes
        · rename_i last
          refine Shows.cons positive ?_
          rw [down,← Int.sub_eq_add_neg]
          exact ih (by omega)
      · rename_i closing
        rw [bracesAmong_other index opening closing]
        exact ih positive

private theorem braceDelta_eq_balance (index : Int) (line : Line) : braceDelta line = balance
    (bracesOf index line) := by
  suffices counted : ∀ (found : List Spot) (total : Int), found.foldl (fun total spot =>
      if spot.char = '{' then total + 1 else if spot.char = '}' then total - 1 else total) total =
        total + balance (bracesAmong index (found.map fun spot => (spot.index, spot.char))) by
    rw [braceDelta,counted,Int.zero_add]
    rfl
  intro found
  induction found with
  | nil => exact fun total => (Int.add_zero total).symm
  | cons spot rest ih =>
    intro total
    rw [List.foldl_cons,ih,List.map_cons]
    split
    · rename_i opening
      rw [bracesAmong_brace index (.inl opening),balance_cons]
      simp only [balance,opening,List.countP_cons,List.countP_nil]
      simp
      omega
    · rename_i opening
      split
      · rename_i closing
        rw [bracesAmong_brace index (.inr closing),balance_cons]
        simp only [balance,closing,List.countP_cons,List.countP_nil]
        simp
        omega
      · rename_i closing
        rw [bracesAmong_other index opening closing]

/-- The block that ends at a brace: the lines before the line of the brace, with the text before the brace
as a last line when there is any. -/
def upTo (text : Int → Line) (first last : Int) (brace : Brace) : Block :=
  let leading := trim ((text brace.line).take brace.column)
  { body := (between first brace.line).map text ++ (if leading = [] then [] else [leading])
    closing := text brace.line
    column := brace.column
    rest := (between (brace.line + 1) last).map text }

/-- Lines are collected up to the first brace that closes. -/
inductive Collects (text : Int → Line) (depth first last : Int) : Option Block → Prop
  | unclosed (opened : StaysOpen depth (bracesBetween text first last)) : Collects text depth first last none
  | closed {before after : List Brace} {brace : Brace}
    (split : bracesBetween text first last = before ++ brace :: after) (closes : Closes depth before brace)
    (low : first ≤ brace.line) (high : brace.line < last) :
    Collects text depth first last (some (upTo text first last brace))

private theorem bracesBetween_cons (text : Int → Line) {first last : Int} (some : first < last) :
    bracesBetween text first last = bracesOf first (text first) ++ bracesBetween text (first + 1) last := by
  rw [bracesBetween,between_cons some,List.flatMap_cons,bracesBetween]

private theorem collectOpen_collects (positive : 0 < depth) (text : Int → Line) (first last : Int) :
    Collects text depth first last (collectOpen depth ((between first last).map text)) := by
  induction count : (last - first).toNat generalizing depth first with
  | zero =>
    have braces : bracesBetween text first last = [] := by
      rw [bracesBetween,between_nil (by omega)]
      rfl
    rw [between_nil (by omega)]
    exact .unclosed (braces ▸ staysOpen_nil positive)
  | succ count ih =>
    have some_ : first < last := by omega
    have shows := effect_shows positive first (spots (text first))
    rw [between_cons some_,List.map_cons,collectOpen]
    generalize effect depth (spots (text first)) = effect at shows
    cases shows with
    | leaves left opened =>
      have later := ih left (first + 1) (by omega)
      dsimp only
      generalize collectOpen _ ((between (first + 1) last).map text) = found at later
      cases later with
      | unclosed open_ =>
        refine .unclosed ?_
        rw [bracesBetween_cons text some_]
        exact opened.append open_
      | @closed before after brace split closes low high =>
        have block : upTo text first last brace =
            { upTo text (first + 1) last brace with
              body := text first :: (upTo text (first + 1) last brace).body } := by
          simp only [upTo,between_cons (by omega : first < brace.line),List.map_cons,List.cons_append]
        have whole : bracesBetween text first last =
            (bracesOf first (text first) ++ before) ++ brace :: after := by
          rw [bracesBetween_cons text some_,split,List.append_assoc]
        rw [Option.map_some,← block]
        exact .closed whole (Closes.after opened closes) (by omega) high
    | @closes column before after split closes =>
      have block : upTo text first last ⟨first, column, '}'⟩ =
          { body := if trim ((text first).take column) = [] then [] else [trim ((text first).take column)]
            closing := text first
            column := column
            rest := (between (first + 1) last).map text } := by
        simp only [upTo,between_nil (Int.le_refl first),List.map_nil,List.nil_append]
      have here : bracesOf first (text first) = before ++ ⟨first, column, '}'⟩ :: after := split
      have whole : bracesBetween text first last =
          before ++ ⟨first, column, '}'⟩ :: (after ++ bracesBetween text (first + 1) last) := by
        rw [bracesBetween_cons text some_,here,List.append_assoc,List.cons_append]
      dsimp only
      rw [← block]
      exact .closed whole closes (Int.le_refl _) some_

end Lines

section Places

variable {lines : List Line} {start : Int}

private theorem lineAt?_eq_some {index : Int} (low : -lines.length ≤ index) (high : index < lines.length) :
    lineAt? lines index = some (lineAt lines index) := by
  have inside : 0 ≤ place lines.length index ∧ place lines.length index < lines.length := by
    simp only [place]
    split <;> omega
  rw [lineAt,lineAt?,if_neg (by omega),List.getElem?_eq_getElem (by omega : _ < lines.length)]
  rfl

private theorem bounds_of_lineAt? {line : Line} (here : lineAt? lines start = some line) :
    -lines.length ≤ start ∧ start < lines.length := by
  rw [lineAt?] at here
  split at here
  · cases here
  · rename_i inside
    have short := (List.getElem?_eq_some_iff.mp here).1
    simp only [place] at inside short
    split at inside <;> omega

/-- Indexes that stand for places in a row up to the end stand for the lines from the first of them on. -/
private theorem map_lineAt {first last : Int} {count : Nat} (sized : last - first = lines.length - count)
    (placed : ∀ index, first ≤ index → index < last → place lines.length index = count + (index - first)) :
    (between first last).map (lineAt lines) = lines.drop count := by
  apply List.ext_getElem
  · rw [List.length_map,length_between,List.length_drop]
    omega
  · intro number left right
    rw [List.length_map,length_between] at left
    have here := placed (first + number) (by omega) (by omega)
    have position : (place lines.length (first + number)).toNat = count + number := by omega
    simp only [between,List.getElem_map,List.getElem_range,List.getElem_drop,lineAt,lineAt?]
    rw [if_neg (by omega),position,List.getElem?_eq_getElem (by omega),Option.getD_some]

private theorem between_append {first middle last : Int} (low : first ≤ middle) (high : middle ≤ last) :
    between first middle ++ between middle last = between first last := by
  induction count : (middle - first).toNat generalizing first with
  | zero =>
    obtain rfl : first = middle := by omega
    rw [between_nil (Int.le_refl first),List.nil_append]
  | succ count ih =>
    rw [between_cons (by omega : first < middle),between_cons (by omega : first < last),List.cons_append,
      ih (by omega) (by omega)]

private theorem place_of_neg {length : Nat} {index : Int} (negative : index < 0) :
    place length index = length + index :=
  if_pos negative

private theorem place_of_nonneg {length : Nat} {index : Int} (nonnegative : 0 ≤ index) : place length index = index :=
  if_neg (by omega)

private theorem following_eq (low : -lines.length ≤ start) :
    following lines start = (between (start + 1) lines.length).map (lineAt lines) := by
  rw [following]
  split
  · rename_i negative
    have ending : (between (start + 1) 0).map (lineAt lines) = lines.drop (lines.length + start + 1).toNat :=
      map_lineAt (by omega) fun index _ below => by rw [place_of_neg below]; omega
    have whole : (between 0 lines.length).map (lineAt lines) = lines.drop 0 :=
      map_lineAt (by omega) fun index above _ => by rw [place_of_nonneg above]; omega
    rw [← between_append (by omega : start + 1 ≤ 0) (by omega),List.map_append,ending,whole,
      place_of_neg negative,List.drop_zero]
  · rename_i negative
    rw [place_of_nonneg (by omega)]
    exact (map_lineAt (by omega) fun index above _ => by rw [place_of_nonneg (by omega)]; omega).symm

private theorem length_following (low : -lines.length ≤ start) (high : start < lines.length) :
    ((following lines start).length : Int) = lines.length - (start + 1) := by
  rw [following_eq low,List.length_map,length_between]
  omega

end Places

section Restart

/-- A brace some columns further on. -/
def Brace.shift (columns : Nat) (brace : Brace) : Brace := { brace with column := brace.column + columns }

private theorem bracesAmong_shift (index : Int) (columns : Nat) (places : List (Nat × Char)) :
    bracesAmong index (places.map fun place => (place.1 + columns, place.2)) =
      (bracesAmong index places).map (Brace.shift columns) := by
  simp only [bracesAmong,List.filter_map,List.map_map]
  rfl

private theorem bracesAmong_filter (index : Int) (column : Nat) (places : List (Nat × Char)) :
    bracesAmong index (places.filter fun place => column < place.1) =
      (bracesAmong index places).filter fun brace => column < brace.column := by
  simp only [bracesAmong,List.filter_map,List.filter_filter]
  refine congrArg _ (List.filter_congr fun place _ => ?_)
  exact Bool.and_comm _ _

/-- A new scan behind a character outside quotes that is neither a quote nor a backslash meets what the scan
of the whole text meets there. -/
private theorem codeChars_drop {text : Chars} {column : Nat} {c : Char} (member : (column, c) ∈ codeChars text)
    (unquote : isUnquote c = true) (plain : c ≠ '\\') :
    (codeChars (text.drop (column + 1))).map (fun place => (place.1 + (column + 1), place.2)) =
      (codeChars text).filter fun place => column < place.1 := by
  obtain ⟨spot, found, same⟩ := List.mem_map.mp member
  obtain ⟨rfl, rfl⟩ := Prod.mk.inj same
  obtain ⟨before, whole, index, sees⟩ := Scan.split_of_mem found
  have position : spot.index = before.length := by simpa using index
  have inCode : (({} : Scan).after before).span = .code := by
    simp only [Scan.sees,Bool.and_eq_true,decide_eq_true_eq] at sees
    exact sees.1
  have like : (({} : Scan).after (before ++ [spot.char])).Like {} := by
    rw [Scan.after_append,Scan.after_cons,Scan.after_nil]
    exact ⟨Scan.span_next_unquote inCode unquote, decide_eq_false plain⟩
  have start : (({} : Scan).after (before ++ [spot.char])).index = spot.index + 1 := by
    rw [Scan.index_after,List.length_append,List.length_singleton,position]
    omega
  have rest : text.drop (spot.index + 1) = spot.rest := by
    rw [whole,position,List.append_cons,List.drop_left' (by simp)]
  have later : ((({} : Scan).after (before ++ [spot.char])).spots spot.rest).map
        (fun found => (found.index, found.char)) =
      (codeChars spot.rest).map fun place => (place.1 + (spot.index + 1), place.2) := by
    have shifted := like.codeChars spot.rest
    rw [start] at shifted
    rw [codeChars,List.map_map]
    exact shifted
  have parts : codeChars text = codeChars (before ++ [spot.char]) ++
      (codeChars spot.rest).map fun place => (place.1 + (spot.index + 1), place.2) := by
    conv => lhs; rw [whole,List.append_cons,codeChars,spots,Scan.spots_append,List.map_append,later]
    rw [List.map_map]
    rfl
  have none : (codeChars (before ++ [spot.char])).filter (fun place => spot.index < place.1) = [] := by
    rw [List.filter_eq_nil_iff]
    intro place member
    obtain ⟨other, found, rfl⟩ := List.mem_map.mp member
    have high := (Scan.index_bounds found).2
    simp only [List.length_append,List.length_singleton] at high
    simp only [decide_eq_true_eq]
    omega
  rw [rest,parts,List.filter_append,none,List.nil_append]
  refine (List.filter_eq_self.mpr fun place member => ?_).symm
  obtain ⟨other, _, rfl⟩ := List.mem_map.mp member
  simp only [decide_eq_true_eq]
  omega

/-- Behind a brace of a line a new scan sees the braces that the scan of the whole line sees there. -/
private theorem bracesOf_drop {index : Int} {line : Line} {brace : Brace} (member : brace ∈ bracesOf index line) :
    (bracesOf index (line.drop (brace.column + 1))).map (Brace.shift (brace.column + 1)) =
      (bracesOf index line).filter fun other => brace.column < other.column := by
  obtain ⟨⟨column, c⟩, found, rfl⟩ := List.mem_map.mp member
  obtain ⟨place, isBrace⟩ := List.mem_filter.mp found
  have char : c = '{' ∨ c = '}' := by simpa using isBrace
  have unquote : isUnquote c = true ∧ c ≠ '\\' := by rcases char with rfl | rfl <;> decide
  rw [bracesOf,← bracesAmong_shift,codeChars_drop place unquote.1 unquote.2,bracesAmong_filter]
  rfl

end Restart

private theorem mem_bracesBetween {text : Int → Line} {first last : Int} {brace : Brace}
    (member : brace ∈ bracesBetween text first last) : brace ∈ bracesOf brace.line (text brace.line) := by
  obtain ⟨index, _, found⟩ := List.mem_flatMap.mp member
  have line : brace.line = index := by
    obtain ⟨place, _, rfl⟩ := List.mem_map.mp found
    rfl
  rwa [line]

section Extent

variable {lines : List Line} {start column : Int} {line : Line}

/-- The text of a header from a column on. -/
def headerAt (column : Int) (line : Line) : Line := line.drop (place line.length column).toNat

/-- The depth that a line leaves open from a column on. -/
def openedAt (start column : Int) (line : Line) : Int := balance (bracesOf start (headerAt column line))

private theorem collectAt_of_error (here : lineAt? lines start = some line) {fault : Fault}
    (refused : collect line (headerAt column line) (following lines start) = .error fault) :
    collectAt lines start column = .error (.fault fault) := by
  rw [lineAt?] at here
  rw [headerAt] at refused
  simp only [collectAt,here,refused]

private theorem collectAt_of_ok (here : lineAt? lines start = some line) {block : Block}
    (found : collect line (headerAt column line) (following lines start) = .ok block) :
    collectAt lines start column =
      .ok (block, start + ((following lines start).length - block.rest.length)) := by
  rw [lineAt?] at here
  rw [headerAt] at found
  simp only [collectAt,here,found]

private theorem collect_unopened (start : Int) (unopened : openedAt start column line ≤ 0) (following : List Line) :
    collect line (headerAt column line) following =
      .error ⟨.expectedBlock (String.ofList line), some (String.ofList line)⟩ := by
  rw [openedAt,← braceDelta_eq_balance] at unopened
  simp only [collect,unopened,if_true]

private theorem collect_unclosed (opened : 0 < openedAt start column line) {following : List Line}
    (unclosed : collectOpen (openedAt start column line) following = none) :
    collect line (headerAt column line) following =
      .error ⟨.unclosedBlock (String.ofList line), some (String.ofList line)⟩ := by
  rw [openedAt,← braceDelta_eq_balance] at opened unclosed
  simp only [collect,Int.not_le.mpr opened,if_false,unclosed]

private theorem collect_closed_at (opened : 0 < openedAt start column line) {following : List Line} {block : Block}
    (closed : collectOpen (openedAt start column line) following = some block) :
    collect line (headerAt column line) following = .ok block := by
  rw [openedAt,← braceDelta_eq_balance] at opened closed
  simp only [collect,Int.not_le.mpr opened,if_false,closed]

/-- An opened block is unclosed, or it ends at a brace and its closing line is the line of that brace. -/
private theorem collectAt_opened (here : lineAt? lines start = some line) (opened : 0 < openedAt start column line) :
    (StaysOpen (openedAt start column line) (bracesAfter lines start) ∧
      collectAt lines start column =
        .error (.fault ⟨.unclosedBlock (String.ofList line), some (String.ofList line)⟩)) ∨
    ∃ before brace after, bracesAfter lines start = before ++ brace :: after ∧
      Closes (openedAt start column line) before brace ∧ start < brace.line ∧ brace.line < lines.length ∧
      collectAt lines start column =
        .ok (upTo (lineAt lines) (start + 1) lines.length brace, brace.line) := by
  obtain ⟨low, high⟩ := bounds_of_lineAt? here
  have collects := collectOpen_collects opened (lineAt lines) (start + 1) lines.length
  rw [← following_eq low] at collects
  generalize result : collectOpen _ _ = found at collects
  cases collects with
  | unclosed stays => exact .inl ⟨stays, collectAt_of_error here (collect_unclosed opened result)⟩
  | @closed before after brace split closes first last =>
    refine .inr ⟨before, brace, after, split, closes, by omega, last, ?_⟩
    have place : start + (((following lines start).length : Int) -
        (upTo (lineAt lines) (start + 1) lines.length brace).rest.length) = brace.line := by
      rw [length_following low high]
      simp only [upTo,List.length_map,length_between]
      omega
    rw [collectAt_of_ok here (collect_closed_at opened result),place]

end Extent

/-- The block that a line opens from a column on ends at the first brace of the later lines where the depth
comes down to zero. There is no block when the line opens none, and the block is unclosed when the depth never
comes down. A scan that starts again behind the closing brace sees the braces that are left on its line. -/
theorem blocks_end_at_first_closing_brace (lines : List Line) (start column : Int) (line : Line)
    (here : lineAt? lines start = some line) :
    let text := String.ofList line
    let depth := openedAt start column line
    let braces := bracesAfter lines start
    (collectAt lines start column = .error (.fault ⟨.expectedBlock text, some text⟩) ↔ depth ≤ 0) ∧
    (0 < depth →
      (collectAt lines start column = .error (.fault ⟨.unclosedBlock text, some text⟩) ↔
        StaysOpen depth braces)) ∧
    ∀ before brace after, 0 < depth → braces = before ++ brace :: after → Closes depth before brace →
      ∃ block, collectAt lines start column = .ok (block, brace.line) ∧ block.column = brace.column ∧
        lineAt? lines brace.line = some block.closing ∧
        block.body = (between (start + 1) brace.line).map (lineAt lines) ++
          (if trim (block.closing.take brace.column) = [] then []
            else [trim (block.closing.take brace.column)]) ∧
        block.trailing = trim (block.closing.drop (brace.column + 1)) ∧
        (bracesOf brace.line (block.closing.drop (block.column + 1))).map (Brace.shift (block.column + 1)) =
          (bracesOf brace.line block.closing).filter fun other => block.column < other.column := by
  intro text depth braces
  obtain ⟨low, _⟩ := bounds_of_lineAt? here
  have refuses (unopened : depth ≤ 0) :=
    collectAt_of_error here (collect_unopened start unopened (following lines start))
  refine ⟨⟨fun refused => ?_, refuses⟩, fun opened => ?_, ?_⟩
  · refine Int.not_lt.mp fun opened => ?_
    rcases collectAt_opened here opened with ⟨_, unclosed⟩ | ⟨_, _, _, _, _, _, _, closed⟩
    · rw [unclosed] at refused
      simp at refused
    · rw [closed] at refused
      cases refused
  · rcases collectAt_opened here opened with ⟨stays, unclosed⟩ | ⟨before, brace, after, split, closes, _, _, closed⟩
    · exact iff_of_true unclosed stays
    · refine iff_of_false (fun unclosed => ?_) ?_
      · rw [closed] at unclosed
        cases unclosed
      · rw [show braces = _ from split]
        exact closes.not_staysOpen
  · intro before brace after opened split closes
    rcases collectAt_opened here opened with ⟨stays, _⟩ | ⟨other, last, more, split', closes', first, below, closed⟩
    · rw [show bracesAfter lines start = _ from split] at stays
      exact absurd stays closes.not_staysOpen
    · obtain ⟨-, rfl⟩ := closes.unique closes' (split.symm.trans split')
      have member : brace ∈ bracesAfter lines start := by
        rw [split']
        exact List.mem_append_right _ List.mem_cons_self
      exact ⟨_, closed, rfl, lineAt?_eq_some (by omega) below, rfl, rfl,
        bracesOf_drop (mem_bracesBetween member)⟩

/-- The nested braces of one line, one of them quoted, close before the block does. -/
theorem blocks_end_at_first_closing_brace_nested :
    let lines := ["niba(a) \x7b".toList, "\x7b '\x7d' \x7d b".toList, "c \x7d niba_atariyo \x7b".toList]
    lineAt? lines 0 = some "niba(a) \x7b".toList ∧ 0 < openedAt 0 0 "niba(a) \x7b".toList ∧
      ∃ block, collectAt lines 0 0 = .ok (block, 2) ∧
        block.body = ["\x7b '\x7d' \x7d b".toList, "c".toList] ∧ block.trailing = "niba_atariyo \x7b".toList := by
  intro lines
  have here : lineAt? lines 0 = some "niba(a) \x7b".toList := by decide
  have opened : 0 < openedAt 0 0 "niba(a) \x7b".toList := by decide
  have closes : Closes (openedAt 0 0 "niba(a) \x7b".toList) [⟨1, 0, '{'⟩, ⟨1, 6, '}'⟩] ⟨2, 2, '}'⟩ :=
    ⟨staysOpen_cons opened (staysOpen_cons (by decide) (staysOpen_nil (by decide))), by decide⟩
  obtain ⟨block, found, column, closing, body, trailing, _⟩ :=
    (blocks_end_at_first_closing_brace lines 0 0 _ here).2.2 _ _ [⟨2, 17, '{'⟩] opened (by decide) closes
  rw [← Option.some.inj closing] at body trailing
  exact ⟨here, opened, block, found, body.trans (by decide), trailing.trans (by decide)⟩

end Block

end Inyandiko
