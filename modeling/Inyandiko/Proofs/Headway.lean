import Inyandiko.Proofs.LoopRounds
import Inyandiko.Proofs.Rounding.Step

/-! The headway of loops over ranges. An integer comes nearer to the end of its range by one in every round; a
floating-point number does so only up to rounding. A step that is not lost to rounding passes an integer, so that
a loop that loses no step leaves its range; a loop that loses one stays where it is. Up to `2 ^ 53` no step is
lost, and beyond `2 ^ 54` all of them are. -/
namespace Inyandiko

open Source

variable {Code : Type}

namespace Number

/-- The rational number that a number stands for. -/
def toRat : Number → ℚ
  | .int n => n
  | .float x => x.toRat

/-- Whether a number is an integer or a number of double precision. -/
def Normalized : Number → Prop
  | .int _ => True
  | .float x => x.Normalized

/-- Whether a number is an integer or finite. -/
def Definite : Number → Prop
  | .int _ => True
  | .float x => x.isFinite = true

private theorem Normalized.definite {value : Number} (normalized : value.Normalized) : value.Definite := by
  cases value with
  | int => trivial
  | float x => exact Binary64.Normalized.isFinite normalized

private theorem compare?_eq {x y : Number} (definite : x.Definite) (definite' : y.Definite) :
    x.compare? y = some (cmp x.toRat y.toRat) := by
  cases x with
  | int n =>
    cases y with
    | int m => rw [compare?,toRat,toRat,Int.cast_strictMono.cmp_map_eq,cmp_eq_compare]
    | float y =>
      rw [compare?,Binary64.compareInt?_eq definite',Option.map_some,cmp_swap]
      rfl
  | float x =>
    cases y with
    | int m => exact Binary64.compareInt?_eq definite m
    | float y => exact Binary64.compare?_eq definite definite'

end Number

namespace Loop

private theorem definite_of_bound? {n m : Number} (accepted : bound? (.number n) = .ok (some m)) :
    m = n ∧ n.Definite := by
  rw [bound?] at accepted
  split at accepted
  · cases accepted
  · rename_i finite known
    cases finite with
    | false => cases accepted
    | true =>
      cases accepted
      refine ⟨rfl, ?_⟩
      cases n with
      | int => trivial
      | float x => exact Except.ok.inj known

private theorem definite_of_bounds? {start stop : Value} {first last : Number}
    (accepted : bounds? start stop = .ok (some (first, last))) : first.Definite ∧ last.Definite := by
  unfold bounds? at accepted
  split at accepted
  · obtain ⟨one, given, rest⟩ := ok_of_bind accepted
    cases one with
    | none => cases rest
    | some one =>
      obtain ⟨two, given', rest⟩ := ok_of_bind rest
      cases two with
      | none => cases rest
      | some two =>
        cases rest
        obtain ⟨rfl, definite⟩ := definite_of_bound? given
        obtain ⟨rfl, definite'⟩ := definite_of_bound? given'
        exact ⟨definite, definite'⟩
  · cases accepted

/-- How far a value is on the way of a loop. -/
def position (upward : Bool) (value : Number) : ℚ := if upward then value.toRat else -value.toRat

private theorem position_float (upward : Bool) (x : Binary64) : position upward (.float x) =
    (x.facing upward).toRat := by
  cases upward with
  | true => rfl
  | false => exact (x.toRat_neg).symm

private theorem isLE_cmp (x y : ℚ) : (cmp x y).isLE = true ↔ x ≤ y := by
  rw [cmp_eq_compare]
  exact Ordering.isLE_iff_ne_gt.trans compare_le_iff_le

private theorem isGE_cmp (x y : ℚ) : (cmp x y).isGE = true ↔ y ≤ x := by
  rw [cmp_eq_compare]
  exact Ordering.isGE_iff_ne_lt.trans compare_ge_iff_ge

private theorem within_iff {value last : Number} (definite : value.Definite) (definite' : last.Definite)
    (upward : Bool) :
    within upward last value = true ↔ position upward value ≤ position upward last := by
  rw [within,Number.compare?_eq definite definite']
  cases upward with
  | true => exact isLE_cmp _ _
  | false => exact (isGE_cmp _ _).trans neg_le_neg_iff.symm

private theorem floor_position_int (upward : Bool) (n : ℤ) :
    ⌊position upward (.int n)⌋ = if upward then n else -n := by
  cases upward with
  | true => exact Int.floor_intCast n
  | false =>
    rw [position,if_neg Bool.false_ne_true,Number.toRat,← Int.cast_neg,Int.floor_intCast]
    rfl

private theorem position_advance_int (upward : Bool) (n : ℤ) :
    position upward (advance upward (.int n)) = position upward (.int n) + 1 := by
  cases upward with
  | true => simp [position,advance,Number.toRat]
  | false =>
    simp only [position,advance,Number.toRat,Bool.false_eq_true,if_false,Int.cast_sub,Int.cast_one]
    ring

/-- A step that is not lost: it passes an integer. Large floating-point numbers have no such step. -/
structure Gains (upward : Bool) (value : Number) : Prop where
  small : ∀ x, value = .float x → |x.toRat| ≤ 2 ^ 54
  passes : ⌊position upward value⌋ + 1 ≤ position upward (advance upward value)

private theorem gains_int (upward : Bool) (n : ℤ) : Gains upward (.int n) := by
  refine ⟨fun x same => (nomatch same), ?_⟩
  rw [position_advance_int]
  linarith [Int.floor_le (position upward (.int n))]

namespace Gains

variable {upward : Bool} {value : Number} (gains : Gains upward value)
include gains

private theorem lt : position upward value < position upward (advance upward value) :=
  (Int.lt_floor_add_one _).trans_le gains.passes

private theorem normalized_advance (definite : value.Definite) : (advance upward value).Normalized := by
  cases value with
  | int => trivial
  | float x =>
    have small := gains.small x rfl
    exact Binary64.stride_normalized definite
      (lt_of_le_of_lt (by linarith) Binary64.two_pow_lt_overflowBound) upward

end Gains

private theorem advance_eq_or_gains {value : Number} (normalized : value.Normalized) (upward : Bool) :
    advance upward value = value ∨ Gains upward value := by
  cases value with
  | int n => exact .inr (gains_int upward n)
  | float x =>
    rcases le_or_gt |x.toRat| (2 ^ 54) with small | large
    · refine (Binary64.stride_eq_or_passes normalized upward).imp (congrArg Number.float) fun passed => ?_
      rw [← position_float,← position_float] at passed
      exact ⟨fun y same => by cases same; exact small, passed⟩
    · exact .inl (congrArg Number.float (Binary64.stride_of_large normalized large upward))

private theorem normalized_advance {value : Number} (normalized : value.Normalized) (upward : Bool) :
    (advance upward value).Normalized := by
  rcases advance_eq_or_gains normalized upward with same | gains
  · rwa [same]
  · exact gains.normalized_advance normalized.definite

/-- A value from which all integers are on the grid of floating-point numbers until the last one is passed. -/
def Steady (upward : Bool) (last : Number) : Number → Prop
  | .int _ => True
  | .float x =>
    x.isFinite = true ∧ -2 ^ 53 ≤ position upward (.float x) ∧ position upward last < 2 ^ 53

private theorem Steady.advance {upward : Bool} {last value : Number} (steady : Steady upward last value)
    (inside : position upward value ≤ position upward last) :
    Gains upward value ∧ Steady upward last (advance upward value) ∧
      (position upward value = ⌊position upward value⌋ →
        position upward (Loop.advance upward value) = position upward value + 1) := by
  cases value with
  | int n => exact ⟨gains_int upward n, trivial, fun _ => position_advance_int upward n⟩
  | float x =>
    obtain ⟨finite, low, high⟩ := steady
    have below := inside.trans_lt high
    have small : |x.toRat| ≤ 2 ^ 53 := by
      rw [← Binary64.abs_toRat_facing upward,← position_float]
      exact abs_le.mpr ⟨low, below.le⟩
    have rounding := Binary64.stride_rounding finite
      (lt_of_le_of_lt (by linarith) Binary64.two_pow_lt_overflowBound) upward
    rw [← position_float] at rounding
    have passed := rounding.floor_add_one_le low below
    rw [← position_float] at passed
    have gains : Gains upward (.float x) :=
      ⟨fun y same => by cases same; exact small.trans (by norm_num), passed.1⟩
    have finite' := (gains.normalized_advance finite).definite
    exact ⟨gains, ⟨finite', low.trans gains.lt.le, high⟩, passed.2⟩

/-- The value that a loop has come to after a number of rounds. -/
def reached (upward : Bool) (first : Number) (count : ℕ) : Number := (advance upward)^[count] first

private theorem reached_succ (upward : Bool) (first : Number) (count : ℕ) :
    reached upward first (count + 1) = advance upward (reached upward first count) :=
  Function.iterate_succ_apply' _ _ _

private theorem reached_float (upward : Bool) (x : Binary64) (count : ℕ) :
    ∃ y, reached upward (.float x) count = .float y := by
  induction count with
  | zero => exact ⟨x, rfl⟩
  | succ count ih =>
    obtain ⟨y, same⟩ := ih
    rw [reached_succ,same]
    exact ⟨y.stride upward, rfl⟩

/-- The number of integers from the beginning of a range to its end. -/
def width (upward : Bool) (first last : Number) : ℤ := ⌊position upward last⌋ - ⌊position upward first⌋

private theorem width_le (upward : Bool) (first last : Number) :
    width upward first last ≤ ⌊position upward last - position upward first⌋ + 1 := by
  have floors := Int.le_floor_add_floor (position upward last - position upward first) (position upward first)
  rw [sub_add_cancel] at floors
  rw [width]
  omega

section Values

variable {upward : Bool} {first last : Number}

private theorem width_of_whole (whole : position upward first = ⌊position upward first⌋) :
    width upward first last = ⌊position upward last - position upward first⌋ := by
  rw [whole,Int.floor_sub_intCast,width]

private theorem normalized_reached (normalized : first.Normalized) (count : ℕ) :
    (reached upward first count).Normalized := by
  induction count with
  | zero => exact normalized
  | succ count ih =>
    rw [reached_succ]
    exact normalized_advance ih upward

private theorem definite_reached (definite : first.Definite) {count : ℕ}
    (gains : ∀ earlier < count, Gains upward (reached upward first earlier)) :
    (reached upward first count).Definite := by
  induction count with
  | zero => exact definite
  | succ count ih =>
    have before := ih fun earlier below => gains earlier (Nat.lt_succ_of_lt below)
    rw [reached_succ]
    exact ((gains count (Nat.lt_succ_self count)).normalized_advance before).definite

/-- If every round passes an integer, the integer part grows by the number of rounds at least. -/
private theorem floor_add_le {count : ℕ} (gains : ∀ earlier < count, Gains upward (reached upward first earlier)) :
    ⌊position upward first⌋ + count ≤ position upward (reached upward first count) := by
  induction count with
  | zero =>
    rw [Nat.cast_zero,add_zero]
    exact Int.floor_le _
  | succ count ih =>
    have before := ih fun earlier below => gains earlier (Nat.lt_succ_of_lt below)
    have passed := (gains count (Nat.lt_succ_self count)).passes
    rw [← reached_succ] at passed
    have floors : ⌊position upward first⌋ + (count : ℤ) ≤ ⌊position upward (reached upward first count)⌋ :=
      Int.le_floor.mpr (by exact_mod_cast before)
    have floors : (⌊position upward first⌋ + count : ℚ) ≤ ⌊position upward (reached upward first count)⌋ := by
      exact_mod_cast floors
    push_cast
    linarith

private theorem le_width_of_inside {count : ℕ} (gains : ∀ earlier < count, Gains upward (reached upward first earlier))
    (inside : position upward (reached upward first count) ≤ position upward last) :
    count ≤ width upward first last := by
  have floors : ⌊position upward first⌋ + (count : ℤ) ≤ ⌊position upward last⌋ :=
    Int.le_floor.mpr (by exact_mod_cast (floor_add_le gains).trans inside)
  rw [width]
  omega

/-- The values of a range that is left after a number of rounds, each of which has passed an integer. -/
structure Leaves (upward : Bool) (first last : Number) (total : ℕ) : Prop where
  inside : ∀ count < total, position upward (reached upward first count) ≤ position upward last
  gains : ∀ count < total, Gains upward (reached upward first count)
  passed : position upward last < position upward (reached upward first total)

private theorem exists_leaves
    (gains : ∀ count, (∀ earlier ≤ count, position upward (reached upward first earlier) ≤ position upward last) →
      Gains upward (reached upward first count)) :
    ∃ total, Leaves upward first last total := by
  have some_passed : ∃ total, position upward last < position upward (reached upward first total) := by
    by_contra never
    have inside (count : ℕ) : position upward (reached upward first count) ≤ position upward last :=
      not_lt.mp fun passed => never ⟨count, passed⟩
    -- more integers would have been passed than there are
    have few := le_width_of_inside (fun count (_ : count < (width upward first last + 1).toNat) =>
      gains count fun earlier _ => inside earlier) (inside _)
    omega
  classical
  have inside (count : ℕ) (below : count < Nat.find some_passed) :
      position upward (reached upward first count) ≤ position upward last :=
    not_lt.mp (Nat.find_min some_passed below)
  exact ⟨Nat.find some_passed, inside, fun count below => gains count fun earlier le =>
    inside earlier (le.trans_lt below), Nat.find_spec some_passed⟩

private theorem Steady.reached (steady : Steady upward last first) {count : ℕ}
    (inside : ∀ earlier < count, position upward (reached upward first earlier) ≤ position upward last) :
    Steady upward last (Loop.reached upward first count) ∧
      (position upward first = ⌊position upward first⌋ →
        position upward (Loop.reached upward first count) = position upward first + count) := by
  -- on the number of rounds; a step is as long as it should be only from an integer
  induction count with
  | zero => exact ⟨steady, fun _ => by rw [Nat.cast_zero,add_zero]; rfl⟩
  | succ count ih =>
    obtain ⟨here, place⟩ := ih fun earlier below => inside earlier (Nat.lt_succ_of_lt below)
    obtain ⟨-, next, precise⟩ := here.advance (inside count (Nat.lt_succ_self count))
    rw [reached_succ]
    refine ⟨next, fun whole => ?_⟩
    have whole' : position upward (Loop.reached upward first count) =
        ⌊position upward (Loop.reached upward first count)⌋ := by
      rw [place whole,whole,← Int.cast_natCast,← Int.cast_add,Int.floor_intCast]
    rw [precise whole',place whole]
    push_cast
    ring

private theorem width_le_roundBound (definite : last.Definite) (n : ℤ) :
    (width upward (.int n) last + 1).toNat ≤ roundBound upward (.int n) last := by
  refine Int.toNat_le_toNat ?_
  rw [width,floor_position_int]
  cases last with
  | int m =>
    rw [floor_position_int]
    cases upward <;> simp only [if_true,Bool.false_eq_true,if_false] <;> omega
  | float x =>
    rw [position_float]
    cases upward with
    | true =>
      simp only [Binary64.facing,if_true,Binary64.floor?_eq definite,Option.getD_some]
      omega
    | false =>
      simp only [Binary64.facing,Bool.false_eq_true,if_false,
        Binary64.floor?_eq (Binary64.isFinite_neg definite),Option.getD_some]
      omega

namespace Leaves

variable {total : ℕ} (leaves : Leaves upward first last total)
include leaves

private theorem total_le : total ≤ (width upward first last + 1).toNat := by
  cases total with
  | zero => exact Nat.zero_le _
  | succ count =>
    have few := le_width_of_inside (fun earlier below => leaves.gains earlier (Nat.lt_succ_of_lt below))
      (leaves.inside count (Nat.lt_succ_self count))
    omega

/-- From an integer on, steps as long as they should be give as many rounds as the range has integers. -/
private theorem total_eq (steady : Steady upward last first) (whole : position upward first = ⌊position upward first⌋)
    (ahead : position upward first ≤ position upward last) :
    total = ⌊position upward last - position upward first⌋ + 1 := by
  have beyond := leaves.passed
  rw [(steady.reached leaves.inside).2 whole] at beyond
  cases total with
  | zero =>
    rw [Nat.cast_zero,add_zero] at beyond
    exact absurd ahead beyond.not_ge
  | succ count =>
    have inside := leaves.inside count (Nat.lt_succ_self count)
    rw [(steady.reached fun earlier below => leaves.inside earlier (Nat.lt_succ_of_lt below)).2 whole] at inside
    push_cast at beyond
    have floor : ⌊position upward last - position upward first⌋ = count :=
      Int.floor_eq_iff.mpr ⟨by push_cast; linarith, by push_cast; linarith⟩
    rw [floor,Nat.cast_succ]

/-- The bound on the rounds of a loop is not reached by values that pass an integer in each round. -/
private theorem total_le_roundBound (definite : last.Definite) : total ≤ roundBound upward first last := by
  cases first with
  | int n => exact leaves.total_le.trans (width_le_roundBound definite n)
  | float x =>
    cases total with
    | zero => exact Nat.zero_le _
    | succ count =>
      -- all values are small, and so there are not many integers among them
      have small (earlier : ℕ) (below : earlier < count + 1) :
          |position upward (reached upward (.float x) earlier)| ≤ 2 ^ 54 := by
        obtain ⟨y, same⟩ := reached_float upward x earlier
        rw [same,position_float,Binary64.abs_toRat_facing]
        exact (leaves.gains earlier below).small y same
      have low : -2 ^ 54 ≤ ⌊position upward (.float x)⌋ :=
        Int.le_floor.mpr (by exact_mod_cast (abs_le.mp (small 0 (Nat.succ_pos count))).1)
      have high := (abs_le.mp (small count (Nat.lt_succ_self count))).2
      have rounds := (floor_add_le fun earlier below => leaves.gains earlier (Nat.lt_succ_of_lt below)).trans high
      have rounds : ⌊position upward (.float x)⌋ + count ≤ (2 ^ 54 : ℤ) := by exact_mod_cast rounds
      have patient : patience = 2 ^ 64 := rfl
      rw [roundBound,patient]
      omega

private theorem within_iff (definite : first.Definite) (definite' : last.Definite) {count : ℕ} (le : count ≤ total) :
    within upward last (reached upward first count) = true ↔
      position upward (reached upward first count) ≤ position upward last :=
  Loop.within_iff (definite_reached definite fun earlier below => leaves.gains earlier (below.trans_le le))
    definite' upward

end Leaves

/-- The values of a range in which a loop comes to a standstill. -/
structure Stays (upward : Bool) (first last : Number) : Prop where
  standstill : ∃ count, ∀ later ≥ count, reached upward first later = reached upward first count
  inside : ∀ count, position upward (reached upward first count) ≤ position upward last

private theorem stays_of_advance_eq {count : ℕ}
    (inside : ∀ earlier ≤ count, position upward (reached upward first earlier) ≤ position upward last)
    (lost : advance upward (reached upward first count) = reached upward first count) :
    Stays upward first last := by
  have still (later : ℕ) (le : count ≤ later) : reached upward first later = reached upward first count := by
    obtain ⟨more, rfl⟩ := Nat.exists_eq_add_of_le' le
    rw [reached,Function.iterate_add_apply]
    exact Function.iterate_fixed lost more
  refine ⟨⟨count, still⟩, fun later => ?_⟩
  rcases le_total later count with before | after
  · exact inside later before
  · rw [still later after]
    exact inside count le_rfl

private theorem leaves_or_stays (normalized : first.Normalized) :
    (∃ total, Leaves upward first last total) ∨ Stays upward first last := by
  by_cases lost : ∃ count,
      (∀ earlier ≤ count, position upward (reached upward first earlier) ≤ position upward last) ∧
      advance upward (reached upward first count) = reached upward first count
  · obtain ⟨count, inside, same⟩ := lost
    exact .inr (stays_of_advance_eq inside same)
  · refine .inl (exists_leaves fun count inside => ?_)
    exact (advance_eq_or_gains (normalized_reached normalized count) upward).resolve_left fun same =>
      lost ⟨count, inside, same⟩

private theorem reached_le_plateau {x : Binary64} (normalized : (Number.float x).Normalized)
    (below : position upward (.float x) ≤ 2 ^ 53) (count : ℕ) :
    position upward (reached upward (.float x) count) ≤ 2 ^ 53 := by
  induction count with
  | zero => exact below
  | succ count ih =>
    have normalized' : (reached upward (.float x) count).Normalized := normalized_reached normalized count
    rw [reached_succ]
    obtain ⟨y, same⟩ := reached_float upward x count
    rw [same,position_float] at ih
    rw [same] at normalized' ⊢
    have next := Binary64.stride_le_plateau normalized' ih
    rwa [← position_float] at next

private theorem stays_of_lost {x : Binary64} (normalized : (Number.float x).Normalized)
    (ahead : position upward (.float x) ≤ position upward last)
    (lost : position upward (.float x) ≤ 2 ^ 53 ∧ 2 ^ 53 ≤ position upward last ∨ 2 ^ 54 < |x.toRat|) :
    Stays upward (.float x) last := by
  -- a standstill need not be found: it is enough that the range cannot be left
  refine (leaves_or_stays normalized).resolve_left fun ⟨total, leaves⟩ => ?_
  rcases lost with ⟨below, above⟩ | large
  · exact leaves.passed.not_ge ((reached_le_plateau normalized below total).trans above)
  · rcases Nat.eq_zero_or_pos total with rfl | positive
    · exact leaves.passed.not_ge ahead
    · exact large.not_ge ((leaves.gains 0 positive).small x rfl)

end Values

section Rounds

variable (round : Number → ExecOf Code (Option Value)) {upward : Bool} {last : Number}

private theorem course_of_through {total : ℕ} {first : Number} {bound : ℕ}
    (going : ∀ count < total, within upward last (reached upward first count) = true)
    (passed : within upward last (reached upward first total) = false) (enough : total ≤ bound)
    (world : World Code) :
    ∃ done, Course (fun count => round (reached upward first count)) total world done
      (through round upward last bound first world) := by
  -- on the rounds that are left, in the world that the one before them leaves
  induction total generalizing first bound world with
  | zero =>
    have beyond : within upward last first = false := passed
    have run : through round upward last bound first world = (.ok none, world) := by
      cases bound <;> rw [through,if_neg (by simpa using beyond)] <;> rfl
    rw [run]
    exact ⟨0, .nil⟩
  | succ total ih =>
    have begun : within upward last first = true := going 0 (Nat.succ_pos total)
    cases bound with
    | zero => exact absurd enough (Nat.not_succ_le_zero total)
    | succ bound =>
      rw [through,if_pos begun,Exec.bind_run]
      rcases ran : round first world with ⟨halt | _ | value, after⟩
      · exact ⟨0, .cut ran (by simp)⟩
      · obtain ⟨done, course⟩ := ih (fun count below => going (count + 1) (Nat.succ_lt_succ below)) passed
          (Nat.le_of_succ_le_succ enough) after
        exact ⟨_, .cons ran course⟩
      · have returned : (Except.ok (some value) : Except Halt (Option Value)) ≠ .ok none := by simp
        exact ⟨0, .cut ran returned⟩

private theorem through_ne_none {first : Number}
    (going : ∀ count, within upward last (reached upward first count) = true) (bound : ℕ)
    (world : World Code) : (through round upward last bound first world).1 ≠ .ok none := by
  induction bound generalizing first world with
  | zero =>
    have begun : within upward last first = true := going 0
    rw [through,if_pos begun]
    exact fun ended => by cases ended
  | succ bound ih =>
    have begun : within upward last first = true := going 0
    rw [through,if_pos begun,Exec.bind_run]
    rcases round first world with ⟨halt | _ | value, after⟩
    · exact fun ended => by cases ended
    · exact ih (fun count => going (count + 1)) after
    · exact fun ended => by cases ended

end Rounds

private theorem direction_eq {first last : Number} (definite : first.Definite) (definite' : last.Definite) :
    (first.compare? last).any Ordering.isLE = decide (first.toRat ≤ last.toRat) := by
  rw [Number.compare?_eq definite definite',Bool.eq_iff_iff,decide_eq_true_iff]
  exact isLE_cmp _ _

private theorem position_le (first last : Number) :
    position (first.toRat ≤ last.toRat) first ≤ position (first.toRat ≤ last.toRat) last ∧
      position (first.toRat ≤ last.toRat) last - position (first.toRat ≤ last.toRat) first =
        |last.toRat - first.toRat| := by
  rcases le_or_gt first.toRat last.toRat with le | gt
  · simp only [position,decide_eq_true le,if_true]
    exact ⟨le, (abs_of_nonneg (sub_nonneg.mpr le)).symm⟩
  · simp only [position,decide_eq_false gt.not_ge,Bool.false_eq_true,if_false]
    rw [abs_of_neg (sub_neg.mpr gt)]
    exact ⟨neg_le_neg gt.le, by ring⟩

private theorem position_eq_floor {first : Number} (whole : ∃ n : ℤ, first.toRat = n) (upward : Bool) :
    position upward first = ⌊position upward first⌋ := by
  obtain ⟨n, same⟩ := whole
  cases upward with
  | true => rw [position,if_pos rfl,same,Int.floor_intCast]
  | false => rw [position,if_neg Bool.false_ne_true,same,← Int.cast_neg,Int.floor_intCast]

section Endings

variable {upward : Bool} {first last : Number} {ending : Except Halt (Option Value) × World Code}

/-- A loop that leaves its range after a number of rounds, unless one of them returns or halts. Each round brings
its value nearer to the end; the rounds are not more than the integers from an integral first value to the last
one, and at most one more than them otherwise. -/
structure Ends (round : Number → ExecOf Code (Option Value)) (upward : Bool) (first last : Number)
    (world : World Code) (ending : Except Halt (Option Value) × World Code) (total : ℕ) : Prop where
  course : ∃ done, Course (fun count => round (reached upward first count)) total world done ending
  inside : ∀ count < total, position upward (reached upward first count) ≤ position upward last
  nearer : ∀ count < total,
    position upward (reached upward first count) < position upward (reached upward first (count + 1))
  passed : position upward last < position upward (reached upward first total)
  few : total ≤ ⌊|last.toRat - first.toRat|⌋₊ + 2
  fewer : (∃ n : ℤ, first.toRat = n) → total ≤ ⌊|last.toRat - first.toRat|⌋₊ + 1

/-- A loop that comes to a standstill within its range, and ends only if a round returns or halts. -/
structure Stalls (upward : Bool) (first last : Number) (ending : Except Halt (Option Value) × World Code) : Prop
    extends Stays upward first last where
  endless : ending.1 ≠ .ok none

private theorem Leaves.ends {total : ℕ} (leaves : Leaves upward first last total) (definite : first.Definite)
    (definite' : last.Definite) (direction : upward = decide (first.toRat ≤ last.toRat))
    (round : Number → ExecOf Code (Option Value)) (world : World Code) :
    Ends round upward first last world
      (through round upward last (roundBound upward first last) first world) total := by
  have distance := (position_le first last).2
  rw [← direction] at distance
  have most := leaves.total_le
  have going (count : ℕ) (below : count < total) : within upward last (reached upward first count) = true :=
    (leaves.within_iff definite definite' below.le).mpr (leaves.inside count below)
  have passed : within upward last (reached upward first total) = false :=
    Bool.eq_false_iff.mpr fun inside =>
      leaves.passed.not_ge ((leaves.within_iff definite definite' le_rfl).mp inside)
  refine ⟨course_of_through round going passed (leaves.total_le_roundBound definite') world, leaves.inside,
    fun count below => ?_, leaves.passed, ?_, fun whole => ?_⟩
  · rw [reached_succ]
    exact (leaves.gains count below).lt
  · have few := width_le upward first last
    rw [distance] at few
    rw [← Int.floor_toNat]
    omega
  · rw [width_of_whole (position_eq_floor whole upward),distance] at most
    rw [← Int.floor_toNat]
    have distant := Int.floor_nonneg.mpr (abs_nonneg (last.toRat - first.toRat))
    omega

private theorem Stays.stalls (stays : Stays upward first last) (normalized : first.Normalized)
    (definite : last.Definite)
    (round : Number → ExecOf Code (Option Value)) (world : World Code) :
    Stalls upward first last (through round upward last (roundBound upward first last) first world) := by
  refine ⟨stays, through_ne_none round (fun count => ?_) _ world⟩
  exact (within_iff (normalized_reached normalized count).definite definite upward).mpr (stays.inside count)

end Endings

end Loop

private theorem Machine.range_run (machine : Machine Code) (setup : Setup) (name : String)
    (firstToken lastToken : Token) (body : List Line) (frame : FrameId) (context : ContextId)
    {world middle after : World Code} {start stop : Value} {first last : Number}
    (evaluated : machine.token firstToken frame context world = (.ok start, middle))
    (evaluated' : machine.token lastToken frame context middle = (.ok stop, after))
    (accepted : Loop.bounds? start stop = .ok (some (first, last))) :
    machine.statement setup frame context (.loop (.range name firstToken lastToken) body) world =
      Loop.through (fun value => machine.round (machine.code body) frame context
        (Table.empty.insert name (.number value))) (first.toRat ≤ last.toRat) last
        (Loop.roundBound (first.toRat ≤ last.toRat) first last) first after := by
  obtain ⟨definite, definite'⟩ := Loop.definite_of_bounds? accepted
  simp only [Machine.statement,Machine.loop,Exec.bind_run,evaluated,evaluated',Exec.liftExcept_run,accepted,
    Machine.round_single,Loop.direction_eq definite definite']

/-- A loop over a range whose bounds are accepted leaves its range, or it comes to a standstill. It leaves it if it
begins with an integer, or if its values stay where all integers are floating-point numbers: its rounds are then
as many as the integers from an integral first value to the last one. A loop of floating-point numbers that would
have to go beyond `2 ^ 53`, or begins beyond `2 ^ 54`, comes to a standstill. -/
theorem range_loops_end_or_stand_still (machine : Machine Code) (setup : Setup) (name : String)
    (firstToken lastToken : Token) (body : List Line) (frame : FrameId) (context : ContextId)
    {world middle after : World Code} {start stop : Value} {first last : Number}
    (evaluated : machine.token firstToken frame context world = (.ok start, middle))
    (evaluated' : machine.token lastToken frame context middle = (.ok stop, after))
    (accepted : Loop.bounds? start stop = .ok (some (first, last))) :
    let upward := decide (first.toRat ≤ last.toRat)
    let round := fun value => machine.round (machine.code body) frame context
      (Table.empty.insert name (.number value))
    let ending := machine.statement setup frame context (.loop (.range name firstToken lastToken) body) world
    (first.Normalized →
      (∃ total, Loop.Ends round upward first last after ending total) ∨ Loop.Stalls upward first last ending) ∧
    ((∀ x, first = .float x →
        -2 ^ 53 ≤ Loop.position upward first ∧ Loop.position upward last < 2 ^ 53) →
      ∃ total, Loop.Ends round upward first last after ending total ∧
        ((∃ n : ℤ, first.toRat = n) → total = ⌊|last.toRat - first.toRat|⌋₊ + 1)) ∧
    ∀ x, first = .float x → x.Normalized →
      (Loop.position upward first ≤ 2 ^ 53 ∧ 2 ^ 53 ≤ Loop.position upward last ∨ 2 ^ 54 < |x.toRat|) →
      Loop.Stalls upward first last ending := by
  intro upward round ending
  obtain ⟨definite, definite'⟩ := Loop.definite_of_bounds? accepted
  obtain ⟨ahead, distance⟩ := Loop.position_le first last
  have run : ending = Loop.through round upward last (Loop.roundBound upward first last) first after :=
    machine.range_run setup name firstToken lastToken body frame context evaluated evaluated' accepted
  rw [run]
  refine ⟨fun normalized => ?_, fun small => ?_, ?_⟩
  · rcases Loop.leaves_or_stays normalized with ⟨total, leaves⟩ | stays
    · exact .inl ⟨total, leaves.ends definite definite' rfl round after⟩
    · exact .inr (stays.stalls normalized definite' round after)
  · have steady : Loop.Steady upward last first := by
      cases first with
      | int => trivial
      | float x => exact ⟨definite, small x rfl⟩
    obtain ⟨total, leaves⟩ := Loop.exists_leaves fun count inside =>
      ((steady.reached fun earlier below => inside earlier below.le).1.advance (inside count le_rfl)).1
    refine ⟨total, leaves.ends definite definite' rfl round after, fun whole => ?_⟩
    have precise := leaves.total_eq steady (Loop.position_eq_floor whole upward) ahead
    rw [distance] at precise
    have distant := Int.floor_nonneg.mpr (abs_nonneg (last.toRat - first.toRat))
    rw [← Int.floor_toNat]
    omega
  · rintro x rfl normalized lost
    exact (Loop.stays_of_lost normalized ahead lost).stalls normalized definite' round after

namespace Plateau

def next : Binary64 := .finite false (2 ^ 52 + 1) 1

/-- A world with variables that hold `2 ^ 53` and the number that follows it. -/
def world : World := ({} : World).opened
  { vars := (Table.empty.insert "x" (.number (.float .plateau))).insert "y" (.number (.float next)) }

def loop (first last : Token) : Statement := .loop (.range "i" first last) []

def round (value : Number) : Exec (Option Value) :=
  (Machine.level {} 2).round [] 0 0 (Table.empty.insert "i" (.number value))

private theorem token_plateau :
    (Machine.level {} 2).token "x".toList 0 0 world = (.ok (.number (.float .plateau)), world) := rfl

private theorem token_next :
    (Machine.level {} 2).token "y".toList 0 0 world = (.ok (.number (.float next)), world) := rfl

private theorem token_zero : (Machine.level {} 2).token "0".toList 0 0 world = (.ok (.number (.int 0)), world) := rfl

private theorem bounds_zero :
    Loop.bounds? (.number (.float .plateau)) (.number (.int 0)) = .ok (some (.float .plateau, .int 0)) := rfl

private theorem bounds_same {x : Binary64} (finite : x.isFinite = true) :
    Loop.bounds? (.number (.float x)) (.number (.float x)) = .ok (some (.float x, .float x)) := by
  cases x with
  | finite => rfl
  | infinite => cases finite
  | nan => cases finite

private theorem downward : decide ((Number.float .plateau).toRat ≤ (Number.int 0).toRat) = false := by
  rw [Number.toRat,Number.toRat,Binary64.toRat_plateau]
  norm_num

private theorem upward (x : Binary64) : decide ((Number.float x).toRat ≤ (Number.float x).toRat) = true :=
  decide_eq_true le_rfl

private theorem normalized_next : next.Normalized := by
  refine ⟨by norm_num, by decide, by decide, .inl (by norm_num)⟩

private theorem toRat_next : next.toRat = 2 ^ 53 + 2 := by
  rw [next,Binary64.toRat,Binary64.sign]
  norm_num

private theorem stride_next : next.stride true = .finite false (2 ^ 52 + 2) 1 := by decide +kernel

private theorem next_lt_advance :
    Loop.position true (.float next) < Loop.position true (Loop.advance true (.float next)) := by
  have after : Loop.advance true (.float next) = .float (.finite false (2 ^ 52 + 2) 1) :=
    congrArg Number.float stride_next
  rw [after,Loop.position,Loop.position,if_pos rfl,if_pos rfl,Number.toRat,Number.toRat,toRat_next,Binary64.toRat,
    Binary64.sign]
  norm_num

end Plateau

open Plateau in
/-- A loop from `2 ^ 53` down to zero has `2 ^ 53 + 1` rounds, and one from there to itself comes to a standstill;
the number that follows has one round. -/
theorem range_loops_end_or_stand_still_at_plateau :
    Loop.Ends round false (.float .plateau) (.int 0) world
      ((Machine.level {} 2).statement {} 0 0 (loop "x".toList "0".toList) world) (2 ^ 53 + 1) ∧
    Loop.Stalls true (.float .plateau) (.float .plateau)
      ((Machine.level {} 2).statement {} 0 0 (loop "x".toList "x".toList) world) ∧
    Loop.Ends round true (.float next) (.float next) world
      ((Machine.level {} 2).statement {} 0 0 (loop "y".toList "y".toList) world) 1 := by
  have place : (Number.float .plateau).toRat = 2 ^ 53 := Binary64.toRat_plateau
  refine ⟨?_, ?_, ?_⟩
  · have ends := (range_loops_end_or_stand_still (Machine.level {} 2) {} "i" _ _ [] 0 0
      token_plateau token_zero bounds_zero).2.1
    rw [downward] at ends
    obtain ⟨total, ends, precise⟩ := ends fun x _ => by
      simp only [Loop.position,place,Bool.false_eq_true,if_false,le_refl,true_and]
      norm_num [Number.toRat]
    have rounds : total = 2 ^ 53 + 1 := by
      rw [precise ⟨2 ^ 53, by rw [place]; norm_num⟩,place,Number.toRat]
      norm_num
    rwa [rounds] at ends
  · have stalls := (range_loops_end_or_stand_still (Machine.level {} 2) {} "i" _ _ [] 0 0
      token_plateau token_plateau (bounds_same rfl)).2.2 _ rfl Binary64.normalized_plateau
    rw [upward] at stalls
    exact stalls (.inl (by simp only [Loop.position,place,if_true,le_refl,and_self]))
  · have either := (range_loops_end_or_stand_still (Machine.level {} 2) {} "i" _ _ [] 0 0
      token_next token_next (bounds_same rfl)).1 normalized_next
    rw [upward] at either
    rcases either with ⟨total, ends⟩ | stalls
    · have most := ends.fewer ⟨2 ^ 53 + 2, by rw [Number.toRat,toRat_next]; norm_num⟩
      rw [sub_self,abs_zero,Nat.floor_zero] at most
      have begun : total ≠ 0 := fun none => (none ▸ ends.passed).false
      have rounds : total = 1 := by omega
      rwa [rounds] at ends
    · exact absurd (stalls.inside 1) next_lt_advance.not_ge

open Plateau in
/-- A loop whose only value is `2 ^ 53` does not end, although its body does nothing. -/
theorem loop_of_one_value_never_ends :
    (∀ frame context world, (Machine.level {} 2).block [] frame context world = (.ok none, world)) ∧
    ((Machine.level {} 2).statement {} 0 0 (loop "x".toList "x".toList) world).1 ≠ .ok none := by
  refine ⟨fun frame context world => rfl, ?_⟩
  have run := (Machine.level {} 2).range_run {} "i" _ _ [] 0 0 token_plateau token_plateau (bounds_same rfl)
  rw [upward] at run
  have place : Loop.position true (.float .plateau) = 2 ^ 53 := Binary64.toRat_plateau
  have stays : Loop.Stays true (.float .plateau) (.float .plateau) :=
    Loop.stays_of_lost Binary64.normalized_plateau le_rfl (.inl ⟨place.le, place.ge⟩)
  rw [loop,run]
  exact (stays.stalls Binary64.normalized_plateau Binary64.normalized_plateau.isFinite _ _).endless

end Inyandiko
