import Inyandiko.Proofs.CallText
import Inyandiko.Proofs.Program.Line

/-! Calls in programs. The text of a call is read as a call of its name with its arguments. -/
namespace Inyandiko

open Text Source

private theorem Argument.listable {arg : Chars} (argument : Argument arg) : Listable arg :=
  .of_commas argument.nonempty argument.trimmed argument.steady argument.undivided

private theorem Listing.pad {tokens : List Chars} {text pad : Chars} (listing : Listing tokens text)
    (blank : pad.all isBlank = true) : Listing tokens (pad ++ text) := by
  have wider {before : Chars} (more : before.all isBlank = true) : (pad ++ before).all isBlank = true := by
    rw [List.all_append,blank,more]
    rfl
  cases listing with
  | none more => exact .none (wider more)
  | last blankBefore blankAfter =>
    rw [← List.append_assoc,← List.append_assoc]
    exact .last (wider blankBefore) blankAfter
  | more blankBefore blankAfter some_ later =>
    rw [← List.append_assoc,← List.append_assoc,← List.append_assoc]
    exact .more (wider blankBefore) blankAfter some_ later

private theorem listing_listed (args : List Chars) : Listing args (listed args) := by
  induction args with
  | nil => exact .none rfl
  | cons arg rest ih =>
    cases rest with
    | nil =>
      have last := @Listing.last [] arg [] rfl rfl
      rwa [List.nil_append,List.append_nil] at last
    | cons other rest =>
      have more := @Listing.more [] arg [] _ _ rfl rfl (List.cons_ne_nil other rest) (ih.pad (all_isBlank_spaces 1))
      rwa [List.nil_append,List.append_nil] at more

/-- The text of a call is read as this call. -/
theorem parse?_callText {name : Chars} {args : List Chars} (identifier : isIdentifier name = true)
    (each : ∀ arg ∈ args, Argument arg) {line : Line} (trimmed : trim line = callText name args) :
    Call.parse? line = some ⟨String.ofList name, args, callText name args⟩ := by
  have listing := listing_listed args
  have listable := fun arg member => (each arg member).listable
  have spelled : Spelled name (listed args) (callText name args) :=
    ⟨identifier, (listing.steady listable).enclosed, [], rfl, by rw [List.append_nil]; rfl⟩
  have shown : stripSemicolon (trim line) = callText name args := by
    rw [trimmed,stripSemicolon,callText_ends,if_neg (by decide)]
  rw [spelled.parse? shown,splitTopLevel_listing listing listable]

end Inyandiko
