import Inyandiko.Proofs.HostCall

/-! The check of e-mail addresses. A text is taken for an address if it is a user, an at sign and a domain with a dot
inside, and blanks and other at signs are nowhere; the blanks around it do not matter. -/
namespace Inyandiko

open Text Source

namespace Validation

/-- A text that is an address: its user and its domain, which has a dot that is neither first nor last in it. -/
structure AddressOf (user domain text : Chars) : Prop where
  whole : text = user ++ '@' :: domain
  named : user ≠ []
  clean : ∀ c ∈ user ++ domain, isBlank c = false ∧ c ≠ '@'
  dotted : ∃ front back, domain = front ++ '.' :: back ∧ front ≠ [] ∧ back ≠ []

private theorem isAddressChar_iff (c : Char) : isAddressChar c = true ↔ isBlank c = false ∧ c ≠ '@' := by
  simp [isAddressChar]

/-- What the pattern matches: the parts that it takes are a user and the two sides of a dot of the domain. -/
private theorem isMatch_address_iff {text : Chars} :
    address.isMatch text = true ↔ ∃ user front back rest,
      text = user ++ '@' :: (front ++ '.' :: (back ++ rest)) ∧ (user ≠ [] ∧ front ≠ [] ∧ back ≠ []) ∧
        (∀ c ∈ user ++ (front ++ back), isAddressChar c = true) ∧ (rest = [] ∨ rest = ['\n']) := by
  simp only [address,Pattern.isMatch_run,Pattern.isMatch_one,Pattern.isMatch_finish,List.all_eq_true,List.mem_append]
  constructor
  · rintro ⟨user, _, rfl, named, users, _, rfl, front, _, rfl, some_, fronts, _, rfl, back, rest, rfl, more, backs, ends⟩
    refine ⟨user, front, back, rest, rfl, ⟨named, some_, more⟩, ?_, ends⟩
    rintro c (inUser | inFront | inBack)
    · exact users c inUser
    · exact fronts c inFront
    · exact backs c inBack
  · rintro ⟨user, front, back, rest, rfl, ⟨named, some_, more⟩, clean, ends⟩
    exact ⟨user, _, rfl, named, fun c member => clean c (.inl member), _, rfl, front, _, rfl, some_,
      fun c member => clean c (.inr (.inl member)), _, rfl, back, rest, rfl, more,
      fun c member => clean c (.inr (.inr member)), ends⟩

private theorem isMatch_address {text : Chars} (trimmed : Trimmed text) :
    address.isMatch text = true ↔ ∃ user domain, AddressOf user domain text := by
  rw [isMatch_address_iff]
  constructor
  · rintro ⟨user, front, back, rest, rfl, ⟨named, some_, more⟩, clean, rfl | rfl⟩
    · rw [List.append_nil]
      refine ⟨user, front ++ '.' :: back, rfl, named, fun c member => ?_, front, back, rfl, some_, more⟩
      by_cases dot : c = '.'
      · rw [dot]
        decide
      · rw [← isAddressChar_iff]
        refine clean c ?_
        simpa only [List.mem_append,List.mem_cons,dot,false_or] using member
    · have whole : user ++ '@' :: (front ++ '.' :: (back ++ ['\n'])) =
          (user ++ '@' :: (front ++ '.' :: back)) ++ ['\n'] := by
        simp
      have last := trimmed.last
      rw [whole,List.getLast?_concat] at last
      exact absurd last (by decide)
  · rintro ⟨user, _, rfl, named, clean, front, back, rfl, some_, more⟩
    simp only [← isAddressChar_iff] at clean
    refine ⟨user, front, back, [], by rw [List.append_nil], ⟨named, some_, more⟩, fun c member => clean c ?_, .inl rfl⟩
    simp only [List.mem_append,List.mem_cons] at member ⊢
    exact member.imp_right (Or.imp_right .inr)

section Command

variable {Code : Type} {line : Line} {surface : Nat} {frame : FrameId} {world after : World Code} {text : String}

/-- A line that checks an element for an address; the element holds a text. -/
inductive AddressCheck (line : Line) (surface : Nat) (frame : FrameId) (world : World Code) (text : String)
    (after : World Code) : Prop
  | intro {token : Token} {shown : Line} {value : Value} {selector : String}
    (read : Call.parse? line = some ⟨"si_imererwe_neza", [token], shown⟩)
    (evaluated : Exec.evaluateIn frame token world = (.ok value, after))
    (selected : after.heap.hostText value = .ok selector)
    (held : (after.surfaces[surface]?.getD {}).elements.get? selector = some (.text text))

private theorem isNotAddress_of_text {shown : Surface} {selector : String}
    (held : shown.elements.get? selector = some (.text text)) :
    isNotAddress shown selector = .ok !address.isMatch (trim text.toList) := by
  simp only [isNotAddress,textOf,Surface.read,held,bind,Except.bind,pure,Except.pure]

private theorem AddressCheck.handle_run (check : AddressCheck line surface frame world text after) :
    handle line (some surface) frame world = (.ok (some (.bool !address.isMatch (trim text.toList))), after) := by
  obtain ⟨read, evaluated, selected, held⟩ := check
  rename_i token shown value selector
  have named : Call.parseNamed? line names = some ⟨"si_imererwe_neza", [token], shown⟩ := by
    rw [Call.parseNamed?,read]
    rfl
  have one : Call.evaluateOne ⟨"si_imererwe_neza", [token], shown⟩ frame world = (.ok value, after) := by
    simp only [Call.evaluateOne,Call.evaluateArgs,List.length_singleton,ne_eq,not_true_eq_false,if_false,
      List.mapM_cons,List.mapM_nil,Exec.bind_run,evaluated]
    rfl
  rw [handle,named]
  simp only [perform,Exec.bind_run,one,Exec.hostText,Exec.askHeap_run,selected,Exec.surface_run,
    isNotAddress_of_text held,Exec.liftExcept_run]
  rfl

private theorem AddressCheck.byFamilies_run (check : AddressCheck line surface frame world text after) {setup : Setup}
    {context : ContextId} (environment : setup.environment = none) (validation : setup.validation = none)
    (shown : (world.contextAt context).surface = some surface) :
    Machine.byFamilies setup line frame context world =
      (if address.isMatch (trim text.toList) = false ∧ (after.contextAt context).stopOnInvalid = true then
        .error (.invalid (String.ofList line)) else .ok (some (.bool !address.isMatch (trim text.toList))), after) := by
  have checked := check.handle_run
  obtain ⟨read, -, -, -⟩ := check
  have left (listener : Option (String → Listener)) :
      Environment.handle line (some surface) frame listener world = (.ok none, world) := by
    have other : Call.parseNamed? line Environment.names = none := by
      rw [Call.parseNamed?,read]
      rfl
    rw [Environment.handle,other]
    rfl
  simp only [Machine.byFamilies,Machine.consult,environment,validation,Exec.bind_run,Exec.context_run,shown,left,checked,
    Machine.stopIfInvalid,Exec.heap_run]
  cases address.isMatch (trim text.toList) with
  | true => rfl
  | false => cases (after.contextAt context).stopOnInvalid <;> rfl

private theorem addressCheck_name (name : VariableName) {selector : String}
    (visible : world.scopes.resolve? frame (String.ofList name.text) = some (.text selector))
    (held : (world.surfaces[surface]?.getD {}).elements.get? selector = some (.text text)) :
    AddressCheck (callText "si_imererwe_neza".toList [name.text]) surface frame world text world := by
  have each : ∀ arg ∈ [name.text], Argument arg := by
    simpa only [List.mem_singleton,forall_eq] using name.argument
  have identifier : isIdentifier "si_imererwe_neza".toList = true := by decide
  obtain ⟨some_, words⟩ := all_isWordChar_identifier identifier
  obtain ⟨logical, -⟩ := logical_callText (wording_of_words words) some_ (trimmed_words words).first each
  have read := parse?_callText identifier each logical.trimmed.trim_eq
  rw [String.ofList_toList] at read
  exact .intro read (VariableName.evaluateIn_run visible) rfl held

end Command

end Validation

open Validation

/-- The check of an element that holds a text reports no problem exactly if the text, without the blanks around it, is
an address, and a problem otherwise; a run that is to stop at problems goes on exactly then. Every text of every
element can be checked: with a name for the selector, the call of the check by this name is such a line. -/
theorem address_check_accepts_addresses {Code : Type} (surface : Nat) (frame : FrameId) (text : String) :
    let address := ∃ user domain, AddressOf user domain (trim text.toList)
    (∀ line (world after : World Code), AddressCheck line surface frame world text after →
      (handle line (some surface) frame world = (.ok (some (.bool false)), after) ↔ address) ∧
      (handle line (some surface) frame world = (.ok (some (.bool true)), after) ↔ ¬address) ∧
      ∀ (setup : Setup) context, setup.environment = none → setup.validation = none →
        (world.contextAt context).surface = some surface →
        (address → Machine.byFamilies setup line frame context world = (.ok (some (.bool false)), after)) ∧
        (¬address → Machine.byFamilies setup line frame context world =
          (if (after.contextAt context).stopOnInvalid then .error (.invalid (String.ofList line))
            else .ok (some (.bool true)), after))) ∧
    ∀ (name : VariableName) selector (world : World Code),
      world.scopes.resolve? frame (String.ofList name.text) = some (.text selector) →
      (world.surfaces[surface]?.getD {}).elements.get? selector = some (.text text) →
      AddressCheck (callText "si_imererwe_neza".toList [name.text]) surface frame world text world := by
  intro address
  have spec : Validation.address.isMatch (trim text.toList) = true ↔ address := isMatch_address (trimmed_trim _)
  refine ⟨fun line world after check => ?_, fun name selector world visible held => addressCheck_name name visible held⟩
  have same (one two : Bool) :
      ((.ok (some (.bool one)), after) : Except Halt (Option Value) × World Code) = (.ok (some (.bool two)), after) ↔
        one = two := by simp
  have ran := check.handle_run
  refine ⟨?_, ?_, fun setup context environment validation shown => ?_⟩
  · rw [ran,← spec,← Bool.not_eq_false']
    exact same _ _
  · rw [ran,← spec,Bool.not_eq_true,← Bool.not_eq_true']
    exact same _ _
  · rw [check.byFamilies_run environment validation shown]
    refine ⟨fun holds => ?_, fun fails => ?_⟩
    · rw [spec.mpr holds]
      simp
    · rw [Bool.of_not_eq_true fun holds => fails (spec.mp holds)]
      simp

namespace MailForm

/-- A surface with two elements, whose selectors are the values of two names. -/
def world : World :=
  ({ surfaces := #[{ elements := .ofList [("#work", .text " u.v@w..x\n"), ("#home", .text "u@.w.")] }] } : World).opened
    { vars := .ofList [("work", .text "#work"), ("home", .text "#home")], surface := some 0 }

def work : VariableName := ⟨"work".toList, by decide, by decide⟩

def home : VariableName := ⟨"home".toList, by decide, by decide⟩

end MailForm

open MailForm in
/-- Of the dots of a domain only those inside count, and a blank line behind an address does not matter. -/
theorem address_check_accepts_addresses_dots :
    AddressOf "u.v".toList "w..x".toList (trim " u.v@w..x\n".toList) ∧
      handle "si_imererwe_neza(work)".toList (some 0) 0 world = (.ok (some (.bool false)), world) ∧
      (¬∃ user domain, AddressOf user domain (trim "u@.w.".toList)) ∧
      Machine.byFamilies {} "si_imererwe_neza(home)".toList 0 0 world =
        (.error (.invalid "si_imererwe_neza(home)"), world) := by
  have address : AddressOf "u.v".toList "w..x".toList (trim " u.v@w..x\n".toList) :=
    ⟨by decide, by decide, forall_of_all (by decide), ['w'], ".x".toList, rfl, by decide, by decide⟩
  have other : ¬∃ user domain, AddressOf user domain (trim "u@.w.".toList) := by
    rw [← isMatch_address (trimmed_trim _)]
    decide
  obtain ⟨accepts, sees⟩ := @address_check_accepts_addresses (List Line) 0 0 " u.v@w..x\n"
  obtain ⟨refuses, sees'⟩ := @address_check_accepts_addresses (List Line) 0 0 "u@.w."
  have one := accepts _ world world (sees work "#work" world rfl rfl)
  have two := refuses _ world world (sees' home "#home" world rfl rfl)
  exact ⟨address, one.1.mpr ⟨_, _, address⟩, other, (two.2.2 {} 0 rfl rfl rfl).2 other⟩

end Inyandiko
