/-
  Protobuf.Proofs.Enumerations — enum values by number and by name, in the resolved type and in its code.

  A value whose number is new gets a variant of its own and a further name leads to the variant of the first
  (`addValue_reflects`), so what an enum type answers is what its declarations say (`EnumType.Answers`). `call` runs
  the functions that are generated for the type; they answer the same (`EnumCode.Computes`).
-/

import Protobuf.Generate.Enum
import Protobuf.Proofs.Tracking
import Protobuf.Schema.Enumeration

namespace Protobuf

/-! ## Values and further names -/

namespace Schema

/-- Distinct variants, one for each number in the order in which numbers are first declared; a number leads to the
    value of its first name, and a name to the number that it is declared for. -/
structure EnumType.Answers (type : EnumType) (decls : List Descriptor.EnumValue) : Prop where
  distinct : (type.values.map (·.variant)).Nodup
  numbers : type.values.map (·.number) = (decls.map (·.numberValue)).eraseDups
  ofNumber : ∀ n, (type.ofNumber? n).map (fun value => (value.number, value.name)) =
    (decls.find? fun decl => decl.numberValue == n).map fun decl => (n, decl.nameText)
  ofName : ∀ name, (type.ofName? name).map (·.number) =
    (decls.find? fun decl => decl.nameText == name).map (·.numberValue)

namespace Context

/-- A value is that of a declaration, with its name and number. -/
def ValueOf (decl : Descriptor.EnumValue) (value : EnumValue) : Prop :=
  value.name = decl.nameText ∧ value.number = decl.numberValue

/-- A further name is that of a declaration and leads to the value with its number. -/
def AliasOf (values : List EnumValue) (decl : Descriptor.EnumValue) (extra : EnumAlias) : Prop :=
  extra.name = decl.nameText ∧ ∃ value ∈ values, value.variant = extra.target ∧ value.number = decl.numberValue

/-- What is made of these declarations. -/
structure EnumProgress.Reflects (progress : EnumProgress) (decls : List Descriptor.EnumValue) : Prop where
  taken : ∀ value ∈ progress.values, progress.variants.isTaken value.variant = true
  distinct : (progress.values.map (·.variant)).Nodup
  numbers : progress.values.map (·.number) = (decls.map (·.numberValue)).eraseDups
  first : ∀ n, (progress.values.find? fun value => value.number == n).map (·.name) =
    (decls.find? fun decl => decl.numberValue == n).map (·.nameText)
  values : ∀ value ∈ progress.values, ∃ decl ∈ decls, ValueOf decl value
  aliases : ∀ extra ∈ progress.aliases, ∃ decl ∈ decls, AliasOf progress.values decl extra
  all : ∀ decl ∈ decls,
    (∃ value ∈ progress.values, ValueOf decl value) ∨ ∃ extra ∈ progress.aliases, AliasOf progress.values decl extra

variable {context : Context} {place : Place} {dropped : Nat} {progress : EnumProgress}
  {decls : List Descriptor.EnumValue} {decl : Descriptor.EnumValue} {index : Nat}

theorem AliasOf.mono {values values' : List EnumValue} {extra : EnumAlias} (h : AliasOf values decl extra)
    (hsub : values ⊆ values') : AliasOf values' decl extra := by
  obtain ⟨hname, value, hmem, hvalue⟩ := h
  exact ⟨hname, value, hsub hmem, hvalue⟩

/-- What the variant of a value asks for: its name without the front that all names share, and without underscores. -/
def variantBase (dropped : Nat) (decl : Descriptor.EnumValue) : String :=
  Naming.typeName (Naming.pascalFromUpper (String.ofList (decl.nameText.toList.drop dropped)))

/-- A value is added or a further name is, as the number is new or not. -/
theorem addValue_cases (context : Context) (place : Place) (dropped : Nat) (progress : EnumProgress) (index : Nat)
    (decl : Descriptor.EnumValue) :
    (∃ target ∈ progress.values, target.number = decl.numberValue ∧
      ∃ extra, extra.name = decl.nameText ∧ extra.target = target.variant ∧
        context.addValue place dropped progress index decl =
          { progress with aliases := progress.aliases ++ [extra] }) ∨
    ((∀ value ∈ progress.values, value.number ≠ decl.numberValue) ∧
      ∃ value, ValueOf decl value ∧ value.variant = progress.variants.fresh (variantBase dropped decl) "" ∧
        context.addValue place dropped progress index decl =
          { progress with
            variants := progress.variants.insert value.variant
            values := progress.values ++ [value] }) := by
  rw [addValue]
  cases hfind : progress.values.find? fun value => value.number == decl.numberValue with
  | some target =>
    have hnumber : target.number = decl.numberValue := by simpa using List.find?_some hfind
    exact .inl ⟨target, List.mem_of_find?_eq_some hfind, hnumber, _, rfl, rfl, rfl⟩
  | none =>
    let value : EnumValue := {
      name := decl.nameText
      number := decl.numberValue
      variant := progress.variants.fresh (variantBase dropped decl) ""
      comment := context.comments.get? (place.at .enumValue index) }
    refine .inr ⟨?_, value, ⟨rfl, rfl⟩, rfl, rfl⟩
    intro value hvalue hnumber
    exact List.find?_eq_none.mp hfind value hvalue (beq_iff_eq.mpr hnumber)

theorem eraseDups_concat (numbers : List Int32) (n : Int32) :
    (numbers ++ [n]).eraseDups = if n ∈ numbers then numbers.eraseDups else numbers.eraseDups ++ [n] := by
  rw [List.eraseDups_append, List.removeAll, List.filter_singleton]
  split <;> simp_all [List.eraseDups_cons]

namespace EnumProgress.Reflects

theorem mem_number_iff (h : progress.Reflects decls) {n : Int32} :
    (∃ value ∈ progress.values, value.number = n) ↔ n ∈ decls.map (·.numberValue) := by
  rw [← List.mem_eraseDups, ← h.numbers, List.mem_map]

/-- A further name for a number that has a value. -/
theorem addAlias (h : progress.Reflects decls) {extra : EnumAlias} (halias : AliasOf progress.values decl extra) :
    { progress with aliases := progress.aliases ++ [extra] : EnumProgress }.Reflects (decls ++ [decl]) := by
  have hdeclared : decl.numberValue ∈ decls.map (·.numberValue) := by
    obtain ⟨_, value, hvalue, _, hnumber⟩ := halias
    exact h.mem_number_iff.mp ⟨value, hvalue, hnumber⟩
  refine ⟨h.taken, h.distinct, ?_, ?_, ?_, ?_, ?_⟩
  · rw [List.map_append, List.map_singleton, eraseDups_concat, if_pos hdeclared, h.numbers]
  · intro n
    rw [h.first n, List.find?_append]
    by_cases hn : decl.numberValue = n
    · obtain ⟨d, hd, hdn⟩ := List.mem_map.mp hdeclared
      have hsome : (decls.find? fun decl => decl.numberValue == n).isSome = true :=
        List.find?_isSome.mpr ⟨d, hd, beq_iff_eq.mpr (hdn.trans hn)⟩
      obtain ⟨found, hfound⟩ := Option.isSome_iff_exists.mp hsome
      rw [hfound, Option.some_or]
    · rw [List.find?_singleton, if_neg (by simpa using hn), Option.or_none]
  · intro value hmem
    obtain ⟨d, hd, hof⟩ := h.values value hmem
    exact ⟨d, List.mem_append_left _ hd, hof⟩
  · intro other hmem
    rcases List.mem_append.mp hmem with hmem | hmem
    · obtain ⟨d, hd, hof⟩ := h.aliases other hmem
      exact ⟨d, List.mem_append_left _ hd, hof⟩
    · cases List.mem_singleton.mp hmem
      exact ⟨decl, List.mem_append_right _ (List.mem_singleton_self _), halias⟩
  · intro d hmem
    rcases List.mem_append.mp hmem with hmem | hmem
    · refine (h.all d hmem).imp_right ?_
      rintro ⟨other, hother, hof⟩
      exact ⟨other, List.mem_append_left _ hother, hof⟩
    · cases List.mem_singleton.mp hmem
      exact .inr ⟨extra, List.mem_append_right _ (List.mem_singleton_self _), halias⟩

/-- A value with a number and a variant that no other has. -/
theorem addNew (h : progress.Reflects decls) {value : EnumValue} (hvalue : ValueOf decl value)
    (hnew : ∀ other ∈ progress.values, other.number ≠ decl.numberValue)
    (hfree : progress.variants.isTaken value.variant = false) :
    { progress with
      variants := progress.variants.insert value.variant
      values := progress.values ++ [value] : EnumProgress }.Reflects (decls ++ [decl]) := by
  have hundeclared : decl.numberValue ∉ decls.map (·.numberValue) := by
    intro hmem
    obtain ⟨other, hother, hnumber⟩ := h.mem_number_iff.mpr hmem
    exact hnew other hother hnumber
  have hsub : progress.values ⊆ progress.values ++ [value] := List.subset_append_left _ _
  refine ⟨?_, ?_, ?_, ?_, ?_, ?_, ?_⟩
  · intro other hmem
    rcases List.mem_append.mp hmem with hmem | hmem
    · exact Naming.Scope.isTaken_insert.mpr (.inr (h.taken other hmem))
    · cases List.mem_singleton.mp hmem
      exact Naming.Scope.isTaken_insert.mpr (.inl rfl)
  · have hfresh : value.variant ∉ progress.values.map (·.variant) := by
      intro hmem
      obtain ⟨other, hother, hvariant⟩ := List.mem_map.mp hmem
      rw [← hvariant, h.taken other hother] at hfree
      cases hfree
    rw [List.map_append, List.map_singleton]
    exact List.nodup_append.mpr ⟨h.distinct, List.nodup_singleton _, by simpa using hfresh⟩
  · rw [List.map_append, List.map_append, List.map_singleton, List.map_singleton, eraseDups_concat,
      if_neg hundeclared, h.numbers, hvalue.2]
  · intro n
    rw [List.find?_append, List.find?_append, List.find?_singleton, List.find?_singleton, hvalue.2, Option.map_or,
      Option.map_or, h.first n]
    split <;> simp [hvalue.1]
  · intro other hmem
    rcases List.mem_append.mp hmem with hmem | hmem
    · obtain ⟨d, hd, hof⟩ := h.values other hmem
      exact ⟨d, List.mem_append_left _ hd, hof⟩
    · cases List.mem_singleton.mp hmem
      exact ⟨decl, List.mem_append_right _ (List.mem_singleton_self _), hvalue⟩
  · intro other hmem
    obtain ⟨d, hd, hof⟩ := h.aliases other hmem
    exact ⟨d, List.mem_append_left _ hd, hof.mono hsub⟩
  · intro d hmem
    rcases List.mem_append.mp hmem with hmem | hmem
    · refine (h.all d hmem).imp ?_ ?_
      · rintro ⟨other, hother, hof⟩
        exact ⟨other, hsub hother, hof⟩
      · rintro ⟨other, hother, hof⟩
        exact ⟨other, hother, hof.mono hsub⟩
    · cases List.mem_singleton.mp hmem
      exact .inl ⟨value, List.mem_append_right _ (List.mem_singleton_self _), hvalue⟩

end EnumProgress.Reflects

theorem addValue_reflects (h : progress.Reflects decls) :
    (context.addValue place dropped progress index decl).Reflects (decls ++ [decl]) := by
  obtain ⟨target, htarget, hnumber, extra, hname, hextra, heq⟩ | ⟨hnew, value, hvalue, hfresh, heq⟩ :=
    addValue_cases context place dropped progress index decl
  · rw [heq]
    exact h.addAlias ⟨hname, target, htarget, hextra.symm, hnumber⟩
  · rw [heq]
    refine h.addNew hvalue hnew ?_
    rw [hfresh]
    exact Naming.Scope.isTaken_fresh ..

/-- What each value adds to, all values together add to. -/
theorem addValues_run (context : Context) (place : Place) (dropped : Nat)
    {P : EnumProgress → List Descriptor.EnumValue → Prop}
    (hstep : ∀ progress decls index decl, P progress decls →
      P (context.addValue place dropped progress index decl) (decls ++ [decl]))
    (h : P progress decls) (values : List Descriptor.EnumValue) (index : Nat) :
    P ((values.zipIdx index).foldl (fun progress (value, index) =>
      context.addValue place dropped progress index value) progress) (decls ++ values) := by
  induction values generalizing progress decls index with
  | nil => simpa using h
  | cons value values ih =>
    rw [List.zipIdx_cons, List.foldl_cons, List.append_cons]
    exact ih (hstep _ _ _ _ h) (index + 1)

theorem enum_reflects {decl : Descriptor.Enum} {fullName : String} {entry : Registered}
    (hentry : context.registry.get? fullName = some entry) (place : Place) :
    ∃ type variants, context.enum decl fullName place = .ok type ∧
      EnumProgress.Reflects ⟨variants, type.values, type.aliases⟩ decl.values := by
  have hstart : EnumProgress.Reflects {} [] := by
    constructor <;> simp
  rw [enum, registered, hentry]
  exact ⟨_, _, rfl, addValues_run context place _ (fun _ _ _ _ => addValue_reflects) hstart decl.values 0⟩

end Context

/-! ## Lookups -/

namespace EnumType

open Context

variable {type : EnumType} {variants : Naming.Scope} {decls : List Descriptor.EnumValue} {name : String}

/-- A name leads to a value only as a declaration says. -/
theorem ofName?_sound (h : EnumProgress.Reflects ⟨variants, type.values, type.aliases⟩ decls) {value : EnumValue}
    (hvalue : type.ofName? name = some value) :
    ∃ decl ∈ decls, decl.nameText = name ∧ decl.numberValue = value.number := by
  rw [ofName?] at hvalue
  split at hvalue
  · rename_i found hfound
    cases hvalue
    obtain ⟨decl, hdecl, hname, hnumber⟩ := h.values value (List.mem_of_find?_eq_some hfound)
    have hfits : value.name = name := by simpa using List.find?_some hfound
    exact ⟨decl, hdecl, hname.symm.trans hfits, hnumber.symm⟩
  · obtain ⟨extra, hextra, htarget⟩ := Option.bind_eq_some_iff.mp hvalue
    have hfits : extra.name = name := by simpa using List.find?_some hextra
    have hvariant : value.variant = extra.target := by simpa using List.find?_some htarget
    obtain ⟨decl, hdecl, hname, target, hmem, htargets, hnumber⟩ := h.aliases extra (List.mem_of_find?_eq_some hextra)
    -- The value found by variant is the one the declaration leads to, since no two have one variant.
    cases List.inj_on_of_nodup_map h.distinct hmem (List.mem_of_find?_eq_some htarget) (htargets.trans hvariant.symm)
    exact ⟨decl, hdecl, hname.symm.trans hfits, hnumber.symm⟩

/-- Every declared name leads to a value. -/
theorem ofName?_complete (h : EnumProgress.Reflects ⟨variants, type.values, type.aliases⟩ decls)
    {decl : Descriptor.EnumValue} (hdecl : decl ∈ decls) : ∃ value, type.ofName? decl.nameText = some value := by
  rw [ofName?]
  split
  · exact ⟨_, rfl⟩
  · rename_i hnone
    obtain ⟨value, hvalue, hname, _⟩ | ⟨extra, hextra, hname, _⟩ := h.all decl hdecl
    · exact absurd (beq_iff_eq.mpr hname) (List.find?_eq_none.mp hnone value hvalue)
    · have hsome : (type.aliases.find? fun extra => extra.name == decl.nameText).isSome = true :=
        List.find?_isSome.mpr ⟨extra, hextra, beq_iff_eq.mpr hname⟩
      obtain ⟨found, hfound⟩ := Option.isSome_iff_exists.mp hsome
      obtain ⟨_, _, _, target, htarget, hvariant, _⟩ := h.aliases found (List.mem_of_find?_eq_some hfound)
      have hsome : (type.values.find? fun value => value.variant == found.target).isSome = true :=
        List.find?_isSome.mpr ⟨target, htarget, beq_iff_eq.mpr hvariant⟩
      rw [hfound]
      exact Option.isSome_iff_exists.mp hsome

theorem answers (h : EnumProgress.Reflects ⟨variants, type.values, type.aliases⟩ decls)
    (hnames : (decls.map (·.nameText)).Nodup) : type.Answers decls where
  distinct := h.distinct
  numbers := h.numbers
  ofNumber := by
    intro n
    have hfirst := h.first n
    rw [ofNumber?]
    cases hfind : type.values.find? fun value => value.number == n with
    | none =>
      rw [hfind] at hfirst
      rw [Option.map_eq_none_iff.mp hfirst.symm]
      rfl
    | some value =>
      rw [hfind] at hfirst
      obtain ⟨decl, hdecl, hname⟩ := Option.map_eq_some_iff.mp hfirst.symm
      have hnumber : value.number = n := by simpa using List.find?_some hfind
      rw [hdecl, Option.map_some, Option.map_some, hname, hnumber]
  ofName := by
    intro name
    cases hfind : decls.find? fun decl => decl.nameText == name with
    | none =>
      cases hvalue : type.ofName? name with
      | none => rfl
      | some value =>
        obtain ⟨decl, hdecl, hname, _⟩ := ofName?_sound h hvalue
        exact absurd (beq_iff_eq.mpr hname) (List.find?_eq_none.mp hfind decl hdecl)
    | some decl =>
      have hdecl := List.mem_of_find?_eq_some hfind
      have hname : decl.nameText = name := by simpa using List.find?_some hfind
      obtain ⟨value, hvalue⟩ := ofName?_complete h hdecl
      rw [hname] at hvalue
      obtain ⟨other, hother, hsame, hnumber⟩ := ofName?_sound h hvalue
      cases List.inj_on_of_nodup_map hnames hother hdecl (hsame.trans hname.symm)
      rw [hvalue, Option.map_some, Option.map_some, hnumber]

end EnumType

end Schema

/-! ## The code of an enum -/

namespace Generate.EnumCode

open Code Schema

/-- What the code of an enum computes with. -/
inductive Value where
  | number (n : Int)
  | text (s : String)
  | variant (name : String)
  /-- A variant or none. -/
  | found (variant : Option String)
  deriving DecidableEq, Repr

/-- The variant that a path names. -/
def variantOf? : Path → Option String
  | ⟨.here, [owner, name]⟩ => if owner = "Self" then some name else none
  | _ => none

/-- The value of an expression that is a constant. -/
def constantOf : Expr → Option Value
  | .literal (.number digits) => some (.number (numberOf digits))
  | .unary .neg (.literal (.number digits)) => some (.number (-(numberOf digits : Int)))
  | .literal (.text s) => some (.text s)
  | .path path =>
    if path = .ofNames ["i32", "MIN"] then some (.number (-0x80000000))
    else if path = optionPath "None" then some (.found none)
    else (variantOf? path).map .variant
  | .call (.path function) [.path path] =>
    if function = optionPath "Some" then (variantOf? path).map fun name => .found (some name) else none
  | _ => none

/-- Whether a value has the form of a pattern: any value, or a constant. -/
def fits (value : Value) : Pat → Bool
  | .path path => path = .ofNames ["_"] || constantOf (.path path) = some value
  | .literal constant => constantOf (.literal constant) = some value
  | .negative constant => constantOf (.unary .neg (.literal constant)) = some value
  | _ => false

/-- What the first arm gives whose pattern the value has. -/
def choose (value : Value) : List Arm → Option Value
  | [] => none
  | .mk pattern body _ :: arms => if fits value pattern then constantOf body else choose value arms

/-- The value that a function reads: that of its parameter, or the one it is called on. -/
def operand (fn : Fn) : Path := .ofNames [(fn.params.head?.map (·.1)).getD "self"]

/-- What a function of an enum with these variants gives; none if it gives no value. -/
def call (variants : List Variant) (fn : Fn) (value : Value) : Option Value :=
  match fn.body, value with
  | [.value (.switch (.path path) arms)], value => if path = operand fn then choose value arms else none
  | [.value (.cast (.path path) _)], .variant name =>
    if path = operand fn then
      ((variants.find? fun variant => variant.name == name).bind (·.discriminant)).bind constantOf
    else none
  | _, _ => none

/-- The functions of an enum's code compute the lookups of its type. -/
structure Computes (type : EnumType) : Prop where
  listed : (variants type).map (·.name) = type.values.map (·.variant)
  fromNumber : ∀ n : Int32, call (variants type) (fromNumber type) (.number n.toInt) =
    some (.found ((type.ofNumber? n).map (·.variant)))
  number : ∀ value ∈ type.values, call (variants type) number (.variant value.variant) =
    some (.number value.number.toInt)
  name : ∀ value ∈ type.values, call (variants type) (name type) (.variant value.variant) =
    some (.text value.name)
  fromName : ∀ text, call (variants type) (fromName type) (.text text) =
    some (.found ((type.ofName? text).map (·.variant)))

theorem constantOf_variant (name : String) : constantOf (selfVariant name) = some (.variant name) := by
  simp [selfVariant, constantOf, variantOf?, optionPath, Path.ofNames, Path.ofCrate]

theorem constantOf_some (name : String) : constantOf (wrapSome (selfVariant name)) = some (.found (some name)) := by
  simp [wrapSome, callPath, selfVariant, constantOf, variantOf?, Path.ofNames]

theorem constantOf_none : constantOf noneValue = some (.found none) := by
  simp [noneValue, constantOf, optionPath, Path.ofNames, Path.ofCrate]

theorem literal_enum (n : Int32) :
    literal (.enum n) =
      if n.toInt = -0x80000000 then .path (.ofNames ["i32", "MIN"])
      else if n.toInt < 0 then .unary .neg (.literal (.number (Nat.repr n.toInt.natAbs)))
      else .literal (.number (Nat.repr n.toInt.natAbs)) := by
  have hleast : -(Nat.pow 2 (32 - 1) : Int) = -0x80000000 := by decide
  have htype : "i" ++ Nat.repr 32 = "i32" := by decide
  rw [literal, signedLiteral, hleast, htype, String.append_empty]

theorem constantOf_number (n : Int32) : constantOf (literal (.enum n)) = some (.number n.toInt) := by
  rw [literal_enum]
  split
  · rename_i hleast
    rw [constantOf, if_pos rfl, hleast]
  · split
    · rw [constantOf, numberOf_repr, Int.ofNat_natAbs_of_nonpos (by omega), Int.neg_neg]
    · rw [constantOf, numberOf_repr, Int.natAbs_of_nonneg (by omega)]

/-- A number in a pattern is the number in an expression. -/
theorem fits_numberPat (n m : Int32) : fits (.number m.toInt) (numberPat n) = (n == m) := by
  have hfits : fits (.number m.toInt) (numberPat n) = decide (constantOf (literal (.enum n)) = some (.number m.toInt)) := by
    rw [literal_enum, numberPat]
    split
    · simp [fits, Path.ofNames]
    · split <;> rfl
  rw [hfits, constantOf_number]
  simp [Bool.beq_eq_decide_eq, Int32.toInt_inj]

theorem fits_variant (name other : String) :
    fits (.variant name) (.path (.ofNames ["Self", other])) = (other == name) := by
  have hconstant := constantOf_variant other
  rw [selfVariant] at hconstant
  rw [fits, hconstant]
  simp [Path.ofNames, Bool.beq_eq_decide_eq]

theorem fits_text (text other : String) : fits (.text text) (.literal (.text other)) = (other == text) := by
  simp [fits, constantOf, Bool.beq_eq_decide_eq]

theorem fits_wildcard (value : Value) : fits value wildcard = true := by
  simp [wildcard, namePat, fits]

/-- Arms made of a list choose by the first entry that fits. -/
theorem choose_map {α : Type} (entries : List α) (pattern : α → Pat) (body : α → Expr) (value : Value) (rest : List Arm) :
    choose value (entries.map (fun entry => .mk (pattern entry) (body entry) true) ++ rest) =
      match entries.find? fun entry => fits value (pattern entry) with
      | some entry => constantOf (body entry)
      | none => choose value rest := by
  induction entries with
  | nil => rfl
  | cons entry entries ih =>
    rw [List.map_cons, List.cons_append, choose, List.find?_cons]
    cases hfits : fits value (pattern entry) with
    | true => rfl
    | false => exact ih

variable {type : EnumType}

theorem call_switch {fn : Fn} {arms : List Arm} (h : fn.body = [.value (.switch (.path (operand fn)) arms)])
    (listed : List Variant) (value : Value) : call listed fn value = choose value arms := by
  unfold call
  rw [h]
  exact if_pos rfl

theorem call_fromNumber (n : Int32) : call (variants type) (fromNumber type) (.number n.toInt) =
    some (.found ((type.ofNumber? n).map (·.variant))) := by
  rw [call_switch rfl, choose_map]
  simp only [fits_numberPat]
  rw [EnumType.ofNumber?]
  cases type.values.find? fun value => value.number == n with
  | some value => exact constantOf_some value.variant
  | none =>
    dsimp only
    rw [choose, if_pos (fits_wildcard _), constantOf_none]
    rfl

/-- The entry of a variant, where variants are distinct. -/
theorem find?_variant (hdistinct : (type.values.map (·.variant)).Nodup) {value : EnumValue} (hvalue : value ∈ type.values) :
    (type.values.find? fun other => other.variant == value.variant) = some value := by
  have hsome : (type.values.find? fun other => other.variant == value.variant).isSome = true :=
    List.find?_isSome.mpr ⟨value, hvalue, beq_self_eq_true _⟩
  obtain ⟨other, hother⟩ := Option.isSome_iff_exists.mp hsome
  have hsame : other.variant = value.variant := by simpa using List.find?_some hother
  rw [hother, List.inj_on_of_nodup_map hdistinct (List.mem_of_find?_eq_some hother) hvalue hsame]

theorem call_name (hdistinct : (type.values.map (·.variant)).Nodup) {value : EnumValue} (hvalue : value ∈ type.values) :
    call (variants type) (name type) (.variant value.variant) = some (.text value.name) := by
  have hchoose := choose_map type.values (fun value => .path (.ofNames ["Self", value.variant]))
    (fun value => .literal (.text value.name)) (.variant value.variant) []
  simp only [fits_variant, find?_variant hdistinct hvalue, List.append_nil] at hchoose
  rw [call_switch rfl]
  exact hchoose

/-- Each value with its variant and number, in order. -/
theorem variants_eq (type : EnumType) : (variants type).map (fun variant => (variant.name, variant.discriminant)) =
    type.values.map fun value => (value.variant, some (literal (.enum value.number))) := by
  rw [variants, List.map_map]
  conv_rhs => rw [← List.zipIdx_map_fst 0 type.values, List.map_map]
  rfl

theorem call_number (hdistinct : (type.values.map (·.variant)).Nodup) {value : EnumValue} (hvalue : value ∈ type.values) :
    call (variants type) number (.variant value.variant) = some (.number value.number.toInt) := by
  have hpair : (((variants type).find? fun variant => variant.name == value.variant).map fun variant =>
      (variant.name, variant.discriminant)) = some (value.variant, some (literal (.enum value.number))) := by
    have hentry := find?_variant hdistinct hvalue
    have hmap := congrArg (List.find? fun entry => entry.1 == value.variant) (variants_eq type)
    rw [List.find?_map, List.find?_map] at hmap
    refine hmap.trans ?_
    exact congrArg (Option.map _) hentry
  obtain ⟨variant, hvariant, hfields⟩ := Option.map_eq_some_iff.mp hpair
  have hnumber : variant.discriminant = some (literal (.enum value.number)) := (Prod.mk.inj hfields).2
  have hcall : call (variants type) number (.variant value.variant) =
      (((variants type).find? fun variant => variant.name == value.variant).bind (·.discriminant)).bind constantOf := rfl
  rw [hcall, hvariant, Option.bind_some, hnumber, Option.bind_some, constantOf_number]

/-- Names and further names, by the first that fits, lead where the type says. -/
theorem find?_namesOf (htargets : ∀ extra ∈ type.aliases, ∃ value ∈ type.values, value.variant = extra.target)
    (text : String) :
    ((namesOf type).find? fun entry => entry.1 == text).map (·.2) = (type.ofName? text).map (·.variant) := by
  have hvalues : ((type.values.map fun value => (value.name, value.variant)).find? fun entry => entry.1 == text) =
      (type.values.find? fun value => value.name == text).map fun value => (value.name, value.variant) :=
    List.find?_map
  have haliases : ((type.aliases.map fun extra => (extra.name, extra.target)).find? fun entry => entry.1 == text) =
      (type.aliases.find? fun extra => extra.name == text).map fun extra => (extra.name, extra.target) :=
    List.find?_map
  rw [namesOf, List.find?_append, hvalues, haliases, EnumType.ofName?]
  cases type.values.find? fun value => value.name == text with
  | some value => rfl
  | none =>
    cases hextra : type.aliases.find? fun extra => extra.name == text with
    | none => rfl
    | some extra =>
      obtain ⟨target, htarget, hvariant⟩ := htargets extra (List.mem_of_find?_eq_some hextra)
      have hsome : (type.values.find? fun value => value.variant == extra.target).isSome = true :=
        List.find?_isSome.mpr ⟨target, htarget, beq_iff_eq.mpr hvariant⟩
      obtain ⟨value, hvalue⟩ := Option.isSome_iff_exists.mp hsome
      have hfits : value.variant = extra.target := by simpa using List.find?_some hvalue
      simp [hvalue, hfits]

theorem call_fromName (htargets : ∀ extra ∈ type.aliases, ∃ value ∈ type.values, value.variant = extra.target)
    (text : String) : call (variants type) (fromName type) (.text text) =
      some (.found ((type.ofName? text).map (·.variant))) := by
  have hchoose := choose_map (namesOf type) (fun entry => .literal (.text entry.1))
    (fun entry => wrapSome (selfVariant entry.2)) (.text text) [.mk wildcard noneValue true]
  simp only [fits_text] at hchoose
  rw [call_switch rfl, ← find?_namesOf htargets]
  refine hchoose.trans ?_
  cases (namesOf type).find? fun entry => entry.1 == text with
  | some entry => exact constantOf_some entry.2
  | none =>
    dsimp only
    rw [choose, if_pos (fits_wildcard _), constantOf_none]
    rfl

theorem computes (hdistinct : (type.values.map (·.variant)).Nodup)
    (htargets : ∀ extra ∈ type.aliases, ∃ value ∈ type.values, value.variant = extra.target) : Computes type where
  listed := by
    have hfirst := congrArg (List.map Prod.fst) (variants_eq type)
    rwa [List.map_map, List.map_map] at hfirst
  fromNumber := call_fromNumber
  number := fun _ => call_number hdistinct
  name := fun _ => call_name hdistinct
  fromName := call_fromName htargets

end Generate.EnumCode

/-! ## Enums as declared -/

namespace Schema.Context

open Generate

/-- An enum whose value names are distinct resolves to a type that answers as its declarations say, and the code
    generated for the type computes the same answers. -/
theorem enum_answers {context : Context} {decl : Descriptor.Enum} {fullName : String} {entry : Registered}
    (hentry : context.registry.get? fullName = some entry) (hnames : (decl.values.map (·.nameText)).Nodup)
    (place : Place) :
    ∃ type, context.enum decl fullName place = .ok type ∧ type.Answers decl.values ∧ EnumCode.Computes type := by
  obtain ⟨type, variants, htype, hreflects⟩ := enum_reflects hentry place
  refine ⟨type, htype, EnumType.answers hreflects hnames, EnumCode.computes hreflects.distinct ?_⟩
  intro extra hextra
  obtain ⟨_, _, _, target, htarget, hvariant, _⟩ := hreflects.aliases extra hextra
  exact ⟨target, htarget, hvariant⟩

/-- Names that become one variant, the least number, and further names for two of the numbers. -/
def mixed : Descriptor.Enum :=
  .of "Mixed" [("A_B", 2), ("A__B", -0x80000000), ("OTHER", -0x80000000), ("AB2", 7), ("a_b", 2)]

theorem enum_answers_mixed :
    let registry : Registry := { types := [("Mixed", ⟨⟨[], "Mixed"⟩, "mixed", .enum mixed⟩)] }
    let context : Context := { registry, dialect := .proto2, comments := .ofLocations [], keepsUnknown := true }
    ∃ type, context.enum mixed "Mixed" [] = .ok type ∧ type.Answers mixed.values ∧ EnumCode.Computes type :=
  enum_answers rfl (by decide) []

end Schema.Context

end Protobuf
