/-
  Protobuf.Proofs.Identifiers — which names the generated code can use.

  Schema names are words: letters, digits and underscores, with no digit in front (`isWord`). Keywords are letters only
  (`keyword_letters`), so a word with an underscore or digit added is none; modules, types, fields and methods named
  for words are all usable. The names of variants and of the types of choices lose their underscores
  first: what is left is a word just if a letter comes before any digit (`Leads`), and else it is empty or begins
  with a digit (`Spoilt`).
-/

import Protobuf.Proofs.Scopes

namespace Protobuf.Naming

/-! ## Words -/

def isWordChar (c : Char) : Bool := c.isAlphanum || c == '_'

/-- An identifier as schemas have them. -/
def isWord (name : String) : Bool :=
  name.toList.head?.any (fun c => c.isAlpha || c == '_') && name.toList.all isWordChar

/-- A word that is neither a keyword nor a lone underscore. -/
structure Plain (name : String) : Prop where
  word : isWord name = true
  free : isKeyword name = false
  apart : name ≠ "_"

/-- A name that generated code can use: a plain one, or the raw form of a word that has one. -/
inductive Usable : String → Prop
  | plain {name : String} (plain : Plain name) : Usable name
  | raw {name : String} (word : isWord name = true) (allowed : name ∉ "_" :: pathKeywords) : Usable ("r#" ++ name)

/-- The first character that is no underscore is a letter. -/
def Leads (name : String) : Prop := ∃ c, name.toList.find? (· ≠ '_') = some c ∧ c.isAlpha = true

instance (name : String) : Decidable (Leads name) :=
  decidable_of_iff ((name.toList.find? (· ≠ '_')).any Char.isAlpha = true) (by simp [Leads, Option.any_eq_true])

/-- Nothing, or something that begins with a digit. -/
def Spoilt (name : String) : Prop := ∀ c, name.toList.head? = some c → c.isDigit = true

variable {name : String} {c : Char} {cs : List Char}

theorem toNat_lt_of_isWordChar (h : isWordChar c = true) : c.toNat < 128 := by
  have hbound : ∀ last : Char, c.val ≤ last.val → last.toNat < 128 → c.toNat < 128 :=
    fun last hle hlast => Nat.lt_of_le_of_lt (UInt32.le_iff_toNat_le.mp hle) hlast
  rcases Bool.or_eq_true_iff.mp h with halnum | hmark
  · rcases Bool.or_eq_true_iff.mp halnum with halpha | hdigit
    · rcases Bool.or_eq_true_iff.mp halpha with hupper | hlower
      · exact hbound 'Z' (of_decide_eq_true hupper).2 (by decide)
      · exact hbound 'z' (of_decide_eq_true (Bool.and_eq_true_iff.mp hlower).2) (by decide)
    · exact hbound '9' (of_decide_eq_true (Bool.and_eq_true_iff.mp hdigit).2) (by decide)
  · rw [beq_iff_eq.mp hmark]
    decide

/-- How letters and digits go together with the two cases. -/
theorem wordChar_classes (h : isWordChar c = true) : (c.isDigit = true → c.isAlpha = false) ∧
    isWordChar c.toLower = true ∧ (c.isAlpha = true → c.toLower.isAlpha = true) ∧
    (c.isAlphanum = true → c.toUpper.isAlphanum = true ∧ c.toLower.isAlphanum = true) ∧
    (c.toUpper.isAlpha = true ↔ c.isAlpha = true) := by
  have hall : ∀ n < 128, isWordChar (Char.ofNat n) = true →
      ((Char.ofNat n).isDigit = true → (Char.ofNat n).isAlpha = false) ∧ isWordChar (Char.ofNat n).toLower = true ∧
      ((Char.ofNat n).isAlpha = true → (Char.ofNat n).toLower.isAlpha = true) ∧
      ((Char.ofNat n).isAlphanum = true →
        (Char.ofNat n).toUpper.isAlphanum = true ∧ (Char.ofNat n).toLower.isAlphanum = true) ∧
      ((Char.ofNat n).toUpper.isAlpha = true ↔ (Char.ofNat n).isAlpha = true) := by decide
  have hc := hall c.toNat (toNat_lt_of_isWordChar h)
  rw [Char.ofNat_toNat] at hc
  exact hc h

theorem isWord_iff : isWord name = true ↔
    (∃ c, name.toList.head? = some c ∧ (c.isAlpha = true ∨ c = '_')) ∧ ∀ c ∈ name.toList, isWordChar c = true := by
  simp [isWord, Option.any_eq_true]

theorem isWord_append {more : String} (h : isWord name = true) (hmore : ∀ c ∈ more.toList, isWordChar c = true) :
    isWord (name ++ more) = true := by
  obtain ⟨⟨c, hhead, hc⟩, hall⟩ := isWord_iff.mp h
  refine isWord_iff.mpr ⟨⟨c, ?_, hc⟩, ?_⟩
  · rw [String.toList_append, List.head?_append, hhead, Option.some_or]
  · rw [String.toList_append]
    exact List.forall_mem_append.mpr ⟨hall, hmore⟩

theorem isWord_chars (h : isWord name = true) : ∀ c ∈ name.toList, isWordChar c = true :=
  (isWord_iff.mp h).2

theorem isWordChar_repr (n : Nat) : ∀ c ∈ (Nat.repr n).toList, c.isDigit = true := by
  intro c hc
  rw [Nat.toList_repr] at hc
  exact Nat.isDigit_of_mem_toDigits (by decide) (by decide) hc

theorem isWordChar_of_isDigit (h : c.isDigit = true) : isWordChar c = true := by
  simp [isWordChar, Char.isAlphanum, h]

theorem not_isAlpha_of_isDigit (h : c.isDigit = true) : c.isAlpha = false :=
  (wordChar_classes (isWordChar_of_isDigit h)).1 h

/-! ## Keywords -/

theorem keyword_letters (h : isKeyword name = true) : name.toList ≠ [] ∧ ∀ c ∈ name.toList, c.isAlpha = true := by
  have hall : keywords.all (fun word => !word.toList.isEmpty && word.toList.all Char.isAlpha) = true := by decide +kernel
  simpa using List.all_eq_true.mp hall name (List.contains_iff_mem.mp h)

/-- A word with a character that is no letter. -/
theorem plain_of_mark (h : isWord name = true) (hc : c ∈ name.toList) (hmark : c.isAlpha = false)
    (hapart : name ≠ "_") :
    Plain name where
  word := h
  free := by
    refine Bool.eq_false_iff.mpr fun hkeyword => ?_
    rw [(keyword_letters hkeyword).2 c hc] at hmark
    cases hmark
  apart := hapart

/-- A word with an underscore in it and something else. -/
theorem plain_of_underscore (h : isWord name = true) (hmark : '_' ∈ name.toList) (hlength : 2 ≤ name.toList.length) :
    Plain name := by
  refine plain_of_mark h hmark (by decide) ?_
  rintro rfl
  exact absurd hlength (by decide)

theorem plain_underscore (h : isWord name = true) : Plain (name ++ "_") := by
  have hnonempty : name.toList ≠ [] := by
    obtain ⟨⟨c, hhead, _⟩, _⟩ := isWord_iff.mp h
    intro hnil
    simp [hnil] at hhead
  refine plain_of_underscore (isWord_append h (List.all_eq_true.mp (by decide))) ?_ ?_
  · simp
  · have := List.length_pos_of_ne_nil hnonempty
    rw [String.toList_append, List.length_append]
    show 2 ≤ name.toList.length + 1
    omega

theorem plain_typeName (h : isWord name = true) : Plain (typeName name) := by
  unfold typeName
  split
  · exact plain_underscore h
  · rename_i hfree
    simp only [Bool.or_eq_true, beq_iff_eq, not_or, Bool.not_eq_true] at hfree
    exact ⟨h, hfree.1, hfree.2⟩

theorem usable_fieldName (h : isWord name = true) : Usable (fieldName name) := by
  unfold fieldName
  split
  · exact .plain (plain_underscore h)
  · rename_i hallowed
    simp only [Bool.or_eq_true, List.contains_iff_mem, beq_iff_eq, not_or] at hallowed
    split
    · exact .raw h (by simpa [not_or] using ⟨hallowed.2, by simpa using hallowed.1⟩)
    · rename_i hfree
      exact .plain ⟨h, Bool.eq_false_iff.mpr hfree, hallowed.2⟩

/-- Nothing but the names that a claim tries. -/
theorem Scope.fresh_cases (scope : Scope) (base separator : String) :
    scope.fresh base separator = base ∨ ∃ i, scope.fresh base separator = numbered base separator i := by
  cases hbase : scope.isTaken base with
  | false => exact .inl (fresh_of_free hbase)
  | true =>
    obtain ⟨i, hname, _⟩ := fresh_of_taken separator hbase
    exact .inr ⟨i, hname⟩

theorem plain_numbered {base separator : String} (h : isWord base = true)
    (hseparator : ∀ c ∈ separator.toList, isWordChar c = true) (i : Nat) : Plain (Scope.numbered base separator i) := by
  obtain ⟨c, rest, hdigits⟩ := List.exists_cons_of_ne_nil (Nat.toDigits_ne_nil (n := i + 2) (b := 10))
  have hrepr : (Nat.repr (i + 2)).toList = c :: rest := by rw [Nat.toList_repr, hdigits]
  have hdigit : c.isDigit = true := isWordChar_repr (i + 2) c (by rw [hrepr]; exact List.mem_cons_self ..)
  have hmem : c ∈ (Scope.numbered base separator i).toList := by
    rw [Scope.numbered, String.toList_append, hrepr]
    exact List.mem_append_right _ (List.mem_cons_self ..)
  refine plain_of_mark (isWord_append (isWord_append h hseparator) ?_) hmem (not_isAlpha_of_isDigit hdigit) ?_
  · intro d hd
    exact isWordChar_of_isDigit (isWordChar_repr _ d hd)
  · intro heq
    rw [heq] at hmem
    cases List.mem_singleton.mp hmem
    cases hdigit

theorem plain_fresh {base separator : String} (h : Plain base) (hseparator : ∀ c ∈ separator.toList, isWordChar c = true)
    (scope : Scope) : Plain (scope.fresh base separator) := by
  rcases scope.fresh_cases base separator with heq | ⟨i, heq⟩
  · rwa [heq]
  · rw [heq]
    exact plain_numbered h.word hseparator i

/-! ## Case -/

theorem snakeFrom_chars {before : Option Char} (h : ∀ c ∈ cs, isWordChar c = true) :
    ∀ c ∈ snakeFrom before cs, isWordChar c = true := by
  induction cs generalizing before with
  | nil => simp [snakeFrom]
  | cons c cs ih =>
    obtain ⟨hc, hrest⟩ := List.forall_mem_cons.mp h
    rw [snakeFrom]
    refine List.forall_mem_append.mpr ⟨?_, ih hrest⟩
    have hlower := (wordChar_classes hc).2.1
    split
    · split
      · exact List.forall_mem_cons.mpr ⟨by decide, by simpa using hlower⟩
      · simp [hlower]
    · simp [hc]

/-- The first character of a name stays in front, as a small letter if it is one. -/
theorem head?_snake (name : String) : ∀ c ∈ name.toList.head?,
    (snake name).toList.head? = some (if c.isUpper then c.toLower else c) := by
  intro c hc
  rw [snake, String.toList_ofList]
  cases hlist : name.toList with
  | nil =>
    rw [hlist] at hc
    cases hc
  | cons d rest =>
    rw [hlist] at hc
    cases hc
    rw [snakeFrom, beginsWord]
    split <;> simp

theorem isWord_snake (h : isWord name = true) : isWord (snake name) = true := by
  obtain ⟨⟨c, hhead, hc⟩, hall⟩ := isWord_iff.mp h
  have hmem : c ∈ name.toList := List.mem_of_mem_head? hhead
  refine isWord_iff.mpr ⟨⟨_, head?_snake name c hhead, ?_⟩, ?_⟩
  · split
    · rename_i hupper
      have halpha : c.isAlpha = true := Bool.or_eq_true_iff.mpr (.inl hupper)
      exact .inl ((wordChar_classes (hall c hmem)).2.2.1 halpha)
    · exact hc
  · rw [snake, String.toList_ofList]
    exact snakeFrom_chars hall

/-- The words between underscores, each with a capital in front and the rest through `tail`. -/
def joinWords (tail : Char → List Char) (cs : List Char) : List Char :=
  (Text.splitAt '_' cs).flatMap (capitalize tail)

theorem joinWords_underscore (tail : Char → List Char) (cs : List Char) :
    joinWords tail ('_' :: cs) = joinWords tail cs := by
  simp [joinWords, Text.splitAt, capitalize]

theorem splitAt_ne_nil (mark : Char) (cs : List Char) : Text.splitAt mark cs ≠ [] := by
  cases cs with
  | nil => simp [Text.splitAt]
  | cons c cs =>
    rw [Text.splitAt]
    split
    · simp
    · split <;> simp

theorem upperCase_word (h : isWordChar c = true) : Text.upperCase c = [c.toUpper] :=
  if_pos (toNat_lt_of_isWordChar h)

theorem isWordChar_of_isAlphanum (h : c.isAlphanum = true) : isWordChar c = true := by simp [isWordChar, h]

theorem isAlphanum_of_isWordChar (h : isWordChar c = true) (hmark : c ≠ '_') : c.isAlphanum = true := by
  simpa [isWordChar, hmark] using h

/-- The first character that is no underscore comes in front, as a capital if it is a letter. -/
theorem head?_joinWords {tail : Char → List Char} (h : ∀ c ∈ cs, isWordChar c = true) :
    (joinWords tail cs).head? = (cs.find? (· ≠ '_')).map Char.toUpper := by
  induction cs with
  | nil => rfl
  | cons c cs ih =>
    obtain ⟨hc, hrest⟩ := List.forall_mem_cons.mp h
    by_cases hmark : c = '_'
    · subst hmark
      rw [joinWords_underscore, ih hrest]
      rfl
    · obtain ⟨part, parts, hparts⟩ := List.exists_cons_of_ne_nil (splitAt_ne_nil '_' cs)
      rw [joinWords, Text.splitAt, if_neg hmark, hparts, List.find?_cons_of_pos (by simpa using hmark)]
      simp [capitalize, upperCase_word hc]

/-- What is joined are letters and digits. -/
theorem joinWords_chars {tail : Char → List Char} (htail : ∀ c, c.isAlphanum = true → ∀ d ∈ tail c, d.isAlphanum = true)
    (h : ∀ c ∈ cs, isWordChar c = true) : ∀ c ∈ joinWords tail cs, c.isAlphanum = true := by
  have hparts : ∀ part ∈ Text.splitAt '_' cs, ∀ c ∈ part, c.isAlphanum = true := by
    induction cs with
    | nil => simp [Text.splitAt]
    | cons c cs ih =>
      obtain ⟨hc, hrest⟩ := List.forall_mem_cons.mp h
      rw [Text.splitAt]
      split
      · simpa using ih hrest
      · rename_i hmark
        obtain ⟨part, parts, hcut⟩ := List.exists_cons_of_ne_nil (splitAt_ne_nil '_' cs)
        have hinner := ih hrest
        rw [hcut] at hinner ⊢
        obtain ⟨hfirst, hothers⟩ := List.forall_mem_cons.mp hinner
        exact List.forall_mem_cons.mpr
          ⟨List.forall_mem_cons.mpr ⟨isAlphanum_of_isWordChar hc hmark, hfirst⟩, hothers⟩
  intro c hc
  obtain ⟨part, hpart, hmem⟩ := List.mem_flatMap.mp hc
  cases part with
  | nil => cases hmem
  | cons first rest =>
    obtain ⟨hfirst, hrest⟩ := List.forall_mem_cons.mp (hparts _ hpart)
    have hword := isWordChar_of_isAlphanum hfirst
    rw [capitalize, upperCase_word hword] at hmem
    rcases List.mem_append.mp hmem with hmem | hmem
    · cases List.mem_singleton.mp hmem
      exact ((wordChar_classes hword).2.2.2.1 hfirst).1
    · obtain ⟨d, hd, hmem⟩ := List.mem_flatMap.mp hmem
      exact htail d (hrest d hd) c hmem

/-- What a name becomes without its underscores. -/
structure Joined (name joined : String) : Prop where
  source : ∀ c ∈ name.toList, isWordChar c = true
  head : joined.toList.head? = (name.toList.find? (· ≠ '_')).map Char.toUpper
  chars : ∀ c ∈ joined.toList, c.isAlphanum = true

theorem joined_pascal (h : ∀ c ∈ name.toList, isWordChar c = true) : Joined name (pascal name) := by
  have hpascal : (pascal name).toList = joinWords (fun c => [c]) name.toList := String.toList_ofList
  refine ⟨h, ?_, ?_⟩
  · rw [hpascal, head?_joinWords h]
  · rw [hpascal]
    exact joinWords_chars (by simp) h

theorem joined_pascalFromUpper (h : ∀ c ∈ name.toList, isWordChar c = true) : Joined name (pascalFromUpper name) := by
  have hpascal : (pascalFromUpper name).toList = joinWords Text.lowerCase name.toList := String.toList_ofList
  refine ⟨h, ?_, ?_⟩
  · rw [hpascal, head?_joinWords h]
  · rw [hpascal]
    refine joinWords_chars (fun c hc d hd => ?_) h
    have hword := isWordChar_of_isAlphanum hc
    have hlower : Text.lowerCase c = [c.toLower] := if_pos (toNat_lt_of_isWordChar hword)
    rw [hlower] at hd
    cases List.mem_singleton.mp hd
    exact ((wordChar_classes hword).2.2.2.1 hc).2

namespace Joined

variable {name joined : String}

theorem isWord (h : Joined name joined) (hleads : Leads name) : isWord joined = true := by
  obtain ⟨c, hfind, halpha⟩ := hleads
  refine isWord_iff.mpr ⟨⟨c.toUpper, by rw [h.head, hfind]; rfl, .inl ?_⟩, fun d hd => ?_⟩
  · have hsource := h.source c (List.mem_of_find?_eq_some hfind)
    exact (wordChar_classes hsource).2.2.2.2.mpr halpha
  · exact isWordChar_of_isAlphanum (h.chars d hd)

theorem spoilt (h : Joined name joined) (hleads : ¬ Leads name) : Spoilt joined := by
  intro c hc
  have halnum : c.isAlphanum = true := h.chars c (List.mem_of_mem_head? hc)
  rw [h.head] at hc
  obtain ⟨d, hfind, rfl⟩ := Option.map_eq_some_iff.mp hc
  have hsource := h.source d (List.mem_of_find?_eq_some hfind)
  have hletter : d.toUpper.isAlpha = false := by
    refine Bool.eq_false_iff.mpr fun halpha => hleads ⟨d, hfind, ?_⟩
    exact (wordChar_classes hsource).2.2.2.2.mp halpha
  simpa [Char.isAlphanum, hletter] using halnum

end Joined

/-! ## Names that are none -/

theorem spoilt_typeName {name : String} (h : Spoilt name) : typeName name = name := by
  refine if_neg fun hkept => ?_
  rcases Bool.or_eq_true_iff.mp hkept with hkeyword | hblank
  · obtain ⟨hne, hall⟩ := keyword_letters hkeyword
    obtain ⟨c, rest, hlist⟩ := List.exists_cons_of_ne_nil hne
    have hdigit := h c (by rw [hlist]; rfl)
    have halpha := hall c (by rw [hlist]; exact List.mem_cons_self ..)
    rw [not_isAlpha_of_isDigit hdigit] at halpha
    cases halpha
  · rw [beq_iff_eq.mp hblank] at h
    exact absurd (h '_' rfl) (by decide)

theorem Plain.not_spoilt {name : String} (h : Plain name) : ¬ Spoilt name := by
  intro hspoilt
  obtain ⟨⟨c, hhead, hc⟩, _⟩ := isWord_iff.mp h.word
  have hdigit := hspoilt c hhead
  rcases hc with halpha | rfl
  · rw [not_isAlpha_of_isDigit hdigit] at halpha
    cases halpha
  · cases hdigit

theorem spoilt_numbered {base : String} (h : Spoilt base) (i : Nat) : Spoilt (Scope.numbered base "" i) := by
  intro c hc
  rw [Scope.numbered, String.append_empty, String.toList_append, List.head?_append] at hc
  rcases Option.or_eq_some_iff.mp hc with hc | ⟨_, hc⟩
  · exact h c hc
  · exact isWordChar_repr _ c (List.mem_of_mem_head? hc)

theorem spoilt_fresh {base : String} (h : Spoilt base) (scope : Scope) : Spoilt (scope.fresh base "") := by
  rcases scope.fresh_cases base "" with heq | ⟨i, heq⟩
  · rwa [heq]
  · rw [heq]
    exact spoilt_numbered h i

theorem isIdentifier_of_spoilt {name : String} (h : Spoilt name) : isIdentifier name = false := by
  unfold isIdentifier
  split
  · rename_i raw hraw
    exact absurd (h 'r' (by rw [hraw]; rfl)) (by decide)
  · cases hlist : name.toList with
    | nil => rfl
    | cons c rest =>
      have hdigit := h c (by rw [hlist]; rfl)
      have hascii := toNat_lt_of_isWordChar (isWordChar_of_isDigit hdigit)
      have hmark : c ≠ '_' := by
        rintro rfl
        cases hdigit
      simp [isPlainIdentifier, hmark, Text.isIdentifierStart, not_isAlpha_of_isDigit hdigit, Nat.not_le.mpr hascii]

theorem isPlainIdentifier_of_isWord {name : String} (h : isWord name = true) : isPlainIdentifier name.toList = true := by
  obtain ⟨⟨c, hhead, hc⟩, hall⟩ := isWord_iff.mp h
  obtain ⟨rest, hlist⟩ := List.head?_eq_some_iff.mp hhead
  rw [hlist] at hall ⊢
  have hrest : ∀ d ∈ rest, Text.isIdentifierContinue d = true := by
    intro d hd
    have hword : (d.isAlphanum || d == '_') = true := hall d (List.mem_cons_of_mem _ hd)
    rw [Text.isIdentifierContinue, hword, Bool.true_or]
  have hfirst : (c == '_' || Text.isIdentifierStart c) = true := by
    rcases hc with hc | hc
    · simp [Text.isIdentifierStart, hc]
    · simp [hc]
  rw [isPlainIdentifier, hfirst, Bool.true_and, List.all_eq_true]
  exact hrest

theorem Usable.isIdentifier {name : String} (h : Usable name) : isIdentifier name = true := by
  cases h with
  | plain hplain =>
    unfold Naming.isIdentifier
    split
    · rename_i raw hraw
      have hmark := isWord_chars hplain.word '#' (by rw [hraw]; simp)
      cases hmark
    · exact isPlainIdentifier_of_isWord hplain.word
  | @raw bare hword hallowed =>
    have hlist : ("r#" ++ bare).toList = 'r' :: '#' :: bare.toList := by rw [String.toList_append]; rfl
    unfold Naming.isIdentifier
    rw [hlist]
    show (isPlainIdentifier bare.toList && !("_" :: pathKeywords).contains (String.ofList bare.toList)) = true
    rw [isPlainIdentifier_of_isWord hword, String.ofList_toList, Bool.true_and, Bool.not_eq_true', Bool.eq_false_iff]
    exact fun hcontains => hallowed (List.contains_iff_mem.mp hcontains)

end Protobuf.Naming
