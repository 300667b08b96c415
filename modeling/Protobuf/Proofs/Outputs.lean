/-
  Protobuf.Proofs.Outputs — the files put out for a request.

  `Emits before outputs sources after` says what putting out files does to the names taken: each output has a name that
  was free before and is taken after, no two have the same one, and they come from these schema files in this order.
  One output does so because a claim gets a free name, and what follows composes (`Emits.append`). So all outputs of a
  request are distinct, and an entry of the list has one, or one for each type at the top of its file (`generate_paths`).
-/

import Protobuf.Generate.Output
import Protobuf.Proofs.Paths

namespace Protobuf

namespace Schema

/-- No message at the top of a file is passed over. -/
theorem Context.length_messages {context : Context} {outer : String} {place : Place} {index : Nat}
    {decls : List Descriptor.Message} {trees : List MessageTree}
    (h : context.messages outer place .message index decls = .ok trees) : trees.length = decls.length := by
  induction decls generalizing index trees with
  | nil =>
    rw [messages] at h
    cases h
    rfl
  | cons decl decls ih =>
    rw [messages, if_neg (by simp)] at h
    obtain ⟨tree, _, h⟩ := bind_ok h
    obtain ⟨rest, hrest, h⟩ := bind_ok h
    cases h
    exact congrArg (· + 1) (ih hrest)

/-- Resolving keeps a file's name and the number of its types. -/
theorem Registry.resolve_counts {registry : Registry} {file : Descriptor.File} {keepsUnknown : Bool} {resolved : File}
    (h : registry.resolve file keepsUnknown = .ok resolved) :
    resolved.name = file.nameText ∧ resolved.messages.length = file.messages.length ∧
      resolved.enums.length = file.enums.length := by
  obtain ⟨_, _, _, htrees, htypes, hname⟩ := resolve_ok h
  exact ⟨hname, Context.length_messages htrees, (mapM_ok htypes).1.trans List.length_zipIdx⟩

end Schema

namespace Generate

open Schema Naming

/-- The outputs come from these files, with names that were free and are taken now. -/
structure Emits (before : Scope) (outputs : List OutputFile) (sources : List String) (after : Scope) : Prop where
  nodup : (outputs.map OutputFile.name).Nodup
  claimed : ∀ output ∈ outputs, ∃ name, output.name = name ++ ".rs" ∧ before.isTaken name = false ∧
    after.isTaken name = true
  kept : ∀ name, before.isTaken name = true → after.isTaken name = true
  sources_eq : outputs.map OutputFile.source = sources

namespace Emits

variable {first second third : Scope} {outputs more : List OutputFile} {sources others : List String}

theorem nil (scope : Scope) : Emits scope [] [] scope :=
  ⟨List.nodup_nil, List.forall_mem_nil _, fun _ h => h, rfl⟩

theorem append (h : Emits first outputs sources second) (h' : Emits second more others third) :
    Emits first (outputs ++ more) (sources ++ others) third where
  nodup := by
    rw [List.map_append]
    refine h.nodup.append h'.nodup fun path hpath hpath' => ?_
    -- a path put out first is taken when the rest is put out
    obtain ⟨output, houtput, rfl⟩ := List.mem_map.mp hpath
    obtain ⟨other, hother, heq⟩ := List.mem_map.mp hpath'
    obtain ⟨name, hname, _, htaken⟩ := h.claimed output houtput
    obtain ⟨name', hname', hfree, _⟩ := h'.claimed other hother
    rw [hname, hname', String.append_left_inj] at heq
    rw [heq, htaken] at hfree
    cases hfree
  claimed := by
    refine List.forall_mem_append.mpr ⟨fun output houtput => ?_, fun output houtput => ?_⟩
    · obtain ⟨name, hname, hfree, htaken⟩ := h.claimed output houtput
      exact ⟨name, hname, hfree, h'.kept name htaken⟩
    · obtain ⟨name, hname, hfree, htaken⟩ := h'.claimed output houtput
      refine ⟨name, hname, Bool.eq_false_iff.mpr fun hfirst => ?_, htaken⟩
      rw [h.kept name hfirst] at hfree
      cases hfree
  kept := fun name hname => h'.kept name (h.kept name hname)
  sources_eq := by rw [List.map_append, h.sources_eq, h'.sources_eq]

/-- A run that puts out more at each step. -/
theorem run {ε α : Type} (sources : α → List String)
    {step : List OutputFile × Scope → α → Except ε (List OutputFile × Scope)}
    (hstep : ∀ {state a state'}, step state a = .ok state' →
      ∃ more, state'.1 = state.1 ++ more ∧ Emits state.2 more (sources a) state'.2)
    {xs : List α} {state state' : List OutputFile × Scope} (h : xs.foldlM step state = .ok state') :
    ∃ more, state'.1 = state.1 ++ more ∧ Emits state.2 more (xs.flatMap sources) state'.2 := by
  induction xs generalizing state with
  | nil =>
    cases h
    exact ⟨[], (List.append_nil _).symm, nil _⟩
  | cons a xs ih =>
    rw [List.foldlM_cons] at h
    obtain ⟨next, hnext, h⟩ := bind_ok h
    obtain ⟨more, heq, hmore⟩ := hstep hnext
    obtain ⟨rest, heq', hrest⟩ := ih h
    exact ⟨more ++ rest, by rw [heq', heq, List.append_assoc], hmore.append hrest⟩

end Emits

/-! ## One file -/

variable {language : Code.Language} {request : Request} {options : Options} {registry : Registry} {taken : Scope}

theorem emitUnit_emits {file : File} {name : String} {unit : CodeUnit} {result : OutputFile × Scope}
    (h : emitUnit language file options taken name unit = .ok result) : Emits taken [result.1] [file.name] result.2 := by
  unfold emitUnit at h
  obtain ⟨items, _, h⟩ := bind_ok h
  cases h
  refine ⟨List.nodup_singleton _, List.forall_mem_singleton.mpr ?_, fun other h => Scope.isTaken_insert.mpr (.inr h), rfl⟩
  exact ⟨_, rfl, Scope.isTaken_fresh taken name "_", Scope.isTaken_insert.mpr (.inl rfl)⟩

/-- How many outputs a file has that declares so many types at its top. -/
def Options.parts (options : Options) (types : Nat) : Nat := if options.splitsTypes then types else 1

theorem length_units (file : File) (options : Options) :
    (units file options).length = options.parts (file.messages.length + file.enums.length) := by
  unfold units Options.parts
  split <;> simp

theorem emit_emits {file : File} {result : List OutputFile × Scope} (h : emit language file options taken = .ok result) :
    Emits taken result.1 (List.replicate (options.parts (file.messages.length + file.enums.length)) file.name) result.2 := by
  have hrun := Emits.run (fun _ => [file.name]) ?_ h
  · obtain ⟨more, heq, hmore⟩ := hrun
    rw [← List.map_eq_flatMap, List.map_const', length_units] at hmore
    rwa [heq, List.nil_append]
  · intro state named state' hstep
    obtain ⟨result, hresult, hstep⟩ := bind_ok hstep
    cases hstep
    exact ⟨[result.1], rfl, emitUnit_emits hresult⟩

/-! ## Requests -/

/-- How many messages and enums the file with this name declares at its top. -/
def Request.types (request : Request) (name : String) : Nat :=
  ((request.files.find? fun file => file.nameText == name).map fun file => file.messages.length + file.enums.length).getD 0

theorem generateFile_emits {name : String} {result : List OutputFile × Scope}
    (h : generateFile language request options registry taken name = .ok result) :
    Emits taken result.1 (List.replicate (options.parts (request.types name)) name) result.2 := by
  unfold generateFile at h
  split at h
  · rename_i descriptor hfind
    obtain ⟨file, hfile, h⟩ := bind_ok h
    obtain ⟨hname, hmessages, henums⟩ := Registry.resolve_counts (mapError_ok hfile)
    have hlisted : descriptor.nameText = name := by simpa using List.find?_some hfind
    have hemits := emit_emits h
    rw [hname, hlisted, hmessages, henums] at hemits
    rwa [Request.types, hfind]
  · cases h

theorem length_sources (options : Options) (types : String → Nat) (names : List String) :
    (names.flatMap fun name => List.replicate (options.parts (types name)) name).length =
      if options.splitsTypes then total types names else names.length := by
  induction names with
  | nil => simp [total]
  | cons name names ih =>
    rw [List.flatMap_cons, List.length_append, List.length_replicate, ih, Options.parts]
    split
    · rfl
    · exact Nat.add_comm ..

/-- No two outputs share a name, whatever the names of files, packages and types have become on the way; and each entry
    of the list has its outputs, in order: one, or one for each type at the top of its file. The language that the code
    is in has a say in whether there are outputs, not in their names or number. -/
theorem generate_paths {outputs : List OutputFile} (h : generate language request = .ok outputs) :
    (outputs.map OutputFile.name).Nodup ∧
    ∃ options, Options.parse language (request.parameter.getD "") = .ok options ∧
      outputs.map OutputFile.source =
        (request.listed.flatMap fun name => List.replicate (options.parts (request.types name)) name) ∧
      outputs.length = if options.splitsTypes then total request.types request.listed else request.listed.length := by
  unfold generate at h
  obtain ⟨options, hoptions, h⟩ := bind_ok h
  obtain ⟨registry, _, h⟩ := bind_ok h
  obtain ⟨result, hrun, h⟩ := bind_ok h
  cases h
  obtain ⟨more, heq, hmore⟩ := Emits.run (fun name => List.replicate (options.parts (request.types name)) name)
    (by
      intro state name state' hstep
      obtain ⟨result, hresult, hstep⟩ := bind_ok hstep
      cases hstep
      exact ⟨result.1, rfl, generateFile_emits hresult⟩) hrun
  rw [List.nil_append] at heq
  subst heq
  refine ⟨hmore.nodup, options, mapError_ok hoptions, hmore.sources_eq, ?_⟩
  rw [← length_sources, ← hmore.sources_eq, List.length_map]

/-- Types whose names come out alike, one of them with a number that a claim asks for, in files listed more than once. -/
def colliding : Request where
  listed := ["a.proto", "b.proto", "a.proto"]
  parameter := some "generate_multiple_files=true"
  files := [
    { name := some "a.proto", package := some "self", messages := [.of "FooBar" [], .of "foo_bar_2" []] },
    { name := some "b.proto", package := some "self_", enums := [.of "fooBar" [("A", 0)]] }]

theorem generate_paths_colliding :
    ∃ outputs, generate .rust colliding = .ok outputs ∧ (outputs.map OutputFile.name).Nodup ∧ outputs.length = 5 ∧
      outputs.map OutputFile.name =
        ["self_/foo_bar.rs", "self_/foo_bar_2.rs", "self_/foo_bar_3.rs", "self_/foo_bar_4.rs", "self_/foo_bar_2_2.rs"] := by
  have hnames : (generate .rust colliding).toOption.map (fun outputs => outputs.map OutputFile.name) = some
      ["self_/foo_bar.rs", "self_/foo_bar_2.rs", "self_/foo_bar_3.rs", "self_/foo_bar_4.rs", "self_/foo_bar_2_2.rs"] := by
    decide +kernel
  cases hgenerate : generate .rust colliding with
  | error cause =>
    rw [hgenerate] at hnames
    cases hnames
  | ok outputs =>
    rw [hgenerate] at hnames
    have hnames := Option.some.inj hnames
    exact ⟨outputs, rfl, (generate_paths hgenerate).1, by simpa using congrArg List.length hnames, hnames⟩

end Generate

end Protobuf
