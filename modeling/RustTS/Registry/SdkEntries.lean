import Mathlib.Data.List.Nodup
import RustTS.Registry.InstallGlobals
import RustTS.Registry.Sdk

/-! What is inserted into the exported tree of the SDK: the functions at their paths and the aliases
of the events, in order. -/
namespace RustTS.Registry.Sdk
open RustTS.Contract

theorem mem_segments {name segment : Str} (h : segment ∈ segments name) : '.' ∉ segment := by
  induction name generalizing segment with
  | nil =>
    rw [segments, List.splitOn_nil, List.mem_singleton] at h
    rw [h]
    exact List.not_mem_nil
  | cons c name ih =>
    rw [segments, List.splitOn_cons_eq_if_modifyHead] at h
    split_ifs at h with hc
    · rcases List.mem_cons.mp h with rfl | hmem
      · exact List.not_mem_nil
      · exact ih hmem
    · obtain ⟨s, rest, hsplit⟩ := List.exists_cons_of_ne_nil (List.splitOn_ne_nil '.' name)
      rw [hsplit, List.modifyHead_cons] at h
      have hcons : segments name = s :: rest := hsplit
      rcases List.mem_cons.mp h with rfl | hmem
      · intro hdot
        rcases List.mem_cons.mp hdot with heq | hdot
        · exact hc (by rw [← heq]; rfl)
        · exact ih (hcons ▸ List.mem_cons_self) hdot
      · exact ih (hcons ▸ List.mem_cons_of_mem s hmem)

theorem intercalate_segments (name : Str) : ['.'].intercalate (segments name) = name :=
  List.intercalate_splitOn '.'

/-- The path a name is exported at: without the empty segments it starts with, unless they are
all. -/
def exportedPath (path : List Str) : List Str :=
  match path.dropWhile (·.isEmpty) with
  | [] => [[]]
  | rest => rest

private theorem foldl_childPath {pre : Str} (h : pre ≠ []) (path : List Str) :
    path.foldl childPath pre = ['.'].intercalate (pre :: path) := by
  induction path generalizing pre with
  | nil => simp
  | cons name path ih =>
    have hchild : childPath pre name = pre ++ '.' :: name := by
      unfold childPath
      rw [if_neg (by simpa using h)]
    rw [List.foldl_cons, hchild, ih (by simp)]
    cases path <;> simp [List.intercalate_cons_cons]

private theorem foldl_childPath_nil (path : List Str) :
    path.foldl childPath [] = ['.'].intercalate (path.dropWhile (·.isEmpty)) := by
  induction path with
  | nil => rfl
  | cons name path ih =>
    rw [List.foldl_cons, List.dropWhile_cons]
    show path.foldl childPath name = _
    cases name with
    | nil => exact ih
    | cons c name => exact foldl_childPath (List.cons_ne_nil c name) path

private theorem segments_foldl_childPath {path : List Str} (h : ∀ segment ∈ path, '.' ∉ segment) :
    segments (path.foldl childPath []) = exportedPath path := by
  unfold segments exportedPath
  rw [foldl_childPath_nil]
  cases hdrop : path.dropWhile (·.isEmpty) with
  | nil => rfl
  | cons segment rest =>
    apply List.splitOn_intercalate
    · intro s hs
      exact h s ((List.dropWhile_sublist _).mem (hdrop ▸ hs))
    · exact List.cons_ne_nil segment rest

theorem functionDomainBindings_eq (pre : Str) (functions : PathTree Str SdkFunction) :
    functionDomainBindings pre functions =
      functions.bindings.map fun e => (e.1.foldl childPath pre, .function e.2) := by
  induction functions generalizing pre with
  | nil => rfl
  | cons name binding children rest ihchildren ihrest =>
    unfold functionDomainBindings PathTree.bindings
    dsimp only
    rw [ihchildren, ihrest, List.map_append, List.map_append, List.map_map]
    cases binding <;> rfl

/-- The path of an event's alias. -/
def aliasPath : List Str → Option (List Str)
  | root :: segment :: rest => some [root, "on".toList ++ pascalCase (segment :: rest)]
  | _ => none

theorem eventAliasesBelow_eq (root : Str) (path : List Str) (events : PathTree Str SdkEvent) :
    eventAliasesBelow root path events =
      events.bindings.map fun e =>
        (root ++ ".on".toList ++ pascalCase (path ++ e.1), .eventAlias e.2.eventName) := by
  induction events generalizing path with
  | nil => rfl
  | cons name binding children rest ihchildren ihrest =>
    unfold eventAliasesBelow PathTree.bindings
    have hpath : eventAliasPath root (path ++ [name]) =
        some (root ++ ".on".toList ++ pascalCase (path ++ [name])) := by
      unfold eventAliasPath
      rw [if_neg (by simp)]
    have hbelow : (fun e : List Str × SdkEvent =>
        (root ++ ".on".toList ++ pascalCase (path ++ [name] ++ e.1),
          SdkDomainBinding.eventAlias e.2.eventName)) =
        (fun e => (root ++ ".on".toList ++ pascalCase (path ++ e.1), .eventAlias e.2.eventName)) ∘
          fun e => (name :: e.1, e.2) := by
      funext e
      simp [Function.comp]
    dsimp only
    rw [ihchildren, ihrest, List.map_append, List.map_append, List.map_map, hpath, hbelow]
    cases binding <;> rfl

/-- The alias of an event at its path. -/
def aliasEntry (e : List Str × SdkEvent) : Option (List Str × SdkDomainBinding) :=
  (aliasPath e.1).map fun path => (path, .eventAlias e.2.eventName)

theorem mem_of_mem_splitOnP {p : Char → Bool} {text part : Str} {c : Char}
    (hpart : part ∈ text.splitOnP p) (hc : c ∈ part) : c ∈ text := by
  induction text generalizing part with
  | nil =>
    rw [List.splitOnP_nil, List.mem_singleton] at hpart
    rw [hpart] at hc
    exact hc
  | cons d text ih =>
    rw [List.splitOnP_cons_eq_if_modifyHead] at hpart
    split_ifs at hpart with hd
    · rcases List.mem_cons.mp hpart with rfl | hmem
      · exact absurd hc List.not_mem_nil
      · exact List.mem_cons_of_mem d (ih hmem hc)
    · obtain ⟨head, rest, hsplit⟩ := List.exists_cons_of_ne_nil (List.splitOnP_ne_nil p text)
      rw [hsplit, List.modifyHead_cons] at hpart
      rcases List.mem_cons.mp hpart with rfl | hmem
      · rcases List.mem_cons.mp hc with rfl | hc
        · exact List.mem_cons_self
        · exact List.mem_cons_of_mem d (ih (hsplit ▸ List.mem_cons_self) hc)
      · exact List.mem_cons_of_mem d (ih (hsplit ▸ List.mem_cons_of_mem head hmem) hc)

private theorem toUpper_ne_dot {c : Char} (h : c ≠ '.') : c.toUpper ≠ '.' := by
  unfold Char.toUpper
  split_ifs with hlower
  · intro heq
    have hval := congrArg (fun d : Char => d.val.toNat) heq
    have hlow : 97 ≤ c.toNat := hlower.1
    have hhigh : c.toNat ≤ 122 := hlower.2
    simp only [UInt32.toNat_add] at hval
    have hnat : (c.toNat + 4294967264) % 4294967296 = 46 := by simpa using hval
    omega
  · exact h

theorem dot_notMem_pascalSegment {segment : Str} (h : '.' ∉ segment) :
    '.' ∉ pascalSegment segment := by
  intro hmem
  obtain ⟨part, hpart, hdot⟩ := List.mem_flatMap.mp hmem
  have hchars : ∀ c ∈ part, c ≠ '.' := by
    rintro c hc rfl
    exact h (mem_of_mem_splitOnP (List.mem_filter.mp hpart).1 hc)
  match part with
  | [] => exact absurd hdot List.not_mem_nil
  | first :: rest =>
    rcases List.mem_cons.mp hdot with heq | hrest
    · exact toUpper_ne_dot (hchars first List.mem_cons_self) heq.symm
    · exact hchars '.' (List.mem_cons_of_mem first hrest) rfl

private theorem dot_notMem_pascalCase {path : List Str} (h : ∀ segment ∈ path, '.' ∉ segment) :
    '.' ∉ pascalCase path := by
  intro hmem
  obtain ⟨segment, hsegment, hdot⟩ := List.mem_flatMap.mp hmem
  exact dot_notMem_pascalSegment (h segment hsegment) hdot

theorem segments_alias {root : Str} {path : List Str} (hroot : '.' ∉ root)
    (h : ∀ segment ∈ path, '.' ∉ segment) :
    segments (root ++ ".on".toList ++ pascalCase path) = [root, "on".toList ++ pascalCase path] := by
  have hname : '.' ∉ "on".toList ++ pascalCase path := by
    rw [List.mem_append]
    rintro (hon | hpascal)
    · exact absurd hon (by decide)
    · exact dot_notMem_pascalCase h hpascal
  have hsplit : root ++ ".on".toList ++ pascalCase path =
      root ++ '.' :: ("on".toList ++ pascalCase path) := by
    rw [List.append_assoc]
    rfl
  unfold segments
  rw [hsplit, List.splitOn_append_cons_self_of_not_mem hroot, List.splitOn_eq_singleton hname]

theorem eventAliasDomainBindings_eq (events : PathTree Str SdkEvent) :
    eventAliasDomainBindings events = events.bindings.filterMap fun e =>
      match e.1 with
      | root :: segment :: rest =>
        some (root ++ ".on".toList ++ pascalCase (segment :: rest), .eventAlias e.2.eventName)
      | _ => none := by
  induction events with
  | nil => rfl
  | cons root binding children rest _ ihrest =>
    unfold eventAliasDomainBindings PathTree.bindings
    rw [ihrest, eventAliasesBelow_eq, List.filterMap_append, List.filterMap_append,
      List.filterMap_map]
    have hown : ∀ binding : Option SdkEvent, (binding.map fun b => ([root], b)).toList.filterMap
        (fun e : List Str × SdkEvent => match e.1 with
          | root :: segment :: rest => some (root ++ ".on".toList ++ pascalCase (segment :: rest),
              SdkDomainBinding.eventAlias e.2.eventName)
          | _ => none) = [] := by
      intro binding
      cases binding <;> rfl
    rw [hown, List.nil_append]
    congr 1
    rw [← List.filterMap_eq_map]
    apply List.filterMap_congr
    intro e he
    obtain ⟨segment, path, hpath⟩ :=
      List.exists_cons_of_ne_nil (PathTree.ne_nil_of_mem_bindings he)
    simp [Function.comp, hpath]

variable {descriptors : List (HostContractDescriptor Schema)} {d : HostContractDescriptor Schema}

/-- What a function contract is inserted with. -/
def sdkFunction (d : HostContractDescriptor Schema) : Option SdkFunction :=
  match d.abi with
  | .function input output returnsPromise =>
    some ⟨d.name, schemaTypeName input, functionOutputType output returnsPromise,
      !isVoid input.tsType⟩
  | _ => none

def sdkEvent (d : HostContractDescriptor Schema) : Option SdkEvent :=
  match d.abi with
  | .callback .. => some ⟨d.name⟩
  | _ => none

/-- What is inserted for the contracts that have a value, at the segments of their names. -/
def namedEntries {T : Type} (value : HostContractDescriptor Schema → Option T)
    (descriptors : List (HostContractDescriptor Schema)) : List (List Str × T) :=
  descriptors.filterMap fun d => (value d).map fun v => (segments d.name, v)

theorem functions_foldl (b : SdkBuilder) :
    (descriptors.foldl SdkBuilder.pushDescriptor b).functions =
      b.functions.insertAll (namedEntries sdkFunction descriptors) := by
  induction descriptors generalizing b with
  | nil => rfl
  | cons d descriptors ih =>
    rw [List.foldl_cons, ih]
    unfold namedEntries sdkFunction SdkBuilder.pushDescriptor
    rw [List.filterMap_cons]
    cases d.abi <;> rfl

theorem events_foldl (b : SdkBuilder) :
    (descriptors.foldl SdkBuilder.pushDescriptor b).events =
      b.events.insertAll (namedEntries sdkEvent descriptors) := by
  induction descriptors generalizing b with
  | nil => rfl
  | cons d descriptors ih =>
    rw [List.foldl_cons, ih]
    unfold namedEntries sdkEvent SdkBuilder.pushDescriptor
    rw [List.filterMap_cons]
    cases d.abi <;> rfl

section
variable {T : Type} {value : HostContractDescriptor Schema → Option T} {path : List Str} {v : T}

theorem mem_namedEntries : (path, v) ∈ namedEntries value descriptors ↔
    ∃ d ∈ descriptors, value d = some v ∧ segments d.name = path := by
  unfold namedEntries
  simp only [List.mem_filterMap, Option.map_eq_some_iff, Prod.mk.injEq]
  apply exists_congr
  intro d
  apply and_congr_right'
  constructor
  · rintro ⟨v', hv, hpath, rfl⟩
    exact ⟨hv, hpath⟩
  · rintro ⟨hv, hpath⟩
    exact ⟨v, hv, hpath, rfl⟩

theorem ne_nil_of_mem_namedEntries {e : List Str × T}
    (he : e ∈ namedEntries value descriptors) : e.1 ≠ [] := by
  obtain ⟨d, -, -, hpath⟩ := mem_namedEntries.mp he
  rw [← hpath]
  exact List.splitOn_ne_nil '.' d.name

theorem mem_bindings_iff_lastAt : (path, v) ∈
      (PathTree.nil.insertAll (namedEntries value descriptors)).bindings ↔
    PathTree.lastAt path (namedEntries value descriptors) = some v := by
  have hsorted : (PathTree.nil.insertAll (namedEntries value descriptors)).Sorted :=
    sorted_rootOf (namedEntries value descriptors)
  rw [PathTree.mem_bindings hsorted, bindingAt_rootOf fun e he => ne_nil_of_mem_namedEntries he]

theorem exists_of_mem_bindings
    (h : (path, v) ∈ (PathTree.nil.insertAll (namedEntries value descriptors)).bindings) :
    ∃ d ∈ descriptors, value d = some v ∧ segments d.name = path :=
  mem_namedEntries.mp (PathTree.mem_of_lastAt (mem_bindings_iff_lastAt.mp h))

theorem exists_mem_bindings (hd : d ∈ descriptors) (hv : value d = some v) :
    ∃ v', (segments d.name, v') ∈
      (PathTree.nil.insertAll (namedEntries value descriptors)).bindings := by
  cases hlast : PathTree.lastAt (segments d.name) (namedEntries value descriptors) with
  | none =>
    exact absurd rfl
      (PathTree.lastAt_eq_none.mp hlast _ (mem_namedEntries.mpr ⟨d, hd, hv, rfl⟩))
  | some v' => exact ⟨v', mem_bindings_iff_lastAt.mpr hlast⟩

end

/-- The functions as they are inserted into the exported tree. -/
def functionPart (descriptors : List (HostContractDescriptor Schema)) :
    List (List Str × SdkDomainBinding) :=
  (PathTree.nil.insertAll (namedEntries sdkFunction descriptors)).bindings.map fun e =>
    (exportedPath e.1, .function e.2)

/-- The aliases, which are inserted after them. -/
def aliasPart (descriptors : List (HostContractDescriptor Schema)) :
    List (List Str × SdkDomainBinding) :=
  (PathTree.nil.insertAll (namedEntries sdkEvent descriptors)).bindings.filterMap aliasEntry

/-- The exported tree of a builder. -/
theorem domainTree_eq (descriptors : List (HostContractDescriptor Schema)) :
    let b := descriptors.foldl SdkBuilder.pushDescriptor .empty
    domainTree b.functions b.events =
      (rootOf (functionPart descriptors ++ aliasPart descriptors)).children := by
  have hfunctions : ∀ e ∈ (PathTree.nil.insertAll (namedEntries sdkFunction descriptors)).bindings,
      segments (e.1.foldl childPath []) = exportedPath e.1 := by
    rintro ⟨path, f⟩ he
    obtain ⟨d, -, -, rfl⟩ := exists_of_mem_bindings he
    exact segments_foldl_childPath fun _ => mem_segments
  have hevents : ∀ e ∈ (PathTree.nil.insertAll (namedEntries sdkEvent descriptors)).bindings,
      ∀ segment ∈ e.1, '.' ∉ segment := by
    rintro ⟨path, f⟩ he
    obtain ⟨d, -, -, rfl⟩ := exists_of_mem_bindings he
    exact fun _ => mem_segments
  have hentries : (functionDomainBindings []
        (PathTree.nil.insertAll (namedEntries sdkFunction descriptors)) ++
      eventAliasDomainBindings
        (PathTree.nil.insertAll (namedEntries sdkEvent descriptors))).map
        (fun e => (segments e.1, e.2)) =
      functionPart descriptors ++ aliasPart descriptors := by
    rw [List.map_append, functionDomainBindings_eq, eventAliasDomainBindings_eq, List.map_map,
      List.map_filterMap]
    congr 1
    · apply List.map_congr_left
      intro e he
      exact congrArg₂ Prod.mk (hfunctions e he) rfl
    · apply List.filterMap_congr
      intro e he
      have hdots := hevents e he
      unfold aliasEntry aliasPath
      match hpath : e.1 with
      | [] => rfl
      | [_] => rfl
      | root :: segment :: rest =>
        rw [hpath] at hdots
        show some (_, _) = some (_, _)
        rw [segments_alias (hdots root List.mem_cons_self)
          fun s hs => hdots s (List.mem_cons_of_mem root hs)]
  intro b
  show _ = PathTree.nil.insertAll (functionPart descriptors ++ aliasPart descriptors)
  rw [← hentries]
  unfold domainTree PathTree.insertAll
  rw [List.foldl_map, functions_foldl, events_foldl]
  rfl

end RustTS.Registry.Sdk
