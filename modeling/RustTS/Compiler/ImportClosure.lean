import Mathlib.Data.Finset.Card
import Mathlib.Logic.Relation
import RustTS.Compiler.Recorded

/-! A walk of the import graph comes to an end, with the files that the imports reach, each once. -/
namespace RustTS.Compiler
open Runner.ModuleLoader (Text)

namespace DiscoveryContext

variable {c : DiscoveryContext} {f : Answers} {u : Bool} {known : Path → Option KnownModule}
  {entry : Path}

/-- The module that the file at `path` gives: the known one where it is kept, else what its source
and the resolver give now. -/
def lookAt (c : DiscoveryContext) (f : Answers) (u : Bool) (known : Path → Option KnownModule)
    (path : Path) : Except VmError KnownModule :=
  (c.moduleAt u path (f (.stamp path)) (known path)).answered f

/-- The file at `path` has a request, not for a host module, that resolves to `q`. -/
def Imports (c : DiscoveryContext) (f : Answers) (u : Bool) (known : Path → Option KnownModule)
    (path q : Path) : Prop :=
  ∃ m, c.lookAt f u known path = .ok m ∧
    ∃ request ∈ m.resolvedRequests, request.1 ∉ c.externalModules ∧ request.2 = q

abbrev Reachable (c : DiscoveryContext) (f : Answers) (u : Bool)
    (known : Path → Option KnownModule) : Path → Path → Prop :=
  Relation.ReflTransGen (c.Imports f u known)

/-- The modules are the files that the imports of `entry` reach, each once and with all its requests,
and what is requested is one of them or a host module. -/
structure ImportClosure (c : DiscoveryContext) (f : Answers) (u : Bool)
    (known : Path → Option KnownModule) (entry : Path) (modules : List DiscoveredModule) : Prop where
  once : (modules.map (·.moduleId)).Nodup
  reachable : ∀ path, path ∈ modules.map (·.moduleId) ↔ c.Reachable f u known entry path
  looked : ∀ m ∈ modules, ∃ k, c.lookAt f u known m.moduleId = .ok k ∧
    m = DiscoveredModule.of (m.moduleId, k)
  recorded : ∀ m ∈ modules,
    c.parser.importsOf m.source m.displayPath = .ok (m.resolvedRequests.map Prod.fst)
  resolved : ∀ m ∈ modules, ∀ request ∈ m.resolvedRequests,
    (request.1 ∈ c.externalModules ∧ request.2 = request.1) ∨
      (request.1 ∉ c.externalModules ∧ request.2 ∈ modules.map (·.moduleId))

/-- A walk from `entry`: what was not visited is known as before, what was is as it was looked at,
and imports reach it. -/
structure Walking (c : DiscoveryContext) (f : Answers) (u : Bool)
    (known : Path → Option KnownModule) (entry : Path) (d : Discovery) : Prop where
  unchanged : d.structureUnchanged = u
  others : ∀ path, d.modules.get? path = none → d.known path = known path
  looked : ∀ path m, d.modules.get? path = some m → c.lookAt f u known path = .ok m
  reachable : ∀ path m, d.modules.get? path = some m → c.Reachable f u known entry path

theorem Walking.lookAt {d : Discovery} (h : c.Walking f u known entry d) {path : Path}
    (hnew : d.modules.get? path = none) :
    (c.moduleAt d.structureUnchanged path (f (.stamp path)) (d.known path)).answered f =
      c.lookAt f u known path := by
  rw [h.unchanged, h.others path hnew]
  rfl

theorem Walking.insert {d : Discovery} {path : Path} {m : KnownModule}
    (h : c.Walking f u known entry d) (hpath : c.Reachable f u known entry path)
    (hm : c.lookAt f u known path = .ok m) (structureFiles : WatchedFiles) :
    c.Walking f u known entry ⟨Function.update d.known path none, d.structureUnchanged,
      structureFiles, d.modules.insert path m⟩ := by
  have hget {p : Path} {x : KnownModule} (hx : (d.modules.insert path m).get? p = some x) :
      p = path ∧ x = m ∨ d.modules.get? p = some x := by
    by_cases hp : p = path
    · subst hp
      rw [IndexMap.get?_insert_self] at hx
      exact .inl ⟨rfl, (Option.some.inj hx).symm⟩
    · rw [IndexMap.get?_insert_of_ne _ _ hp] at hx
      exact .inr hx
  refine ⟨h.unchanged, fun p hp => ?_, fun p x hx => ?_, fun p x hx => ?_⟩
  · by_cases hsame : p = path
    · subst hsame
      rw [IndexMap.get?_insert_self] at hp
      cases hp
    · rw [IndexMap.get?_insert_of_ne _ _ hsame] at hp
      exact (Function.update_of_ne hsame _ _).trans (h.others p hp)
  · rcases hget hx with ⟨rfl, rfl⟩ | hold
    · exact hm
    · exact h.looked p x hold
  · rcases hget hx with ⟨rfl, rfl⟩ | hold
    · exact hpath
    · exact h.reachable p x hold

theorem lookAt_records (hknown : c.KnownRecorded u known) {path : Path} {m : KnownModule}
    (h : c.lookAt f u known path = .ok m) : c.Records path m :=
  (moduleAt_records fun hunchanged => hknown hunchanged path).answered f m h

theorem imports_iff (hknown : c.KnownRecorded u known) {path q : Path} {m : KnownModule}
    (h : c.lookAt f u known path = .ok m) : c.Imports f u known path q ↔ q ∈ m.dependencies := by
  rw [(lookAt_records hknown h).mem_dependencies]
  constructor
  · rintro ⟨m', hm', hrequest⟩
    cases h.symm.trans hm'
    exact hrequest
  · intro hrequest
    exact ⟨m, h, hrequest⟩

private theorem visit_walking (hknown : c.KnownRecorded u known) {n : Nat} {path : Path} {d d' : Discovery}
    (hd : c.Walking f u known entry d) (hpath : c.Reachable f u known entry path)
    (h : (c.visit n path d).answered f = some (.ok (), d')) : c.Walking f u known entry d' := by
  apply visit_invariant_within (R := c.Reachable f u known entry) _ _ hd hpath h
  · intro d path m hd hpath hnew hm q hq
    rw [hd.lookAt hnew] at hm
    exact hpath.tail ((imports_iff hknown hm).mpr hq)
  · intro d path m structureFiles hd hpath hnew hm
    rw [hd.lookAt hnew] at hm
    exact hd.insert hpath hm structureFiles

theorem moduleId_map_of (m : IndexMap Path KnownModule) :
    (m.entries.map DiscoveredModule.of).map (·.moduleId) = m.keys := by
  rw [List.map_map]
  rfl

/-- A walk that succeeds finds the closure of the imports of its entry. -/
theorem visit_closure (hknown : c.KnownRecorded u known) {n : Nat} {structureFiles : WatchedFiles}
    {d : Discovery} (h : (c.visit n entry ⟨known, u, structureFiles, IndexMap.empty⟩).answered f =
      some (.ok (), d)) :
    c.ImportClosure f u known entry (d.modules.entries.map DiscoveredModule.of) := by
  have hstart : c.Walking f u known entry ⟨known, u, structureFiles, IndexMap.empty⟩ :=
    ⟨rfl, fun _ _ => rfl, by rintro _ _ ⟨⟩, by rintro _ _ ⟨⟩⟩
  have hwalk := visit_walking hknown hstart .refl h
  obtain ⟨hgrown, hentry⟩ := visit_grown h
  have hmodule {path : Path} {m : KnownModule} (hm : (path, m) ∈ d.modules.entries) :
      c.lookAt f u known path = .ok m := hwalk.looked path m (IndexMap.get?_eq_some.mpr hm)
  have hclosed {path q : Path} {m : KnownModule} (hm : (path, m) ∈ d.modules.entries)
      (hq : q ∈ m.dependencies) : q ∈ d.modules.keys := by
    rcases hgrown.closed path m hm with hold | hdependencies
    · cases hold
    · exact hdependencies q hq
  have hlisted {m : DiscoveredModule} (hm : m ∈ d.modules.entries.map DiscoveredModule.of) :
      ∃ k, (m.moduleId, k) ∈ d.modules.entries ∧ m = DiscoveredModule.of (m.moduleId, k) := by
    obtain ⟨⟨path, k⟩, hk, rfl⟩ := List.mem_map.mp hm
    exact ⟨k, hk, rfl⟩
  refine ⟨?_, fun path => ?_, fun m hm => ?_, fun m hm => ?_, fun m hm request hrequest => ?_⟩
  · rw [moduleId_map_of]
    exact d.modules.nodup
  · rw [moduleId_map_of]
    constructor
    · intro hpath
      obtain ⟨m, hm⟩ := IndexMap.mem_keys.mp hpath
      exact hwalk.reachable path m (IndexMap.get?_eq_some.mpr hm)
    · intro hreach
      induction hreach with
      | refl => exact hentry
      | tail _ himports ih =>
        obtain ⟨m, hm⟩ := IndexMap.mem_keys.mp ih
        exact hclosed hm ((imports_iff hknown (hmodule hm)).mp himports)
  · obtain ⟨k, hk, hof⟩ := hlisted hm
    exact ⟨k, hmodule hk, hof⟩
  · obtain ⟨k, hk, hof⟩ := hlisted hm
    rw [hof]
    exact (lookAt_records hknown (hmodule hk)).requests
  · obtain ⟨k, hk, hof⟩ := hlisted hm
    rw [hof] at hrequest
    have hmade := (lookAt_records hknown (hmodule hk)).toMade
    by_cases hexternal : request.1 ∈ c.externalModules
    · exact .inl ⟨hexternal, hmade.external request hrequest hexternal⟩
    · rw [moduleId_map_of]
      refine .inr ⟨hexternal, hclosed hk ?_⟩
      exact hmade.mem_dependencies.mpr ⟨request, hrequest, hexternal, rfl⟩

theorem resolveRequests_from {path : Path} {requests : List Text} {resolved : Resolved}
    (h : (c.resolveRequests path requests).answered f = .ok resolved) :
    ∀ q ∈ resolved.dependencies, ∃ request packageJson,
      (c.resolver.resolveRequest path request).answered f = .ok (q, packageJson) := by
  induction requests generalizing resolved with
  | nil =>
    cases h
    rintro q ⟨⟩
  | cons request requests ih =>
    unfold resolveRequests at h
    cases hrest : (c.resolveRequests path requests).answered f with
    | error error =>
      split_ifs at h
      · rw [Asking.answered_bind, hrest] at h
        cases h
      · rw [Asking.answered_bind] at h
        split at h
        · cases h
        · rw [Asking.answered_bind, hrest] at h
          cases h
    | ok rest =>
      split_ifs at h
      · rw [Asking.answered_bind, hrest] at h
        cases h
        have hfrom := ih hrest
        exact hfrom
      · rw [Asking.answered_bind] at h
        split at h
        · cases h
        · next canonical packageJson hresolved =>
          rw [Asking.answered_bind, hrest] at h
          cases h
          intro q hq
          rcases List.mem_cons.mp hq with rfl | hq
          · exact ⟨request, packageJson, hresolved⟩
          · exact ih hrest q hq

theorem resolveModule_from {path : Path} {stamp : Option FileStamp} {source : Text} {m : KnownModule}
    (h : (c.resolveModule path stamp source).answered f = .ok m) :
    ∀ q ∈ m.dependencies, ∃ request packageJson,
      (c.resolver.resolveRequest path request).answered f = .ok (q, packageJson) := by
  unfold resolveModule at h
  dsimp only at h
  split at h
  · cases h
  · next requests himports =>
    rw [Asking.answered_bind] at h
    cases hresolved : (c.resolveRequests path requests).answered f with
    | error error =>
      rw [hresolved] at h
      cases h
    | ok resolved =>
      rw [hresolved] at h
      cases h
      intro q hq
      exact resolveRequests_from hresolved q (mem_pathSet.mp hq)

theorem moduleAt_from {path : Path} {stamp : Option FileStamp} {known : Option KnownModule}
    {m : KnownModule} (h : (c.moduleAt u path stamp known).answered f = .ok m) :
    m ∈ known ∨ ∀ q ∈ m.dependencies, ∃ request packageJson,
      (c.resolver.resolveRequest path request).answered f = .ok (q, packageJson) := by
  unfold moduleAt at h
  split at h
  · next kept hfilter =>
    split_ifs at h
    · cases h
      exact .inl (Option.filter_eq_some_iff.mp hfilter).1
    · exact .inr (resolveModule_from h)
  · rw [Asking.answered_bind] at h
    split at h
    · cases h
    · exact .inr (resolveModule_from h)

/-- Paths that no walk leaves: requests resolve to them, and known modules depend on them. -/
structure Encloses (c : DiscoveryContext) (f : Answers) (paths : Finset Path)
    (known : Path → Option KnownModule) : Prop where
  resolved : ∀ path request q packageJson,
    (c.resolver.resolveRequest path request).answered f = .ok (q, packageJson) → q ∈ paths
  known : ∀ path, ∀ m ∈ known path, ∀ q ∈ m.dependencies, q ∈ paths

variable {paths : Finset Path}

theorem Encloses.moduleAt (h : c.Encloses f paths known) {path : Path} {stamp : Option FileStamp}
    {m : KnownModule} (hm : (c.moduleAt u path stamp (known path)).answered f = .ok m) :
    ∀ q ∈ m.dependencies, q ∈ paths := by
  rcases moduleAt_from hm with hkept | hresolved
  · exact h.known path m hkept
  · intro q hq
    obtain ⟨request, packageJson, hrequest⟩ := hresolved q hq
    exact h.resolved path request q packageJson hrequest

theorem Encloses.forget (h : c.Encloses f paths known) (path : Path) :
    c.Encloses f paths (Function.update known path none) where
  resolved := h.resolved
  known p m hm := h.known p m (known_of_update hm)

private theorem visit_encloses {n : Nat} {path : Path} {d d' : Discovery}
    (hd : c.Encloses f paths d.known) (h : (c.visit n path d).answered f = some (.ok (), d')) :
    c.Encloses f paths d'.known :=
  visit_invariant (I := fun d => c.Encloses f paths d.known)
    (fun _ path _ _ hd _ _ => hd.forget path) hd h

/-- The paths not visited yet. -/
def unvisited (paths : Finset Path) (d : Discovery) : Finset Path :=
  paths.filter (· ∉ d.modules.keys)

private theorem unvisited_subset (paths : Finset Path) {d d' : Discovery} (h : Grown d d') :
    unvisited paths d' ⊆ unvisited paths d := by
  intro p hp
  obtain ⟨hmem, hnew⟩ := Finset.mem_filter.mp hp
  exact Finset.mem_filter.mpr ⟨hmem, mt (h.keys p) hnew⟩

theorem unvisited_insert_card {d : Discovery} {path : Path} (hpath : path ∈ paths)
    (hnew : d.modules.get? path = none) (known : Path → Option KnownModule) (u : Bool)
    (structureFiles : WatchedFiles) (m : KnownModule) :
    (unvisited paths ⟨known, u, structureFiles, d.modules.insert path m⟩).card <
      (unvisited paths d).card := by
  apply Finset.card_lt_card
  apply Finset.ssubset_iff_of_subset _ |>.mpr
  · refine ⟨path, Finset.mem_filter.mpr ⟨hpath, IndexMap.get?_eq_none.mp hnew⟩, ?_⟩
    intro hmem
    exact (Finset.mem_filter.mp hmem).2 (IndexMap.mem_keys_insert.mpr (.inl rfl))
  · intro p hp
    obtain ⟨hmem, hvisited⟩ := Finset.mem_filter.mp hp
    exact Finset.mem_filter.mpr
      ⟨hmem, fun hold => hvisited (IndexMap.mem_keys_insert.mpr (.inr hold))⟩

/-- A walk among finitely many paths ends: each level of it visits another one. -/
theorem visit_ends {n : Nat} {path : Path} {d : Discovery} (hd : c.Encloses f paths d.known)
    (hpath : path ∈ paths) (hfuel : (unvisited paths d).card < n) :
    ((c.visit n path d).answered f).isSome := by
  induction n generalizing path d with
  | zero => omega
  | succ n ih =>
    have heach : ∀ (rest : List Path) (d : Discovery), c.Encloses f paths d.known →
        (∀ q ∈ rest, q ∈ paths) → (unvisited paths d).card < n →
        ((visitEach (c.visit n) rest d).answered f).isSome := by
      intro rest
      induction rest with
      | nil =>
        intro d _ _ _
        rfl
      | cons first rest ihr =>
        intro d hd hrest hfuel
        have hended := ih hd (hrest first List.mem_cons_self) hfuel
        rw [visitEach_cons]
        split
        · next d₁ h₁ =>
          have hcard := Finset.card_le_card (unvisited_subset paths (visit_grown h₁).1)
          apply ihr d₁ (visit_encloses hd h₁) (fun q hq => hrest q (List.mem_cons_of_mem _ hq))
          omega
        · exact hended
    rcases visit_cases (rfl : (c.visit (n + 1) path d).answered f = _) with
      ⟨-, hended⟩ | ⟨hnew, structureFiles, ⟨error, -, hended⟩ | ⟨m, hm, hended⟩⟩
    · rw [hended]
      rfl
    · rw [hended]
      rfl
    · rw [← hended]
      have hcard := unvisited_insert_card hpath hnew (Function.update d.known path none)
        d.structureUnchanged structureFiles m
      apply heach m.dependencies _ (hd.forget path) (hd.moduleAt hm)
      omega

end DiscoveryContext

end RustTS.Compiler
