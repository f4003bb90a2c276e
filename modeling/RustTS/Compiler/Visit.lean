import Mathlib.Data.List.Dedup
import RustTS.Compiler.Project

/-! What a walk of the import graph finds where the file system does not change. -/
namespace RustTS.Compiler
open Runner.ModuleLoader (Text)

/-- The answers of a file system that does not change. -/
abbrev Answers := (q : FileQuestion) → q.Answer

theorem mem_pathSet {path : Path} {paths : List Path} : path ∈ pathSet paths ↔ path ∈ paths := by
  unfold pathSet
  rw [List.mem_insertionSort, List.mem_dedup]

/-- What the requests resolved to, external ones apart. -/
def dependenciesOf (externalModules : List Text) (requests : List (Text × Path)) : List Path :=
  (requests.filter fun request => request.1 ∉ externalModules).map (·.2)

namespace DiscoveryContext

variable {c : DiscoveryContext} {f : Answers}

/-- What was resolved of the requests: each of them, the ones that are not external among the
dependencies and an external one to itself. -/
structure Resolves (c : DiscoveryContext) (requests : List Text) (resolved : Resolved) : Prop where
  requests : resolved.requests.map Prod.fst = requests
  dependencies : resolved.dependencies = dependenciesOf c.externalModules resolved.requests
  external : ∀ request ∈ resolved.requests, request.1 ∈ c.externalModules → request.2 = request.1

private theorem Resolves.cons_external {request : Text} {requests : List Text} {resolved : Resolved}
    (h : Resolves c requests resolved) (hexternal : request ∈ c.externalModules) :
    Resolves c (request :: requests) { resolved with requests := (request, request) :: resolved.requests } where
  requests := congrArg (request :: ·) h.requests
  dependencies := by
    simp only [dependenciesOf, List.filter_cons, hexternal, not_true, decide_false,
      Bool.false_eq_true, if_false]
    exact h.dependencies
  external first hfirst hmem := by
    rcases List.mem_cons.mp hfirst with rfl | hfirst
    · rfl
    · exact h.external first hfirst hmem

theorem Resolves.cons {request : Text} {requests : List Text} {resolved : Resolved}
    (h : Resolves c requests resolved) (hexternal : request ∉ c.externalModules) (path : Path)
    (packageJsons : List Path) :
    Resolves c (request :: requests)
      ⟨(request, path) :: resolved.requests, path :: resolved.dependencies, packageJsons⟩ where
  requests := congrArg (request :: ·) h.requests
  dependencies := by
    simp only [dependenciesOf, List.filter_cons, hexternal, not_false_eq_true, decide_true,
      if_true, List.map_cons]
    exact congrArg (path :: ·) h.dependencies
  external first hfirst hmem := by
    rcases List.mem_cons.mp hfirst with rfl | hfirst
    · exact absurd hmem hexternal
    · exact h.external first hfirst hmem

theorem resolveRequests_yields (path : Path) (requests : List Text) :
    (c.resolveRequests path requests).Yields fun r => ∀ resolved, r = .ok resolved →
      Resolves c requests resolved := by
  induction requests with
  | nil =>
    rintro _ ⟨⟩
    exact ⟨rfl, rfl, by rintro _ ⟨⟩⟩
  | cons request requests ih =>
    unfold resolveRequests
    split_ifs with hexternal
    · apply ih.bind
      intro rest hrest resolved hresolved
      cases rest with
      | error error => cases hresolved
      | ok rest =>
        cases hresolved
        exact (hrest rest rfl).cons_external hexternal
    · apply (Asking.yields_true _).bind
      rintro (error | ⟨resolvedPath, packageJson⟩) -
      · rintro _ ⟨⟩
      · apply ih.bind
        intro rest hrest resolved hresolved
        cases rest with
        | error error => cases hresolved
        | ok rest =>
          cases hresolved
          exact (hrest rest rfl).cons hexternal resolvedPath _

/-- What a module keeps of its resolution follows from the requests it resolved. -/
structure Made (c : DiscoveryContext) (path : Path) (m : KnownModule) : Prop where
  display : m.displayPath = displayPath c.resolver.projectRoot path
  dependencies : m.dependencies = pathSet (dependenciesOf c.externalModules m.resolvedRequests)
  external : ∀ request ∈ m.resolvedRequests, request.1 ∈ c.externalModules → request.2 = request.1

theorem Made.mem_dependencies {path q : Path} {m : KnownModule} (h : c.Made path m) :
    q ∈ m.dependencies ↔
      ∃ request ∈ m.resolvedRequests, request.1 ∉ c.externalModules ∧ request.2 = q := by
  rw [h.dependencies, mem_pathSet, dependenciesOf, List.mem_map]
  simp only [List.mem_filter, decide_eq_true_eq, and_assoc]

/-- A module that keeps every request of its source. -/
structure Records (c : DiscoveryContext) (path : Path) (m : KnownModule) : Prop extends
    Made c path m where
  requests : c.parser.importsOf m.source m.displayPath = .ok (m.resolvedRequests.map Prod.fst)

theorem resolveModule_yields (path : Path) (stamp : Option FileStamp) (source : Text) :
    (c.resolveModule path stamp source).Yields fun r => ∀ m, r = .ok m →
      m.stamp = stamp ∧ m.source = source ∧ c.Records path m := by
  unfold resolveModule
  dsimp only
  split
  · rintro _ ⟨⟩
  · next requests himports =>
    apply (resolveRequests_yields path requests).bind
    intro resolved hresolved m hm
    cases resolved with
    | error error => cases hm
    | ok resolved =>
      cases hm
      have h := hresolved resolved rfl
      refine ⟨rfl, rfl, ⟨rfl, congrArg pathSet h.dependencies, h.external⟩, ?_⟩
      rw [h.requests]
      exact himports

theorem resolveModule_made {path : Path} {stamp : Option FileStamp} {source : Text}
    {m : KnownModule} (h : (c.resolveModule path stamp source).answered f = .ok m) :
    m.stamp = stamp ∧ m.source = source ∧ c.Made path m := by
  obtain ⟨hstamp, hsource, hrecords⟩ := (resolveModule_yields path stamp source).answered f m h
  exact ⟨hstamp, hsource, hrecords.toMade⟩

/-- A module that was looked at was kept, or it was resolved under the stamp it was looked at
under. -/
theorem moduleAt_yields {P : KnownModule → Prop} {u : Bool} {path : Path} {stamp : Option FileStamp}
    {known : Option KnownModule} (hkept : u = true → ∀ m ∈ known, m.stamp = stamp → P m)
    (hresolved : ∀ m, m.stamp = stamp → c.Records path m → P m) :
    (c.moduleAt u path stamp known).Yields fun r => ∀ m, r = .ok m → P m := by
  have hresolve (source : Text) :
      (c.resolveModule path stamp source).Yields fun r => ∀ m, r = .ok m → P m := by
    apply (resolveModule_yields path stamp source).imp
    intro r hr m hm
    obtain ⟨hstamp, -, hrecords⟩ := hr m hm
    exact hresolved m hstamp hrecords
  unfold moduleAt
  split
  · next kept hfilter =>
    obtain ⟨hget, hmatch⟩ := Option.filter_eq_some_iff.mp hfilter
    split_ifs with hunchanged
    · rintro _ ⟨⟩
      exact hkept hunchanged kept hget (by simpa using (Bool.and_eq_true_iff.mp hmatch).2)
    · exact hresolve kept.source
  · apply (Asking.yields_true _).bind
    rintro (error | source) -
    · rintro _ ⟨⟩
    · exact hresolve source

theorem moduleAt_stamp (u : Bool) (path : Path) (stamp : Option FileStamp)
    (known : Option KnownModule) :
    (c.moduleAt u path stamp known).Yields fun r => ∀ m, r = .ok m → m.stamp = stamp :=
  moduleAt_yields (fun _ _ _ hstamp => hstamp) fun _ hstamp _ => hstamp

theorem moduleAt_records {u : Bool} {path : Path} {stamp : Option FileStamp}
    {known : Option KnownModule} (hknown : u = true → ∀ m ∈ known, c.Records path m) :
    (c.moduleAt u path stamp known).Yields fun r => ∀ m, r = .ok m → c.Records path m :=
  moduleAt_yields (fun hunchanged m hm _ => hknown hunchanged m hm) fun _ _ hrecords => hrecords

/-- The cases of a visit. -/
theorem visit_cases {n : Nat} {path : Path} {d : Discovery} {ended : Option Visited}
    (h : (c.visit (n + 1) path d).answered f = ended) :
    ((d.modules.get? path).isSome ∧ ended = some (.ok (), d)) ∨
    d.modules.get? path = none ∧ ∃ structureFiles,
      ((∃ error, (c.moduleAt d.structureUnchanged path (f (.stamp path)) (d.known path)).answered f =
          .error error ∧
        ended = some (.error error, ⟨Function.update d.known path none, d.structureUnchanged,
          structureFiles, d.modules⟩)) ∨
      ∃ m, (c.moduleAt d.structureUnchanged path (f (.stamp path)) (d.known path)).answered f =
          .ok m ∧
        (visitEach (c.visit n) m.dependencies ⟨Function.update d.known path none,
          d.structureUnchanged, structureFiles, d.modules.insert path m⟩).answered f = ended) := by
  subst h
  unfold visit
  split_ifs with hvisited
  · exact .inl ⟨hvisited, rfl⟩
  · right
    refine ⟨Option.not_isSome_iff_eq_none.mp hvisited, ?_⟩
    simp only [Asking.answered_bind, FileStamp.of, Asking.answered_put]
    split
    · next error herror => exact ⟨_, .inl ⟨error, herror, rfl⟩⟩
    · next m hm => exact ⟨_, .inr ⟨m, hm, by rw [Asking.answered_bind]⟩⟩

theorem visitEach_cons {visit : Path → Discovery → Looking (Option Visited)} {path : Path}
    {paths : List Path} {d : Discovery} : (visitEach visit (path :: paths) d).answered f =
      match (visit path d).answered f with
      | some (.ok (), d) => (visitEach visit paths d).answered f
      | ended => ended := by
  conv_lhs => rw [visitEach, Asking.answered_bind]
  rcases (visit path d).answered f with _ | ⟨_ | ⟨⟨⟩⟩, d⟩ <;> rfl

/-- What one module preserves a walk preserves, from a path with `R` that dependencies have as
well. -/
theorem visit_invariant_within {I : Discovery → Prop} {R : Path → Prop}
    (hdependency : ∀ (d : Discovery) path m, I d → R path → d.modules.get? path = none →
      (c.moduleAt d.structureUnchanged path (f (.stamp path)) (d.known path)).answered f = .ok m →
      ∀ q ∈ m.dependencies, R q)
    (hstep : ∀ (d : Discovery) path m structureFiles, I d → R path → d.modules.get? path = none →
      (c.moduleAt d.structureUnchanged path (f (.stamp path)) (d.known path)).answered f = .ok m →
      I ⟨Function.update d.known path none, d.structureUnchanged, structureFiles,
        d.modules.insert path m⟩) {n : Nat} {path : Path} {d d' : Discovery} (hd : I d)
    (hpath : R path) (h : (c.visit n path d).answered f = some (.ok (), d')) : I d' := by
  induction n generalizing path d d' with
  | zero => cases h
  | succ n ih =>
    have heach : ∀ (paths : List Path) (d : Discovery), I d → (∀ q ∈ paths, R q) →
        (visitEach (c.visit n) paths d).answered f = some (.ok (), d') → I d' := by
      intro paths
      induction paths with
      | nil =>
        intro d hd _ h
        cases h
        exact hd
      | cons path paths ihp =>
        intro d hd hpaths h
        rw [visitEach_cons] at h
        split at h
        · next d₁ h₁ =>
          have hd₁ := ih hd (hpaths path List.mem_cons_self) h₁
          exact ihp d₁ hd₁ (fun q hq => hpaths q (List.mem_cons_of_mem _ hq)) h
        · next ended hended => exact absurd h (hended d')
    rcases visit_cases h with ⟨-, hended⟩ | ⟨hnew, structureFiles, ⟨error, -, hended⟩ | ⟨m, hm, hrest⟩⟩
    · cases hended
      exact hd
    · cases hended
    · exact heach m.dependencies _ (hstep d path m structureFiles hd hpath hnew hm)
        (hdependency d path m hd hpath hnew hm) hrest

theorem visit_invariant {I : Discovery → Prop}
    (hstep : ∀ (d : Discovery) path m structureFiles, I d → d.modules.get? path = none →
      (c.moduleAt d.structureUnchanged path (f (.stamp path)) (d.known path)).answered f = .ok m →
      I ⟨Function.update d.known path none, d.structureUnchanged, structureFiles,
        d.modules.insert path m⟩) {n : Nat} {path : Path} {d d' : Discovery} (hd : I d)
    (h : (c.visit n path d).answered f = some (.ok (), d')) : I d' := by
  apply visit_invariant_within (R := fun _ => True) _ _ hd trivial h
  · exact fun _ _ _ _ _ _ _ _ _ => trivial
  · exact fun d path m structureFiles hd _ => hstep d path m structureFiles hd

/-- A module with the stamp and the source its file has now. -/
structure Current (c : DiscoveryContext) (f : Answers) (path : Path) (m : KnownModule) : Prop where
  stamp : m.stamp = f (.stamp path)
  source : f (.read path) = .ok m.source
  made : c.Made path m

/-- The stamp of a known module tells whether its source is still that of its file. -/
structure KnownSound (c : DiscoveryContext) (f : Answers) (d : Discovery) : Prop where
  source : ∀ path m, d.known path = some m → m.stamp = f (.stamp path) →
    (f (.stamp path)).isSome → f (.read path) = .ok m.source
  made : d.structureUnchanged = true → ∀ path m, d.known path = some m → c.Made path m

theorem KnownSound.of_none {d : Discovery} (h : ∀ path, d.known path = none)
    (hchanged : d.structureUnchanged = false) : KnownSound c f d := by
  constructor
  · intro path m hm
    rw [h path] at hm
    cases hm
  · intro hsame
    rw [hchanged] at hsame
    cases hsame

theorem moduleAt_current {d : Discovery} {path : Path} {m : KnownModule} (hknown : KnownSound c f d)
    (h : (c.moduleAt d.structureUnchanged path (f (.stamp path)) (d.known path)).answered f = .ok m) :
    Current c f path m := by
  unfold moduleAt at h
  split at h
  · next known hfilter =>
    obtain ⟨hget, hmatch⟩ := Option.filter_eq_some_iff.mp hfilter
    obtain ⟨hsome, hstamp⟩ : (f (.stamp path)).isSome ∧ known.stamp = f (.stamp path) := by
      simpa using hmatch
    have hsource := hknown.source path known hget hstamp hsome
    split_ifs at h with hunchanged
    · cases h
      exact ⟨hstamp, hsource, hknown.made hunchanged path m hget⟩
    · obtain ⟨hs, hsrc, hmade⟩ := resolveModule_made h
      exact ⟨hs, hsrc ▸ hsource, hmade⟩
  · simp only [Asking.answered_bind, readToString, Asking.answered_put] at h
    split at h
    · cases h
    · next source hread =>
      obtain ⟨hs, hsrc, hmade⟩ := resolveModule_made h
      exact ⟨hs, hsrc ▸ hread, hmade⟩

theorem known_of_update {known : Path → Option KnownModule} {path p : Path} {m : KnownModule}
    (h : Function.update known path none p = some m) : known p = some m := by
  by_cases hpath : p = path
  · rw [hpath, Function.update_self] at h
    cases h
  · rwa [Function.update_of_ne hpath] at h

theorem KnownSound.forget {d : Discovery} (h : KnownSound c f d) (path : Path)
    (structureFiles : WatchedFiles) (modules : IndexMap Path KnownModule) :
    KnownSound c f ⟨Function.update d.known path none, d.structureUnchanged, structureFiles,
      modules⟩ := by
  exact ⟨fun p m hp => h.source p m (known_of_update hp),
    fun hu p m hp => h.made hu p m (known_of_update hp)⟩

/-- A walk that succeeds leaves modules as their files are now. -/
theorem visit_current {n : Nat} {path : Path} {d d' : Discovery} (hknown : KnownSound c f d)
    (hmodules : ∀ p m, d.modules.get? p = some m → Current c f p m)
    (h : (c.visit n path d).answered f = some (.ok (), d')) :
    ∀ p m, d'.modules.get? p = some m → Current c f p m := by
  have hinv := visit_invariant (c := c) (f := f)
    (I := fun d => KnownSound c f d ∧ ∀ p m, d.modules.get? p = some m → Current c f p m)
    (fun d path m structureFiles ⟨hk, hm⟩ _ hmodule => by
      refine ⟨hk.forget path structureFiles _, fun p x hx => ?_⟩
      by_cases hp : p = path
      · subst hp
        rw [IndexMap.get?_insert_self] at hx
        cases hx
        exact moduleAt_current hk hmodule
      · rw [IndexMap.get?_insert_of_ne _ _ hp] at hx
        exact hm p x hx) ⟨hknown, hmodules⟩ h
  exact hinv.2

/-- Everything of `d` stays, and every new module's dependencies are there. -/
structure Grown (d d' : Discovery) : Prop where
  keys : ∀ p ∈ d.modules.keys, p ∈ d'.modules.keys
  closed : ∀ p m, (p, m) ∈ d'.modules.entries →
    (p, m) ∈ d.modules.entries ∨ ∀ q ∈ m.dependencies, q ∈ d'.modules.keys

theorem Grown.refl (d : Discovery) : Grown d d := ⟨fun _ hp => hp, fun _ _ hm => .inl hm⟩

theorem Grown.trans {d d' d'' : Discovery} (h : Grown d d') (h' : Grown d' d'') : Grown d d'' where
  keys p hp := h'.keys p (h.keys p hp)
  closed p m hm := by
    rcases h'.closed p m hm with hold | hdeps
    · rcases h.closed p m hold with hold | hdeps
      · exact .inl hold
      · exact .inr fun q hq => h'.keys q (hdeps q hq)
    · exact .inr hdeps

/-- A walk that succeeds visits its path and what that depends on. -/
theorem visit_grown {n : Nat} {path : Path} {d d' : Discovery}
    (h : (c.visit n path d).answered f = some (.ok (), d')) :
    Grown d d' ∧ path ∈ d'.modules.keys := by
  induction n generalizing path d d' with
  | zero => cases h
  | succ n ih =>
    have heach : ∀ (paths : List Path) (d : Discovery),
        (visitEach (c.visit n) paths d).answered f = some (.ok (), d') →
        Grown d d' ∧ ∀ q ∈ paths, q ∈ d'.modules.keys := by
      intro paths
      induction paths with
      | nil =>
        intro d h
        cases h
        exact ⟨.refl d', nofun⟩
      | cons first paths ihp =>
        intro d h
        rw [visitEach_cons] at h
        split at h
        · next d₁ h₁ =>
          obtain ⟨hgrown₁, hfirst⟩ := ih h₁
          obtain ⟨hgrown, hrest⟩ := ihp d₁ h
          refine ⟨hgrown₁.trans hgrown, fun q hq => ?_⟩
          rcases List.mem_cons.mp hq with rfl | hq
          · exact hgrown.keys q hfirst
          · exact hrest q hq
        · next ended hended => exact absurd h (hended d')
    rcases visit_cases h with ⟨hvisited, hended⟩ | ⟨hnew, structureFiles, ⟨error, -, hended⟩ | ⟨m, -, hrest⟩⟩
    · cases hended
      obtain ⟨m, hm⟩ := Option.isSome_iff_exists.mp hvisited
      exact ⟨.refl d, IndexMap.mem_keys.mpr ⟨m, IndexMap.get?_eq_some.mp hm⟩⟩
    · cases hended
    · obtain ⟨hgrown, hdeps⟩ := heach m.dependencies _ hrest
      have hinserted := IndexMap.entries_insert_of_not_mem m hnew
      refine ⟨⟨fun p hp => ?_, fun p x hx => ?_⟩, ?_⟩
      · exact hgrown.keys p (IndexMap.mem_keys_insert.mpr (.inr hp))
      · rcases hgrown.closed p x hx with hold | hclosed
        · rw [hinserted] at hold
          rcases List.mem_append.mp hold with hold | hpath
          · exact .inl hold
          · cases List.mem_singleton.mp hpath
            exact .inr hdeps
        · exact .inr hclosed
      · exact hgrown.keys path (IndexMap.mem_keys_insert.mpr (.inl rfl))

/-- With the structure unchanged, a walk takes the modules whose stamp is unchanged as they were
known. -/
theorem visit_reuses {n : Nat} {path : Path} {d d' : Discovery} (hu : d.structureUnchanged = true)
    (hempty : d.modules = IndexMap.empty)
    (h : (c.visit n path d).answered f = some (.ok (), d')) {p : Path} {m x : KnownModule}
    (hm : d.known p = some m) (hstamp : m.stamp = f (.stamp p)) (hsome : (f (.stamp p)).isSome)
    (hx : d'.modules.get? p = some x) : x = m := by
  have hinv := visit_invariant (c := c) (f := f)
    (I := fun d => d.structureUnchanged = true ∧ (d.modules.get? p = none → d.known p = some m) ∧
      ∀ x, d.modules.get? p = some x → x = m)
    (fun d path x structureFiles ⟨hu, hk, hx⟩ hnew hmodule => by
      refine ⟨hu, fun hnone => ?_, fun y hy => ?_⟩
      · by_cases hp : p = path
        · rw [hp, IndexMap.get?_insert_self] at hnone
          cases hnone
        · rw [IndexMap.get?_insert_of_ne _ _ hp] at hnone
          show Function.update d.known path none p = some m
          rw [Function.update_of_ne hp]
          exact hk hnone
      · by_cases hp : p = path
        · subst hp
          rw [IndexMap.get?_insert_self] at hy
          cases hy
          have hfilter : (d.known p).filter (fun known => (f (.stamp p)).isSome &&
              known.stamp = f (.stamp p)) = some m := by
            rw [hk hnew, Option.filter_some, if_pos]
            simpa using ⟨hsome, hstamp⟩
          unfold moduleAt at hmodule
          rw [hfilter, hu] at hmodule
          cases hmodule
          rfl
        · rw [IndexMap.get?_insert_of_ne _ _ hp] at hy
          exact hx y hy) ⟨hu, fun _ => hm, fun x hx => by rw [hempty] at hx; cases hx⟩ h
  exact hinv.2.2 x hx

end DiscoveryContext

end RustTS.Compiler
