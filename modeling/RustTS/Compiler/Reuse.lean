import RustTS.Compiler.BeginDiscovery
import RustTS.Compiler.Incremental

/-! When discovery with the state of an earlier one gives what discovery without it gives. -/
namespace RustTS.Compiler
open Runner.ModuleLoader (Text)
open DiscoveryContext

/-- Entry module and modules a walk leads to, or the error it ended with. -/
def visitedOutcome (entry : Path) : Visited → Except VmError (Path × List DiscoveredModule)
  | (.error error, _) => .error error
  | (.ok (), d) => .ok (entry, d.modules.entries.map DiscoveredModule.of)

private theorem summary_finish (c : DiscoveryContext) (entry : Path) (visited : Visited) :
    summary (c.finish entry visited) = visitedOutcome entry visited := by
  obtain ⟨ended, d⟩ := visited
  cases ended <;> rfl

section
variable {f : Answers}

theorem discover_answered (c : DiscoveryContext) (fuel : Nat) (entry : Path)
    (structureFiles : WatchedFiles) (known : Path → Option KnownModule) (u : Bool) :
    ∃ watched, (c.discover fuel entry structureFiles known u).answered f =
      ((c.visit fuel entry ⟨known, u, watched, IndexMap.empty⟩).answered f).map (c.finish entry) := by
  refine ⟨(WatchedFiles.watchAll c.resolver.tsconfigFiles structureFiles).answered f, ?_⟩
  unfold DiscoveryContext.discover
  simp only [Asking.answered_bind, Asking.answered_pure]

theorem discoverAnew_answered (parser : Parser) (fuel : Nat) (entry : Path)
    (externalModules : List Text) (known : Path → Option KnownModule) :
    (discoverAnew parser fuel entry externalModules known).answered f =
      match (ModuleResolver.forEntry parser.extendsOf fuel entry).answered f with
      | none => none
      | some (.error error) => some (.error ⟨error, .empty⟩)
      | some (.ok resolver) =>
        (DiscoveryContext.discover ⟨parser, resolver, externalModules⟩ fuel entry .empty known
          false).answered f := by
  unfold discoverAnew
  rw [Asking.answered_bind]
  rcases (ModuleResolver.forEntry parser.extendsOf fuel entry).answered f with _ | _ | _ <;> rfl

theorem discoverProject_answered (parser : Parser) (fuel : Nat) (entryPath : Path)
    (externalModules : List Text) (previous : Option ProjectState) :
    (discoverProject parser fuel entryPath externalModules previous).answered f =
      match (normalizeEntryPath entryPath).answered f with
      | .error error => some (.error ⟨error, .empty⟩)
      | .ok entry => match previous with
        | none => (discoverAnew parser fuel entry externalModules fun _ => none).answered f
        | some state =>
          if (state.reusable externalModules).answered f then
            (DiscoveryContext.discover ⟨parser, state.resolver.keep, externalModules⟩ fuel entry
              state.structureFiles state.modules.get? true).answered f
          else (discoverAnew parser fuel entry externalModules state.modules.get?).answered f := by
  unfold discoverProject
  rw [Asking.answered_bind]
  cases (normalizeEntryPath entryPath).answered f with
  | error error => rfl
  | ok entry =>
    cases previous with
    | none => rfl
    | some state =>
      dsimp only
      rw [Asking.answered_bind]
      split_ifs <;> rfl

end

section
variable {resolver : ResolverFunction} {kept : KeptAnswers} {parser : Parser} {entryPath : Path}
  {fs fs' : FileSystem} {state : ProjectState} {externalModules : List Text}

/-- The modules of a state are as their files were when it was returned. -/
def StateHolds (parser : Parser) (f : Answers) (state : ProjectState) : Prop :=
  ∀ path m, state.modules.get? path = some m →
    Current ⟨parser, state.resolver, state.externalModules⟩ f path m

theorem discover_holds {f : Answers} {c : DiscoveryContext} {fuel : Nat} {entry : Path}
    {structureFiles : WatchedFiles} {known : Path → Option KnownModule} {u : Bool}
    {project : DiscoveredProject} (hknown : ∀ s, KnownSound c f ⟨known, u, s, IndexMap.empty⟩)
    (h : (c.discover fuel entry structureFiles known u).answered f = some (.ok (project, state))) :
    StateHolds c.parser f state := by
  obtain ⟨watched, hdiscover⟩ := discover_answered (f := f) c fuel entry structureFiles known u
  rw [hdiscover] at h
  obtain ⟨⟨ended, d⟩, hvisit, hfinish⟩ := Option.map_eq_some_iff.mp h
  cases ended with
  | error error => cases hfinish
  | ok _ =>
    cases hfinish
    apply visit_current (hknown watched) _ hvisit
    intro p m hm
    cases hm

theorem StateHolds.other {kept' : KeptAnswers} (h : StateHolds parser (fs.answer resolver kept) state) :
    StateHolds parser (fs.answer resolver kept') state :=
  fun path m hm => ⟨(h path m hm).stamp, (h path m hm).source, (h path m hm).made⟩

theorem StateHolds.knownSound {kept' : KeptAnswers}
    (h : StateHolds parser (fs.answer resolver kept) state)
    (hchange : Detectable fs fs') {r : ModuleResolver} {u : Bool}
    (hu : u = true → r = state.resolver.keep ∧ externalModules = state.externalModules)
    (s : WatchedFiles) : KnownSound ⟨parser, r, externalModules⟩ (fs'.answer resolver kept')
      ⟨state.modules.get?, u, s, IndexMap.empty⟩ where
  source path m hm hstamp _ := by
    have hcurrent := h path m hm
    have hsame : fs.stamp path = fs'.stamp path := hcurrent.stamp.symm.trans hstamp
    show fs'.read path = .ok m.source
    rw [← hchange.read hsame]
    exact hcurrent.source
  made hunchanged path m hm := by
    obtain ⟨rfl, rfl⟩ := hu hunchanged
    have hmade := (h path m hm).made
    exact ⟨hmade.display, hmade.dependencies, hmade.external⟩

theorem reusable_externalModules {f : Answers} (h : (state.reusable externalModules).answered f = true) :
    state.externalModules = externalModules := (reusable_yields state).answered f h

theorem discoverAnew_holds {f : Answers} {fuel : Nat} {entry : Path}
    {known : Path → Option KnownModule} {project : DiscoveredProject}
    (hknown : ∀ r s, KnownSound ⟨parser, r, externalModules⟩ f ⟨known, false, s, IndexMap.empty⟩)
    (h : (discoverAnew parser fuel entry externalModules known).answered f =
      some (.ok (project, state))) : StateHolds parser f state := by
  rw [discoverAnew_answered] at h
  split at h
  · cases h
  · cases h
  · next r hr => exact discover_holds (hknown r) h

theorem Returned.holds (h : Returned resolver parser entryPath fs state) (kept : KeptAnswers) :
    StateHolds parser (fs.answer resolver kept) state := by
  induction h with
  | first h =>
    rw [discoverProject_answered] at h
    split at h
    · cases h
    · apply StateHolds.other (discoverAnew_holds _ h)
      exact fun r s => .of_none (fun _ => rfl) rfl
  | next hprevious hchange h ih =>
    rw [discoverProject_answered] at h
    split at h
    · cases h
    · dsimp only at h
      split_ifs at h with hreused
      · apply StateHolds.other (discover_holds (fun s => ?_) h)
        exact ih.knownSound hchange (fun _ => ⟨rfl, (reusable_externalModules hreused).symm⟩) s
      · exact (discoverAnew_holds
          (fun r s => ih.knownSound (u := false) hchange (by rintro ⟨⟩) s) h).other

/-- The walk that reuses a state, and the one with a new resolver of its options. -/
def reusing (parser : Parser) (externalModules : List Text) (state : ProjectState) :
    DiscoveryContext := ⟨parser, state.resolver.keep, externalModules⟩

def afresh (parser : Parser) (externalModules : List Text) (state : ProjectState) :
    DiscoveryContext := ⟨parser, state.resolver.anew, externalModules⟩

/-- Of the modules that the imports reach, resolving the imports of one that the walk would take from
the state gives what the state recorded, and those of any other get what they get from a new resolver
from the one that the state keeps. -/
structure ResolutionsCurrent (parser : Parser) (f : Answers) (externalModules : List Text)
    (entry : Path) (state : ProjectState) : Prop where
  recorded : ∀ path, Reaches (afresh parser externalModules state) f entry path →
    ∀ m ∈ unchanged f path (state.modules.get? path),
      ∃ m', ((afresh parser externalModules state).resolveModule path (f (.stamp path))
        m.source).answered f = .ok m' ∧ m'.resolvedRequests = m.resolvedRequests
  asked : ∀ path, Reaches (afresh parser externalModules state) f entry path →
    unchanged f path (state.modules.get? path) = none → ∀ source, f (.read path) = .ok source →
      (((reusing parser externalModules state).resolveModule path (f (.stamp path))
        source).answered f).map (·.resolvedRequests) =
      (((afresh parser externalModules state).resolveModule path (f (.stamp path))
        source).answered f).map (·.resolvedRequests)

/-- The resolver that the entry gets has the options of the one that the state keeps. -/
def SettingsCurrent (parser : Parser) (f : Answers) (fuel : Nat) (entry : Path)
    (state : ProjectState) : Prop :=
  (ModuleResolver.forEntry parser.extendsOf fuel entry).answered f = some (.ok state.resolver.anew)

theorem EndTogether.outcome {c c' : DiscoveryContext} {f : Answers} {entry : Path}
    {visited visited' : Option Visited} (h : EndTogether c c' f entry visited visited') :
    visited.map (visitedOutcome entry) = visited'.map (visitedOutcome entry) := by
  cases h with
  | running => rfl
  | failed => rfl
  | ended htogether =>
    rename_i d d'
    have hmodules : d.modules.entries.map DiscoveredModule.of =
        d'.modules.entries.map DiscoveredModule.of := by
      have hforall := htogether.modules
      generalize d.modules.entries = l at hforall
      generalize d'.modules.entries = l' at hforall
      induction hforall with
      | nil => rfl
      | cons hhead _ ih =>
        obtain ⟨hpath, halike⟩ := hhead
        rw [List.map_cons, List.map_cons, ih]
        unfold DiscoveredModule.of
        rw [hpath, halike.display, halike.source, halike.requests]
    show some (Except.ok (entry, _)) = some (Except.ok (entry, _))
    rw [hmodules]

theorem outcome_eq {f : Answers} (result : Option (Except ProjectFailure (DiscoveredProject × ProjectState)))
    {c : DiscoveryContext} {fuel : Nat} {entry : Path} {structureFiles : WatchedFiles}
    {known : Path → Option KnownModule} {u : Bool}
    (h : (c.discover fuel entry structureFiles known u).answered f = result) : ∃ watched,
      result.map summary = ((c.visit fuel entry ⟨known, u, watched, IndexMap.empty⟩).answered f).map
        (visitedOutcome entry) := by
  obtain ⟨watched, hdiscover⟩ := discover_answered (f := f) c fuel entry structureFiles known u
  refine ⟨watched, ?_⟩
  rw [← h, hdiscover, Option.map_map]
  exact congrArg (Option.map · _) (funext (summary_finish c entry))

theorem discover_outcome {f : Answers} {c c' : DiscoveryContext} {fuel : Nat} {entry : Path}
    {s s' : WatchedFiles} {known : Path → Option KnownModule} {u : Bool}
    (hknown : ∀ path, Reaches c' f entry path → Usable c c' f u path (known path)) :
    ((c.discover fuel entry s known u).answered f).map summary =
      ((c'.discover fuel entry s' (fun _ => none) false).answered f).map summary := by
  obtain ⟨w, hw⟩ := outcome_eq _ (Eq.refl ((c.discover fuel entry s known u).answered f))
  obtain ⟨w', hw'⟩ := outcome_eq _ (Eq.refl ((c'.discover fuel entry s' (fun _ => none) false).answered f))
  rw [hw, hw']
  apply EndTogether.outcome
  apply visit_together ⟨.nil, fun path hpath _ => hknown path hpath, fun _ => rfl⟩
  exact .entry

/-- Modules that two resolvers of the same options make of one source are alike where the requests
resolved alike. -/
theorem alike_of_requests {f : Answers} {path : Path} {stamp : Option FileStamp} {source : Text}
    (h : (((reusing parser externalModules state).resolveModule path stamp source).answered f).map
        (·.resolvedRequests) =
      (((afresh parser externalModules state).resolveModule path stamp source).answered f).map
        (·.resolvedRequests)) :
    Agree KnownModule.Alike
      (((reusing parser externalModules state).resolveModule path stamp source).answered f)
      (((afresh parser externalModules state).resolveModule path stamp source).answered f) := by
  cases hkept : ((reusing parser externalModules state).resolveModule path stamp source).answered f with
  | error error =>
    rw [hkept] at h
    cases hfresh : ((afresh parser externalModules state).resolveModule path stamp
        source).answered f with
    | error error' =>
      rw [hfresh] at h
      cases h
      exact .error error
    | ok m' =>
      rw [hfresh] at h
      cases h
  | ok m =>
    rw [hkept] at h
    cases hfresh : ((afresh parser externalModules state).resolveModule path stamp
        source).answered f with
    | error error' =>
      rw [hfresh] at h
      cases h
    | ok m' =>
      rw [hfresh] at h
      have hrequests : m.resolvedRequests = m'.resolvedRequests := Except.ok.inj h
      obtain ⟨-, hsource, hmade⟩ := resolveModule_made hkept
      obtain ⟨-, hsource', hmade'⟩ := resolveModule_made hfresh
      refine .ok ⟨hmade.display.trans hmade'.display.symm, hsource.trans hsource'.symm, hrequests, ?_⟩
      rw [hmade.dependencies, hmade'.dependencies, hrequests]
      rfl

theorem usable_of_current (hholds : StateHolds parser (fs.answer resolver kept) state)
    (hchange : Detectable fs fs') {entry : Path} (hext : state.externalModules = externalModules)
    (hcurrent : ResolutionsCurrent parser (fs'.answer resolver kept) externalModules entry state)
    (path : Path) (hpath : Reaches (afresh parser externalModules state) (fs'.answer resolver kept)
      entry path) : Usable (reusing parser externalModules state)
        (afresh parser externalModules state) (fs'.answer resolver kept) true path
        (state.modules.get? path) := by
  have hknown : KnownSound (reusing parser externalModules state) (fs'.answer resolver kept)
      ⟨state.modules.get?, true, .empty, IndexMap.empty⟩ :=
    hholds.knownSound (u := true) hchange (fun _ => ⟨rfl, hext.symm⟩) .empty
  refine ⟨fun m hm => ?_, fun _ m hm => ?_, fun hnone source hread => ?_⟩
  · obtain ⟨hget, hstamp, hsome⟩ := mem_unchanged.mp hm
    exact hknown.source path m hget hstamp hsome
  · obtain ⟨hget, hstamp, hsome⟩ := mem_unchanged.mp hm
    obtain ⟨m', hm', hrequests⟩ := hcurrent.recorded path hpath m hm
    obtain ⟨-, hsource, hmade'⟩ := resolveModule_made hm'
    have hmade := hknown.made rfl path m hget
    refine ⟨m', hm', hmade.display.trans hmade'.display.symm, hsource.symm, hrequests.symm, ?_⟩
    rw [hmade.dependencies, hmade'.dependencies, hrequests]
    rfl
  · exact alike_of_requests (hcurrent.asked path hpath (hnone rfl) source hread)

/-- What the state keeps makes no difference where it is not reused, or is current. -/
theorem incremental_outcome (hstate : Returned resolver parser entryPath fs state)
    (hchange : Detectable fs fs') {fuel : Nat}
    (hcurrent : ∀ entry,
      (normalizeEntryPath entryPath).answered (fs'.answer resolver kept) = .ok entry →
      (state.reusable externalModules).answered (fs'.answer resolver kept) = true →
      SettingsCurrent parser (fs'.answer resolver kept) fuel entry state ∧
        ResolutionsCurrent parser (fs'.answer resolver kept) externalModules entry state) :
    outcome resolver parser entryPath kept fuel externalModules (some state) fs' =
      outcome resolver parser entryPath kept fuel externalModules none fs' := by
  unfold outcome
  rw [discoverProject_answered, discoverProject_answered]
  cases hentry : (normalizeEntryPath entryPath).answered (fs'.answer resolver kept) with
  | error error => rfl
  | ok entry =>
    dsimp only
    split_ifs with hreused
    · obtain ⟨hsettings, hresolutions⟩ := hcurrent entry hentry hreused
      rw [discoverAnew_answered, hsettings]
      apply discover_outcome
      exact usable_of_current (hstate.holds kept) hchange (reusable_externalModules hreused)
        hresolutions
    · rw [discoverAnew_answered, discoverAnew_answered]
      rcases (ModuleResolver.forEntry parser.extendsOf fuel entry).answered
        (fs'.answer resolver kept) with _ | _ | r
      · rfl
      · rfl
      · apply discover_outcome
        intro path _
        have hknown : KnownSound ⟨parser, r, externalModules⟩ (fs'.answer resolver kept)
            ⟨state.modules.get?, false, .empty, IndexMap.empty⟩ :=
          (hstate.holds kept).knownSound (u := false) hchange (by rintro ⟨⟩) .empty
        refine ⟨fun m hm => ?_, by rintro ⟨⟩, fun _ source _ => .refl .refl _⟩
        obtain ⟨hget, hstamp, hsome⟩ := mem_unchanged.mp hm
        exact hknown.source path m hget hstamp hsome

/-- A module of a walk that succeeds was read, and then resolved, unless it was known with the stamp
that its file has. -/
theorem visit_resolved {c : DiscoveryContext} {f : Answers} {fuel : Nat} {entry path : Path}
    {known : Path → Option KnownModule} {u : Bool} {watched : WatchedFiles} {d : Discovery}
    {m : KnownModule}
    (h : (c.visit fuel entry ⟨known, u, watched, IndexMap.empty⟩).answered f = some (.ok (), d))
    (hnone : unchanged f path (known path) = none) (hm : d.modules.get? path = some m) :
    ∃ source, f (.read path) = .ok source ∧
      (c.resolveModule path (f (.stamp path)) source).answered f = .ok m := by
  have hinv := visit_invariant (c := c) (f := f)
    (I := fun d => (∀ x, d.known path = some x → known path = some x) ∧
      ∀ m, d.modules.get? path = some m → ∃ source, f (.read path) = .ok source ∧
        (c.resolveModule path (f (.stamp path)) source).answered f = .ok m)
    (fun d p m structureFiles ⟨hk, hm⟩ _ hmodule => by
      refine ⟨fun x hx => hk x (known_of_update hx), fun x hx => ?_⟩
      by_cases hp : path = p
      · subst hp
        rw [IndexMap.get?_insert_self] at hx
        cases hx
        have hfilter : (d.known path).filter (fun known => (f (.stamp path)).isSome &&
            known.stamp = f (.stamp path)) = none := by
          cases hkept : d.known path with
          | none => rfl
          | some x =>
            rw [hk x hkept] at hnone
            exact hnone
        unfold moduleAt at hmodule
        rw [hfilter] at hmodule
        simp only [Asking.answered_bind, readToString, Asking.answered_put] at hmodule
        split at hmodule
        · cases hmodule
        · next source hread => exact ⟨source, hread, hmodule⟩
      · rw [IndexMap.get?_insert_of_ne _ _ hp] at hx
        exact hm x hx) ⟨fun _ hx => hx, fun m hm => by cases hm⟩ h
  exact hinv.2 m hm

theorem reached_resolved {c : DiscoveryContext} {f : Answers} {fuel : Nat} {entry path : Path}
    {watched : WatchedFiles} {d : Discovery}
    (h : (c.visit fuel entry ⟨fun _ => none, false, watched, IndexMap.empty⟩).answered f =
      some (.ok (), d)) (hpath : Reaches c f entry path) :
    ∃ m source, d.modules.get? path = some m ∧ f (.read path) = .ok source ∧
      (c.resolveModule path (f (.stamp path)) source).answered f = .ok m := by
  obtain ⟨hgrown, hentry⟩ := visit_grown h
  have hkeys : ∀ p, Reaches c f entry p → p ∈ d.modules.keys := by
    intro p hp
    induction hp with
    | entry => exact hentry
    | dependency _ hread hm hq ih =>
      obtain ⟨x, hx⟩ := IndexMap.mem_keys.mp ih
      obtain ⟨source, hsource, hresolved⟩ := visit_resolved h rfl (IndexMap.get?_eq_some.mpr hx)
      rw [hread] at hsource
      cases hsource
      rw [hm] at hresolved
      cases hresolved
      rcases hgrown.closed _ _ hx with hold | hclosed
      · cases hold
      · exact hclosed _ hq
  obtain ⟨m, hm⟩ := IndexMap.mem_keys.mp (hkeys path hpath)
  obtain ⟨source, hsource, hresolved⟩ := visit_resolved h rfl (IndexMap.get?_eq_some.mpr hm)
  exact ⟨m, source, IndexMap.get?_eq_some.mpr hm, hsource, hresolved⟩

/-- Where the state is reused, the resolver that the entry gets has the options of the one it keeps,
resolving the imports of a module it kept gives what it recorded, and its resolver, asked for the
imports of any other, sees what a new one would. -/
def Unaffected (resolver : ResolverFunction) (parser : Parser) (entryPath : Path)
    (kept : KeptAnswers) (fuel : Nat) (externalModules : List Text) (state : ProjectState)
    (fs : FileSystem) : Prop :=
  ∀ entry, (normalizeEntryPath entryPath).answered (fs.answer resolver kept) = .ok entry →
    (state.reusable externalModules).answered (fs.answer resolver kept) = true →
    SettingsCurrent parser (fs.answer resolver kept) fuel entry state ∧
      ResolutionsCurrent parser (fs.answer resolver kept) externalModules entry state

theorem resolutionsCurrent_of_outcome (hstate : Returned resolver parser entryPath fs state)
    (hchange : Detectable fs fs') {fuel : Nat} {entry : Path}
    {x : Path × List DiscoveredModule}
    (hentry : (normalizeEntryPath entryPath).answered (fs'.answer resolver kept) = .ok entry)
    (hreused : (state.reusable externalModules).answered (fs'.answer resolver kept) = true)
    (hsettings : SettingsCurrent parser (fs'.answer resolver kept) fuel entry state)
    (hfresh : outcome resolver parser entryPath kept fuel externalModules none fs' = some (.ok x))
    (h : outcome resolver parser entryPath kept fuel externalModules (some state) fs' =
      some (.ok x)) :
    ResolutionsCurrent parser (fs'.answer resolver kept) externalModules entry state := by
  unfold outcome at h hfresh
  rw [discoverProject_answered, hentry] at h hfresh
  dsimp only at h hfresh
  rw [if_pos hreused] at h
  rw [discoverAnew_answered, hsettings] at hfresh
  dsimp only at hfresh
  obtain ⟨w, hw⟩ := outcome_eq _ (Eq.refl ((DiscoveryContext.discover
    (reusing parser externalModules state) fuel entry state.structureFiles state.modules.get?
    true).answered (fs'.answer resolver kept)))
  obtain ⟨w', hw'⟩ := outcome_eq _ (Eq.refl ((DiscoveryContext.discover
    (afresh parser externalModules state) fuel entry .empty (fun _ => none)
    false).answered (fs'.answer resolver kept)))
  replace h := hw.symm.trans h
  replace hfresh := hw'.symm.trans hfresh
  obtain ⟨⟨ended, d⟩, hvisit, hd⟩ := Option.map_eq_some_iff.mp h
  obtain ⟨⟨ended', d'⟩, hvisit', hd'⟩ := Option.map_eq_some_iff.mp hfresh
  cases ended with
  | error error => cases hd
  | ok _ =>
    cases ended' with
    | error error => cases hd'
    | ok _ =>
      have hmodules : d'.modules.entries.map DiscoveredModule.of =
          d.modules.entries.map DiscoveredModule.of := by
        have heq := Except.ok.inj (hd'.trans hd.symm)
        exact congrArg Prod.snd heq
      -- each module that is reached is one of both walks, with the same requests
      have hboth : ∀ path, Reaches (afresh parser externalModules state)
          (fs'.answer resolver kept) entry path → ∃ mf source mi,
            fs'.answer resolver kept (.read path) = .ok source ∧
            ((afresh parser externalModules state).resolveModule path
              (fs'.answer resolver kept (.stamp path)) source).answered
                (fs'.answer resolver kept) = .ok mf ∧
            d.modules.get? path = some mi ∧ mi.resolvedRequests = mf.resolvedRequests := by
        intro path hpath
        obtain ⟨mf, source, hmf, hread, hresolved⟩ := reached_resolved hvisit' hpath
        have hmem : DiscoveredModule.of (path, mf) ∈ d.modules.entries.map DiscoveredModule.of :=
          hmodules ▸ List.mem_map_of_mem (IndexMap.get?_eq_some.mp hmf)
        obtain ⟨⟨p, mi⟩, hmi, hof⟩ := List.mem_map.mp hmem
        unfold DiscoveredModule.of at hof
        simp only [DiscoveredModule.mk.injEq] at hof
        obtain ⟨rfl, -, -, hrequests⟩ := hof
        exact ⟨mf, source, mi, hread, hresolved, IndexMap.get?_eq_some.mpr hmi, hrequests⟩
      constructor
      · intro path hpath m hm
        obtain ⟨mf, source, mi, hread, hresolved, hmi, hrequests⟩ := hboth path hpath
        obtain ⟨hget, hstamp, hsome⟩ := mem_unchanged.mp hm
        have hknown : KnownSound (reusing parser externalModules state)
            (fs'.answer resolver kept) ⟨state.modules.get?, true, .empty, IndexMap.empty⟩ :=
          (hstate.holds kept).knownSound (u := true) hchange
            (fun _ => ⟨rfl, (reusable_externalModules hreused).symm⟩) .empty
        obtain rfl : source = m.source := by
          have hsource := hknown.source path m hget hstamp hsome
          rw [hread] at hsource
          exact Except.ok.inj hsource
        refine ⟨mf, hresolved, ?_⟩
        rw [← hrequests, visit_reuses rfl rfl hvisit hget hstamp hsome hmi]
      · intro path hpath hnone source hread
        obtain ⟨mf, source', mi, hread', hresolved, hmi, hrequests⟩ := hboth path hpath
        obtain rfl : source = source' := Except.ok.inj (hread.symm.trans hread')
        obtain ⟨source'', hread'', hresolved'⟩ := visit_resolved hvisit hnone hmi
        obtain rfl : source = source'' := Except.ok.inj (hread.symm.trans hread'')
        rw [hresolved, hresolved']
        exact congrArg Except.ok hrequests

/-- What a project state makes no difference to: discovery with it gives what discovery without it
gives where the state is not reused, or nothing it keeps is out of date; and, for a project that
loads, only there, unless the resolver the entry gets is another. -/
theorem discoverProject_incremental (hstate : Returned resolver parser entryPath fs state)
    (hchange : Detectable fs fs') (kept : KeptAnswers) (fuel : Nat) :
    (Unaffected resolver parser entryPath kept fuel externalModules state fs' →
      outcome resolver parser entryPath kept fuel externalModules (some state) fs' =
        outcome resolver parser entryPath kept fuel externalModules none fs') ∧
    ((∀ entry, (normalizeEntryPath entryPath).answered (fs'.answer resolver kept) = .ok entry →
        SettingsCurrent parser (fs'.answer resolver kept) fuel entry state) →
      (∃ x, outcome resolver parser entryPath kept fuel externalModules none fs' =
        some (.ok x)) →
      (outcome resolver parser entryPath kept fuel externalModules (some state) fs' =
          outcome resolver parser entryPath kept fuel externalModules none fs' ↔
        Unaffected resolver parser entryPath kept fuel externalModules state fs')) := by
  have hsufficient : Unaffected resolver parser entryPath kept fuel externalModules state fs' →
      outcome resolver parser entryPath kept fuel externalModules (some state) fs' =
        outcome resolver parser entryPath kept fuel externalModules none fs' :=
    fun hcurrent => incremental_outcome hstate hchange hcurrent
  refine ⟨hsufficient, fun hsettings ⟨x, hfresh⟩ => ⟨fun hsame => ?_, hsufficient⟩⟩
  intro entry hentry hreused
  refine ⟨hsettings entry hentry, ?_⟩
  exact resolutionsCurrent_of_outcome hstate hchange hentry hreused (hsettings entry hentry) hfresh
    (hsame.trans hfresh)

end

/-- A config that resolves `@app/x` in `override` first, then in `src`. -/
def aliasConfig : Text :=
  "\x7b\"compilerOptions\":\x7b\"paths\":\x7b\"@app/*\":[\"override/*\",\"src/*\"]\x7d\x7d\x7d".toList

/-- A project with that config, the directory `override` being empty, or with `x.ts` in it. -/
def aliasProject (overridden : Bool) : FileSystem where
  node path :=
    if path = "/p/override".toList then
      some ⟨⟨0, some (if overridden then 2 else 1)⟩,
        .directory (if overridden then ["x.ts".toList] else [])⟩
    else if path = "/p/override/x.ts".toList then
      if overridden then some ⟨⟨0, some 2⟩, .file (.ok [])⟩ else none
    else if path = "/p".toList then
      some ⟨⟨0, some 1⟩, .directory ["main.ts".toList, "override".toList, "src".toList]⟩
    else if path = "/p/src".toList then some ⟨⟨0, some 1⟩, .directory ["x.ts".toList]⟩
    else if path = "/p/main.ts".toList then
      some ⟨⟨16, some 1⟩, .file (.ok "import '@app/x';".toList)⟩
    else if path = "/p/src/x.ts".toList then some ⟨⟨0, some 1⟩, .file (.ok [])⟩
    else if path = "/p/tsconfig.json".toList then some ⟨⟨63, some 1⟩, .file (.ok aliasConfig)⟩
    else none
  canonical path := .ok path

/-- The resolver on an import of `@app/x`: the first target of the alias that is a file. -/
def aliasResolver : ResolverFunction := fun fs _ _ _ =>
  if (fs.node "/p/override/x.ts".toList).isSome then .ok ("/p/override/x.ts".toList, none)
  else .ok ("/p/src/x.ts".toList, none)

/-- Only `main.ts` imports anything. -/
def aliasParser : Parser where
  importsOf source _ := .ok (if source = [] then [] else ["@app/x".toList])
  extendsOf _ _ := []

/-- What the resolver of the project answers once it found `src/x.ts`. -/
def aliasKept : KeptAnswers := fun _ _ _ => .ok ("/p/src/x.ts".toList, none)

def aliasState : Option ProjectState :=
  match (discoverProject aliasParser 4 "/p/main.ts".toList [] none).answered
      ((aliasProject false).answer aliasResolver aliasKept) with
  | some (.ok (_, state)) => some state
  | _ => none

def aliasModules (target : String) : List DiscoveredModule :=
  [⟨"/p/main.ts".toList, "main.ts".toList, "import '@app/x';".toList,
    [("@app/x".toList, target.toList)]⟩,
    ⟨target.toList, target.toList.drop 3, [], []⟩]

theorem aliasProject_detectable : Detectable (aliasProject false) (aliasProject true) := by
  intro path h
  by_cases hdirectory : path = "/p/override".toList
  · subst hdirectory
    exact absurd h (by decide)
  · by_cases hfile : path = "/p/override/x.ts".toList
    · subst hfile
      exact absurd h (by decide)
    · unfold FileSystem.content aliasProject
      dsimp only
      rw [if_neg hdirectory, if_neg hdirectory, if_neg hfile, if_neg hfile]

theorem aliasState_isSome : aliasState.isSome = true := by decide +kernel

private theorem aliasState_returned : Returned aliasResolver aliasParser "/p/main.ts".toList
    (aliasProject false) (aliasState.get aliasState_isSome) := by
  have hstate : aliasState = some (aliasState.get aliasState_isSome) := (Option.some_get _).symm
  generalize aliasState.get aliasState_isSome = state at hstate ⊢
  unfold aliasState at hstate
  split at hstate
  · next project s hdiscover =>
    cases hstate
    exact .first hdiscover
  · cases hstate

theorem aliasOutcome_stale : outcome aliasResolver aliasParser "/p/main.ts".toList aliasKept 4 []
    aliasState (aliasProject true) = some (.ok ("/p/main.ts".toList, aliasModules "/p/src/x.ts")) := by
  decide +kernel

theorem aliasOutcome_fresh : outcome aliasResolver aliasParser "/p/main.ts".toList aliasKept 4 []
    none (aliasProject true) = some (.ok ("/p/main.ts".toList, aliasModules "/p/override/x.ts")) := by
  decide +kernel

/-- The state of the project before `override/x.ts` was added keeps the import where it was, though
the file takes precedence. -/
theorem aliasOutcome_differs :
    let path := "/p/main.ts".toList
    Detectable (aliasProject false) (aliasProject true) ∧ aliasState.isSome = true ∧
      outcome aliasResolver aliasParser path aliasKept 4 [] aliasState (aliasProject true) =
        some (.ok (path, aliasModules "/p/src/x.ts")) ∧
      outcome aliasResolver aliasParser path aliasKept 4 [] none (aliasProject true) =
        some (.ok (path, aliasModules "/p/override/x.ts")) ∧
      aliasModules "/p/src/x.ts" ≠ aliasModules "/p/override/x.ts" :=
  ⟨aliasProject_detectable, aliasState_isSome, aliasOutcome_stale, aliasOutcome_fresh, by decide⟩

theorem discoverProject_incremental_alias :
    ¬Unaffected aliasResolver aliasParser "/p/main.ts".toList aliasKept 4 []
      (aliasState.get aliasState_isSome) (aliasProject true) := by
  intro hunaffected
  have hsame := (discoverProject_incremental aliasState_returned aliasProject_detectable aliasKept 4).1
    hunaffected
  rw [Option.some_get, aliasOutcome_stale, aliasOutcome_fresh] at hsame
  have hmodules := congrArg Prod.snd (Except.ok.inj (Option.some.inj hsame))
  exact absurd hmodules (by decide)

end RustTS.Compiler
