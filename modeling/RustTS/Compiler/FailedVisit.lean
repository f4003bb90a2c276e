import RustTS.Compiler.BeginDiscovery
import RustTS.Compiler.Visit

/-! What is watched when a walk of the import graph fails, whatever happens to the files meanwhile. -/
namespace RustTS.Compiler
open Runner.ModuleLoader (Text)

/-- Questions that were asked, each with the state that answered it. -/
abbrev Trace (S : Type) := List (FileQuestion × S)

variable {S : Type} {answer : (q : FileQuestion) → S → q.Answer × S} {trace more : Trace S} {s : S}

/-- The stamp was taken of the file at `path` before anything read it. -/
def StampedFirst (answer : (q : FileQuestion) → S → q.Answer × S) (trace : Trace S) (path : Path)
    (stamp : Option FileStamp) : Prop :=
  ∃ before s after, trace = before ++ (.stamp path, s) :: after ∧
    (answer (.stamp path) s).1 = stamp ∧ ∀ asked ∈ before, asked.1 ≠ .read path

theorem StampedFirst.append {path : Path} {stamp : Option FileStamp}
    (h : StampedFirst answer trace path stamp) : StampedFirst answer (trace ++ more) path stamp := by
  obtain ⟨before, s, after, rfl, hstamp, hfirst⟩ := h
  refine ⟨before, s, after ++ more, ?_, hstamp, hfirst⟩
  rw [List.append_assoc, List.cons_append]

/-- A question that reads no file but that at `path`. -/
def ReadsAt (path : Path) (q : FileQuestion) : Prop := ∀ p, q = .read p → p = path

/-- A question that reads no file. -/
def ReadsNone (q : FileQuestion) : Prop := ∀ p, q ≠ .read p

theorem ReadsNone.readsAt {q : FileQuestion} (h : ReadsNone q) (path : Path) : ReadsAt path q :=
  fun p hp => absurd hp (h p)

theorem WatchedFiles.watchAll_readsNone (paths : List Path) (watched : WatchedFiles) :
    (watchAll paths watched).Within ReadsNone := by
  induction paths generalizing watched with
  | nil => trivial
  | cons path paths ih =>
    apply Asking.Within.bind _ ih
    unfold watch
    split_ifs
    · trivial
    · exact ⟨by rintro _ ⟨⟩, fun _ => trivial⟩

theorem ModuleResolver.resolveRequest_readsNone (resolver : ModuleResolver) (path : Path)
    (request : Text) : (resolver.resolveRequest path request).Within ReadsNone := by
  unfold resolveRequest
  split
  · trivial
  · refine ⟨by rintro _ ⟨⟩, ?_⟩
    rintro (error | ⟨resolved, packageJson⟩)
    · trivial
    · refine ⟨by rintro _ ⟨⟩, ?_⟩
      rintro (error | canonical)
      · trivial
      · show Asking.Within _ (if _ then _ else _)
        split_ifs
        · trivial
        · trivial

namespace DiscoveryContext

variable {c : DiscoveryContext}

private theorem resolveRequests_readsNone (path : Path) (requests : List Text) :
    (c.resolveRequests path requests).Within ReadsNone := by
  induction requests with
  | nil => trivial
  | cons request requests ih =>
    unfold resolveRequests
    split_ifs
    · exact ih.bind fun _ => trivial
    · apply (c.resolver.resolveRequest_readsNone path request).bind
      rintro (error | ⟨resolved, packageJson⟩)
      · trivial
      · exact ih.bind fun _ => trivial

private theorem resolveModule_readsNone (path : Path) (stamp : Option FileStamp) (source : Text) :
    (c.resolveModule path stamp source).Within ReadsNone := by
  unfold resolveModule
  dsimp only
  split
  · trivial
  · exact (resolveRequests_readsNone path _).bind fun _ => trivial

theorem moduleAt_readsAt (u : Bool) (path : Path) (stamp : Option FileStamp)
    (known : Option KnownModule) : (c.moduleAt u path stamp known).Within (ReadsAt path) := by
  have hresolve (source : Text) : (c.resolveModule path stamp source).Within (ReadsAt path) :=
    (resolveModule_readsNone path stamp source).imp fun _ h => h.readsAt path
  unfold moduleAt
  split
  · split_ifs
    · trivial
    · exact hresolve _
  · refine ⟨by rintro _ ⟨⟩; rfl, ?_⟩
    rintro (error | source)
    · trivial
    · exact hresolve source

/-- Every module visited was stamped first, and no other file was read. -/
structure Watching (answer : (q : FileQuestion) → S → q.Answer × S) (trace : Trace S)
    (d : Discovery) : Prop where
  stamped : ∀ path m, d.modules.get? path = some m → StampedFirst answer trace path m.stamp
  read : ∀ asked ∈ trace, ∀ path, asked.1 = .read path → path ∈ d.modules.keys

/-- The walk ended with a look at the file at `path`, which failed. -/
def FailsAt (c : DiscoveryContext) (answer : (q : FileQuestion) → S → q.Answer × S) (trace : Trace S)
    (error : VmError) (d : Discovery) (path : Path) (stamp : Option FileStamp) : Prop :=
  ∃ known before s,
    trace = before ++ (c.moduleAt d.structureUnchanged path stamp known).asked answer s ∧
    ((c.moduleAt d.structureUnchanged path stamp known).run answer s).1 = .error error

/-- The walk failed at a file that is watched under the stamp it was read under, as every module
visited before it will be. -/
structure FailedAt (c : DiscoveryContext) (answer : (q : FileQuestion) → S → q.Answer × S)
    (trace : Trace S) (error : VmError) (d : Discovery) (path : Path) (stamp : Option FileStamp) :
    Prop where
  fails : c.FailsAt answer trace error d path stamp
  unvisited : d.modules.get? path = none
  watched : d.structureFiles.files.get? path = some stamp
  stamped : StampedFirst answer trace path stamp
  visited : ∀ p m, d.modules.get? p = some m → StampedFirst answer trace p m.stamp

/-- How a walk ends. -/
def Ends (c : DiscoveryContext) (answer : (q : FileQuestion) → S → q.Answer × S)
    (ended : Option Visited) (trace : Trace S) : Prop :=
  ∀ visited ∈ ended, match visited with
    | (.ok (), d) => Watching answer trace d
    | (.error error, d) => ∃ path stamp, c.FailedAt answer trace error d path stamp

theorem visitEach_ends {visit : Path → Discovery → Looking (Option Visited)}
    (hvisit : ∀ path d s trace, Watching answer trace d →
      (visit path d).Leads answer s trace fun ended _ trace' => c.Ends answer ended trace')
    (paths : List Path) {d : Discovery} (hd : Watching answer trace d) :
    (visitEach visit paths d).Leads answer s trace fun ended _ trace' =>
      c.Ends answer ended trace' := by
  induction paths generalizing d s trace with
  | nil =>
    refine (Asking.leads_pure _).mpr ?_
    rintro _ ⟨⟩
    exact hd
  | cons path paths ih =>
    refine (Asking.leads_bind _ _).mpr ((hvisit path d s trace hd).imp ?_)
    rintro (_ | ⟨error | ⟨⟨⟩⟩, d₁⟩) s₁ trace₁ hended
    · exact (Asking.leads_pure _).mpr hended
    · exact (Asking.leads_pure _).mpr hended
    · exact ih (hended _ rfl)

private theorem Watching.stampedFirst {d : Discovery} (hd : Watching answer trace d) {path : Path}
    (hnew : d.modules.get? path = none) (hmore : ∀ asked ∈ more, ReadsNone asked.1) :
    StampedFirst answer (trace ++ more ++ [(.stamp path, s)]) path (answer (.stamp path) s).1 := by
  refine ⟨trace ++ more, s, [], rfl, rfl, fun asked hasked hread => ?_⟩
  rcases List.mem_append.mp hasked with hold | hmoreAsked
  · exact IndexMap.get?_eq_none.mp hnew (hd.read asked hold path hread)
  · exact hmore asked hmoreAsked path hread

theorem Watching.insert {d : Discovery} (hd : Watching answer trace d) {path : Path}
    {m : KnownModule} (hstamped : StampedFirst answer (trace ++ more) path m.stamp)
    (hmore : ∀ asked ∈ more, ReadsAt path asked.1) (known : Path → Option KnownModule) (u : Bool)
    (structureFiles : WatchedFiles) :
    Watching answer (trace ++ more) ⟨known, u, structureFiles, d.modules.insert path m⟩ where
  stamped p x hx := by
    by_cases hp : p = path
    · subst hp
      rw [IndexMap.get?_insert_self] at hx
      cases hx
      exact hstamped
    · rw [IndexMap.get?_insert_of_ne _ _ hp] at hx
      exact (hd.stamped p x hx).append
  read asked hasked p hread := by
    rw [IndexMap.mem_keys_insert]
    rcases List.mem_append.mp hasked with hold | hnew
    · exact .inr (hd.read asked hold p hread)
    · exact .inl (hmore asked hnew p hread)

private theorem moduleAt_leads (u : Bool) (path : Path) (stamp : Option FileStamp)
    (known : Option KnownModule) :
    (c.moduleAt u path stamp known).Leads answer s trace fun r _ trace' =>
      trace' = trace ++ (c.moduleAt u path stamp known).asked answer s ∧
      (∀ asked ∈ (c.moduleAt u path stamp known).asked answer s, ReadsAt path asked.1) ∧
      r = ((c.moduleAt u path stamp known).run answer s).1 ∧ ∀ m, r = .ok m → m.stamp = stamp := by
  refine ⟨rfl, ?_, rfl, (moduleAt_stamp u path stamp known).run s⟩
  exact (moduleAt_readsAt u path stamp known).asked

theorem visit_watching (n : Nat) (path : Path) {d : Discovery} (hd : Watching answer trace d) :
    (c.visit n path d).Leads answer s trace fun ended _ trace' => c.Ends answer ended trace' := by
  induction n generalizing path d s trace with
  | zero => exact (Asking.leads_pure _).mpr (by rintro _ ⟨⟩)
  | succ n ih =>
    unfold visit
    split_ifs with hvisited
    · refine (Asking.leads_pure _).mpr ?_
      rintro _ ⟨⟩
      exact hd
    have hnew := Option.not_isSome_iff_eq_none.mp hvisited
    refine (Asking.leads_bind _ _).mpr ((WatchedFiles.watchAll_readsNone _ _).leads.imp ?_)
    rintro structureFiles s₁ _ ⟨directories, rfl, hdirectories⟩
    refine (Asking.leads_bind _ _).mpr ((Asking.leads_put _).mpr ?_)
    have hfirst := hd.stampedFirst (s := s₁) hnew hdirectories
    generalize (answer (.stamp path) s₁).1 = stamp at hfirst ⊢
    refine (Asking.leads_bind _ _).mpr ((moduleAt_leads _ path stamp _).imp ?_)
    rintro (error | m) s₂ _ ⟨rfl, hlooked, hrun, hm⟩
    · refine (Asking.leads_pure _).mpr ?_
      rintro _ ⟨⟩
      exact ⟨path, stamp, ⟨_, _, _, rfl, hrun.symm⟩, hnew, IndexMap.get?_insert_self _ _ _, hfirst.append,
        fun p x hx => by simpa only [List.append_assoc] using (hd.stamped p x hx).append⟩
    · refine (Asking.leads_bind _ _).mpr ((WatchedFiles.watchAll_readsNone _ _).leads.imp ?_)
      rintro packages s₃ _ ⟨stamps, rfl, hstamps⟩
      obtain rfl := hm m rfl
      apply visitEach_ends fun path d s trace hd => ih path hd
      simp only [List.append_assoc]
      refine hd.insert ?_ ?_ _ _ _
      · simpa only [List.append_assoc] using hfirst.append
      · intro asked hasked
        simp only [List.mem_append, List.mem_singleton] at hasked
        rcases hasked with hdirectory | rfl | hlook | hpackage
        · exact (hdirectories asked hdirectory).readsAt path
        · rintro _ ⟨⟩
        · exact hlooked asked hlook
        · exact (hstamps asked hpackage).readsAt path

end DiscoveryContext

theorem get?_watchStamped_foldl {entries : List (Path × KnownModule)} {path : Path}
    (h : path ∉ entries.map Prod.fst) (watched : WatchedFiles) :
    (entries.foldl (fun watched entry => watched.watchStamped entry.1 entry.2.stamp)
      watched).files.get? path = watched.files.get? path := by
  induction entries generalizing watched with
  | nil => rfl
  | cons entry entries ih =>
    rw [List.map_cons, List.mem_cons, not_or] at h
    rw [List.foldl_cons, ih h.2]
    exact IndexMap.get?_insert_of_ne _ _ h.1

private theorem get?_watchModules_of_not_mem {modules : IndexMap Path KnownModule} {path : Path}
    (h : path ∉ modules.keys) (structureFiles : WatchedFiles) :
    (watchModules modules structureFiles).files.get? path = structureFiles.files.get? path :=
  get?_watchStamped_foldl h structureFiles

private theorem get?_watchModules {modules : IndexMap Path KnownModule} {path : Path} {m : KnownModule}
    (h : modules.get? path = some m) (structureFiles : WatchedFiles) :
    (watchModules modules structureFiles).files.get? path = some m.stamp := by
  obtain ⟨before, after, hsplit, hothers⟩ := IndexMap.entries_split (IndexMap.get?_eq_some.mp h)
  have hafter : path ∉ after.map Prod.fst := by
    intro hmem
    obtain ⟨entry, hentry, hpath⟩ := List.mem_map.mp hmem
    exact hothers entry (List.mem_append_right _ hentry) hpath
  unfold watchModules
  rw [hsplit, List.foldl_append, List.foldl_cons, get?_watchStamped_foldl hafter]
  exact IndexMap.get?_insert_self _ _ _

/-- A failure while visiting: the modules visited before and the file that failed are watched, each
with a stamp that was taken before the file was read. -/
structure WatchesVisited (answer : (q : FileQuestion) → S → q.Answer × S) (c : DiscoveryContext)
    (walk : Trace S) (d : Discovery) (path : Path) (failure : ProjectFailure) : Prop where
  fails : ∃ stamp, c.FailsAt answer walk failure.error d path stamp
  unvisited : path ∉ d.modules.keys
  watched : ∀ p, p = path ∨ p ∈ d.modules.keys → ∃ stamp,
    failure.watched.files.get? p = some stamp ∧ StampedFirst answer walk p stamp

theorem DiscoveryContext.FailedAt.watchesVisited {c : DiscoveryContext} {error : VmError}
    {d : Discovery} {path : Path} {stamp : Option FileStamp}
    (h : c.FailedAt answer trace error d path stamp) :
    WatchesVisited answer c trace d path ⟨error, watchModules d.modules d.structureFiles⟩ where
  fails := ⟨stamp, h.fails⟩
  unvisited := IndexMap.get?_eq_none.mp h.unvisited
  watched p hp := by
    rcases hp with rfl | hp
    · refine ⟨stamp, ?_, h.stamped⟩
      rw [← h.watched]
      exact get?_watchModules_of_not_mem (IndexMap.get?_eq_none.mp h.unvisited) _
    · obtain ⟨m, hm⟩ := IndexMap.mem_keys.mp hp
      have hget := IndexMap.get?_eq_some.mpr hm
      exact ⟨m.stamp, get?_watchModules hget _, h.visited p m hget⟩

/-- A discovery that fails after it began failed while visiting. -/
theorem discoverProject_failed {parser : Parser} {fuel : Nat} {entryPath : Path}
    {externalModules : List Text} {previous : Option ProjectState} {s₁ : S} {b : Beginning}
    {failure : ProjectFailure}
    (hbegin : (beginDiscovery parser fuel entryPath externalModules previous).run answer s =
      (some (.ok b), s₁))
    (h : ((discoverProject parser fuel entryPath externalModules previous).run answer s).1 =
      some (.error failure)) :
    ∃ d path, ((b.walk fuel).run answer s₁).1 = some (.error failure.error, d) ∧
      WatchesVisited answer b.context ((b.walk fuel).asked answer s₁) d path failure := by
  have hb : Begins parser externalModules previous b :=
    beginDiscovery_yields.run s b (congrArg Prod.fst hbegin)
  have hstart : DiscoveryContext.Watching answer [] b.discovery := by
    refine ⟨fun path m hm => ?_, by rintro _ ⟨⟩⟩
    rw [hb.empty] at hm
    cases hm
  have hends := b.context.visit_watching (s := s₁) fuel b.entry hstart
  rw [discoverProject_begin, Asking.run_bind_eq, hbegin] at h
  unfold goOn Beginning.finish at h
  rw [Asking.run_bind_eq, Asking.run_pure] at h
  obtain ⟨⟨error | ⟨⟨⟩⟩, d⟩, hvisited, hfinish⟩ := Option.map_eq_some_iff.mp h
  · cases hfinish
    obtain ⟨path, stamp, hfailed⟩ := hends _ hvisited
    exact ⟨d, path, hvisited, hfailed.watchesVisited⟩
  · cases hfinish

end RustTS.Compiler
