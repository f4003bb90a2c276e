import RustTS.Compiler.BeginDiscovery
import RustTS.Compiler.Visit

/-! Every module a discovery returns keeps the requests of its source, whatever the file system did
meanwhile. -/
namespace RustTS.Compiler
open Runner.ModuleLoader (Text)
open DiscoveryContext

namespace DiscoveryContext

variable {c : DiscoveryContext}

/-- Known modules that would be taken as they are keep their requests. -/
abbrev KnownRecorded (c : DiscoveryContext) (u : Bool) (known : Path → Option KnownModule) : Prop :=
  u = true → ∀ path, ∀ m ∈ known path, c.Records path m

/-- The modules visited so far keep their requests, and so do those that would be taken as they are
known. -/
structure Recorded (c : DiscoveryContext) (d : Discovery) : Prop where
  known : c.KnownRecorded d.structureUnchanged d.known
  modules : ∀ path m, d.modules.get? path = some m → c.Records path m

theorem Recorded.forget {d : Discovery} (h : c.Recorded d) (path : Path)
    (structureFiles : WatchedFiles) :
    c.Recorded ⟨Function.update d.known path none, d.structureUnchanged, structureFiles,
      d.modules⟩ where
  known hunchanged p m hm := h.known hunchanged p m (known_of_update hm)
  modules := h.modules

theorem Recorded.insert {d : Discovery} {path : Path} {m : KnownModule} (h : c.Recorded d)
    (hm : c.Records path m) (structureFiles : WatchedFiles) :
    c.Recorded ⟨Function.update d.known path none, d.structureUnchanged, structureFiles,
      d.modules.insert path m⟩ where
  known := (h.forget path structureFiles).known
  modules p x hx := by
    by_cases hp : p = path
    · subst hp
      rw [IndexMap.get?_insert_self] at hx
      cases hx
      exact hm
    · rw [IndexMap.get?_insert_of_ne _ _ hp] at hx
      exact h.modules p x hx

theorem visitEach_recorded {visit : Path → Discovery → Looking (Option Visited)}
    (hvisit : ∀ path d, c.Recorded d →
      (visit path d).Yields fun ended => ∀ visited ∈ ended, c.Recorded visited.2)
    (paths : List Path) {d : Discovery} (hd : c.Recorded d) :
    (visitEach visit paths d).Yields fun ended => ∀ visited ∈ ended, c.Recorded visited.2 := by
  induction paths generalizing d with
  | nil =>
    rintro _ ⟨⟩
    exact hd
  | cons path paths ih =>
    apply (hvisit path d hd).bind
    rintro (_ | ⟨error | ⟨⟨⟩⟩, d₁⟩) hended
    · exact hended
    · exact hended
    · exact ih (hended _ rfl)

theorem visit_recorded (n : Nat) (path : Path) {d : Discovery} (hd : c.Recorded d) :
    (c.visit n path d).Yields fun ended => ∀ visited ∈ ended, c.Recorded visited.2 := by
  induction n generalizing path d with
  | zero => rintro _ ⟨⟩
  | succ n ih =>
    unfold visit
    split_ifs
    · rintro _ ⟨⟩
      exact hd
    · apply (Asking.yields_true _).bind
      intro structureFiles _
      apply (Asking.yields_true _).bind
      intro stamp _
      apply (moduleAt_records fun hunchanged => hd.known hunchanged path).bind
      rintro (error | m) hm
      · rintro _ ⟨⟩
        exact hd.forget path _
      · apply (Asking.yields_true _).bind
        intro structureFiles _
        exact visitEach_recorded (fun path d hd => ih path hd) m.dependencies
          (hd.insert (hm m rfl) structureFiles)

end DiscoveryContext

/-- The modules of a state keep their requests, with what they resolved to. -/
def ProjectState.Recorded (parser : Parser) (state : ProjectState) : Prop :=
  ∀ path m, state.modules.get? path = some m →
    DiscoveryContext.Records ⟨parser, state.resolver, state.externalModules⟩ path m

theorem Begins.knownRecorded {parser : Parser} {externalModules : List Text}
    {previous : Option ProjectState} {b : Beginning} (h : Begins parser externalModules previous b)
    (hprevious : ∀ state ∈ previous, state.Recorded parser) :
    b.context.KnownRecorded b.discovery.structureUnchanged b.discovery.known := by
  intro hunchanged path m hm
  obtain ⟨state, hstate, hcontext⟩ := h.reused hunchanged
  obtain ⟨kept, hkept, hmodule⟩ := h.known path m hm
  obtain rfl := Option.mem_unique hstate hkept
  rw [hcontext]
  have hrecords := hprevious state hstate path m hmodule
  exact ⟨⟨hrecords.display, hrecords.dependencies, hrecords.external⟩, hrecords.requests⟩

theorem Begins.recorded {parser : Parser} {externalModules : List Text}
    {previous : Option ProjectState} {b : Beginning} (h : Begins parser externalModules previous b)
    (hprevious : ∀ state ∈ previous, state.Recorded parser) : b.context.Recorded b.discovery where
  known := h.knownRecorded hprevious
  modules path m hm := by
    rw [h.empty] at hm
    cases hm

theorem discoverProject_recorded {parser : Parser} {fuel : Nat} {entryPath : Path}
    {externalModules : List Text} {previous : Option ProjectState}
    (hprevious : ∀ state ∈ previous, state.Recorded parser) :
    (discoverProject parser fuel entryPath externalModules previous).Yields fun ended =>
      ∀ project state, ended = some (.ok (project, state)) → state.Recorded parser := by
  rw [discoverProject_begin]
  apply beginDiscovery_yields.bind
  rintro (_ | error | b) hbegin
  · rintro _ _ ⟨⟩
  · rintro _ _ ⟨⟩
  · have hb := hbegin b rfl
    apply (visit_recorded fuel b.entry (hb.recorded hprevious)).bind
    rintro (_ | ⟨error | ⟨⟨⟩⟩, d⟩) hended project state hstate
    · cases hstate
    · cases hstate
    · cases hstate
      rw [← hb.sameParser]
      exact (hended _ rfl).modules

/-- The states that discoveries return, each made without a state or with an earlier one, whatever
happened to the files before and meanwhile. -/
inductive Discovered (parser : Parser) : ProjectState → Prop
  | returned {S : Type} (answer : (q : FileQuestion) → S → q.Answer × S) (s : S) {fuel : Nat}
      {entryPath : Path} {externalModules : List Text} {previous : Option ProjectState}
      {project : DiscoveredProject} {state : ProjectState}
      (hprevious : ∀ kept ∈ previous, Discovered parser kept)
      (h : ((discoverProject parser fuel entryPath externalModules previous).run answer s).1 =
        some (.ok (project, state))) : Discovered parser state

theorem Discovered.recorded {parser : Parser} {state : ProjectState} (h : Discovered parser state) :
    state.Recorded parser := by
  induction h with
  | returned answer s hprevious h ih =>
    exact (discoverProject_recorded ih).run s _ _ h

end RustTS.Compiler
