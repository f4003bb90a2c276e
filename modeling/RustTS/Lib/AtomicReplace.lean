import Mathlib.Data.List.Infix
import Mathlib.Logic.Function.Basic
import RustTS.Lib.Transition

/-! Files that are replaced whole. A writer writes a file of its own in pieces, and then moves it to the
place of its key; a reader receives, in pieces, the file that it found there. To every reader it is as
if files were put and looked up in one step each. -/
namespace AtomicReplace

/-- What stands under a key: what a writer put there, or bytes from elsewhere. -/
inductive Entry (P B : Type*)
  | put (payload : P)
  | foreign (bytes : List B)

structure Writer (K P : Type*) where
  key : K
  payload : P
  file : ℕ

structure Reader (B : Type*) where
  file : ℕ
  received : List B

/-- Files are numbered as they are made, and keep their numbers when they are moved. -/
structure Disk (K P B W R : Type*) where
  files : ℕ
  content : ℕ → List B
  place : K → Option ℕ
  writers : W → Option (Writer K P)
  readers : R → Option (Reader B)

/-- What happens to the disk: `abandon` is a writer that fails or dies, `replace` is a file that someone
else moves to a place, or removes. -/
inductive Event (K P B W R : Type*)
  | create (w : W) (key : K) (payload : P)
  | write (w : W) (piece : List B)
  | persist (w : W)
  | abandon (w : W)
  | replace (key : K) (bytes : Option (List B))
  | lookUp (r : R) (key : K)
  | receive (r : R) (count : ℕ)
  | close (r : R)

/-- Keys with whole files: what writers are about to put, what stands under each key, and what each
reader found. -/
structure Store (K P B W R : Type*) where
  pending : W → Option (K × P)
  entries : K → Option (Entry P B)
  found : R → Option (Entry P B)

variable {K P B W R : Type*} (render : P → List B)

def Entry.content : Entry P B → List B
  | put payload => render payload
  | foreign bytes => bytes

section
variable [DecidableEq K] [DecidableEq W] [DecidableEq R]

namespace Event

def next (d : Disk K P B W R) : Event K P B W R → Disk K P B W R
  | create w key payload =>
    { d with
      files := d.files + 1
      content := Function.update d.content d.files []
      writers := Function.update d.writers w (some ⟨key, payload, d.files⟩) }
  | write w piece => match d.writers w with
    | some writer =>
      { d with content := Function.update d.content writer.file (d.content writer.file ++ piece) }
    | none => d
  | persist w => match d.writers w with
    | some writer =>
      { d with
        place := Function.update d.place writer.key (some writer.file)
        writers := Function.update d.writers w none }
    | none => d
  | abandon w => { d with writers := Function.update d.writers w none }
  | replace key none => { d with place := Function.update d.place key none }
  | replace key (some content) =>
    { d with
      files := d.files + 1
      content := Function.update d.content d.files content
      place := Function.update d.place key (some d.files) }
  | lookUp r key => { d with readers := Function.update d.readers r ((d.place key).map (⟨·, []⟩)) }
  | receive r count => match d.readers r with
    | some reader =>
      { d with
        readers := Function.update d.readers r (some ⟨reader.file, reader.received ++
          ((d.content reader.file).drop reader.received.length).take count⟩) }
    | none => d
  | close r => { d with readers := Function.update d.readers r none }

/-- A writer writes its payload from the start on, and moves the file once it is all there. -/
def Allowed (d : Disk K P B W R) : Event K P B W R → Prop
  | create w _ _ => d.writers w = none
  | write w piece => ∀ writer ∈ d.writers w,
    d.content writer.file ++ piece <+: render writer.payload
  | persist w => ∀ writer ∈ d.writers w, d.content writer.file = render writer.payload
  | _ => True

/-- The same, in one step each. -/
def atomic (s : Store K P B W R) : Event K P B W R → Store K P B W R
  | create w key payload => { s with pending := Function.update s.pending w (some (key, payload)) }
  | persist w => match s.pending w with
    | some (key, payload) =>
      { s with
        pending := Function.update s.pending w none
        entries := Function.update s.entries key (some (.put payload)) }
    | none => s
  | abandon w => { s with pending := Function.update s.pending w none }
  | replace key content => { s with entries := Function.update s.entries key (content.map .foreign) }
  | lookUp r key => { s with found := Function.update s.found r (s.entries key) }
  | close r => { s with found := Function.update s.found r none }
  | write _ _ | receive _ _ => s

end Event

end

/-- The steps that begin a writer, or are its last. -/
def Event.Turns (w : W) : Event K P B W R → Prop
  | create w' _ _ | persist w' | abandon w' => w' = w
  | _ => False

/-- The writer was created for the key, and is still to move its file. -/
def Begun (events : List (Event K P B W R)) (w : W) (key : K) (payload : P) : Prop :=
  ∃ earlier later, events = earlier ++ .create w key payload :: later ∧
    ∀ event ∈ later, ¬event.Turns w

/-- The writer was created for the key, and moved its file there. -/
def Moved (events : List (Event K P B W R)) (w : W) (key : K) (payload : P) : Prop :=
  ∃ earlier later, events = earlier ++ .persist w :: later ∧ Begun earlier w key payload

theorem Begun.snoc {events : List (Event K P B W R)} {event : Event K P B W R} {w : W} {key : K}
    {payload : P} (h : Begun events w key payload) (hevent : ¬event.Turns w) :
    Begun (events ++ [event]) w key payload := by
  obtain ⟨earlier, later, rfl, hlater⟩ := h
  refine ⟨earlier, later ++ [event], by simp, fun e he => ?_⟩
  rcases List.mem_append.mp he with he | he
  · exact hlater e he
  · rw [List.mem_singleton.mp he]
    exact hevent

theorem Moved.snoc {events : List (Event K P B W R)} {w : W} {key : K} {payload : P}
    (h : Moved events w key payload) (event : Event K P B W R) :
    Moved (events ++ [event]) w key payload := by
  obtain ⟨earlier, later, rfl, hbegun⟩ := h
  exact ⟨earlier, later ++ [event], by simp, hbegun⟩

/-- Writers write files that nobody else has, and readers have received what their files start
with. -/
structure Sound (d : Disk K P B W R) : Prop where
  placed : ∀ key file, d.place key = some file → file < d.files
  written : ∀ w writer, d.writers w = some writer → writer.file < d.files
  apart : ∀ w writer, d.writers w = some writer → ∀ key, d.place key ≠ some writer.file
  alone : ∀ w writer w' writer', d.writers w = some writer → d.writers w' = some writer' →
    writer.file = writer'.file → w = w'
  held : ∀ r reader, d.readers r = some reader → reader.file < d.files ∧
    reader.received <+: d.content reader.file ∧
      ∀ w writer, d.writers w = some writer → writer.file ≠ reader.file

/-- The disk shows what the store has. -/
structure Shows (d : Disk K P B W R) (s : Store K P B W R) : Prop where
  pending : ∀ w, (d.writers w).map (fun writer => (writer.key, writer.payload)) = s.pending w
  entries : ∀ key, (d.place key).map d.content = (s.entries key).map (Entry.content render)
  found : ∀ r, (d.readers r).map (fun reader => d.content reader.file) =
    (s.found r).map (Entry.content render)

variable {render} {d : Disk K P B W R} {s : Store K P B W R}

/-- A disk without writers and readers. -/
theorem sound_idle (h : ∀ key file, d.place key = some file → file < d.files)
    (hwriters : ∀ w, d.writers w = none) (hreaders : ∀ r, d.readers r = none) : Sound d := by
  constructor
  · exact h
  · intro w writer hw
    rw [hwriters w] at hw
    cases hw
  · intro w writer hw
    rw [hwriters w] at hw
    cases hw
  · intro w writer _ _ hw
    rw [hwriters w] at hw
    cases hw
  · intro r reader hr
    rw [hreaders r] at hr
    cases hr

theorem Sound.fresh (h : Sound d) (key : K) : d.place key ≠ some d.files := by
  intro hplace
  exact Nat.lt_irrefl _ (h.placed key _ hplace)

theorem Sound.fewer (h : Sound d) {writers : W → Option (Writer K P)}
    (hwriters : ∀ w writer, writers w = some writer → d.writers w = some writer) :
    Sound { d with writers := writers } where
  placed := h.placed
  written w writer hw := h.written w writer (hwriters w writer hw)
  apart w writer hw := h.apart w writer (hwriters w writer hw)
  alone w writer w' writer' hw hw' :=
    h.alone w writer w' writer' (hwriters w writer hw) (hwriters w' writer' hw')
  held r reader hr := by
    obtain ⟨hfile, hreceived, hother⟩ := h.held r reader hr
    exact ⟨hfile, hreceived, fun w writer hw => hother w writer (hwriters w writer hw)⟩

/-- A file is made, and not yet moved anywhere. -/
theorem Sound.make (h : Sound d) (content : List B) :
    Sound { d with
      files := d.files + 1
      content := Function.update d.content d.files content } where
  placed key file hplace := Nat.lt_succ_of_lt (h.placed key file hplace)
  written w writer hw := Nat.lt_succ_of_lt (h.written w writer hw)
  apart := h.apart
  alone := h.alone
  held r reader hr := by
    obtain ⟨hfile, hreceived, hother⟩ := h.held r reader hr
    refine ⟨Nat.lt_succ_of_lt hfile, ?_, hother⟩
    dsimp only
    rw [Function.update_of_ne (Nat.ne_of_lt hfile)]
    exact hreceived

/-- A file that no writer has is moved to a place. -/
theorem Sound.move (h : Sound d) (key : K) [DecidableEq K] {file : ℕ} (hfile : file < d.files)
    (hfree : ∀ w writer, d.writers w = some writer → writer.file ≠ file) :
    Sound { d with place := Function.update d.place key (some file) } where
  placed key' file' hplace := by
    dsimp only at hplace
    rw [Function.update_apply] at hplace
    split_ifs at hplace
    · rwa [← Option.some.inj hplace]
    · exact h.placed key' file' hplace
  written := h.written
  apart w writer hw key' := by
    dsimp only
    rw [Function.update_apply]
    split_ifs
    · intro hsame
      exact hfree w writer hw (Option.some.inj hsame).symm
    · exact h.apart w writer hw key'
  alone := h.alone
  held := h.held

/-- A reader holds a file that no writer has, and has received what it starts with. -/
theorem Sound.hold (h : Sound d) (r : R) [DecidableEq R] {reader : Option (Reader B)}
    (hreader : ∀ x ∈ reader, x.file < d.files ∧ x.received <+: d.content x.file ∧
      ∀ w writer, d.writers w = some writer → writer.file ≠ x.file) :
    Sound { d with readers := Function.update d.readers r reader } where
  placed := h.placed
  written := h.written
  apart := h.apart
  alone := h.alone
  held r' x hx := by
    dsimp only at hx
    rw [Function.update_apply] at hx
    split_ifs at hx
    · exact hreader x hx
    · exact h.held r' x hx

theorem of_update_none [DecidableEq W] {w w' : W} {writer : Writer K P}
    (h : Function.update d.writers w none w' = some writer) :
    w' ≠ w ∧ d.writers w' = some writer := by
  rw [Function.update_apply] at h
  split_ifs at h with hne
  exact ⟨hne, h⟩

/-- Content changes in a file that is in no place and that no reader holds. -/
theorem Shows.change (h : Shows render d s) {file : ℕ} (content : List B)
    (hplace : ∀ key, d.place key ≠ some file)
    (hheld : ∀ r reader, d.readers r = some reader → reader.file ≠ file) :
    Shows render { d with content := Function.update d.content file content } s where
  pending := h.pending
  entries key := by
    rw [← h.entries key]
    apply Option.map_congr
    intro other hother
    apply Function.update_of_ne
    rintro rfl
    exact hplace key hother
  found r := by
    rw [← h.found r]
    apply Option.map_congr
    intro reader hreader
    exact Function.update_of_ne (hheld r reader hreader) ..

theorem Sound.held_ne (h : Sound d) (r : R) (reader : Reader B) (hr : d.readers r = some reader) :
    reader.file ≠ d.files := Nat.ne_of_lt (h.held r reader hr).1

/-- A reader holds what it found. -/
theorem Shows.hold [DecidableEq R] (h : Shows render d s) (r : R) {reader : Option (Reader B)}
    {entry : Option (Entry P B)}
    (hreader : reader.map (fun x => d.content x.file) = entry.map (Entry.content render)) :
    Shows render { d with readers := Function.update d.readers r reader }
      { s with found := Function.update s.found r entry } where
  pending := h.pending
  entries := h.entries
  found r' := by
    dsimp only
    rw [Function.update_apply, Function.update_apply]
    split_ifs
    · exact hreader
    · exact h.found r'

variable [DecidableEq K] [DecidableEq W] [DecidableEq R]

theorem Sound.next (h : Sound d) (event : Event K P B W R) : Sound (event.next d) := by
  cases event with
  | create w key payload =>
    have hmade := h.make []
    constructor
    · exact hmade.placed
    · intro w' writer hw
      dsimp only [Event.next] at hw
      rw [Function.update_apply] at hw
      split_ifs at hw
      · rw [← Option.some.inj hw]
        exact Nat.lt_succ_self _
      · exact hmade.written w' writer hw
    · intro w' writer hw key'
      dsimp only [Event.next] at hw
      rw [Function.update_apply] at hw
      split_ifs at hw
      · rw [← Option.some.inj hw]
        exact h.fresh key'
      · exact h.apart w' writer hw key'
    · intro w₁ writer₁ w₂ writer₂ hw₁ hw₂ hsame
      dsimp only [Event.next] at hw₁ hw₂
      rw [Function.update_apply] at hw₁ hw₂
      split_ifs at hw₁ hw₂ with h₁ h₂ h₂
      · rw [h₁, h₂]
      · rw [← Option.some.inj hw₁] at hsame
        exact absurd hsame.symm (Nat.ne_of_lt (h.written w₂ writer₂ hw₂))
      · rw [← Option.some.inj hw₂] at hsame
        exact absurd hsame (Nat.ne_of_lt (h.written w₁ writer₁ hw₁))
      · exact h.alone w₁ writer₁ w₂ writer₂ hw₁ hw₂ hsame
    · intro r reader hr
      obtain ⟨hfile, hreceived, hother⟩ := hmade.held r reader hr
      refine ⟨hfile, hreceived, fun w' writer hw => ?_⟩
      dsimp only [Event.next] at hw
      rw [Function.update_apply] at hw
      split_ifs at hw
      · rw [← Option.some.inj hw]
        exact (Nat.ne_of_lt (h.held r reader hr).1).symm
      · exact hother w' writer hw
  | write w piece =>
    cases hw : d.writers w with
    | none =>
      simp only [Event.next, hw]
      exact h
    | some writer =>
      simp only [Event.next, hw]
      refine ⟨h.placed, h.written, h.apart, h.alone, fun r reader hr => ?_⟩
      obtain ⟨hfile, hreceived, hother⟩ := h.held r reader hr
      refine ⟨hfile, ?_, hother⟩
      dsimp only
      rw [Function.update_of_ne (hother w writer hw).symm]
      exact hreceived
  | persist w =>
    cases hw : d.writers w with
    | none =>
      simp only [Event.next, hw]
      exact h
    | some writer =>
      simp only [Event.next, hw]
      have hfewer : Sound { d with writers := Function.update d.writers w none } :=
        h.fewer fun w' writer' hw' => (of_update_none hw').2
      apply hfewer.move writer.key (h.written w writer hw)
      intro w' writer' hw' hsame
      obtain ⟨hne, hold⟩ := of_update_none hw'
      exact hne (h.alone w' writer' w writer hold hw hsame)
  | abandon w => exact h.fewer fun w' writer hw' => (of_update_none hw').2
  | replace key content =>
    cases content with
    | none =>
      refine ⟨fun key' file hplace => ?_, h.written, fun w writer hw key' => ?_, h.alone, h.held⟩
      · dsimp only [Event.next] at hplace
        rw [Function.update_apply] at hplace
        split_ifs at hplace
        exact h.placed key' file hplace
      · dsimp only [Event.next]
        rw [Function.update_apply]
        split_ifs
        · simp
        · exact h.apart w writer hw key'
    | some content =>
      apply (h.make content).move key (Nat.lt_succ_self _)
      intro w writer hw
      exact Nat.ne_of_lt (h.written w writer hw)
  | lookUp r key =>
    apply h.hold r
    intro reader hreader
    obtain ⟨file, hplace, rfl⟩ := Option.map_eq_some_iff.mp hreader
    refine ⟨h.placed key file hplace, List.nil_prefix, fun w writer hw hsame => ?_⟩
    exact h.apart w writer hw key (hsame ▸ hplace)
  | receive r count =>
    cases hr : d.readers r with
    | none =>
      simp only [Event.next, hr]
      exact h
    | some reader =>
      simp only [Event.next, hr]
      obtain ⟨hfile, hreceived, hother⟩ := h.held r reader hr
      apply h.hold r
      rintro _ ⟨⟩
      refine ⟨hfile, ?_, hother⟩
      obtain ⟨rest, hcontent⟩ := hreceived
      dsimp only
      rw [← hcontent, List.drop_left, List.prefix_append_right_inj]
      exact List.take_prefix count rest
  | close r => exact h.hold r (by rintro _ ⟨⟩)

/-- A store shows after an event what the event does to it in one step. -/
theorem Shows.next (h : Shows render d s) (hsound : Sound d) {event : Event K P B W R}
    (hallowed : event.Allowed render d) : Shows render (event.next d) (event.atomic s) := by
  have hpending (w : W) : s.pending w = (d.writers w).map fun x => (x.key, x.payload) :=
    (h.pending w).symm
  cases event with
  | create w key payload =>
    have hchange := h.change [] hsound.fresh hsound.held_ne
    refine ⟨fun w' => ?_, hchange.entries, hchange.found⟩
    dsimp only [Event.next, Event.atomic]
    rw [Function.update_apply, Function.update_apply]
    split_ifs
    · rfl
    · exact h.pending w'
  | write w piece =>
    cases hw : d.writers w with
    | none =>
      simp only [Event.next, hw]
      exact h
    | some writer =>
      simp only [Event.next, hw]
      apply h.change _ (hsound.apart w writer hw)
      intro r reader hr
      exact ((hsound.held r reader hr).2.2 w writer hw).symm
  | persist w =>
    cases hw : d.writers w with
    | none =>
      simp only [Event.next, Event.atomic, hpending w, hw, Option.map_none]
      exact h
    | some writer =>
      simp only [Event.next, Event.atomic, hpending w, hw, Option.map_some]
      refine ⟨fun w' => ?_, fun key => ?_, h.found⟩
      · dsimp only
        rw [Function.update_apply, Function.update_apply]
        split_ifs
        · rfl
        · exact h.pending w'
      · dsimp only
        rw [Function.update_apply, Function.update_apply]
        split_ifs
        · have hwhole : d.content writer.file = render writer.payload := hallowed writer hw
          rw [Option.map_some, Option.map_some, hwhole]
          rfl
        · exact h.entries key
  | abandon w =>
    refine ⟨fun w' => ?_, h.entries, h.found⟩
    dsimp only [Event.next, Event.atomic]
    rw [Function.update_apply, Function.update_apply]
    split_ifs
    · rfl
    · exact h.pending w'
  | replace key content =>
    cases content with
    | none =>
      refine ⟨h.pending, fun key' => ?_, h.found⟩
      dsimp only [Event.next, Event.atomic]
      rw [Function.update_apply, Function.update_apply]
      split_ifs
      · rfl
      · exact h.entries key'
    | some content =>
      have hchange := h.change content hsound.fresh hsound.held_ne
      refine ⟨hchange.pending, fun key' => ?_, hchange.found⟩
      dsimp only [Event.next, Event.atomic]
      rw [Function.update_apply d.place, Function.update_apply s.entries]
      split_ifs
      · rw [Option.map_some, Function.update_self]
        rfl
      · exact hchange.entries key'
  | lookUp r key =>
    apply h.hold r
    rw [Option.map_map]
    exact h.entries key
  | receive r count =>
    cases hr : d.readers r with
    | none =>
      simp only [Event.next, hr]
      exact h
    | some reader =>
      simp only [Event.next, hr]
      refine ⟨h.pending, h.entries, fun r' => ?_⟩
      have hfound := h.found r
      rw [hr] at hfound
      dsimp only [Event.atomic]
      rw [Function.update_apply]
      split_ifs with hsame
      · rw [hsame]
        exact hfound
      · exact h.found r'
  | close r => exact h.hold r rfl

/-- Allowed events, one after another. -/
def Runs (render : P → List B) (d : Disk K P B W R) (events : List (Event K P B W R))
    (d' : Disk K P B W R) : Prop :=
  Transition.Run (Transition.Guarded (Event.Allowed render) fun d event d' => event.next d = d')
    d events d'

/-- The store after events. -/
def after (s : Store K P B W R) (events : List (Event K P B W R)) : Store K P B W R :=
  events.foldl (fun s event => event.atomic s) s

theorem shows_of_runs {d' : Disk K P B W R} {events : List (Event K P B W R)}
    (hruns : Runs render d events d') (hsound : Sound d) (h : Shows render d s) :
    Sound d' ∧ Shows render d' (after s events) := by
  refine hruns.history (P := fun events d' => Sound d' ∧ Shows render d' (after s events))
    ⟨hsound, h⟩ fun events u event v hu hstep => ?_
  obtain ⟨hallowed, rfl⟩ := hstep
  refine ⟨hu.1.next event, ?_⟩
  unfold after
  rw [List.foldl_append]
  exact hu.2.next hu.1 hallowed

theorem after_append (s : Store K P B W R) (events more : List (Event K P B W R)) :
    after s (events ++ more) = after (after s events) more := List.foldl_append ..

/-- No event puts anything from elsewhere in a place, or takes anything away. -/
def Event.Own : Event K P B W R → Prop
  | replace _ _ => False
  | _ => True

/-- What stands under a key was put there by a writer that was created for it and moved its file, where
nothing else happens to the places. -/
theorem entry_after {events : List (Event K P B W R)} (hown : ∀ event ∈ events, event.Own)
    (hempty : ∀ key, s.entries key = none) (hpending : ∀ w, s.pending w = none) :
    (∀ w key payload, (after s events).pending w = some (key, payload) →
      Begun events w key payload) ∧
    ∀ key entry, (after s events).entries key = some entry →
      ∃ w payload, entry = .put payload ∧ Moved events w key payload := by
  induction events using List.reverseRecOn with
  | nil =>
    constructor
    · intro w key payload h
      cases (hpending w).symm.trans h
    · intro key entry h
      cases (hempty key).symm.trans h
  | append_singleton events event ih =>
    obtain ⟨hwriters, hentries⟩ := ih fun e he => hown e (List.mem_append_left _ he)
    have hevent := hown event (by simp)
    have hentries' : ∀ key entry, (after s events).entries key = some entry →
        ∃ w payload, entry = .put payload ∧ Moved (events ++ [event]) w key payload := by
      intro key entry h
      obtain ⟨w, payload, hentry, hmoved⟩ := hentries key entry h
      exact ⟨w, payload, hentry, hmoved.snoc event⟩
    have hothers : ∀ w, ¬event.Turns w → ∀ key payload,
        (after s events).pending w = some (key, payload) →
          Begun (events ++ [event]) w key payload :=
      fun w hturns key payload h => (hwriters w key payload h).snoc hturns
    rw [after_append]
    show (∀ w key payload, (event.atomic (after s events)).pending w = some (key, payload) → _) ∧
      ∀ key entry, (event.atomic (after s events)).entries key = some entry → _
    cases event with
    | create w key payload =>
      refine ⟨fun w' key' payload' h => ?_, hentries'⟩
      dsimp only [Event.atomic] at h
      rw [Function.update_apply] at h
      split_ifs at h with hsame
      · obtain ⟨rfl, rfl⟩ := Prod.mk.inj (Option.some.inj h)
        rw [hsame]
        exact ⟨events, [], rfl, by simp⟩
      · exact hothers w' (Ne.symm hsame) key' payload' h
    | persist w =>
      cases hw : (after s events).pending w with
      | none =>
        simp only [Event.atomic, hw]
        refine ⟨fun w' key' payload' h => ?_, hentries'⟩
        have hne : w ≠ w' := by
          rintro rfl
          cases hw.symm.trans h
        exact hothers w' hne key' payload' h
      | some put =>
        obtain ⟨key, payload⟩ := put
        simp only [Event.atomic, hw]
        constructor
        · intro w' key' payload' h
          rw [Function.update_apply] at h
          split_ifs at h with hsame
          exact hothers w' (Ne.symm hsame) key' payload' h
        · intro key' entry h
          rw [Function.update_apply] at h
          split_ifs at h with hsame
          · refine ⟨w, payload, (Option.some.inj h).symm, events, [], rfl, ?_⟩
            rw [hsame]
            exact hwriters w key payload hw
          · exact hentries' key' entry h
    | abandon w =>
      refine ⟨fun w' key payload h => ?_, hentries'⟩
      dsimp only [Event.atomic] at h
      rw [Function.update_apply] at h
      split_ifs at h with hsame
      exact hothers w' (Ne.symm hsame) key payload h
    | replace key content => exact hevent.elim
    | write w piece => exact ⟨fun w' => hothers w' id, hentries'⟩
    | lookUp r key => exact ⟨fun w' => hothers w' id, hentries'⟩
    | receive r count => exact ⟨fun w' => hothers w' id, hentries'⟩
    | close r => exact ⟨fun w' => hothers w' id, hentries'⟩

/-- What was put under a key is found there from then on, if not as it was put, where nothing else
happens to the places. -/
theorem entries_kept {events : List (Event K P B W R)} (hown : ∀ event ∈ events, event.Own) {key : K}
    (h : s.entries key ≠ none) : (after s events).entries key ≠ none := by
  induction events generalizing s with
  | nil => exact h
  | cons event events ih =>
    obtain ⟨hevent, hrest⟩ := List.forall_mem_cons.mp hown
    show (after (event.atomic s) events).entries key ≠ none
    apply ih hrest
    cases event with
    | persist w =>
      cases hw : s.pending w with
      | none =>
        simp only [Event.atomic, hw]
        exact h
      | some put =>
        simp only [Event.atomic, hw]
        rw [Function.update_apply]
        split_ifs
        · simp
        · exact h
    | replace key content => exact hevent.elim
    | create | write | abandon | lookUp | receive | close => exact h

/-- The event is neither a look-up nor the end of reader `r`. -/
def Event.Passes (r : R) : Event K P B W R → Prop
  | lookUp r' _ => r' ≠ r
  | close r' => r' ≠ r
  | _ => True

theorem found_after {r : R} {events : List (Event K P B W R)} (h : ∀ event ∈ events, event.Passes r)
    (s : Store K P B W R) : (after s events).found r = s.found r := by
  induction events generalizing s with
  | nil => rfl
  | cons event events ih =>
    obtain ⟨hevent, hrest⟩ := List.forall_mem_cons.mp h
    have hstep : (event.atomic s).found r = s.found r := by
      cases event with
      | lookUp r' key => exact Function.update_of_ne (Ne.symm hevent) ..
      | close r' => exact Function.update_of_ne (Ne.symm hevent) ..
      | persist w =>
        unfold Event.atomic
        dsimp only
        split <;> rfl
      | _ => rfl
    exact (ih hrest (event.atomic s)).trans hstep

/-- What a reader has received when nothing is left is what stood under the key when it looked: all of
it, as it was put, whoever wrote or moved files meanwhile. -/
theorem received_whole {d' : Disk K P B W R} {before between : List (Event K P B W R)} {r : R} {key : K}
    (hruns : Runs render d (before ++ .lookUp r key :: between) d') (hsound : Sound d)
    (h : Shows render d s) (hbetween : ∀ event ∈ between, event.Passes r) :
    (d'.readers r = none ↔ (after s before).entries key = none) ∧
      ∀ reader, d'.readers r = some reader → d'.content reader.file = reader.received →
        ((after s before).entries key).map (Entry.content render) = some reader.received := by
  obtain ⟨-, hshows⟩ := shows_of_runs hruns hsound h
  have hsplit : after s (before ++ .lookUp r key :: between) =
      after (Event.atomic (after s before) (.lookUp r key)) between := by
    unfold after
    rw [List.foldl_append, List.foldl_cons]
  have hfound := hshows.found r
  rw [hsplit, found_after hbetween] at hfound
  dsimp only [Event.atomic] at hfound
  rw [Function.update_self] at hfound
  constructor
  · constructor
    · intro hnone
      rw [hnone, Option.map_none] at hfound
      exact Option.map_eq_none_iff.mp hfound.symm
    · intro hnone
      rw [hnone, Option.map_none] at hfound
      exact Option.map_eq_none_iff.mp hfound
  · intro reader hreader hwhole
    rw [← hfound, hreader, Option.map_some, hwhole]

end AtomicReplace
