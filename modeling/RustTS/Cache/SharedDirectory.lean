import RustTS.Cache.Artifact
import RustTS.Lib.AtomicReplace

/-! A cache directory that many processes share. Whatever they write, and wherever they fail, a load
reads an artifact that was stored whole, the one that stood under the key when the load began. -/
namespace RustTS.Cache
open Runner.ModuleLoader (Text)
open Compiler

/-- The bytes of a file, as a writer writes them. -/
def fileBytes (content : ByteArray) : List UInt8 := content.data.toList

def ofBytes (bytes : List UInt8) : ByteArray := ⟨bytes.toArray⟩

private theorem ofBytes_fileBytes (content : ByteArray) : ofBytes (fileBytes content) = content := by
  unfold ofBytes fileBytes
  rw [Array.toArray_toList]

/-- The directory, with stores and loads under way. -/
abbrev CacheDisk (W R : Type) := AtomicReplace.Disk ModuleKey TranspiledModule UInt8 W R

/-- A step of a store or of a load, or what someone else does to the directory. A store creates a
temporary file, writes the artifact, in as many pieces as the system takes it, and moves the file to
the path of its key. -/
abbrev CacheEvent (W R : Type) := AtomicReplace.Event ModuleKey TranspiledModule UInt8 W R

namespace Format

variable (format : Format) {W R : Type}

/-- What a store writes. -/
def artifactBytes (m : TranspiledModule) : List UInt8 := fileBytes (format.storeFile m)

/-- What `load` returns of the file it read, or where there is none. -/
def loaded (file : Option (List UInt8)) : Option TranspiledModule :=
  file.bind fun bytes => format.loadFile (ofBytes bytes)

/-- What `load` returns where a module was stored, or where something else has taken its place. -/
def loadEntry : AtomicReplace.Entry TranspiledModule UInt8 → Option TranspiledModule
  | .put m => some m
  | .foreign bytes => format.loadFile (ofBytes bytes)

variable {format}

private theorem loaded_content (h : format.Lossless) (entry : AtomicReplace.Entry TranspiledModule UInt8) :
    format.loaded (some (entry.content format.artifactBytes)) = format.loadEntry entry := by
  cases entry with
  | put m =>
    show format.loadFile (ofBytes (fileBytes (format.storeFile m))) = some m
    rw [ofBytes_fileBytes, loadFile_storeFile h]
  | foreign bytes => rfl

end Format

/-- A directory in which no store and no load is under way. -/
structure Idle {W R : Type} (d : CacheDisk W R) : Prop where
  placed : ∀ key file, d.place key = some file → file < d.files
  writers : ∀ w, d.writers w = none
  readers : ∀ r, d.readers r = none

/-- What a directory holds in which nothing is under way. -/
def holdings {W R : Type} (d : CacheDisk W R) :
    AtomicReplace.Store ModuleKey TranspiledModule UInt8 W R where
  pending _ := none
  entries key := (d.place key).map fun file => .foreign (d.content file)
  found _ := none

theorem Idle.shows {W R : Type} {d : CacheDisk W R} (h : Idle d) (render : TranspiledModule → List UInt8) :
    AtomicReplace.Shows render d (holdings d) where
  pending w := by
    rw [h.writers w]
    rfl
  entries key := by
    unfold holdings
    dsimp only
    rw [Option.map_map]
    rfl
  found r := by
    rw [h.readers r]
    rfl

section
variable {format : Format} {W R : Type} [DecidableEq W] [DecidableEq R]
  {d d' : CacheDisk W R} {before between : List (CacheEvent W R)} {r : R} {key : ModuleKey}

/-- A load that has read its file to the end returns what a directory would in which stores and loads
take one step each, and the load takes it when it opens the file. Where only stores touch the
directory, it returns a module that a store of its key put there whole, and some module once a store
of its key was over. -/
theorem load_atomic (h : format.Lossless) (hidle : Idle d)
    (hruns : AtomicReplace.Runs format.artifactBytes d (before ++ .lookUp r key :: between) d')
    (hbetween : ∀ event ∈ between, event.Passes r)
    (hread : ∀ reader, d'.readers r = some reader → d'.content reader.file = reader.received) :
    format.loaded ((d'.readers r).map (·.received)) =
        ((AtomicReplace.after (holdings d) before).entries key).bind format.loadEntry ∧
      ((∀ event ∈ before, event.Own) → (∀ key, d.place key = none) →
        (∀ m, format.loaded ((d'.readers r).map (·.received)) = some m →
          ∃ w, AtomicReplace.Moved before w key m) ∧
        ∀ earlier w m later, before = earlier ++ .persist w :: later →
          (AtomicReplace.after (holdings d) earlier).pending w = some (key, m) →
          format.loaded ((d'.readers r).map (·.received)) ≠ none) := by
  have hsound := AtomicReplace.sound_idle hidle.placed hidle.writers hidle.readers
  have hshows := hidle.shows format.artifactBytes
  obtain ⟨hnone, hsome⟩ := AtomicReplace.received_whole hruns hsound hshows hbetween
  have hloaded : format.loaded ((d'.readers r).map (·.received)) =
      ((AtomicReplace.after (holdings d) before).entries key).bind format.loadEntry := by
    cases hreader : d'.readers r with
    | none =>
      rw [hnone.mp hreader]
      rfl
    | some reader =>
      obtain ⟨entry, hentry, hreceived⟩ :=
        Option.map_eq_some_iff.mp (hsome reader hreader (hread reader hreader))
      rw [hentry, Option.map_some, ← hreceived, Format.loaded_content h, Option.bind_some]
  refine ⟨hloaded, fun hown hempty => ?_⟩
  have hentries (key : ModuleKey) : (holdings d).entries key = none := by
    unfold holdings
    dsimp only
    rw [hempty key]
    rfl
  have hput := (AtomicReplace.entry_after hown hentries fun _ => rfl).2
  rw [hloaded]
  constructor
  · intro m hm
    obtain ⟨entry, hentry, hmodule⟩ := Option.bind_eq_some_iff.mp hm
    obtain ⟨w, payload, rfl, hmoved⟩ := hput key entry hentry
    obtain rfl := Option.some.inj hmodule
    exact ⟨w, hmoved⟩
  · intro earlier w m later hbefore hpending
    have hstored : (AtomicReplace.after (holdings d) before).entries key ≠ none := by
      rw [hbefore, AtomicReplace.after_append]
      show (AtomicReplace.after (AtomicReplace.Event.atomic _ (.persist w)) later).entries key ≠ none
      apply AtomicReplace.entries_kept
      · intro event hevent
        apply hown event
        rw [hbefore]
        simp [hevent]
      · unfold AtomicReplace.Event.atomic
        dsimp only
        rw [hpending]
        dsimp only
        rw [Function.update_self]
        simp
    obtain ⟨entry, hentry⟩ := Option.ne_none_iff_exists'.mp hstored
    obtain ⟨w', payload, rfl, -⟩ := hput key entry hentry
    rw [hentry]
    simp [Format.loadEntry]

end

def emptyDisk : CacheDisk ℕ ℕ := ⟨0, fun _ => [], fun _ => none, fun _ => none, fun _ => none⟩

def sampleKey : ModuleKey := moduleCacheKey "export const answer: number = 42;".toList "ts".toList

/-- A store in two pieces. -/
def sampleStore (bytes : List UInt8) : List (CacheEvent ℕ ℕ) :=
  [.create 0 sampleKey Format.sampleModule, .write 0 (bytes.take 20), .write 0 (bytes.drop 20),
    .persist 0]

/-- A load that begins when the store is over. -/
def sampleLoad (bytes : List UInt8) : List (CacheEvent ℕ ℕ) :=
  [.lookUp 0 sampleKey, .receive 0 bytes.length]

def storedAndLoaded (bytes : List UInt8) : CacheDisk ℕ ℕ :=
  (sampleStore bytes ++ sampleLoad bytes).foldl (fun d event => event.next d) emptyDisk

/-- The load returns what was stored. -/
theorem load_atomic_sample :
    Format.sampleFormat.loaded (((storedAndLoaded (Format.sampleFormat.artifactBytes
      Format.sampleModule)).readers 0).map (·.received)) = some Format.sampleModule := by
  have hbytes : ∃ bytes, bytes = Format.sampleFormat.artifactBytes Format.sampleModule := ⟨_, rfl⟩
  obtain ⟨bytes, hbytes⟩ := hbytes
  rw [← hbytes]
  have hidle : Idle emptyDisk := ⟨by rintro _ _ ⟨⟩, fun _ => rfl, fun _ => rfl⟩
  have hwritten : bytes.take 20 ++ bytes.drop 20 = bytes := List.take_append_drop 20 bytes
  have hruns : AtomicReplace.Runs Format.sampleFormat.artifactBytes emptyDisk
      (sampleStore bytes ++ .lookUp 0 sampleKey :: [.receive 0 bytes.length])
      (storedAndLoaded bytes) := by
    refine .cons ⟨rfl, rfl⟩ (.cons ⟨?_, rfl⟩ (.cons ⟨?_, rfl⟩ (.cons ⟨?_, rfl⟩
      (.cons ⟨trivial, rfl⟩ (.cons ⟨trivial, rfl⟩ (.nil _))))))
    · intro writer hwriter
      obtain rfl := Option.some.inj hwriter
      rw [← hbytes]
      exact List.take_prefix 20 bytes
    · intro writer hwriter
      obtain rfl := Option.some.inj hwriter
      show bytes.take 20 ++ bytes.drop 20 <+: _
      rw [hwritten, hbytes]
    · intro writer hwriter
      obtain rfl := Option.some.inj hwriter
      show bytes.take 20 ++ bytes.drop 20 = _
      rw [hwritten, hbytes]
  have hread : ∀ reader, (storedAndLoaded bytes).readers 0 = some reader →
      (storedAndLoaded bytes).content reader.file = reader.received := by
    intro reader hreader
    obtain rfl := Option.some.inj hreader
    show bytes.take 20 ++ bytes.drop 20 = (bytes.take 20 ++ bytes.drop 20).take bytes.length
    rw [hwritten, List.take_length]
  rw [(load_atomic Format.sampleFormat_lossless hidle hruns (by simp [AtomicReplace.Event.Passes])
    hread).1]
  rfl

end RustTS.Cache
