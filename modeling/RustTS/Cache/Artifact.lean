import Mathlib.Logic.Equiv.List
import RustTS.Cache.Store

/-! What a cache file has to be for `load` to return a module of it: damaged files are misses. -/
namespace RustTS.Cache
open Runner.ModuleLoader (Text)
open Compiler

/-- The UTF-8 bytes of a text. -/
def utf8Bytes (text : Text) : ByteArray := (String.ofList text).toByteArray

/-- `fs::read_to_string` of a file with this content. -/
def readToString (content : ByteArray) : Option Text := content.utf8Decode?.map Array.toList

theorem utf8Bytes_append (a b : Text) : utf8Bytes (a ++ b) = utf8Bytes a ++ utf8Bytes b := by
  simp [utf8Bytes]

theorem readToString_eq_some_iff {content : ByteArray} {text : Text} :
    readToString content = some text ↔ content = utf8Bytes text := by
  constructor
  · intro h
    obtain ⟨chars, hdecode, rfl⟩ := Option.map_eq_some_iff.mp h
    have hsome : content.utf8Decode?.isSome := by
      rw [hdecode]
      rfl
    have hget : content.utf8Decode?.get hsome = chars := by simp [hdecode]
    rw [utf8Bytes, String.toByteArray_ofList, ← hget]
    exact ByteArray.utf8Encode_get_utf8Decode?.symm
  · rintro rfl
    simp [readToString, utf8Bytes]

private theorem utf8Bytes_injective {a b : Text} (h : utf8Bytes a = utf8Bytes b) : a = b :=
  String.ofList_injective (String.toByteArray_inj.mp h)

theorem prefix_of_utf8Bytes {a b : Text} {rest : ByteArray} (h : utf8Bytes a ++ rest = utf8Bytes b) :
    a <+: b := by
  simp only [utf8Bytes, String.toByteArray_ofList] at h
  exact List.isPrefix_of_utf8Encode_append_eq_utf8Encode rest h

theorem splitOnce_eq_some_iff {separator : Char} {text head rest : Text} :
    splitOnce separator text = some (head, rest) ↔
      text = head ++ separator :: rest ∧ separator ∉ head := by
  constructor
  · intro h
    induction text generalizing head with
    | nil => cases h
    | cons c text ih =>
      unfold splitOnce at h
      split_ifs at h with hc
      · cases h
        exact ⟨by rw [hc]; rfl, List.not_mem_nil⟩
      · obtain ⟨⟨tail, after⟩, hsplit, heq⟩ := Option.map_eq_some_iff.mp h
        cases heq
        obtain ⟨rfl, hmem⟩ := ih hsplit
        refine ⟨rfl, fun hin => ?_⟩
        rcases List.mem_cons.mp hin with heq | hin
        · exact hc heq.symm
        · exact hmem hin
  · rintro ⟨rfl, hmem⟩
    exact splitOnce_append hmem rest

namespace Format

variable (format : Format)

/-- The file that `store` writes for a module. -/
def storeFile (m : TranspiledModule) : ByteArray := utf8Bytes (format.artifact m)

/-- `ScriptCache::load` of a file with this content. -/
def loadFile (content : ByteArray) : Option TranspiledModule :=
  (readToString content).bind format.load

/-- The first line of the artifact of a payload, with its line break. -/
def artifactLine (payload : Text) : Text := artifactHeader ++ format.hash payload ++ ['\n']

variable {format}

theorem verifiedPayload_eq_some_iff (h : format.Lossless) {artifact payload : Text} :
    format.verifiedPayload artifact = some payload ↔
      artifact = format.artifactLine payload ++ payload := by
  have hshape : format.artifactLine payload ++ payload =
      (artifactHeader ++ format.hash payload) ++ '\n' :: payload := by simp [artifactLine]
  have hline : '\n' ∉ artifactHeader ++ format.hash payload := by
    rw [List.mem_append]
    rintro (hheader | hhash)
    · exact absurd hheader (by decide)
    · exact h.hash _ hhash
  rw [hshape]
  unfold verifiedPayload
  constructor
  · intro hverified
    obtain ⟨⟨header, rest⟩, hsplit, hverified⟩ := Option.bind_eq_some_iff.mp hverified
    obtain ⟨expected, hprefix, hverified⟩ := Option.bind_eq_some_iff.mp hverified
    split_ifs at hverified with hhash
    obtain rfl := Option.some.inj hverified
    obtain ⟨start, rfl, hheader⟩ := List.dropPrefix?_eq_some_iff.mp hprefix
    rw [(splitOnce_eq_some_iff.mp hsplit).1, hhash, beq_iff_eq.mp hheader]
  · rintro rfl
    rw [splitOnce_append hline]
    simp only [Option.bind_eq_bind, Option.bind_some, Runner.ModuleLoader.dropPrefix?_append]
    exact if_pos trivial

theorem artifactLine_append_inj (h : format.Lossless) {a b rest rest' : Text}
    (heq : format.artifactLine a ++ rest = format.artifactLine b ++ rest') :
    format.hash a = format.hash b ∧ rest = rest' := by
  have hshape (payload rest : Text) : format.artifactLine payload ++ rest =
      artifactHeader ++ (format.hash payload ++ '\n' :: rest) := by simp [artifactLine]
  rw [hshape, hshape] at heq
  have hsplit := congrArg (splitOnce '\n') (List.append_cancel_left heq)
  rw [splitOnce_append (h.hash a), splitOnce_append (h.hash b)] at hsplit
  exact Prod.mk.inj (Option.some.inj hsplit)

theorem loadFile_eq_some_iff (h : format.Lossless) {content : ByteArray} {m : TranspiledModule} :
    format.loadFile content = some m ↔ ∃ mappings, '\n' ∉ mappings ∧
      format.decode mappings = some m.sourceMap ∧
      content = utf8Bytes (format.artifactLine (mappings ++ '\n' :: m.js) ++
        (mappings ++ '\n' :: m.js)) := by
  constructor
  · intro hload
    obtain ⟨artifact, hread, hload⟩ := Option.bind_eq_some_iff.mp hload
    obtain ⟨payload, hverified, hmodule⟩ := Option.bind_eq_some_iff.mp hload
    obtain ⟨⟨mappings, js⟩, hsplit, hmodule⟩ := Option.bind_eq_some_iff.mp hmodule
    obtain ⟨sourceMap, hdecode, hmodule⟩ := Option.bind_eq_some_iff.mp hmodule
    obtain rfl := Option.some.inj hmodule
    obtain ⟨rfl, hline⟩ := splitOnce_eq_some_iff.mp hsplit
    obtain rfl := (verifiedPayload_eq_some_iff h).mp hverified
    exact ⟨mappings, hline, hdecode, readToString_eq_some_iff.mp hread⟩
  · rintro ⟨mappings, hline, hdecode, hcontent⟩
    have hverified : format.verifiedPayload (format.artifactLine (mappings ++ '\n' :: m.js) ++
        (mappings ++ '\n' :: m.js)) = some (mappings ++ '\n' :: m.js) :=
      (verifiedPayload_eq_some_iff h).mpr rfl
    rw [loadFile, readToString_eq_some_iff.mpr hcontent, Option.bind_some, load, hverified,
      Option.bind_some, transpiledModule, splitOnce_append hline]
    simp only [Option.bind_eq_bind, Option.bind_some, hdecode]
    rfl

theorem content_of_loadFile (h : format.Lossless) {content : ByteArray} {m : TranspiledModule}
    (hload : format.loadFile content = some m) :
    ∃ payload, content = utf8Bytes (format.artifactLine payload ++ payload) := by
  obtain ⟨mappings, -, -, hcontent⟩ := (loadFile_eq_some_iff h).mp hload
  exact ⟨_, hcontent⟩

theorem storeFile_eq (m : TranspiledModule) : format.storeFile m =
    utf8Bytes (format.artifactLine (format.artifactPayload m) ++ format.artifactPayload m) := by
  simp [storeFile, artifact, artifactLine]

/-- No other text has the hash of the payload of this module. -/
def CollisionFree (format : Format) (m : TranspiledModule) : Prop :=
  ∀ payload, format.hash payload = format.hash (format.artifactPayload m) →
    payload = format.artifactPayload m

theorem loadFile_truncated (h : format.Lossless) {m : TranspiledModule}
    (hfree : CollisionFree format m) {content rest : ByteArray}
    (hcontent : content ++ rest = format.storeFile m) (hrest : rest ≠ ByteArray.empty) :
    format.loadFile content = none := by
  rw [Option.eq_none_iff_forall_ne_some]
  intro other hload
  obtain ⟨payload, rfl⟩ := content_of_loadFile h hload
  rw [storeFile_eq] at hcontent
  obtain ⟨tail, htail⟩ := prefix_of_utf8Bytes hcontent
  rw [List.append_assoc] at htail
  obtain ⟨hhash, -⟩ := artifactLine_append_inj h htail
  obtain rfl := hfree payload hhash
  apply hrest
  rw [← ByteArray.append_right_inj, hcontent, ByteArray.append_empty]

theorem loadFile_changed (h : format.Lossless) {m : TranspiledModule}
    (hfree : CollisionFree format m) {bytes : ByteArray}
    (hbytes : bytes ≠ utf8Bytes (format.artifactPayload m)) :
    format.loadFile (utf8Bytes (format.artifactLine (format.artifactPayload m)) ++ bytes) =
      none := by
  rw [Option.eq_none_iff_forall_ne_some]
  intro other hload
  obtain ⟨payload, hcontent⟩ := content_of_loadFile h hload
  obtain ⟨tail, htail⟩ := prefix_of_utf8Bytes hcontent
  obtain ⟨hhash, -⟩ := artifactLine_append_inj h htail
  obtain rfl := hfree payload hhash.symm
  rw [utf8Bytes_append] at hcontent
  exact hbytes ((ByteArray.append_right_inj _).mp hcontent)

private theorem loadFile_other_header (h : format.Lossless) {content : ByteArray}
    (hheader : ∀ rest, content ≠ utf8Bytes artifactHeader ++ rest) :
    format.loadFile content = none := by
  rw [Option.eq_none_iff_forall_ne_some]
  intro m hload
  obtain ⟨payload, rfl⟩ := content_of_loadFile h hload
  rw [artifactLine, List.append_assoc, List.append_assoc, utf8Bytes_append] at hheader
  exact hheader _ rfl

theorem loadFile_storeFile (h : format.Lossless) (m : TranspiledModule) :
    format.loadFile (format.storeFile m) = some m :=
  (loadFile_eq_some_iff h).mpr
    ⟨format.encode m.sourceMap, h.encode _, h.decode _, storeFile_eq m⟩

/-- Stored modules load again. A file loads as a module exactly where it is the header, the hash of
the rest and a rest whose first line decodes; a proper truncation of an artifact, one with another
payload and one with another header do not. -/
theorem artifacts_verify (h : format.Lossless) :
    (∀ m, format.loadFile (format.storeFile m) = some m) ∧
    (∀ content m, format.loadFile content = some m ↔ ∃ mappings, '\n' ∉ mappings ∧
      format.decode mappings = some m.sourceMap ∧
      content = utf8Bytes (format.artifactLine (mappings ++ '\n' :: m.js) ++
        (mappings ++ '\n' :: m.js))) ∧
    (∀ m, CollisionFree format m →
      (∀ content rest, content ++ rest = format.storeFile m → rest ≠ ByteArray.empty →
        format.loadFile content = none) ∧
      ∀ bytes, bytes ≠ utf8Bytes (format.artifactPayload m) →
        format.loadFile (utf8Bytes (format.artifactLine (format.artifactPayload m)) ++ bytes) =
          none) ∧
    ∀ content, (∀ rest, content ≠ utf8Bytes artifactHeader ++ rest) →
      format.loadFile content = none := by
  refine ⟨loadFile_storeFile h, fun _ _ => loadFile_eq_some_iff h, fun m hfree => ⟨?_, ?_⟩,
    fun _ => loadFile_other_header h⟩
  · exact fun _ _ => loadFile_truncated h hfree
  · exact fun _ => loadFile_changed h hfree

/-- A module without mappings. -/
def sampleModule : TranspiledModule := ⟨"export const answer = 42;".toList, ⟨[]⟩⟩

/-- The hash of the payload of the sample as BLAKE3 has it, and other hashes of other texts; maps as
texts of one letter, empty for an empty map. -/
def sampleFormat : Format where
  hash text :=
    if text = "\nexport const answer = 42;".toList then
      "b936eca86650a7c4ff2f57552e80beffea33383f2dd0236d58815f2358bceef5".toList
    else []
  encode map := List.replicate (Encodable.encode (map.mappings.map fun m =>
    (m.jsLine, m.jsColumn, m.tsLine, m.tsColumn))) 'A'
  decode text := (Encodable.decode (α := List (Nat × Nat × Nat × Nat)) text.length).map
    fun mappings => ⟨mappings.map fun m => ⟨m.1, m.2.1, m.2.2.1, m.2.2.2⟩⟩

theorem sampleFormat_lossless : sampleFormat.Lossless where
  hash text := by
    unfold sampleFormat
    dsimp only
    split <;> decide
  encode map := by
    intro h
    cases List.eq_of_mem_replicate h
  decode map := by
    show Option.map _ (Encodable.decode (List.length (List.replicate _ _))) = _
    rw [List.length_replicate, Encodable.encodek, Option.map_some, List.map_map]
    exact congrArg (fun l => some (SourceMap.mk l)) (List.map_id _)

private theorem sampleFormat_collisionFree : CollisionFree sampleFormat sampleModule := by
  intro payload h
  by_contra hne
  have hpayload : sampleFormat.artifactPayload sampleModule =
      "\nexport const answer = 42;".toList := rfl
  rw [hpayload] at h hne
  simp only [sampleFormat, if_neg hne, if_true] at h
  cases h

/-- The sample loads from its file, and not without its last character. -/
theorem artifacts_verify_sample :
    sampleFormat.loadFile (sampleFormat.storeFile sampleModule) = some sampleModule ∧
      sampleFormat.loadFile (utf8Bytes (sampleFormat.artifactLine "\nexport const answer = 42;".toList)
        ++ utf8Bytes "\nexport const answer = 42".toList) = none := by
  obtain ⟨hload, -, hdamaged, -⟩ := artifacts_verify sampleFormat_lossless
  refine ⟨hload sampleModule, (hdamaged sampleModule sampleFormat_collisionFree).2 _ ?_⟩
  intro h
  exact absurd (utf8Bytes_injective h) (by decide)

end Format

end RustTS.Cache
