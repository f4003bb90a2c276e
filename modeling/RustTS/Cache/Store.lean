import RustTS.Compiler.Service

/-! Cache keys of transpiled modules, and the artifacts that keep them on disk. -/
namespace RustTS.Cache
open Runner.ModuleLoader (Text)
open Compiler

/-- What the hash of `module_cache_key` is of, the versions of this build apart. -/
structure ModuleKey where
  sourceType : Text
  source : Text
  deriving DecidableEq, Repr

def moduleCacheKey (source sourceType : Text) : ModuleKey := ⟨sourceType, source⟩

/-- `str::split_once` at a character. -/
def splitOnce (separator : Char) : Text → Option (Text × Text)
  | [] => none
  | c :: text =>
    if c = separator then some ([], text)
    else (splitOnce separator text).map fun (head, rest) => (c :: head, rest)

theorem splitOnce_append {separator : Char} {head : Text} (h : separator ∉ head) (rest : Text) :
    splitOnce separator (head ++ separator :: rest) = some (head, rest) := by
  induction head with
  | nil => exact if_pos rfl
  | cons c head ih =>
    have hc : c ≠ separator := fun hc => h (hc ▸ List.mem_cons_self)
    have hhead : separator ∉ head := fun hmem => h (List.mem_cons_of_mem c hmem)
    show splitOnce separator (c :: (head ++ separator :: rest)) = _
    unfold splitOnce
    rw [if_neg hc, ih hhead]
    rfl

/-- The hash of a text in hexadecimal, and a source map as its `mappings` text. -/
structure Format where
  hash : Text → Text
  encode : SourceMap → Text
  decode : Text → Option SourceMap

/-- Hashes and encoded maps are single lines, and an encoded map decodes to itself. -/
structure Format.Lossless (format : Format) : Prop where
  hash (text : Text) : '\n' ∉ format.hash text
  encode (map : SourceMap) : '\n' ∉ format.encode map
  decode (map : SourceMap) : format.decode (format.encode map) = some map

/-- First line of an artifact, before the hash of the rest. -/
def artifactHeader : Text := "// rustts-cache-v3 ".toList

namespace Format

variable (format : Format)

/-- The source map `mappings` line, then the JavaScript. -/
def artifactPayload (m : TranspiledModule) : Text := format.encode m.sourceMap ++ '\n' :: m.js

/-- The file `store` writes. -/
def artifact (m : TranspiledModule) : Text :=
  artifactHeader ++ format.hash (format.artifactPayload m) ++ '\n' :: format.artifactPayload m

def verifiedPayload (artifact : Text) : Option Text := do
  let (header, payload) ← splitOnce '\n' artifact
  let expected ← header.dropPrefix? artifactHeader
  if format.hash payload = expected then some payload else none

/-- Splits a verified payload into its source map and JavaScript. -/
def transpiledModule (payload : Text) : Option TranspiledModule := do
  let (mappings, js) ← splitOnce '\n' payload
  let sourceMap ← format.decode mappings
  pure ⟨js, sourceMap⟩

/-- The module of an artifact, if it verifies. -/
def load (artifact : Text) : Option TranspiledModule :=
  (format.verifiedPayload artifact).bind format.transpiledModule

variable {format}

theorem Lossless.load_artifact (h : format.Lossless) (m : TranspiledModule) :
    format.load (format.artifact m) = some m := by
  have hline : '\n' ∉ artifactHeader ++ format.hash (format.artifactPayload m) := by
    rw [List.mem_append]
    rintro (hheader | hhash)
    · exact absurd hheader (by decide)
    · exact h.hash _ hhash
  have hprefix : (artifactHeader ++ format.hash (format.artifactPayload m)).dropPrefix?
      artifactHeader = some (format.hash (format.artifactPayload m)) :=
    Runner.ModuleLoader.dropPrefix?_append _ _
  have hverified : format.verifiedPayload (format.artifact m) =
      some (format.artifactPayload m) := by
    unfold verifiedPayload artifact
    rw [splitOnce_append hline]
    simp only [Option.bind_eq_bind, Option.bind_some, hprefix]
    exact if_pos trivial
  have hmodule : format.transpiledModule (format.artifactPayload m) = some m := by
    unfold transpiledModule artifactPayload
    rw [splitOnce_append (h.encode _)]
    simp only [Option.bind_eq_bind, Option.bind_some, h.decode]
    rfl
  unfold load
  rw [hverified]
  exact hmodule

end Format

end RustTS.Cache
