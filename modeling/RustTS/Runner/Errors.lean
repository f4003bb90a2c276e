import Mathlib.Data.List.DropRight
import RustTS.Compiler.SourceMap
import RustTS.Lib.Segments
import RustTS.Runner.ModuleLoader.LoadedGraphs

/-! The locations of errors. QuickJS names positions in the JavaScript of modules; the host reads them
as positions in their TypeScript files. -/
namespace RustTS.Compiler
open Runner.ModuleLoader (Text decimal)

/-- `path:line:column` of the TypeScript behind a 1-based JavaScript position. -/
def ModuleOrigin.locate (origin : ModuleOrigin) (jsLine jsColumn : Nat) : Option Text :=
  (origin.sourceMap.originalPosition jsLine jsColumn).map fun position =>
    origin.path ++ ':' :: decimal position.1 ++ ':' :: decimal position.2

end RustTS.Compiler

namespace RustTS.Runner
open Compiler Compiler.SourceMap ModuleLoader

/-- `WorkerModuleStore::locate`: nothing for host modules and unmapped positions. -/
def ModuleLoader.ModuleStore.locate (store : ModuleStore ModuleOrigin) (moduleId : Text)
    (line column : Nat) : Option Text := do
  let origin ← store.origins moduleId
  origin.locate line column

def u32Max : Nat := 2 ^ 32 - 1

/-- `str::parse::<u32>`. -/
def parseU32 (text : Text) : Option Nat := (parseU64 text).filter (· ≤ u32Max)

/-- The location a text starts with: the rest of the line, without the `)` that closes a stack
frame. -/
def locationText (text : Text) : Text :=
  let text := text.rdropWhile fun c => c = '\n' || c = '\r'
  if text.getLast? = some ')' then text.dropLast else text

/-- Maps `module id:line:column` to its TypeScript location. -/
def typescriptLocation (location : Text) (modules : ModuleStore ModuleOrigin) : Option Text := do
  let (position, column) ← Segments.rsplitOnce ':' location
  let (moduleId, line) ← Segments.rsplitOnce ':' position
  modules.locate moduleId (← parseU32 line) (← parseU32 column)

/-- One line of error details, with its runtime module location mapped when it has one. -/
def typescriptLine (line : Text) (modules : ModuleStore ModuleOrigin) : Text :=
  match Segments.splitAt runtimeModulePrefix line with
  | none => line
  | some (before, rest) =>
    let location := locationText rest
    match typescriptLocation location modules with
    | some typescript => before ++ typescript ++ rest.drop location.length
    | none => line

/-- The text with each location that falls in a loaded script module replaced by that in its
TypeScript file. -/
def locationsInTypescript (text : Text) (modules : ModuleStore ModuleOrigin) : Text :=
  if (Segments.splitAt runtimeModulePrefix text).isSome then
    (Segments.splitInclusive '\n' text).flatMap fun line => typescriptLine line modules
  else text

/-- Points the JavaScript locations of an execution error at the TypeScript source. -/
def inTypescript (error : VmError) (modules : ModuleStore ModuleOrigin) : VmError :=
  match error with
  | .execution details =>
    .execution (String.ofList (locationsInTypescript details.toList modules))
  | error => error

/-- A line of error details: a text, or a position in a module, in a stack frame's parentheses or at
the end of the line. -/
inductive ErrorLine
  | plain (text : Text)
  | located (before moduleId : Text) (line column : Nat) (closed : Bool)

namespace ErrorLine

def closing (closed : Bool) : Text := if closed then [')'] else []

/-- The position as QuickJS writes it. -/
def location (moduleId : Text) (line column : Nat) : Text :=
  moduleId ++ ':' :: (decimal line ++ ':' :: decimal column)

def text : ErrorLine → Text
  | plain text => text
  | located before moduleId line column closed =>
    before ++ (location moduleId line column ++ closing closed)

/-- The line with its position where `locate` maps it. -/
def mapped (locate : Text → Nat → Nat → Option Text) : ErrorLine → Text
  | plain text => text
  | located before moduleId line column closed =>
    before ++ ((locate moduleId line column).getD (location moduleId line column) ++ closing closed)

/-- A line with at most one position: that of a script module, by 32-bit numbers. -/
def WellFormed : ErrorLine → Prop
  | plain text => '\n' ∉ text ∧ ¬runtimeModulePrefix <:+: text
  | located before moduleId line column _ =>
    '\n' ∉ before ∧ ¬runtimeModulePrefix <:+: before ∧ '\n' ∉ moduleId ∧
      runtimeModulePrefix <+: moduleId ∧ line ≤ u32Max ∧ column ≤ u32Max

end ErrorLine

/-- The details of lines. -/
def details (lines : List Text) : Text := ['\n'].intercalate lines

private theorem runtimeModulePrefix_borderless : Segments.Borderless runtimeModulePrefix := by
  intro border hne hprefix hsuffix
  have hborder : border ∈ runtimeModulePrefix.inits := (List.mem_inits ..).mpr hprefix
  have hcases : ∀ border ∈ runtimeModulePrefix.inits, border = [] ∨ border = runtimeModulePrefix ∨
      ¬border <:+ runtimeModulePrefix := by decide
  rcases hcases border hborder with hnil | heq | hnot
  · exact absurd hnil hne
  · exact heq
  · exact absurd hsuffix hnot

theorem isDigit_of_mem_decimal {n : Nat} {c : Char} (h : c ∈ decimal n) : c.isDigit = true :=
  Nat.isDigit_of_mem_toDigits (by decide) (by decide) h

theorem not_mem_decimal {n : Nat} {c : Char} (h : c.isDigit = false) : c ∉ decimal n := by
  intro hmem
  rw [isDigit_of_mem_decimal hmem] at h
  cases h

theorem parseU32_decimal {n : Nat} (h : n ≤ u32Max) : parseU32 (decimal n) = some n := by
  have hle : n ≤ u64Max := Nat.le_trans h (by decide)
  rw [parseU32, parseU64_decimal, if_pos hle, Option.filter_some, if_pos (by simpa using h)]

theorem typescriptLine_plain {line : Text} (h : ¬runtimeModulePrefix <:+: line)
    (modules : ModuleStore ModuleOrigin) : typescriptLine line modules = line := by
  unfold typescriptLine
  rw [Segments.splitAt_eq_none.mpr h]

theorem typescriptLocation_location {line column : Nat} (hline : line ≤ u32Max)
    (hcolumn : column ≤ u32Max) (moduleId : Text) (modules : ModuleStore ModuleOrigin) :
    typescriptLocation (ErrorLine.location moduleId line column) modules =
      modules.locate moduleId line column := by
  have hcolon (n : Nat) : ':' ∉ decimal n := not_mem_decimal (by decide)
  have hcut : ErrorLine.location moduleId line column =
      (moduleId ++ ':' :: decimal line) ++ ':' :: decimal column := by
    simp [ErrorLine.location]
  unfold typescriptLocation
  rw [hcut, Segments.rsplitOnce_append (hcolon column)]
  simp only [Option.bind_eq_bind, Option.bind_some]
  rw [Segments.rsplitOnce_append (hcolon line)]
  simp only [Option.bind_some, parseU32_decimal hline, parseU32_decimal hcolumn]

theorem rdropWhile_append_of_last {p : Char → Bool} {text ending : Text} {c : Char}
    (hending : ∀ c ∈ ending, p c = true) (hlast : text.getLast? = some c) (hc : p c = false) :
    (text ++ ending).rdropWhile p = text := by
  obtain ⟨init, rfl⟩ := List.getLast?_eq_some_iff.mp hlast
  induction ending using List.reverseRecOn with
  | nil => rw [List.append_nil, List.rdropWhile_concat_neg _ _ _ (by simp [hc])]
  | append_singleton ending last ih =>
    have hp : p last = true := hending last (by simp)
    rw [← List.append_assoc, List.rdropWhile_concat_pos _ _ _ hp]
    exact ih fun c hmem => hending c (by simp [hmem])

/-- The location is what stands before the end of the frame and of the line. -/
theorem locationText_location {moduleId ending : Text} {line column : Nat} {closed : Bool}
    (hending : ∀ c ∈ ending, c = '\n' ∨ c = '\r') :
    locationText (ErrorLine.location moduleId line column ++ (ErrorLine.closing closed ++ ending)) =
      ErrorLine.location moduleId line column := by
  obtain ⟨digits, digit, hdigits⟩ : ∃ digits digit, decimal column = digits ++ [digit] := by
    have hne : decimal column ≠ [] := Nat.toDigits_ne_nil
    exact ⟨_, _, (List.dropLast_append_getLast hne).symm⟩
  have hdigit : digit.isDigit = true :=
    isDigit_of_mem_decimal (n := column) (by rw [hdigits]; simp)
  have hlast : (ErrorLine.location moduleId line column).getLast? = some digit := by
    have hcut : ErrorLine.location moduleId line column =
        (moduleId ++ ':' :: (decimal line ++ ':' :: digits)) ++ [digit] := by
      simp [ErrorLine.location, hdigits]
    rw [hcut, List.getLast?_concat]
  have hne {c : Char} (hc : c.isDigit = false) : digit ≠ c := by
    rintro rfl
    rw [hdigit] at hc
    cases hc
  have hends : ∀ c ∈ ending, (c = '\n' || c = '\r') = true := by simpa using hending
  unfold locationText
  cases closed with
  | false =>
    have htrim := rdropWhile_append_of_last (p := fun c => c = '\n' || c = '\r') hends hlast
      (by simp [hne])
    have hopen : (ErrorLine.location moduleId line column).getLast? ≠ some ')' := by
      rw [hlast]
      simp [hne]
    rw [ErrorLine.closing, if_neg Bool.false_ne_true, List.nil_append, htrim, if_neg hopen]
  | true =>
    have hparen : (ErrorLine.location moduleId line column ++ [')']).getLast? = some ')' := by simp
    have htrim := rdropWhile_append_of_last (p := fun c => c = '\n' || c = '\r') hends hparen
      (by decide)
    rw [ErrorLine.closing, if_pos rfl, ← List.append_assoc, htrim, if_pos hparen,
      List.dropLast_concat]

/-- One line is mapped where its position is, whatever ends it. -/
theorem typescriptLine_text {line : ErrorLine} (h : line.WellFormed) {ending : Text}
    (hending : ∀ c ∈ ending, c = '\n' ∨ c = '\r') (modules : ModuleStore ModuleOrigin) :
    typescriptLine (line.text ++ ending) modules = line.mapped modules.locate ++ ending := by
  cases line with
  | plain text =>
    obtain ⟨-, hplain⟩ := h
    apply typescriptLine_plain
    intro hoccurs
    apply hplain
    apply Segments.infix_of_infix_append (by decide) _ hoccurs
    intro c hc
    rcases hending c hc with rfl | rfl <;> decide
  | located before moduleId line column closed =>
    obtain ⟨-, hbefore, -, ⟨rest, rfl⟩, hline, hcolumn⟩ := h
    have hcut : (ErrorLine.located before (runtimeModulePrefix ++ rest) line column closed).text ++
        ending = before ++ (runtimeModulePrefix ++ (rest ++ ':' :: (decimal line ++ ':' ::
          decimal column) ++ (ErrorLine.closing closed ++ ending))) := by
      simp [ErrorLine.text, ErrorLine.location]
    have hrest : runtimeModulePrefix ++ (rest ++ ':' :: (decimal line ++ ':' :: decimal column) ++
        (ErrorLine.closing closed ++ ending)) =
        ErrorLine.location (runtimeModulePrefix ++ rest) line column ++
          (ErrorLine.closing closed ++ ending) := by
      simp [ErrorLine.location]
    unfold typescriptLine
    rw [hcut, Segments.splitAt_append runtimeModulePrefix_borderless (by decide) hbefore]
    dsimp only
    rw [hrest, locationText_location hending, typescriptLocation_location hline hcolumn,
      List.drop_left]
    cases hlocate : modules.locate (runtimeModulePrefix ++ rest) line column with
    | none => simp [ErrorLine.mapped, hlocate]
    | some typescript => simp [ErrorLine.mapped, hlocate]

private theorem newline_not_mem_text {line : ErrorLine} (h : line.WellFormed) : '\n' ∉ line.text := by
  cases line with
  | plain text => exact h.1
  | located before moduleId line column closed =>
    obtain ⟨hbefore, -, hmodule, -⟩ := h
    have hdigits (n : Nat) : '\n' ∉ decimal n := not_mem_decimal (by decide)
    cases closed <;>
      simp [ErrorLine.text, ErrorLine.location, ErrorLine.closing, hbefore, hmodule, hdigits]

/-- Error details are mapped line by line: each position where the store maps it, and nothing else. -/
theorem locationsInTypescript_details {lines : List ErrorLine} (h : ∀ line ∈ lines, line.WellFormed)
    (modules : ModuleStore ModuleOrigin) :
    locationsInTypescript (details (lines.map ErrorLine.text)) modules =
      details (lines.map (ErrorLine.mapped modules.locate)) := by
  have hline : ∀ line ∈ lines, typescriptLine line.text modules = line.mapped modules.locate := by
    intro line hmem
    have hmapped := @typescriptLine_text line (h line hmem) [] (by simp) modules
    rwa [List.append_nil, List.append_nil] at hmapped
  have hmapped : (lines.map ErrorLine.text).map (typescriptLine · modules) =
      lines.map (ErrorLine.mapped modules.locate) := by
    rw [List.map_map]
    exact List.map_congr_left hline
  have hends : ∀ line ∈ lines.map ErrorLine.text,
      typescriptLine (line ++ ['\n']) modules = typescriptLine line modules ++ ['\n'] := by
    intro text htext
    obtain ⟨line, hmem, rfl⟩ := List.mem_map.mp htext
    rw [typescriptLine_text (h line hmem) (by simp), hline line hmem]
  have hlines : ∀ line ∈ lines.map ErrorLine.text, '\n' ∉ line := by
    intro text htext
    obtain ⟨line, hmem, rfl⟩ := List.mem_map.mp htext
    exact newline_not_mem_text (h line hmem)
  unfold locationsInTypescript details
  rw [← hmapped]
  split_ifs with hcontains
  · exact Segments.flatMap_splitInclusive hlines hends rfl
  · have hnone : ¬runtimeModulePrefix <:+: ['\n'].intercalate (lines.map ErrorLine.text) := by
      rw [← Segments.splitAt_eq_none]
      simpa using hcontains
    -- no line has a position, so each is left as it is
    have hsame : ∀ text ∈ lines.map ErrorLine.text, typescriptLine text modules = text := by
      intro text htext
      apply typescriptLine_plain
      intro hoccurs
      exact hnone (hoccurs.trans (Segments.infix_intercalate htext))
    rw [List.map_congr_left hsame, List.map_id']

/-- How the host reads a TypeScript position. -/
def positionText (path : Path) (position : Nat × Nat) : Text :=
  path ++ ':' :: decimal position.1 ++ ':' :: decimal position.2

/-- The host reads error details with each position in a loaded module, and no other, as that of the
closest token at or before it in the module's TypeScript, from the insertion of the module's graph
until its removal. -/
theorem error_locations_exact {t t' : LoadedStore ModuleOrigin} {event : StoreEvent ModuleOrigin}
    {g : GraphId} {events : List (StoreEvent ModuleOrigin)} (hreach : t.Reachable)
    (hallowed : t.Allowed event) (hevent : event.Inserts g)
    (hnodup : (event.origins.map Prod.fst).Nodup) (hruns : (t.next event).Runs events t') :
    (∀ lines : List ErrorLine, (∀ line ∈ lines, line.WellFormed) →
      inTypescript (.execution (String.ofList (details (lines.map ErrorLine.text)))) t'.store =
        .execution (String.ofList (details (lines.map (ErrorLine.mapped t'.store.locate))))) ∧
    (∀ moduleId path tokens js, (moduleId, ⟨path, fromCodegen tokens js⟩) ∈ event.origins →
      ByteColumns.Sorted tokens → ∀ line column,
        t'.store.locate (runtimeModuleId g moduleId) (line + 1) (column + 1) =
          if t'.modules g = [] then none
          else (closestToken tokens js line column).map (positionText path)) ∧
    ∀ id line column, (∀ k ∈ t'.used, graphOf id ≠ some k) → t'.store.locate id line column = none := by
  have hgoes : t'.Owned := by
    refine hruns.invariant (fun u _ u' hu hstep => ?_) (hreach.owned.next hallowed)
    obtain ⟨hstep, rfl⟩ := hstep
    exact hu.next hstep
  refine ⟨fun lines hlines => ?_, fun moduleId path tokens js hmem hsorted line column => ?_,
    fun id line column hother => ?_⟩
  · unfold inTypescript
    dsimp only
    rw [String.toList_ofList, locationsInTypescript_details hlines]
  · have horigin := LoadedStore.origins_of_inserted hreach hallowed hevent hnodup hruns hmem
    unfold ModuleStore.locate
    rw [horigin]
    split_ifs with hempty
    · rfl
    · show (ModuleOrigin.locate ⟨path, fromCodegen tokens js⟩ (line + 1) (column + 1)) = _
      unfold ModuleOrigin.locate
      rw [originalPosition_fromCodegen hsorted]
      rfl
  · have hnone : t'.store.origins id = none := by
      by_contra hsome
      obtain ⟨k, hk, hgraph⟩ := hgoes.origins hsome
      exact hother k hk hgraph
    unfold ModuleStore.locate
    rw [hnone]
    rfl

/-- Script `a`, of one line that throws. -/
def throwing : StoreEvent ModuleOrigin :=
  .insertInline ['a'] "throw 1".toList ⟨"a.ts".toList, fromCodegen [⟨0, 0, 1, 2⟩] "throw 1".toList⟩ 0

/-- What it throws is read with its place in the script. -/
theorem error_locations_exact_throwing :
    inTypescript (.execution "boom\n    at f (rustts://graph/0/a:1:7)")
        (LoadedStore.empty.next throwing).store =
      .execution "boom\n    at f (a.ts:2:3)" := by
  have hreach : (LoadedStore.empty : LoadedStore ModuleOrigin).Reachable := ⟨[], .nil _⟩
  have hallowed : (LoadedStore.empty : LoadedStore ModuleOrigin).Allowed throwing :=
    ⟨by decide, fun h => h.elim⟩
  have hexact := error_locations_exact hreach hallowed rfl (by decide) (.nil _)
  have hlines : ∀ line ∈ [ErrorLine.plain "boom".toList,
      .located "    at f (".toList "rustts://graph/0/a".toList 1 7 true], line.WellFormed := by
    intro line hline
    rcases List.mem_cons.mp hline with rfl | hline
    · exact ⟨by decide, by decide⟩
    · rw [List.mem_singleton.mp hline]
      exact ⟨by decide, by decide, by decide, by decide, by decide, by decide⟩
  have hmapped := hexact.1 _ hlines
  have hlocate := hexact.2.1 ['a'] "a.ts".toList [⟨0, 0, 1, 2⟩] "throw 1".toList
    (List.mem_singleton.mpr rfl) (List.pairwise_singleton ..) 0 6
  have hloaded : (LoadedStore.empty.next throwing).modules 0 ≠ [] := by decide
  rw [if_neg hloaded] at hlocate
  have hid : runtimeModuleId 0 ['a'] = "rustts://graph/0/a".toList := by decide
  rw [hid] at hlocate
  have hposition : (closestToken [⟨0, 0, 1, 2⟩] "throw 1".toList 0 6).map (positionText "a.ts".toList) =
      some "a.ts:2:3".toList := by decide
  rw [hposition] at hlocate
  have htext : details ([ErrorLine.plain "boom".toList, .located "    at f (".toList
      "rustts://graph/0/a".toList 1 7 true].map ErrorLine.text) =
      "boom\n    at f (rustts://graph/0/a:1:7)".toList := by decide
  have hresult : details ([ErrorLine.plain "boom".toList, .located "    at f (".toList
      "rustts://graph/0/a".toList 1 7 true].map
        (ErrorLine.mapped (LoadedStore.empty.next throwing).store.locate)) =
      "boom\n    at f (a.ts:2:3)".toList := by
    simp only [List.map_cons, List.map_nil, ErrorLine.mapped, hlocate, Option.getD_some]
    decide
  rw [htext, hresult, String.ofList_toList, String.ofList_toList] at hmapped
  exact hmapped

end RustTS.Runner
