import Mathlib.Data.List.Basic
import Mathlib.Data.List.TakeWhile
import RustTS.Lib.DecimalText
import RustTS.Runner.Execution

/-! Runtime-scoped identifiers of ESM graphs. Texts are lists of characters. -/
namespace RustTS.Runner.ModuleLoader

abbrev Text := List Char

abbrev GraphId := Nat

/-- Start of every script module id: `rustts://graph/{graph id}/{module id}`. -/
def runtimeModulePrefix : Text := "rustts://graph/".toList

/-- What a script imports to reach its own `ctx`, `console` and timers. -/
def envSpecifier : Text := "rustts:env".toList

/-- Start of the id of a group script's environment module. -/
def envModulePrefix : Text := "rustts:env/".toList

/-- Start of the id of a group script's instance of a host module. -/
def hostInstancePrefix : Text := "rustts:host/".toList

/-- `str::parse::<u64>`: decimal digits after an optional `+`, within the range. -/
def parseU64 (text : Text) : Option Nat :=
  let digits := match text with
    | '+' :: rest => rest
    | text => text
  if digits ≠ [] ∧ digits.all Char.isDigit ∧ Nat.ofDigitChars 10 digits 0 ≤ u64Max then
    some (Nat.ofDigitChars 10 digits 0)
  else none

def decimal (n : Nat) : Text := Nat.toDigits 10 n

def envModuleId (graphId : GraphId) : Text := envModulePrefix ++ decimal graphId

def hostInstanceId (graphId : GraphId) (hostModule : Text) : Text :=
  hostInstancePrefix ++ decimal graphId ++ '/' :: hostModule

def runtimeModuleId (graphId : GraphId) (moduleId : Text) : Text :=
  runtimeModulePrefix ++ decimal graphId ++ '/' :: moduleId

/-- The graph a module id belongs to: that of a script module, or of the environment or
host instance module made for it. -/
def graphOf (moduleId : Text) : Option GraphId :=
  ((moduleId.dropPrefix? runtimeModulePrefix).or
    ((moduleId.dropPrefix? envModulePrefix).or
      (moduleId.dropPrefix? hostInstancePrefix))).bind
    fun rest => parseU64 (rest.takeWhile (· ≠ '/'))

/-- The modules of one loaded script. -/
structure RuntimeModuleGraph where
  graphId : GraphId
  entryModuleId : Text
  moduleIds : List Text
  deriving DecidableEq, Repr

private theorem isDigit_decimal {n : Nat} {c : Char} (hc : c ∈ decimal n) : c.isDigit = true :=
  Nat.isDigit_of_mem_toDigits (by decide) (by decide) hc

theorem parseU64_decimal (n : Nat) :
    parseU64 (decimal n) = if n ≤ u64Max then some n else none := by
  have hne : decimal n ≠ [] := Nat.toDigits_ne_nil
  have hval : Nat.ofDigitChars 10 (decimal n) 0 = n := Nat.ofDigitChars_ten_toDigits
  have hall : (decimal n).all Char.isDigit = true :=
    List.all_eq_true.mpr fun _ hc => isDigit_decimal hc
  unfold parseU64
  split
  next digits rest hplus =>
    have : '+' ∈ decimal n := by simp [hplus]
    exact absurd (isDigit_decimal this) (by decide)
  next => simp [hne, hall, hval]

private theorem no_slash_decimal {n : Nat} {c : Char} (hc : c ∈ decimal n) :
    decide (c ≠ '/') = true := by
  have hd := isDigit_decimal hc
  have : c ≠ '/' := fun h => absurd (h ▸ hd) (by decide)
  simpa using this

theorem takeWhile_decimal (n : Nat) (rest : Text) :
    (decimal n ++ '/' :: rest).takeWhile (· ≠ '/') = decimal n := by
  rw [List.takeWhile_append_of_pos fun _ => no_slash_decimal]
  simp

private theorem takeWhile_decimal_self (n : Nat) : (decimal n).takeWhile (· ≠ '/') = decimal n :=
  List.takeWhile_eq_self_iff.mpr fun _ => no_slash_decimal

theorem dropPrefix?_append (p rest : Text) : (p ++ rest).dropPrefix? p = some rest :=
  List.dropPrefix?_eq_some_iff.mpr ⟨p, rfl, by simp⟩

private theorem decimal_injective {n m : Nat} (h : decimal n = decimal m) : n = m := by
  have hvalue := congrArg (Nat.ofDigitChars 10 · 0) h
  simpa only [decimal, Nat.ofDigitChars_ten_toDigits] using hvalue

private theorem parseU64_le {text : Text} {n : Nat} (h : parseU64 text = some n) : n ≤ u64Max := by
  unfold parseU64 at h
  dsimp only at h
  split_ifs at h with hdigits
  cases h
  exact hdigits.2.2

theorem le_of_graphOf {moduleId : Text} {g : GraphId} (h : graphOf moduleId = some g) :
    g ≤ u64Max := by
  obtain ⟨rest, -, hparse⟩ := Option.bind_eq_some_iff.mp h
  exact parseU64_le hparse

theorem eq_of_runtimeModuleId_eq {g k : GraphId} {moduleId moduleId' : Text}
    (h : runtimeModuleId g moduleId = runtimeModuleId k moduleId') : g = k := by
  unfold runtimeModuleId at h
  rw [List.append_assoc, List.append_assoc] at h
  have hrest := List.append_cancel_left h
  have hdigits := congrArg (List.takeWhile (· ≠ '/')) hrest
  rw [takeWhile_decimal, takeWhile_decimal] at hdigits
  exact decimal_injective hdigits

theorem graphOf_runtimeModuleId_eq (g : GraphId) (moduleId : Text) :
    graphOf (runtimeModuleId g moduleId) = if g ≤ u64Max then some g else none := by
  unfold graphOf runtimeModuleId
  rw [List.append_assoc, dropPrefix?_append]
  simp only [Option.some_or, Option.bind_some]
  rw [takeWhile_decimal, parseU64_decimal]

theorem graphOf_runtimeModuleId {g : GraphId} (hg : g ≤ u64Max) (moduleId : Text) :
    graphOf (runtimeModuleId g moduleId) = some g := by
  rw [graphOf_runtimeModuleId_eq, if_pos hg]

theorem eq_of_graphOf_runtimeModuleId {g k : GraphId} {moduleId : Text}
    (h : graphOf (runtimeModuleId g moduleId) = some k) : k = g := by
  rw [graphOf_runtimeModuleId_eq] at h
  split_ifs at h with hg
  exact (Option.some.inj h).symm

theorem graphOf_envModuleId (g : GraphId) :
    graphOf (envModuleId g) = if g ≤ u64Max then some g else none := by
  have hother : (envModulePrefix ++ decimal g).dropPrefix? runtimeModulePrefix = none := rfl
  unfold graphOf envModuleId
  rw [hother, dropPrefix?_append, Option.none_or, Option.some_or, Option.bind_some,
    takeWhile_decimal_self, parseU64_decimal]

theorem graphOf_hostInstanceId (g : GraphId) (hostModule : Text) :
    graphOf (hostInstanceId g hostModule) = if g ≤ u64Max then some g else none := by
  have hother (rest : Text) : (hostInstancePrefix ++ rest).dropPrefix? runtimeModulePrefix = none :=
    rfl
  have hother' (rest : Text) : (hostInstancePrefix ++ rest).dropPrefix? envModulePrefix = none := rfl
  unfold graphOf hostInstanceId
  rw [List.append_assoc, hother, hother', dropPrefix?_append, Option.none_or, Option.none_or,
    Option.bind_some, takeWhile_decimal, parseU64_decimal]

example : graphOf "rustts://graph/7//app/main.ts".toList = some 7 := by decide

end RustTS.Runner.ModuleLoader
