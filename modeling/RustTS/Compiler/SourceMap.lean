import Mathlib.Algebra.Order.Ring.Nat
import RustTS.Compiler.Service
import RustTS.Lib.PartitionPoint

/-! Positions in transpiled JavaScript mapped back to the TypeScript they came from. -/
namespace RustTS.Compiler
open Runner.ModuleLoader (Text)
open PartitionPoint (partitionPoint)

/-- A token of the map the code generator returns: generated and source positions, with columns in
UTF-16 code units. -/
structure Token where
  dstLine : Nat
  dstCol : Nat
  srcLine : Nat
  srcCol : Nat
  deriving DecidableEq, Repr

def Mapping.new (token : Token) (jsColumn : Nat) : Mapping :=
  ⟨token.dstLine, jsColumn, token.srcLine, token.srcCol⟩

/-- Converts the UTF-16 columns of generated positions, visited in output order, into UTF-8 byte
columns. -/
structure ByteColumns where
  lines : List Text
  line : Nat
  /-- The current line, from the last visited column on. -/
  rest : Text
  utf16Column : Nat
  byteColumn : Nat

namespace ByteColumns

def new (js : Text) : ByteColumns :=
  let lines := js.splitOn '\n'
  ⟨lines.tail, 0, lines.headD [], 0, 0⟩

def nextLine (columns : ByteColumns) : ByteColumns :=
  ⟨columns.lines.tail, columns.line + 1, columns.lines.headD [], 0, 0⟩

/-- Its loop over the lines. -/
def toLine (line : Nat) (columns : ByteColumns) : ByteColumns :=
  if columns.line < line then toLine line columns.nextLine else columns
termination_by line - columns.line
decreasing_by
  show line - (columns.line + 1) < line - columns.line
  omega

/-- Its loop over the characters: what is left of the line, and the columns it came to. -/
def skip (target : Nat) : Text → Nat → Nat → Text × Nat × Nat
  | [], utf16Column, byteColumn => ([], utf16Column, byteColumn)
  | c :: rest, utf16Column, byteColumn =>
    if utf16Column < target then
      skip target rest (utf16Column + lenUtf16 c) (byteColumn + c.utf8Size)
    else (c :: rest, utf16Column, byteColumn)

/-- `ByteColumns::byte_column`: the column is the state's. -/
def visit (columns : ByteColumns) (line utf16Column : Nat) : ByteColumns :=
  let columns := columns.toLine line
  let (rest, utf16Column, byteColumn) :=
    skip utf16Column columns.rest columns.utf16Column columns.byteColumn
  { columns with rest, utf16Column, byteColumn }

/-- The mappings of tokens, in their order. -/
def mappings : List Token → ByteColumns → List Mapping
  | [], _ => []
  | token :: tokens, columns =>
    let columns := columns.visit token.dstLine token.dstCol
    Mapping.new token columns.byteColumn :: mappings tokens columns

end ByteColumns

namespace SourceMap

/-- The table of the map that came with `js`. -/
def fromCodegen (tokens : List Token) (js : Text) : SourceMap :=
  ⟨ByteColumns.mappings tokens (.new js)⟩

/-- Order of lines and columns. -/
def positionLe (a b : Nat × Nat) : Bool := a.1 < b.1 || (a.1 = b.1 && a.2 ≤ b.2)

def checkedSub (a b : Nat) : Option Nat := if b ≤ a then some (a - b) else none

/-- The 1-based TypeScript position of a 1-based JavaScript position: the closest mapping at or
before it on its line. -/
def originalPosition (map : SourceMap) (jsLine jsColumn : Nat) : Option (Nat × Nat) := do
  let position := (← checkedSub jsLine 1, ← checkedSub jsColumn 1)
  let after := partitionPoint (fun m => positionLe (m.jsLine, m.jsColumn) position) map.mappings
  let mapping ← map.mappings[← checkedSub after 1]?
  if mapping.jsLine = position.1 then some (mapping.tsLine + 1, mapping.tsColumn + 1) else none

end SourceMap

/-- The byte column of a UTF-16 column: what its characters take, of which the last counts whole. -/
def byteColumnOf : Text → Nat → Nat
  | [], _ => 0
  | _ :: _, 0 => 0
  | c :: line, column => c.utf8Size + byteColumnOf line (column - lenUtf16 c)

/-- A line of a text; lines past its end are empty. -/
def lineOf (js : Text) (line : Nat) : Text := ((js.splitOn '\n')[line]?).getD []

/-- The position of a token in bytes. -/
def Token.position (js : Text) (token : Token) : Nat × Nat :=
  (token.dstLine, byteColumnOf (lineOf js token.dstLine) token.dstCol)

theorem byteColumnOf_cons (c : Char) (line : Text) {column : Nat} (h : 0 < column) :
    byteColumnOf (c :: line) column = c.utf8Size + byteColumnOf line (column - lenUtf16 c) := by
  cases column with
  | zero => exact absurd h (Nat.lt_irrefl 0)
  | succ column => rfl

theorem byteColumnOf_append (pre post : Text) :
    byteColumnOf (pre ++ post) (pre.map lenUtf16).sum = (pre.map Char.utf8Size).sum := by
  induction pre with
  | nil => cases post <;> rfl
  | cons c pre ih =>
    have hpos : 0 < lenUtf16 c := by
      unfold lenUtf16
      split <;> decide
    rw [List.map_cons, List.sum_cons, List.map_cons, List.sum_cons, ← ih]
    rw [List.cons_append, byteColumnOf_cons c _ (Nat.add_pos_left hpos _), Nat.add_sub_cancel_left]

private theorem byteColumnOf_zero (line : Text) : byteColumnOf line 0 = 0 := by
  cases line <;> rfl

private theorem byteColumnOf_mono (line : Text) {m n : Nat} (h : m ≤ n) :
    byteColumnOf line m ≤ byteColumnOf line n := by
  induction line generalizing m n with
  | nil => exact Nat.le_refl 0
  | cons c line ih =>
    cases m with
    | zero => exact Nat.zero_le _
    | succ m =>
      obtain ⟨n, rfl⟩ := Nat.exists_eq_succ_of_ne_zero (Nat.ne_of_gt (Nat.zero_lt_of_lt h))
      exact Nat.add_le_add_left (ih (Nat.sub_le_sub_right h _)) _

namespace ByteColumns

theorem skip_of_le {target : Nat} (line : Text) {utf16Column : Nat} (byteColumn : Nat)
    (h : target ≤ utf16Column) :
    skip target line utf16Column byteColumn = (line, utf16Column, byteColumn) := by
  cases line with
  | nil => rfl
  | cons c line => exact if_neg (Nat.not_lt.mpr h)

theorem skip_of_lt {target utf16Column : Nat} (h : utf16Column < target) (c : Char) (line : Text)
    (byteColumn : Nat) :
    skip target (c :: line) utf16Column byteColumn =
      skip target line (utf16Column + lenUtf16 c) (byteColumn + c.utf8Size) :=
  if_pos h

private theorem skip_byteColumn (target : Nat) (line : Text) (utf16Column byteColumn : Nat) :
    (skip target line utf16Column byteColumn).2.2 =
      byteColumn + byteColumnOf line (target - utf16Column) := by
  induction line generalizing utf16Column byteColumn with
  | nil => rfl
  | cons c line ih =>
    rcases Nat.lt_or_ge utf16Column target with hlt | hge
    · rw [skip_of_lt hlt, ih]
      rw [byteColumnOf_cons c line (Nat.sub_pos_of_lt hlt), Nat.sub_sub, Nat.add_assoc]
    · rw [skip_of_le _ _ hge, Nat.sub_eq_zero_of_le hge, byteColumnOf_zero]
      rfl

private theorem skip_skip {m n : Nat} (h : m ≤ n) (line : Text) (utf16Column byteColumn : Nat) :
    skip n (skip m line utf16Column byteColumn).1 (skip m line utf16Column byteColumn).2.1
      (skip m line utf16Column byteColumn).2.2 = skip n line utf16Column byteColumn := by
  induction line generalizing utf16Column byteColumn with
  | nil => rfl
  | cons c line ih =>
    rcases Nat.lt_or_ge utf16Column m with hlt | hge
    · rw [skip_of_lt hlt, skip_of_lt (Nat.lt_of_lt_of_le hlt h)]
      exact ih _ _
    · rw [skip_of_le _ _ hge]

/-- The state after a visit of a position: it depends on the position only. -/
structure At (js : Text) (line utf16Column : Nat) (columns : ByteColumns) : Prop where
  lines : columns.lines = (js.splitOn '\n').drop (line + 1)
  number : columns.line = line
  skipped : (columns.rest, columns.utf16Column, columns.byteColumn) =
    skip utf16Column (lineOf js line) 0 0

variable {js : Text} {columns : ByteColumns} {line utf16Column : Nat}

private theorem new_at (js : Text) : At js 0 0 (.new js) where
  lines := List.drop_one.symm
  number := rfl
  skipped := by
    rw [skip_of_le _ _ (Nat.le_refl 0), lineOf, ← List.head?_eq_getElem?, ← List.headD_eq_head?_getD]
    rfl

theorem At.nextLine (h : At js line utf16Column columns) : At js (line + 1) 0 columns.nextLine where
  lines := by
    show columns.lines.tail = _
    rw [h.lines, List.tail_drop]
  number := congrArg (· + 1) h.number
  skipped := by
    rw [skip_of_le _ _ (Nat.le_refl 0)]
    show (columns.lines.headD [], 0, 0) = _
    rw [h.lines, List.headD_eq_head?_getD, List.head?_drop]
    rfl

theorem At.toLine {target : Nat} (h : At js line utf16Column columns) (hlt : line < target) :
    At js target 0 (columns.toLine target) := by
  induction hgap : target - line generalizing line utf16Column columns with
  | zero => omega
  | succ gap ih =>
    rw [ByteColumns.toLine, if_pos (h.number.symm ▸ hlt)]
    by_cases hlast : line + 1 = target
    · have hstop : ¬columns.nextLine.line < target := by
        rw [h.nextLine.number]
        omega
      rw [ByteColumns.toLine, if_neg hstop, ← hlast]
      exact h.nextLine
    · exact ih h.nextLine (by omega) (by omega)

theorem At.visit {target column : Nat} (h : At js line utf16Column columns)
    (hle : line < target ∨ line = target ∧ utf16Column ≤ column) :
    At js target column (columns.visit target column) := by
  have hline : ∃ start, start ≤ column ∧ At js target start (columns.toLine target) := by
    rcases hle with hlt | ⟨rfl, hle⟩
    · exact ⟨0, Nat.zero_le _, h.toLine hlt⟩
    · rw [ByteColumns.toLine, if_neg (by rw [h.number]; exact Nat.lt_irrefl line)]
      exact ⟨utf16Column, hle, h⟩
  obtain ⟨start, hstart, hlines, hnumber, hskipped⟩ := hline
  refine ⟨hlines, hnumber, ?_⟩
  rw [← skip_skip hstart, ← hskipped]
  rfl

theorem At.byteColumn (h : At js line utf16Column columns) :
    columns.byteColumn = byteColumnOf (lineOf js line) utf16Column := by
  have hbyte := congrArg (·.2.2) h.skipped
  rw [skip_byteColumn, Nat.zero_add, Nat.sub_zero] at hbyte
  exact hbyte

/-- Generated positions in order. -/
def Sorted (tokens : List Token) : Prop :=
  tokens.Pairwise fun a b =>
    SourceMap.positionLe (a.dstLine, a.dstCol) (b.dstLine, b.dstCol) = true

theorem mappings_of_at {tokens : List Token} (hsorted : Sorted tokens)
    (h : At js line utf16Column columns)
    (hle : ∀ token ∈ tokens,
      SourceMap.positionLe (line, utf16Column) (token.dstLine, token.dstCol) = true) :
    mappings tokens columns = tokens.map fun token => .new token (token.position js).2 := by
  induction tokens generalizing line utf16Column columns with
  | nil => rfl
  | cons token tokens ih =>
    obtain ⟨hfirst, hrest⟩ := List.pairwise_cons.mp hsorted
    have hvisit : At js token.dstLine token.dstCol (columns.visit token.dstLine token.dstCol) := by
      apply h.visit
      simpa [SourceMap.positionLe] using hle token (List.mem_cons_self ..)
    rw [mappings, ih hrest hvisit hfirst, hvisit.byteColumn]
    rfl

end ByteColumns

namespace SourceMap

theorem positionLe_iff {a b : Nat × Nat} :
    positionLe a b = true ↔ a.1 < b.1 ∨ a.1 = b.1 ∧ a.2 ≤ b.2 := by
  simp [positionLe]

private theorem positionLe_trans {a b c : Nat × Nat} (hab : positionLe a b = true)
    (hbc : positionLe b c = true) : positionLe a c = true := by
  rw [positionLe_iff] at hab hbc ⊢
  omega

theorem fromCodegen_mappings {tokens : List Token} (h : ByteColumns.Sorted tokens) (js : Text) :
    (fromCodegen tokens js).mappings =
      tokens.map fun token => .new token (token.position js).2 := by
  refine ByteColumns.mappings_of_at h (ByteColumns.new_at js) fun token _ => ?_
  rw [positionLe_iff]
  dsimp only
  omega

private theorem positions_sorted {tokens : List Token} (h : ByteColumns.Sorted tokens) (js : Text) :
    tokens.Pairwise fun a b => positionLe (a.position js) (b.position js) = true := by
  refine h.imp fun {a b} hab => ?_
  rw [positionLe_iff] at hab ⊢
  rcases hab with hline | ⟨hline, hcolumn⟩
  · exact .inl hline
  · refine .inr ⟨hline, ?_⟩
    show byteColumnOf (lineOf js a.dstLine) a.dstCol ≤ byteColumnOf (lineOf js b.dstLine) b.dstCol
    rw [show a.dstLine = b.dstLine from hline]
    exact byteColumnOf_mono _ hcolumn

theorem originalPosition_eq {map : SourceMap}
    (h : map.mappings.Pairwise fun a b =>
      positionLe (a.jsLine, a.jsColumn) (b.jsLine, b.jsColumn) = true) (line column : Nat) :
    map.originalPosition (line + 1) (column + 1) =
      ((map.mappings.filter fun m => positionLe (m.jsLine, m.jsColumn) (line, column)).getLast?).bind
        fun m => if m.jsLine = line then some (m.tsLine + 1, m.tsColumn + 1) else none := by
  have hline (n : Nat) : checkedSub (n + 1) 1 = some n := if_pos (Nat.succ_pos n)
  rw [← PartitionPoint.getElem?_partitionPoint (h.imp fun hab hb => positionLe_trans hab hb)]
  simp only [originalPosition, hline, Option.bind_eq_bind, Option.bind_some]
  generalize partitionPoint _ map.mappings = after
  cases after with
  | zero => rfl
  | succ n => rw [hline, if_neg (Nat.succ_ne_zero n)]; rfl

/-- The source position of the last token at or before a position, if it is on that line. -/
def closestToken (tokens : List Token) (js : Text) (line column : Nat) : Option (Nat × Nat) :=
  ((tokens.filter fun token => positionLe (token.position js) (line, column)).getLast?).bind
    fun token => if token.dstLine = line then some (token.srcLine + 1, token.srcCol + 1) else none

theorem originalPosition_fromCodegen {tokens : List Token} (h : ByteColumns.Sorted tokens)
    (js : Text) (line column : Nat) :
    (fromCodegen tokens js).originalPosition (line + 1) (column + 1) =
      closestToken tokens js line column := by
  have hmappings := fromCodegen_mappings h js
  rw [originalPosition_eq, hmappings, List.filter_map, List.getLast?_map, Option.bind_map]
  · rfl
  · rw [hmappings, List.pairwise_map]
    exact positions_sorted h js

/-- Positions are those of the closest tokens, their columns converted each from the start of its
line. -/
theorem original_position_exact (js : Text) {tokens : List Token} (h : ByteColumns.Sorted tokens) :
    (fromCodegen tokens js).mappings =
        tokens.map (fun token => .new token (token.position js).2) ∧
      ∀ line column, (fromCodegen tokens js).originalPosition (line + 1) (column + 1) =
        closestToken tokens js line column :=
  ⟨fromCodegen_mappings h js, originalPosition_fromCodegen h js⟩

end SourceMap

/-- The positions of the token are `u32`s, the source's also when they are counted from 1. -/
structure Token.Fits (token : Token) : Prop where
  dstLine : token.dstLine < 2 ^ 32
  dstCol : token.dstCol < 2 ^ 32
  srcLine : token.srcLine + 1 < 2 ^ 32
  srcCol : token.srcCol + 1 < 2 ^ 32

structure Mapping.Fits (mapping : Mapping) : Prop where
  jsLine : mapping.jsLine < 2 ^ 32
  jsColumn : mapping.jsColumn < 2 ^ 32
  tsLine : mapping.tsLine + 1 < 2 ^ 32
  tsColumn : mapping.tsColumn + 1 < 2 ^ 32

def lenUtf8 (text : Text) : Nat := (text.map Char.utf8Size).sum

theorem lenUtf8_cons (c : Char) (text : Text) : lenUtf8 (c :: text) = c.utf8Size + lenUtf8 text := rfl

theorem lenUtf8_line_le {js line : Text} (h : line ∈ js.splitOn '\n') : lenUtf8 line ≤ lenUtf8 js := by
  induction js generalizing line with
  | nil =>
    rw [List.splitOn_nil, List.mem_singleton] at h
    rw [h]
  | cons c js ih =>
    rw [List.splitOn_cons_eq_if_modifyHead] at h
    rw [lenUtf8_cons]
    split_ifs at h
    · rcases List.mem_cons.mp h with rfl | h
      · exact Nat.zero_le _
      · exact (ih h).trans (Nat.le_add_left _ _)
    · cases hlines : js.splitOn '\n' with
      | nil => exact absurd hlines (List.splitOn_ne_nil _ _)
      | cons first lines =>
        rw [hlines, List.modifyHead_cons] at h
        rcases List.mem_cons.mp h with rfl | h
        · rw [lenUtf8_cons]
          exact Nat.add_le_add_left (ih (hlines ▸ List.mem_cons_self)) _
        · exact (ih (hlines ▸ List.mem_cons_of_mem _ h)).trans (Nat.le_add_left _ _)

private theorem lenUtf16_le (c : Char) : lenUtf16 c ≤ c.utf8Size := by
  unfold lenUtf16
  split_ifs with h
  · exact c.utf8Size_pos
  · unfold Char.utf8Size
    dsimp only
    split_ifs with hone
    · have hsmall : c.toNat ≤ 127 := hone
      omega
    all_goals decide

namespace ByteColumns

/-- The columns stay within lines of at most `n` bytes. -/
structure Within (n : Nat) (columns : ByteColumns) : Prop where
  lines : ∀ line ∈ columns.lines, lenUtf8 line ≤ n
  byteColumn : columns.byteColumn + lenUtf8 columns.rest ≤ n
  utf16Column : columns.utf16Column ≤ columns.byteColumn

variable {n : Nat} {columns : ByteColumns}

private theorem new_within (js : Text) : (new js).Within (lenUtf8 js) := by
  have hlines : ∀ line ∈ js.splitOn '\n', lenUtf8 line ≤ lenUtf8 js := fun _ => lenUtf8_line_le
  unfold new
  cases hsplit : js.splitOn '\n' with
  | nil => exact absurd hsplit (List.splitOn_ne_nil _ _)
  | cons first lines =>
    rw [hsplit] at hlines
    refine ⟨fun line hline => hlines line (List.mem_cons_of_mem _ hline), ?_, Nat.le_refl 0⟩
    dsimp only
    rw [Nat.zero_add]
    exact hlines first List.mem_cons_self

theorem Within.nextLine (h : columns.Within n) : columns.nextLine.Within n := by
  unfold ByteColumns.nextLine
  refine ⟨fun line hline => h.lines line (List.mem_of_mem_tail hline), ?_, Nat.le_refl 0⟩
  dsimp only
  rw [Nat.zero_add]
  cases hlines : columns.lines with
  | nil => exact Nat.zero_le n
  | cons first lines => exact h.lines first (hlines ▸ List.mem_cons_self)

theorem Within.toLine (h : columns.Within n) (line : Nat) : (columns.toLine line).Within n := by
  fun_induction ByteColumns.toLine line columns with
  | case1 columns hlt ih => exact ih h.nextLine
  | case2 columns hge => exact h

theorem skip_within (target : Nat) {line : Text} {utf16Column byteColumn : Nat}
    (h : byteColumn + lenUtf8 line ≤ n) (hle : utf16Column ≤ byteColumn) :
    let skipped := skip target line utf16Column byteColumn
    skipped.2.2 + lenUtf8 skipped.1 ≤ n ∧ skipped.2.1 ≤ skipped.2.2 := by
  induction line generalizing utf16Column byteColumn with
  | nil => exact ⟨h, hle⟩
  | cons c line ih =>
    rcases Nat.lt_or_ge utf16Column target with hlt | hge
    · rw [skip_of_lt hlt]
      apply ih
      · rw [lenUtf8_cons] at h
        omega
      · exact Nat.add_le_add hle (lenUtf16_le c)
    · rw [skip_of_le _ _ hge]
      exact ⟨h, hle⟩

theorem Within.visit (h : columns.Within n) (line utf16Column : Nat) :
    (columns.visit line utf16Column).Within n := by
  have hline := h.toLine line
  obtain ⟨hbyte, hutf16⟩ := skip_within utf16Column hline.byteColumn hline.utf16Column
  exact ⟨hline.lines, hbyte, hutf16⟩

theorem mappings_fit {tokens : List Token} (htokens : ∀ token ∈ tokens, token.Fits)
    (h : columns.Within n) (hn : n < 2 ^ 32) : ∀ mapping ∈ mappings tokens columns, mapping.Fits := by
  induction tokens generalizing columns with
  | nil => exact nofun
  | cons token tokens ih =>
    have hvisit := h.visit token.dstLine token.dstCol
    have htoken := htokens token List.mem_cons_self
    intro mapping hmem
    rcases List.mem_cons.mp hmem with rfl | hmem
    · refine ⟨htoken.dstLine, ?_, htoken.srcLine, htoken.srcCol⟩
      have hcolumn := hvisit.byteColumn
      show (columns.visit token.dstLine token.dstCol).byteColumn < 2 ^ 32
      omega
    · exact ih (fun token ht => htokens token (List.mem_cons_of_mem _ ht)) hvisit mapping hmem

end ByteColumns

namespace SourceMap

/-- The positions and columns of the code are `u32`s. Those here stay below `2 ^ 32` where the text has
fewer bytes. -/
theorem original_position_fits {tokens : List Token} (htokens : ∀ token ∈ tokens, token.Fits)
    {js : Text} (hjs : lenUtf8 js < 2 ^ 32) :
    (∀ mapping ∈ (fromCodegen tokens js).mappings, mapping.Fits) ∧
      ∀ jsLine jsColumn line column,
        (fromCodegen tokens js).originalPosition jsLine jsColumn = some (line, column) →
          line < 2 ^ 32 ∧ column < 2 ^ 32 := by
  have h : ∀ mapping ∈ (fromCodegen tokens js).mappings, mapping.Fits :=
    ByteColumns.mappings_fit htokens (ByteColumns.new_within js) hjs
  refine ⟨h, fun jsLine jsColumn line column hposition => ?_⟩
  unfold originalPosition at hposition
  obtain ⟨_, -, hposition⟩ := Option.bind_eq_some_iff.mp hposition
  obtain ⟨_, -, hposition⟩ := Option.bind_eq_some_iff.mp hposition
  obtain ⟨_, -, hposition⟩ := Option.bind_eq_some_iff.mp hposition
  obtain ⟨mapping, hmapping, hposition⟩ := Option.bind_eq_some_iff.mp hposition
  have hfits := h mapping (List.mem_of_getElem? hmapping)
  split_ifs at hposition
  cases hposition
  exact ⟨hfits.tsLine, hfits.tsColumn⟩

/-- A column inside a surrogate pair counts for the end of the pair. -/
theorem original_position_exact_pair :
    (fromCodegen [⟨0, 0, 0, 0⟩, ⟨0, 1, 0, 4⟩, ⟨0, 2, 1, 0⟩, ⟨0, 3, 1, 2⟩, ⟨1, 0, 2, 0⟩]
      "a😀b\nc".toList).originalPosition 1 6 = some (2, 3) := by
  have hsorted : ByteColumns.Sorted
      [⟨0, 0, 0, 0⟩, ⟨0, 1, 0, 4⟩, ⟨0, 2, 1, 0⟩, ⟨0, 3, 1, 2⟩, ⟨1, 0, 2, 0⟩] := by
    unfold ByteColumns.Sorted
    decide
  exact ((original_position_exact "a😀b\nc".toList hsorted).2 0 5).trans (by decide)

end SourceMap

end RustTS.Compiler
