import Mathlib.Data.List.Infix

/-! Lists cut at a pattern, at separators and at the last separator: what the cuts of a list that is
put together from parts are. -/
namespace Segments

variable {α : Type*} [DecidableEq α]

/-- What stands before the first occurrence of the pattern, and the list from there on. -/
def splitAt (pattern : List α) : List α → Option (List α × List α)
  | [] => if pattern = [] then some ([], []) else none
  | a :: rest =>
    if pattern <+: a :: rest then some ([], a :: rest)
    else (splitAt pattern rest).map fun parts => (a :: parts.1, parts.2)

/-- Lines, each with the separator that ends it. -/
def splitInclusive (separator : α) : List α → List (List α)
  | [] => []
  | a :: rest =>
    if a = separator then [a] :: splitInclusive separator rest
    else match splitInclusive separator rest with
      | [] => [[a]]
      | line :: lines => (a :: line) :: lines

/-- What stands before and after the last separator. -/
def rsplitOnce (separator : α) : List α → Option (List α × List α)
  | [] => none
  | a :: rest => match rsplitOnce separator rest with
    | some (head, tail) => some (a :: head, tail)
    | none => if a = separator then some ([], rest) else none

/-- The pattern does not overlap with itself. -/
def Borderless (pattern : List α) : Prop :=
  ∀ border, border ≠ [] → border <+: pattern → border <:+ pattern → border = pattern

theorem splitAt_eq_none {pattern text : List α} : splitAt pattern text = none ↔ ¬pattern <:+: text := by
  induction text with
  | nil =>
    unfold splitAt
    rw [List.infix_nil]
    split_ifs with h <;> simp [h]
  | cons a rest ih =>
    unfold splitAt
    rw [List.infix_cons_iff]
    split_ifs with h
    · simp [h]
    · simp [h, ih]

/-- A pattern that does not overlap with itself is found behind a text that does not hold it. -/
theorem splitAt_append {pattern before : List α} (hborder : Borderless pattern) (hne : pattern ≠ [])
    (hbefore : ¬pattern <:+: before) (rest : List α) :
    splitAt pattern (before ++ (pattern ++ rest)) = some (before, pattern ++ rest) := by
  induction before with
  | nil =>
    obtain ⟨p, ps, rfl⟩ := List.exists_cons_of_ne_nil hne
    rw [List.nil_append, List.cons_append, splitAt, if_pos]
    exact List.prefix_append (p :: ps) rest
  | cons a before ih =>
    have hhead : ¬pattern <:+: before := fun h => hbefore (h.trans (List.suffix_cons a before).isInfix)
    have hnot : ¬pattern <+: a :: (before ++ (pattern ++ rest)) := by
      intro h
      by_cases hlength : pattern.length ≤ (a :: before).length
      · have hshort : pattern <+: a :: before :=
          List.prefix_of_prefix_length_le h (List.prefix_append (a :: before) _) hlength
        exact hbefore hshort.isInfix
      · have hlong : a :: before <+: pattern :=
          List.prefix_of_prefix_length_le (List.prefix_append (a :: before) (pattern ++ rest)) h
            (by omega)
        obtain ⟨border, hpattern⟩ := hlong
        have hcut : border <+: pattern ++ rest := by
          apply (List.prefix_append_right_inj (a :: before)).mp
          rw [hpattern]
          exact h
        have hlengths := congrArg List.length hpattern
        rw [List.length_append, List.length_cons] at hlengths
        have hprefix : border <+: pattern :=
          List.prefix_of_prefix_length_le hcut (List.prefix_append pattern rest) (by omega)
        have hnonempty : border ≠ [] := by
          rintro rfl
          rw [List.length_nil] at hlengths
          rw [List.length_cons] at hlength
          omega
        have heq := hborder border hnonempty hprefix ⟨a :: before, hpattern⟩
        rw [heq] at hlengths
        omega
    rw [List.cons_append, splitAt, if_neg hnot, ih hhead, Option.map_some]

omit [DecidableEq α] in
/-- A pattern in an extended list is in the list, if it has no member of the extension. -/
theorem infix_of_infix_append {pattern text ending : List α} (hne : pattern ≠ [])
    (hending : ∀ a ∈ ending, a ∉ pattern) (h : pattern <:+: text ++ ending) : pattern <:+: text := by
  obtain ⟨before, rest, heq⟩ := h
  rcases List.append_eq_append_iff.mp heq with ⟨middle, htext, -⟩ | ⟨middle, hpattern, hmiddle⟩
  · exact ⟨before, middle, htext.symm⟩
  · rcases List.eq_nil_or_concat middle with hnil | ⟨init, last, hlast⟩
    · rw [hnil, List.append_nil] at hpattern
      rw [← hpattern]
      exact (List.suffix_append before pattern).isInfix
    · obtain ⟨head, final, hfinal⟩ := (List.eq_nil_or_concat pattern).resolve_left hne
      rw [hlast, hfinal, List.concat_eq_append, List.concat_eq_append, ← List.append_assoc,
        ← List.append_assoc] at hpattern
      have hsame : final = last := by simpa using (List.append_inj' hpattern rfl).2
      have hmem : last ∈ ending := by
        rw [hmiddle, hlast]
        simp
      have hin : last ∈ pattern := by
        rw [hfinal, hsame]
        simp
      exact absurd hin (hending last hmem)

theorem splitInclusive_append {separator : α} {line : List α} (h : separator ∉ line) (rest : List α) :
    splitInclusive separator (line ++ separator :: rest) =
      (line ++ [separator]) :: splitInclusive separator rest := by
  induction line with
  | nil => rw [List.nil_append, splitInclusive, if_pos rfl, List.nil_append]
  | cons a line ih =>
    obtain ⟨hne, hline⟩ := not_or.mp (mt List.mem_cons.mpr h)
    rw [List.cons_append, splitInclusive, if_neg (Ne.symm hne), ih hline, List.cons_append]

theorem splitInclusive_last {separator : α} {line : List α} (h : separator ∉ line) (hne : line ≠ []) :
    splitInclusive separator line = [line] := by
  induction line with
  | nil => exact absurd rfl hne
  | cons a line ih =>
    obtain ⟨ha, hline⟩ := not_or.mp (mt List.mem_cons.mpr h)
    rw [splitInclusive, if_neg (Ne.symm ha)]
    by_cases hempty : line = []
    · rw [hempty, splitInclusive]
    · rw [ih hline hempty]

theorem rsplitOnce_eq_none {separator : α} {text : List α} (h : separator ∉ text) :
    rsplitOnce separator text = none := by
  induction text with
  | nil => rfl
  | cons a text ih =>
    obtain ⟨ha, htext⟩ := not_or.mp (mt List.mem_cons.mpr h)
    rw [rsplitOnce, ih htext]
    exact if_neg (Ne.symm ha)

theorem rsplitOnce_append {separator : α} {tail : List α} (h : separator ∉ tail) (head : List α) :
    rsplitOnce separator (head ++ separator :: tail) = some (head, tail) := by
  induction head with
  | nil =>
    rw [List.nil_append, rsplitOnce, rsplitOnce_eq_none h]
    exact if_pos rfl
  | cons a head ih => rw [List.cons_append, rsplitOnce, ih]

omit [DecidableEq α] in
theorem infix_intercalate {separator line : List α} {lines : List (List α)} (h : line ∈ lines) :
    line <:+: separator.intercalate lines := by
  induction lines with
  | nil => cases h
  | cons first lines ih =>
    cases lines with
    | nil =>
      rw [List.mem_singleton.mp h, List.intercalate_singleton]
    | cons next lines =>
      have hcut : separator.intercalate (first :: next :: lines) =
          first ++ (separator ++ separator.intercalate (next :: lines)) := by
        simp [List.intercalate]
      rw [hcut]
      rcases List.mem_cons.mp h with rfl | hrest
      · exact (List.prefix_append ..).isInfix
      · have hsuffix : separator.intercalate (next :: lines) <:+
            first ++ (separator ++ separator.intercalate (next :: lines)) := by
          rw [← List.append_assoc]
          exact List.suffix_append ..
        exact (ih hrest).trans hsuffix.isInfix

/-- Lines are rewritten one by one where the rewriting leaves their ends alone. -/
theorem flatMap_splitInclusive {separator : α} {lines : List (List α)} {f : List α → List α}
    (hlines : ∀ line ∈ lines, separator ∉ line)
    (hf : ∀ line ∈ lines, f (line ++ [separator]) = f line ++ [separator]) (hnil : f [] = []) :
    (splitInclusive separator ([separator].intercalate lines)).flatMap f =
      [separator].intercalate (lines.map f) := by
  induction lines with
  | nil => rfl
  | cons line lines ih =>
    obtain ⟨hline, hrest⟩ := List.forall_mem_cons.mp hlines
    obtain ⟨hfline, hfrest⟩ := List.forall_mem_cons.mp hf
    cases lines with
    | nil =>
      rw [List.map_singleton, List.intercalate_singleton, List.intercalate_singleton]
      by_cases hempty : line = []
      · rw [hempty, hnil, splitInclusive, List.flatMap_nil]
      · rw [splitInclusive_last hline hempty, List.flatMap_singleton]
    | cons next lines =>
      have hcut : [separator].intercalate (line :: next :: lines) =
          line ++ separator :: [separator].intercalate (next :: lines) := by
        simp [List.intercalate]
      have hjoin : [separator].intercalate (f line :: f next :: lines.map f) =
          f line ++ separator :: [separator].intercalate (f next :: lines.map f) := by
        simp [List.intercalate]
      rw [hcut, splitInclusive_append hline, List.flatMap_cons, hfline, ih hrest hfrest,
        List.map_cons, List.map_cons, List.map_cons, hjoin, List.append_assoc, List.singleton_append]

end Segments
