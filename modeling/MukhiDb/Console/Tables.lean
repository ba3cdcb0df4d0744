import MukhiDb.Foundation.Text
import MukhiDb.Model.Console

/-!
Contract: the tables that are printed (`print_table`).

Owns: that a column is wide enough for its texts; that the texts of a column are padded to one length;
and that the lines of a table have one length.

Does not own: the line under the rows.
-/

namespace MukhiDb.Model

open MukhiDb.Foundation

namespace Console

/-- Each cell is no longer than its column. -/
def Fits (widths : List Nat) (cells : List String) : Prop :=
  List.Forall₂ (fun width cell => byteLength cell.toList ≤ width) widths cells

/-! ### Widths -/

theorem length_le_bytes (text : String) : text.length ≤ byteLength text.toList := by
  rw [← String.length_toList]
  exact length_le_byteLength text.toList

theorem fits_headers (headers : List String) :
    Fits (headers.map fun header => byteLength header.toList) headers := by
  induction headers with
  | nil => exact .nil
  | cons header rest inductionHypothesis => exact .cons (Nat.le_refl _) inductionHypothesis

theorem Fits.widen {widths : List Nat} {cells : List String} (fits : Fits widths cells) (row : List String) :
    Fits (Console.widen widths row) cells := by
  induction fits generalizing row with
  | nil =>
      unfold Console.widen
      exact .nil
  | @cons width header widths headers short later inductionHypothesis =>
      cases row with
      | nil => exact .cons short later
      | cons cell row => exact .cons (Nat.le_trans short (Nat.le_max_left _ _)) (inductionHypothesis row)

theorem widen_fits {widths : List Nat} {row : List String} (full : row.length = widths.length) :
    Fits (Console.widen widths row) row := by
  induction row generalizing widths with
  | nil =>
      rw [List.length_eq_zero_iff.mp full.symm]
      exact .nil
  | cons cell row inductionHypothesis =>
      match widths, full with
      | width :: widths, full =>
          exact .cons (Nat.le_max_right _ _) (inductionHypothesis (Nat.succ.inj full))

theorem widen_length (widths : List Nat) (row : List String) :
    (Console.widen widths row).length = widths.length := by
  induction widths generalizing row with
  | nil =>
      unfold Console.widen
      rfl
  | cons width widths inductionHypothesis =>
      cases row with
      | nil => rfl
      | cons cell row => exact congrArg Nat.succ (inductionHypothesis row)

theorem foldl_widen_fits {widths : List Nat} {cells : List String} (fits : Fits widths cells)
    (rows : List (List String)) : Fits (rows.foldl Console.widen widths) cells := by
  induction rows generalizing widths with
  | nil => exact fits
  | cons row rest inductionHypothesis => exact inductionHypothesis (fits.widen row)

theorem foldl_widen_rows {widths : List Nat} {rows : List (List String)} {row : List String}
    (full : ∀ row ∈ rows, row.length = widths.length) (member : row ∈ rows) :
    Fits (rows.foldl Console.widen widths) row := by
  induction rows generalizing widths with
  | nil => cases member
  | cons first rest inductionHypothesis =>
      rcases List.mem_cons.mp member with rfl | later
      · exact foldl_widen_fits (widen_fits (full row List.mem_cons_self)) rest
      · refine inductionHypothesis (fun other there => ?_) later
        rw [widen_length]
        exact full other (List.mem_cons_of_mem _ there)

/-- The headers and the rows fit in the columns. -/
theorem columnWidths_fits {headers : List String} {rows : List (List String)}
    (full : ∀ row ∈ rows, row.length = headers.length) {cells : List String}
    (member : cells ∈ headers :: rows) : Fits (columnWidths headers rows) cells := by
  unfold columnWidths
  rcases List.mem_cons.mp member with rfl | row
  · exact foldl_widen_fits (fits_headers cells) rows
  · exact foldl_widen_rows (fun row there => by rw [List.length_map]; exact full row there) row

/-! ### Lines -/

/-- The blanks fill the column, though the widths count bytes and the blanks are for characters. -/
theorem padded_length {width : Nat} {text : String} (short : byteLength text.toList ≤ width) :
    (padded width text).length = width := by
  have characters := length_le_bytes text
  unfold padded
  rw [String.length_append, String.length_ofList, List.length_replicate]
  omega

theorem Fits.paddedRow_lengths {widths : List Nat} {cells : List String} (fits : Fits widths cells) :
    (paddedRow widths cells).map String.length = widths := by
  induction fits with
  | nil => rfl
  | cons short later inductionHypothesis =>
      unfold paddedRow
      rw [List.map_cons, padded_length short, inductionHypothesis]

theorem intercalate_length (separator : String) (parts : List String) :
    (separator.intercalate parts).length =
      (parts.map String.length).sum + (parts.length - 1) * separator.length := by
  induction parts with
  | nil => simp
  | cons first rest inductionHypothesis =>
      cases rest with
      | nil => simp
      | cons second rest =>
          rw [String.intercalate_cons_cons, String.length_append, String.length_append,
            inductionHypothesis]
          simp only [List.map_cons, List.sum_cons, List.length_cons, Nat.add_sub_cancel, Nat.succ_mul]
          omega

/-- The number of characters of a line. -/
def lineLength (widths : List Nat) : Nat := widths.sum + (widths.length - 1) * 3

theorem line_length {separator : String} {parts : List String} {widths : List Nat}
    (three : separator.length = 3) (lengths : parts.map String.length = widths) :
    (separator.intercalate parts).length = lineLength widths := by
  rw [intercalate_length, three, lengths, lineLength, ← lengths, List.length_map]

theorem divider_length (widths : List Nat) : (divider widths).length = lineLength widths := by
  refine line_length rfl ?_
  rw [List.map_map]
  exact List.map_id'' (fun width => by simp) widths

theorem Fits.rowLine_length {widths : List Nat} {cells : List String} (fits : Fits widths cells) :
    (rowLine widths cells).length = lineLength widths :=
  line_length rfl fits.paddedRow_lengths

/-- All lines of a table but the one under it have the same number of characters, whatever characters
the texts are made of. -/
theorem printTable_aligned {headers : List String} {rows : List (List String)}
    (full : ∀ row ∈ rows, row.length = headers.length) {line : String}
    (member : line ∈ (printTable headers rows).dropLast) :
    line.length = lineLength (columnWidths headers rows) := by
  unfold printTable at member
  split at member
  · cases member
  · dsimp only at member
    rw [← List.cons_append, ← List.cons_append, List.dropLast_concat] at member
    rcases List.mem_cons.mp member with rfl | member
    · exact (columnWidths_fits full List.mem_cons_self).rowLine_length
    · rcases List.mem_cons.mp member with rfl | member
      · exact divider_length _
      · obtain ⟨row, there, rfl⟩ := List.mem_map.mp member
        exact (columnWidths_fits full (List.mem_cons_of_mem _ there)).rowLine_length

/-- The name in the first row has three characters and four bytes. -/
theorem printTable_aligned_names :
    ((printTable ["id", "name"] [["7", "Zoë"], ["12", "Al"]]).dropLast.all
      fun line => decide (line.length = 9)) = true :=
  List.all_eq_true.mpr fun _ member =>
    decide_eq_true ((printTable_aligned (by decide) member).trans (by decide))

end Console

end MukhiDb.Model
